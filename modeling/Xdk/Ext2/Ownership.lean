import Xdk.Ext2.Path

/-! # Who deletes the inodes of a path

`get_inode_ref` makes an object for each inode on a path.  `find_local_directory` deletes the
object of the directory that it has searched, and `locate_directory`, which has called it, deletes
the same object again.  The object of the last directory is deleted by `get_blocks_for_file`
alone, and the object of the file is handed to the caller.
-/

namespace Xdk.Ext2

open Xdk.Lib

/-- Each object is deleted once, apart from the one of the file, which was made last and is not
    deleted. -/
structure Objects.DeletedOnce (objects : Objects) : Prop where
  others : ∀ object, object + 1 < objects.created → objects.deleted.count object = 1
  file : objects.deleted.count (objects.created - 1) = 0

namespace Filesystem

/-! ## The way through the directories -/

variable {fs : Filesystem} {pathname : List UInt8} {second : Except Failure Unit}

theorem count_dropWhile_slash (text : List UInt8) :
    (text.dropWhile (· ≠ slash)).count slash = text.count slash := by
  induction text with
  | nil => rfl
  | cons byte rest ih =>
    by_cases isSlash : byte = slash
    · simp [isSlash]
    · rw [List.dropWhile_cons_of_pos (by simpa using isSlash), ih]
      simp [isSlash]

/-- Each directory is deleted twice, apart from the one that is found. -/
theorem locateDirectory_deleted {pathname : List UInt8} {dir : Inode} {object : Nat}
    {deleted : List Nat} {handle : Handle} {objects : Objects}
    (located : fs.locateDirectory second pathname ⟨object, dir⟩ ⟨object + 1, deleted⟩ =
      .ok (some handle, objects)) :
    ∃ dirs, pathname.count slash = dirs + 1 ∧ handle.object = object + dirs ∧
      objects = ⟨object + dirs + 1, deleted ++ twice object dirs⟩ := by
  induction length : pathname.length using Nat.strong_induction_on
    generalizing pathname dir object deleted with
  | h bound ih =>
    obtain ⟨rfl, rfl, rfl⟩ | ⟨tail, ⟨nextObject, nextDir⟩, again, rfl, rfl, isDeleted, later⟩ :=
      locateDirectory_cases located
    · exact ⟨0, by decide, rfl, by simp [twice]⟩
    · obtain rfl := Objects.eq_of_delete isDeleted
      have shorter : (tail.dropWhile (· ≠ slash)).length < bound := by
        rw [← length]
        exact Nat.lt_succ_of_le (List.dropWhile_suffix _).length_le
      obtain ⟨dirs, slashes, isHandle, isObjects⟩ := ih _ shorter later rfl
      rw [count_dropWhile_slash] at slashes
      refine ⟨dirs + 1, ?_, ?_, ?_⟩
      · rw [List.count_cons_self, slashes]
      · simp only [isHandle]
        omega
      · rw [isObjects]
        simp [twice, Nat.add_comm, Nat.add_left_comm]

/-! ## The objects afterwards -/

theorem count_twice {first c object : Nat} :
    (twice first c).count object =
      if first ≤ object ∧ object < first + c then 2 else 0 := by
  induction c generalizing first with
  | zero =>
    rw [if_neg (by omega)]
    rfl
  | succ c ih =>
    simp only [twice, List.count_cons, ih, beq_iff_eq]
    split_ifs <;> omega

/-- All objects that have been made when the file is found on a path with `dirs` directories. -/
theorem getBlocksForFile_objects {resolved : Resolved}
    (found : fs.getBlocksForFile second pathname = .ok resolved) :
    ∃ dirs, (seenPart pathname).count slash = dirs + 1 ∧
      resolved.objects = ⟨dirs + 2, twice 0 dirs ++ [dirs]⟩ := by
  obtain ⟨lastSlash, dir, root, iDir, objects, iFile, isTokens, -, -, isLocated, -, isObjects⟩ :=
    exists_of_getBlocksForFile found
  obtain ⟨copied, last, -, -⟩ := tokenize_spec (by simp) (by decide) isTokens
  obtain ⟨dirs, slashes, isDir, rfl⟩ := locateDirectory_deleted isLocated
  have all : (seenPart pathname).count slash = dirs + 1 := by
    have whole := List.take_append_drop (lastSlash + 1) dir
    rw [← slashes, ← List.nil_append (seenPart pathname), ← copied, ← whole,
      List.count_append, List.count_eq_zero.mpr last, Nat.add_zero, whole]
  exact ⟨dirs, all, by simp [isObjects, isDir]⟩

/-- The inodes of a path are deleted once each exactly if the path has no directory, that is, no
    slash after the first one. -/
theorem inodes_deleted_once_iff {second : Except Failure Unit} {pathname : List UInt8}
    {resolved : Resolved} (found : fs.getBlocksForFile second pathname = .ok resolved) :
    resolved.objects.DeletedOnce ↔ (seenPart pathname).count slash = 1 := by
  obtain ⟨dirs, slashes, isObjects⟩ := getBlocksForFile_objects found
  rw [isObjects]
  constructor
  · intro once
    by_contra more
    have root := once.others 0 (by simp)
    simp only [List.count_append, count_twice] at root
    rw [if_pos (by omega)] at root
    omega
  · intro single
    obtain rfl : dirs = 0 := by omega
    constructor
    · intro object made
      obtain rfl : object = 0 := by
        simp only at made
        omega
      rfl
    · rfl

/-- A file in the root directory. -/
theorem inodes_deleted_once_iff_flat : ∃ resolved,
    sampleFs.getBlocksForFile (.ok ()) (path [] [102]) = .ok resolved ∧
      resolved.objects.DeletedOnce := by
  have found : sampleFs.getBlocksForFile (.ok ()) (path [] [102]) = _ :=
    getBlocksForFile_flat moderate_sample root_sample (directory_sample (by decide))
      (legible_sample (by decide)) (by decide) (by decide) (.ok ())
  rw [openFile_of_child moderate_sample child_sample_root isFile_sample] at found
  exact ⟨_, found, (inodes_deleted_once_iff found).mpr (by decide)⟩

/-- On the way to `/e/f` in the sample volume, the object 0 of the root directory is deleted
    twice. -/
theorem root_deleted_twice : ∃ resolved,
    sampleFs.getBlocksForFile (.ok ()) (path [[101]] [102]) = .ok resolved ∧
      resolved.objects.deleted.count 0 = 2 ∧ ¬ resolved.objects.DeletedOnce := by
  have walked : sampleFs.walk (sampleInodeAt 2) [[101]] = some (sampleInodeAt 14) := by
    simp [walk, child_sample_e]
  have found := getBlocksForFile_eq moderate_sample root_sample (by decide) wellFormed_sample
    passable_sample walked
  rw [openFile_of_child moderate_sample (child_sample_file (by decide)) isFile_sample] at found
  refine ⟨_, found, rfl, ?_⟩
  intro once
  have root := once.others 0 (by decide)
  exact absurd root (by decide)

end Filesystem

end Xdk.Ext2
