import Mathlib.Data.List.TakeWhile
import Xdk.Ext2.BlockMap
import Xdk.Ext2.Directory

/-! # What is read of a directory

`get_directory_entries` goes through the lists of addresses block by block.  It reads the content
of the directory, as long as this is not longer than what the lists that can be reached hold.
-/

namespace Xdk.Ext2

open Xdk.Lib

/-! ## The lists of a collective -/

theorem elementAfter_of_linked {heap : Heap} {a i : Nat} {rest : List Nat}
    (linked : Linked heap.next (a :: rest)) :
    heap.elementAfter i (some a) = (a :: rest)[i]? := by
  induction i generalizing a rest with
  | zero => rfl
  | succ i ih =>
    cases rest with
    | nil =>
      have last : heap.next a = none := linked
      rw [Heap.elementAfter, last]
      cases i <;> rfl
    | cons second rest =>
      rw [Heap.elementAfter, linked.1, ih linked.2]
      rfl

theorem Reached.getBlockList {heap : Heap} {collective : Collective} {elements : List Nat}
    {addresses : List (List Nat)} (reached : Reached heap collective elements addresses)
    {i : Nat} (inside : i < collective.listCount) :
    collective.getBlockList heap i = addresses[i]? := by
  rw [Collective.getBlockList, if_neg (by omega), Collective.head, reached.ends,
    ← reached.addresses, List.getElem?_map]
  rw [reached.count] at inside
  cases elements with
  | nil => cases inside
  | cons first rest =>
    have walk : heap.elementAfter i (some first) = (first :: rest)[i]? :=
      elementAfter_of_linked (reached.linked (List.cons_ne_nil first rest))
    exact congrArg (Option.map _) walk

theorem mapM_asserted {α : Type} {items : List α} {ptr : Nat → Option α}
    (same : ∀ i < items.length, ptr i = items[i]?) :
    (List.range items.length).mapM (fun i => asserted (ptr i)) = .ok items := by
  induction items generalizing ptr with
  | nil => rfl
  | cons first rest ih =>
    have tail : (List.range rest.length).mapM
        ((fun i => asserted (ptr i)) ∘ Nat.succ) = .ok rest :=
      ih fun i inside => same (i + 1) (Nat.succ_lt_succ inside)
    rw [List.length_cons, List.range_succ_eq_map, List.mapM_cons, same 0 (Nat.succ_pos _),
      List.mapM_map, tail]
    rfl

namespace Volume

variable {volume : Volume}

theorem getDirectoryEntries_eq_readLists (dirInode : Inode) :
    volume.getDirectoryEntries dirInode =
      .ok (volume.readLists (volume.reachedLists dirInode) dirInode.size) := by
  obtain ⟨elements, reached⟩ := exists_reached volume dirInode
  have count : (volume.getBlocksForInode dirInode).2.listCount =
      (volume.reachedLists dirInode).length := by
    rw [reached.count, ← reached.addresses, List.length_map]
  rw [getDirectoryEntries, count,
    mapM_asserted fun index inside => reached.getBlockList (count ▸ inside)]
  rfl

/-! ## The blocks in the order in which they are read -/

def usedBlocks (lists : List (List Nat)) : List Nat := lists.flatMap (·.takeWhile (· ≠ 0))

theorem ne_zero_of_mem_takeWhile {addresses : List Nat} {b : Nat}
    (mem : b ∈ addresses.takeWhile (· ≠ 0)) : b ≠ 0 := by
  simpa using List.mem_takeWhile_imp mem

section UsedBlocks

variable {address : Nat → Nat} {length count index : Nat} {rest : List (List Nat)}

theorem exists_takeWhile_range (short : count ≤ length)
    (used : ∀ i < count, address i ≠ 0) :
    ∃ more, ((List.range length).map address).takeWhile (· ≠ 0) =
      (List.range count).map address ++ more := by
  obtain ⟨more, rfl⟩ := Nat.exists_eq_add_of_le short
  have kept : ∀ b ∈ (List.range count).map address, decide (b ≠ 0) = true := by
    intro b mem
    obtain ⟨i, inside, rfl⟩ := List.mem_map.mp mem
    exact decide_eq_true (used i (List.mem_range.mp inside))
  rw [List.range_add, List.map_append, List.takeWhile_append_of_pos kept]
  exact ⟨_, rfl⟩

theorem usedBlocks_here {index : Nat} (short : count ≤ length)
    (used : ∀ i < count, address i ≠ 0) (inside : index < count) :
    (usedBlocks ((List.range length).map address :: rest))[index]? = some (address index) := by
  obtain ⟨more, taken⟩ := exists_takeWhile_range short used
  rw [usedBlocks, List.flatMap_cons, taken, List.append_assoc,
    List.getElem?_append_left (by simpa using inside)]
  simp [inside]

theorem usedBlocks_later {index : Nat} (used : ∀ i < length, address i ≠ 0)
    (outside : length ≤ index) :
    (usedBlocks ((List.range length).map address :: rest))[index]? =
      (usedBlocks rest)[index - length]? := by
  have kept : ((List.range length).map address).takeWhile (· ≠ 0) =
      (List.range length).map address := by
    refine List.takeWhile_eq_self_iff.mpr fun block mem => ?_
    obtain ⟨i, inside, rfl⟩ := List.mem_map.mp mem
    exact decide_eq_true (used i (List.mem_range.mp inside))
  rw [usedBlocks, List.flatMap_cons, kept, List.getElem?_append_right (by simpa using outside),
    List.length_map, List.length_range]
  rfl

end UsedBlocks

/-- The blocks of a file are read in order, up to the end of the first list of doubly indirect
    addresses. -/
theorem getElem?_usedBlocks {i : Inode} {index : Nat}
    (allocated : ∀ before ≤ index, (volume.blockMap i before).isSome)
    (near : index < 12 + 2 * volume.addressesPerBlock) :
    (usedBlocks (volume.reachedLists i))[index]? = volume.blockMap i index := by
  obtain direct | indirect := Nat.lt_or_ge index 12
  · rw [blockMap_eq_direct allocated direct]
    exact usedBlocks_here (Nat.succ_le_of_lt direct)
      (fun place lt => direct_used allocated (by omega) (by omega)) (Nat.lt_succ_self _)
  have pos : 0 < volume.addressesPerBlock := by omega
  obtain ⟨root, _⟩ := singly_used allocated pos (by omega)
  rw [reachedLists_eq root, Inode.getDirectBlocks,
    usedBlocks_later (fun place lt => direct_used allocated lt (by omega)) indirect]
  obtain singly | doubly := Nat.lt_or_ge (index - 12) volume.addressesPerBlock
  · rw [blockMap_eq_singly allocated indirect singly]
    exact usedBlocks_here (Nat.succ_le_of_lt singly)
      (fun place lt => (singly_used allocated (by omega) (by omega)).2) (Nat.lt_succ_self _)
  have large : 12 + volume.addressesPerBlock ≤ index := by omega
  have small : index - 12 - volume.addressesPerBlock < volume.addressesPerBlock := by omega
  obtain ⟨root, first, _⟩ := doubly_used allocated pos large
  rw [getBlockAddressList,
    usedBlocks_later (fun place lt => (singly_used allocated lt (by omega)).2) doubly,
    head_doublyLists pos root first, blockMap_eq_doubly allocated large small]
  exact usedBlocks_here (Nat.succ_le_of_lt small)
    (fun place lt => (doubly_used allocated (by omega) (by omega)).2.2) (Nat.lt_succ_self _)

/-! ## The bytes -/

theorem length_bytes (off count : Nat) : (volume.bytes off count).length = count := by
  simp [bytes]

theorem readBlocks_cons {baddr : Nat} (notZero : baddr ≠ 0) (rest : List Nat) (remaining : Nat) :
    volume.readBlocks (baddr :: rest) remaining =
      volume.bytes (volume.blockToAbsOffset baddr) (min remaining volume.blockSize) ++
        volume.readBlocks rest (remaining - min remaining volume.blockSize) := if_neg notZero

theorem readBlocks_zero (bs : List Nat) : volume.readBlocks bs 0 = [] := by
  induction bs with
  | nil => rfl
  | cons baddr rest ih =>
    by_cases zero : baddr = 0
    · exact if_pos zero
    · rw [readBlocks_cons zero, Nat.zero_min, ih]
      rfl

theorem readBlocks_append {before : List Nat} (used : ∀ b ∈ before, b ≠ 0)
    (after : List Nat) (remaining : Nat) :
    volume.readBlocks (before ++ after) remaining =
      volume.readBlocks before remaining ++
        volume.readBlocks after (remaining - (volume.readBlocks before remaining).length) := by
  induction before generalizing remaining with
  | nil => rfl
  | cons baddr rest ih =>
    have notZero := used baddr (List.mem_cons_self ..)
    rw [List.cons_append, readBlocks_cons notZero, readBlocks_cons notZero,
      ih fun b mem => used b (List.mem_cons_of_mem _ mem)]
    simp only [List.append_assoc, List.length_append, length_bytes, Nat.sub_sub]

theorem readBlocks_takeWhile (bs : List Nat) (remaining : Nat) :
    volume.readBlocks (bs.takeWhile (· ≠ 0)) remaining =
      volume.readBlocks bs remaining := by
  induction bs generalizing remaining with
  | nil => rfl
  | cons baddr rest ih =>
    by_cases zero : baddr = 0
    · simp [readBlocks, zero]
    · rw [List.takeWhile_cons, if_pos (decide_eq_true zero), readBlocks_cons zero,
        readBlocks_cons zero, ih]

theorem readLists_eq_readBlocks (lists : List (List Nat)) (remaining : Nat) :
    volume.readLists lists remaining = volume.readBlocks (usedBlocks lists) remaining := by
  induction lists generalizing remaining with
  | nil => rfl
  | cons bal rest ih =>
    have blocks : usedBlocks (bal :: rest) = bal.takeWhile (· ≠ 0) ++ usedBlocks rest :=
      List.flatMap_cons
    rw [readLists, ih, blocks,
      readBlocks_append fun _ => ne_zero_of_mem_takeWhile, readBlocks_takeWhile]

/-- What is read of blocks that are given by `blockOf`. -/
theorem readBlocks_eq {blockOf : Nat → Nat} {bs : List Nat} {size : Nat}
    (given : ∀ i, i * volume.blockSize < size →
      bs[i]? = some (blockOf i) ∧ blockOf i ≠ 0) :
    volume.readBlocks bs size = (List.range size).map fun pos =>
      volume.device (volume.blockToAbsOffset (blockOf (pos / volume.blockSize)) +
        pos % volume.blockSize) := by
  have positive := volume.blockSize_pos
  induction bs generalizing size blockOf with
  | nil =>
    have empty : size = 0 := by
      refine Nat.eq_zero_of_not_pos fun some => ?_
      cases (given 0 (by omega)).1
    rw [empty]
    rfl
  | cons baddr rest ih =>
    obtain rfl | some := Nat.eq_zero_or_pos size
    · exact readBlocks_zero _
    obtain ⟨here, notZero⟩ := given 0 (by omega)
    obtain rfl : baddr = blockOf 0 := by simpa using here
    have tail := @ih (fun i => blockOf (i + 1))
      (size - min size volume.blockSize) fun i inside =>
        given (i + 1) (by rw [Nat.add_mul]; omega)
    have split : size = min size volume.blockSize + (size - min size volume.blockSize) := by omega
    rw [readBlocks_cons notZero, tail]
    conv_rhs => rw [split, List.range_add, List.map_append, List.map_map]
    congr 1
    · refine List.map_congr_left fun pos inside => ?_
      have lt : pos < volume.blockSize := by
        have := List.mem_range.mp inside
        omega
      rw [Nat.div_eq_of_lt lt, Nat.mod_eq_of_lt lt]
    · refine List.map_congr_left fun pos inside => ?_
      have full : min size volume.blockSize = volume.blockSize := by
        have := List.mem_range.mp inside
        omega
      rw [Function.comp_apply, full, Nat.add_div_left pos positive, Nat.add_mod_left]

def fileContent (volume : Volume) (inode : Inode) : List UInt8 :=
  (List.range inode.size).map fun pos => (volume.fileByte inode pos).getD 0

theorem length_fileContent (i : Inode) : (volume.fileContent i).length = i.size := by
  simp [fileContent]

/-- The content of a directory is read, when it is not longer than what can be reached. -/
theorem getDirectoryEntries_eq {dirInode : Inode} (allocated : volume.Allocated dirInode)
    (near : dirInode.size ≤ (12 + 2 * volume.addressesPerBlock) * volume.blockSize) :
    volume.getDirectoryEntries dirInode = .ok (volume.fileContent dirInode) := by
  have positive := volume.blockSize_pos
  let blockOf := fun i => (volume.blockMap dirInode i).getD 0
  have mapped : ∀ i, i * volume.blockSize < dirInode.size →
      (usedBlocks (volume.reachedLists dirInode))[i]? = some (blockOf i) ∧
      blockOf i ≠ 0 ∧ volume.blockMap dirInode i = some (blockOf i) := by
    intro i inside
    have nearIndex : i < 12 + 2 * volume.addressesPerBlock :=
      Nat.lt_of_mul_lt_mul_right (Nat.lt_of_lt_of_le inside near)
    have before := allocated.before inside
    rw [Nat.mul_div_cancel _ positive] at before
    have listed := getElem?_usedBlocks before nearIndex
    obtain ⟨block, isBlock⟩ := Option.isSome_iff_exists.mp (before i (Nat.le_refl _))
    have same : blockOf i = block := by
      simp only [blockOf, isBlock]
      rfl
    rw [isBlock] at listed
    obtain ⟨bal, _, taken⟩ := List.mem_flatMap.mp (List.mem_of_getElem? listed)
    rw [same]
    exact ⟨listed, ne_zero_of_mem_takeWhile taken, isBlock⟩
  rw [getDirectoryEntries_eq_readLists, readLists_eq_readBlocks,
    readBlocks_eq fun i inside => ⟨(mapped i inside).1, (mapped i inside).2.1⟩]
  refine congrArg Except.ok (List.map_congr_left fun pos mem => ?_)
  have inside : pos / volume.blockSize * volume.blockSize < dirInode.size :=
    Nat.lt_of_le_of_lt (Nat.div_mul_le_self ..) (List.mem_range.mp mem)
  rw [fileByte, contentByte, (mapped _ inside).2.2]
  rfl

end Volume

end Xdk.Ext2
