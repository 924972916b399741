import Xdk.Ext2.BlockMap

/-! # Positions in a file with holes

The range of a list in `Logical_range_tree` has a block for each address that is not 0, but a
block in it is looked up by its place in the list, with the addresses that are 0.  A hole thus
moves all lists behind it, and at the end of the file the blocks have no range.  For a position
without a range, `lookup_block_and_offset` returns `NULL`, which as a status is `S_OK`.
-/

namespace Xdk.Ext2

open Xdk.Lib Volume

/-! ## What it should return -/

/-- The lookup of a position returns the pointer of its logical block, as it is listed, with the
    offset in the block; and an error beyond the last block. -/
def LooksUp (lists : List (List Nat)) (blockSize pos : Nat) : Prop :=
  ∀ block offset, ∃ status found place,
    (LogicalRangeTree.new lists blockSize).lookupBlockAndOffset pos block offset =
      some (status, found, place) ∧
    match lists.flatten[pos / blockSize]? with
    | some pointer => status = sOk ∧ found = pointer ∧ place = pos % blockSize
    | none => status ≠ sOk

/-- The holes in the lists before the one in which the non-zero addresses have been counted up to
    an index. -/
def holesBefore : List (List Nat) → Nat → Option Nat
  | [], _ => none
  | bal :: rest, index =>
    if index < countBlocks bal then some 0
    else (holesBefore rest (index - countBlocks bal)).map (· + (bal.length - countBlocks bal))

theorem countBlocks_le (bal : List Nat) : countBlocks bal ≤ bal.length := List.length_filter_le ..

variable {lists : List (List Nat)}

/-- The address in the place that is looked up stands as many places behind the right one as there
    are holes before. -/
theorem getElem_locate {i place : Nat} {bal : List Nat}
    (located : locate lists i = some (bal, place)) :
    ∃ holes, holesBefore lists i = some holes ∧
      bal[place]? = lists.flatten[i + holes]? := by
  induction lists generalizing i with
  | nil => cases located
  | cons first rest ih =>
    have short := countBlocks_le first
    rw [locate] at located
    rw [holesBefore, List.flatten_cons]
    split at located
    next inside =>
      cases located
      rw [if_pos inside]
      exact ⟨0, rfl, (List.getElem?_append_left (by omega)).symm⟩
    next outside =>
      obtain ⟨holes, inv, same⟩ := ih located
      rw [if_neg outside, inv]
      refine ⟨holes + (first.length - countBlocks first), rfl, ?_⟩
      rw [List.getElem?_append_right (by omega), same]
      congr 1
      omega

/-! ## The range that is found -/

/-- Ranges that begin behind a position do not contain it. -/
theorem find_rangesFrom_none {blockSize pos currBlock : Nat} {lists : List (List Nat)}
    (behind : pos < currBlock * blockSize) :
    ((rangesFrom blockSize currBlock lists).find? fun range =>
      range.lower ≤ pos ∧ pos < range.lower + range.length) = none := by
  induction lists generalizing currBlock with
  | nil => rfl
  | cons bal rest ih =>
    have later : pos < (currBlock + countBlocks bal) * blockSize := by
      rw [Nat.add_mul]
      omega
    rw [rangesFrom]
    split
    · rw [List.find?_cons_of_neg]
      · exact ih later
      · simp only [decide_eq_true_eq]
        omega
    · exact ih later

/-- A position is in the range of the list up to which the non-zero addresses are counted, unless
    the length of this range does not fit in its type. -/
theorem find_rangesFrom {blockSize pos currBlock : Nat} (positive : 0 < blockSize)
    (before : currBlock ≤ pos / blockSize) :
    ((rangesFrom blockSize currBlock lists).find? fun range =>
        range.lower ≤ pos ∧ pos < range.lower + range.length) =
      (locate lists (pos / blockSize - currBlock)).bind fun found =>
        if found.2 * blockSize + pos % blockSize < wrap 32 (countBlocks found.1 * blockSize) then
          some ⟨(pos / blockSize - found.2) * blockSize,
            wrap 32 (countBlocks found.1 * blockSize), found.1⟩
        else none := by
  have split := Nat.div_add_mod' pos blockSize
  have part := Nat.mod_lt pos positive
  induction lists generalizing currBlock with
  | nil => rfl
  | cons bal rest ih =>
    have lower : currBlock * blockSize ≤ pos / blockSize * blockSize :=
      Nat.mul_le_mul_right _ before
    have lengthLe := wrap_le 32 (countBlocks bal * blockSize)
    rw [rangesFrom]
    by_cases here : pos / blockSize - currBlock < countBlocks bal
    · have delta : pos = currBlock * blockSize +
          ((pos / blockSize - currBlock) * blockSize + pos % blockSize) := by
        rw [Nat.sub_mul]
        omega
      have behind : pos < (currBlock + countBlocks bal) * blockSize := by
        have next : pos / blockSize + 1 ≤ currBlock + countBlocks bal := by omega
        have := Nat.mul_le_mul_right blockSize next
        rw [Nat.add_mul] at this
        omega
      rw [if_pos (by omega), locate_here here, Option.bind_some]
      dsimp only
      split
      next inside =>
        rw [List.find?_cons_of_pos (by simp only [decide_eq_true_eq]; omega),
          Nat.sub_sub_self before]
      next outside =>
        rw [List.find?_cons_of_neg (by simp only [decide_eq_true_eq]; omega)]
        exact find_rangesFrom_none behind
    · have past : (currBlock + countBlocks bal) * blockSize ≤ pos := by
        have := Nat.mul_le_mul_right blockSize (show currBlock + countBlocks bal ≤ pos / blockSize
          by omega)
        omega
      rw [Nat.add_mul] at past
      rw [locate_later rfl (by omega), Nat.sub_sub, ← ih (by omega)]
      split
      · exact List.find?_cons_of_neg (by simp only [decide_eq_true_eq]; omega)
      · rfl

theorem searchRegion_new {blockSize : Nat} (positive : 0 < blockSize) (lists : List (List Nat))
    (pos : Nat) :
    (LogicalRangeTree.new lists blockSize).searchRegion pos =
      (locate lists (pos / blockSize)).bind fun found =>
        if found.2 * blockSize + pos % blockSize < wrap 32 (countBlocks found.1 * blockSize) then
          some ⟨(pos / blockSize - found.2) * blockSize,
            wrap 32 (countBlocks found.1 * blockSize), found.1⟩
        else none :=
  find_rangesFrom positive (Nat.zero_le _)

/-! ## The contract -/

/-- The non-zero addresses before a position lead to a place in a list: the range of this list
    reaches the position, and the pointer that stands as many places behind the right one as there
    are holes before this list is the same pointer. -/
structure Landed (lists : List (List Nat)) (blockSize pos : Nat) (bal : List Nat)
    (place holes : Nat) : Prop where
  located : locate lists (pos / blockSize) = some (bal, place)
  skipped : holesBefore lists (pos / blockSize) = some holes
  reached : place * blockSize + pos % blockSize < wrap 32 (countBlocks bal * blockSize)
  same : holes = 0 ∨ lists.flatten[pos / blockSize + holes]? = lists.flatten[pos / blockSize]?

section Contract

variable {lists : List (List Nat)} {blockSize pos place : Nat} {bal : List Nat}

/-- The lookup in a range. -/
theorem lookup_located (positive : 0 < blockSize)
    (located : locate lists (pos / blockSize) = some (bal, place))
    (reached : place * blockSize + pos % blockSize < wrap 32 (countBlocks bal * blockSize))
    (b off : Nat) :
    (LogicalRangeTree.new lists blockSize).lookupBlockAndOffset pos b off =
      (bal[place]?).map fun found => (sOk, found, pos % blockSize) := by
  obtain ⟨-, -, before⟩ := locate_spec located
  have whole := Nat.div_add_mod' pos blockSize
  have region : (LogicalRangeTree.new lists blockSize).searchRegion pos =
      some ⟨(pos / blockSize - place) * blockSize, wrap 32 (countBlocks bal * blockSize), bal⟩ := by
    rw [searchRegion_new positive, located, Option.bind_some, if_pos reached]
  have delta : pos - (pos / blockSize - place) * blockSize =
      place * blockSize + pos % blockSize := by
    have part := Nat.mul_le_mul_right blockSize before
    rw [Nat.sub_mul]
    omega
  have small := reached.trans (wrap_lt 32 _)
  rw [LogicalRangeTree.lookupBlockAndOffset, region]
  dsimp only
  rw [delta, wrap_of_lt small, LogicalRangeTree.new]
  rw [Nat.mul_comm place, Nat.mul_add_div positive, Nat.mul_add_mod, Nat.mod_mod,
    Nat.div_eq_of_lt (Nat.mod_lt pos positive), Nat.add_zero]

section

variable (missed : (LogicalRangeTree.new lists blockSize).searchRegion pos = none)
include missed

/-- The lookup without a range leaves the variables alone. -/
theorem lookup_missed (block off : Nat) :
    (LogicalRangeTree.new lists blockSize).lookupBlockAndOffset pos block off =
      some (null, block, off) := by
  rw [LogicalRangeTree.lookupBlockAndOffset, missed]

/-- A position without a range is never looked up as it should be. -/
theorem not_looksUp_of_missed :
    ¬ LooksUp lists blockSize pos := by
  intro right
  cases isPointer : lists.flatten[pos / blockSize]? with
  | none =>
    obtain ⟨status, found, place, looked, holds⟩ := right 0 0
    rw [isPointer] at holds
    rw [lookup_missed missed] at looked
    cases looked
    exact holds rfl
  | some ptr =>
    obtain ⟨status, found, place, looked, holds⟩ := right (ptr + 1) 0
    rw [isPointer] at holds
    rw [lookup_missed missed] at looked
    cases looked
    exact absurd holds.2.1 (Nat.succ_ne_self ptr)

end

/-- The block of a position is found exactly if the holes before it do not matter. -/
theorem lookup_block_and_offset_iff (positive : 0 < blockSize) :
    LooksUp lists blockSize pos ↔
      ∃ bal place holes, Landed lists blockSize pos bal place holes := by
  constructor
  · intro right
    cases located : locate lists (pos / blockSize) with
    | none =>
      apply absurd right
      apply not_looksUp_of_missed
      rw [searchRegion_new positive, located, Option.bind_none]
    | some found =>
      obtain ⟨bal, place⟩ := found
      by_cases reached :
          place * blockSize + pos % blockSize < wrap 32 (countBlocks bal * blockSize)
      · obtain ⟨holes, skipped, isFound⟩ := getElem_locate located
        obtain ⟨status, found, offset, looked, holds⟩ := right 0 0
        rw [lookup_located positive located reached, isFound] at looked
        obtain ⟨pointer, isPointer, same⟩ := Option.map_eq_some_iff.mp looked
        refine ⟨bal, place, holes, located, skipped, reached, .inr ?_⟩
        cases same
        rw [isPointer]
        generalize isRight : lists.flatten[pos / blockSize]? = access at holds
        cases access with
        | none =>
          exact absurd rfl holds
        | some pointer =>
          rw [holds.2.1]
      · apply absurd right
        apply not_looksUp_of_missed
        rw [searchRegion_new positive, located, Option.bind_some, if_neg reached]
  · rintro ⟨bal, place, holes, landed⟩ block offset
    obtain ⟨_, counted, _⟩ := locate_spec landed.located
    obtain ⟨_, skipped, isFound⟩ := getElem_locate landed.located
    cases landed.skipped.symm.trans skipped
    have inside : place < bal.length := counted.trans_le (countBlocks_le bal)
    have same : lists.flatten[pos / blockSize + holes]? = lists.flatten[pos / blockSize]? := by
      obtain rfl | same := landed.same
      · rfl
      · exact same
    rw [lookup_located positive landed.located landed.reached, ← same, ← isFound,
      List.getElem?_eq_getElem inside]
    exact ⟨sOk, bal[place], pos % blockSize, rfl, rfl, rfl, rfl⟩

end Contract

/-- A hole at the end of the last list does no harm. -/
theorem lookup_block_and_offset_iff_last : LooksUp [[5, 6], [7, 0]] 1024 2100 :=
  (lookup_block_and_offset_iff (by decide)).mpr ⟨[7, 0], 0, 0, rfl, rfl, by decide, .inl rfl⟩

/-- With a hole at the beginning, the block 1 is looked up in the second list; the block 3, which
    is listed, is not found; and neither is the block 4, which is not, with the status `S_OK`. -/
theorem lookup_block_and_offset_wrong :
    (LogicalRangeTree.new [[0, 7], [9, 8]] 1024).lookupBlockAndOffset 1024 0 0 =
        some (sOk, 9, 0) ∧
      [[0, 7], [9, 8]].flatten[1024 / 1024]? = some 7 ∧
      (LogicalRangeTree.new [[0, 7], [9, 8]] 1024).lookupBlockAndOffset 3072 0 0 =
        some (sOk, 0, 0) ∧
      [[0, 7], [9, 8]].flatten[3072 / 1024]? = some 8 ∧
      (LogicalRangeTree.new [[0, 7], [9, 8]] 1024).lookupBlockAndOffset 4096 0 0 =
        some (sOk, 0, 0) ∧
      [[0, 7], [9, 8]].flatten[4096 / 1024]? = none := by
  decide

end Xdk.Ext2
