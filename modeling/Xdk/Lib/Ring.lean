import Mathlib.Data.List.Basic
import Mathlib.Data.Nat.ModEq

/-! # Windows of a ring

A ring of `size` cells is a function on indices of which only `0 .. size - 1` are
used.  `window size cells start count` lists `count` cells in ring order from
position `start`, where positions are unbounded counters and position `p` lives
in cell `p % size`.  A bounded queue in a ring is a window that grows at its end
and shrinks at its front.
-/

namespace Xdk.Lib

variable {α : Type*} {size : Nat} {start : Nat}

/-- Two positions less than `size` apart share a cell only when they are equal. -/
theorem position_inj {first second : Nat} (firstBound : first < size) (secondBound : second < size)
    (same : (start + first) % size = (start + second) % size) : first = second := by
  have congruent : Nat.ModEq size first second := Nat.ModEq.add_left_cancel' start same
  rwa [Nat.ModEq, Nat.mod_eq_of_lt firstBound, Nat.mod_eq_of_lt secondBound] at congruent

theorem position_eq_of_close {first second : Nat} (ordered : first ≤ second)
    (close : second < first + size) (same : first % size = second % size) : first = second := by
  have shifted : (first + 0) % size = (first + (second - first)) % size := by
    rw [Nat.add_zero, Nat.add_sub_cancel' ordered, same]
  have := position_inj (by omega) (by omega) shifted
  omega

theorem cell_ne_of_turn {a b : Nat} (firstLower : start ≤ a) (firstUpper : a < start + size)
    (secondLower : start ≤ b) (secondUpper : b < start + size) (ne : a ≠ b) :
    a % size ≠ b % size := by
  intro same
  obtain before | after := Nat.lt_or_gt_of_ne ne
  · exact ne (position_eq_of_close (Nat.le_of_lt before) (by omega) same)
  · exact ne (position_eq_of_close (Nat.le_of_lt after) (by omega) same.symm).symm

variable {i : Nat}

theorem succ_mod_eq (bound : i < size) :
    (i + 1) % size = if i + 1 = size then 0 else i + 1 := by
  split
  · rename_i wraps
    rw [wraps, Nat.mod_self]
  · exact Nat.mod_eq_of_lt (by omega)

/-- A cursor that is set back when it reaches the end. -/
theorem reset_eq_mod (le : i ≤ size) :
    (if size ≤ i then 0 else i) = i % size := by
  split
  · rename_i reached
    rw [Nat.le_antisymm le reached, Nat.mod_self]
  · exact (Nat.mod_eq_of_lt (by omega)).symm

variable {count : Nat}

theorem add_mod_lap_of_lt (bound : i < size) (fits : count ≤ size) :
    (i + count) % size = i + count ∨ (i + count) % size + size = i + count := by
  obtain less | more := Nat.lt_or_ge (i + count) size
  · exact .inl (Nat.mod_eq_of_lt less)
  · right
    rw [Nat.mod_eq_sub_mod more, Nat.mod_eq_of_lt (by omega), Nat.sub_add_cancel more]

/-- The cells after `index`, in one or two stretches. -/
theorem walk_eq (bound : i < size) (fits : count < size) :
    (if (i + count) % size < i then
        List.range' (i + 1) (size - (i + 1)) ++ List.range' 0 ((i + count) % size + 1)
      else List.range' (i + 1) ((i + count) % size - i)) =
      (List.range count).map fun off => (i + 1 + off) % size := by
  obtain inside | wraps := Nat.lt_or_ge (i + count) size
  · rw [Nat.mod_eq_of_lt inside, if_neg (by omega)]
    refine List.ext_getElem (by simp) fun off left _ => ?_
    rw [List.length_range'] at left
    simp only [List.getElem_range', List.getElem_map, List.getElem_range, Nat.one_mul]
    exact (Nat.mod_eq_of_lt (by omega)).symm
  · have rest : (i + count) % size = i + count - size := by
      rw [Nat.mod_eq_sub_mod wraps, Nat.mod_eq_of_lt (by omega)]
    rw [if_pos (by omega)]
    refine List.ext_getElem (by simp; omega) fun off left _ => ?_
    simp only [List.getElem_map, List.getElem_range, List.getElem_append, List.length_range',
      List.getElem_range', Nat.one_mul]
    split
    · exact (Nat.mod_eq_of_lt (by omega)).symm
    · simp only [List.length_append, List.length_range'] at left
      rw [Nat.mod_eq_sub_mod (by omega), Nat.mod_eq_of_lt (by omega)]
      omega

/-- How many cells that is. -/
theorem walk_length (lt : i < size) (fits : count < size) :
    (if (i + count) % size < i then size - i + (i + count) % size
      else (i + count) % size - i) = count := by
  obtain same | next := add_mod_lap_of_lt lt (Nat.le_of_lt fits)
  · rw [same, if_neg (by omega), Nat.add_sub_cancel_left]
  · rw [if_pos (by omega)]
    omega

/-- Positions at most one turn apart are on the same lap, or the later one is on the next. -/
theorem add_mod_lap (start : Nat) (pos : 0 < size) (fits : count ≤ size) :
    (start + count) % size = start % size + count ∨
      (start + count) % size + size = start % size + count := by
  rw [← Nat.mod_add_mod]
  exact add_mod_lap_of_lt (Nat.mod_lt start pos) fits

/-- The distance between two cells, going forward. -/
theorem mod_distance (start : Nat) (fits : count < size) :
    ((start + count) % size + size - start % size) % size = count := by
  obtain same | next := add_mod_lap start (by omega) (Nat.le_of_lt fits)
  · rw [same, show start % size + count + size - start % size = count + size by omega,
      Nat.add_mod_right, Nat.mod_eq_of_lt fits]
  · rw [next, Nat.add_sub_cancel_left, Nat.mod_eq_of_lt fits]

/-- One step nearer to the end of the turn. -/
theorem sub_mod_succ (pos : 0 < size) (inside : i % size ≠ 0) :
    (size - (i + 1) % size) % size + 1 = (size - i % size) % size := by
  have lt := Nat.mod_lt i pos
  have next : (i + 1) % size = if i % size + 1 = size then 0 else i % size + 1 := by
    rw [← succ_mod_eq lt, Nat.mod_add_mod]
  rw [next, Nat.mod_eq_of_lt (show size - i % size < size by omega)]
  split
  · rw [Nat.sub_zero, Nat.mod_self]
    omega
  · rw [Nat.mod_eq_of_lt (by omega)]
    omega

def window (size : Nat) (cells : Nat → α) (start count : Nat) : List α :=
  (List.range count).map fun offset => cells ((start + offset) % size)

section

variable (cells : Nat → α)
include cells

@[simp] theorem length_window (start count : Nat) :
    (window size cells start count).length = count := by
  simp [window]

@[simp] theorem window_zero (start : Nat) : window size cells start 0 = [] := rfl

theorem getElem_window (start c off : Nat) (bound : off < (window size cells start c).length) :
    (window size cells start c)[off] = cells ((start + off) % size) := by
  simp [window]

theorem window_succ (start c : Nat) :
    window size cells start (c + 1) =
      window size cells start c ++ [cells ((start + c) % size)] := by
  simp [window, List.range_succ]

theorem window_cons (start count : Nat) :
    window size cells start (count + 1) =
      cells (start % size) :: window size cells (start + 1) count := by
  simp only [window, List.range_succ_eq_map, List.map_cons, List.map_map]
  refine congrArg _ (List.map_congr_left fun offset _ => ?_)
  simp only [Function.comp_apply]
  congr 2
  omega

@[simp] theorem window_mod (start count : Nat) :
    window size cells (start % size) count = window size cells start count := by
  simp [window]

theorem window_update_outside (v : α) (outside : ∀ off < count, (start + off) % size ≠ i) :
    window size (Function.update cells i v) start count =
      window size cells start count := by
  refine List.map_congr_left fun off mem => ?_
  exact Function.update_of_ne (outside off (List.mem_range.mp mem)) _ _

/-- A write to the cell of the window's `offset`-th element replaces that element only. -/
theorem window_update_inside {off : Nat} (value : α) (bound : off < count) (fits : count ≤ size) :
    window size (Function.update cells ((start + off) % size) value) start count =
      (window size cells start count).set off value := by
  refine List.ext_getElem (by simp) fun index left right => ?_
  simp only [length_window] at left
  rw [getElem_window, List.getElem_set, getElem_window]
  split_ifs with same
  · rw [same, Function.update_self]
  · refine Function.update_of_ne (fun clash => same ?_) _ _
    exact (position_inj (by omega) (by omega) clash).symm

end

/-- The cell just past a window that does not fill the ring is outside it. -/
theorem next_cell_outside (room : count < size) :
    ∀ off < count, (start + off) % size ≠ (start + count) % size := by
  intro off bound clash
  have := position_inj (by omega) room clash
  omega

end Xdk.Lib
