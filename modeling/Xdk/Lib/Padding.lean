import Mathlib.Data.Nat.ModEq

/-! # Positions with padding

`padUp unit position` is the first multiple of `unit` from `position` on; the unit 0 asks for no
padding.  Items of one length that are placed one after the other, each at the next such position,
are equally far apart.
-/

namespace Xdk.Lib

def padUp (unit position : Nat) : Nat :=
  if unit ≠ 0 ∧ position % unit ≠ 0 then position / unit * unit + unit else position

def Padded (unit position : Nat) : Prop := unit = 0 ∨ unit ∣ position

variable {unit position : Nat}

theorem le_padUp (unit position : Nat) : position ≤ padUp unit position := by
  simp only [padUp]
  split
  · rename_i unpadded
    have parts := Nat.div_add_mod' position unit
    have below := Nat.mod_lt position (Nat.pos_of_ne_zero unpadded.1)
    omega
  · exact Nat.le_refl _

theorem padded_padUp (unit p : Nat) : Padded unit (padUp unit p) := by
  simp only [padUp]
  split
  · exact .inr (Nat.dvd_add (Nat.dvd_mul_left _ _) (Nat.dvd_refl _))
  · rename_i padded
    by_cases zero : unit = 0
    · exact .inl zero
    · refine .inr (Nat.dvd_of_mod_eq_zero ?_)
      by_contra rest
      exact padded ⟨zero, rest⟩

theorem padUp_eq_self_iff : padUp unit position = position ↔ Padded unit position := by
  constructor
  · intro same
    exact same ▸ padded_padUp unit position
  · rintro (rfl | divides)
    · exact if_neg fun unpadded => unpadded.1 rfl
    · exact if_neg fun unpadded => unpadded.2 (Nat.mod_eq_zero_of_dvd divides)

/-- What stands in front of a padded position does not change the padding behind it. -/
theorem padUp_add {base : Nat} (padded : Padded unit base) (position : Nat) :
    padUp unit (base + position) = base + padUp unit position := by
  obtain rfl | ⟨units, rfl⟩ := padded
  · simp [padUp]
  · obtain rfl | positive := Nat.eq_zero_or_pos unit
    · simp
    · simp only [padUp, Nat.mul_add_mod, Nat.mul_add_div positive, Nat.add_mul]
      split
      · rw [Nat.mul_comm units, Nat.add_assoc]
      · rfl

theorem padUp_one (position : Nat) : padUp 1 position = position :=
  padUp_eq_self_iff.mpr (.inr (Nat.one_dvd _))

/-! ## As many items as fit -/

/-- How many items of `length`, the first at `first` and each `stride` behind the one before, end
    by `limit`. -/
def fitting (first length stride limit : Nat) : Nat :=
  if first + length ≤ limit then (limit - (first + length)) / stride + 1 else 0

variable {first length stride limit : Nat}

theorem fitting_eq_zero (full : limit < first + length) : fitting first length stride limit = 0 :=
  if_neg (Nat.not_le.mpr full)

theorem fitting_succ (pos : 0 < stride) (fits : first + length ≤ limit) :
    fitting first length stride limit = fitting (first + stride) length stride limit + 1 := by
  simp only [fitting, if_pos fits, Nat.add_right_comm first stride length]
  split
  · rw [Nat.div_eq_sub_div pos (by omega), Nat.sub_sub]
  · rw [Nat.div_eq_of_lt (by omega)]

/-- The items that fit are those that end by the limit. -/
theorem lt_fitting_iff (pos : 0 < stride) {i : Nat} :
    i < fitting first length stride limit ↔ first + stride * i + length ≤ limit := by
  simp only [fitting]
  split
  · rw [Nat.lt_succ_iff, Nat.le_div_iff_mul_le pos, Nat.mul_comm]
    omega
  · simp only [Nat.not_lt_zero, false_iff]
    omega

theorem fitting_pos_iff : 0 < fitting first length stride limit ↔ first + length ≤ limit := by
  simp only [fitting]
  split <;> simp_all

/-- The last item that fits is the last one to end. -/
theorem end_le_of_lt_fitting {i : Nat} (inside : i < fitting first length stride limit) :
    first + stride * i + length ≤
      first + length + (limit - (first + length)) / stride * stride := by
  have some : first + length ≤ limit := fitting_pos_iff.mp (Nat.zero_lt_of_lt inside)
  rw [fitting, if_pos some, Nat.lt_succ_iff] at inside
  have product := Nat.mul_le_mul_left stride inside
  rw [Nat.mul_comm _ stride]
  omega

end Xdk.Lib
