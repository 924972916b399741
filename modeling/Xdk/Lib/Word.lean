import Mathlib.Data.Nat.ModEq

/-! # Unsigned integers of a width

The unsigned integers of `width` bits are the numbers below `2 ^ width`.  A counter that is
only ever incremented is a number of any size of which the machine keeps the last bits;
the difference of two such counters is right as long as the true difference fits.
-/

namespace Xdk.Lib

def wrap (width value : Nat) : Nat := value % 2 ^ width

def wrapSub (width left right : Nat) : Nat := (left + (2 ^ width - right)) % 2 ^ width

variable {width : Nat}

theorem wrap_of_lt {value : Nat} (fits : value < 2 ^ width) : wrap width value = value :=
  Nat.mod_eq_of_lt fits

theorem wrap_lt (width v : Nat) : wrap width v < 2 ^ width :=
  Nat.mod_lt _ (Nat.two_pow_pos width)

theorem wrap_le (width value : Nat) : wrap width value ≤ value := Nat.mod_le _ _

/-- The counter goes on from what has been kept of it. -/
theorem wrap_wrap_succ (width v : Nat) :
    wrap width (wrap width v + 1) = wrap width (v + 1) := Nat.mod_add_mod _ _ _

/-- Two counters that are close agree in their last bits only if they are equal. -/
theorem eq_of_wrap_eq {first second : Nat} (ordered : first ≤ second)
    (close : second < first + 2 ^ width) (same : wrap width first = wrap width second) :
    first = second := by
  have divides : 2 ^ width ∣ second - first := (Nat.modEq_iff_dvd' ordered).mp same
  have none := Nat.eq_zero_of_dvd_of_lt divides (by omega)
  omega

/-- The difference of two counters. -/
theorem wrapSub_wrap {left right : Nat} (ordered : right ≤ left) :
    wrapSub width (wrap width left) (wrap width right) = wrap width (left - right) := by
  obtain ⟨distance, rfl⟩ := Nat.exists_eq_add_of_le ordered
  rw [Nat.add_sub_cancel_left]
  have lt := wrap_lt width right
  have whole : right + (2 ^ width - wrap width right) ≡ 0 [MOD 2 ^ width] := by
    have kept : wrap width right ≡ right [MOD 2 ^ width] := Nat.mod_modEq _ _
    calc right + (2 ^ width - wrap width right)
        ≡ wrap width right + (2 ^ width - wrap width right) [MOD 2 ^ width] :=
          kept.symm.add_right _
      _ = 2 ^ width := Nat.add_sub_cancel' (Nat.le_of_lt lt)
      _ ≡ 0 [MOD 2 ^ width] := Nat.modEq_zero_iff_dvd.mpr (Nat.dvd_refl _)
  calc wrap width (right + distance) + (2 ^ width - wrap width right)
      ≡ right + distance + (2 ^ width - wrap width right) [MOD 2 ^ width] :=
        (Nat.mod_modEq _ _).add_right _
    _ = right + (2 ^ width - wrap width right) + distance := Nat.add_right_comm _ _ _
    _ ≡ 0 + distance [MOD 2 ^ width] := whole.add_right _
    _ = distance := Nat.zero_add _

theorem wrapSub_of_le {left right : Nat} (ordered : right ≤ left) (fits : left < 2 ^ width) :
    wrapSub width left right = left - right := by
  have difference : wrapSub width (wrap width left) (wrap width right) =
      wrap width (left - right) := wrapSub_wrap ordered
  rwa [wrap_of_lt fits, wrap_of_lt (Nat.lt_of_le_of_lt ordered fits),
    wrap_of_lt (Nat.lt_of_le_of_lt (Nat.sub_le _ _) fits)] at difference

end Xdk.Lib
