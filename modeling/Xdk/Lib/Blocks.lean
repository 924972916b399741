import Mathlib.Data.Nat.ModEq

/-! # Positions in blocks

The positions `0, 1, 2, …` are divided into blocks of `size` positions.  `blockEnd size position`
is the last position of the block of `position`, which is the first one from there on whose
successor is divisible by `size`.
-/

namespace Xdk.Lib

def blockEnd (size position : Nat) : Nat := position / size * size + (size - 1)

variable {size position other count : Nat}

theorem le_blockEnd (pos : 0 < size) : position ≤ blockEnd size position := by
  have below := Nat.mod_lt position pos
  have parts := Nat.div_add_mod' position size
  rw [blockEnd]
  omega

theorem blockEnd_lt (positive : 0 < size) : blockEnd size position < position + size := by
  have below := Nat.div_mul_le_self position size
  rw [blockEnd]
  omega

theorem dvd_blockEnd_succ (positive : 0 < size) : size ∣ blockEnd size position + 1 := by
  have whole : blockEnd size position + 1 = (position / size + 1) * size := by
    rw [blockEnd, Nat.succ_mul]
    omega
  exact whole ▸ Nat.dvd_mul_left _ _

/-- The end of a block is the only one within `size` positions. -/
theorem eq_blockEnd (lower : position ≤ other) (upper : other < position + size)
    (ends : size ∣ other + 1) : other = blockEnd size position := by
  have pos : 0 < size := by omega
  have least : position ≤ blockEnd size position := le_blockEnd pos
  have most : blockEnd size position < position + size := blockEnd_lt pos
  have last := @dvd_blockEnd_succ size position pos
  obtain before | after := Nat.le_total other (blockEnd size position)
  · have divides := Nat.dvd_sub last ends
    have none := Nat.eq_zero_of_dvd_of_lt divides (by omega)
    omega
  · have divides := Nat.dvd_sub ends last
    have none := Nat.eq_zero_of_dvd_of_lt divides (by omega)
    omega

theorem blockEnd_add_of_le (inside : position + count ≤ blockEnd size position) :
    blockEnd size (position + count) = blockEnd size position := by
  obtain rfl | positive := Nat.eq_zero_or_pos size
  · simp [blockEnd]
  · have upper : blockEnd size position < position + size := blockEnd_lt positive
    exact (eq_blockEnd inside (by omega) (dvd_blockEnd_succ positive)).symm

theorem blockEnd_add_of_lt (pos : 0 < size)
    (outside : blockEnd size position < position + count)
    (fits : count ≤ size) : blockEnd size (position + count) = blockEnd size position + size := by
  have lower : position ≤ blockEnd size position := le_blockEnd pos
  have ends : size ∣ blockEnd size position + size + 1 := by
    rw [Nat.add_right_comm]
    exact Nat.dvd_add (dvd_blockEnd_succ pos) (Nat.dvd_refl _)
  exact (eq_blockEnd (by omega) (by omega) ends).symm

variable {whole : Nat}

/-- The blocks fill a ring whose size is a multiple of theirs. -/
theorem blockEnd_lt_of_dvd {whole : Nat} (positive : 0 < size) (divides : size ∣ whole)
    (lt : position < whole) : blockEnd size position < whole := by
  obtain ⟨blocks, rfl⟩ := divides
  have lo : position / size < blocks := Nat.div_lt_of_lt_mul lt
  have product := Nat.mul_le_mul_right size lo
  rw [Nat.succ_mul, Nat.mul_comm blocks] at product
  rw [blockEnd]
  omega

theorem dvd_succ_mod_iff (divides : size ∣ whole) :
    size ∣ position % whole + 1 ↔ size ∣ position + 1 := by
  have same : position % whole + 1 ≡ position + 1 [MOD size] :=
    ((Nat.mod_modEq position whole).of_dvd divides).add_right 1
  exact same.dvd_iff (Nat.dvd_refl _)

/-- A block that starts in a ring whose size is a multiple of the block's does not wrap around. -/
theorem block_le_of_dvd {whole : Nat} (divides : size ∣ whole) (aligned : size ∣ position)
    (pos : 0 < whole) : position % whole + size ≤ whole := by
  have below := Nat.mod_lt position pos
  have rest : size ∣ whole - position % whole :=
    Nat.dvd_sub divides ((Nat.dvd_mod_iff divides).mpr aligned)
  have least := Nat.le_of_dvd (by omega) rest
  omega

theorem block_mod {whole offset : Nat} (divides : size ∣ whole) (aligned : size ∣ position)
    (pos : 0 < whole) (inside : offset < size) :
    (position + offset) % whole = position % whole + offset := by
  have fits := block_le_of_dvd divides aligned pos
  rw [← Nat.mod_add_mod, Nat.mod_eq_of_lt (by omega)]

end Xdk.Lib
