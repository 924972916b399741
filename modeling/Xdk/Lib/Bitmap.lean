import Mathlib.Logic.Function.Basic

/-! # Bitmaps in words

A bitmap is a function from word numbers to words of 64 bits; bit `64 * word + index` of the
bitmap is bit `index` of its word.  A word is replaced as a whole, so the lemmas say what the
replacement of one word does to every bit of the bitmap.
-/

namespace Xdk.Lib

def bit (words : Nat → BitVec 64) (number : Nat) : Bool :=
  (words (number / 64)).getLsbD (number % 64)

def setIn (word : BitVec 64) (index : Nat) : BitVec 64 := word ||| (1#64 <<< index)

def clearIn (word : BitVec 64) (index : Nat) : BitVec 64 := word &&& ~~~(1#64 <<< index)

/-- The lowest bit that is not set; 64 when all of them are. -/
def lowestZero (word : BitVec 64) : Nat := (~~~word).ctz.toNat

variable {words : Nat → BitVec 64} {word index : Nat} {i other : Nat}

theorem getLsbD_one_shiftLeft (lt : other < 64) :
    (1#64 <<< i).getLsbD other = decide (other = i) := by
  rw [← BitVec.twoPow_eq]
  by_cases same : other = i
  · subst same
    simp [lt]
  · simp [same, Ne.symm same]

theorem getLsbD_setIn (word : BitVec 64) (lt : other < 64) :
    (setIn word i).getLsbD other = (word.getLsbD other || decide (other = i)) := by
  rw [setIn, BitVec.getLsbD_or, getLsbD_one_shiftLeft lt]

theorem getLsbD_clearIn (word : BitVec 64) (lt : other < 64) :
    (clearIn word i).getLsbD other = (word.getLsbD other && !decide (other = i)) := by
  rw [clearIn, BitVec.getLsbD_and, BitVec.getLsbD_not, getLsbD_one_shiftLeft lt]
  simp [lt]

/-- A new word changes the bits of this word only. -/
theorem bit_update (words : Nat → BitVec 64) (word : Nat) (v : BitVec 64) (number : Nat) :
    bit (Function.update words word v) number =
      if number / 64 = word then v.getLsbD (number % 64) else bit words number := by
  rw [bit, Function.update_apply]
  split
  · rfl
  · rfl

theorem bit_setIn (below : index < 64) (n : Nat) :
    bit (Function.update words word (setIn (words word) index)) n =
      (bit words n || decide (n = 64 * word + index)) := by
  rw [bit_update]
  split
  · rename_i same
    subst same
    have number_eq : n % 64 = index ↔ n = 64 * (n / 64) + index := by omega
    rw [getLsbD_setIn _ (Nat.mod_lt _ (by decide)), decide_eq_decide.mpr number_eq]
    rfl
  · have ne : n ≠ 64 * word + index := by omega
    simp [ne]

theorem bit_clearIn (below : index < 64) (n : Nat) :
    bit (Function.update words word (clearIn (words word) index)) n =
      (bit words n && !decide (n = 64 * word + index)) := by
  rw [bit_update]
  split
  · rename_i same
    subst same
    have number_eq : n % 64 = index ↔ n = 64 * (n / 64) + index := by omega
    rw [getLsbD_clearIn _ (Nat.mod_lt _ (by decide)), decide_eq_decide.mpr number_eq]
    rfl
  · have ne : n ≠ 64 * word + index := by omega
    simp [ne]

theorem getLsbD_of_lt_lowestZero {word : BitVec 64} (lt : i < lowestZero word) (inside : i < 64) :
    word.getLsbD i = true := by
  have zero := BitVec.getLsbD_false_of_lt_ctz lt
  simpa [inside] using zero

theorem getLsbD_not_lowestZero {word : BitVec 64} (notFull : word ≠ BitVec.allOnes 64) :
    (~~~word).getLsbD (lowestZero word) = true := by
  have nonzero : ~~~word ≠ 0#64 := by
    intro zero
    apply notFull
    rw [← BitVec.not_zero, ← zero, BitVec.not_not]
  exact BitVec.getLsbD_true_ctz_of_ne_zero nonzero

theorem lowestZero_lt {word : BitVec 64} (notFull : word ≠ BitVec.allOnes 64) :
    lowestZero word < 64 :=
  BitVec.lt_of_getLsbD (getLsbD_not_lowestZero notFull)

theorem getLsbD_lowestZero {word : BitVec 64} (notFull : word ≠ BitVec.allOnes 64) :
    word.getLsbD (lowestZero word) = false := by
  have one := getLsbD_not_lowestZero notFull
  rw [BitVec.getLsbD_not, Bool.and_eq_true, Bool.not_eq_true'] at one
  exact one.2

end Xdk.Lib
