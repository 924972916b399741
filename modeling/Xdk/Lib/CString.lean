import Mathlib.Order.Lattice

/-! # Terminated strings in a buffer

A buffer is the memory from its address on, without an end of its own: a program may write behind
what it was given.  How far it has written is counted.

A string ends with the character 0.  `strcat` looks for the 0 of the first string and puts the
second one there.
-/

namespace Xdk.Lib

def nul : Char := '\x00'

/-- The characters behind an address, and the number of them up to the last one written. -/
structure CBuffer where
  chars : Nat → Char
  extent : Nat

namespace CBuffer

def put (b : CBuffer) (offset : Nat) (c : Char) : CBuffer where
  chars := Function.update b.chars offset c
  extent := max b.extent (offset + 1)

def putAll (b : CBuffer) (offset : Nat) : List Char → CBuffer
  | [] => b
  | c :: text => (b.put offset c).putAll (offset + 1) text

/-- The place of the first 0 from an offset on, in so many characters. -/
def findNul (b : CBuffer) : Nat → Nat → Option Nat
  | 0, _ => none
  | room + 1, offset => if b.chars offset = nul then some offset else b.findNul room (offset + 1)

/-- `strcat`; the 0 that it looks for is among what has been written. -/
def strcat (b : CBuffer) (text : List Char) : Option CBuffer :=
  (b.findNul b.extent 0).map fun offset => b.putAll offset (text ++ [nul])

/-! ## Writing -/

variable {b b' : CBuffer} {offset : Nat} {text line : List Char}

theorem chars_putAll_before (b : CBuffer) (text : List Char) {position : Nat}
    (before : position < offset) : (b.putAll offset text).chars position = b.chars position := by
  induction text generalizing b offset with
  | nil => rfl
  | cons c text ih =>
    have ne : position ≠ offset := Nat.ne_of_lt before
    rw [putAll, ih _ (by omega)]
    simp [put, ne]

theorem chars_putAll (b : CBuffer) (off : Nat) {i : Nat} (inside : i < text.length) :
    (b.putAll off text).chars (off + i) = text[i] := by
  induction text generalizing b off i with
  | nil => cases inside
  | cons c text ih =>
    rw [putAll]
    cases i with
    | zero =>
      rw [chars_putAll_before _ _ (by omega)]
      simp [put]
    | succ i =>
      have later := ih (b.put off c) (off + 1)
        (Nat.lt_of_succ_lt_succ inside)
      rwa [Nat.add_assoc, Nat.add_comm 1] at later

theorem extent_putAll (b : CBuffer) (off : Nat) (some : text ≠ []) :
    (b.putAll off text).extent = max b.extent (off + text.length) := by
  induction text generalizing b off with
  | nil => exact absurd rfl some
  | cons c text ih =>
    rw [putAll]
    by_cases last : text = []
    · subst last
      rfl
    · rw [ih _ _ last]
      simp only [put, List.length_cons]
      omega

/-! ## Strings -/

structure Holds (b : CBuffer) (text : List Char) : Prop where
  chars : ∀ index (inside : index < text.length), b.chars index = text[index]
  terminated : b.chars text.length = nul
  extent : b.extent = text.length + 1
  clean : nul ∉ text

theorem holds_put_nul {chars : Nat → Char} : (put ⟨chars, 0⟩ 0 nul).Holds [] := by
  constructor
  · intro index inside
    cases inside
  · simp [put]
  · simp [put]
  · simp

theorem Holds.findNul (holds : b.Holds text) {room : Nat} (off : Nat)
    (enough : text.length < off + room) (reached : off ≤ text.length) :
    b.findNul room off = some text.length := by
  induction room generalizing off with
  | zero => omega
  | succ room ih =>
    rw [CBuffer.findNul]
    obtain inside | last := Nat.lt_or_eq_of_le reached
    · have ne : b.chars off ≠ nul := by
        intro zero
        apply holds.clean
        rw [← zero, holds.chars off inside]
        exact List.getElem_mem inside
      rw [if_neg ne]
      exact ih (off + 1) (by omega) (by omega)
    · rw [last, if_pos holds.terminated]

theorem Holds.strcat (holds : b.Holds text) (clean : nul ∉ line) :
    ∃ b', b.strcat line = some b' ∧ b'.Holds (text ++ line) := by
  refine ⟨b.putAll text.length (line ++ [nul]), ?_, ?_⟩
  · rw [CBuffer.strcat, holds.findNul 0 (by rw [holds.extent]; omega) (Nat.zero_le _),
      Option.map_some]
  · constructor
    · intro i inside
      rw [List.length_append] at inside
      by_cases first : i < text.length
      · rw [chars_putAll_before _ _ first, holds.chars i first, List.getElem_append_left first]
      · obtain ⟨more, rfl⟩ := Nat.exists_eq_add_of_le (Nat.le_of_not_lt first)
        have lt : more < line.length := by omega
        rw [chars_putAll _ _ (by rw [List.length_append]; omega), List.getElem_append_left lt]
        simp
    · rw [List.length_append, chars_putAll _ _ (by simp)]
      simp
    · rw [extent_putAll _ _ (by simp), holds.extent]
      simp only [List.length_append, List.length_singleton]
      omega
    · simp [holds.clean, clean]

end CBuffer

end Xdk.Lib
