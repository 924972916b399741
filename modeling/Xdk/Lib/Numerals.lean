import Mathlib.Tactic.IntervalCases

/-! # Numerals

A number is printed with `Nat.toDigits`.  It is read as an input stream in hexadecimal mode reads
it: white space is skipped, there may be a sign and a prefix `0x`, and the digits are those up to
the first character that is none.
-/

namespace Xdk.Lib

/-! ## Digits -/

def digitValue (c : Char) : Option Nat :=
  if '0' ≤ c ∧ c ≤ '9' then some (c.toNat - '0'.toNat)
  else if 'a' ≤ c ∧ c ≤ 'f' then some (c.toNat - 'a'.toNat + 10)
  else if 'A' ≤ c ∧ c ≤ 'F' then some (c.toNat - 'A'.toNat + 10)
  else none

def valueOf (base : Nat) (digits : List Char) : Nat :=
  digits.foldl (fun value c => value * base + (digitValue c).getD 0) 0

variable {base number : Nat}

theorem digitValue_digitChar {digit : Nat} (bound : digit < 16) :
    digitValue digit.digitChar = some digit := by
  interval_cases digit <;> rfl

theorem valueOf_snoc (digits : List Char) (c : Char) :
    valueOf base (digits ++ [c]) = valueOf base digits * base + (digitValue c).getD 0 := by
  rw [valueOf, List.foldl_append]
  rfl

theorem valueOf_digit {digit : Nat} (lt : digit < 16) :
    valueOf base [digit.digitChar] = digit := by
  rw [← List.nil_append [_], valueOf_snoc, digitValue_digitChar lt]
  simp [valueOf]

/-- The last digit comes off the end. -/
theorem valueOf_toDigits_step {printed : Nat} (large : 1 < printed) (small : printed ≤ 16)
    (more : printed ≤ number) :
    valueOf base (Nat.toDigits printed number) =
      valueOf base (Nat.toDigits printed (number / printed)) * base + number % printed := by
  have last := Nat.mod_lt number (show 0 < printed by omega)
  rw [Nat.toDigits_of_base_le large more, valueOf_snoc, digitValue_digitChar (by omega)]
  rfl

/-- A number that is read in the base it was printed in. -/
theorem valueOf_toDigits (large : 1 < base) (small : base ≤ 16) :
    valueOf base (Nat.toDigits base number) = number := by
  induction number using Nat.strongRecOn with
  | ind number ih =>
    obtain single | more := Nat.lt_or_ge number base
    · rw [Nat.toDigits_of_lt_base single, valueOf_digit (by omega)]
    · rw [valueOf_toDigits_step large small more,
        ih _ (Nat.div_lt_self (by omega) large)]
      exact Nat.div_add_mod' number base

/-- A number that is read in a larger base than it was printed in can only get larger. -/
theorem le_valueOf_toDigits {printed : Nat} (large : 1 < printed) (small : printed ≤ 16)
    (wider : printed ≤ base) : number ≤ valueOf base (Nat.toDigits printed number) := by
  induction number using Nat.strongRecOn with
  | ind number ih =>
    obtain single | more := Nat.lt_or_ge number printed
    · rw [Nat.toDigits_of_lt_base single, valueOf_digit (by omega)]
    · rw [valueOf_toDigits_step large small more]
      have front := ih _ (Nat.div_lt_self (by omega) large)
      calc number = number / printed * printed + number % printed := (Nat.div_add_mod' _ _).symm
        _ ≤ valueOf base (Nat.toDigits printed (number / printed)) * base + number % printed :=
          Nat.add_le_add_right (Nat.mul_le_mul front wider) _

/-- It stays the same only if it has one digit. -/
theorem valueOf_toDigits_eq_iff {printed : Nat} (large : 1 < printed) (small : printed ≤ 16)
    (wider : printed < base) :
    valueOf base (Nat.toDigits printed number) = number ↔ number < printed := by
  constructor
  · intro same
    by_contra several
    have more := Nat.le_of_not_lt several
    have front : 0 < number / printed := Nat.div_pos more (by omega)
    have grown :=
      @le_valueOf_toDigits base (number / printed) printed large small (Nat.le_of_lt wider)
    have whole := Nat.div_add_mod' number printed
    rw [valueOf_toDigits_step large small more] at same
    have larger : number / printed * printed <
        valueOf base (Nat.toDigits printed (number / printed)) * base :=
      Nat.mul_lt_mul_of_le_of_lt grown wider (Nat.lt_of_lt_of_le front grown)
    omega
  · intro single
    rw [Nat.toDigits_of_lt_base single, valueOf_digit (by omega)]

theorem valueOf_leftpad (width : Nat) (digits : List Char) :
    valueOf base (digits.leftpad width '0') = valueOf base digits := by
  rw [List.leftpad]
  induction width - digits.length with
  | zero => rfl
  | succ zeros ih =>
    rw [← ih, List.replicate_succ, List.cons_append, valueOf, List.foldl_cons, Nat.zero_mul]
    rfl

/-! ## Reading -/

def isHexDigit (c : Char) : Bool := (digitValue c).isSome

theorem isHexDigit_of_mem_toDigits {c : Char} (large : 1 < base) (small : base ≤ 16)
    (mem : c ∈ Nat.toDigits base number) : isHexDigit c = true := by
  induction number using Nat.strongRecOn with
  | ind number ih =>
    obtain single | more := Nat.lt_or_ge number base
    · rw [Nat.toDigits_of_lt_base single, List.mem_singleton] at mem
      rw [mem, isHexDigit, digitValue_digitChar (by omega)]
      rfl
    · rw [Nat.toDigits_of_base_le large more, List.mem_append, List.mem_singleton] at mem
      obtain mem | rfl := mem
      · exact ih _ (Nat.div_lt_self (by omega) large) mem
      · have last := Nat.mod_lt number (show 0 < base by omega)
        rw [isHexDigit, digitValue_digitChar (by omega)]
        rfl

theorem isHexDigit_of_mem_leftpad {width : Nat} {c : Char}
    (mem : c ∈ (Nat.toDigits 16 number).leftpad width '0') : isHexDigit c = true := by
  rw [List.leftpad, List.mem_append, List.mem_replicate] at mem
  obtain ⟨-, rfl⟩ | mem := mem
  · rfl
  · exact isHexDigit_of_mem_toDigits (by decide) (by decide) mem

def isSpace (c : Char) : Bool :=
  c = ' ' || c = '\t' || c = '\n' || c = '\x0b' || c = '\x0c' || c = '\r'

def readSign : List Char → Bool × List Char
  | '-' :: text => (true, text)
  | '+' :: text => (false, text)
  | text => (false, text)

def skipMark : List Char → List Char
  | '0' :: 'x' :: text => text
  | '0' :: 'X' :: text => text
  | text => text

def readHex (text : List Char) : Option (Bool × Nat × List Char) :=
  let signed := readSign (text.dropWhile isSpace)
  let digits := (skipMark signed.2).takeWhile isHexDigit
  if digits = [] then none
  else some (signed.1, valueOf 16 digits, (skipMark signed.2).dropWhile isHexDigit)

variable {digits rest : List Char} {c : Char}

theorem not_isSpace_of_isHexDigit (digit : isHexDigit c = true) : isSpace c = false := by
  by_contra space
  simp only [Bool.not_eq_false, isSpace, Bool.or_eq_true, decide_eq_true_eq] at space
  obtain ((((rfl | rfl) | rfl) | rfl) | rfl) | rfl := space <;> exact absurd digit (by decide)

theorem readSign_digit (digit : isHexDigit c = true) :
    readSign (c :: rest) = (false, c :: rest) := by
  unfold readSign
  split
  · rename_i same
    cases same
    exact absurd digit (by decide)
  · rename_i same
    cases same
    exact absurd digit (by decide)
  · rfl

/-- A text with no `x` in the second place has no mark. -/
theorem skipMark_eq {text : List Char} (lo : text[1]? ≠ some 'x') (hi : text[1]? ≠ some 'X') :
    skipMark text = text := by
  unfold skipMark
  split
  · exact absurd rfl lo
  · exact absurd rfl hi
  · rfl

theorem takeWhile_digits (all : ∀ c ∈ digits, isHexDigit c = true)
    (ends : ∀ c ∈ rest.head?, isHexDigit c = false) :
    (digits ++ rest).takeWhile isHexDigit = digits ∧
      (digits ++ rest).dropWhile isHexDigit = rest := by
  rw [List.takeWhile_append_of_pos all, List.dropWhile_append_of_pos all]
  cases rest with
  | nil => simp
  | cons c rest => simp [ends c rfl]

/-- A character that is neither a digit nor part of the mark ends the digits. -/
structure Ends (c : Char) : Prop where
  digit : isHexDigit c = false
  lower : c ≠ 'x'
  upper : c ≠ 'X'

theorem skipMark_digits (ne : digits ≠ []) (all : ∀ c ∈ digits, isHexDigit c = true)
    (ends : ∀ c ∈ rest.head?, Ends c) : skipMark (digits ++ rest) = digits ++ rest := by
  have second : ∀ d ∈ (digits ++ rest)[1]?, d ≠ 'x' ∧ d ≠ 'X' := by
    match digits, ne with
    | [first], _ =>
      intro d mem
      have ends := ends d (List.head?_eq_getElem? ▸ mem)
      exact ⟨ends.lower, ends.upper⟩
    | first :: second :: others, _ =>
      rintro d ⟨⟩
      have digit := all second (by simp)
      refine ⟨?_, ?_⟩ <;>
      · rintro rfl
        exact absurd digit (by decide)
  exact skipMark_eq (fun found => (second _ found).1 rfl) (fun found => (second _ found).2 rfl)

theorem readHex_of_body {text body : List Char} {negative : Bool}
    (signed : readSign (text.dropWhile isSpace) = (negative, body))
    (marked : skipMark body = digits ++ rest) (ne : digits ≠ [])
    (all : ∀ c ∈ digits, isHexDigit c = true) (ends : ∀ c ∈ rest.head?, isHexDigit c = false) :
    readHex text = some (negative, valueOf 16 digits, rest) := by
  obtain ⟨taken, dropped⟩ := takeWhile_digits all ends
  simp only [readHex, signed, marked, taken, dropped, if_neg ne]

section

variable (ne : digits ≠ []) (all : ∀ c ∈ digits, isHexDigit c = true)
include ne all

theorem readHex_digits (ends : ∀ c ∈ rest.head?, Ends c) :
    readHex (digits ++ rest) = some (false, valueOf 16 digits, rest) := by
  refine readHex_of_body ?_ (skipMark_digits ne all ends) ne all fun c mem => (ends c mem).digit
  obtain ⟨first, others, rfl⟩ := List.exists_cons_of_ne_nil ne
  have digit := all first List.mem_cons_self
  rw [List.cons_append, List.dropWhile_cons_of_neg (by simp [not_isSpace_of_isHexDigit digit])]
  exact readSign_digit digit

theorem readHex_minus (ends : ∀ c ∈ rest.head?, Ends c) :
    readHex ('-' :: (digits ++ rest)) = some (true, valueOf 16 digits, rest) :=
  readHex_of_body rfl (skipMark_digits ne all ends) ne all fun c mem => (ends c mem).digit

theorem readHex_mark (ends : ∀ c ∈ rest.head?, isHexDigit c = false) :
    readHex ('0' :: 'x' :: (digits ++ rest)) = some (false, valueOf 16 digits, rest) :=
  readHex_of_body rfl rfl ne all ends

end

theorem readHex_space (text : List Char) : readHex (' ' :: text) = readHex text := rfl

/-- Numbers of any base up to 16 are read to their end. -/
theorem readHex_toDigits (large : 1 < base) (small : base ≤ 16)
    (ends : ∀ c ∈ rest.head?, Ends c) :
    readHex (Nat.toDigits base number ++ rest) =
      some (false, valueOf 16 (Nat.toDigits base number), rest) :=
  readHex_digits Nat.toDigits_ne_nil (fun _ => isHexDigit_of_mem_toDigits large small) ends

end Xdk.Lib
