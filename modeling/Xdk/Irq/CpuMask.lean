import Xdk.Lib.Numerals
import Xdk.Lib.Word

/-! # Masks of cores

`Cpu_mask` holds a set of cores, and prints it as `/proc/irq/<n>/smp_affinity` takes it: groups of
eight hexadecimal digits, the most significant one first.
-/

namespace Xdk.Irq

open Xdk.Lib

abbrev CpuMask := List Nat

namespace CpuMask

def addCore (mask : CpuMask) (c : Nat) : CpuMask := mask.insert c

def addFrom (cEnd : Nat) : Nat → CpuMask → Nat → Option CpuMask
  | 0, _, _ => none
  | turns + 1, mask, i =>
    if i ≤ cEnd then addFrom cEnd turns (mask.addCore i) (wrap 32 (i + 1)) else some mask

inductive Status where
  | ok
  | eInval

def addRange (mask : CpuMask) (cStart cEnd turns : Nat) : Option (Status × CpuMask) :=
  if cEnd ≤ cStart then some (.eInval, mask)
  else (addFrom cEnd turns mask cStart).map fun mask => (.ok, mask)

def maxCore (mask : CpuMask) : Nat := mask.foldl (fun r c => if r < c then c else r) 0

def maskDword (mask : CpuMask) (dword : Nat) : Nat :=
  let rangeStart := wrap 32 (dword * 32)
  mask.foldl (fun result c => if rangeStart ≤ c ∧ c < wrap 32 (rangeStart + 32) then
    result ||| 1 <<< (c - rangeStart) else result) 0

def hex8 (number : Nat) : List Char := (Nat.toDigits 16 number).leftpad 8 '0'

def groupsFrom (mask : CpuMask) : Nat → List Char
  | 0 => hex8 (mask.maskDword 0)
  | i + 1 => hex8 (mask.maskDword (i + 1)) ++ ',' :: groupsFrom mask i

def maskString (mask : CpuMask) : List Char := mask.groupsFrom (mask.maxCore / 32)

/-- What the kernel reads: groups of 32 bits between commas, the most significant one first. -/
def readMask (text : List Char) : Nat :=
  (text.splitOn ',').foldl (fun bits group => 2 ^ 32 * bits + valueOf 16 group) 0

def RoundTrips (mask : CpuMask) : Prop :=
  ∀ c, (readMask mask.maskString).testBit c = true ↔ c ∈ mask

/-- `add_range` returns, and has added the cores from the first to the last one. -/
def AddsRange (mask : CpuMask) (cStart cEnd : Nat) : Prop :=
  ∃ turns status mask', mask.addRange cStart cEnd turns = some (status, mask') ∧
    ∀ c, c ∈ mask' ↔ c ∈ mask ∨ cStart ≤ c ∧ c ≤ cEnd

variable {mask : CpuMask}

/-! ## Printing and reading -/

theorem testBit_foldl (start stop b : Nat) (result : Nat) :
    (mask.foldl (fun result c => if start ≤ c ∧ c < stop then
      result ||| 1 <<< (c - start) else result) result).testBit b = true ↔
      result.testBit b = true ∨ start + b ∈ mask ∧ start + b < stop := by
  induction mask generalizing result with
  | nil => simp
  | cons c mask ih =>
    rw [List.foldl_cons, ih]
    split_ifs with inside
    · rw [Nat.testBit_or, Nat.one_shiftLeft]
      simp only [Bool.or_eq_true]
      have same : c - start = b ↔ start + b = c := by omega
      grind
    · grind

/-- The last group is empty: the end of its range has wrapped around to 0. -/
theorem testBit_maskDword {dword : Nat} (lt : dword < 2 ^ 27) (b : Nat) :
    (mask.maskDword dword).testBit b = true ↔
      32 * dword + b ∈ mask ∧ b < 32 ∧ dword + 1 < 2 ^ 27 := by
  rw [maskDword, testBit_foldl, wrap_of_lt (by omega), Nat.mul_comm]
  have stop : 32 * dword + b < wrap 32 (32 * dword + 32) ↔ b < 32 ∧ dword + 1 < 2 ^ 27 := by
    rw [wrap]
    omega
  simp [stop]

theorem maskDword_lt {dword : Nat} (lt : dword < 2 ^ 27) : mask.maskDword dword < 2 ^ 32 := by
  refine Nat.lt_pow_two_of_testBit _ fun b large => ?_
  rw [← Bool.not_eq_true, testBit_maskDword lt]
  omega

theorem foldl_max_lt_iff (first bound : Nat) :
    mask.foldl (fun r c => if r < c then c else r) first < bound ↔
      first < bound ∧ ∀ c ∈ mask, c < bound := by
  induction mask generalizing first with
  | nil => simp
  | cons c mask ih =>
    rw [List.foldl_cons, ih, List.forall_mem_cons, ← and_assoc]
    refine and_congr_left fun _ => ?_
    split_ifs <;> omega

theorem valueOf_hex8 (number : Nat) : valueOf 16 (hex8 number) = number := by
  rw [hex8, valueOf_leftpad, valueOf_toDigits (by decide) (by decide)]

theorem comma_not_mem_hex8 (number : Nat) : ',' ∉ hex8 number :=
  fun mem => absurd (isHexDigit_of_mem_leftpad mem) (by decide)

variable {i : Nat}

/-- The groups from `i` on are put below what was read before. -/
theorem testBit_foldl_groupsFrom (lt : i < 2 ^ 27) (bits c : Nat) :
    (((mask.groupsFrom i).splitOn ',').foldl
      (fun bits group => 2 ^ 32 * bits + valueOf 16 group) bits).testBit c =
    if c < 32 * (i + 1) then (mask.maskDword (c / 32)).testBit (c % 32)
    else bits.testBit (c - 32 * (i + 1)) := by
  induction i generalizing bits with
  | zero =>
    rw [groupsFrom, List.splitOn_eq_singleton (comma_not_mem_hex8 _), List.foldl_cons,
      List.foldl_nil, valueOf_hex8, Nat.testBit_two_pow_mul_add _ (maskDword_lt lt)]
    by_cases here : c < 32
    · rw [if_pos here, if_pos here, Nat.div_eq_of_lt here, Nat.mod_eq_of_lt here]
    · rw [if_neg here, if_neg here]
  | succ i ih =>
    rw [groupsFrom, List.splitOn_append_cons_self_of_not_mem (comma_not_mem_hex8 _),
      List.foldl_cons, valueOf_hex8, ih (by omega), Nat.testBit_two_pow_mul_add _ (maskDword_lt lt)]
    by_cases below : c < 32 * (i + 1)
    · rw [if_pos below, if_pos (by omega)]
    by_cases here : c < 32 * (i + 1 + 1)
    · have group : c / 32 = i + 1 := by omega
      have place : c % 32 = c - 32 * (i + 1) := by omega
      rw [if_neg below, if_pos (by omega), if_pos here, group, place]
    · rw [if_neg below, if_neg (by omega), if_neg here]
      rfl

theorem testBit_maskString (all : ∀ c ∈ mask, c < 2 ^ 32) (c : Nat) :
    (readMask mask.maskString).testBit c = true ↔ c ∈ mask ∧ c < 2 ^ 32 - 32 := by
  have lt : mask.maxCore < 2 ^ 32 := (foldl_max_lt_iff 0 _).mpr ⟨by decide, all⟩
  have le (mem : c ∈ mask) : c ≤ mask.maxCore :=
    Nat.le_of_lt_succ (((foldl_max_lt_iff 0 _).mp (Nat.lt_succ_self _)).2 c mem)
  rw [readMask, maskString, testBit_foldl_groupsFrom (by omega), Nat.zero_testBit]
  split
  · rw [testBit_maskDword (by omega), Nat.div_add_mod]
    refine and_congr_right fun _ => ?_
    omega
  · refine iff_of_false (by decide) fun inside => ?_
    have le := le inside.1
    omega

theorem roundTrips_iff (all : ∀ c ∈ mask, c < 2 ^ 32) :
    mask.RoundTrips ↔ ∀ c ∈ mask, c < 2 ^ 32 - 32 := by
  simp only [RoundTrips, testBit_maskString all, and_iff_left_iff_imp]

/-! ## Ranges -/

theorem addFrom_eq {cEnd : Nat} (lt : cEnd < 2 ^ 32 - 1) (n : Nat) (left : i + n = cEnd + 1) :
    ∃ mask', addFrom cEnd (n + 1) mask i = some mask' ∧
      ∀ c, c ∈ mask' ↔ c ∈ mask ∨ i ≤ c ∧ c ≤ cEnd := by
  induction n generalizing mask i with
  | zero =>
    refine ⟨mask, if_neg (by omega), fun c => ?_⟩
    rw [or_iff_left (by omega)]
  | succ n ih =>
    obtain ⟨mask', eq, mem⟩ := @ih (mask.addCore i) (i + 1) (by omega)
    refine ⟨mask', ?_, fun c => ?_⟩
    · rw [addFrom, if_pos (by omega), wrap_of_lt (by omega), eq]
    · rw [mem, addCore]
      grind

/-- The counter of the loop is never above the largest number. -/
theorem addFrom_last (turns : Nat) (lt : i < 2 ^ 32) :
    addFrom (2 ^ 32 - 1) turns mask i = none := by
  induction turns generalizing mask i with
  | zero => rfl
  | succ turns ih => rw [addFrom, if_pos (by omega), ih (wrap_lt 32 _)]

theorem addsRange_iff {cStart cEnd : Nat} (le : cStart ≤ cEnd) (lt : cEnd < 2 ^ 32) :
    mask.AddsRange cStart cEnd ↔
      cStart < cEnd ∧ cEnd < 2 ^ 32 - 1 ∨ cStart = cEnd ∧ cStart ∈ mask := by
  constructor
  · rintro ⟨turns, status, mask', eq, mem⟩
    rw [addRange] at eq
    split_ifs at eq with single
    · cases eq
      exact .inr ⟨by omega, (mem cStart).mpr (.inr ⟨le_rfl, le⟩)⟩
    · refine .inl ⟨by omega, ?_⟩
      by_contra last
      obtain rfl : cEnd = 2 ^ 32 - 1 := by omega
      rw [addFrom_last turns (by omega)] at eq
      cases eq
  · rintro (⟨several, last⟩ | ⟨rfl, mem⟩)
    · obtain ⟨mask', eq, mem⟩ :=
        @addFrom_eq mask cStart cEnd last (cEnd + 1 - cStart) (by omega)
      exact ⟨_, .ok, mask', by rw [addRange, if_neg (by omega), eq, Option.map_some], mem⟩
    · refine ⟨0, .eInval, mask, if_pos le, fun c => ?_⟩
      refine ⟨.inl, fun added => added.elim id fun inside => ?_⟩
      obtain rfl : c = cStart := by omega
      exact mem

/-- Both are right exactly if no core is of the last group, and the range has two cores at least
    and does not end at the last one, or is of a core that was there before. -/
theorem cpu_mask_iff {cStart cEnd : Nat} (all : ∀ c ∈ mask, c < 2 ^ 32) (le : cStart ≤ cEnd)
    (lt : cEnd < 2 ^ 32) :
    mask.RoundTrips ∧ mask.AddsRange cStart cEnd ↔
      (∀ c ∈ mask, c < 2 ^ 32 - 32) ∧
        (cStart < cEnd ∧ cEnd < 2 ^ 32 - 1 ∨ cStart = cEnd ∧ cStart ∈ mask) :=
  and_congr (roundTrips_iff all) (addsRange_iff le lt)

theorem cpu_mask_iff_two_groups :
    RoundTrips [2, 40] ∧ AddsRange [2, 40] 4 7 :=
  (cpu_mask_iff (by decide) (by decide) (by decide)).mpr ⟨by decide, by decide⟩

/-- A range of a single core is refused. -/
theorem cpu_mask_single :
    (∀ turns, addRange [] 3 3 turns = some (.eInval, [])) ∧ ¬ AddsRange [] 3 3 := by
  refine ⟨fun _ => rfl, fun ⟨turns, status, mask', eq, mem⟩ => ?_⟩
  cases eq
  exact absurd ((mem 3).mpr (.inr ⟨le_rfl, le_rfl⟩)) (by decide)

end CpuMask

end Xdk.Irq
