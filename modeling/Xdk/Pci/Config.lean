import Mathlib

/-! # The configuration space of a PCI device

`get_cap` walks the list of capabilities until it meets the requested id or the id 0, while the list
ends at a pointer of 0.  `interrogate_bar_regions` finds out how large the regions of a device are.
-/

namespace Xdk.Pci

/-! ## Capabilities -/

abbrev Space := UInt8 → UInt8

namespace Space

/-- `none` where it throws: there is nothing to read past the last byte. -/
def read8 (space : Space) (offset : Nat) : Option UInt8 :=
  if offset < 256 then some (space (UInt8.ofNat offset)) else none

def capPointer (space : Space) : UInt8 := space 0x34

inductive Outcome where
  | returned (offset : Int)
  | thrown
  deriving DecidableEq

def getCapFrom (space : Space) (requestedId : Nat) : Nat → UInt8 → Option Outcome
  | 0, _ => none
  | turns + 1, ptr =>
    match space.read8 ptr.toNat with
    | none => some .thrown
    | some id =>
      if id.toNat = requestedId then some (.returned ptr.toNat)
      else match space.read8 (ptr.toNat + 1) with
        | none => some .thrown
        | some next =>
          if 0 < id then getCapFrom space requestedId turns next else some (.returned (-1))

def getCap (space : Space) (requestedId turns : Nat) : Option Outcome :=
  space.getCapFrom requestedId turns space.capPointer

/-- From a place of the list to the next one, where `p` allows to go on. -/
def Follows (space : Space) (p : UInt8 → Prop) (ptr next : UInt8) : Prop :=
  p ptr ∧ space.read8 (ptr.toNat + 1) = some next

def Leads (space : Space) (p : UInt8 → Prop) : UInt8 → UInt8 → Prop :=
  Relation.ReflTransGen (space.Follows p)

def Found (space : Space) (id : Nat) (o : UInt8) : Prop :=
  space.Leads (fun ptr => ptr ≠ 0 ∧ (space ptr).toNat ≠ id) space.capPointer o ∧ o ≠ 0 ∧
    (space o).toNat = id

def Finds (space : Space) (id : Nat) : Prop :=
  ∃ turns r, space.getCap id turns = some (.returned r) ∧
    (∀ o : UInt8, r = o.toNat ↔ space.Found id o) ∧ (r = -1 ↔ ∀ o, ¬ space.Found id o)

def Turns (space : Space) (id : Nat) (ptr : UInt8) : Prop :=
  (space ptr).toNat ≠ id ∧ 0 < space ptr

variable {space : Space} {id : Nat} {p q : UInt8 → Prop} {ptr o : UInt8}

theorem Leads.mono (leads : space.Leads p ptr o) (le : ∀ ptr, p ptr → q ptr) :
    space.Leads q ptr o :=
  Relation.ReflTransGen.mono (fun _ _ step => ⟨le _ step.1, step.2⟩) _ _ leads

/-- Two walks that each stop where the other one would are the same walk. -/
theorem Leads.meet {o' : UInt8} (leads : space.Leads p ptr o) (other : space.Leads q ptr o')
    (stops : ¬ q o) (stops' : ¬ p o') :
    o = o' ∧ space.Leads (fun ptr => p ptr ∧ q ptr) ptr o := by
  induction leads using Relation.ReflTransGen.head_induction_on with
  | refl =>
    obtain rfl | ⟨next, step, -⟩ := other.cases_head
    · exact ⟨rfl, .refl⟩
    · exact absurd step.1 stops
  | head step rest ih =>
    obtain rfl | ⟨next, step', other⟩ := other.cases_head
    · exact absurd step.1 stops'
    · obtain rfl := Option.some.inj (step.2.symm.trans step'.2)
      obtain ⟨same, leads⟩ := ih other
      exact ⟨same, .head ⟨⟨step.1, step'.1⟩, step.2⟩ leads⟩

theorem Found.unique {o' : UInt8} (found : space.Found id o) (found' : space.Found id o') :
    o = o' :=
  (found.1.meet found'.1 (fun on => on.2 found.2.2) fun on => on.2 found'.2.2).1

theorem read8_self (space : Space) (ptr : UInt8) : space.read8 ptr.toNat = some (space ptr) := by
  simp [read8, ptr.toNat_lt]

def Stops (space : Space) (id : Nat) (o : UInt8) (r : Int) : Prop :=
  (space o).toNat = id ∧ r = o.toNat ∨ (space o).toNat ≠ id ∧ space o = 0 ∧ o ≠ 255 ∧ r = -1

theorem getCapFrom_returned_iff {r : Int} :
    (∃ turns, space.getCapFrom id turns ptr = some (.returned r)) ↔
      ∃ o, space.Leads (space.Turns id) ptr o ∧ space.Stops id o r := by
  constructor
  · rintro ⟨turns, eq⟩
    induction turns generalizing ptr with
    | zero => cases eq
    | succ turns ih =>
      simp only [getCapFrom, read8_self] at eq
      by_cases same : (space ptr).toNat = id
      · simp only [same, if_pos, Option.some.injEq, Outcome.returned.injEq] at eq
        exact ⟨ptr, .refl, .inl ⟨same, eq.symm⟩⟩
      cases read : space.read8 (ptr.toNat + 1) with
      | none => simp [same, read] at eq
      | some next =>
        by_cases pos : 0 < space ptr
        · simp only [same, read, pos] at eq
          obtain ⟨o, leads, stops⟩ := ih eq
          exact ⟨o, .head ⟨⟨same, pos⟩, read⟩ leads, stops⟩
        · simp only [same, read, pos, if_false, Option.some.injEq, Outcome.returned.injEq] at eq
          refine ⟨ptr, .refl, .inr ⟨same, UInt8.le_zero_iff.mp (UInt8.not_lt.mp pos), ?_, eq.symm⟩⟩
          rintro rfl
          simp [read8] at read
  · rintro ⟨o, leads, stops⟩
    induction leads using Relation.ReflTransGen.head_induction_on with
    | refl =>
      refine ⟨1, ?_⟩
      obtain ⟨same, rfl⟩ | ⟨ne, zero, last, rfl⟩ := stops
      · simp [getCapFrom, read8_self, same]
      · have lt : o.toNat + 1 < 256 := by
          have ne : o.toNat ≠ 255 := fun same => last (UInt8.toNat_inj.mp same)
          have := o.toNat_lt
          omega
        simpa [getCapFrom, read8, zero, lt, o.toNat_lt] using ne
    | @head ptr next step _ ih =>
      obtain ⟨turns, eq⟩ := ih
      obtain ⟨⟨ne, pos⟩, read⟩ := step
      exact ⟨turns + 1, by simp [getCapFrom, read8_self, ne, pos, read, eq]⟩

/-- The search is right exactly if the element is in the list with no id of 0 before it, or it is
    not, and on the way through the pointers, an end of the list not being one, comes an id of 0
    other than the requested one. -/
theorem get_cap_iff (space : Space) (id : Nat) :
    space.Finds id ↔
      (∃ o, space.Leads (fun ptr => ptr ≠ 0 ∧ space.Turns id ptr) space.capPointer o ∧ o ≠ 0 ∧
        (space o).toNat = id) ∨
      (∀ o, ¬ space.Found id o) ∧
        ∃ o, space.Leads (space.Turns id) space.capPointer o ∧ (space o).toNat ≠ id ∧ space o = 0 ∧
          o ≠ 255 := by
  constructor
  · rintro ⟨turns, r, eq, first, none⟩
    obtain ⟨o, leads, ⟨same, rfl⟩ | ⟨other, zero, last, rfl⟩⟩ :=
      getCapFrom_returned_iff.mp ⟨turns, eq⟩
    · have found := (first o).mp rfl
      obtain ⟨-, both⟩ := found.1.meet leads (fun on => on.1 same) fun on => on.2 same
      exact .inl ⟨o, both.mono fun _ on => ⟨on.1.1, on.2⟩, found.2⟩
    · exact .inr ⟨none.mp rfl, o, leads, other, zero, last⟩
  · rintro (⟨o, leads, found⟩ | ⟨none, o, leads, stops⟩)
    · have found : space.Found id o := ⟨leads.mono fun _ on => ⟨on.1, on.2.1⟩, found⟩
      obtain ⟨turns, eq⟩ := getCapFrom_returned_iff.mpr
        ⟨o, leads.mono fun _ on => on.2, .inl ⟨found.2.2, rfl⟩⟩
      refine ⟨turns, o.toNat, eq, fun o' => ⟨fun same => ?_, fun found' => ?_⟩, ?_⟩
      · obtain rfl : o = o' := UInt8.toNat_inj.mp (by omega)
        exact found
      · rw [found.unique found']
      · exact iff_of_false (by omega) fun none => none o found
    · obtain ⟨turns, eq⟩ := getCapFrom_returned_iff.mpr
        ⟨o, leads, .inr ⟨stops.1, stops.2.1, stops.2.2, rfl⟩⟩
      exact ⟨turns, -1, eq, fun o' => iff_of_false (by omega) (none o'), iff_of_true rfl none⟩

/-- A list with one element, which is its own successor: the search for another one does not end. -/
theorem get_cap_cyclic :
    let space : Space := fun o => if o = 0x34 then 0x40 else if o = 0x40 then 1 else
      if o = 0x41 then 0x40 else 0
    (∀ turns, space.getCap 5 turns = none) ∧ ¬ space.Finds 5 := by
  intro space
  have never : ∀ turns, space.getCapFrom 5 turns 0x40 = none := by
    intro turns
    induction turns with
    | zero => rfl
    | succ turns ih => exact ih
  exact ⟨never, fun ⟨turns, r, eq, _⟩ => by cases (never turns).symm.trans eq⟩

end Space

/-! ## Base address registers -/

/-- What is written to a register changes only its address bits; it keeps its type bits. -/
@[ext]
structure Register where
  mask : BitVec 32
  flags : BitVec 32
  value : BitVec 32
  kept : value &&& mask ||| flags = value

namespace Register

def write (r : Register) (v : BitVec 32) : Register where
  mask := r.mask
  flags := r.flags
  value := v &&& r.mask ||| r.flags
  kept := by
    ext i
    simp only [BitVec.getElem_or, BitVec.getElem_and]
    cases v[i] <;> cases r.mask[i] <;> cases r.flags[i] <;> rfl

def interrogateBarRegion (r : Register) : Register × Nat :=
  let bar := r.value
  if 0 < bar then
    let asked := r.write (~~~0)
    let ssValue := asked.value &&& ~~~0xF
    (asked.write bar, (ssValue &&& ~~~(ssValue - 1)).toNat)
  else (r, 0)

abbrev Aligned (mask : BitVec 32) (n : Nat) : Prop :=
  ∀ i < 32, i ≤ n → mask.getLsbD i = decide (i = n)

variable {r : Register} {mask : BitVec 32} {n : Nat}

theorem interrogateBarRegion_restores (r : Register) : r.interrogateBarRegion.1 = r := by
  unfold interrogateBarRegion
  dsimp only
  split
  · exact Register.ext rfl rfl r.kept
  · rfl

theorem flags_eq_zero (zero : r.value = 0) : r.flags = 0 := by
  simpa [zero] using r.kept

theorem isolate (aligned : Aligned mask n) (lt : n < 32) :
    mask &&& ~~~(mask - 1) = BitVec.twoPow 32 n := by
  have negated : ~~~(mask - 1) = -mask :=
    BitVec.not_sub_one_eq_not_add_one.trans (BitVec.neg_eq_not_add mask).symm
  rw [negated]
  ext i isLt
  simp only [BitVec.getElem_and, BitVec.getElem_neg, BitVec.getElem_twoPow]
  by_cases le : i ≤ n
  · have none : ¬ ∃ j < i, mask.getLsbD j = true := by
      rintro ⟨j, below, one⟩
      simp [aligned j (by omega) (by omega), show j ≠ n by omega] at one
    simp [none, ← BitVec.getLsbD_eq_getElem, aligned i isLt le]
  · have one : ∃ j < i, mask.getLsbD j = true := ⟨n, by omega, by simp [aligned n lt]⟩
    simp [one, show i ≠ n by omega]

theorem getLsbD_notType : ∀ i < 32, (~~~0xF : BitVec 32).getLsbD i = decide (4 ≤ i) := by decide

/-- Only the address bits from bit 4 on are looked at. -/
theorem interrogateBarRegion_snd (ne : r.value ≠ 0) (type : r.flags &&& ~~~0xF = 0) :
    let ssValue := r.mask &&& ~~~0xF
    r.interrogateBarRegion.2 = (ssValue &&& ~~~(ssValue - 1)).toNat := by
  have pos : 0 < r.value := Nat.pos_of_ne_zero fun zero => ne (BitVec.eq_of_toNat_eq zero)
  have asked : (~~~0 &&& r.mask ||| r.flags) &&& ~~~0xF = r.mask &&& ~~~0xF := by
    rw [show ~~~0 = BitVec.allOnes 32 from rfl, BitVec.allOnes_and]
    ext i lt
    have bit := congrArg (BitVec.getLsbD · i) type
    simp only [BitVec.getLsbD_and, ← BitVec.getLsbD_eq_getElem, BitVec.getLsbD_or] at bit ⊢
    rw [Bool.and_or_distrib_right, bit]
    simp only [BitVec.ofNat_eq_ofNat, BitVec.getLsbD_zero, Bool.or_false]
  simp only [interrogateBarRegion, pos, if_pos, write, asked]

theorem interrogateBarRegion_snd_eq (ne : r.value ≠ 0) (type : r.flags &&& ~~~0xF = 0)
    (aligned : Aligned r.mask n) (least : 4 ≤ n) (lt : n < 32) :
    r.interrogateBarRegion.2 = 2 ^ n := by
  have above : Aligned (r.mask &&& ~~~0xF) n := by
    intro i isLt le
    rw [BitVec.getLsbD_and, getLsbD_notType i isLt, aligned i isLt le]
    by_cases same : i = n <;> simp [same, least]
  rw [interrogateBarRegion_snd ne type, isolate above lt, BitVec.toNat_twoPow]
  exact Nat.mod_eq_of_lt (Nat.pow_lt_pow_right (by decide) lt)

theorem interrogateBarRegion_snd_lt (r : Register) : r.interrogateBarRegion.2 < 2 ^ 32 := by
  unfold interrogateBarRegion
  dsimp only
  split
  · exact BitVec.isLt _
  · exact Nat.two_pow_pos 32

theorem interrogateBarRegion_snd_ne (ne : r.value ≠ 0) (type : r.flags &&& ~~~0xF = 0)
    (small : n < 4) : r.interrogateBarRegion.2 ≠ 2 ^ n := by
  intro eq
  rw [interrogateBarRegion_snd ne type] at eq
  have bit := congrArg (Nat.testBit · n) eq
  simp only [BitVec.testBit_toNat, BitVec.getLsbD_and, getLsbD_notType n (by omega),
    show ¬ 4 ≤ n by omega] at bit
  simp at bit

end Register

inductive Kind where
  | memory32
  | memory64
  | io

/-- What a register is for: nothing, a region of 2^n bytes, or the upper half of the address of
    the one before. -/
inductive Bar where
  | unused
  | region (kind : Kind) (n : Nat)
  | upper

namespace Kind

def least : Kind → Nat
  | memory32 | memory64 => 4
  | io => 2

def addressBits : Kind → Nat
  | memory32 | io => 32
  | memory64 => 64

def types : Kind → List (BitVec 32)
  | memory32 => [0, 8]
  | memory64 => [4, 12]
  | io => [1]

theorem types_and : ∀ {kind : Kind}, ∀ type ∈ kind.types, type &&& ~~~0xF = 0
  | memory32 | memory64 | io => by simp [types]

end Kind

namespace Bar

/-- The registers of a device; the address of a region of `memory64` may be 0 in this half. -/
def Of (r : Register) : Bar → Prop
  | unused => r.value = 0
  | region kind n => kind.least ≤ n ∧ n < kind.addressBits ∧ Register.Aligned r.mask n ∧
      r.flags ∈ kind.types ∧ (kind = .memory32 → r.value &&& r.mask ≠ 0)
  | upper => r.flags = 0

theorem Of.value_ne {r : Register} {kind : Kind} {n : Nat} (of : (region kind n).Of r) :
    r.value ≠ 0 := by
  obtain ⟨-, -, -, type, address⟩ := of
  intro zero
  rw [Register.flags_eq_zero zero] at type
  cases kind with
  | memory32 => simp [zero] at address
  | memory64 | io => exact absurd type (by decide)

end Bar

/-- The registers of a device and what is found out about them. -/
structure PciConfigSpace where
  bars : Fin 6 → Register
  barRegionSizes : Fin 6 → Nat

namespace PciConfigSpace

open Bar

def interrogateBar (s : PciConfigSpace) (i : Fin 6) : PciConfigSpace :=
  let (bar, size) := (s.bars i).interrogateBarRegion
  { bars := Function.update s.bars i bar
    barRegionSizes := Function.update s.barRegionSizes i size }

def interrogateBarRegions (s : PciConfigSpace) : PciConfigSpace :=
  (List.finRange 6).foldl interrogateBar s

def barRegionSize (s : PciConfigSpace) (i : Nat) : Nat :=
  if h : 5 < i then 2 ^ 64 - 1 else s.barRegionSizes ⟨i, by omega⟩

theorem interrogateBar_eq (s : PciConfigSpace) (i : Fin 6) :
    s.interrogateBar i =
      { s with barRegionSizes :=
          Function.update s.barRegionSizes i (s.bars i).interrogateBarRegion.2 } := by
  simp only [interrogateBar, Register.interrogateBarRegion_restores, Function.update_eq_self]

/-- No turn of the loop changes a register, and each one finds its own size. -/
theorem foldl_interrogateBar (turns : List (Fin 6)) (s : PciConfigSpace) :
    turns.foldl interrogateBar s =
      { s with barRegionSizes := fun i =>
          if i ∈ turns then (s.bars i).interrogateBarRegion.2 else s.barRegionSizes i } := by
  induction turns generalizing s with
  | nil => simp
  | cons first rest ih =>
    rw [List.foldl_cons, ih, interrogateBar_eq]
    congr 1
    funext i
    by_cases later : i ∈ rest
    · simp [later]
    · by_cases same : i = first
      · subst same
        simp
      · simp [later, same]

theorem barRegionSize_interrogateBarRegions (s : PciConfigSpace) (i : Fin 6) :
    s.interrogateBarRegions.barRegionSize i = (s.bars i).interrogateBarRegion.2 := by
  rw [barRegionSize, dif_neg (by omega), interrogateBarRegions, foldl_interrogateBar]
  exact if_pos (List.mem_finRange i)

/-- The registers are as before, and the size found for each region is its size. -/
def Sized (s : PciConfigSpace) (bars : Fin 6 → Bar) : Prop :=
  s.interrogateBarRegions.bars = s.bars ∧
    ∀ i kind n, bars i = region kind n → s.interrogateBarRegions.barRegionSize i = 2 ^ n

/-- Every BAR keeps its value, and its region is found with its size, exactly if no region (of I/O)
    has less than 16 bytes and none (of 64-bit memory) has 4 GiB or more. -/
theorem bar_sizes_iff {s : PciConfigSpace} {bars : Fin 6 → Bar}
    (of : ∀ i, (bars i).Of (s.bars i)) :
    s.Sized bars ↔ ∀ i kind n, bars i = region kind n → 4 ≤ n ∧ n < 32 := by
  have restored : s.interrogateBarRegions.bars = s.bars := by
    rw [interrogateBarRegions, foldl_interrogateBar]
  simp only [Sized, restored, true_and, barRegionSize_interrogateBarRegions]
  refine forall₄_congr fun i kind n is => ?_
  have of := is ▸ of i
  have type := Kind.types_and _ of.2.2.2.1
  constructor
  · intro found
    constructor
    · by_contra small
      exact Register.interrogateBarRegion_snd_ne of.value_ne type (by omega) found
    · refine (Nat.pow_lt_pow_iff_right (by decide : 1 < 2)).mp ?_
      exact found ▸ Register.interrogateBarRegion_snd_lt _
  · rintro ⟨least, lt⟩
    exact Register.interrogateBarRegion_snd_eq of.value_ne type of.2.2.1 least lt

/-- A megabyte of memory behind a pair of registers, and 32 bytes of I/O. -/
theorem bar_sizes_iff_mixed :
    let pair : Register := ⟨0xFFF00000, 4, 0xFE000004, by decide⟩
    let high : Register := ⟨0xFFFFFFFF, 0, 0, by decide⟩
    let ports : Register := ⟨0xFFFFFFE0, 1, 0xE001, by decide⟩
    let none : Register := ⟨0, 0, 0, by decide⟩
    PciConfigSpace.Sized ⟨![pair, high, ports, none, none, none], fun _ => 0⟩
      ![region .memory64 20, upper, region .io 5, unused, unused, unused] := by
  intro pair high ports none
  refine (bar_sizes_iff fun i => ?_).mpr fun i => ?_
  · fin_cases i
    · exact ⟨by decide, by decide, by decide, by decide, nofun⟩
    · rfl
    · exact ⟨by decide, by decide, by decide, by decide, nofun⟩
    all_goals rfl
  · fin_cases i <;> simp

/-- Four bytes of I/O are found as 16, and 8 GiB of memory as none. -/
theorem bar_sizes_wrong :
    let ports : Register := ⟨0xFFFFFFFC, 1, 0xE005, by decide⟩
    let memory : Register := ⟨0, 4, 4, by decide⟩
    let none : Register := ⟨0, 0, 0, by decide⟩
    let s : PciConfigSpace := ⟨![ports, memory, none, none, none, none], fun _ => 0⟩
    ((region .io 2).Of ports ∧ s.interrogateBarRegions.barRegionSize 0 = 16) ∧
      (region .memory64 33).Of memory ∧ s.interrogateBarRegions.barRegionSize 1 = 0 :=
  ⟨⟨⟨by decide, by decide, by decide, by decide, nofun⟩, by decide⟩,
    ⟨by decide, by decide, by decide, by decide, nofun⟩, by decide⟩

end PciConfigSpace

end Xdk.Pci
