import Xdk.Parasite.Interrupts

/-! # Masking the vectors of a device

In the masking mode the handler of a vector disables it, and a write to the file of the vector
enables it again.  The kernel counts how often a vector has been disabled, and `enable_irq` on a
vector that is enabled is an error.

`irq_mode_store` means to bring the vectors into a state that fits the new mode, and does not look
at the state they are in: it enables every vector once for the mode 1, also those that are enabled,
and disables every vector for any other number, also for one that is no mode.
-/

namespace Xdk.Parasite

open Xdk.Lib

/-! ## The loop of `irq_mode_store` -/

def resetCalls (mode : Nat) : List (Option MsixEntry) → (Nat → Nat) → List Nat
  | [], _ => []
  | none :: _, _ => []
  | some entry :: entries, irqDepth =>
    if entry.vector = 0 then []
    else if mode = 1 then
      irqDepth entry.vector :: resetCalls mode entries (enableIrq irqDepth entry.vector)
    else resetCalls mode entries (disableIrq irqDepth entry.vector)

def resetDepth (mode depth : Nat) : Nat := if mode = 1 then depth - 1 else depth + 1

theorem reset_eq (mode : Nat) (irqDepth : Nat → Nat) (vector : Nat) :
    (if mode = 1 then enableIrq irqDepth vector else disableIrq irqDepth vector) =
      Function.update irqDepth vector (resetDepth mode (irqDepth vector)) := by
  by_cases enables : mode = 1
  · simp [enables, resetDepth, enableIrq]
  · simp [enables, resetDepth, disableIrq]

/-- Every vector is treated once, whatever the others are. -/
theorem resetMasking_eq (mode : Nat) {entries : List MsixEntry} (irqDepth : Nat → Nat)
    (nodup : (entries.map MsixEntry.vector).Nodup)
    (nonzero : ∀ e ∈ entries, e.vector ≠ 0) :
    resetMasking mode (entries.map some) irqDepth =
      (true, fun vector => if vector ∈ entries.map MsixEntry.vector
        then resetDepth mode (irqDepth vector) else irqDepth vector) := by
  induction entries generalizing irqDepth with
  | nil => simp [resetMasking]
  | cons e entries ih =>
    rw [List.map_cons, List.nodup_cons] at nodup
    have first := nonzero e List.mem_cons_self
    have rest := ih
      (Function.update irqDepth e.vector (resetDepth mode (irqDepth e.vector))) nodup.2
      fun o mem => nonzero o (List.mem_cons_of_mem _ mem)
    simp only [List.map_cons, resetMasking, first, if_false, reset_eq, rest, Prod.mk.injEq,
      true_and]
    funext vector
    by_cases same : vector = e.vector
    · subst same
      simp [nodup.1]
    · simp [same]

theorem resetCalls_enables {entries : List MsixEntry} (irqDepth : Nat → Nat)
    (nodup : (entries.map MsixEntry.vector).Nodup)
    (nonzero : ∀ e ∈ entries, e.vector ≠ 0) :
    resetCalls 1 (entries.map some) irqDepth =
      (entries.map MsixEntry.vector).map irqDepth := by
  induction entries generalizing irqDepth with
  | nil => rfl
  | cons e entries ih =>
    rw [List.map_cons, List.nodup_cons] at nodup
    have first := nonzero e List.mem_cons_self
    have rest := ih (enableIrq irqDepth e.vector) nodup.2
      fun o mem => nonzero o (List.mem_cons_of_mem _ mem)
    simp only [List.map_cons, resetCalls, first, if_false, if_true, rest, List.cons.injEq, true_and]
    apply List.map_congr_left
    intro vector mem
    have ne : vector ≠ e.vector := by
      intro same
      exact nodup.1 (same ▸ mem)
    simp [enableIrq, ne]

theorem resetCalls_of_ne {mode : Nat} (ne : mode ≠ 1) (entries : List (Option MsixEntry))
    (irqDepth : Nat → Nat) : resetCalls mode entries irqDepth = [] := by
  induction entries generalizing irqDepth with
  | nil => rfl
  | cons e entries ih =>
    cases e with
    | none => rfl
    | some e => simp [resetCalls, ne, ih]

theorem map_getElem?_range {α : Type*} (list : List α) :
    ((List.range list.length).map fun i => list[i]?) = list.map some := by
  apply List.ext_getElem
  · simp
  · intro i _ lt
    simp

/-! ## The device -/

inductive IrqEvent where
  | irqModeStore (caller : Caller) (mode : Option Nat)
  -- an interrupt on the vector of a wait queue
  | handler (queue : Nat)
  | msiProcWrite (queue : Nat)

/-- A run of `msi_threaded_irq_handler`; a vector that is disabled does not interrupt. -/
def runHandler (k : Kernel) (device queue : Nat) : Option Kernel := do
  let pkdev ← k.state.devices[device]?
  let irq := k.irqs pkdev.minor
  let wq := irq.msiIrqWaitQueue queue
  if k.irqDepth wq.irq ≠ 0 then none
  let (irqDepth, wq) := msiThreadedIrqHandler irq.irqMode k.irqDepth wq
  return { k.setIrq pkdev.minor { irq with
    msiIrqWaitQueue := Function.update irq.msiIrqWaitQueue queue wq } with irqDepth := irqDepth }

def irqStep (device : Nat) (k : Kernel) : IrqEvent → Option Kernel
  | .irqModeStore caller mode => (Parasite.irqModeStore k device caller mode).map Prod.snd
  | .handler queue => runHandler k device queue
  | .msiProcWrite queue => (Parasite.msiProcWrite k device queue).map Prod.snd

/-- The depths at which an event finds the vectors that it calls `enable_irq` on. -/
def enableCalls (pkdev : PkDevice) (k : Kernel) : IrqEvent → List Nat
  | .irqModeStore caller mode =>
    if k.state.checkAuthority pkdev.pciDev caller then
      match mode with
      | none => []
      | some mode =>
        let irq := k.irqs pkdev.minor
        resetCalls mode ((List.range irq.entryNum).map fun index => irq.msixEntry[index]?)
          k.irqDepth
    else []
  | .handler _ => []
  | .msiProcWrite queue =>
    if (k.irqs pkdev.minor).irqMode = irqModeMasking then
      [k.irqDepth ((k.irqs pkdev.minor).msiIrqWaitQueue queue).irq]
    else []

/-- A device that is attached and has got MSI-X vectors, which the kernel chose different and not
    0. -/
structure HasVectors (device : Nat) (pkdev : PkDevice) (vectors : List Nat) (k : Kernel) :
    Prop where
  attached : k.state.devices[device]? = some pkdev
  number : (k.irqs pkdev.minor).entryNum = (k.irqs pkdev.minor).msixEntry.length
  entries : (k.irqs pkdev.minor).msixEntry.map MsixEntry.vector = vectors
  queues : ∀ queue < vectors.length,
    ((k.irqs pkdev.minor).msiIrqWaitQueue queue).irq ∈ vectors
  distinct : vectors.Nodup
  nonzero : 0 ∉ vectors

/-- A vector is disabled in the masking mode only. -/
def Settled (pkdev : PkDevice) (vectors : List Nat) (k : Kernel) : Prop :=
  (k.irqs pkdev.minor).irqMode = irqModeNonmasking → ∀ vector ∈ vectors, k.irqDepth vector = 0

/-- A step that does as it should: no vector is enabled that is enabled already, a mode that is
    unknown changes nothing, and no vector is left disabled in the mode without masking. -/
structure Proper (pkdev : PkDevice) (vectors : List Nat) (k : Kernel) (event : IrqEvent)
    (k' : Kernel) : Prop where
  balanced : 0 ∉ enableCalls pkdev k event
  unknown : ∀ caller mode, event = .irqModeStore caller (some mode) → mode ≠ 1 → mode ≠ 2 →
    (k'.irqs pkdev.minor).irqMode = (k.irqs pkdev.minor).irqMode ∧
      ∀ vector ∈ vectors, k'.irqDepth vector = k.irqDepth vector
  settled : Settled pkdev vectors k'

/-- The events that fit the state of the vectors.  Only a write of an authorised process is
    looked at. -/
def Fits (pkdev : PkDevice) (vectors : List Nat) (k : Kernel) : IrqEvent → Prop
  | .irqModeStore caller (some mode) => k.state.checkAuthority pkdev.pciDev caller = true →
    (mode = 1 → ∀ vector ∈ vectors, k.irqDepth vector = 1) ∧
      (mode ≠ 1 → mode ≠ 2 → vectors = [])
  | .irqModeStore _ none => True
  | .handler _ => True
  | .msiProcWrite queue => (k.irqs pkdev.minor).irqMode = irqModeMasking →
    k.irqDepth ((k.irqs pkdev.minor).msiIrqWaitQueue queue).irq ≠ 0

def Present (vectors : List Nat) : IrqEvent → Prop
  | .irqModeStore _ _ => True
  | .handler queue => queue < vectors.length
  | .msiProcWrite queue => queue < vectors.length

instance (pkdev : PkDevice) (vectors : List Nat) (k : Kernel) (event : IrqEvent) :
    Decidable (Fits pkdev vectors k event) :=
  match event with
  | .irqModeStore _ (some _) => inferInstanceAs (Decidable (_ → _ ∧ _))
  | .irqModeStore _ none => isTrue trivial
  | .handler _ => isTrue trivial
  | .msiProcWrite _ => inferInstanceAs (Decidable (_ → _))

instance (vectors : List Nat) (event : IrqEvent) : Decidable (Present vectors event) :=
  match event with
  | .irqModeStore _ _ => isTrue trivial
  | .handler _ => inferInstanceAs (Decidable (_ < _))
  | .msiProcWrite _ => inferInstanceAs (Decidable (_ < _))

section Steps

variable {device : Nat} {pkdev : PkDevice} {vectors : List Nat} {k k' : Kernel}

def modeAfter (irqMode mode : Nat) : Nat :=
  if mode = 1 then irqModeNonmasking else if mode = 2 then irqModeMasking else irqMode

def afterWrite (pkdev : PkDevice) (vectors : List Nat) (k : Kernel) (mode : Nat) : Kernel :=
  { k.setIrq pkdev.minor { k.irqs pkdev.minor with
      irqMode := modeAfter (k.irqs pkdev.minor).irqMode mode } with
    irqDepth := fun vector =>
      if vector ∈ vectors then resetDepth mode (k.irqDepth vector) else k.irqDepth vector }

theorem HasVectors.entries_eq (has : HasVectors device pkdev vectors k) :
    ((List.range (k.irqs pkdev.minor).entryNum).map fun i =>
      (k.irqs pkdev.minor).msixEntry[i]?) = (k.irqs pkdev.minor).msixEntry.map some := by
  rw [has.number]
  exact map_getElem?_range _

theorem HasVectors.vector_ne_zero (has : HasVectors device pkdev vectors k) :
    ∀ e ∈ (k.irqs pkdev.minor).msixEntry, e.vector ≠ 0 := by
  intro e mem zero
  apply has.nonzero
  rw [← has.entries, ← zero]
  exact List.mem_map_of_mem mem

variable {caller : Caller}

section

variable (has : HasVectors device pkdev vectors k)
include has

section

variable (authorised : k.state.checkAuthority pkdev.pciDev caller = true) (mode : Nat)
include authorised mode

theorem HasVectors.irqModeStore_eq :
    irqModeStore k device caller (some mode) = some (.done, afterWrite pkdev vectors k mode) := by
  have nodup := has.distinct
  rw [← has.entries] at nodup
  have reset := resetMasking_eq mode k.irqDepth nodup has.vector_ne_zero
  simp only [irqModeStore, has.attached, authorised, has.entries_eq, reset, Option.bind_eq_bind,
    Option.bind_some, has.entries]
  rfl

theorem HasVectors.enableCalls_eq :
    enableCalls pkdev k (.irqModeStore caller (some mode)) =
      if mode = 1 then vectors.map k.irqDepth else [] := by
  have nodup := has.distinct
  rw [← has.entries] at nodup
  simp only [enableCalls, authorised, if_true, has.entries_eq]
  by_cases enables : mode = 1
  · rw [enables, resetCalls_enables k.irqDepth nodup has.vector_ne_zero, has.entries, if_pos rfl]
  · rw [resetCalls_of_ne enables, if_neg enables]

end

/-- A write that is refused. -/
theorem irqModeStore_refused {mode : Option Nat}
    (refused : k.state.checkAuthority pkdev.pciDev caller = false ∨ mode = none) :
    (irqModeStore k device caller mode).map Prod.snd = some k ∧
      enableCalls pkdev k (.irqModeStore caller mode) = [] := by
  cases authority : k.state.checkAuthority pkdev.pciDev caller with
  | false => simp [irqModeStore, has.attached, authority, enableCalls]
  | true =>
    obtain unauthorised | rfl := refused
    · simp [authority] at unauthorised
    · simp [irqModeStore, has.attached, authority, enableCalls]

end

/-! ### One write of a mode -/

theorem settled_afterWrite_one :
    Settled pkdev vectors (afterWrite pkdev vectors k 1) ↔
      ∀ vector ∈ vectors, k.irqDepth vector - 1 = 0 := by
  simp only [Settled, afterWrite, Kernel.setIrq_self, modeAfter, if_true, true_imp_iff]
  apply forall₂_congr
  intro vector listed
  simp [listed, resetDepth]

theorem settled_afterWrite_two : Settled pkdev vectors (afterWrite pkdev vectors k 2) := by
  intro nonmasking
  simp [afterWrite, modeAfter, irqModeMasking, irqModeNonmasking] at nonmasking

/-- A write of a number that is no mode disables all vectors. -/
theorem irqDepth_afterWrite {mode vector : Nat} (ne : mode ≠ 1) (listed : vector ∈ vectors) :
    (afterWrite pkdev vectors k mode).irqDepth vector = k.irqDepth vector + 1 := by
  simp [afterWrite, listed, resetDepth, ne]

theorem proper_write_iff (has : HasVectors device pkdev vectors k) {c : Caller} {mode : Nat}
    (authorised : k.state.checkAuthority pkdev.pciDev c = true) :
    Proper pkdev vectors k (.irqModeStore c (some mode)) (afterWrite pkdev vectors k mode) ↔
      Fits pkdev vectors k (.irqModeStore c (some mode)) := by
  have calls := has.enableCalls_eq authorised mode
  simp only [Fits, authorised, true_imp_iff]
  by_cases one : mode = 1
  · subst one
    rw [if_pos rfl] at calls
    constructor
    · intro proper
      have enabled := settled_afterWrite_one.mp proper.settled
      have balanced := proper.balanced
      rw [calls] at balanced
      constructor
      · intro _ vector listed
        have disabled : k.irqDepth vector ≠ 0 := by
          intro zero
          apply balanced
          rw [← zero]
          exact List.mem_map_of_mem listed
        have := enabled vector listed
        omega
      · intro o
        exact absurd rfl o
    · intro fits
      have depths := fits.1 rfl
      constructor
      · rw [calls]
        simp only [List.mem_map, not_exists, not_and]
        intro vector listed
        rw [depths vector listed]
        simp
      · intro caller' mode' same o
        cases same
        exact absurd rfl o
      · apply settled_afterWrite_one.mpr
        intro vector listed
        rw [depths vector listed]
  · rw [if_neg one] at calls
    by_cases two : mode = 2
    · subst two
      constructor
      · intro _
        exact ⟨fun same => absurd same one, fun _ o => absurd rfl o⟩
      · intro _
        constructor
        · simp [calls]
        · intro caller' mode' same _ o
          cases same
          exact absurd rfl o
        · exact settled_afterWrite_two
    · -- not a mode: the vectors are disabled all the same
      constructor
      · intro proper
        refine ⟨fun same => absurd same one, fun _ _ => ?_⟩
        have unchanged := (proper.unknown c mode rfl one two).2
        apply List.eq_nil_iff_forall_not_mem.mpr
        intro vector listed
        have same := unchanged vector listed
        rw [irqDepth_afterWrite one listed] at same
        omega
      · intro fits
        obtain rfl := fits.2 one two
        constructor
        · simp [calls]
        · intro caller' mode' same _ _
          simp [afterWrite, modeAfter, one, two]
        · intro nonmasking vector listed
          cases listed

/-! ### Every event -/

/-- A step that changes nothing but how often vectors are disabled, and does so in the masking mode
    only. -/
theorem settled_of_masking {irqDepth : Nat → Nat} (settled : Settled pkdev vectors k)
    (mode : (k'.irqs pkdev.minor).irqMode = (k.irqs pkdev.minor).irqMode)
    (depth : k'.irqDepth = if (k.irqs pkdev.minor).irqMode = irqModeMasking then irqDepth
      else k.irqDepth) : Settled pkdev vectors k' := by
  intro nonmasking vector mem
  rw [mode] at nonmasking
  have unmasked : ¬ (k.irqs pkdev.minor).irqMode = irqModeMasking := by
    rw [nonmasking]
    simp [irqModeMasking, irqModeNonmasking]
  rw [depth, if_neg unmasked]
  exact settled nonmasking vector mem

section

variable (has : HasVectors device pkdev vectors k)
include has

theorem proper_handler (settled : Settled pkdev vectors k) {queue : Nat}
    (step : runHandler k device queue = some k') :
    Proper pkdev vectors k (.handler queue) k' := by
  simp only [runHandler, has.attached, Option.bind_eq_bind, Option.bind_some] at step
  split at step
  · cases step
  · cases step
    constructor
    · simp [enableCalls]
    · intro caller mode same
      cases same
    · apply settled_of_masking settled
      · simp
      · rfl

theorem msiProcWrite_eq (queue : Nat) :
    msiProcWrite k device queue = some (.done, { k with
      irqDepth := if (k.irqs pkdev.minor).irqMode = irqModeMasking then
          enableIrq k.irqDepth ((k.irqs pkdev.minor).msiIrqWaitQueue queue).irq
        else k.irqDepth }) := by
  simp only [msiProcWrite, has.attached, Option.bind_eq_bind, Option.bind_some]
  split <;> rfl

theorem proper_msiProcWrite_iff (settled : Settled pkdev vectors k) {queue : Nat}
    (step : (msiProcWrite k device queue).map Prod.snd = some k') :
    Proper pkdev vectors k (.msiProcWrite queue) k' ↔
      Fits pkdev vectors k (.msiProcWrite queue) := by
  rw [msiProcWrite_eq has, Option.map_some, Option.some.injEq] at step
  subst step
  have calls : 0 ∉ enableCalls pkdev k (.msiProcWrite queue) ↔
      Fits pkdev vectors k (.msiProcWrite queue) := by
    simp only [enableCalls, Fits]
    split
    · rename_i masking
      simp [masking, eq_comm]
    · rename_i unmasked
      simp [unmasked]
  rw [← calls]
  constructor
  · exact Proper.balanced
  · intro balanced
    constructor
    · exact balanced
    · intro caller mode same
      cases same
    · exact settled_of_masking settled rfl rfl

/-- A step is proper exactly if its event fits the state of the vectors. -/
theorem proper_iff_fits (settled : Settled pkdev vectors k) {event : IrqEvent}
    (step : irqStep device k event = some k') :
    Proper pkdev vectors k event k' ↔ Fits pkdev vectors k event := by
  cases event with
  | handler queue => exact ⟨fun _ => trivial, fun _ => proper_handler has settled step⟩
  | msiProcWrite queue => exact proper_msiProcWrite_iff has settled step
  | irqModeStore c mode =>
    by_cases accepted : k.state.checkAuthority pkdev.pciDev c = true ∧ mode.isSome = true
    · obtain ⟨authorised, given⟩ := accepted
      obtain ⟨mode, rfl⟩ := Option.isSome_iff_exists.mp given
      simp only [irqStep, has.irqModeStore_eq authorised, Option.map_some,
        Option.some.injEq] at step
      subst step
      exact proper_write_iff has authorised
    · have refused : k.state.checkAuthority pkdev.pciDev c = false ∨ mode = none := by
        cases mode with
        | none => exact .inr rfl
        | some mode => exact .inl (by simpa using accepted)
      obtain ⟨same, calls⟩ := irqModeStore_refused has refused
      obtain rfl := Option.some.inj (same.symm.trans step)
      constructor
      · intro _
        obtain unauthorised | rfl := refused
        · cases mode with
          | none => trivial
          | some mode =>
            intro authorised
            rw [unauthorised] at authorised
            cases authorised
        · trivial
      · intro _
        constructor
        · simp [calls]
        · intro _ _ _ _ _
          exact ⟨rfl, fun _ _ => rfl⟩
        · exact settled

theorem HasVectors.step {ev : IrqEvent} (step : irqStep device k ev = some k') :
    HasVectors device pkdev vectors k' := by
  suffices kept : k'.state = k.state ∧
      (k'.irqs pkdev.minor).entryNum = (k.irqs pkdev.minor).entryNum ∧
      (k'.irqs pkdev.minor).msixEntry = (k.irqs pkdev.minor).msixEntry ∧
      ∀ queue, ((k'.irqs pkdev.minor).msiIrqWaitQueue queue).irq =
        ((k.irqs pkdev.minor).msiIrqWaitQueue queue).irq by
    obtain ⟨state, number, entries, queues⟩ := kept
    constructor
    · rw [state, has.attached]
    · rw [number, entries, has.number]
    · rw [entries, has.entries]
    · intro queue lt
      rw [queues]
      exact has.queues queue lt
    · exact has.distinct
    · exact has.nonzero
  cases ev with
  | irqModeStore caller mode =>
    simp only [irqStep, irqModeStore, has.attached, Option.bind_eq_bind,
      Option.bind_some] at step
    split at step
    · cases step
      simp
    · cases mode with
      | none =>
        cases step
        simp
      | some mode =>
        cases step
        simp [Kernel.setIrq]
  | handler queue =>
    simp only [irqStep, runHandler, has.attached, Option.bind_eq_bind, Option.bind_some] at step
    split at step
    · cases step
    · cases step
      refine ⟨rfl, by simp, by simp, fun o => ?_⟩
      by_cases same : o = queue
      · subst same
        simp [msiThreadedIrqHandler]
      · simp [same]
  | msiProcWrite queue =>
    simp only [irqStep, msiProcWrite_eq has, Option.map_some, Option.some.injEq] at step
    subst step
    simp

end

end Steps

/-! ## Runs -/

/-- From any state of a device with all its vectors enabled: as long as every write fits the state
    of the vectors, no vector is disabled in the mode without masking; and whatever comes next, the
    step is proper exactly if it fits, too. -/
theorem irq_masking_balanced {device : Nat} {pkdev : PkDevice} {vectors : List Nat}
    {start k : Kernel} (has : HasVectors device pkdev vectors start)
    (enabled : ∀ vector ∈ vectors, start.irqDepth vector = 0)
    (run : Reaches (irqStep device)
      (fun k event => Present vectors event ∧ Fits pkdev vectors k event) start k) :
    Settled pkdev vectors k ∧ ∀ event k', Present vectors event →
      irqStep device k event = some k' →
      (Proper pkdev vectors k event k' ↔ Fits pkdev vectors k event) := by
  have kept : HasVectors device pkdev vectors k ∧ Settled pkdev vectors k := by
    apply run.invariant
    · exact ⟨has, fun _ => enabled⟩
    · intro before after event known allowed stepped
      have proper := (proper_iff_fits known.1 known.2 stepped).mpr allowed.2
      exact ⟨known.1.step stepped, proper.settled⟩
  refine ⟨kept.2, fun event k' _ stepped => ?_⟩
  exact proper_iff_fits kept.1 kept.2 stepped

def withTwoVectors : PkDevice := ⟨0, ⟨0, 1, 0, 0⟩, []⟩

/-- A device with the vectors 33 and 34, as it is after their allocation.  The user 0 may use
    it. -/
def twoVectors : Kernel where
  state := ⟨[withTwoVectors], [⟨1, 0, 0, 0⟩], []⟩
  irqs := fun _ =>
    { irqMode := irqModeNonmasking
      msiSupport := 2
      entryNum := 2
      msixEntry := [⟨33, 0⟩, ⟨34, 1⟩]
      msiProcDirEntryNum := 2
      msiIrqWaitQueue := fun queue => ⟨33 + queue, 0⟩
      pciIrq := 11
      attached := [⟨33, 0⟩, ⟨34, 1⟩] }
  irqDepth := fun _ => 0

theorem hasVectors_twoVectors : HasVectors 0 withTwoVectors [33, 34] twoVectors := by
  constructor
  · rfl
  · rfl
  · rfl
  · intro queue lt
    match queue, lt with
    | 0, _ => simp [twoVectors]
    | 1, _ => simp [twoVectors]
  · simp
  · simp

/-- To the masking mode, the vector 33 is enabled and interrupts, and back to the other mode. -/
theorem irq_masking_balanced_round : ∃ k, Reaches (irqStep 0)
    (fun k event => Present [33, 34] event ∧ Fits withTwoVectors [33, 34] k event) twoVectors k ∧
    (k.irqs 0).irqMode = irqModeNonmasking ∧ (k.irqDepth 33 = 0 ∧ k.irqDepth 34 = 0) ∧
    ¬ ∃ k', irqStep 0 k (.irqModeStore ⟨7, 0⟩ (some 1)) = some k' ∧
      Proper withTwoVectors [33, 34] k (.irqModeStore ⟨7, 0⟩ (some 1)) k' := by
  have executed : ∃ k ∈ execute (irqStep 0)
      (fun k event => Present [33, 34] event ∧ Fits withTwoVectors [33, 34] k event)
      [.irqModeStore ⟨7, 0⟩ (some 2), .msiProcWrite 0, .handler 0, .irqModeStore ⟨7, 0⟩ (some 1)]
      twoVectors, (k.irqs 0).irqMode = irqModeNonmasking ∧
        ¬ Fits withTwoVectors [33, 34] k (.irqModeStore ⟨7, 0⟩ (some 1)) := by
    decide
  obtain ⟨k, run, nonmasking, unfit⟩ := exists_reaches_of_execute executed
  obtain ⟨settled, next⟩ := irq_masking_balanced hasVectors_twoVectors (fun _ _ => rfl) run
  have enabled := settled nonmasking
  refine ⟨k, run, nonmasking, ⟨enabled 33 (by simp), enabled 34 (by simp)⟩, ?_⟩
  rintro ⟨k', stepped, proper⟩
  exact unfit ((next (.irqModeStore ⟨7, 0⟩ (some 1)) k' trivial stepped).mp proper)

/-- A write of the mode that the device is in calls `enable_irq` on enabled vectors, and a write of
    a number that is no mode leaves them disabled. -/
theorem irq_mode_store_unbalanced :
    0 ∈ enableCalls withTwoVectors twoVectors (.irqModeStore ⟨7, 0⟩ (some 1)) ∧
      ∃ k', irqStep 0 twoVectors (.irqModeStore ⟨7, 0⟩ (some 3)) = some k' ∧
        (k'.irqs 0).irqMode = irqModeNonmasking ∧ k'.irqDepth 33 = 1 ∧ k'.irqDepth 34 = 1 := by
  decide

end Xdk.Parasite
