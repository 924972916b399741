import Mathlib.Data.List.Range
import Xdk.Parasite.Interrupts

/-! # Failing allocations of interrupt vectors

`msi_alloc_store` refuses a device that already has vectors, by the number of its entries.  It
stores that number before it asks the kernel for the vectors, and does not take it back when the
kernel says no: neither the number, nor the memory of the entries, nor the handlers attached so
far.  The device then looks like one with vectors, and a later call for fewer of them is refused
as well.  In runs without such a call a refusal with `-EIO` means that vectors are allocated.
-/

namespace Xdk.Parasite

open Xdk.Lib

structure MsiCall where
  caller : Caller
  numVecs : Option Nat
  count : Nat
  answers : MsiAnswers

/-- The module, and whether a call has succeeded. -/
structure MsiState where
  kernel : Kernel
  succeeded : Bool

/-- The calls that are refused with an error code; `returned` is the result of the kernel. -/
def Outcome.Fails : Outcome → Prop
  | .error _ | .returned _ => True
  | .done | .crashed => False

instance (outcome : Outcome) : Decidable outcome.Fails :=
  match outcome with
  | .error _ | .returned _ => isTrue trivial
  | .done | .crashed => isFalse id

namespace MsiState

/-- The checks that come before an allocation: the number of vectors, if they are passed. -/
def accepted (s : MsiState) (pkdev : PkDevice) (request : MsiCall) : Option Nat :=
  if !s.kernel.state.checkAuthority pkdev.pciDev request.caller then none
  else if (s.kernel.irqs pkdev.minor).entryNum > 0 then none
  else request.numVecs.filter fun numVecs => !(numVecs > maxMsiVectorsPerDevice || numVecs = 0)

def call (device : Nat) (s : MsiState) (request : MsiCall) : Option (Outcome × MsiState) := do
  let (outcome, kernel) ←
    msiAllocStore s.kernel device request.caller request.numVecs request.count request.answers
  return (outcome, ⟨kernel, s.succeeded || outcome = .done⟩)

def next (device : Nat) (s : MsiState) (request : MsiCall) : Option MsiState :=
  match s.call device request with
  | none | some (.crashed, _) => none
  | some (_, s') => some s'

def allocation (s : MsiState) (pkdev : PkDevice) : Nat × List MsixEntry × Nat × List Handler :=
  let irq := s.kernel.irqs pkdev.minor
  (irq.entryNum, irq.msixEntry, irq.msiProcDirEntryNum, irq.attached)

/-- The kernel says no to a call that has passed the checks: it does not enable the vectors, or
    it refuses a handler to one of them.  For MSI the latter is an assertion, and a vector 0 is
    one for MSI-X. -/
def Refused (irq : PkIrq) (numVecs count : Nat) (answers : MsiAnswers) : Prop :=
  irq.msiSupport = 2 ∧ answers.memory = true ∧ (answers.enabled ≠ 0 ∨
      ∃ index < numVecs, answers.requested index = false ∧
        ∀ earlier ≤ index, answers.vectors earlier ≠ 0) ∨
    irq.msiSupport = 1 ∧ count ≤ 32 ∧ answers.enabled ≠ 0

def Spoils (s : MsiState) (pkdev : PkDevice) (request : MsiCall) : Prop :=
  ∃ numVecs, s.accepted pkdev request = some numVecs ∧
    Refused (s.kernel.irqs pkdev.minor) numVecs request.count request.answers

end MsiState

/-! ## The loop -/

section Loop

variable {asserted : Bool} {requested : Nat → Bool}

section

variable (i : Nat) (vectors : List Nat) (irq : PkIrq)
include i vectors irq

theorem setupHandlers_entries :
    (setupHandlers asserted requested i vectors irq).2.entryNum = irq.entryNum := by
  induction vectors generalizing i irq with
  | nil => rfl
  | cons vector vectors ih =>
    simp only [setupHandlers]
    split
    · rfl
    · split
      · exact ih _ _
      · rfl

theorem setupHandlers_outcome : let outcome := (setupHandlers asserted requested i vectors irq).1
    outcome = .done ∨ outcome = .crashed ∨ outcome = .error .einval := by
  induction vectors generalizing i irq with
  | nil => exact .inl rfl
  | cons vector vectors ih =>
    simp only [setupHandlers]
    split
    · exact .inr (.inl rfl)
    · split
      · exact ih _ _
      · exact .inr (.inr rfl)

end

/-- The loop over the MSI-X vectors ends with an error when a handler is refused before a
    vector is 0. -/
theorem setupHandlers_fails_iff (vectors : Nat → Nat) (i len : Nat) (irq : PkIrq) :
    (setupHandlers true requested i ((List.range' i len).map vectors) irq).1.Fails ↔
      ∃ refused, i ≤ refused ∧ refused < i + len ∧ requested refused = false ∧
        ∀ earlier, i ≤ earlier → earlier ≤ refused → vectors earlier ≠ 0 := by
  induction len generalizing i irq with
  | zero =>
    constructor
    · intro fails
      exact fails.elim
    · rintro ⟨refused, atLeast, lt, -⟩
      omega
  | succ len ih =>
    simp only [List.range'_succ, List.map_cons, setupHandlers, Bool.true_and, decide_eq_true_eq]
    by_cases vector : vectors i = 0
    · rw [if_pos vector]
      constructor
      · intro fails
        exact fails.elim
      · rintro ⟨refused, atLeast, -, -, nonzero⟩
        exact nonzero i le_rfl atLeast vector
    rw [if_neg vector]
    cases granted : requested i with
    | false =>
      refine ⟨fun _ => ⟨i, le_rfl, by omega, granted, fun earlier atLeast atMost => ?_⟩,
        fun _ => trivial⟩
      rw [Nat.le_antisymm atMost atLeast]
      exact vector
    | true =>
      rw [if_pos rfl, ih]
      constructor
      · rintro ⟨refused, atLeast, lt, no, nonzero⟩
        refine ⟨refused, by omega, by omega, no, fun earlier reached atMost => ?_⟩
        rcases Nat.eq_or_lt_of_le reached with rfl | later
        · exact vector
        · exact nonzero earlier later atMost
      · rintro ⟨refused, atLeast, lt, no, nonzero⟩
        have later : i ≠ refused := by
          rintro rfl
          rw [granted] at no
          cases no
        exact ⟨refused, by omega, by omega, no,
          fun earlier reached atMost => nonzero earlier (by omega) atMost⟩

end Loop

/-! ## One call -/

theorem setupMsixHandlers_fails_iff {irq : PkIrq} {answers : MsiAnswers} {numVecs : Nat}
    (filled : irq.msixEntry =
      (List.range numVecs).map fun i => ⟨answers.vectors i, i⟩) :
    (setupMsixHandlers irq answers).1.Fails ↔
      ∃ i < numVecs, answers.requested i = false ∧
        ∀ earlier ≤ i, answers.vectors earlier ≠ 0 := by
  have vectors : irq.msixEntry.map MsixEntry.vector =
      (List.range' 0 numVecs).map answers.vectors := by
    rw [filled, List.map_map, List.range_eq_range']
    rfl
  rw [setupMsixHandlers, vectors, setupHandlers_fails_iff]
  simp only [Nat.zero_le, true_and, Nat.zero_add, true_imp_iff]

section

variable (irq : PkIrq) (answers : MsiAnswers)
include irq answers

theorem setupMsiHandlers_outcome :
    (setupMsiHandlers irq answers).1 = .done ∨ (setupMsiHandlers irq answers).1 = .crashed := by
  simp only [setupMsiHandlers]
  split
  · exact .inl rfl
  · exact .inr rfl

theorem setupMsiHandlers_entries : (setupMsiHandlers irq answers).2.entryNum = irq.entryNum := by
  have entries := @setupHandlers_entries false answers.requested 0
    ((List.range irq.entryNum).map fun i => irq.pciIrq + i) irq
  simp only [setupMsiHandlers]
  split
  next ran => rwa [ran] at entries
  next ran => rwa [ran] at entries

end

/-- What a call past the checks comes to: the kernel says no and the entries stay, or the
    vectors are allocated, or an assertion fails, or the device is not touched. -/
inductive AllocEnd (irq : PkIrq) (numVecs count : Nat) (answers : MsiAnswers) :
    Outcome × PkIrq → Prop
  | refused {result} (no : MsiState.Refused irq numVecs count answers) (fails : result.1.Fails)
      (entries : result.2.entryNum = numVecs) : AllocEnd irq numVecs count answers result
  | allocated {irq'} (yes : ¬ MsiState.Refused irq numVecs count answers)
      (entries : irq'.entryNum = numVecs) : AllocEnd irq numVecs count answers (.done, irq')
  | crashed {irq'} (yes : ¬ MsiState.Refused irq numVecs count answers) :
      AllocEnd irq numVecs count answers (.crashed, irq')
  | untouched (yes : ¬ MsiState.Refused irq numVecs count answers) :
      AllocEnd irq numVecs count answers (.error .einval, irq)

theorem allocVectors_msix {irq : PkIrq} (msix : irq.msiSupport = 2) (numVecs c : Nat)
    (answers : MsiAnswers) :
    AllocEnd irq numVecs c answers (allocVectors irq numVecs c answers) := by
  have refusedIff : MsiState.Refused irq numVecs c answers ↔ answers.memory = true ∧
      (answers.enabled ≠ 0 ∨ ∃ i < numVecs, answers.requested i = false ∧
        ∀ earlier ≤ i, answers.vectors earlier ≠ 0) := by
    simp [MsiState.Refused, msix]
  rw [allocVectors, if_pos msix]
  by_cases memory : answers.memory = true
  swap
  · rw [if_pos (by simp [memory])]
    exact .crashed fun refused => memory (refusedIff.mp refused).1
  rw [if_neg (by simp [memory])]
  by_cases enabled : answers.enabled = 0
  swap
  · simp only [ne_eq, enabled]
    exact .refused (refusedIff.mpr ⟨memory, .inl enabled⟩) trivial rfl
  simp only [enabled]
  generalize state : ({ irq with
    msixEntry := (List.range numVecs).map fun i => ⟨answers.vectors i, i⟩
    entryNum := numVecs } : PkIrq) = filled
  have fails := @setupMsixHandlers_fails_iff filled answers numVecs (by rw [← state])
  have entries : (setupMsixHandlers filled answers).2.entryNum = numVecs := by
    rw [setupMsixHandlers, setupHandlers_entries, ← state]
  have ends := @setupHandlers_outcome true answers.requested 0
    (filled.msixEntry.map MsixEntry.vector) filled
  rw [← setupMsixHandlers] at ends
  generalize setupMsixHandlers filled answers = result at fails entries ends
  have refused : MsiState.Refused irq numVecs c answers ↔ result.1.Fails := by
    rw [refusedIff, fails]
    simp [memory, enabled]
  obtain ⟨outcome, irq'⟩ := result
  rcases ends with rfl | rfl | rfl
  · exact .allocated (fun no => refused.mp no) entries
  · exact .crashed fun no => refused.mp no
  · exact .refused (refused.mpr trivial) trivial entries

theorem allocVectors_msi {irq : PkIrq} (msi : irq.msiSupport = 1) (numVecs c : Nat)
    (answers : MsiAnswers) :
    AllocEnd irq numVecs c answers (allocVectors irq numVecs c answers) := by
  have refusedIff : MsiState.Refused irq numVecs c answers ↔
      c ≤ 32 ∧ answers.enabled ≠ 0 := by
    simp [MsiState.Refused, msi]
  rw [allocVectors, if_neg (by omega), if_pos msi]
  by_cases long : c > 32
  · rw [if_pos long]
    exact .untouched fun no => absurd (refusedIff.mp no).1 (by omega)
  rw [if_neg long]
  by_cases enabled : answers.enabled = 0
  swap
  · simp only [ne_eq, enabled]
    exact .refused (refusedIff.mpr ⟨by omega, enabled⟩) trivial rfl
  simp only [enabled]
  generalize state : ({ irq with entryNum := numVecs, pciIrq := answers.pciIrq } : PkIrq) = filled
  have entries : (setupMsiHandlers filled answers).2.entryNum = numVecs := by
    rw [setupMsiHandlers_entries, ← state]
  have ends := setupMsiHandlers_outcome filled answers
  generalize setupMsiHandlers filled answers = result at entries ends
  obtain ⟨outcome, irq'⟩ := result
  rcases ends with rfl | rfl
  · exact .allocated (fun no => (refusedIff.mp no).2 enabled) entries
  · exact .crashed fun no => (refusedIff.mp no).2 enabled

theorem allocVectors_ends (irq : PkIrq) (numVecs c : Nat) (answers : MsiAnswers) :
    AllocEnd irq numVecs c answers (allocVectors irq numVecs c answers) := by
  by_cases msix : irq.msiSupport = 2
  · exact allocVectors_msix msix numVecs c answers
  by_cases msi : irq.msiSupport = 1
  · exact allocVectors_msi msi numVecs c answers
  rw [allocVectors, if_neg msix, if_neg msi]
  exact .untouched (by simp [MsiState.Refused, msix, msi])

namespace MsiState

variable {device : Nat} {pkdev : PkDevice} {s s' : MsiState} {request : MsiCall}
variable {outcome : Outcome}

theorem accepted_iff {numVecs : Nat} :
    s.accepted pkdev request = some numVecs ↔
      s.kernel.state.checkAuthority pkdev.pciDev request.caller = true ∧
      (s.kernel.irqs pkdev.minor).entryNum = 0 ∧ request.numVecs = some numVecs ∧
      0 < numVecs ∧ numVecs ≤ maxMsiVectorsPerDevice := by
  simp only [accepted]
  cases s.kernel.state.checkAuthority pkdev.pciDev request.caller with
  | false => simp
  | true =>
    simp
    omega

section

variable (present : s.kernel.state.devices[device]? = some pkdev)
include present

theorem msiAllocStore_of_accepted {numVecs : Nat}
    (admitted : s.accepted pkdev request = some numVecs) :
    msiAllocStore s.kernel device request.caller request.numVecs request.count request.answers =
      let res :=
        allocVectors (s.kernel.irqs pkdev.minor) numVecs request.count request.answers
      some (res.1, s.kernel.setIrq pkdev.minor res.2) := by
  obtain ⟨authority, free, asked, positive, few⟩ := accepted_iff.mp admitted
  have inside : ¬ (numVecs > maxMsiVectorsPerDevice || numVecs = 0) = true := by
    simp
    omega
  simp [msiAllocStore, present, authority, free, asked, inside]

theorem msiAllocStore_of_rejected (turnedAway : s.accepted pkdev request = none) :
    ∃ errno, msiAllocStore s.kernel device request.caller request.numVecs request.count
        request.answers = some (.error errno, s.kernel) ∧
      (errno = .eio → 0 < (s.kernel.irqs pkdev.minor).entryNum) := by
  simp only [accepted] at turnedAway
  simp only [msiAllocStore, present, Option.bind_eq_bind, Option.bind_some]
  split
  · exact ⟨.eperm, rfl, nofun⟩
  · split
    next allocated => exact ⟨.eio, rfl, fun _ => allocated⟩
    next authority allocated =>
      rw [if_neg authority] at turnedAway
      split
      · exact ⟨.einval, rfl, nofun⟩
      next numVecs asked =>
        rw [asked] at turnedAway
        have outside : (numVecs > maxMsiVectorsPerDevice || numVecs = 0) = true := by
          simp at turnedAway ⊢
          omega
        rw [if_pos outside]
        exact ⟨.einval, rfl, nofun⟩

/-- The two ways of a call: it is turned away by the checks, or the vectors are asked for. -/
theorem call_cases (called : s.call device request = some (outcome, s')) :
    s.accepted pkdev request = none ∧ outcome.Fails ∧
        (outcome = .error .eio → 0 < (s.kernel.irqs pkdev.minor).entryNum) ∧ s' = s ∨
      ∃ numVecs, s.accepted pkdev request = some numVecs ∧
        ∃ irq', allocVectors (s.kernel.irqs pkdev.minor) numVecs request.count request.answers =
            (outcome, irq') ∧
          s' = ⟨s.kernel.setIrq pkdev.minor irq', s.succeeded || outcome = .done⟩ := by
  simp only [call] at called
  cases admitted : s.accepted pkdev request with
  | none =>
    obtain ⟨errno, stored, because⟩ := msiAllocStore_of_rejected present admitted
    rw [stored] at called
    cases called
    refine .inl ⟨rfl, trivial, fun same => because (Outcome.error.inj same), ?_⟩
    simp
  | some numVecs =>
    rw [msiAllocStore_of_accepted present admitted] at called
    cases called
    exact .inr ⟨numVecs, rfl, _, rfl, rfl⟩

end

/-! ## Whole runs -/

/-- The call behind a step. -/
theorem call_of_next (step : s.next device request = some s') :
    ∃ outcome, outcome ≠ .crashed ∧ s.call device request = some (outcome, s') := by
  simp only [next] at step
  split at step
  · cases step
  · cases step
  next outcome after notCrashed called =>
    cases step
    exact ⟨outcome, notCrashed, called⟩

structure Honest (device : Nat) (pkdev : PkDevice) (s : MsiState) : Prop where
  present : s.kernel.state.devices[device]? = some pkdev
  entries : 0 < (s.kernel.irqs pkdev.minor).entryNum ↔ s.succeeded = true

theorem Honest.next (honest : Honest device pkdev s) (clean : ¬ s.Spoils pkdev request)
    (step : s.next device request = some s') : Honest device pkdev s' := by
  obtain ⟨outcome, notCrashed, called⟩ := call_of_next step
  rcases call_cases honest.present called with
    ⟨-, -, -, rfl⟩ | ⟨numVecs, admitted, irq', result, rfl⟩
  · exact honest
  obtain ⟨-, free, -, pos, -⟩ := accepted_iff.mp admitted
  refine ⟨honest.present, ?_⟩
  have before : s.succeeded = false := by
    cases done : s.succeeded with
    | false => rfl
    | true => exact absurd (honest.entries.mpr done) (by omega)
  have ends := allocVectors_ends (s.kernel.irqs pkdev.minor) numVecs request.count
    request.answers
  rw [result] at ends
  simp only [before]
  cases ends with
  | refused no => exact absurd ⟨numVecs, admitted, no⟩ clean
  | allocated yes entries => simp [entries, pos]
  | crashed => exact absurd rfl notCrashed
  | untouched => simp [free]

theorem honest_of_reaches {start : MsiState} (honest : Honest device pkdev start)
    (run : Reaches (MsiState.next device) (fun s request => ¬ s.Spoils pkdev request) start s) :
    Honest device pkdev s :=
  run.invariant honest Honest.next

/-- What a call must do: change nothing when it fails, fail after a success, and say that the
    vectors are allocated only then. -/
structure Clean (pkdev : PkDevice) (s : MsiState) (outcome : Outcome) (s' : MsiState) : Prop where
  failed : outcome.Fails → s'.allocation pkdev = s.allocation pkdev
  later : s.succeeded = true → outcome.Fails ∧ s'.allocation pkdev = s.allocation pkdev
  reported : outcome = .error .eio → s.succeeded = true

/-- After calls that the kernel grants, and calls that are turned away by the checks, a call is
    clean exactly when it is one of those again. -/
theorem msi_alloc_store_clean_iff {start : MsiState}
    (present : start.kernel.state.devices[device]? = some pkdev)
    (none : (start.kernel.irqs pkdev.minor).entryNum = 0) (new : start.succeeded = false)
    (run : Reaches (MsiState.next device) (fun s request => ¬ s.Spoils pkdev request) start s)
    (called : s.call device request = some (outcome, s')) :
    Clean pkdev s outcome s' ↔ ¬ s.Spoils pkdev request := by
  have honest : Honest device pkdev s :=
    honest_of_reaches ⟨present, by simp [none, new]⟩ run
  rcases call_cases honest.present called with
    ⟨turnedAway, fails, because, rfl⟩ | ⟨numVecs, admitted, irq', result, rfl⟩
  · have fine : ¬ s'.Spoils pkdev request := by
      rintro ⟨numVecs, admitted, -⟩
      rw [turnedAway] at admitted
      cases admitted
    refine ⟨fun _ => fine, fun _ => ⟨fun _ => rfl, fun _ => ⟨fails, rfl⟩, ?_⟩⟩
    exact fun refused => honest.entries.mp (because refused)
  obtain ⟨-, free, -, positive, -⟩ := accepted_iff.mp admitted
  have before : s.succeeded ≠ true := fun done => by
    have := honest.entries.mpr done
    omega
  have spoilsIff : s.Spoils pkdev request ↔
      Refused (s.kernel.irqs pkdev.minor) numVecs request.count request.answers := by
    refine ⟨?_, fun no => ⟨numVecs, admitted, no⟩⟩
    rintro ⟨other, same, no⟩
    rw [admitted] at same
    cases same
    exact no
  have ends := allocVectors_ends (s.kernel.irqs pkdev.minor) numVecs request.count
    request.answers
  rw [result] at ends
  rw [spoilsIff]
  cases ends with
  | refused no fails entries =>
    refine ⟨fun clean => ?_, fun yes => absurd no yes⟩
    have same := congrArg Prod.fst (clean.failed fails)
    simp only [allocation, Kernel.setIrq_self] at same entries
    omega
  | allocated yes | crashed yes =>
    exact ⟨fun _ => yes, fun _ => ⟨nofun, fun done => absurd done before, nofun⟩⟩
  | untouched yes =>
    refine ⟨fun _ => yes, fun _ => ⟨fun _ => ?_, fun done => absurd done before, nofun⟩⟩
    simp only [allocation, Kernel.setIrq_self]

def msixDevice : PkDevice := ⟨0, ⟨0, 6, 0, 0⟩, []⟩

def unallocated : MsiState where
  kernel :=
    { state := ⟨[msixDevice], [⟨6, 0, 0, 1000⟩], []⟩
      irqs := fun _ => ⟨irqModeMasking, 2, 0, [], 0, fun _ => ⟨0, 0⟩, 0, []⟩
      irqDepth := fun _ => 0 }
  succeeded := false

/-- The user asks for vectors, with the result of `pci_enable_msix` and the vectors that get
    their handler. -/
def ask (numVecs : Nat) (enabled : Int) (requested : Nat → Bool) : MsiCall where
  caller := ⟨8, 1000⟩
  numVecs := some numVecs
  count := 2
  answers := ⟨true, enabled, fun index => 40 + index, 0, requested⟩

/-- Two vectors are allocated, and a second call is turned away without a change. -/
theorem msi_alloc_store_clean_iff_second :
    ∃ s s', unallocated.next 0 (ask 2 0 fun _ => true) = some s ∧
      s.call 0 (ask 1 0 fun _ => true) = some (.error .eio, s') ∧
      Clean msixDevice s (.error .eio) s' := by
  have granted : ¬ unallocated.Spoils msixDevice (ask 2 0 fun _ => true) := by
    rintro ⟨numVecs, -, ⟨-, -, no | ⟨index, -, no, -⟩⟩ | ⟨no, -⟩⟩
    · exact no rfl
    · cases no
    · cases no
  obtain ⟨s, s', stepped, second, turnedAway⟩ :
      ∃ s s', unallocated.next 0 (ask 2 0 fun _ => true) = some s ∧
        s.call 0 (ask 1 0 fun _ => true) = some (.error .eio, s') ∧
        s.accepted msixDevice (ask 1 0 fun _ => true) = none :=
    ⟨_, _, rfl, rfl, rfl⟩
  refine ⟨s, s', stepped, second,
    (msi_alloc_store_clean_iff rfl rfl rfl (.next .refl granted stepped) second).mpr ?_⟩
  rintro ⟨numVecs, accepted, -⟩
  rw [turnedAway] at accepted
  cases accepted

/-- The kernel has no memory for four vectors, and the next call, for two, is turned away
    although nothing is allocated.  If the kernel refuses the second of two handlers, the
    first stays attached. -/
theorem msi_alloc_store_failure_remains :
    (∃ s s', unallocated.call 0 (ask 4 (-12) fun _ => true) = some (.returned (-12), s) ∧
      (s.kernel.irqs 0).entryNum = 4 ∧ s.succeeded = false ∧
      s.call 0 (ask 2 0 fun _ => true) = some (.error .eio, s')) ∧
    ∃ s, unallocated.call 0 (ask 2 0 fun index => index = 0) = some (.error .einval, s) ∧
      (s.kernel.irqs 0).msixEntry = [⟨40, 0⟩, ⟨41, 1⟩] ∧
      (s.kernel.irqs 0).msiProcDirEntryNum = 1 ∧ (s.kernel.irqs 0).attached = [⟨40, 0⟩] :=
  ⟨⟨_, _, rfl, rfl, rfl, rfl⟩, _, rfl, by decide, by decide, by decide⟩

end MsiState

end Xdk.Parasite
