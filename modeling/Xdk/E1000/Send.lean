import Mathlib.Data.Nat.ModEq
import Xdk.Lib.Transition

/-! # Synchronous send of the e1000 driver

`send` fills the descriptor at `tx_buf_pos`, writes the tail register and polls the status of that
descriptor.  The hardware processes the descriptors between its head and the tail in ring order
and sets the status of each afterwards.  Neither `tx_init` nor `send` clears a status, so what
the poll sees may be older than the call.
-/

namespace Xdk.E1000

open Xdk.Lib Function

def numTxDescriptors : Nat := 4 * 4096 / 16

structure TxDesc where
  address : UInt64
  length : UInt16
  cmd : UInt8
  sta : UInt8

def TxDesc.Done (desc : TxDesc) : Prop := desc.sta &&& 0xF ≠ 0

instance (desc : TxDesc) : Decidable desc.Done := inferInstanceAs (Decidable (_ ≠ _))

inductive Phase where
  | idle
  | filled
  | polling (oldPos : Nat)
  deriving DecidableEq

/-- `tdh` is the descriptor that the hardware processes next.  `called` counts the calls of
    `send`, `processed` the descriptors processed and `writtenBack` those whose status has been
    set. -/
structure Card where
  txDesc : Nat → TxDesc
  txBufPos : Nat
  sndCounter : Nat
  phase : Phase
  tdh : Nat
  tdt : Nat
  called : Nat
  processed : Nat
  writtenBack : Nat

namespace Card

/-- The status of a descriptor is what the pages of the ring had there. -/
def txInit (pages : Nat → TxDesc) : Card where
  txDesc index := { pages index with address := 0, cmd := 0 }
  txBufPos := 0
  sndCounter := 0
  phase := .idle
  tdh := 0
  tdt := 0
  called := 0
  processed := 0
  writtenBack := 0

inductive Event where
  | call (pktPhys length : UInt32)
  | writeTail
  | poll
  | process
  | writeBack

def fill (desc : TxDesc) (pktPhys length : UInt32) : TxDesc :=
  { desc with
    address := pktPhys.toUInt64
    length := length.toUInt16
    cmd := ((1 : UInt8) <<< 3) ||| 3 }

def step (card : Card) : Event → Option Card
  | .call pktPhys length =>
    match card.phase with
    | .idle =>
      some { card with
        txDesc := Function.update card.txDesc card.txBufPos
          (fill (card.txDesc card.txBufPos) pktPhys length)
        phase := .filled
        called := card.called + 1 }
    | _ => none
  | .writeTail =>
    match card.phase with
    | .filled =>
      some { card with
        txBufPos := (card.txBufPos + 1) % numTxDescriptors
        tdt := (card.txBufPos + 1) % numTxDescriptors
        phase := .polling card.txBufPos }
    | _ => none
  | .poll =>
    match card.phase with
    | .polling oldPos =>
      if (card.txDesc oldPos).Done then
        some { card with phase := .idle, sndCounter := card.sndCounter + 1 }
      else some card
    | _ => none
  | .process =>
    if card.tdh ≠ card.tdt then
      some { card with tdh := (card.tdh + 1) % numTxDescriptors, processed := card.processed + 1 }
    else none
  | .writeBack =>
    if card.writtenBack < card.processed then
      let index := card.writtenBack % numTxDescriptors
      let desc := card.txDesc index
      some { card with
        txDesc := Function.update card.txDesc index { desc with sta := desc.sta ||| 1 }
        writtenBack := card.writtenBack + 1 }
    else none

/-- The condition on the calls: the descriptor that a call fills has no status yet. -/
def StatusClear (card : Card) : Event → Prop
  | .call _ _ => ¬ (card.txDesc card.txBufPos).Done
  | _ => True

instance (card : Card) (event : Event) : Decidable (StatusClear card event) := by
  cases event <;> unfold StatusClear <;> infer_instance

/-! ## The call and the hardware -/

/-- How far the calls and the hardware are, in each phase of the driver. -/
def Progress (card : Card) : Prop :=
  match card.phase with
  | .idle => card.writtenBack = card.called ∧ card.txBufPos = card.called % numTxDescriptors
  | .filled =>
    card.writtenBack + 1 = card.called ∧ card.processed = card.writtenBack ∧
      card.txBufPos = card.writtenBack % numTxDescriptors ∧ ¬ (card.txDesc card.txBufPos).Done
  | .polling oldPos =>
    card.writtenBack ≤ card.called ∧ card.called ≤ card.writtenBack + 1 ∧
      card.txBufPos = card.called % numTxDescriptors ∧
      (card.writtenBack + 1 = card.called →
        oldPos = card.writtenBack % numTxDescriptors ∧ ¬ (card.txDesc oldPos).Done)

structure Consistent (card : Card) : Prop where
  head : card.tdh = card.processed % numTxDescriptors
  tail : card.tdt = card.txBufPos
  written : card.writtenBack ≤ card.processed
  bounded : card.processed ≤ card.called
  progress : card.Progress

theorem txInit_consistent (pages : Nat → TxDesc) : (txInit pages).Consistent :=
  ⟨rfl, rfl, Nat.le_refl _, Nat.le_refl _, rfl, rfl⟩

variable {card after : Card}

section

variable (inv : card.Consistent)
include inv

theorem Consistent.call {pktPhys len : UInt32} (clear : ¬ (card.txDesc card.txBufPos).Done)
    (made : step card (.call pktPhys len) = some after) : after.Consistent := by
  obtain ⟨head, tail, written, bounded, progress⟩ := inv
  simp only [step] at made
  split at made
  swap
  · cases made
  rename_i idle
  cases made
  simp only [Progress, idle] at progress
  obtain ⟨done, p⟩ := progress
  have waiting : card.processed = card.writtenBack := by omega
  have kept : ¬ (update card.txDesc card.txBufPos
      (fill (card.txDesc card.txBufPos) pktPhys len) card.txBufPos).Done := by
    rw [update_self]
    exact clear
  exact ⟨head, tail, written, Nat.le_succ_of_le bounded, congrArg (· + 1) done, waiting,
    done ▸ p, kept⟩

theorem Consistent.writeTail (made : step card .writeTail = some after) : after.Consistent := by
  obtain ⟨head, tail, written, bounded, progress⟩ := inv
  simp only [step] at made
  split at made
  · rename_i filled
    cases made
    simp only [Progress, filled] at progress
    obtain ⟨last, waiting, position, clear⟩ := progress
    have next : (card.txBufPos + 1) % numTxDescriptors = card.called % numTxDescriptors := by
      rw [position, Nat.mod_add_mod, last]
    exact ⟨head, rfl, written, bounded, last ▸ Nat.le_succ _, Nat.le_of_eq last.symm, next,
      fun _ => ⟨position, clear⟩⟩
  · cases made

/-- When the status is set, the hardware has been there. -/
theorem Consistent.returns {oldPos : Nat} (polling : card.phase = .polling oldPos)
    (done : (card.txDesc oldPos).Done) :
    card.writtenBack = card.called ∧ card.txBufPos = card.called % numTxDescriptors := by
  have progress := inv.progress
  simp only [Progress, polling] at progress
  obtain ⟨lower, upper, position, clear⟩ := progress
  by_contra missing
  exact (clear (by omega)).2 done

theorem Consistent.poll (made : step card .poll = some after) : after.Consistent := by
  simp only [step] at made
  split at made
  · rename_i oldPos polling
    split at made
    · rename_i done
      cases made
      exact { inv with progress := inv.returns polling done }
    · cases made
      exact inv
  · cases made

/-- The hardware has work only while the driver polls. -/
theorem Consistent.waiting (work : card.processed < card.called) (handed : card.tdh ≠ card.tdt) :
    ∃ oldPos, card.phase = .polling oldPos := by
  obtain ⟨head, tail, written, bounded, progress⟩ := inv
  simp only [Progress] at progress
  split at progress
  · omega
  · obtain ⟨-, waiting, position, -⟩ := progress
    rw [head, tail, position, waiting] at handed
    exact absurd rfl handed
  · rename_i oldPos polling
    exact ⟨oldPos, polling⟩

theorem Consistent.process (made : step card .process = some after) : after.Consistent := by
  simp only [step] at made
  split_ifs at made with handed
  cases made
  have behind : card.processed < card.called := by
    refine Nat.lt_of_le_of_ne inv.bounded fun level => handed ?_
    have progress := inv.progress
    rw [inv.head, inv.tail]
    simp only [Progress] at progress
    split at progress <;> grind
  obtain ⟨oldPos, polling⟩ := inv.waiting behind handed
  have progress := inv.progress
  refine ⟨?_, inv.tail, Nat.le_succ_of_le inv.written, behind, ?_⟩
  · simp only [inv.head, Nat.mod_add_mod]
  · simpa only [Progress, polling] using progress

theorem Consistent.writeBack (made : step card .writeBack = some after) : after.Consistent := by
  obtain ⟨head, tail, written, bounded, progress⟩ := inv
  simp only [step] at made
  split_ifs at made with behind
  cases made
  refine ⟨head, tail, behind, bounded, ?_⟩
  simp only [Progress] at progress ⊢
  split at progress
  · omega
  · omega
  · rename_i oldPos polling
    obtain ⟨lower, upper, position, -⟩ := progress
    have last : card.writtenBack + 1 = card.called := by omega
    have ended : ¬ card.writtenBack + 1 + 1 = card.called := by omega
    exact ⟨last ▸ Nat.le_refl _, last ▸ Nat.le_succ _, position, fun again => absurd again ended⟩

end

theorem reaches_consistent {pages : Nat → TxDesc}
    (reached : Reaches step StatusClear (txInit pages) card) : card.Consistent := by
  refine reached.invariant (motive := Consistent) (txInit_consistent pages) ?_
  intro before after ev inv clear made
  cases ev with
  | call pktPhys length => exact inv.call clear made
  | writeTail => exact inv.writeTail made
  | poll => exact inv.poll made
  | process => exact inv.process made
  | writeBack => exact inv.writeBack made

/-- In a run in which each call finds a descriptor without status, a call returns only after the
    hardware has processed the descriptor of this call. -/
theorem send_returns_after_processing {pages : Nat → TxDesc}
    (reached : Reaches step StatusClear (txInit pages) card)
    (stepped : step card .poll = some after) (returned : after.phase = .idle) :
    card.called ≤ card.processed := by
  have consistent := reaches_consistent reached
  simp only [step] at stepped
  split at stepped
  · rename_i oldPos polling
    split at stepped
    · rename_i done
      have finished := (consistent.returns polling done).1
      exact finished ▸ consistent.written
    · cases stepped
      rw [polling] at returned
      cases returned
  · cases stepped

/-- One call, processed and written back before it returns. -/
theorem send_returns_after_processing_once :
    ∃ card, Reaches step StatusClear (txInit fun _ => ⟨0, 0, 0, 0⟩) card ∧
      (∃ after, step card .poll = some after ∧ after.phase = .idle) ∧
      card.called ≤ card.processed := by
  have executed : ∃ card ∈ execute step StatusClear
      [.call 4096 64, .writeTail, .process, .writeBack] (txInit fun _ => ⟨0, 0, 0, 0⟩),
      ∃ after ∈ step card .poll, after.phase = .idle := by
    decide +kernel
  obtain ⟨card, reached, after, stepped, returned⟩ := exists_reaches_of_execute executed
  exact ⟨card, reached, ⟨after, stepped, returned⟩,
    send_returns_after_processing reached stepped returned⟩

/-! ## The first lap -/

/-- On the first lap the descriptors that have not been written back are as `tx_init` left them. -/
def Untouched (card : Card) : Prop :=
  card.called ≤ numTxDescriptors →
    ∀ index < numTxDescriptors, card.writtenBack ≤ index → ¬ (card.txDesc index).Done

def FirstLap (card : Card) : Event → Prop
  | .call _ _ => card.called < numTxDescriptors
  | _ => True

instance (card : Card) (event : Event) : Decidable (FirstLap card event) := by
  cases event <;> unfold FirstLap <;> infer_instance

theorem Untouched.statusClear (untouched : card.Untouched) (inv : card.Consistent)
    {event : Event} (ok : card.FirstLap event) (made : step card event = some after) :
    card.StatusClear event := by
  cases event with
  | call pktPhys length =>
    have progress := inv.progress
    simp only [step] at made
    split at made
    · rename_i idle
      simp only [Progress, idle] at progress
      have position : card.txBufPos = card.called := by
        rw [progress.2, Nat.mod_eq_of_lt ok]
      have inside : card.txBufPos < numTxDescriptors := position ▸ ok
      exact untouched (Nat.le_of_lt ok) _ inside (by omega)
    · cases made
  | _ => trivial

theorem Untouched.step (untouched : card.Untouched) {ev : Event}
    (clear : card.StatusClear ev) (made : step card ev = some after) :
    after.Untouched := by
  cases ev with
  | call pktPhys length =>
    simp only [Card.step] at made
    split at made
    · cases made
      intro lap index inside later
      simp only [update_apply]
      split
      · exact clear
      · exact untouched (Nat.le_of_succ_le lap) index inside later
    · cases made
  | writeBack =>
    simp only [Card.step] at made
    split_ifs at made
    cases made
    intro lap index inside later
    have before : card.writtenBack % numTxDescriptors < index :=
      Nat.lt_of_le_of_lt (Nat.mod_le _ _) later
    simp only [update_of_ne (Nat.ne_of_gt before)]
    exact untouched lap index inside (Nat.le_of_succ_le later)
  | poll =>
    simp only [Card.step] at made
    split at made
    · split at made <;> cases made <;> exact untouched
    · cases made
  | writeTail | process =>
    simp only [Card.step] at made
    split at made
    · cases made
      exact untouched
    · cases made

/-- When the pages of the ring are clear, each call of the first lap finds a clear status, in
    whatever state it is made. -/
theorem first_lap_clear {pages : Nat → TxDesc} (zeroed : ∀ i, ¬ (pages i).Done)
    (reached : Reaches step FirstLap (txInit pages) card) :
    (card.phase = .idle → card.called < numTxDescriptors →
      ¬ (card.txDesc card.txBufPos).Done) ∧
      Reaches step StatusClear (txInit pages) card := by
  have both : Reaches step StatusClear (txInit pages) card ∧ card.Untouched := by
    refine reached.invariant (motive := fun card =>
      Reaches step StatusClear (txInit pages) card ∧ card.Untouched)
      ⟨.refl, fun _ i _ _ => zeroed i⟩ ?_
    intro before after event known ok made
    obtain ⟨earlier, untouched⟩ := known
    have clear := untouched.statusClear (reaches_consistent earlier) ok made
    exact ⟨.next earlier clear made, untouched.step clear made⟩
  obtain ⟨cleared, untouched⟩ := both
  refine ⟨fun idle lap => ?_, cleared⟩
  obtain ⟨after, made⟩ : ∃ after, step card (.call 0 0) = some after := by
    simp [step, idle]
  exact (untouched.statusClear (reaches_consistent cleared) lap made : card.StatusClear (.call 0 0))

/-- The second call, after the first descriptor has been written back. -/
theorem first_lap_clear_second :
    ∃ card, Reaches step StatusClear (txInit fun _ => ⟨0, 0, 0, 0⟩) card ∧ card.called = 1 ∧
      (card.txDesc 0).Done ∧ ¬ (card.txDesc card.txBufPos).Done := by
  have executed : ∃ card ∈ execute step FirstLap
      [.call 4096 64, .writeTail, .process, .writeBack, .poll] (txInit fun _ => ⟨0, 0, 0, 0⟩),
      card.phase = .idle ∧ card.called = 1 ∧ (card.txDesc 0).Done := by
    decide +kernel
  obtain ⟨card, reached, idle, called, done⟩ := exists_reaches_of_execute executed
  obtain ⟨clear, cleared⟩ := first_lap_clear (fun _ => by decide) reached
  exact ⟨card, cleared, called, done, clear idle (called ▸ by decide)⟩

/-! ## The second lap -/

def afterSends (count : Nat) : Card where
  txDesc index := if index < count then ⟨0, 0, 11, 1⟩ else ⟨0, 0, 0, 0⟩
  txBufPos := count % numTxDescriptors
  sndCounter := count
  phase := .idle
  tdh := count % numTxDescriptors
  tdt := count % numTxDescriptors
  called := count
  processed := count
  writtenBack := count

theorem afterSends_succ {count : Nat} (lap : count < numTxDescriptors) :
    execute step (fun _ _ => True) [.call 0 0, .writeTail, .process, .writeBack, .poll]
      (afterSends count) = some (afterSends (count + 1)) := by
  have position : count % numTxDescriptors = count := Nat.mod_eq_of_lt lap
  have apart : count ≠ (count + 1) % numTxDescriptors := by
    intro same
    obtain lt | last := Nat.lt_or_ge (count + 1) numTxDescriptors
    · rw [Nat.mod_eq_of_lt lt] at same
      omega
    · rw [show count + 1 = numTxDescriptors by omega] at same
      rw [same] at last
      exact absurd last (by decide)
  have status : (1 : UInt8) &&& 15 ≠ 0 := by decide
  have command : (1 : UInt8) <<< 3 ||| 3 = 11 := by decide
  simp [execute, step, afterSends, position, apart, fill, TxDesc.Done, status]
  funext index
  grind

theorem afterSends_reached {c : Nat} (lap : c ≤ numTxDescriptors) :
    Reaches step (fun _ _ => True) (txInit fun _ => ⟨0, 0, 0, 0⟩) (afterSends c) := by
  induction c with
  | zero => exact .refl
  | succ c ih =>
    exact (ih (Nat.le_of_succ_le lap)).trans
      (execute_reaches (afterSends_succ lap))

/-- With the pages zeroed, the first call of the second lap returns at once. -/
theorem send_returns_early :
    ∃ card, Reaches step (fun _ _ => True) (txInit fun _ => ⟨0, 0, 0, 0⟩) card ∧
      (∃ after, step card .poll = some after ∧ after.phase = .idle) ∧
      ¬ card.called ≤ card.processed := by
  have executed : ∃ card ∈ execute step (fun _ _ => True) [.call 0 0, .writeTail]
      (afterSends numTxDescriptors),
      (∃ after ∈ step card .poll, after.phase = .idle) ∧ ¬ card.called ≤ card.processed := by
    decide +kernel
  obtain ⟨card, reached, early⟩ := exists_reaches_of_execute executed
  exact ⟨card, (afterSends_reached (Nat.le_refl _)).trans reached, early⟩

end Card

end Xdk.E1000
