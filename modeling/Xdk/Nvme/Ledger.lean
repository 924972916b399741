import Xdk.Nvme.SubmissionQueue

/-! # The ledger

What the queue keeps about command identifiers, without rings, loops and doorbells:
the counter, the batches in flight as a list, the identifier the last retired batch
ended with, the range the producer is claiming or using up, and the commands the
controller still has.  `Ledger.Step` says how these change; `Move.ledger` shows that
every step of the queue is such a step of its ledger, so that an invariant of the
ledger is an invariant of the queue.
-/

namespace Xdk.Nvme

open Xdk.Lib

inductive Phase where
  | rest
  -- waiting for `can_reset_cmdid`
  | resetting (requests : List IoRequest)
  -- waiting for `is_available first final`
  | claiming (first final : Nat) (requests : List IoRequest)
  -- the range was available, the batch is not yet in the ring
  | granted (first final : Nat) (requests : List IoRequest)
  -- the operations in `todo` have no identifier yet; a batch ends at `expected`
  | issuing (todo : List Op) (expected : Option Nat)
  -- `op` has got its identifier and is not yet in the submission ring
  | submitting (op : Op) (cmdid : Nat) (todo : List Op) (expected : Option Nat)

inductive Retirement where
  | quiet
  | received (issued : Issued)
  | retiring
  -- the batch is out of the ring, its last identifier is not yet stored
  | leaving (batch : BatchInfo)

structure Ledger where
  counter : Nat
  last : Nat
  batches : List BatchInfo
  phase : Phase
  thread : Retirement
  pending : List Issued

namespace Ledger

/-- A batch that claims identifiers: its length is the one `issue_async_io_batch` asserts. -/
def Batch (requests : List IoRequest) : Prop := 0 < requests.length ∧ requests.length < 65535

inductive Step (l : Ledger) : Event → Ledger → Prop where
  | stutter {event : Event} : Step l event l
  | beginWrap {call : Call} {requests : List IoRequest} (rest : l.phase = .rest)
      (batch : Batch requests)
      (wraps : nextCmdidAfter l.counter requests.length < nextCmdid l.counter) :
      Step l (.call call) { l with phase := .resetting requests }
  | beginRange {call : Call} {requests : List IoRequest} (rest : l.phase = .rest)
      (batch : Batch requests)
      (whole : nextCmdid l.counter ≤ nextCmdidAfter l.counter requests.length) :
      Step l (.call call) { l with
        phase := .claiming (nextCmdid l.counter) (nextCmdidAfter l.counter requests.length)
          requests }
  | beginSingle {op : Op} (rest : l.phase = .rest) :
      Step l (.call (.single op)) { l with phase := .issuing [op] none }
  | reset {requests : List IoRequest} (pc : l.phase = .resetting requests)
      (retired : l.last ≤ l.counter)
      (whole : nextCmdid 0 ≤ nextCmdidAfter 0 requests.length) :
      Step l .producer { l with
        counter := 0
        phase := .claiming (nextCmdid 0) (nextCmdidAfter 0 requests.length) requests }
  | grant {first final : Nat} {requests : List IoRequest}
      (pc : l.phase = .claiming first final requests)
      (free : first < l.last ∧ final < l.last ∨ l.last < first ∧ l.last < final) :
      Step l .producer { l with phase := .granted first final requests }
  | push {first final : Nat} {requests : List IoRequest}
      (pc : l.phase = .granted first final requests) :
      Step l .producer { l with
        batches := l.batches ++ [System.batchInfo first final requests.length]
        phase := .issuing (requests.map .rw) (some final) }
  | alloc {op : Op} {todo : List Op} {expected : Option Nat}
      (pc : l.phase = .issuing (op :: todo) expected) :
      Step l .producer { l with
        counter := allocCmdid l.counter
        phase := .submitting op (allocCmdid l.counter) todo expected }
  | submit {op : Op} {cmdid serial : Nat} {todo : List Op} {expected : Option Nat}
      (pc : l.phase = .submitting op cmdid todo expected) :
      Step l .producer { l with
        phase := .issuing todo expected
        pending := l.pending ++ [⟨serial, op, cmdid⟩] }
  | finish {expected : Option Nat} (pc : l.phase = .issuing [] expected) :
      Step l .producer { l with phase := .rest }
  | complete {issued : Issued} {head : Nat} (quiet : l.thread = .quiet)
      (outstanding : issued ∈ l.pending) :
      Step l (.complete issued head) { l with
        thread := .received issued
        pending := l.pending.erase issued }
  -- no batch has the identifier
  | ignore {issued : Issued} (pc : l.thread = .received issued)
      (uncovered : ∀ batch ∈ l.batches, ¬ batch.Covers issued.cmdid) :
      Step l .cq { l with thread := .quiet }
  -- the first batch that has the identifier counts it
  | count {issued : Issued} {before after : List BatchInfo} {batch counted : BatchInfo}
      (pc : l.thread = .received issued) (held : l.batches = before ++ batch :: after)
      (earlier : ∀ batch ∈ before, ¬ batch.Covers issued.cmdid)
      (covered : batch.Covers issued.cmdid) (counts : batch.countUp = some counted) :
      Step l .cq { l with
        batches := before ++ counted :: after
        thread := if counted.isComplete = true ∧ before = [] then .retiring else .quiet }
  | pop {batch : BatchInfo} {rest : List BatchInfo} (pc : l.thread = .retiring)
      (held : l.batches = batch :: rest) (complete : batch.isComplete = true) :
      Step l .cq { l with batches := rest, thread := .leaving batch }
  | popEnd (pc : l.thread = .retiring) : Step l .cq { l with thread := .quiet }
  | retire {batch : BatchInfo} (pc : l.thread = .leaving batch) :
      Step l .cq { l with last := batch.endCmdid, thread := .retiring }

theorem Step.of_eq {l l' : Ledger} {ev : Event} (same : l = l') : Step l ev l' :=
  same ▸ .stutter

end Ledger

/-! ## The ledger of a queue -/

def Producer.phase : Producer → Phase
  | .idle | .waitIoCompletion | .waitNotify _ => .rest
  | .resetCmdid requests _ => .resetting requests
  | .checkAvailable startCmdid endCmdid requests _ => .claiming startCmdid endCmdid requests
  | .push bi requests _ | .store bi requests _ => .granted bi.startCmdid bi.endCmdid requests
  | .issue _ rest | .ringDoorbell _ rest => .issuing rest.todo rest.expected
  | .nextSubSlot op cmdid rest => .submitting op cmdid rest.todo rest.expected

def CqThread.retirement : CqThread → Retirement
  | .idle => .quiet
  | .received issued _ => .received issued
  | .popping _ _ => .retiring
  | .storing bi _ _ => .leaving bi

def Producer.record : Producer → Option (BatchInfo × Nat)
  | .push bi requests _ | .store bi requests _ => some (bi, requests.length)
  | _ => none

def CqThread.cursor : CqThread → Option Nat
  | .popping idx _ | .storing _ idx _ => some idx
  | _ => none

namespace System

def ledger (s : System) : Ledger :=
  ⟨s.q.cmdidCounter, s.q.batchManager.lastAvailableCmdid, s.batches, s.producer.phase,
    s.cq.retirement, s.pending⟩

/-- What the ledger leaves out and the simulation needs: there is room in the ring when a
    record is stored, the record has the range the call claimed, the pop loop looks at the
    head of the ring, and a completion carries the identifier of its command. -/
structure Layout (s : System) : Prop where
  room : ∀ bi requests sem, s.producer = .store bi requests sem →
    RingBuffer.increment s.q.batchManager.buffer.tail ≠ s.q.batchManager.buffer.head
  record : ∀ bi length, s.producer.record = some (bi, length) →
    bi = batchInfo bi.startCmdid bi.endCmdid length
  cursor : ∀ idx, s.cq.cursor = some idx →
    idx % batchInfoBufferSize = s.q.batchManager.buffer.head
  received : ∀ issued cmdid, s.cq = .received issued cmdid → cmdid = issued.cmdid

theorem layout_init : Layout init := by
  constructor <;> simp [init, Producer.record, CqThread.cursor]

theorem updateSingleIteration_ends {mgr : BatchManager} {cmdid : Nat}
    {inv : BatchManager.Counted}
    (updated : mgr.updateSingleIteration cmdid = some inv) :
    inv.manager.buffer.head = mgr.buffer.head ∧
      inv.manager.buffer.tail = mgr.buffer.tail ∧
      ∀ idx tail, inv.popFrom = some (idx, tail) → idx = mgr.buffer.head.val := by
  obtain ⟨_, rfl⟩ | ⟨before, _, _, _, _, _, _, _, _, _, head, tail, _, popFrom⟩ :=
    BatchManager.updateSingleIteration_cases updated
  · simp
  · refine ⟨head, tail, fun idx tail enters => ?_⟩
    rw [popFrom] at enters
    split_ifs at enters
    cases enters
    rfl

variable {len : QueueLength} {s : System}

theorem Layout.move {s' : System} {ev : Event} (layout : Layout s) (fifo : Fifo len s.submission)
    (accounts : Accounts s) (move : Move len s ev s') :
    Layout s' := by
  cases move with
  | spin => exact layout
  | available pc =>
    refine { layout with room := by simp, record := ?_ }
    rintro _ _ ⟨⟩
    rfl
  | room pc notFull =>
    refine { layout with room := fun _ _ _ _ => notFull, record := ?_ }
    rintro _ _ ⟨⟩
    exact layout.record _ _ (by rw [pc]; rfl)
  | finish pc =>
    rename_i sem _
    refine { layout with room := ?_, record := ?_ } <;> cases sem <;>
      simp [afterIssue, Producer.record]
  | fetch => exact { layout with room := layout.room }
  | complete wasFetched _ outstanding =>
    refine { layout with cursor := by simp [CqThread.cursor], received := ?_ }
    rintro _ _ ⟨⟩
    have mem := accounts.outcome.mem_iff.mp (List.mem_append_left _ outstanding)
    exact fifo.commandId_eq accounts mem wasFetched
  | update pc updated =>
    obtain ⟨head, tail, start⟩ := updateSingleIteration_ends updated
    refine { layout with room := ?_, cursor := ?_, received := ?_ }
    · simpa only [head, tail] using layout.room
    · simp only [head]
      split
      · simp [CqThread.cursor]
      · rename_i enters
        rintro _ ⟨⟩
        rw [start _ _ enters]
        exact Nat.mod_eq_of_lt s.q.batchManager.buffer.head.isLt
    · split <;> simp
  | pop pc _ _ popped =>
    obtain ⟨_, head, room⟩ := RingBuffer.pop_some popped
    refine { layout with room := fun _ _ _ _ => room, cursor := ?_, received := by simp }
    rintro _ ⟨⟩
    rw [head, RingBuffer.increment_val, ← layout.cursor _ (by rw [pc]; rfl), Nat.mod_add_mod]
  | popEnd pc =>
    exact { layout with cursor := by simp [CqThread.cursor], received := by simp }
  | retire pc =>
    refine { layout with cursor := ?_, received := by simp }
    rintro _ ⟨⟩
    exact layout.cursor _ (by rw [pc]; rfl)
  | callWrap | callRange | callSingle | callWait | reset | store | alloc | submit | ring
  | drained | notified =>
    exact { layout with room := by simp, record := by simp [Producer.record] }

variable {ok : System → Event → Prop}

theorem Reachable.layout (run : Reachable len ok s) : Layout s := by
  induction run with
  | refl => exact layout_init
  | next earlier _ step ih =>
    exact ih.move (Reachable.fifo earlier) (Reachable.accounts earlier)
      (step_move step)

/-- The invariant rule for facts that need the layout: it is at hand at every move. -/
theorem Reachable.move_invariant {len : QueueLength} {ok : System → Event → Prop}
    {s : System} {motive : System → Prop} (run : Reachable len ok s) (initial : motive init)
    (preserved : ∀ {before after : System} {ev : Event}, motive before → Layout before →
      ok before ev → Move len before ev after → motive after) : motive s := by
  induction run with
  | refl => exact initial
  | next earlier permitted step ih =>
    exact preserved ih (Reachable.layout earlier) permitted (step_move step)

/-! ## The simulation -/

theorem update_ledger {issued : Issued} {inv : BatchManager.Counted} {sem : Nat → Nat}
    {posted : List Nat} (pc : s.cq = .received issued issued.cmdid)
    (updated : s.q.batchManager.updateSingleIteration issued.cmdid = some inv) :
    Ledger.Step s.ledger .cq (ledger { s with
      sem := sem
      posted := posted
      q := { s.q with batchManager := inv.manager }
      cq := match inv.popFrom with
        | none => .idle
        | some (idx, tail) => .popping idx tail }) := by
  have received : s.ledger.thread = .received issued := by simp [ledger, pc, CqThread.retirement]
  obtain ⟨uncovered, rfl⟩ | ⟨before, batch, after, batch', held, earlier, covered, counts, written,
    last, _, _, _, popFrom⟩ := BatchManager.updateSingleIteration_cases updated
  · exact .ignore received uncovered
  · have step : Ledger.Step s.ledger .cq _ := .count received held earlier covered counts
    convert step using 1
    simp only [ledger, batches, written, last, popFrom]
    split_ifs <;> rfl

theorem Move.ledger {s' : System} {ev : Event} (layout : Layout s) (move : Move len s ev s') :
    Ledger.Step s.ledger ev s'.ledger := by
  have phaseEq : s.ledger.phase = s.producer.phase := rfl
  have threadEq : s.ledger.thread = s.cq.retirement := rfl
  cases move with
  | callWrap pc _ pos short wraps =>
    exact .beginWrap (by rw [phaseEq, pc]; rfl) ⟨pos, short⟩ wraps
  | callRange pc _ pos short whole =>
    exact .beginRange (by rw [phaseEq, pc]; rfl) ⟨pos, short⟩ whole
  | callSingle pc => exact .beginSingle (by rw [phaseEq, pc]; rfl)
  | spin | fetch => exact .stutter
  | reset pc canReset whole => exact .reset (by rw [phaseEq, pc]; rfl) canReset whole
  | available pc free => exact .grant (by rw [phaseEq, pc]; rfl) free
  | store pc =>
    have step : Ledger.Step s.ledger .producer _ := .push (by rw [phaseEq, pc]; rfl)
    rw [← layout.record _ _ (by rw [pc]; rfl)] at step
    simp only [System.ledger, batches, BatchManager.batches,
      RingBuffer.contents_store _ _ (layout.room _ _ _ pc)]
    exact step
  | finish pc =>
    rename_i sem _
    have step : Ledger.Step s.ledger .producer _ := .finish (by rw [phaseEq, pc]; rfl)
    cases sem <;> exact step
  | alloc pc => exact .alloc (by rw [phaseEq, pc]; rfl)
  | submit pc => exact .submit (by rw [phaseEq, pc]; rfl)
  | complete _ idle outstanding =>
    exact .complete (by rw [threadEq, idle]; rfl) outstanding
  | update pc updated =>
    obtain rfl := layout.received _ _ pc
    exact update_ledger pc updated
  | pop pc _ complete popped =>
    have held := RingBuffer.contents_pop popped
    -- the loop tests the record at its own index, and pops the one at the head
    obtain ⟨head, _⟩ := RingBuffer.pop_some popped
    rw [layout.cursor _ (by rw [pc]; rfl), ← head] at complete
    exact .pop (by rw [threadEq, pc]; rfl) held complete
  | popEnd pc => exact .popEnd (by rw [threadEq, pc]; rfl)
  | retire pc => exact .retire (by rw [threadEq, pc]; rfl)
  | room pc | ring pc | callWait pc | drained pc | notified pc =>
    -- no identifier moves
    refine .of_eq ?_
    simp only [System.ledger, pc]
    rfl

/-- An invariant of the ledger is an invariant of the queue. -/
theorem Reachable.ledger_invariant {len : QueueLength} {ok : System → Event → Prop}
    {s : System} {motive : Ledger → Prop} (run : Reachable len ok s)
    (initial : motive init.ledger)
    (preserved : ∀ {before : System} {ev : Event} {after : Ledger}, motive before.ledger →
      ok before ev → Ledger.Step before.ledger ev after → motive after) :
    motive s.ledger :=
  run.invariant_of_simulation
    (fun earlier step => (step_move step).ledger (Reachable.layout earlier)) initial preserved

end System

end Xdk.Nvme
