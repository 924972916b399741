import Xdk.Lib.Transition
import Xdk.Nvme.CmdId
import Xdk.Nvme.BatchManager

/-! # One IO queue, its producer, its completion thread and the controller

`NVME_IO_queue` is shared by a producer thread, which calls `issue_async_io_batch`,
`issue_async_read`, `issue_async_write`, `issue_flush`, `wait_io_completion` or
`sync_io`, and by the completion thread of `CQ_thread::entry`.  The controller
fetches commands from the submission ring and completes them in any order.

`step` runs one of the parties for one step.  A step of a thread has at most one
access that another party can see: a load of `_last_available_cmdid`, of the batch
ring's `_head` or `_tail` or of `_sq_head`, a store to one of them or to a
doorbell.  A turn of an `NVME_LOOP` whose condition still holds is a step that
changes nothing.  An assertion that fails ends the run (`none`).

The completion ring is not part of this system: its theorem says that the
completion thread receives the posted completions one by one and in order, so
here a completion is handed to it directly, together with the submission head the
controller reports.
-/

namespace Xdk.Nvme

open Xdk.Lib

/-- The length of a queue: the constructor asserts that it is positive, and the
    device limits it to `mqes() + 1`, where `mqes()` has sixteen bits. -/
structure QueueLength where
  items : Nat
  pos : 0 < items
  le : items ≤ 65536

/-- The part of `NVME_queues_base` that submission uses; `sqDb` is the value last
    written to the submission doorbell. -/
structure IoQueue where
  cmdidCounter : Nat
  sqTail : Nat
  sqHead : Nat
  sqDb : Nat
  subCmd : Nat → RwCommand
  batchManager : BatchManager

namespace IoQueue

def init : IoQueue := ⟨0, 0, 0, 0, fun _ => .cleared, .init⟩

/-- `increment_submission_tail`: the slot handed out and the new tail, or `none` for
    `E_FULL`. -/
def incrementSubmissionTail (queueMaxItems : Nat) (q : IoQueue) : Option (Nat × Nat) :=
  let newTail := u16 (q.sqTail + 1)
  let newTail := if newTail ≥ queueMaxItems then u16 (newTail - queueMaxItems) else newTail
  if newTail = q.sqHead then none
  else
    let sqTail := u16 (q.sqTail + 1)
    some (q.sqTail, if sqTail = queueMaxItems then 0 else sqTail)

def ringSubmissionDoorbell (q : IoQueue) : IoQueue := { q with sqDb := q.sqTail }

end IoQueue

/-- A command that has been written into the submission ring: the how-many-th it is,
    what was asked for, and the identifier it was given. -/
structure Issued where
  serial : Nat
  op : Op
  cmdid : Nat
  deriving DecidableEq, Repr

def Issued.command (issued : Issued) : RwCommand := issued.op.write .cleared issued.cmdid

/-- What is left of a call that is issuing commands: the operations still to issue,
    the identifier the batch loop asserts to have reached (`bi.end_cmdid`), and the
    semaphore of the `Notify_Sync` object that `sync_io` waits on afterwards. -/
structure Rest where
  todo : List Op
  expected : Option Nat
  sem : Option Nat
  deriving DecidableEq, Repr

inductive Producer where
  | idle
  -- in the loop of `reset_cmdid`
  | resetCmdid (requests : List IoRequest) (sem : Option Nat)
  -- in the loop around `is_available`
  | checkAvailable (startCmdid endCmdid : Nat) (requests : List IoRequest) (sem : Option Nat)
  -- in the loop around `push`, about to load `_head`
  | push (bi : BatchInfo) (requests : List IoRequest) (sem : Option Nat)
  -- inside `push`, about to store the record and `_tail`
  | store (bi : BatchInfo) (requests : List IoRequest) (sem : Option Nat)
  -- at the head of the loop that issues the commands; `cmdid` is the last one issued
  | issue (cmdid : Nat) (rest : Rest)
  -- in the loop of `next_sub_slot`
  | nextSubSlot (op : Op) (cmdid : Nat) (rest : Rest)
  -- about to write the submission doorbell
  | ringDoorbell (cmdid : Nat) (rest : Rest)
  -- in the loop of `wait_io_completion`
  | waitIoCompletion
  -- in `Notify_Sync::wait`
  | waitNotify (sem : Nat)
  deriving DecidableEq

inductive CqThread where
  -- looking for the next completion
  | idle
  -- about to call `update` for the command `issued`, which carries `cmdid`
  | received (issued : Issued) (cmdid : Nat)
  -- in the pop loop of `_process_update_batch_info`
  | popping (idx tail : Nat)
  -- in the pop loop, between `pop` and the store of `_last_available_cmdid`
  | storing (bi : BatchInfo) (idx tail : Nat)
  deriving DecidableEq

inductive Call where
  | batch (requests : List IoRequest)
  | single (op : Op)
  | waitIoCompletion
  | syncIo (request : IoRequest)
  deriving DecidableEq

structure System where
  q : IoQueue
  producer : Producer
  cq : CqThread
  -- the values of the semaphores, and how many have been created
  sem : Nat → Nat
  sems : Nat
  -- the controller: the slot it fetches next and what it has fetched
  fetchHead : Nat
  fetched : List RwCommand
  -- history: the operations the calls asked for, the commands written to the ring,
  -- those not yet completed and those completed, the number of fetches the last
  -- reported head stood for, and the semaphores posted by `Notify_Sync::action`
  requested : List Op
  issued : List Issued
  pending : List Issued
  completed : List Issued
  reported : Nat
  posted : List Nat

def System.init : System :=
  { q := .init, producer := .idle, cq := .idle, sem := fun _ => 0, sems := 0,
    fetchHead := 0, fetched := [], requested := [], issued := [], pending := [], completed := [],
    reported := 0, posted := [] }

inductive Event where
  | call (call : Call)
  | producer
  | fetch
  | complete (issued : Issued) (head : Nat)
  | cq
  deriving DecidableEq

namespace System

def batches (s : System) : List BatchInfo := s.q.batchManager.batches

/-! ## The producer -/

def issueAsyncIoBatch (s : System) (requests : List IoRequest) (sem : Option Nat) :
    Option System :=
  if 0 < requests.length ∧ requests.length < 0xffff then
    let startCmdid := nextCmdid s.q.cmdidCounter
    let endCmdid := nextCmdidAfter s.q.cmdidCounter requests.length
    let requested := s.requested ++ requests.map .rw
    if endCmdid < startCmdid then
      some { s with requested := requested, producer := .resetCmdid requests sem }
    else
      some { s with
        requested := requested
        producer := .checkAvailable startCmdid endCmdid requests sem }
  else none

/-- The record `issue_async_io_batch` pushes.  The `notify` field keeps the zero of
    `memset`: the assignment to it is commented out. -/
def batchInfo (startCmdid endCmdid length : Nat) : BatchInfo :=
  { BatchInfo.zeroed with
    startCmdid := startCmdid
    endCmdid := endCmdid
    total := u16 length
    counter := 0
    ready := true
    complete := false }

def startCall (s : System) : Call → Option System
  | .batch requests => s.issueAsyncIoBatch requests none
  | .single op =>
    some { s with requested := s.requested ++ [op], producer := .issue 0 ⟨[op], none, none⟩ }
  | .waitIoCompletion =>
    some { s with q := s.q.ringSubmissionDoorbell, producer := .waitIoCompletion }
  -- `sync_io` makes a `Notify_Sync` on its stack and calls `async_io`, which does not
  -- hand it on: the batch of one request is issued like any other
  | .syncIo request => { s with sems := s.sems + 1 }.issueAsyncIoBatch [request] (some s.sems)

def afterIssue : Option Nat → Producer
  | none => .idle
  | some sem => .waitNotify sem

def producerStep (len : QueueLength) (s : System) : Option System :=
  match s.producer with
  | .idle => none
  | .resetCmdid requests sem =>
    if s.q.batchManager.canResetCmdid s.q.cmdidCounter then
      let startCmdid := nextCmdid 0
      let endCmdid := nextCmdidAfter 0 requests.length
      if startCmdid ≤ endCmdid then
        some { s with
          q := { s.q with cmdidCounter := 0 }
          producer := .checkAvailable startCmdid endCmdid requests sem }
      else none
    else some s
  | .checkAvailable startCmdid endCmdid requests sem =>
    if s.q.batchManager.isAvailable startCmdid endCmdid then
      some { s with producer := .push (batchInfo startCmdid endCmdid requests.length) requests sem }
    else some s
  | .push bi requests sem =>
    if s.q.batchManager.buffer.wasFull then some s
    else some { s with producer := .store bi requests sem }
  | .store bi requests sem =>
    let manager := { s.q.batchManager with buffer := s.q.batchManager.buffer.store bi }
    some { s with
      q := { s.q with batchManager := manager }
      producer := .issue 0 ⟨requests.map .rw, some bi.endCmdid, sem⟩ }
  | .issue cmdid rest =>
    match rest.todo with
    | [] =>
      if rest.expected = none ∨ rest.expected = some cmdid then
        some { s with producer := afterIssue rest.sem }
      else none
    | op :: todo =>
      let cmdid := allocCmdid s.q.cmdidCounter
      if 0 < cmdid then
        some { s with
          q := { s.q with cmdidCounter := cmdid }
          producer := .nextSubSlot op cmdid { rest with todo := todo } }
      else none
  | .nextSubSlot op cmdid rest =>
    match s.q.incrementSubmissionTail len.items with
    | none => some s
    | some (slot, sqTail) =>
      let issued : Issued := ⟨s.issued.length, op, cmdid⟩
      let subCmd := Function.update s.q.subCmd slot (op.write .cleared cmdid)
      some { s with
        q := { s.q with sqTail := sqTail, subCmd := subCmd }
        producer := .ringDoorbell cmdid rest
        issued := s.issued ++ [issued]
        pending := s.pending ++ [issued] }
  | .ringDoorbell cmdid rest =>
    some { s with q := s.q.ringSubmissionDoorbell, producer := .issue cmdid rest }
  | .waitIoCompletion =>
    if s.q.batchManager.buffer.wasEmpty then some { s with producer := .idle } else some s
  | .waitNotify sem =>
    if 0 < s.sem sem then
      some { s with sem := Function.update s.sem sem (s.sem sem - 1), producer := .idle }
    else some s

/-! ## The controller and the completion thread -/

/-- The controller fetches the next command, up to the tail it was last told. -/
def fetchStep (len : QueueLength) (s : System) : Option System :=
  if s.fetchHead ≠ s.q.sqDb then
    some { s with
      fetched := s.fetched ++ [s.q.subCmd s.fetchHead]
      fetchHead := (s.fetchHead + 1) % len.items }
  else none

/-- The completion thread receives the completion of a fetched command, which echoes
    the identifier the controller fetched and reports a submission head the controller
    has reached, not older than the last one reported; `update_sq_head` stores it. -/
def completeStep (len : QueueLength) (s : System) (issued : Issued) (head : Nat) :
    Option System :=
  match s.fetched[issued.serial]? with
  | none => none
  | some command =>
    if s.cq = .idle ∧ issued ∈ s.pending ∧ s.reported ≤ head ∧ head ≤ s.fetched.length then
      some { s with
        q := { s.q with sqHead := head % len.items }
        cq := .received issued command.commandId
        pending := s.pending.erase issued
        completed := s.completed ++ [issued]
        reported := head }
    else none

def action (s : System) : Option Notify → System
  | some (.sync sem) =>
    { s with sem := Function.update s.sem sem (s.sem sem + 1), posted := s.posted ++ [sem] }
  | _ => s

def cqStep (s : System) : Option System :=
  match s.cq with
  | .idle => none
  | .received _ cmdid =>
    match s.q.batchManager.updateSingleIteration cmdid with
    | none => none
    | some counted =>
      some { s.action counted.notified with
        q := { s.q with batchManager := counted.manager }
        cq := match counted.popFrom with
          | none => .idle
          | some (idx, tail) => .popping idx tail }
  | .popping idx tail =>
    if idx < tail ∧
        (s.q.batchManager.buffer.array (idx % batchInfoBufferSize)).isComplete = true then
      match s.q.batchManager.buffer.pop with
      | none => none
      | some (bi, buffer) =>
        let manager := { s.q.batchManager with buffer := buffer }
        some { s with q := { s.q with batchManager := manager }, cq := .storing bi (idx + 1) tail }
    else some { s with cq := .idle }
  | .storing bi idx tail =>
    let manager := { s.q.batchManager with lastAvailableCmdid := bi.endCmdid }
    some { s with q := { s.q with batchManager := manager }, cq := .popping idx tail }

def step (len : QueueLength) (s : System) : Event → Option System
  | .call call => if s.producer = .idle then s.startCall call else none
  | .producer => s.producerStep len
  | .fetch => s.fetchStep len
  | .complete issued head => s.completeStep len issued head
  | .cq => s.cqStep

end System

/-- The states a run reaches from the freshly constructed queue, when every event is
    allowed in the state it happens in. -/
abbrev Reachable (len : QueueLength) (allowed : System → Event → Prop) : System → Prop :=
  Reaches (System.step len) allowed System.init

/-- The producer makes only calls of the given kind; the other parties are free. -/
def OnlyCalls (kind : Call → Bool) (_ : System) : Event → Prop
  | .call call => kind call = true
  | _ => True

instance (kind : Call → Bool) (s : System) (event : Event) :
    Decidable (OnlyCalls kind s event) :=
  match event with
  | .call call => inferInstanceAs (Decidable (kind call = true))
  | .producer | .fetch | .complete _ _ | .cq => isTrue trivial

theorem OnlyCalls.not_single {kind : Call → Bool} {s : System} {ev : Event}
    (permitted : OnlyCalls kind s ev) (excluded : ∀ op, kind (.single op) = false) (op : Op) :
    ev ≠ .call (.single op) := by
  rintro rfl
  have included : kind (.single op) = true := permitted
  rw [excluded op] at included
  cases included

def Call.isBatch : Call → Bool
  | .batch _ => true
  | _ => false

def Call.isBatchOrWait : Call → Bool
  | .batch _ | .waitIoCompletion => true
  | _ => false

def Call.isBatchOrFlush : Call → Bool
  | .batch _ | .single .flush => true
  | _ => false

def AnyCall (_ : System) (_ : Event) : Prop := True

instance (s : System) (event : Event) : Decidable (AnyCall s event) := isTrue trivial

end Xdk.Nvme
