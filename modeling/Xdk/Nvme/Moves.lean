import Xdk.Nvme.IoQueue

/-! # What a step can do

`Move` lists the transitions of `System.step`, one constructor for each, with the
guards and the exact successor; `step_move` and `Move.step` show that it says the same
as the step function.  Every invariant of the system is a case analysis on `Move`, and
runs are built from its constructors.
-/

namespace Xdk.Nvme

open Xdk.Lib

namespace System

/-- The calls that issue a batch: its requests, the semaphore the caller waits on
    afterwards, and the number of semaphores then in use. -/
def asBatch (s : System) : Call → Option (List IoRequest × Option Nat × Nat)
  | .batch requests => some (requests, none, s.sems)
  | .syncIo request => some ([request], some s.sems, s.sems + 1)
  | _ => none

inductive Move (len : QueueLength) (s : System) : Event → System → Prop where
  -- a batch that would run past the last identifier goes to `reset_cmdid`
  | callWrap {call : Call} {requests : List IoRequest} {sem : Option Nat} {sems : Nat}
      (idle : s.producer = .idle) (batch : s.asBatch call = some (requests, sem, sems))
      (positive : 0 < requests.length) (short : requests.length < 0xffff)
      (wraps : nextCmdidAfter s.q.cmdidCounter requests.length < nextCmdid s.q.cmdidCounter) :
      Move len s (.call call) { s with
        sems := sems
        requested := s.requested ++ requests.map .rw
        producer := .resetCmdid requests sem }
  | callRange {call : Call} {requests : List IoRequest} {sem : Option Nat} {sems : Nat}
      (idle : s.producer = .idle) (batch : s.asBatch call = some (requests, sem, sems))
      (positive : 0 < requests.length) (short : requests.length < 0xffff)
      (whole : nextCmdid s.q.cmdidCounter ≤ nextCmdidAfter s.q.cmdidCounter requests.length) :
      Move len s (.call call) { s with
        sems := sems
        requested := s.requested ++ requests.map .rw
        producer := .checkAvailable (nextCmdid s.q.cmdidCounter)
          (nextCmdidAfter s.q.cmdidCounter requests.length) requests sem }
  | callSingle {op : Op} (idle : s.producer = .idle) :
      Move len s (.call (.single op)) { s with
        requested := s.requested ++ [op]
        producer := .issue 0 ⟨[op], none, none⟩ }
  | callWait (idle : s.producer = .idle) :
      Move len s (.call .waitIoCompletion)
        { s with q := s.q.ringSubmissionDoorbell, producer := .waitIoCompletion }
  -- a turn of a loop that has to wait
  | spin (waits : s.producerStep len = some s) : Move len s .producer s
  | reset {requests : List IoRequest} {sem : Option Nat}
      (pc : s.producer = .resetCmdid requests sem)
      (canReset : s.q.batchManager.canResetCmdid s.q.cmdidCounter)
      (whole : nextCmdid 0 ≤ nextCmdidAfter 0 requests.length) :
      Move len s .producer { s with
        q := { s.q with cmdidCounter := 0 }
        producer := .checkAvailable (nextCmdid 0) (nextCmdidAfter 0 requests.length) requests sem }
  | available {startCmdid endCmdid : Nat} {requests : List IoRequest} {sem : Option Nat}
      (pc : s.producer = .checkAvailable startCmdid endCmdid requests sem)
      (free : s.q.batchManager.isAvailable startCmdid endCmdid) :
      Move len s .producer { s with
        producer := .push (batchInfo startCmdid endCmdid requests.length) requests sem }
  | room {bi : BatchInfo} {requests : List IoRequest} {sem : Option Nat}
      (pc : s.producer = .push bi requests sem)
      (notFull : RingBuffer.increment s.q.batchManager.buffer.tail ≠
        s.q.batchManager.buffer.head) :
      Move len s .producer { s with producer := .store bi requests sem }
  | store {bi : BatchInfo} {requests : List IoRequest} {sem : Option Nat}
      (pc : s.producer = .store bi requests sem) :
      Move len s .producer { s with
        q := { s.q with batchManager :=
          { s.q.batchManager with buffer := s.q.batchManager.buffer.store bi } }
        producer := .issue 0 ⟨requests.map .rw, some bi.endCmdid, sem⟩ }
  | finish {cmdid : Nat} {expected sem : Option Nat}
      (pc : s.producer = .issue cmdid ⟨[], expected, sem⟩)
      (reached : expected = none ∨ expected = some cmdid) :
      Move len s .producer { s with producer := afterIssue sem }
  | alloc {cmdid : Nat} {op : Op} {todo : List Op} {expected sem : Option Nat}
      (pc : s.producer = .issue cmdid ⟨op :: todo, expected, sem⟩) :
      Move len s .producer { s with
        q := { s.q with cmdidCounter := allocCmdid s.q.cmdidCounter }
        producer := .nextSubSlot op (allocCmdid s.q.cmdidCounter) ⟨todo, expected, sem⟩ }
  | submit {op : Op} {cmdid slot sqTail : Nat} {rest : Rest}
      (pc : s.producer = .nextSubSlot op cmdid rest)
      (notFull : s.q.incrementSubmissionTail len.items = some (slot, sqTail)) :
      Move len s .producer { s with
        q := { s.q with
          sqTail := sqTail
          subCmd := Function.update s.q.subCmd slot (op.write .cleared cmdid) }
        producer := .ringDoorbell cmdid rest
        issued := s.issued ++ [⟨s.issued.length, op, cmdid⟩]
        pending := s.pending ++ [⟨s.issued.length, op, cmdid⟩] }
  | ring {cmdid : Nat} {rest : Rest} (pc : s.producer = .ringDoorbell cmdid rest) :
      Move len s .producer
        { s with q := s.q.ringSubmissionDoorbell, producer := .issue cmdid rest }
  | drained (pc : s.producer = .waitIoCompletion) (empty : s.batches = []) :
      Move len s .producer { s with producer := .idle }
  | notified {sem : Nat} (pc : s.producer = .waitNotify sem) (posted : 0 < s.sem sem) :
      Move len s .producer { s with
        sem := Function.update s.sem sem (s.sem sem - 1)
        producer := .idle }
  | fetch (more : s.fetchHead ≠ s.q.sqDb) :
      Move len s .fetch { s with
        fetched := s.fetched ++ [s.q.subCmd s.fetchHead]
        fetchHead := (s.fetchHead + 1) % len.items }
  | complete {issued : Issued} {head : Nat} {command : RwCommand}
      (wasFetched : s.fetched[issued.serial]? = some command) (idle : s.cq = .idle)
      (outstanding : issued ∈ s.pending) (later : s.reported ≤ head)
      (reached : head ≤ s.fetched.length) :
      Move len s (.complete issued head) { s with
        q := { s.q with sqHead := head % len.items }
        cq := .received issued command.commandId
        pending := s.pending.erase issued
        completed := s.completed ++ [issued]
        reported := head }
  | update {issued : Issued} {cmdid : Nat} {counted : BatchManager.Counted}
      (pc : s.cq = .received issued cmdid)
      (updated : s.q.batchManager.updateSingleIteration cmdid = some counted) :
      Move len s .cq { s with
        sem := (s.action counted.notified).sem
        posted := (s.action counted.notified).posted
        q := { s.q with batchManager := counted.manager }
        cq := match counted.popFrom with
          | none => .idle
          | some (idx, tail) => .popping idx tail }
  | pop {idx tail : Nat} {bi : BatchInfo}
      {buffer : RingBuffer BatchInfo batchInfoBufferSize} (pc : s.cq = .popping idx tail)
      (inRange : idx < tail)
      (complete : (s.q.batchManager.buffer.array (idx % batchInfoBufferSize)).isComplete = true)
      (popped : s.q.batchManager.buffer.pop = some (bi, buffer)) :
      Move len s .cq { s with
        q := { s.q with batchManager := { s.q.batchManager with buffer := buffer } }
        cq := .storing bi (idx + 1) tail }
  | popEnd {idx tail : Nat} (pc : s.cq = .popping idx tail)
      (stops : ¬ (idx < tail ∧
        (s.q.batchManager.buffer.array (idx % batchInfoBufferSize)).isComplete = true)) :
      Move len s .cq { s with cq := .idle }
  | retire {bi : BatchInfo} {idx tail : Nat} (pc : s.cq = .storing bi idx tail) :
      Move len s .cq { s with
        q := { s.q with batchManager :=
          { s.q.batchManager with lastAvailableCmdid := bi.endCmdid } }
        cq := .popping idx tail }

theorem action_eq (s : System) (notified : Option Notify) :
    s.action notified = { s with
      sem := (s.action notified).sem
      posted := (s.action notified).posted } := by
  simp only [action]
  split <;> rfl

variable {len : QueueLength} {s s' : System} {call : Call}

theorem issueAsyncIoBatch_move {reqs : List IoRequest} {sem : Option Nat} {sems : Nat}
    (idle : s.producer = .idle) (batch : s.asBatch call = some (reqs, sem, sems))
    (step : { s with sems := sems }.issueAsyncIoBatch reqs sem = some s') :
    Move len s (.call call) s' := by
  simp only [issueAsyncIoBatch] at step
  split at step
  · rename_i lengths
    split_ifs at step with wraps
    · cases step
      exact .callWrap idle batch lengths.1 lengths.2 wraps
    · cases step
      exact .callRange idle batch lengths.1 lengths.2 (Nat.not_lt.mp wraps)
  · cases step

theorem startCall_move (idle : s.producer = .idle) (step : s.startCall call = some s') :
    Move len s (.call call) s' := by
  cases call with
  | batch requests | syncIo request => exact issueAsyncIoBatch_move idle rfl step
  | single op => cases step; exact .callSingle idle
  | waitIoCompletion => cases step; exact .callWait idle

theorem producerStep_move (step : s.producerStep len = some s') : Move len s .producer s' := by
  have taken := step
  simp only [producerStep] at step
  split at step
  · cases step
  · rename_i requests sem pc
    split at step
    · rename_i canReset
      split_ifs at step with whole
      cases step
      exact .reset pc canReset whole
    · cases step; exact .spin taken
  · rename_i pc
    split at step
    · rename_i free
      cases step
      exact .available pc free
    · cases step; exact .spin taken
  · rename_i pc
    split at step
    · cases step; exact .spin taken
    · rename_i notFull
      cases step
      exact .room pc (by simpa [RingBuffer.wasFull] using notFull)
  · rename_i pc
    cases step
    exact .store pc
  · rename_i cmdid rest pc
    obtain ⟨todo, expected, sem⟩ := rest
    cases todo with
    | nil =>
      simp only at step
      split_ifs at step with reached
      cases step
      exact .finish pc reached
    | cons op todo =>
      simp only [allocCmdid_pos] at step
      cases step
      exact .alloc pc
  · rename_i pc
    split at step
    · cases step; exact .spin taken
    · rename_i notFull
      cases step
      exact .submit pc notFull
  · rename_i pc
    cases step
    exact .ring pc
  · rename_i pc
    split at step
    · rename_i empty
      cases step
      exact .drained pc ((RingBuffer.wasEmpty_iff _).mp empty)
    · cases step; exact .spin taken
  · rename_i pc
    split at step
    · rename_i posted
      cases step
      exact .notified pc posted
    · cases step; exact .spin taken

theorem cqStep_move (step : s.cqStep = some s') :
    Move len s .cq s' := by
  simp only [cqStep] at step
  split at step
  · cases step
  · rename_i pc
    split at step
    · cases step
    · rename_i updated
      rw [action_eq] at step
      cases step
      exact .update pc updated
  · rename_i pc
    split_ifs at step with going
    · split at step
      · cases step
      · rename_i popped
        cases step
        exact .pop pc going.1 going.2 popped
    · cases step
      exact .popEnd pc going
  · rename_i pc
    cases step
    exact .retire pc

variable {ev : Event}

theorem step_move (made : s.step len ev = some s') : Move len s ev s' := by
  cases ev with
  | call call =>
    simp only [step] at made
    split_ifs at made with idle
    exact startCall_move idle made
  | producer => exact producerStep_move made
  | fetch =>
    simp only [step, fetchStep] at made
    split_ifs at made with more
    cases made
    exact .fetch more
  | complete issued head =>
    simp only [step, completeStep] at made
    split at made
    · cases made
    · rename_i wasFetched
      split_ifs at made with ok
      cases made
      exact .complete wasFetched ok.1 ok.2.1 ok.2.2.1 ok.2.2.2
  | cq => exact cqStep_move made

theorem startCall_of_asBatch {reqs : List IoRequest} {sem : Option Nat} {sems : Nat}
    (batch : s.asBatch call = some (reqs, sem, sems)) :
    s.startCall call = { s with sems := sems }.issueAsyncIoBatch reqs sem := by
  cases call <;> cases batch <;> rfl

theorem Move.step (move : Move len s ev s') : s.step len ev = some s' := by
  cases move with
  | callWrap idle b pos short wraps =>
    simp [System.step, idle, startCall_of_asBatch b, issueAsyncIoBatch, pos, short, wraps]
  | callRange idle b pos short whole =>
    simp [System.step, idle, startCall_of_asBatch b, issueAsyncIoBatch, pos, short,
      Nat.not_lt.mpr whole]
  | callSingle idle | callWait idle => simp [System.step, idle, startCall]
  | spin waits => exact waits
  | reset pc canReset whole => simp [System.step, producerStep, pc, canReset, whole]
  | available pc free => simp [System.step, producerStep, pc, free]
  | room pc notFull => simp [System.step, producerStep, pc, RingBuffer.wasFull, notFull]
  | store pc | ring pc => simp [System.step, producerStep, pc]
  | finish pc reached => simp [System.step, producerStep, pc, reached]
  | alloc pc => simp [System.step, producerStep, pc, allocCmdid_pos]
  | submit pc notFull => simp [System.step, producerStep, pc, notFull]
  | drained pc empty =>
    simp [System.step, producerStep, pc, (RingBuffer.wasEmpty_iff _).mpr empty]
  | notified pc posted => simp [System.step, producerStep, pc, posted]
  | fetch more => simp [System.step, fetchStep, more]
  | complete wasFetched idle outstanding later reached =>
    simp [System.step, completeStep, wasFetched, idle, outstanding, later, reached]
  | update pc updated =>
    simp only [System.step, cqStep, pc, updated, action]
    split <;> rfl
  | pop pc inRange complete popped => simp [System.step, cqStep, pc, inRange, complete, popped]
  | popEnd pc stops => simp [System.step, cqStep, pc, stops]
  | retire pc => simp [System.step, cqStep, pc]

theorem Reachable.move {ok : System → Event → Prop} (run : Reachable len ok s) (permitted : ok s ev)
    (move : Move len s ev s') : Reachable len ok s' :=
  .next run permitted move.step

/-! ## A complete run, for examples -/

def oneRead : IoRequest := ⟨.blockRead, 0x1000, 0, 1⟩

/-- On a new queue: a batch of one read is issued, fetched, completed and retired. -/
def oneBatch : List Event :=
  .call (.batch [oneRead]) :: List.replicate 7 .producer ++
    [.fetch, .complete ⟨0, .rw oneRead, 1⟩ 1, .cq, .cq, .cq, .cq]

/-- On a new queue: a batch of two reads is issued, fetched, completed and retired. -/
def twoReads : List Event :=
  .call (.batch [oneRead, oneRead]) :: List.replicate 10 .producer ++
    [.fetch, .fetch, .complete ⟨0, .rw oneRead, 1⟩ 1, .cq, .complete ⟨1, .rw oneRead, 2⟩ 2,
      .cq, .cq, .cq, .cq]

end System

end Xdk.Nvme
