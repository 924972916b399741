import Xdk.Nvme.InFlight

/-! # When a batch gets past its two loops

`issue_async_io_batch` waits for `can_reset_cmdid` and for `is_available`, and only the
completion thread moves `_last_available_cmdid`.  When nothing is outstanding it stands
where the counter stands, and the two loops end at once or never: a batch is stuck when
it has to start again at 1 and is at least as long as the counter has come.
-/

namespace Xdk.Nvme

open Xdk.Lib

/-- While batches are issued, the identifiers in flight end where the batch being issued
    ends, and between batches where the counter stands. -/
def Phase.Reached (counter tip : Nat) : Phase → Prop
  | .rest | .resetting _ => tip = counter
  | .claiming _ _ _ | .granted _ _ _ => True
  | .issuing _ expected | .submitting _ _ _ expected => expected = some tip

namespace Ledger

theorem reached_step {l l' : Ledger} {ev : Event} (proper : l.Proper)
    (reached : l.phase.Reached l.counter l.tip) (noSingle : ∀ op, ev ≠ .call (.single op))
    (step : Step l ev l') : l'.phase.Reached l'.counter l'.tip := by
  have phase := proper.phase
  cases step with
  | stutter => exact reached
  | beginSingle => exact absurd rfl (noSingle _)
  | beginWrap pc | alloc pc | submit pc =>
    rw [pc] at reached
    exact reached
  | beginRange | reset | grant => trivial
  | push =>
    simp only [Phase.Reached]
    rw [tip_push]
  | finish pc =>
    rw [pc] at reached phase
    obtain rfl : _ = some l.tip := reached
    exact Eq.symm phase
  | complete quiet => rwa [tip, ranges_thread (by rw [quiet]; rfl) rfl]
  | ignore pc | popEnd pc => rwa [tip, ranges_thread (by rw [pc]; rfl) rfl]
  | count pc held _ _ counts => rwa [tip, ranges_count proper pc held counts]
  | pop pc held => rwa [tip, ranges_pop pc held]
  | retire pc => rwa [tip_retire pc]

end Ledger

namespace System

structure Quiescent (s : System) : Prop where
  producer : s.producer = .idle
  cq : s.cq = .idle
  pending : s.pending = []
  batches : s.batches = []

variable {len : QueueLength} {s : System}

theorem Reachable.reached (run : Reachable len (OnlyCalls Call.isBatch) s) :
    s.ledger.phase.Reached s.ledger.counter s.ledger.tip := by
  refine Reachable.proper_invariant run (motive := fun l => l.phase.Reached l.counter l.tip)
    rfl fun proper reached permitted step => ?_
  exact Ledger.reached_step proper reached (permitted.not_single fun _ => rfl) step

theorem Reachable.last_eq_counter (run : Reachable len (OnlyCalls Call.isBatch) s)
    (quiescent : Quiescent s) :
    s.q.batchManager.lastAvailableCmdid = s.q.cmdidCounter := by
  have reached := Reachable.reached run
  simpa [ledger, Ledger.tip, Ledger.ranges, quiescent.producer, quiescent.cq, quiescent.batches,
    Producer.phase, CqThread.retirement, Retirement.batch, Phase.Reached] using reached

/-- A batch is called for and, by steps of the allowed kind, gets past both loops. -/
def GetsPast (len : QueueLength) (allowed : System → Event → Prop) (s : System)
    (requests : List IoRequest) : Prop :=
  ∃ called passed, s.step len (.call (.batch requests)) = some called ∧
    Reaches (step len) allowed called passed ∧
    ∃ bi sem, passed.producer = .push bi requests sem

/-- The producer waits for a range that the completion thread will never free. -/
structure Blocked (s : System) (requests : List IoRequest) : Prop where
  producer : s.producer = .resetCmdid requests none ∨
    s.producer = .checkAvailable (nextCmdid 0) (nextCmdidAfter 0 requests.length) requests none
  unavailable : ¬ s.q.batchManager.isAvailable (nextCmdid 0) (nextCmdidAfter 0 requests.length)
  cq : s.cq = .idle
  pending : s.pending = []

theorem Blocked.move {s' : System} {ev : Event} {requests : List IoRequest}
    (blocked : Blocked s requests) (move : Move len s ev s') :
    Blocked s' requests := by
  obtain ⟨p, unavailable, cq, pending⟩ := blocked
  cases move with
  | spin | fetch => exact ⟨p, unavailable, cq, pending⟩
  | reset pc =>
    obtain waiting | waiting := p <;> rw [pc] at waiting <;> cases waiting
    exact ⟨.inr rfl, unavailable, cq, pending⟩
  | available pc free =>
    obtain waiting | waiting := p <;> rw [pc] at waiting <;> cases waiting
    exact absurd free unavailable
  | complete _ _ outstanding => simp [pending] at outstanding
  | update pc | pop pc | popEnd pc | retire pc => rw [cq] at pc; cases pc
  | callWrap pc | callRange pc | callSingle pc | callWait pc | room pc | store pc | finish pc
  | alloc pc | submit pc | ring pc | drained pc | notified pc =>
    obtain waiting | waiting := p <;> rw [pc] at waiting <;> cases waiting

theorem getsPast_of_available {ok : System → Event → Prop} {called waiting : System}
    {startCmdid endCmdid : Nat} {requests : List IoRequest} {sem : Option Nat}
    (runs : ∀ state, ok state .producer) (call : Move len s (.call (.batch requests)) called)
    (run : Reaches (step len) ok called waiting)
    (pc : waiting.producer = .checkAvailable startCmdid endCmdid requests sem)
    (free : waiting.q.batchManager.isAvailable startCmdid endCmdid) :
    GetsPast len ok s requests := by
  have past : Move len waiting .producer _ := .available pc free
  exact ⟨called, _, call.step, .next run (runs _) past.step, _, sem, rfl⟩

section Quiescence

variable {len : QueueLength} {allowed : System → Event → Prop} {s : System}
  {requests : List IoRequest} (quiescent : Quiescent s)
  (level : s.q.batchManager.lastAvailableCmdid = s.q.cmdidCounter)
  (bound : s.q.cmdidCounter < 65536) (batch : Ledger.Batch requests)

include quiescent level bound batch

theorem Quiescent.getsPast_of_whole (runs : ∀ state, allowed state .producer)
    (whole : nextCmdid s.q.cmdidCounter ≤ nextCmdidAfter s.q.cmdidCounter requests.length) :
    GetsPast len allowed s requests := by
  have called : Move len s (.call (.batch requests)) _ :=
    .callRange quiescent.producer rfl batch.1 batch.2 whole
  have free : s.q.batchManager.isAvailable (nextCmdid s.q.cmdidCounter)
      (nextCmdidAfter s.q.cmdidCounter requests.length) := by
    obtain ⟨pos, short⟩ := batch
    rw [← Nat.not_lt, nextCmdidAfter_lt_nextCmdid bound pos short] at whole
    simp only [BatchManager.isAvailable, nextCmdid_eq bound,
      nextCmdidAfter_eq bound pos short]
    split_ifs <;> omega
  exact getsPast_of_available runs called .refl rfl free

theorem Quiescent.getsPast_of_short (runs : ∀ state, allowed state .producer)
    (wraps : nextCmdidAfter s.q.cmdidCounter requests.length < nextCmdid s.q.cmdidCounter)
    (shorter : requests.length < s.q.cmdidCounter) : GetsPast len allowed s requests := by
  have called : Move len s (.call (.batch requests)) _ :=
    .callWrap quiescent.producer rfl batch.1 batch.2 wraps
  have final := nextCmdidAfter_zero batch.1 batch.2
  have free : s.q.batchManager.isAvailable (nextCmdid 0) (nextCmdidAfter 0 requests.length) := by
    have positive := batch.1
    simp only [BatchManager.isAvailable, nextCmdid_zero]
    omega
  have canReset : s.q.batchManager.canResetCmdid s.q.cmdidCounter := Nat.le_of_eq level
  have whole : nextCmdid 0 ≤ nextCmdidAfter 0 requests.length := by
    rw [final]
    exact batch.1
  exact getsPast_of_available runs called
    (.next .refl (runs _) (Move.step (.reset rfl canReset whole))) rfl free

theorem Quiescent.not_getsPast (beyond : 65536 ≤ s.q.cmdidCounter + requests.length)
    (atLeast : s.q.cmdidCounter ≤ requests.length) : ¬ GetsPast len allowed s requests := by
  have short := batch.2
  have final := nextCmdidAfter_zero batch.1 batch.2
  have wraps : nextCmdidAfter s.q.cmdidCounter requests.length < nextCmdid s.q.cmdidCounter :=
    (nextCmdidAfter_lt_nextCmdid bound batch.1 short).mpr ⟨by omega, beyond⟩
  have waits : Move len s (.call (.batch requests)) _ :=
    .callWrap quiescent.producer rfl batch.1 batch.2 wraps
  rintro ⟨called, passed, call, run, bi, sem, past⟩
  rw [waits.step] at call
  cases call
  -- neither the reset nor a turn of the second loop changes what is available
  have blocked : Blocked passed requests := by
    refine run.invariant (motive := fun s => Blocked s requests) ?_
      fun blocked _ step => blocked.move (step_move step)
    refine ⟨.inl rfl, ?_, quiescent.cq, quiescent.pending⟩
    simp only [BatchManager.isAvailable, nextCmdid_zero]
    omega
  obtain waiting | waiting := blocked.producer <;> rw [past] at waiting <;> cases waiting

/-- With nothing outstanding, a batch gets past both loops exactly when it fits below the
    last identifier or is shorter than the counter; it does so by the producer's own
    steps, or not at all, whatever the other parties do. -/
theorem Quiescent.getsPast_iff (runs : ∀ state, allowed state .producer) :
    GetsPast len allowed s requests ↔
      s.q.cmdidCounter + requests.length < 65536 ∨ requests.length < s.q.cmdidCounter := by
  constructor
  · intro past
    by_contra stuck
    exact quiescent.not_getsPast level bound batch (by omega) (by omega) past
  · intro fits
    by_cases wraps : nextCmdidAfter s.q.cmdidCounter requests.length < nextCmdid s.q.cmdidCounter
    · refine quiescent.getsPast_of_short level bound batch runs wraps ?_
      rw [nextCmdidAfter_lt_nextCmdid bound batch.1 batch.2] at wraps
      omega
    · exact quiescent.getsPast_of_whole level bound batch runs (Nat.not_lt.mp wraps)

end Quiescence

/-- After any batches, all of them completed: a further batch gets past its two loops
    exactly when it fits below the last identifier, or is shorter than the counter has
    come, under every scheduling that lets the producer run. -/
theorem issue_async_io_batch_gets_past_iff {len : QueueLength}
    {allowed : System → Event → Prop} {s : System} {requests : List IoRequest}
    (run : Reachable len (OnlyCalls Call.isBatch) s) (quiescent : Quiescent s)
    (positive : 0 < requests.length) (short : requests.length < 0xffff)
    (runs : ∀ state, allowed state .producer) :
    GetsPast len allowed s requests ↔
      s.q.cmdidCounter + requests.length < 65536 ∨ requests.length < s.q.cmdidCounter :=
  quiescent.getsPast_iff (Reachable.last_eq_counter run quiescent)
    (Reachable.accounts run).counter_lt ⟨positive, short⟩ runs

/-- After a batch of two, all completed. -/
theorem twoReads_quiescent :
    ∃ s, Reachable ⟨4, by decide, by decide⟩ (OnlyCalls Call.isBatch) s ∧ Quiescent s ∧
      s.q.cmdidCounter = 2 ∧ s.q.batchManager.lastAvailableCmdid = 2 := by
  have executed : ∃ s ∈ execute (step ⟨4, by decide, by decide⟩) (OnlyCalls Call.isBatch)
      twoReads init, (s.producer = .idle ∧ s.cq = .idle ∧ s.pending = [] ∧ s.batches = []) ∧
        s.q.cmdidCounter = 2 ∧ s.q.batchManager.lastAvailableCmdid = 2 := by
    decide
  obtain ⟨s, run, ⟨producer, cq, pending, batches⟩, counter, last⟩ :=
    exists_reaches_of_execute executed
  exact ⟨s, run, ⟨producer, cq, pending, batches⟩, counter, last⟩

/-- Then the next batch gets past. -/
theorem issue_async_io_batch_gets_past_after_two :
    ∃ s, Reachable ⟨4, by decide, by decide⟩ (OnlyCalls Call.isBatch) s ∧ Quiescent s ∧
      s.q.cmdidCounter = 2 ∧ GetsPast ⟨4, by decide, by decide⟩ AnyCall s [oneRead] := by
  obtain ⟨s, run, quiescent, counter, -⟩ := twoReads_quiescent
  refine ⟨s, run, quiescent, counter, ?_⟩
  exact (issue_async_io_batch_gets_past_iff run quiescent (by decide) (by decide)
    fun _ => trivial).mpr (.inl (by rw [counter]; decide))

/-- But a batch of 65534 requests has to start again at 1 and waits forever for identifiers
    above 2 that no batch holds. -/
theorem issue_async_io_batch_stuck_after_two :
    ∃ s requests, Reachable ⟨4, by decide, by decide⟩ (OnlyCalls Call.isBatch) s ∧
      Quiescent s ∧ 0 < requests.length ∧ requests.length < 0xffff ∧
      ¬ GetsPast ⟨4, by decide, by decide⟩ AnyCall s requests := by
  obtain ⟨s, run, quiescent, counter, last⟩ := twoReads_quiescent
  have length : (List.replicate 65534 oneRead).length = 65534 := List.length_replicate
  refine ⟨s, List.replicate 65534 oneRead, run, quiescent, by omega, by omega, ?_⟩
  refine quiescent.not_getsPast (last.trans counter.symm) (by omega) ⟨by omega, by omega⟩ ?_ ?_ <;>
    omega

end System

end Xdk.Nvme
