import Xdk.Nvme.Barrier
import Xdk.Nvme.CmdIdUnique

/-! # `wait_io_completion` returns

The completion thread retires the complete batches at the head of the ring, up to a tail it read
before.  A later batch has no completion yet, so the thread never leaves a complete batch at the
head.  While identifiers are unique, a ring without outstanding commands is therefore empty.
-/

namespace Xdk.Nvme

open Xdk.Lib

def CqThread.scope : CqThread → Nat
  | .popping idx tail | .storing _ idx tail => tail - idx
  | _ => 0

namespace System

structure Stops (s : System) : Prop where
  ready : ∀ batch ∈ s.batches, batch.ready = true
  incomplete : ∀ batch, s.batches[s.cq.scope]? = some batch → batch.isComplete = false

variable {len : QueueLength} {s s' : System}

theorem Stops.store {batch : BatchInfo} (stops : Stops s) (cq : s'.cq = s.cq)
    (held : s'.batches = s.batches ++ [batch]) (ready : batch.ready = true)
    (new : batch.isComplete = false) : Stops s' := by
  refine ⟨?_, fun b found => ?_⟩
  · rw [held, List.forall_mem_append, List.forall_mem_singleton]
    exact ⟨stops.ready, ready⟩
  · rw [held, cq, List.getElem?_append] at found
    split_ifs at found
    · exact stops.incomplete b found
    · obtain rfl := List.mem_singleton.mp (List.mem_of_getElem? found)
      exact new

theorem Stops.update {cmdid : Nat} {counted : BatchManager.Counted} (stops : Stops s)
    (scope : s.cq.scope = 0) (updated : s.q.batchManager.updateSingleIteration cmdid = some counted)
    (held' : s'.batches = counted.manager.batches)
    (cq : s'.cq = match counted.popFrom with
      | none => .idle
      | some (idx, tail) => .popping idx tail) : Stops s' := by
  obtain ⟨ready, incomplete⟩ := stops
  rw [scope] at incomplete
  obtain ⟨-, rfl⟩ | ⟨before, batch, after, batch', held, -, -, counts, written, -, -, -, -,
    popFrom⟩ := BatchManager.updateSingleIteration_cases updated
  · exact ⟨held' ▸ ready, by rw [held', cq]; exact incomplete⟩
  rw [batches, held] at ready incomplete
  rw [popFrom] at cq
  refine ⟨?_, fun b found => ?_⟩ <;> rw [held', written] at *
  · rw [List.forall_mem_append, List.forall_mem_cons] at ready ⊢
    refine ⟨ready.1, ?_, ready.2.2⟩
    rw [(BatchInfo.countUp_eq counts).1]
    exact ready.2.1
  · split_ifs at cq with complete
    · have all := s.q.batchManager.buffer.length_contents
      rw [← BatchManager.batches, held, RingBuffer.count] at all
      rw [cq, CqThread.scope, ← all, List.getElem?_eq_none (by simp)] at found
      cases found
    · rw [cq] at found
      cases before with
      | nil =>
        cases found
        simpa using complete
      | cons first rest => exact incomplete b found

theorem Stops.move {ev : Event} (stops : Stops s) (layout : Layout s) (proper : s.ledger.Proper)
    (move : Move len s ev s') : Stops s' := by
  cases move with
  | @store bi requests sem pc =>
    have record := layout.record _ _ (by rw [pc]; rfl)
    have claim : Claim s.q.cmdidCounter bi.startCmdid bi.endCmdid requests.length := by
      have phase := proper.phase
      simp only [ledger, pc] at phase
      exact phase
    obtain ⟨-, ordered, length, -, short⟩ := claim
    refine stops.store rfl (RingBuffer.contents_store _ _ (layout.room _ _ _ pc)) ?_ ?_
    · rw [record]
      rfl
    · refine Bool.eq_false_of_not_eq_true fun complete => ?_
      have none := Ledger.owed_of_isComplete complete
      rw [record, Ledger.owed_batchInfo short] at none
      omega
  | update pc updated => exact stops.update (by rw [pc]; rfl) updated rfl rfl
  | @pop idx tail bi buffer pc inRange _ popped =>
    have held : s.batches = bi :: buffer.contents := RingBuffer.contents_pop popped
    have scope : s.cq.scope = tail - (idx + 1) + 1 := by
      rw [pc, CqThread.scope]
      omega
    obtain ⟨ready, incomplete⟩ := stops
    rw [held] at ready incomplete
    rw [scope] at incomplete
    exact ⟨fun b mem => ready b (.tail _ mem), incomplete⟩
  | @popEnd idx tail pc stop =>
    refine ⟨stops.ready, fun b found => ?_⟩
    by_cases inRange : idx < tail
    · obtain ⟨inside, rfl⟩ := List.getElem?_eq_some_iff.mp found
      have first := s.q.batchManager.buffer.getElem_contents 0 inside
      rw [Nat.add_zero, Nat.mod_eq_of_lt (Fin.isLt _)] at first
      rw [layout.cursor idx (by rw [pc]; rfl), ← first] at stop
      exact Bool.eq_false_of_not_eq_true fun complete => stop ⟨inRange, complete⟩
    · have scope : s.cq.scope = 0 := by
        rw [pc, CqThread.scope]
        omega
      exact stops.incomplete b (scope ▸ found)
  | complete _ idle | retire idle =>
    have incomplete := stops.incomplete
    rw [idle] at incomplete
    exact ⟨stops.ready, incomplete⟩
  | _ => exact ⟨stops.ready, stops.incomplete⟩

theorem Reachable.stops {ok : System → Event → Prop} (run : Reachable len ok s) : Stops s := by
  induction run with
  | refl => exact ⟨nofun, nofun⟩
  | next earlier _ step ih =>
    exact ih.move (Reachable.layout earlier) (Reachable.proper earlier) (step_move step)

/-- While `wait_io_completion` waits and the completion thread is not in an update, the call
    returns at its next look at the ring iff all commands have completed. -/
theorem wait_io_completion_returns_iff
    (run : Reachable len (fun s event => OnlyCalls Call.isBatchOrWait s event ∧ Orderly s event) s)
    (waiting : s.producer = .waitIoCompletion) (quiet : s.cq = .idle) :
    s.step len .producer = some { s with producer := .idle } ↔ s.pending = [] := by
  have returns : s.step len .producer = some { s with producer := .idle } ↔ s.batches = [] := by
    simp only [step, producerStep, waiting, RingBuffer.wasEmpty_iff]
    refine ⟨fun stepped => ?_, fun empty => if_pos empty⟩
    by_contra more
    rw [Option.some.inj ((if_neg more).symm.trans stepped)] at waiting
    cases waiting
  rw [returns]
  constructor
  · intro empty
    have bound := Reachable.unanswered_le_owed (run.mono And.left)
    simp only [Ledger.unanswered, Ledger.owed, ledger, empty, List.map_nil, List.sum_nil] at bound
    exact List.length_eq_zero_iff.mp (by omega)
  · intro none
    have disciplined : s.ledger.Disciplined :=
      Reachable.ledger_invariant run Ledger.disciplined_init fun disciplined permitted step =>
        disciplined.step (permitted.1.not_single fun _ => rfl)
          (permitted.2.ledger disciplined.proper) step
    have live : s.ledger.live = [] := by
      simp [Ledger.live, ledger, none, waiting, quiet, Producer.phase, CqThread.retirement,
        Phase.remaining, Retirement.ids]
    obtain ⟨ready, incomplete⟩ := Reachable.stops run
    cases held : s.batches with
    | nil => rfl
    | cons first rest =>
      have mem : first ∈ s.batches := held ▸ .head _
      have counted := disciplined.balanced.balance first mem
      rw [live] at counted
      have := incomplete first (by rw [quiet, held]; rfl)
      simp [BatchInfo.isComplete, ready first mem] at this
      exact absurd counted this

/-- After a batch of one read. -/
theorem wait_io_completion_returns_iff_oneRead :
    ∃ s, Reachable ⟨2, by decide, by decide⟩
        (fun s event => OnlyCalls Call.isBatchOrWait s event ∧ Orderly s event) s ∧
      s.issued.length = 1 ∧ s.step ⟨2, by decide, by decide⟩ .producer =
        some { s with producer := .idle } := by
  have executed : ∃ s ∈ execute (step ⟨2, by decide, by decide⟩)
      (fun s event => OnlyCalls Call.isBatchOrWait s event ∧ Orderly s event)
      (oneBatch ++ [.call .waitIoCompletion]) init,
      s.issued.length = 1 ∧ s.producer = .waitIoCompletion ∧ s.cq = .idle ∧ s.pending = [] := by
    decide
  obtain ⟨s, run, one, waiting, quiet, none⟩ := exists_reaches_of_execute executed
  exact ⟨s, run, one, (wait_io_completion_returns_iff run waiting quiet).mpr none⟩

end System

end Xdk.Nvme
