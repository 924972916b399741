import Xdk.Nvme.Ledger

/-! # Building runs

The pieces concrete runs are made of: one command is issued, one command is fetched and
its completion received; and what any step can do to the records in the batch ring.
-/

namespace Xdk.Nvme

open Xdk.Lib

namespace System

section Pieces

variable {len : QueueLength} {allowed : System → Event → Prop} {s : System}

theorem Fifo.notFull (fifo : Fifo len s.submission)
    (room : s.issued.length + 1 < s.reported + len.items) :
    ∃ slot sqTail, s.q.incrementSubmissionTail len.items = some (slot, sqTail) := by
  have tail : s.q.sqTail = s.issued.length % len.items := fifo.tail
  have head : s.q.sqHead = s.reported % len.items := fifo.head
  have reportedLe : s.reported ≤ s.issued.length :=
    Nat.le_trans fifo.reported_le fifo.fetched_length_le
  rw [IoQueue.incrementSubmissionTail_eq len fifo.tail_lt, tail, head, Nat.mod_add_mod]
  split
  · rename_i full
    have := position_eq_of_close (by omega) room full.symm
    omega
  · exact ⟨_, _, rfl⟩

theorem Reachable.issue_next {previous : Nat} {op : Op} {todo : List Op}
    {expected sem : Option Nat} (run : Reachable len allowed s)
    (runs : ∀ state, allowed state .producer)
    (pc : s.producer = .issue previous ⟨op :: todo, expected, sem⟩)
    (room : s.issued.length + 1 < s.reported + len.items) :
    ∃ sqTail sqDb subCmd, Reachable len allowed { s with
      q := { s.q with
        cmdidCounter := allocCmdid s.q.cmdidCounter
        sqTail := sqTail
        sqDb := sqDb
        subCmd := subCmd }
      producer := .issue (allocCmdid s.q.cmdidCounter) ⟨todo, expected, sem⟩
      issued := s.issued ++ [⟨s.issued.length, op, allocCmdid s.q.cmdidCounter⟩]
      pending := s.pending ++ [⟨s.issued.length, op, allocCmdid s.q.cmdidCounter⟩] } := by
  obtain ⟨slot, sqTail, notFull⟩ := (Reachable.fifo run).notFull room
  have submitting := Reachable.move run (runs _) (.alloc pc)
  have ringing := Reachable.move submitting (runs _) (.submit rfl notFull)
  have rang := Reachable.move ringing (runs _) (.ring rfl)
  exact ⟨_, _, _, rang⟩

theorem Reachable.last_received {issued : Issued} (run : Reachable len allowed s)
    (fetches : ∀ state, allowed state .fetch)
    (completes : ∀ state issued head, allowed state (.complete issued head))
    (rung : s.rung = s.issued.length) (cqIdle : s.cq = .idle)
    (outstanding : issued ∈ s.pending) (last : issued.serial = s.fetched.length)
    (behind : s.fetched.length + 1 = s.issued.length) :
    ∃ sqHead fetchHead fetched, fetched.length = s.issued.length ∧
      Reachable len allowed { s with
        q := { s.q with sqHead := sqHead }
        cq := .received issued issued.cmdid
        fetchHead := fetchHead
        fetched := fetched
        pending := s.pending.erase issued
        completed := s.completed ++ [issued]
        reported := s.fetched.length + 1 } := by
  have fifo := Reachable.fifo run
  have reportedLe : s.reported ≤ s.fetched.length := fifo.reported_le
  have more : s.fetchHead ≠ s.q.sqDb := by
    intro caughtUp
    have position : s.fetched.length = s.rung := fifo.cursor_eq_iff.mp caughtUp
    omega
  have wasFetched : (s.fetched ++ [s.q.subCmd s.fetchHead])[issued.serial]? =
      some (s.q.subCmd s.fetchHead) := by
    simp [last]
  have fetched := Reachable.move run (fetches s) (.fetch more)
  have received := Reachable.move fetched (completes _ issued (s.fetched.length + 1))
    (.complete wasFetched cqIdle outstanding (Nat.le_succ_of_le reportedLe) (by simp))
  rw [(Reachable.layout received).received _ _ rfl] at received
  exact ⟨_, _, _, by simpa using behind, received⟩

/-- The batch manager while its only batch is one command with the identifier 1. -/
def singleBatch : BatchManager :=
  { BatchManager.init with buffer := BatchManager.init.buffer.store (batchInfo 1 1 1) }

theorem batches_singleBatch : singleBatch.batches = [batchInfo 1 1 1] := rfl

/-- When the completion of that command is received, the batch is counted and retired. -/
theorem Reachable.singleBatch_retired {issued : Issued} (run : Reachable len allowed s)
    (retires : ∀ state, allowed state .cq) (mgr : s.q.batchManager = singleBatch)
    (received : s.cq = .received issued 1) :
    ∃ manager', manager'.batches = [] ∧ Reachable len allowed { s with
      q := { s.q with batchManager := manager' }
      cq := .idle } := by
  have updated : ∃ inv, s.q.batchManager.updateSingleIteration 1 = some inv ∧
      inv.notified = none ∧ inv.popFrom = some (0, 1) ∧
      ∃ batch buf, batch.isComplete = true ∧ inv.manager.buffer.array 0 = batch ∧
        inv.manager.buffer.pop = some (batch, buf) ∧ buf.contents = [] := by
    rw [mgr]
    exact ⟨_, rfl, rfl, rfl, _, _, rfl, rfl, rfl, rfl⟩
  obtain ⟨inv, updated, silent, popFrom, batch, buf, complete, atHead, popped, empty⟩ := updated
  have counting := Reachable.move run (retires _) (.update received updated)
  simp only [silent, popFrom] at counting
  have leaving := Reachable.move counting (retires _)
    (.pop rfl (by decide) (atHead ▸ complete) popped)
  have stored := Reachable.move leaving (retires _) (.retire rfl)
  have finished := Reachable.move stored (retires _) (.popEnd rfl (by simp))
  exact ⟨⟨buf, batch.endCmdid⟩, empty, finished⟩

end Pieces

/-- A batch in the ring has the range and the notify object of a batch that was there
    before, unless it is the record just stored. -/
theorem Move.batches {len : QueueLength} {s s' : System} {ev : Event} {b : BatchInfo}
    (move : Move len s ev s') (layout : Layout s) (mem : b ∈ s'.batches) :
    (∃ old ∈ s.batches, old.range = b.range ∧ old.notify = b.notify) ∨
      ev = .producer ∧ ∃ reqs sem, s.producer = .store b reqs sem := by
  cases move with
  | store pc =>
    change b ∈ (RingBuffer.store _ _).contents at mem
    rw [RingBuffer.contents_store _ _ (layout.room _ _ _ pc), List.mem_append,
      List.mem_singleton] at mem
    obtain wasInRing | rfl := mem
    · exact .inl ⟨b, wasInRing, rfl, rfl⟩
    · exact .inr ⟨rfl, _, _, pc⟩
  | update pc updated =>
    left
    obtain ⟨_, rfl⟩ | ⟨before, old, after, new, held, _, _, counts, written, _⟩ :=
      BatchManager.updateSingleIteration_cases updated
    · exact ⟨b, mem, rfl, rfl⟩
    · change b ∈ BatchManager.batches _ at mem
      rw [System.batches, held]
      simp only [written, List.mem_append, List.mem_cons] at mem ⊢
      obtain inBefore | rfl | inAfter := mem
      · exact ⟨b, .inl inBefore, rfl, rfl⟩
      · refine ⟨old, .inr (.inl rfl), (BatchInfo.range_countUp counts).symm, ?_⟩
        rw [(BatchInfo.countUp_eq counts).1]
      · exact ⟨b, .inr (.inr inAfter), rfl, rfl⟩
  | pop pc _ _ popped =>
    have wasInRing : b ∈ s.batches := by
      rw [System.batches, BatchManager.batches, RingBuffer.contents_pop popped]
      exact .tail _ mem
    exact .inl ⟨b, wasInRing, rfl, rfl⟩
  | _ => exact .inl ⟨b, mem, rfl, rfl⟩

end System

end Xdk.Nvme
