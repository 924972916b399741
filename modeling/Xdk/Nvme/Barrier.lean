import Xdk.Nvme.LedgerProper

/-! # `wait_io_completion` is a barrier

`wait_io_completion` only looks whether the batch ring is empty.  That is enough when
every command belongs to a batch: the batches in the ring then owe at least as many
completions as there are commands unanswered.  The bound needs no uniqueness of
identifiers: a completion that is credited to the wrong batch is still credited once.
-/

namespace Xdk.Nvme

open Xdk.Lib

def BatchInfo.owed (batch : BatchInfo) : Nat := batch.total - batch.counter

/-- The operations of the batch in the ring that are not yet in the submission ring. -/
def Phase.unissued : Phase → Nat
  | .issuing todo _ => todo.length
  | .submitting _ _ todo _ => todo.length + 1
  | _ => 0

def Retirement.uncounted : Retirement → Nat
  | .received _ => 1
  | _ => 0

namespace Ledger

def owed (l : Ledger) : Nat := (l.batches.map BatchInfo.owed).sum

def unanswered (l : Ledger) : Nat :=
  l.pending.length + l.phase.unissued + l.thread.uncounted

theorem owed_batchInfo {first final : Nat} {reqs : List IoRequest}
    (short : reqs.length < 65535) :
    (System.batchInfo first final reqs.length).owed = reqs.length :=
  u16_of_lt (Nat.lt_succ_of_lt short)

theorem owed_countUp {b inv : BatchInfo} (proper : b.Proper)
    (counts : b.countUp = some inv) : inv.owed + 1 = b.owed := by
  obtain ⟨countedProper, _, total, counter⟩ := proper.countUp counts
  have := countedProper.counter_le
  simp only [BatchInfo.owed]
  omega

theorem owed_of_isComplete {b : BatchInfo} (complete : b.isComplete = true) :
    b.owed = 0 := by
  simp only [BatchInfo.isComplete, Bool.and_eq_true, beq_iff_eq] at complete
  simp [BatchInfo.owed, complete.2]

theorem unanswered_le_owed_step {l l' : Ledger} {ev : Event} (proper : l.Proper)
    (covered : l.unanswered ≤ l.owed) (noSingle : ∀ op, ev ≠ .call (.single op))
    (step : Step l ev l') : l'.unanswered ≤ l'.owed := by
  have phase := proper.phase
  simp only [unanswered, owed] at covered ⊢
  cases step with
  | stutter => exact covered
  | beginSingle => exact absurd rfl (noSingle _)
  | beginWrap pc | beginRange pc | reset pc | grant pc | finish pc =>
    simpa [pc, Phase.unissued] using covered
  | push pc =>
    rw [pc] at phase
    simp only [Phase.unissued, List.map_append, List.sum_append, List.map_singleton,
      List.sum_singleton, owed_batchInfo phase.short, List.length_map] at covered ⊢
    omega
  | alloc pc =>
    simp only [pc, Phase.unissued] at covered ⊢
    omega
  | submit pc =>
    simp only [pc, Phase.unissued, List.length_append, List.length_singleton] at covered ⊢
    omega
  | complete quiet outstanding =>
    have := List.length_erase_of_mem outstanding
    have := List.length_pos_of_mem outstanding
    simp only [Retirement.uncounted] at covered ⊢
    omega
  | ignore pc =>
    simp only [Retirement.uncounted] at covered ⊢
    omega
  | @count _ before _ _ inv pc held _ _ counts =>
    have credited := owed_countUp (proper.batches _ (by rw [held]; simp)) counts
    have nothingReceived : (if inv.isComplete = true ∧ before = [] then Retirement.retiring
        else .quiet).uncounted = 0 := by
      split <;> rfl
    simp only [pc, held, List.map_append, List.map_cons, List.sum_append,
      List.sum_cons] at covered ⊢
    simp only [Retirement.uncounted] at covered
    omega
  | pop pc held complete =>
    simpa [pc, held, owed_of_isComplete complete, Retirement.uncounted] using covered
  | popEnd pc | retire pc => simpa [pc, Retirement.uncounted] using covered

end Ledger

namespace System

theorem Reachable.unanswered_le_owed {len : QueueLength} {s : System}
    (run : Reachable len (OnlyCalls Call.isBatchOrWait) s) :
    s.ledger.unanswered ≤ s.ledger.owed := by
  refine Reachable.proper_invariant run (motive := fun l => l.unanswered ≤ l.owed)
    (Nat.zero_le _) fun proper covered permitted step => ?_
  exact Ledger.unanswered_le_owed_step proper covered (permitted.not_single fun _ => rfl) step

/-- With only batches and waits, when `wait_io_completion` finds the ring empty and
    returns, every operation asked for before the call was issued, and every command
    issued has completed. -/
theorem wait_io_completion_is_barrier {len : QueueLength} {s s' : System}
    (run : Reachable len (OnlyCalls Call.isBatchOrWait) s)
    (waiting : s.producer = .waitIoCompletion) (stepped : s.step len .producer = some s')
    (returns : s'.producer = .idle) :
    s.issued.map Issued.op = s.requested ∧ s.pending = [] ∧
      ∀ issued ∈ s.issued, issued ∈ s.completed := by
  have accounts := Reachable.accounts run
  have empty : s.batches = [] := by
    cases step_move stepped with
    | _ => simp_all
  have noneLeft : s.pending = [] := by
    have bound := Reachable.unanswered_le_owed run
    simp only [Ledger.unanswered, Ledger.owed, ledger, empty, List.map_nil, List.sum_nil] at bound
    exact List.length_eq_zero_iff.mp (by omega)
  refine ⟨?_, noneLeft, fun issued member => ?_⟩
  · simpa [waiting, Producer.todo] using accounts.requests.symm
  · have listed := accounts.outcome.mem_iff.mpr member
    simpa [noneLeft] using listed

/-- A batch of one read is issued and completes, and a wait returns after it. -/
theorem wait_io_completion_is_barrier_oneRead :
    ∃ s s', Reachable ⟨2, by decide, by decide⟩ (OnlyCalls Call.isBatchOrWait) s ∧
      s.producer = .waitIoCompletion ∧ s.step ⟨2, by decide, by decide⟩ .producer = some s' ∧
      s'.producer = .idle ∧ s.issued.length = 1 ∧ ∀ issued ∈ s.issued, issued ∈ s.completed := by
  have executed : ∃ s ∈ execute (step ⟨2, by decide, by decide⟩) (OnlyCalls Call.isBatchOrWait)
      (oneBatch ++ [.call .waitIoCompletion]) init,
      s.producer = .waitIoCompletion ∧ s.issued.length = 1 ∧
        ∃ s' ∈ s.step ⟨2, by decide, by decide⟩ .producer, s'.producer = .idle := by
    decide
  obtain ⟨s, run, waiting, one, s', stepped, returns⟩ := exists_reaches_of_execute executed
  exact ⟨s, s', run, waiting, stepped, returns, one,
    (wait_io_completion_is_barrier run waiting stepped returns).2.2⟩

end System

end Xdk.Nvme
