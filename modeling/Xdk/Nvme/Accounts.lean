import Mathlib.Data.List.Perm.Basic
import Xdk.Nvme.Moves

/-! # The accounts of a run

What the history fields of a state say about each other: every operation a call
asked for is issued or still to issue, in the order asked for; every command issued
is outstanding or completed; commands are numbered from zero and carry an
identifier between 1 and 65535.
-/

namespace Xdk.Nvme

open Xdk.Lib

/-- The operations of the current call that are not yet in the submission ring. -/
def Producer.todo : Producer → List Op
  | .resetCmdid requests _ | .checkAvailable _ _ requests _ | .push _ requests _
  | .store _ requests _ => requests.map .rw
  | .issue _ rest | .ringDoorbell _ rest => rest.todo
  | .nextSubSlot op _ rest => op :: rest.todo
  | .idle | .waitIoCompletion | .waitNotify _ => []

namespace System

structure Accounts (s : System) : Prop where
  requests : s.requested = s.issued.map Issued.op ++ s.producer.todo
  serials : s.issued.map Issued.serial = List.range s.issued.length
  outcome : (s.pending ++ s.completed).Perm s.issued
  counter_lt : s.q.cmdidCounter < 65536
  ids : ∀ issued ∈ s.issued, 0 < issued.cmdid ∧ issued.cmdid < 65536
  -- the identifier just taken from the counter
  current : ∀ op cmdid rest, s.producer = .nextSubSlot op cmdid rest →
    cmdid = s.q.cmdidCounter ∧ 0 < cmdid

theorem accounts_init : Accounts init := by
  constructor <;> simp [init, IoQueue.init, Producer.todo]

theorem Accounts.submit {s : System} {op : Op} {cmdid : Nat} {rest : Rest}
    {subCmd : Nat → RwCommand} {sqTail : Nat} (accounts : Accounts s)
    (pc : s.producer = .nextSubSlot op cmdid rest) :
    Accounts { s with
      q := { s.q with sqTail := sqTail, subCmd := subCmd }
      producer := .ringDoorbell cmdid rest
      issued := s.issued ++ [⟨s.issued.length, op, cmdid⟩]
      pending := s.pending ++ [⟨s.issued.length, op, cmdid⟩] } := by
  obtain ⟨fresh, pos⟩ := accounts.current _ _ _ pc
  refine
    { requests := ?_
      serials := ?_
      outcome := ?_
      counter_lt := accounts.counter_lt
      ids := ?_
      current := by simp }
  · rw [accounts.requests, pc]
    simp [Producer.todo]
  · simp [accounts.serials, List.range_succ]
  · refine (List.perm_append_right_iff _).mpr accounts.outcome |>.symm.trans ?_ |>.symm
    simp only [List.append_assoc]
    exact List.perm_append_comm.append_left _
  · simp only [List.mem_append, List.mem_singleton]
    rintro issued (member | rfl)
    · exact accounts.ids issued member
    · exact ⟨pos, fresh ▸ accounts.counter_lt⟩

theorem Accounts.move {len : QueueLength} {s s' : System} {ev : Event} (accounts : Accounts s)
    (move : Move len s ev s') : Accounts s' := by
  have requests := accounts.requests
  cases move with
  | spin => exact accounts
  | submit pc => exact accounts.submit pc
  | complete _ _ outstanding =>
    refine { accounts with outcome := ?_, current := accounts.current }
    have whole := (List.perm_cons_erase outstanding).append_right s.completed
    refine List.Perm.trans ?_ (whole.symm.trans accounts.outcome)
    rw [← List.append_assoc]
    exact List.perm_append_comm
  | alloc pc =>
    refine { accounts with requests := ?_, counter_lt := allocCmdid_lt _, current := ?_ }
    · simpa [pc, Producer.todo] using requests
    · rintro _ _ _ ⟨⟩
      exact ⟨rfl, allocCmdid_pos _⟩
  | reset pc =>
    refine { accounts with requests := ?_, counter_lt := by simp, current := by simp }
    simpa [pc, Producer.todo] using requests
  | finish pc =>
    rename_i sem _
    refine { accounts with requests := ?_, current := ?_ } <;> cases sem <;>
      simp [requests, pc, Producer.todo, afterIssue]
  | update | fetch | pop | popEnd | retire => exact { accounts with current := accounts.current }
  | callWrap pc | callRange pc | callSingle pc | callWait pc | available pc | room pc
  | store pc | ring pc | drained pc | notified pc =>
    refine { accounts with requests := ?_, current := by simp }
    simpa [pc, Producer.todo] using requests

theorem Reachable.accounts {len : QueueLength} {ok : System → Event → Prop} {s : System}
    (run : Reachable len ok s) : Accounts s :=
  run.invariant accounts_init fun accounts _ step => accounts.move (step_move step)

end System

end Xdk.Nvme
