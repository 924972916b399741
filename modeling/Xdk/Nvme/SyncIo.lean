import Xdk.Nvme.Runs

/-! # `sync_io` is never signalled

`sync_io` makes a `Notify_Sync` object, calls `async_io` and waits for the object.  The
object is not an argument of `async_io`, and `issue_async_io_batch` leaves the `notify`
field of its record null, so `_process_update_batch_info` has nothing to call when the
batch is complete: no semaphore is ever posted, and `sync_io` does not return.
-/

namespace Xdk.Nvme

open Xdk.Lib

namespace System

structure Silent (s : System) : Prop where
  notify : ∀ batch ∈ s.batches, batch.notify = none
  posted : s.posted = []
  sem : ∀ sem, s.sem sem = 0

theorem silent_init : Silent init := ⟨by rintro _ ⟨⟩, rfl, fun _ => rfl⟩

theorem updateSingleIteration_silent {mgr : BatchManager} {cmdid : Nat}
    {inv : BatchManager.Counted} (silent : ∀ batch ∈ mgr.batches, batch.notify = none)
    (updated : mgr.updateSingleIteration cmdid = some inv) : inv.notified = none := by
  obtain ⟨_, rfl⟩ | ⟨before, batch, after, batch', held, _, _, counts, _, _, _, _, notified, _⟩ :=
    BatchManager.updateSingleIteration_cases updated
  · rfl
  · have unset := silent batch (by rw [held]; simp)
    rw [(BatchInfo.countUp_eq counts).1] at notified
    rw [notified, unset, ite_self]

variable {len : QueueLength} {s : System}

theorem Silent.move {s' : System} {ev : Event} (silent : Silent s) (layout : Layout s)
    (move : Move len s ev s') : Silent s' := by
  have notify : ∀ b ∈ s'.batches, b.notify = none := by
    intro b mem
    obtain ⟨old, wasInRing, _, same⟩ | ⟨_, reqs, sem, storing⟩ := move.batches layout mem
    · rw [← same]
      exact silent.notify old wasInRing
    · rw [layout.record b reqs.length (by rw [storing]; rfl)]
      rfl
  cases move with
  | update _ updated =>
    have unset := updateSingleIteration_silent silent.notify updated
    refine ⟨notify, ?_, ?_⟩
    · rw [unset]
      exact silent.posted
    · rw [unset]
      exact silent.sem
  | @notified sem _ posted =>
    have := silent.sem sem
    omega
  | _ => exact ⟨notify, silent.posted, silent.sem⟩

theorem Reachable.silent {ok : System → Event → Prop} (run : Reachable len ok s) : Silent s :=
  Reachable.move_invariant run silent_init fun silent layout _ move => silent.move layout move

theorem Silent.waits {s' : System} {ev : Event} {sem : Nat} (silent : Silent s)
    (waiting : s.producer = .waitNotify sem) (move : Move len s ev s') :
    s'.producer = .waitNotify sem := by
  cases move with
  | spin | fetch | complete | update | pop | popEnd | retire => exact waiting
  | @notified sem _ posted =>
    have := silent.sem sem
    omega
  | callWrap pc | callRange pc | callSingle pc | callWait pc | reset pc | available pc | room pc
  | store pc | finish pc | alloc pc | submit pc | ring pc | drained pc =>
    rw [waiting] at pc
    cases pc

/-! ## The contract -/

/-- The thread waits in `sync_io` for the request, and the completion of its command has
    been processed: it is counted, and its batch is complete and retired. -/
structure Processed (s : System) (request : IoRequest) (sem : Nat) : Prop where
  waiting : s.producer = .waitNotify sem
  own : s.requested.getLast? = some (.rw request)
  answered : s.pending = []
  counted : s.cq = .idle
  retired : s.batches = []

/-- What `sync_io` owes its caller: it returns only when the command of the request, the
    last one issued, has completed, and once that completion has been processed the
    object it waits for has been signalled exactly once. -/
structure SyncContract (len : QueueLength) (request : IoRequest) : Prop where
  returns : ∀ s s' sem, Reachable len AnyCall s → s.producer = .waitNotify sem →
    s.requested.getLast? = some (.rw request) → s.step len .producer = some s' →
    s'.producer = .idle → ∀ issued ∈ s.issued.getLast?, issued ∈ s.completed
  signals : ∀ s sem, Reachable len AnyCall s → Processed s request sem →
    s.posted.count sem = 1

theorem Reachable.syncIo_processed {len : QueueLength} (long : 2 ≤ len.items)
    (req : IoRequest) : ∃ s, Reachable len AnyCall s ∧ Processed s req 0 := by
  have runs : ∀ state event, AnyCall state event := fun _ _ => trivial
  have start : Reachable len AnyCall init := .refl
  have batch : init.asBatch (.syncIo req) = some ([req], some 0, 1) := rfl
  have short : 1 < 0xffff := by decide
  have whole : nextCmdid 0 ≤ nextCmdidAfter 0 1 := by decide
  have free : BatchManager.init.isAvailable (nextCmdid 0) (nextCmdidAfter 0 1) := by decide
  have room : RingBuffer.increment BatchManager.init.buffer.tail ≠
      BatchManager.init.buffer.head := by decide
  have called := Reachable.move start (runs _ _) (.callRange rfl batch Nat.one_pos short whole)
  have granted := Reachable.move called (runs _ _) (.available rfl free)
  have storing := Reachable.move granted (runs _ _) (.room rfl room)
  have issuing := Reachable.move storing (runs _ _) (.store rfl)
  obtain ⟨sqTail, sqDb, subCmd, issued⟩ := Reachable.issue_next issuing (fun _ => runs _ _) rfl
    (show 0 + 1 < 0 + len.items by omega)
  have waiting := Reachable.move issued (runs _ _) (.finish rfl (.inr rfl))
  obtain ⟨sqHead, fetchHead, fetched, _, received⟩ := Reachable.last_received waiting
    (fun _ => runs _ _) (fun _ _ _ => runs _ _) rfl rfl (.head _) rfl rfl
  obtain ⟨manager, empty, processed⟩ := Reachable.singleBatch_retired received
    (fun _ => runs _ _) rfl rfl
  exact ⟨_, processed, rfl, rfl, List.erase_cons_head _ [], rfl, empty⟩

/-- `sync_io` keeps its contract for no request, on no queue of at least two entries: in
    every run the object it waits for is not signalled, and the wait does not end. -/
theorem sync_io_contract_never_met {len : QueueLength} (long : 2 ≤ len.items)
    (request : IoRequest) :
    ¬ SyncContract len request ∧
    (∀ s, Reachable len AnyCall s → s.posted = []) ∧
    ∀ s s' sem, Reachable len AnyCall s → s.producer = .waitNotify sem →
      Reaches (step len) AnyCall s s' → s'.producer = .waitNotify sem := by
  refine ⟨fun contract => ?_, fun s run => (Reachable.silent run).posted, ?_⟩
  · obtain ⟨s, run, processed⟩ := Reachable.syncIo_processed long request
    have signalled := contract.signals s 0 run processed
    rw [(Reachable.silent run).posted] at signalled
    cases signalled
  · intro s s' sem run waiting later
    induction later with
    | refl => exact waiting
    | next earlier _ stepped ih =>
      exact (Reachable.silent (run.trans earlier)).waits ih (step_move stepped)

/-- On a queue of two entries. -/
theorem sync_io_contract_never_met_short :
    ¬ SyncContract ⟨2, by decide, by decide⟩ oneRead :=
  (sync_io_contract_never_met (by decide) oneRead).1

/-- A read of one block: the completion is processed, and there was no signal. -/
theorem sync_io_not_signalled :
    ∃ s, Reachable ⟨2, by decide, by decide⟩ AnyCall s ∧ Processed s oneRead 0 ∧
      s.posted.count 0 ≠ 1 := by
  obtain ⟨s, run, processed⟩ :=
    @Reachable.syncIo_processed ⟨2, by decide, by decide⟩ (by decide) oneRead
  refine ⟨s, run, processed, ?_⟩
  rw [(Reachable.silent run).posted]
  decide

end System

end Xdk.Nvme
