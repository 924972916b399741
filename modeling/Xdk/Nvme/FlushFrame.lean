import Xdk.Nvme.LedgerProper
import Xdk.Nvme.Runs

/-! # What the completion of a flush does to the batches

A flush takes its identifier from the same counter as the batches, but it neither asks
`is_available` nor leaves a record.  Its completion is looked up like any other; it
leaves the batch manager alone as long as no batch in the ring has the identifier of an
unfinished flush.  The batch manager does not see to that: the counter can come round to
the range of a slow batch.
-/

namespace Xdk.Nvme

open Xdk.Lib

def Producer.flushIds : Producer → List Nat
  | .nextSubSlot .flush cmdid _ => [cmdid]
  | _ => []

def CqThread.flushIds : CqThread → List Nat
  | .received ⟨_, .flush, cmdid⟩ _ => [cmdid]
  | _ => []

def Producer.flushNext : Producer → Bool
  | .issue _ ⟨.flush :: _, _, _⟩ => true
  | _ => false

def Producer.storing : Producer → List BatchInfo
  | .store bi _ _ => [bi]
  | _ => []

namespace System

def flushIds (s : System) : List Nat :=
  s.producer.flushIds ++ s.cq.flushIds ++
    (s.pending.filter fun issued => issued.op = .flush).map Issued.cmdid

variable {s : System} {cmdid : Nat}

theorem mem_flushIds :
    cmdid ∈ s.flushIds ↔ cmdid ∈ s.producer.flushIds ∨ cmdid ∈ s.cq.flushIds ∨
      ∃ issued ∈ s.pending, issued.op = .flush ∧ issued.cmdid = cmdid := by
  simp [flushIds, and_assoc]

variable {len : QueueLength}

/-- A flush gets its identifier when it is allocated; no other step adds one. -/
theorem Move.flushIds {s' : System} {ev : Event} (move : Move len s ev s')
    (mem : cmdid ∈ s'.flushIds) :
    cmdid ∈ s.flushIds ∨ ev = .producer ∧ cmdid = allocCmdid s.q.cmdidCounter ∧
      ∃ previous todo expected sem,
        s.producer = .issue previous ⟨.flush :: todo, expected, sem⟩ := by
  cases move with
  | alloc pc =>
    rename_i op todo expected sem
    cases op with
    | rw req => exact .inl (by simpa [System.flushIds, Producer.flushIds, pc] using mem)
    | flush =>
      simp only [System.flushIds, Producer.flushIds, List.cons_append, List.mem_cons] at mem
      obtain rfl | before := mem
      · exact .inr ⟨rfl, rfl, _, todo, expected, sem, pc⟩
      · exact .inl (by simpa [System.flushIds, Producer.flushIds, pc] using before)
  | @submit op _ _ _ _ pc =>
    left
    rw [mem_flushIds] at mem ⊢
    obtain held | received | ⟨issued, waiting, isFlush, rfl⟩ := mem
    · cases held
    · exact .inr (.inl received)
    · obtain waiting | rfl := by simpa only [List.mem_append, List.mem_singleton] using waiting
      · exact .inr (.inr ⟨issued, waiting, isFlush, rfl⟩)
      · obtain rfl : op = .flush := isFlush
        exact .inl (by rw [pc]; exact .head _)
  | @complete issued _ _ _ idle outstanding =>
    left
    rw [mem_flushIds] at mem ⊢
    obtain held | received | ⟨issued', waiting, isFlush, rfl⟩ := mem
    · exact .inl held
    · obtain ⟨serial, op, cmdid'⟩ := issued
      cases op with
      | rw req => cases received
      | flush =>
        obtain rfl := List.mem_singleton.mp received
        exact .inr (.inr ⟨_, outstanding, rfl, rfl⟩)
    · exact .inr (.inr ⟨issued', List.mem_of_mem_erase waiting, isFlush, rfl⟩)
  | finish pc =>
    rename_i sem _
    cases sem <;> simpa [System.flushIds, Producer.flushIds, pc, afterIssue] using mem
  | update pc =>
    left
    rw [mem_flushIds] at mem ⊢
    obtain held | received | waiting := mem
    · exact .inl held
    · split at received <;> cases received
    · exact .inr (.inr waiting)
  | spin | fetch => exact .inl mem
  | pop pc | popEnd pc | retire pc =>
    exact .inl (by simpa [System.flushIds, CqThread.flushIds, pc] using mem)
  | callWrap pc | callRange pc | callSingle pc | callWait pc | reset pc | available pc | room pc
  | store pc | ring pc | drained pc | notified pc =>
    exact .inl (by simpa [System.flushIds, Producer.flushIds, pc] using mem)

/-- The condition on a step of the producer: a flush takes an identifier that no batch in
    the ring has, and a batch is stored whose range has no identifier of an unfinished
    flush. -/
def FlushApart (s : System) (event : Event) : Prop :=
  event = .producer →
    (s.producer.flushNext = true →
      ∀ batch ∈ s.batches, ¬ batch.Covers (allocCmdid s.q.cmdidCounter)) ∧
    ∀ bi ∈ s.producer.storing, ∀ cmdid ∈ s.flushIds, ¬ bi.Covers cmdid

instance (s : System) (event : Event) : Decidable (FlushApart s event) :=
  inferInstanceAs (Decidable (_ → _ ∧ _))

def FlushesOutside (s : System) : Prop :=
  ∀ cmdid ∈ s.flushIds, ∀ batch ∈ s.batches, ¬ batch.Covers cmdid

theorem FlushesOutside.move {s' : System} {ev : Event} (outside : FlushesOutside s)
    (layout : Layout s) (apart : FlushApart s ev) (move : Move len s ev s') :
    FlushesOutside s' := by
  intro cmdid isFlush b inRing covers
  obtain wasFlush | ⟨isProducer, rfl, previous, todo, expected, sem, issuing⟩ :=
    move.flushIds isFlush
  all_goals
    obtain ⟨old, wasInRing, sameRange, _⟩ | ⟨isProducer', requests, sem', storing⟩ :=
      move.batches layout inRing
  · exact outside cmdid wasFlush old wasInRing
      ((BatchInfo.covers_iff_of_range sameRange _).mpr covers)
  · exact (apart isProducer').2 b (by rw [storing]; exact .head _) cmdid wasFlush covers
  · exact (apart isProducer).1 (by rw [issuing]; rfl) old wasInRing
      ((BatchInfo.covers_iff_of_range sameRange _).mpr covers)
  · rw [issuing] at storing
    cases storing

theorem Reachable.flushesOutside (run : Reachable len FlushApart s) : FlushesOutside s := by
  have initial : FlushesOutside init := by rintro _ ⟨⟩
  exact Reachable.move_invariant run initial fun outside layout apart move =>
    outside.move layout apart move

theorem ignore_move {issued : Issued} (received : s.cq = .received issued cmdid)
    (proper : s.ledger.Proper) (uncovered : ∀ b ∈ s.batches, ¬ b.Covers cmdid) :
    Move len s .cq { s with cq := .idle } :=
  .update received (BatchManager.updateSingleIteration_of_uncovered
    (fun b mem => (proper.batches b mem).ordered) uncovered)

/-- In every run whose steps meet the condition, whatever is called, the completion of a
    flush changes nothing: no counter, no flag, not the ring, not `_last_available_cmdid`. -/
theorem flush_completion_is_ignored {len : QueueLength} {s : System} {issued : Issued}
    {cmdid : Nat} (run : Reachable len FlushApart s)
    (received : s.cq = .received issued cmdid) (isFlush : issued.op = .flush) :
    s.step len .cq = some { s with cq := .idle } := by
  obtain rfl := (Reachable.layout run).received _ _ received
  have unfinished : issued.cmdid ∈ s.flushIds := by
    obtain ⟨serial, op, cmdid⟩ := issued
    obtain rfl : op = .flush := isFlush
    simp [flushIds, CqThread.flushIds, received]
  exact (ignore_move received (Reachable.proper run)
    (Reachable.flushesOutside run _ unfinished)).step

/-- A flush completes while two reads that were issued before it are still in flight. -/
theorem flush_completion_is_ignored_overtaking :
    ∃ s, Reachable ⟨4, by decide, by decide⟩ FlushApart s ∧
      s.cq = .received ⟨2, .flush, 3⟩ 3 ∧ s.batches = [batchInfo 1 2 2] ∧
      s.step ⟨4, by decide, by decide⟩ .cq = some { s with cq := .idle } := by
  have executed : ∃ s ∈ execute (step ⟨4, by decide, by decide⟩) FlushApart
      (twoReads.take 13 ++ [.call (.single .flush), .producer, .producer, .producer, .producer,
        .fetch, .complete ⟨2, .flush, 3⟩ 3]) init,
      s.cq = .received ⟨2, .flush, 3⟩ 3 ∧ s.batches = [batchInfo 1 2 2] := by
    decide +kernel
  obtain ⟨s, run, received, batches⟩ := exists_reaches_of_execute executed
  exact ⟨s, run, received, batches, flush_completion_is_ignored run received rfl⟩

/-! ## The counter comes round -/

section Flush

variable {len : QueueLength} {s : System}

/-- An idle queue on which every command has been fetched, with its batch manager and
    its counter. -/
structure Settled (s : System) (manager : BatchManager) (counter : Nat) : Prop where
  producer : s.producer = .idle
  cq : s.cq = .idle
  manager : s.q.batchManager = manager
  counter : s.q.cmdidCounter = counter
  fetched : s.fetched.length = s.issued.length
  reported : s.issued.length ≤ s.reported + 1

/-- A flush on a settled queue: its completion is received, and if no batch has its
    identifier the queue is settled again. -/
theorem Settled.flush {mgr : BatchManager} {c : Nat} (settled : Settled s mgr c)
    (run : Reachable len (OnlyCalls Call.isBatchOrFlush) s) (long : 2 < len.items) :
    ∃ s' issued, Reachable len (OnlyCalls Call.isBatchOrFlush) s' ∧
      s'.cq = .received issued issued.cmdid ∧ issued.op = .flush ∧
      issued.cmdid = allocCmdid c ∧
      Settled { s' with cq := .idle } mgr (allocCmdid c) := by
  obtain ⟨p, cq, rfl, rfl, fetched, reported⟩ := settled
  have called : OnlyCalls Call.isBatchOrFlush s (.call (.single .flush)) := rfl
  have issuing := Reachable.move run called (.callSingle p)
  obtain ⟨sqTail, sqDb, subCmd, issued⟩ := Reachable.issue_next issuing (fun _ => trivial) rfl
    (show s.issued.length + 1 < s.reported + len.items by omega)
  have permitted : ∀ state, OnlyCalls Call.isBatchOrFlush state .producer := fun _ => trivial
  have finished := Reachable.move issued (permitted _) (.finish rfl (.inl rfl))
  obtain ⟨sqHead, fetchHead, commands, allFetched, received⟩ :=
    Reachable.last_received finished (fun _ => trivial) (fun _ _ _ => trivial) rfl cq
      (List.mem_append_right _ (.head _)) fetched.symm (by simp [fetched])
  exact ⟨_, _, received, rfl, rfl, rfl, rfl, rfl, rfl, rfl, allFetched, by simp [fetched]⟩

end Flush

theorem singleBatch_settled :
    ∃ s, Reachable ⟨4, by decide, by decide⟩ (OnlyCalls Call.isBatchOrFlush) s ∧
      Settled s singleBatch 1 := by
  have executed : ∃ s, execute (step ⟨4, by decide, by decide⟩) (OnlyCalls Call.isBatchOrFlush)
      (oneBatch.take 9) init = some s ∧ Settled s singleBatch 1 :=
    ⟨_, rfl, ⟨rfl, rfl, rfl, rfl, rfl, by decide⟩⟩
  obtain ⟨s, reached, settled⟩ := executed
  exact ⟨s, execute_reaches reached, settled⟩

/-- While the read takes its time, flushes use up the identifiers one by one. -/
theorem singleBatch_settled_after (flushes : Nat) (bound : flushes < 65535) :
    ∃ s, Reachable ⟨4, by decide, by decide⟩ (OnlyCalls Call.isBatchOrFlush) s ∧
      Settled s singleBatch (flushes + 1) := by
  induction flushes with
  | zero => exact singleBatch_settled
  | succ flushes ih =>
    obtain ⟨s, run, settled⟩ := ih (by omega)
    obtain ⟨s', issued, run', received, _, cmdid, settled'⟩ := settled.flush run (by decide)
    have next : allocCmdid (flushes + 1) = flushes + 1 + 1 := by
      rw [allocCmdid_eq (by omega), if_neg (by omega)]
    have mgr : s'.q.batchManager = singleBatch := settled'.manager
    have uncovered : ∀ b ∈ s'.batches, ¬ b.Covers issued.cmdid := by
      rw [batches, mgr, batches_singleBatch, cmdid, next]
      simp [BatchInfo.Covers, batchInfo]
    have permitted : OnlyCalls Call.isBatchOrFlush s' .cq := trivial
    refine ⟨_, Reachable.move run' permitted
      (ignore_move received (Reachable.proper run') uncovered), ?_⟩
    rwa [next] at settled'

/-- A batch of one read is in the ring when 65534 flushes come and go: the next flush gets
    the identifier of the read, and its completion is counted as that of the read. -/
theorem flush_completion_counted :
    ∃ s s' issued, Reachable ⟨4, by decide, by decide⟩ (OnlyCalls Call.isBatchOrFlush) s ∧
      s.cq = .received issued issued.cmdid ∧ issued.op = .flush ∧
      s.step ⟨4, by decide, by decide⟩ .cq = some s' ∧
      s.batches = [batchInfo 1 1 1] ∧
      s'.batches = [{ batchInfo 1 1 1 with counter := 1, complete := true }] := by
  obtain ⟨s₀, run₀, settled₀⟩ := singleBatch_settled_after 65534 (by decide)
  obtain ⟨s, issued, run, received, isFlush, cmdid, settled⟩ := settled₀.flush run₀ (by decide)
  have manager : s.q.batchManager = singleBatch := settled.manager
  have updated : ∃ counted, s.q.batchManager.updateSingleIteration issued.cmdid = some counted ∧
      counted.manager.batches = [{ batchInfo 1 1 1 with counter := 1, complete := true }] := by
    rw [manager, cmdid]
    exact ⟨_, rfl, rfl⟩
  obtain ⟨counted, updated, batches'⟩ := updated
  exact ⟨s, _, issued, run, received, isFlush, (Move.update received updated).step,
    by rw [batches, manager, batches_singleBatch], batches'⟩

end System

end Xdk.Nvme
