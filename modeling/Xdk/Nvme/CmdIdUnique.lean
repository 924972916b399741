import Xdk.Nvme.RangesDisjoint

/-! # Command identifiers are unique

An identifier is live from the push of its batch until its completion is counted.
Since the ranges in flight are disjoint, each live identifier belongs to one batch, a
batch has exactly as many live identifiers as it owes completions, and a batch that is
popped has none left.  So no identifier is live twice.
-/

namespace Xdk.Nvme

open Xdk.Lib

/-- The identifiers of the batch being issued that are not yet in the submission ring. -/
def Phase.remaining : Phase → List Nat
  | .issuing todo (some final) => List.range' (final + 1 - todo.length) todo.length
  | .submitting _ cmdid todo (some final) =>
    cmdid :: List.range' (final + 1 - todo.length) todo.length
  | _ => []

def Retirement.ids : Retirement → List Nat
  | .received issued => [issued.cmdid]
  | _ => []

namespace Ledger

def live (l : Ledger) : List Nat :=
  l.pending.map Issued.cmdid ++ (l.thread.ids ++ l.phase.remaining)

structure Balanced (l : Ledger) : Prop where
  nodup : l.live.Nodup
  covered : ∀ cmdid ∈ l.live, ∃ batch ∈ l.batches, batch.Covers cmdid
  balance : ∀ batch ∈ l.batches,
    batch.counter + l.live.countP (fun cmdid => batch.Covers cmdid) = batch.total

variable {l l' : Ledger}

theorem Balanced.of_perm (balanced : l.Balanced) (live : l'.live.Perm l.live)
    (batches : l'.batches = l.batches) : l'.Balanced where
  nodup := live.nodup_iff.mpr balanced.nodup
  covered := fun cmdid mem => by
    rw [batches]
    exact balanced.covered cmdid (live.mem_iff.mp mem)
  balance := fun b mem => by
    rw [live.countP_eq]
    exact balanced.balance b (batches ▸ mem)

theorem batches_pairwise_apart (apart : l.ranges.Pairwise (Apart Prod.fst Prod.snd)) :
    l.batches.Pairwise (Apart BatchInfo.startCmdid BatchInfo.endCmdid) :=
  (List.pairwise_map.mp apart).sublist (List.sublist_append_right _ _)

theorem apart_of_pairwise {before after : List BatchInfo} {b : BatchInfo} {cmdid : Nat}
    (apart : l.ranges.Pairwise (Apart Prod.fst Prod.snd))
    (held : l.batches = before ++ b :: after) (covered : b.Covers cmdid) :
    ∀ o ∈ before ++ after, ¬ o.Covers cmdid := by
  have batches := batches_pairwise_apart apart
  rw [held, List.pairwise_append, List.pairwise_cons] at batches
  obtain ⟨_, ⟨later, _⟩, earlier⟩ := batches
  intro o mem both
  rcases List.mem_append.mp mem with inBefore | inAfter
  · exact (earlier o inBefore b (.head _)).not_both both covered
  · exact (later o inAfter).not_both covered both

/-- Counting a completion: its identifier is no longer live, and the one batch that has it
    owes one completion less. -/
theorem Balanced.count {l : Ledger} {issued : Issued} {before after : List BatchInfo}
    {b inv : BatchInfo} {thread : Retirement} (balanced : l.Balanced) (proper : l.Proper)
    (apart : l.ranges.Pairwise (Apart Prod.fst Prod.snd)) (pc : l.thread = .received issued)
    (held : l.batches = before ++ b :: after) (covered : b.Covers issued.cmdid)
    (counts : b.countUp = some inv) (nothing : thread.ids = []) :
    Balanced { l with batches := before ++ inv :: after, thread := thread } := by
  obtain ⟨_, sameRange, total, counter⟩ :=
    (proper.batches b (by rw [held]; simp)).countUp counts
  have sameCovers := BatchInfo.covers_iff_of_range sameRange
  have others := apart_of_pairwise apart held covered
  have live : l.live.Perm (issued.cmdid ::
      live { l with batches := before ++ inv :: after, thread := thread }) := by
    simp only [Ledger.live, pc, nothing]
    exact List.perm_middle
  have balances := balanced.balance
  have coveredBy := balanced.covered
  simp only [held, live.countP_eq, List.countP_cons] at balances
  simp only [held, live.mem_iff, List.mem_cons] at coveredBy
  refine ⟨(List.nodup_cons.mp (live.nodup_iff.mp balanced.nodup)).2, fun cmdid mem => ?_, ?_⟩
  · obtain ⟨owner, inBatches, owns⟩ := coveredBy cmdid (.inr mem)
    simp only [List.mem_append, List.mem_cons] at inBatches ⊢
    obtain inBefore | rfl | inAfter := inBatches
    · exact ⟨owner, .inl inBefore, owns⟩
    · exact ⟨inv, .inr (.inl rfl), (sameCovers cmdid).mpr owns⟩
    · exact ⟨owner, .inr (.inr inAfter), owns⟩
  · intro o mem
    by_cases same : o = inv
    · subst same
      have balance := balances b (by simp)
      simp only [covered, decide_true, if_true] at balance
      simp only [sameCovers]
      omega
    · have elsewhere : o ∈ before ++ after := by
        simp only [List.mem_append, List.mem_cons] at mem ⊢
        tauto
      have balance := balances o (by simp at elsewhere ⊢; tauto)
      simpa [others o elsewhere] using balance

theorem Balanced.pop {b : BatchInfo} {rest : List BatchInfo} (balanced : l.Balanced)
    (pc : l.thread = .retiring) (held : l.batches = b :: rest)
    (complete : b.isComplete = true) :
    Balanced { l with batches := rest, thread := .leaving b } := by
  have live : live { l with batches := rest, thread := .leaving b } = l.live := by
    simp [Ledger.live, pc, Retirement.ids]
  have balances := balanced.balance
  have coveredBy := balanced.covered
  rw [held] at balances coveredBy
  have noneLeft : l.live.countP (fun cmdid => b.Covers cmdid) = 0 := by
    have balance := balances b (.head _)
    simp only [BatchInfo.isComplete, Bool.and_eq_true, beq_iff_eq] at complete
    omega
  refine ⟨live ▸ balanced.nodup, fun cmdid mem => ?_, fun o mem => ?_⟩
  · rw [live] at mem
    obtain ⟨owner, inBatches, owns⟩ := coveredBy cmdid mem
    cases inBatches with
    | head => simpa [owns] using List.countP_eq_zero.mp noneLeft cmdid mem
    | tail _ inRest => exact ⟨owner, inRest, owns⟩
  · rw [live]
    exact balances o (.tail _ mem)

section Push

variable {l : Ledger} {first final : Nat} {requests : List IoRequest}

def pushed (l : Ledger) (first final : Nat) (requests : List IoRequest) : Ledger :=
  { l with
    batches := l.batches ++ [System.batchInfo first final requests.length]
    phase := .issuing (requests.map .rw) (some final) }

theorem live_pushed (pc : l.phase = .granted first final requests)
    (claim : Claim l.counter first final requests.length) :
    (l.pushed first final requests).live = l.live ++ List.range' first requests.length := by
  have start : final + 1 - requests.length = first := by
    have := claim.length_eq
    omega
  simp only [live, pushed, pc, Phase.remaining, List.length_map, start, List.append_nil,
    List.append_assoc]

theorem covers_batchInfo (cmdid : Nat) :
    (System.batchInfo first final requests.length).Covers cmdid ↔
      first ≤ cmdid ∧ cmdid ≤ final := Iff.rfl

theorem mem_claim (claim : Claim l.counter first final requests.length) {cmdid : Nat} :
    cmdid ∈ List.range' first requests.length ↔
      (System.batchInfo first final requests.length).Covers cmdid := by
  have := claim.length_eq
  rw [List.mem_range'_1, covers_batchInfo]
  omega

theorem uncovered_of_apart
    (apart : (l.ranges ++ [(first, final)]).Pairwise (Apart Prod.fst Prod.snd))
    {b : BatchInfo} (mem : b ∈ l.batches) {cmdid : Nat}
    (inNew : (System.batchInfo first final requests.length).Covers cmdid) :
    ¬ b.Covers cmdid := by
  intro inOld
  have inRanges : b.range ∈ l.ranges :=
    List.mem_map.mpr ⟨b, List.mem_append_right _ mem, rfl⟩
  exact ((List.pairwise_append.mp apart).2.2 _ inRanges _ (.head _)).not_both inOld inNew

theorem Balanced.push (balanced : l.Balanced) (pc : l.phase = .granted first final requests)
    (claim : Claim l.counter first final requests.length)
    (apart : (l.ranges ++ [(first, final)]).Pairwise (Apart Prod.fst Prod.snd)) :
    (l.pushed first final requests).Balanced := by
  have notLive : ∀ cmdid ∈ l.live,
      ¬ (System.batchInfo first final requests.length).Covers cmdid := by
    intro cmdid mem inNew
    obtain ⟨o, inBatches, owns⟩ := balanced.covered cmdid mem
    exact uncovered_of_apart apart inBatches inNew owns
  constructor
  · rw [live_pushed pc claim, List.nodup_append]
    refine ⟨balanced.nodup, List.nodup_range', ?_⟩
    rintro cmdid isLive _ isNew rfl
    exact notLive cmdid isLive ((mem_claim claim).mp isNew)
  · intro cmdid mem
    rw [live_pushed pc claim, List.mem_append] at mem
    obtain isLive | isNew := mem
    · obtain ⟨o, inBatches, owns⟩ := balanced.covered cmdid isLive
      exact ⟨o, List.mem_append_left _ inBatches, owns⟩
    · exact ⟨_, List.mem_append_right _ (.head _), (mem_claim claim).mp isNew⟩
  · intro b mem
    rw [live_pushed pc claim, List.countP_append]
    obtain inBatches | isNew := List.mem_append.mp mem
    · have noneNew : (List.range' first requests.length).countP
          (fun cmdid => b.Covers cmdid) = 0 := by
        refine List.countP_eq_zero.mpr fun cmdid isNew => ?_
        simpa using uncovered_of_apart apart inBatches ((mem_claim claim).mp isNew)
      rw [noneNew]
      exact balanced.balance b inBatches
    · obtain rfl := List.mem_singleton.mp isNew
      rw [List.countP_eq_zero.mpr fun cmdid isLive => by simpa using notLive cmdid isLive,
        List.countP_eq_length.mpr fun cmdid isNew => by simpa using (mem_claim claim).mp isNew,
        List.length_range', Nat.zero_add]
      have := claim.short
      simp only [System.batchInfo]
      rw [u16_of_lt (by omega), Nat.zero_add]

end Push

theorem remaining_alloc {op : Op} {todo : List Op} {final : Nat} (proper : l.Proper)
    (pc : l.phase = .issuing (op :: todo) (some final)) :
    (Phase.submitting op (allocCmdid l.counter) todo (some final)).remaining =
      l.phase.remaining := by
  have phase := proper.phase
  rw [pc] at phase
  obtain ⟨total, _⟩ := phase
  rw [pc, allocCmdid_eq_nextCmdid proper.counter_lt]
  simp only [Phase.remaining, List.length_cons]
  congr 2 <;> omega

theorem Balanced.step {ev : Event} (balanced : l.Balanced) (proper : l.Proper)
    (reached : l.phase.Reached l.counter l.tip) (arranged : l.Arranged) (arranged' : l'.Arranged)
    (noSingle : ∀ op, ev ≠ .call (.single op)) (step : Step l ev l') :
    l'.Balanced := by
  have phase := proper.phase
  have apart := arranged.pairwise_apart proper
  have apart' := arranged'.pairwise_apart (proper.step step)
  cases step with
  | stutter => exact balanced
  | beginSingle => exact absurd rfl (noSingle _)
  | beginWrap pc | beginRange pc | reset pc | grant pc =>
    exact balanced.of_perm (by simp [live, pc, Phase.remaining]) rfl
  | push pc =>
    rw [pc] at phase
    rw [ranges_push] at apart'
    exact balanced.push pc phase apart'
  | alloc pc =>
    rw [pc] at reached
    obtain rfl : _ = some l.tip := reached
    refine balanced.of_perm (.of_eq ?_) rfl
    simp only [live, remaining_alloc proper pc]
  | submit pc =>
    rw [pc] at reached
    obtain rfl : _ = some l.tip := reached
    refine balanced.of_perm ?_ rfl
    simp only [live, pc, List.map_append, List.append_assoc, List.map_singleton,
      List.singleton_append]
    exact (List.perm_middle.append_left _).symm
  | finish pc =>
    rw [pc] at reached
    obtain rfl : _ = some l.tip := reached
    exact balanced.of_perm (by simp [live, pc, Phase.remaining]) rfl
  | complete quiet outstanding =>
    refine balanced.of_perm ?_ rfl
    have whole := (List.perm_cons_erase outstanding).map Issued.cmdid
    simp only [live, quiet]
    refine List.perm_middle.trans ?_
    exact (whole.symm.append_right _)
  | @ignore issued pc uncovered =>
    -- every live identifier has a batch, so this does not happen
    have isLive : issued.cmdid ∈ l.live := by simp [live, pc, Retirement.ids]
    obtain ⟨o, inBatches, owns⟩ := balanced.covered issued.cmdid isLive
    exact absurd owns (uncovered o inBatches)
  | count pc held _ covered counts =>
    refine balanced.count proper apart pc held covered counts ?_
    split <;> rfl
  | pop pc held complete => exact balanced.pop pc held complete
  | popEnd pc | retire pc =>
    exact balanced.of_perm (by simp [live, pc, Retirement.ids]) rfl

structure Disciplined (l : Ledger) : Prop where
  proper : l.Proper
  reached : l.phase.Reached l.counter l.tip
  arranged : l.Arranged
  balanced : l.Balanced

theorem disciplined_init : System.init.ledger.Disciplined where
  proper := proper_init
  reached := rfl
  arranged := .straight (Nat.le_refl 0)
  balanced := ⟨.nil, by rintro _ ⟨⟩, by rintro _ ⟨⟩⟩

theorem Disciplined.step {ev : Event} (disciplined : l.Disciplined)
    (noSingle : ∀ op, ev ≠ .call (.single op)) (orderly : ev = .producer → l.Orderly)
    (step : Step l ev l') : l'.Disciplined := by
  obtain ⟨proper, reached, arranged, balanced⟩ := disciplined
  have arranged' := arranged.step proper reached noSingle orderly step
  exact
    { proper := proper.step step
      reached := reached_step proper reached noSingle step
      arranged := arranged'
      balanced := balanced.step proper reached arranged arranged' noSingle step }

end Ledger

def Producer.checking : Producer → Bool
  | .checkAvailable _ _ _ _ => true
  | _ => false

namespace System

/-- The condition on a turn of the availability loop: when the next identifier is 1 while
    `_last_available_cmdid` still has its initial value, no batch is in the ring or on its
    way out of it. -/
def Orderly (s : System) (event : Event) : Prop :=
  event = .producer → s.producer.checking = true →
    s.q.cmdidCounter = 0 ∨ s.q.cmdidCounter = 65535 →
    s.q.batchManager.lastAvailableCmdid = 0 → s.ledger.ranges = []

instance (s : System) (event : Event) : Decidable (Orderly s event) :=
  inferInstanceAs (Decidable (_ → _))

variable {s : System}

theorem Orderly.ledger {ev : Event} (orderly : Orderly s ev) (proper : s.ledger.Proper)
    (isProducer : ev = .producer) : s.ledger.Orderly := by
  intro final reqs waiting fresh
  have phase := proper.phase
  have lt : s.q.cmdidCounter < 65536 := proper.counter_lt
  rw [waiting] at phase
  have first : 1 = nextCmdid s.q.cmdidCounter := phase.first_eq
  rw [nextCmdid_eq lt] at first
  refine orderly isProducer ?_ ?_ fresh
  · change s.producer.phase = .claiming 1 final reqs at waiting
    cases pc : s.producer with
    | checkAvailable => rfl
    | _ => rw [pc] at waiting; cases waiting
  · split at first <;> omega

theorem Reachable.disciplined {len : QueueLength}
    (run : Reachable len (fun s ev => OnlyCalls Call.isBatch s ev ∧ Orderly s ev) s) :
    s.ledger.Disciplined :=
  Reachable.ledger_invariant run Ledger.disciplined_init fun disciplined permitted step =>
    disciplined.step (permitted.1.not_single fun _ => rfl)
      (permitted.2.ledger disciplined.proper) step

/-- In every run that issues batches only and meets the condition at each turn of the
    availability loop, no two commands in flight carry the same identifier, and the ranges
    of the batches in the ring are pairwise disjoint. -/
theorem command_ids_unique {len : QueueLength} {s : System}
    (run : Reachable len (fun s event => OnlyCalls Call.isBatch s event ∧ Orderly s event) s) :
    (s.pending.map Issued.cmdid).Nodup ∧
      s.batches.Pairwise (Apart BatchInfo.startCmdid BatchInfo.endCmdid) := by
  have disciplined := Reachable.disciplined run
  refine ⟨(List.nodup_append.mp disciplined.balanced.nodup).1, ?_⟩
  exact Ledger.batches_pairwise_apart (disciplined.arranged.pairwise_apart disciplined.proper)

/-- A batch of two reads and one of a single read are in flight. -/
theorem command_ids_unique_two :
    ∃ s, Reachable ⟨4, by decide, by decide⟩
        (fun s event => OnlyCalls Call.isBatch s event ∧ Orderly s event) s ∧
      s.pending.length = 3 ∧ s.batches.length = 2 ∧ (s.pending.map Issued.cmdid).Nodup ∧
      s.batches.Pairwise (Apart BatchInfo.startCmdid BatchInfo.endCmdid) := by
  have executed : ∃ s ∈ execute (step ⟨4, by decide, by decide⟩)
      (fun s event => OnlyCalls Call.isBatch s event ∧ Orderly s event)
      (twoReads.take 11 ++ oneBatch.take 8) init,
      s.pending.length = 3 ∧ s.batches.length = 2 := by
    decide +kernel
  obtain ⟨s, run, inFlight, batches⟩ := exists_reaches_of_execute executed
  exact ⟨s, run, inFlight, batches, command_ids_unique run⟩

/-! ## The exception -/

/-- A new lap that starts before any batch was retired gives out the identifier 1,
    whatever is in flight. -/
theorem Reachable.first_of_new_lap {len : QueueLength} {ok : System → Event → Prop}
    {req : IoRequest} {reqs : List IoRequest} {slot sqTail : Nat} (run : Reachable len ok s)
    (runs : ∀ state, ok state .producer) (called : ok s (.call (.batch (req :: reqs))))
    (idle : s.producer = .idle) (short : reqs.length + 1 < 65535)
    (wraps : nextCmdidAfter s.q.cmdidCounter (reqs.length + 1) < nextCmdid s.q.cmdidCounter)
    (fresh : s.q.batchManager.lastAvailableCmdid = 0)
    (ringRoom : RingBuffer.increment s.q.batchManager.buffer.tail ≠ s.q.batchManager.buffer.head)
    (slotRoom : s.q.incrementSubmissionTail len.items = some (slot, sqTail)) :
    ∃ s', Reachable len ok s' ∧
      s'.pending = s.pending ++ [⟨s.issued.length, .rw req, 1⟩] ∧
      s'.batches = s.batches ++ [batchInfo 1 (reqs.length + 1) (reqs.length + 1)] := by
  have batch : Ledger.Batch (req :: reqs) := ⟨Nat.zero_lt_succ _, short⟩
  have first := nextCmdid_zero
  have final := nextCmdidAfter_zero batch.1 batch.2
  have canReset : s.q.batchManager.canResetCmdid s.q.cmdidCounter := by
    simp [BatchManager.canResetCmdid, fresh]
  have whole : nextCmdid 0 ≤ nextCmdidAfter 0 (req :: reqs).length := by
    rw [final]
    exact batch.1
  have free : s.q.batchManager.isAvailable (nextCmdid 0)
      (nextCmdidAfter 0 (req :: reqs).length) := by
    rw [first, final]
    exact .inr (by simp [fresh])
  have waiting := Reachable.move run called (.callWrap idle rfl batch.1 short wraps)
  have claiming := Reachable.move waiting (runs _) (.reset rfl canReset whole)
  have granted := Reachable.move claiming (runs _) (.available rfl free)
  have storing := Reachable.move granted (runs _) (.room rfl ringRoom)
  have issuing := Reachable.move storing (runs _) (.store rfl)
  have submitting := Reachable.move issuing (runs _) (.alloc rfl)
  have submitted := Reachable.move submitting (runs _) (.submit rfl slotRoom)
  refine ⟨_, submitted, rfl, (RingBuffer.contents_store _ _ ringRoom).trans ?_⟩
  rw [final]
  rfl

/-- Two reads are in flight when a batch of 65534 requests comes: the counter is reset
    and the identifier 1, which the first read carries, is given out again. -/
theorem command_ids_not_unique :
    ∃ s, Reachable ⟨4, by decide, by decide⟩ (OnlyCalls Call.isBatch) s ∧
      ¬ (s.pending.map Issued.cmdid).Nodup ∧
      ¬ s.batches.Pairwise (Apart BatchInfo.startCmdid BatchInfo.endCmdid) := by
  have executed : ∃ s ∈ execute (step ⟨4, by decide, by decide⟩) (OnlyCalls Call.isBatch)
      (twoReads.take 11) init,
      (s.producer = .idle ∧ s.q.cmdidCounter = 2 ∧ s.q.batchManager.lastAvailableCmdid = 0) ∧
        RingBuffer.increment s.q.batchManager.buffer.tail ≠ s.q.batchManager.buffer.head ∧
        s.q.incrementSubmissionTail 4 = some (2, 3) ∧
        s.pending.map Issued.cmdid = [1, 2] ∧ s.batches = [batchInfo 1 2 2] := by
    decide
  obtain ⟨s, run, ⟨idle, counter, fresh⟩, ringRoom, slotRoom, ids, batches⟩ :=
    exists_reaches_of_execute executed
  have length : (List.replicate 65533 oneRead).length = 65533 := List.length_replicate
  have wraps : nextCmdidAfter s.q.cmdidCounter ((List.replicate 65533 oneRead).length + 1) <
      nextCmdid s.q.cmdidCounter := by
    rw [length, counter]
    decide
  have called : OnlyCalls Call.isBatch s
      (.call (.batch (oneRead :: List.replicate 65533 oneRead))) := rfl
  obtain ⟨s', run', pending', batches'⟩ := Reachable.first_of_new_lap run
    (fun _ => trivial) called idle (by omega) wraps fresh ringRoom slotRoom
  refine ⟨s', run', ?_, ?_⟩
  · simp [pending', ids]
  · rw [batches', batches, length]
    simp [Apart, batchInfo]

end System

end Xdk.Nvme
