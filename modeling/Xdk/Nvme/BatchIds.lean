import Xdk.Nvme.Moves

/-! # The identifiers of a batch

`issue_async_io_batch` announces the range of its identifiers to the batch manager before it
has any of them: `next_cmdid()` predicts the first one and `next_cmdid(length)` the last one.
The identifiers themselves come one by one from `alloc_cmdid` when the commands are issued.
`Stage` follows one call from the prediction to its end, whatever the counter was at first and
whatever the controller and the completion thread do meanwhile.
-/

namespace Xdk.Nvme

open Xdk.Lib

structure IdRange where
  startCmdid : Nat
  endCmdid : Nat

def predictIds (counter length : Nat) : IdRange :=
  ⟨nextCmdid counter, nextCmdidAfter counter length⟩

/-- The range a batch gets.  A prediction that wraps is made again after `reset_cmdid`. -/
def batchIds (counter length : Nat) : IdRange :=
  let predicted := predictIds counter length
  if predicted.endCmdid < predicted.startCmdid then predictIds 0 length else predicted

/-- A range of `length` identifiers, none of them 0. -/
structure IdRange.Spans (ids : IdRange) (length : Nat) : Prop where
  positive : 0 < ids.startCmdid
  exact : ids.endCmdid + 1 = ids.startCmdid + length
  bound : ids.endCmdid < 65536

theorem predictIds_spans {c length : Nat} (lt : c < 65536)
    (pos : 0 < length) (short : length < 65535)
    (whole : nextCmdid c ≤ nextCmdidAfter c length) :
    (predictIds c length).Spans length :=
  ⟨nextCmdid_pos c, nextCmdidAfter_eq_add lt pos short whole,
    nextCmdidAfter_lt c length⟩

theorem batchIds_spans {c length : Nat} (lt : c < 65536)
    (pos : 0 < length) (short : length < 65535) : (batchIds c length).Spans length := by
  simp only [batchIds]
  split
  · refine predictIds_spans (by decide) pos short ?_
    rw [nextCmdidAfter_zero pos short]
    exact pos
  · rename_i whole
    exact predictIds_spans lt pos short (Nat.not_lt.mp whole)

/-! ## One call -/

/-- How far the call has come, with the counter and the number of commands written. -/
def Stage (ids : IdRange) (requests : List IoRequest) (counter given : Nat) : Producer → Prop
  | .resetCmdid batch sem =>
    batch = requests ∧ sem = none ∧ given = 0 ∧ ids = predictIds 0 requests.length
  | .checkAvailable startCmdid endCmdid batch sem =>
    batch = requests ∧ sem = none ∧ given = 0 ∧ ids = ⟨startCmdid, endCmdid⟩ ∧
      nextCmdid counter = ids.startCmdid
  | .push bi batch sem | .store bi batch sem =>
    batch = requests ∧ sem = none ∧ given = 0 ∧ ids = ⟨bi.startCmdid, bi.endCmdid⟩ ∧
      nextCmdid counter = ids.startCmdid
  | .issue cmdid rest =>
    rest.sem = none ∧ rest.expected = some ids.endCmdid ∧
      given + rest.todo.length = requests.length ∧
      (given = 0 ∧ nextCmdid counter = ids.startCmdid ∨
        counter = cmdid ∧ cmdid + 1 = ids.startCmdid + given)
  | .nextSubSlot _ cmdid rest =>
    rest.sem = none ∧ rest.expected = some ids.endCmdid ∧
      given + 1 + rest.todo.length = requests.length ∧
      counter = cmdid ∧ cmdid = ids.startCmdid + given
  | .ringDoorbell cmdid rest =>
    rest.sem = none ∧ rest.expected = some ids.endCmdid ∧
      given + rest.todo.length = requests.length ∧
      counter = cmdid ∧ cmdid + 1 = ids.startCmdid + given
  | .idle => given = requests.length
  | .waitIoCompletion | .waitNotify _ => False

def Producer.taken : Producer → List Nat
  | .nextSubSlot _ cmdid _ => [cmdid]
  | _ => []

namespace System

def NoCall (_ : System) (event : Event) : Prop := ∀ call, event ≠ .call call

instance (s : System) (event : Event) : Decidable (NoCall s event) :=
  match event with
  | .call call => isFalse fun noCall => noCall call rfl
  | .producer | .fetch | .complete _ _ | .cq => isTrue fun _ same => Event.noConfusion same

/-- The commands that the call has written carry the first identifiers of its range. -/
structure Underway (ids : IdRange) (requests : List IoRequest) (earlier new : List Issued)
    (s : System) : Prop where
  issued : s.issued = earlier ++ new
  inOrder : new.map Issued.cmdid = List.range' ids.startCmdid new.length
  bound : s.q.cmdidCounter < 65536
  stage : Stage ids requests s.q.cmdidCounter new.length s.producer

section Call

variable {len : QueueLength} {s s' : System} {event : Event} {ids : IdRange}
  {requests : List IoRequest} {earlier new : List Issued}

/-- The identifier that the loop gets next is the next one of the range. -/
theorem alloc_next {c cmdid given : Nat} (spans : ids.Spans requests.length)
    (lt : c < 65536) (more : given < requests.length)
    (standing : given = 0 ∧ nextCmdid c = ids.startCmdid ∨
      c = cmdid ∧ cmdid + 1 = ids.startCmdid + given) :
    allocCmdid c = ids.startCmdid + given := by
  obtain ⟨rfl, first⟩ | ⟨rfl, later⟩ := standing
  · rw [allocCmdid_eq_nextCmdid lt, first, Nat.add_zero]
  · have inside := spans.exact
    have last := spans.bound
    rw [allocCmdid_eq lt, if_neg (by omega), later]

section

variable (underway : Underway ids requests earlier new s)
include underway

/-- A step of another party, or one that only moves the producer on. -/
theorem Underway.keep (issued : s'.issued = s.issued)
    (counter : s'.q.cmdidCounter = s.q.cmdidCounter)
    (stage : Stage ids requests s.q.cmdidCounter new.length s'.producer) :
    Underway ids requests earlier new s' :=
  ⟨issued.trans underway.issued, underway.inOrder, counter ▸ underway.bound,
    counter.symm ▸ stage⟩

theorem Underway.step (spans : ids.Spans requests.length) (noCall : NoCall s event)
    (move : Move len s event s') : ∃ new, Underway ids requests earlier new s' := by
  have stage := underway.stage
  cases move with
  | callWrap | callRange | callSingle | callWait => exact absurd rfl (noCall _)
  | spin => exact ⟨new, underway⟩
  | reset pc =>
    rw [pc] at stage
    obtain ⟨rfl, rfl, none, same⟩ := stage
    exact ⟨new, underway.issued, underway.inOrder, Nat.zero_lt_succ _, rfl, rfl, none, same,
      same ▸ rfl⟩
  | available pc | room pc =>
    rw [pc] at stage
    exact ⟨new, underway.keep rfl rfl stage⟩
  | store pc =>
    rw [pc] at stage
    obtain ⟨rfl, rfl, none, same, first⟩ := stage
    refine ⟨new, underway.keep rfl rfl ⟨rfl, same ▸ rfl, ?_, .inl ⟨none, first⟩⟩⟩
    rw [none, List.length_map, Nat.zero_add]
  | finish pc =>
    rw [pc] at stage
    obtain ⟨rfl, _, all, _⟩ := stage
    exact ⟨new, underway.keep rfl rfl all⟩
  | alloc pc =>
    rw [pc] at stage
    obtain ⟨sem, expected, count, standing⟩ := stage
    simp only [List.length_cons] at count
    have next := alloc_next spans underway.bound (by omega) standing
    exact ⟨new, underway.issued, underway.inOrder, allocCmdid_lt _, sem, expected,
      (Nat.add_right_comm _ 1 _).trans count, rfl, next⟩
  | @submit op cmdid _ _ _ pc =>
    rw [pc] at stage
    obtain ⟨sem, expected, count, counter, next⟩ := stage
    refine ⟨new ++ [⟨s.issued.length, op, cmdid⟩], ?_, ?_, underway.bound, sem, expected, ?_,
      counter, ?_⟩
    · rw [underway.issued, List.append_assoc]
    · rw [List.map_append, underway.inOrder, List.length_append, List.length_singleton,
        List.range'_1_concat, List.map_singleton, next]
    · rw [List.length_append, List.length_singleton, count]
    · rw [List.length_append, List.length_singleton, next, Nat.add_assoc]
  | ring pc =>
    rw [pc] at stage
    obtain ⟨sem, expected, count, standing⟩ := stage
    exact ⟨new, underway.keep rfl rfl ⟨sem, expected, count, .inr standing⟩⟩
  | drained pc | notified pc =>
    rw [pc] at stage
    exact stage.elim
  | fetch | complete | update | pop | popEnd | retire => exact ⟨new, underway.keep rfl rfl stage⟩

/-- No assertion of the call fails. -/
theorem Underway.goesOn (positive : 0 < requests.length) (spans : ids.Spans requests.length)
    (active : s.producer ≠ .idle) : (s.producerStep len).isSome := by
  have stage := underway.stage
  simp only [producerStep]
  generalize pc : s.producer = access at stage
  cases access with
  | idle => exact absurd pc active
  | resetCmdid b sem =>
    obtain ⟨rfl, rfl, _, same⟩ := stage
    have whole : nextCmdid 0 ≤ nextCmdidAfter 0 b.length := by
      rw [same] at spans
      have exact : nextCmdidAfter 0 b.length + 1 = nextCmdid 0 + b.length := spans.exact
      omega
    simp only
    split <;> rfl
  | checkAvailable | push | nextSubSlot | waitIoCompletion | waitNotify => dsimp only; split <;> rfl
  | store | ringDoorbell => rfl
  | issue cmdid rest =>
    obtain ⟨todo, expected, sem⟩ := rest
    obtain ⟨_, rfl, count, standing⟩ := stage
    cases todo with
    | cons op todo => simp [allocCmdid_pos]
    | nil =>
      have reached : ids.endCmdid = cmdid := by
        have exact := spans.exact
        simp only [List.length_nil] at count
        omega
      simp [reached]

/-- The identifiers taken so far are the first ones of the range. -/
theorem Underway.taken_in_order :
    new.map Issued.cmdid ++ s.producer.taken <+: List.range' ids.startCmdid requests.length := by
  have stage := underway.stage
  have front : ∀ {count : Nat}, count ≤ requests.length →
      List.range' ids.startCmdid count <+: List.range' ids.startCmdid requests.length := by
    intro count fits
    rw [← Nat.add_sub_cancel' fits, ← List.range'_append_1]
    exact List.prefix_append _ _
  rw [underway.inOrder]
  cases pc : s.producer <;> rw [pc] at stage
  case nextSubSlot op cmdid rest =>
    obtain ⟨_, _, count, _, next⟩ := stage
    rw [Producer.taken, next, ← List.range'_1_concat]
    exact front (by omega)
  all_goals
    simp only [Producer.taken, List.append_nil]
    apply front
  case idle => exact Nat.le_of_eq stage
  case resetCmdid | checkAvailable | push | store =>
    rw [stage.2.2.1]
    exact Nat.zero_le _
  case issue | ringDoorbell =>
    have count := stage.2.2.1
    omega
  case waitIoCompletion | waitNotify => exact stage.elim

end

theorem Underway.begin (idle : s.producer = .idle) (lt : s.q.cmdidCounter < 65536)
    (pos : 0 < requests.length) (short : requests.length < 0xffff) :
    ∃ called, s.step len (.call (.batch requests)) = some called ∧
      Underway (batchIds s.q.cmdidCounter requests.length) requests s.issued [] called := by
  obtain wraps | whole := Nat.lt_or_ge (nextCmdidAfter s.q.cmdidCounter requests.length)
    (nextCmdid s.q.cmdidCounter)
  · have move : Move len s (.call (.batch requests)) _ :=
      .callWrap idle rfl pos short wraps
    have again : batchIds s.q.cmdidCounter requests.length = predictIds 0 requests.length :=
      if_pos wraps
    exact ⟨_, move.step, (List.append_nil _).symm, rfl, lt, rfl, rfl, rfl, again⟩
  · have move : Move len s (.call (.batch requests)) _ :=
      .callRange idle rfl pos short whole
    have once : batchIds s.q.cmdidCounter requests.length =
        predictIds s.q.cmdidCounter requests.length := if_neg (Nat.not_lt.mpr whole)
    exact ⟨_, move.step, (List.append_nil _).symm, rfl, lt, rfl, rfl, rfl, once, once ▸ rfl⟩

theorem Underway.run {called : System} (spans : ids.Spans requests.length)
    (underway : Underway ids requests earlier new called)
    (run : Reaches (System.step len) NoCall called s) :
    ∃ new, Underway ids requests earlier new s :=
  run.invariant (motive := fun s => ∃ new, Underway ids requests earlier new s) ⟨new, underway⟩
    fun ⟨_, underway⟩ noCall step => underway.step spans noCall (step_move step)

end Call

/-- For every value of the counter and every length of a batch: the identifiers that
    `alloc_cmdid` returns in the call of `issue_async_io_batch` are those of the range predicted
    at its beginning, one after the other, and no assertion of the call fails. -/
theorem issue_async_io_batch_ids {len : QueueLength} {s : System} {requests : List IoRequest}
    (idle : s.producer = .idle) (bound : s.q.cmdidCounter < 65536)
    (positive : 0 < requests.length) (short : requests.length < 0xffff) :
    let ids := batchIds s.q.cmdidCounter requests.length
    ids.Spans requests.length ∧
      ∃ called, s.step len (.call (.batch requests)) = some called ∧
        ∀ s', Reaches (step len) NoCall called s' →
          ∃ new, s'.issued = s.issued ++ new ∧
            new.map Issued.cmdid ++ s'.producer.taken <+:
              List.range' ids.startCmdid requests.length ∧
            (s'.producer = .idle →
              new.map Issued.cmdid = List.range' ids.startCmdid requests.length) ∧
            (s'.producer ≠ .idle → (s'.producerStep len).isSome) := by
  intro ids
  have spans : ids.Spans requests.length := batchIds_spans bound positive short
  obtain ⟨called, call, first⟩ := Underway.begin idle bound positive short
  refine ⟨spans, called, call, fun s' run => ?_⟩
  obtain ⟨new, underway⟩ := first.run spans run
  refine ⟨new, underway.issued, underway.taken_in_order, fun returned => ?_,
    underway.goesOn positive spans⟩
  have stage := underway.stage
  rw [returned] at stage
  rw [underway.inOrder, show new.length = requests.length from stage]

/-- A new queue whose counter has come to two below the last identifier. -/
def nearEnd : System := { init with q := { IoQueue.init with cmdidCounter := 65533 } }

/-- A batch of three does not fit behind it, and gets the identifiers 1, 2 and 3. -/
theorem issue_async_io_batch_ids_near_end :
    batchIds nearEnd.q.cmdidCounter 3 = ⟨1, 3⟩ ∧
      ∃ called s', nearEnd.step ⟨8, by decide, by decide⟩
          (.call (.batch [oneRead, oneRead, oneRead])) = some called ∧
        Reaches (step ⟨8, by decide, by decide⟩) NoCall called s' ∧ s'.producer = .idle ∧
        s'.issued.map Issued.cmdid = [1, 2, 3] := by
  have executed : ∃ called ∈ nearEnd.step ⟨8, by decide, by decide⟩
      (.call (.batch [oneRead, oneRead, oneRead])), ∃ s' ∈ execute
        (step ⟨8, by decide, by decide⟩) NoCall (List.replicate 14 .producer) called,
      s'.producer = .idle := by
    decide
  obtain ⟨called, call, executed⟩ := executed
  obtain ⟨s', run, returned⟩ := exists_reaches_of_execute executed
  obtain ⟨_, called', call', ids⟩ := @issue_async_io_batch_ids ⟨8, by decide, by decide⟩ nearEnd
    [oneRead, oneRead, oneRead] rfl (by decide) (by decide) (by decide)
  obtain rfl := Option.some.inj (call'.symm.trans call)
  obtain ⟨new, issued, _, all, _⟩ := ids s' run
  refine ⟨rfl, called', s', call, run, returned, ?_⟩
  rw [issued]
  exact all returned

end System

end Xdk.Nvme
