import Xdk.Nvme.Ledger

/-! # Well-formed ledgers

Facts about a single batch and about the range the producer is working on, which hold
in every run, whatever is called: ranges are proper and lie in `1 .. 65535`, a batch
counts at most as many completions as it has commands, and the identifiers still to be
taken from the counter are exactly the rest of the range of the batch being issued.
-/

namespace Xdk.Nvme

open Xdk.Lib

structure BatchInfo.Proper (batch : BatchInfo) : Prop where
  start_pos : 0 < batch.startCmdid
  ordered : batch.startCmdid ≤ batch.endCmdid
  end_lt : batch.endCmdid < 65536
  counter_le : batch.counter ≤ batch.total
  total_lt : batch.total < 65535

theorem BatchInfo.Proper.countUp {b inv : BatchInfo} (proper : b.Proper)
    (counts : b.countUp = some inv) :
    inv.Proper ∧ inv.range = b.range ∧ inv.total = b.total ∧
      inv.counter = b.counter + 1 := by
  obtain ⟨shape, inBounds⟩ := countUp_eq counts
  have counter : inv.counter = b.counter + 1 := by
    rw [shape]
    have := proper.counter_le
    have := proper.total_lt
    exact u16_of_lt (by omega)
  refine ⟨?_, range_countUp counts, by rw [shape], counter⟩
  rw [shape] at inBounds ⊢
  exact { proper with counter_le := inBounds }

structure Claim (counter first final length : Nat) : Prop where
  first_eq : first = nextCmdid counter
  ordered : first ≤ final
  length_eq : final + 1 = first + length
  final_lt : final < 65536
  short : length < 65535

theorem Claim.of_whole {c : Nat} {reqs : List IoRequest} (lt : c < 65536)
    (b : Ledger.Batch reqs)
    (whole : nextCmdid c ≤ nextCmdidAfter c reqs.length) :
    Claim c (nextCmdid c) (nextCmdidAfter c reqs.length) reqs.length where
  first_eq := rfl
  ordered := whole
  length_eq := nextCmdidAfter_eq_add lt b.1 b.2 whole
  final_lt := nextCmdidAfter_lt _ _
  short := b.2

theorem Claim.proper {c first final len : Nat} (claim : Claim c first final len) :
    (System.batchInfo first final len).Proper where
  start_pos := claim.first_eq ▸ nextCmdid_pos c
  ordered := claim.ordered
  end_lt := claim.final_lt
  counter_le := Nat.zero_le _
  total_lt := by
    have := claim.short
    simp only [System.batchInfo]
    rw [u16_of_lt (by omega)]
    exact this

def Phase.Proper (counter : Nat) : Phase → Prop
  | .rest | .issuing _ none => True
  | .resetting requests => Ledger.Batch requests
  | .claiming first final requests | .granted first final requests =>
    Claim counter first final requests.length
  | .issuing [] (some final) => counter = final
  | .issuing (_ :: todo) (some final) => nextCmdid counter + todo.length = final ∧ final < 65536
  | .submitting _ cmdid _ none => cmdid = counter
  | .submitting _ cmdid todo (some final) =>
    cmdid = counter ∧ counter + todo.length = final ∧ final < 65536

namespace Ledger

structure Proper (l : Ledger) : Prop where
  counter_lt : l.counter < 65536
  batches : ∀ batch ∈ l.batches, batch.Proper
  leaving : ∀ batch, l.thread = .leaving batch → batch.Proper
  phase : l.phase.Proper l.counter

theorem proper_init : System.init.ledger.Proper := by
  refine ⟨by decide, ?_, ?_, trivial⟩
  · intro b mem
    cases mem
  · intro b leaves
    cases leaves

/-- A pushed batch has an operation to issue, and the counter stands before its range. -/
theorem Claim.issuing {counter first final : Nat} {reqs : List IoRequest}
    (claim : Claim counter first final reqs.length) :
    (Phase.issuing (reqs.map .rw) (some final)).Proper counter := by
  obtain ⟨firstEq, ordered, lengthEq, finalLt, _⟩ := claim
  cases reqs with
  | nil =>
    simp only [List.length_nil] at lengthEq
    omega
  | cons request reqs =>
    simp only [List.length_cons] at lengthEq
    simp only [Phase.Proper, List.map_cons, List.length_map]
    omega

theorem Proper.alloc {l : Ledger} {op : Op} {todo : List Op} {expected : Option Nat}
    (proper : l.Proper) (pc : l.phase = .issuing (op :: todo) expected) :
    (Phase.submitting op (allocCmdid l.counter) todo expected).Proper (allocCmdid l.counter) := by
  have phase := proper.phase
  rw [pc] at phase
  cases expected with
  | none => rfl
  | some final =>
    obtain ⟨total, lt⟩ := phase
    refine ⟨rfl, ?_, lt⟩
    rwa [allocCmdid_eq_nextCmdid proper.counter_lt]

theorem Proper.submit {l : Ledger} {op : Op} {cmdid : Nat} {todo : List Op}
    {expected : Option Nat} (proper : l.Proper)
    (pc : l.phase = .submitting op cmdid todo expected) :
    (Phase.issuing todo expected).Proper l.counter := by
  have phase := proper.phase
  rw [pc] at phase
  cases expected with
  | none => cases todo <;> trivial
  | some final =>
    obtain ⟨_, total, lt⟩ := phase
    cases todo with
    | nil => exact total
    | cons next todo =>
      simp only [List.length_cons] at total
      refine ⟨?_, lt⟩
      rw [nextCmdid_eq proper.counter_lt, if_neg (by omega)]
      omega

theorem Proper.count {l : Ledger} {before after : List BatchInfo} {b inv : BatchInfo}
    (proper : l.Proper) (held : l.batches = before ++ b :: after)
    (counts : b.countUp = some inv) :
    ∀ o ∈ before ++ inv :: after, o.Proper := by
  have batches := proper.batches
  rw [held] at batches
  simp only [List.mem_append, List.mem_cons] at batches ⊢
  rintro o (member | rfl | member)
  · exact batches o (.inl member)
  · exact ((batches b (.inr (.inl rfl))).countUp counts).1
  · exact batches o (.inr (.inr member))

theorem Proper.step {l l' : Ledger} {ev : Event} (proper : l.Proper)
    (step : Step l ev l') : l'.Proper := by
  have phase := proper.phase
  cases step with
  | stutter => exact proper
  | beginWrap _ b => exact { proper with phase := b }
  | beginRange _ b whole =>
    exact { proper with phase := Claim.of_whole proper.counter_lt b whole }
  | beginSingle | finish => exact { proper with phase := trivial }
  | reset pc _ whole =>
    rw [pc] at phase
    exact { proper with
      counter_lt := Nat.zero_lt_succ _
      phase := Claim.of_whole (Nat.zero_lt_succ _) phase whole }
  | grant pc =>
    rw [pc] at phase
    exact { proper with phase := phase }
  | push pc =>
    rw [pc] at phase
    refine { proper with batches := ?_, phase := Claim.issuing phase }
    simp only [List.mem_append, List.mem_singleton]
    rintro b (mem | rfl)
    · exact proper.batches b mem
    · exact Claim.proper phase
  | alloc pc => exact { proper with counter_lt := allocCmdid_lt _, phase := proper.alloc pc }
  | submit pc => exact { proper with phase := proper.submit pc }
  | complete | ignore | popEnd | retire => exact { proper with leaving := by simp }
  | count pc held _ _ counts =>
    refine { proper with batches := proper.count held counts, leaving := ?_ }
    intro b leaves
    split at leaves <;> cases leaves
  | pop pc held =>
    have batches := proper.batches
    rw [held] at batches
    refine { proper with
      batches := fun b mem => batches b (.tail _ mem)
      leaving := ?_ }
    rintro _ ⟨⟩
    exact batches _ (.head _)

end Ledger

theorem System.Reachable.proper {len : QueueLength} {ok : System → Event → Prop}
    {s : System} (run : Reachable len ok s) : s.ledger.Proper :=
  Reachable.ledger_invariant run Ledger.proper_init fun proper _ step => proper.step step

/-- The invariant rule for facts about well-formed ledgers. -/
theorem System.Reachable.proper_invariant {len : QueueLength} {ok : System → Event → Prop}
    {s : System} {motive : Ledger → Prop} (run : Reachable len ok s)
    (initial : motive init.ledger)
    (preserved : ∀ {before : System} {ev : Event} {after : Ledger}, before.ledger.Proper →
      motive before.ledger → ok before ev → Ledger.Step before.ledger ev after →
      motive after) : motive s.ledger := by
  have both : s.ledger.Proper ∧ motive s.ledger :=
    Reachable.ledger_invariant run (motive := fun l => l.Proper ∧ motive l)
      ⟨Ledger.proper_init, initial⟩ fun invariant permitted step =>
        ⟨invariant.1.step step, preserved invariant.1 invariant.2 permitted step⟩
  exact both.2

end Xdk.Nvme
