import Xdk.Nvme.CompletionRing

/-! # The completion doorbell

The value the driver writes to the completion doorbell tells the controller which entry
it will consume next, and so which ones are free again.  `CQ_thread::entry` takes an
entry, which moves the head, and then rings; `ring_doorbell_single_completion` of the
admin queue rings first and moves the head afterwards, so that the controller always
lacks the acknowledgement of the last entry.
-/

namespace Xdk.Nvme

open Xdk.Lib

def adminQueueLen : QueueLength := ⟨64, by decide, by decide⟩

inductive QueueKind where
  | admin
  | io (len : QueueLength)

namespace QueueKind

def length : QueueKind → QueueLength
  | .admin => adminQueueLen
  | .io len => len

def isIo : QueueKind → Bool
  | .admin => false
  | .io _ => true

end QueueKind

/-- The thread that handles completions: its half of the ring, `found_completion`, and how
    many completions it has handled. -/
structure Handler where
  q : CompletionQueue
  foundCompletion : Bool
  handled : Nat

inductive HandlerEvent where
  | controller (compCmd : Nat → Completion)
  | handle

namespace Handler

def init : Handler := ⟨.init, false, 0⟩

/-- One turn of the loop of `CQ_thread::entry`.  With `NULL` the loop ends, and what
    follows is the next interrupt. -/
def entry (queueMaxItems : Nat) (s : Handler) : Option Handler :=
  match s.q.getNextCompletion queueMaxItems with
  | none => none
  | some (some ccs, q) =>
    some ⟨(q.updateSqHead ccs).ringCompletionDoorbell, true, s.handled + 1⟩
  | some (none, q) =>
    some ⟨if s.foundCompletion then q.ringCompletionDoorbell else q, false, s.handled⟩

def handle (kind : QueueKind) (s : Handler) : Option Handler :=
  match kind with
  | .io len => s.entry len.items
  | .admin => some { s with
      q := s.q.ringDoorbellSingleCompletion adminQueueLen.items
      handled := s.handled + 1 }

def step (kind : QueueKind) (s : Handler) : HandlerEvent → Option Handler
  | .controller compCmd => some { s with q := { s.q with compCmd := compCmd } }
  | .handle => s.handle kind

abbrev Reachable (kind : QueueKind) : Handler → Prop :=
  Reaches (step kind) (fun _ _ => True) init

/-- On both kinds of queues the head counts the completions handled; the doorbell has the
    head of an IO queue, and on the admin queue the head before the last completion. -/
structure Acknowledged (kind : QueueKind) (s : Handler) : Prop where
  head : s.q.cqHead = s.handled % kind.length.items
  doorbell : 0 < s.handled →
    s.q.cqDb = (if kind.isIo then s.handled else s.handled - 1) % kind.length.items

theorem acknowledged_init (kind : QueueKind) : Acknowledged kind init :=
  ⟨(Nat.zero_mod _).symm, fun pos => absurd pos (Nat.lt_irrefl 0)⟩

variable {s : Handler}

theorem Acknowledged.admin (acknowledged : Acknowledged .admin s) :
    Acknowledged .admin { s with
      q := s.q.ringDoorbellSingleCompletion adminQueueLen.items
      handled := s.handled + 1 } := by
  have rings : (s.q.ringDoorbellSingleCompletion adminQueueLen.items).cqDb = s.q.cqHead := by
    simp only [CompletionQueue.ringDoorbellSingleCompletion,
      CompletionQueue.incrementCompletionHead]
    split <;> rfl
  refine ⟨?_, fun _ => ?_⟩
  · exact CompletionQueue.incrementCompletionHead_head acknowledged.head
  · rw [rings]
    exact acknowledged.head

theorem Acknowledged.io {len : QueueLength} {s' : Handler} (acknowledged : Acknowledged (.io len) s)
    (step : s.entry len.items = some s') :
    Acknowledged (.io len) s' := by
  simp only [entry] at step
  split at step
  · cases step
  · rename_i ccs q taken
    cases step
    obtain ⟨_, rfl⟩ := CompletionQueue.getNextCompletion_some taken
    have head := CompletionQueue.incrementCompletionHead_head acknowledged.head
    exact ⟨head, fun _ => head⟩
  · rename_i q null
    cases step
    obtain rfl := CompletionQueue.getNextCompletion_none null
    split
    · exact ⟨acknowledged.head, fun _ => acknowledged.head⟩
    · exact ⟨acknowledged.head, acknowledged.doorbell⟩

theorem Reachable.acknowledged {kind : QueueKind} (run : Reachable kind s) :
    Acknowledged kind s := by
  refine run.invariant (acknowledged_init kind) ?_
  intro before after ev acknowledged _ step
  cases ev with
  | controller compCmd =>
    cases step
    exact ⟨acknowledged.head, acknowledged.doorbell⟩
  | handle =>
    cases kind with
    | admin =>
      cases step
      exact acknowledged.admin
    | io len => exact acknowledged.io step

/-- After every completion handled, whatever is in the ring, the doorbell tells the
    controller the index of the next entry to consume exactly when the queue is an IO
    queue. -/
theorem completion_doorbell_iff {kind : QueueKind} {s : Handler} (run : Reachable kind s)
    (positive : 0 < s.handled) :
    s.q.cqDb = s.handled % kind.length.items ↔ kind.isIo = true := by
  rw [(Reachable.acknowledged run).doorbell positive]
  cases kind with
  | io len => simp [QueueKind.isIo]
  | admin =>
    simp only [QueueKind.isIo, QueueKind.length, adminQueueLen]
    have apart : (s.handled - 1) % 64 ≠ s.handled % 64 := by omega
    simp [apart]

/-- One completion on an IO queue of four entries. -/
theorem completion_doorbell_io_one :
    ∃ s, Reachable (.io ⟨4, by decide, by decide⟩) s ∧ s.handled = 1 ∧ s.q.cqDb = 1 := by
  have executed : ∃ s ∈ execute (step (.io ⟨4, by decide, by decide⟩)) (fun _ _ => True)
      [.controller fun _ => { Completion.zeroed with phaseTag := 1 }, .handle] init,
      s.handled = 1 := by
    decide
  obtain ⟨s, run, one⟩ := exists_reaches_of_execute executed
  have doorbell := (completion_doorbell_iff run (by omega)).mpr rfl
  rw [one] at doorbell
  exact ⟨s, run, one, doorbell⟩

/-- After the first command on the admin queue the doorbell still says 0. -/
theorem completion_doorbell_admin_one :
    ∃ s, Reachable .admin s ∧ s.handled = 1 ∧ s.q.cqDb ≠ s.handled % adminQueueLen.items :=
  ⟨_, .next .refl trivial (rfl : step .admin init .handle = some _), rfl, by decide⟩

end Handler

end Xdk.Nvme
