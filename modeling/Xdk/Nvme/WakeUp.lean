import Xdk.Nvme.CompletionRing
import Xdk.Parasite.Interrupts

/-! # Waking the completion thread

The completion thread of a queue waits in `msi_proc_read` until the handler of its vector
has set `signalled`, clears the flag in a step of its own, and then takes completions
until the ring has no more.  One flag stands for any number of interrupts, and between
the test and the clearing another interrupt may come in.  No wake-up is lost because the
ring is drained after the flag has been cleared: an entry that the thread has left in the
ring was posted after the last look at it, and its handler run is yet to come or has set
the flag again.

What the thread sees in the ring is a question of the phase tags.  On the ring of 65536
entries, where the phase is not inverted, it can look at an entry and not see it.
-/

namespace Xdk.Nvme

open Xdk.Lib Xdk.Parasite

inductive CqWait where
  -- in the wait of `msi_proc_read`
  | waiting
  -- past the wait, about to clear `signalled`
  | clearing
  -- in the loop of `CQ_thread::entry`
  | draining
  deriving DecidableEq

/-- The ring, the wait queue of its vector, whether a run of the handler is due, and the
    completion thread. -/
structure WakeUp where
  ring : CompletionRing
  wq : InterruptWaitQueue
  due : Bool
  thread : CqWait
  foundCompletion : Bool

inductive WakeUpEvent where
  | post (entry : Completion)
  | handler
  | thread
  deriving DecidableEq

namespace WakeUp

def init (irq : Nat) : WakeUp := ⟨.init, ⟨irq, 0⟩, false, .waiting, false⟩

/-- `msi_threaded_irq_handler`, in the mode that does not mask. -/
def runHandler (s : WakeUp) : WakeUp :=
  { s with wq := (msiThreadedIrqHandler irqModeNonmasking (fun _ => 0) s.wq).2, due := false }

def entry (len : QueueLength) (s : WakeUp) : Option WakeUp :=
  match s.ring.q.getNextCompletion len.items with
  | none => none
  | some (some ccs, q) =>
    some { s with
      ring := { s.ring with
        q := (q.updateSqHead ccs).ringCompletionDoorbell
        returned := s.ring.returned ++ [ccs] }
      foundCompletion := true }
  | some (none, q) =>
    some { s with
      ring := { s.ring with q := if s.foundCompletion then q.ringCompletionDoorbell else q }
      thread := .waiting }

/-- A step of the completion thread; `none` in the wait means that it is blocked. -/
def threadStep (len : QueueLength) (s : WakeUp) : Option WakeUp :=
  match s.thread with
  | .waiting => if s.wq.signalled ≠ 0 then some { s with thread := .clearing } else none
  | .clearing =>
    some { s with
      wq := { s.wq with signalled := 0 }, thread := .draining, foundCompletion := false }
  | .draining => s.entry len

/-- The handler runs at some time after every post; it may run at other times as well. -/
def step (len : QueueLength) (s : WakeUp) : WakeUpEvent → Option WakeUp
  | .post entry => (s.ring.postAny len entry).map fun ring => { s with ring := ring, due := true }
  | .handler => some s.runHandler
  | .thread => s.threadStep len

abbrev Reachable (len : QueueLength) (irq : Nat) : WakeUp → Prop :=
  Reaches (step len) (fun _ _ => True) (init irq)

/-- The thread is blocked in `msi_proc_read` and no run of the handler will wake it. -/
structure Asleep (s : WakeUp) : Prop where
  waiting : s.thread = .waiting
  clear : s.wq.signalled = 0
  idle : s.due = false

variable {len : QueueLength} {s s' : WakeUp}

/-- `entry` takes a step of the ring; besides that it sets the submission head and the
    doorbell. -/
theorem entry_ring (step : s.entry len = some s') :
    ∃ ring sqHead cqDb, s.ring.step len .getNextCompletion = some ring ∧
      s'.ring = { ring with q := { ring.q with sqHead := sqHead, cqDb := cqDb } } := by
  simp only [entry] at step
  split at step
  · cases step
  · rename_i ccs q taken
    cases step
    simp only [CompletionRing.step, taken]
    exact ⟨_, ccs.sqHdptr, q.cqHead, rfl, rfl⟩
  · rename_i q null
    cases step
    simp only [CompletionRing.step, null]
    refine ⟨_, q.sqHead, if s.foundCompletion then q.cqHead else q.cqDb, rfl, ?_⟩
    split <;> rfl

/-! ## The thread does not sleep over an entry that it would see -/

def Visible (s : WakeUp) : Prop := (s.ring.q.compCmd s.ring.q.cqHead).phaseTag = s.ring.q.cqPhase

/-- As long as there is an entry to take, the thread is on its way to look, or something
    will make it look. -/
def Attended (s : WakeUp) : Prop :=
  s.Visible → s.due = true ∨ s.wq.signalled ≠ 0 ∨ s.thread ≠ .waiting

theorem attended_of_entry (draining : s.thread = .draining) (step : s.entry len = some s') :
    s'.Attended := by
  simp only [WakeUp.entry] at step
  split at step
  · cases step
  · cases step
    exact fun _ => .inr (.inr (by simp [draining]))
  · rename_i q null
    cases step
    obtain ⟨rfl, old⟩ := CompletionQueue.getNextCompletion_null_iff.mp null
    intro visible
    refine absurd ?_ old
    split at visible <;> exact visible

/-- Every step leads to such a state, whatever was before: a post makes a handler run
    due, and the thread goes to wait only after a look at the ring. -/
theorem attended_of_step {ev : WakeUpEvent} (step : s.step len ev = some s') : s'.Attended := by
  cases ev with
  | post entry =>
    obtain ⟨ring, posted, rfl⟩ := Option.map_eq_some_iff.mp step
    exact fun _ => .inl rfl
  | handler =>
    cases step
    exact fun _ => .inr (.inl Nat.one_ne_zero)
  | thread =>
    simp only [WakeUp.step, threadStep] at step
    cases thread : s.thread with
    | waiting =>
      simp only [thread] at step
      split_ifs at step
      cases step
      exact fun _ => .inr (.inr (by simp))
    | clearing =>
      simp only [thread] at step
      cases step
      exact fun _ => .inr (.inr (by simp))
    | draining =>
      simp only [thread] at step
      exact attended_of_entry thread step

theorem Reachable.attended {irq : Nat} (run : Reachable len irq s) : s.Attended := by
  refine run.invariant ?_ fun _ _ step => attended_of_step step
  intro visible
  cases visible

theorem Asleep.not_visible {irq : Nat} (run : Reachable len irq s) (asleep : Asleep s) :
    ¬ s.Visible := by
  intro visible
  obtain due | signalled | elsewhere := Reachable.attended run visible
  · simp [asleep.idle] at due
  · exact signalled asleep.clear
  · exact elsewhere asleep.waiting

/-! ## Shorter rings: every entry posted is seen -/

section Phased

variable {len : QueueLength} {irq : Nat} {s s' : WakeUp}

theorem phased_registers {ring : CompletionRing} (phased : ring.Phased len) (sqHead cqDb : Nat) :
    CompletionRing.Phased len
      { ring with q := { ring.q with sqHead := sqHead, cqDb := cqDb } } :=
  ⟨phased.returned, phased.ahead, phased.room, phased.head, phased.phase, phased.tags,
    phased.held, phased.stale⟩

theorem phased_step {ev : WakeUpEvent} (short : len.items < 65536)
    (phased : s.ring.Phased len) (step : s.step len ev = some s') : s'.ring.Phased len := by
  cases ev with
  | post entry =>
    obtain ⟨ring, posted, rfl⟩ := Option.map_eq_some_iff.mp step
    exact phased.postAny posted
  | handler =>
    cases step
    exact phased
  | thread =>
    simp only [WakeUp.step, threadStep] at step
    split at step
    · split_ifs at step
      cases step
      exact phased
    · cases step
      exact phased
    · obtain ⟨ring, sqHead, cqDb, taken, same⟩ := entry_ring step
      rw [same]
      exact phased_registers (phased.getNextCompletion (.inl short) taken) sqHead cqDb

theorem Asleep.consumed (short : len.items < 65536) (run : Reachable len irq s)
    (asleep : Asleep s) : s.ring.returned = s.ring.posted := by
  have phased : s.ring.Phased len :=
    run.invariant (motive := fun s => s.ring.Phased len) (CompletionRing.phased_init len)
      fun phased _ step => phased_step short phased step
  have notBehind : ¬ s.ring.returned.length < s.ring.posted.length :=
    fun behind => asleep.not_visible run (phased.visible behind).2
  rw [phased.returned, List.take_of_length_le (Nat.not_lt.mp notBehind)]

end Phased

/-! ## The longest ring -/

section Longest

variable {len : QueueLength} {irq : Nat} {s : WakeUp}

theorem tagged_entry {s' : WakeUp} (fits : s.ring.returned.length + 1 < len.items)
    (tagged : s.ring.Tagged len) (step : s.entry len = some s') : s'.ring.Tagged len := by
  obtain ⟨ring, sqHead, cqDb, taken, same⟩ := entry_ring step
  have tagged' := tagged.getNextCompletion (.inr fits) taken
  rw [same]
  exact ⟨phased_registers tagged'.toPhased sqHead cqDb, tagged'.successes⟩

/-- A completion is posted and its handler runs, wherever the thread is. -/
theorem exists_post_handled (run : Reachable len irq s)
    (room : s.ring.posted.length + 1 < s.ring.returned.length + len.items) :
    ∃ s', Reachable len irq s' ∧ s.ring.post len .zeroed = some s'.ring ∧
      s'.ring.posted.length = s.ring.posted.length + 1 ∧ s'.ring.returned = s.ring.returned ∧
      s'.thread = s.thread ∧ s'.due = false ∧ s'.wq.signalled = 1 := by
  obtain ⟨ring, posted, longer, same⟩ := CompletionRing.exists_post len s.ring room
  have post : s.step len (.post .zeroed) = some { s with ring := ring, due := true } := by
    simp only [step]
    rw [(CompletionRing.post_eq_some_iff.mp posted).2]
    rfl
  have handler : step len { s with ring := ring, due := true } .handler =
      some (runHandler { s with ring := ring, due := true }) := rfl
  exact ⟨_, .next (.next run trivial post) trivial handler, posted, longer, same, rfl, rfl, rfl⟩

/-- A reachable state in which the thread drains the ring and every handler has run. -/
structure Drains (len : QueueLength) (irq returned posted : Nat) (s : WakeUp) : Prop where
  run : Reachable len irq s
  draining : s.thread = .draining
  idle : s.due = false
  returned : s.ring.returned.length = returned
  posted : s.ring.posted.length = posted

variable {returned posted : Nat}

theorem Drains.post (drains : Drains len irq returned posted s) (tagged : s.ring.Tagged len)
    (room : posted + 1 < returned + len.items) :
    ∃ s', Drains len irq returned (posted + 1) s' ∧ s'.ring.Tagged len := by
  obtain ⟨s', run, post, longer, same, thread, idle, _⟩ :=
    exists_post_handled drains.run (by rw [drains.posted, drains.returned]; exact room)
  refine ⟨s', ⟨run, ?_, idle, ?_, ?_⟩, tagged.post post⟩
  · rw [thread, drains.draining]
  · rw [same, drains.returned]
  · rw [longer, drains.posted]

/-- The thread takes the next completion. -/
theorem Drains.take (drains : Drains len irq returned posted s) (tagged : s.ring.Tagged len)
    (behind : returned < posted) :
    ∃ s' sqHead cqDb, Drains len irq (returned + 1) posted s' ∧ s.entry len = some s' ∧
      s'.ring.q = { s.ring.q.incrementCompletionHead len.items with
        sqHead := sqHead, cqDb := cqDb } := by
  have taken := (tagged.getNextCompletion_some
    (by rw [drains.returned, drains.posted]; exact behind)).2
  have made : s.step len .thread = s.entry len := by
    simp only [step, threadStep, drains.draining]
  simp only [entry, taken] at made ⊢
  refine ⟨_, _, _, ⟨.next drains.run trivial made, drains.draining, drains.idle, ?_,
    drains.posted⟩, rfl, rfl⟩
  simp [drains.returned]

/-- The thread is woken for the first completion. -/
theorem exists_drains_first (len : QueueLength) (irq : Nat) (room : 1 < len.items) :
    ∃ s, Drains len irq 0 1 s ∧ s.ring.Tagged len := by
  have start : Reachable len irq (init irq) := .refl
  obtain ⟨s, run, post, posted, same, waiting, idle, signalled⟩ :=
    exists_post_handled start (by simpa [init, CompletionRing.init] using room)
  have wake : s.step len .thread = some { s with thread := .clearing } := by
    simp only [step, threadStep, waiting, signalled]
    rfl
  have clear : step len { s with thread := .clearing } .thread = some { s with
      wq := { s.wq with signalled := 0 }, thread := .draining, foundCompletion := false } := rfl
  refine ⟨_, ⟨.next (.next run trivial wake) trivial clear, rfl, idle, ?_, posted⟩,
    (CompletionRing.tagged_init len).post post⟩
  rw [same]
  rfl

/-- Completions are taken and posted one at a time, up to the last slot of the ring. -/
theorem exists_drains (len : QueueLength) (irq : Nat) (room : 1 < len.items) (c : Nat)
    (lt : c < len.items) :
    ∃ s, Drains len irq c (c + 1) s ∧ s.ring.Tagged len := by
  induction c with
  | zero => exact exists_drains_first len irq room
  | succ c ih =>
    obtain ⟨s, drains, tagged⟩ := ih (by omega)
    obtain ⟨s', _, _, drains', taken, _⟩ := drains.take tagged (by omega)
    have fits : s.ring.returned.length + 1 < len.items := by
      rw [drains.returned]
      exact lt
    exact drains'.post (tagged_entry fits tagged taken) (by omega)

/-- At a slot that looks old the thread goes back to wait. -/
theorem Drains.wait (drains : Drains len irq returned posted s) (old : ¬ s.Visible) :
    ∃ s', Reachable len irq s' ∧ s'.thread = .waiting ∧ s'.due = false ∧ s'.wq = s.wq ∧
      s'.ring.returned.length = returned ∧ s'.ring.posted.length = posted ∧ ¬ s'.Visible := by
  have null : s.ring.q.getNextCompletion len.items = some (none, s.ring.q) :=
    CompletionQueue.getNextCompletion_null_iff.mpr ⟨rfl, old⟩
  have made : s.step len .thread = s.entry len := by
    simp only [step, threadStep, drains.draining]
  simp only [entry, null] at made
  refine ⟨_, .next drains.run trivial made, rfl, drains.idle, rfl, drains.returned,
    drains.posted, ?_⟩
  intro visible
  refine old ?_
  split at visible <;> exact visible

/-- There it stays: a flag that was set meanwhile makes it look once more. -/
theorem Drains.exists_asleep (drains : Drains len irq returned posted s) (old : ¬ s.Visible) :
    ∃ s', Reachable len irq s' ∧ Asleep s' ∧ s'.ring.returned.length = returned ∧
      s'.ring.posted.length = posted := by
  obtain ⟨s₁, run₁, waiting₁, idle₁, _, returned₁, posted₁, old₁⟩ := drains.wait old
  by_cases clear : s₁.wq.signalled = 0
  · exact ⟨s₁, run₁, ⟨waiting₁, clear, idle₁⟩, returned₁, posted₁⟩
  · have wake : s₁.step len .thread = some { s₁ with thread := .clearing } := by
      simp only [step, threadStep, waiting₁]
      rw [if_pos clear]
    have cleared : step len { s₁ with thread := .clearing } .thread = some { s₁ with
        wq := { s₁.wq with signalled := 0 }, thread := .draining,
        foundCompletion := false } := rfl
    have again : Drains len irq returned posted _ :=
      ⟨.next (.next run₁ trivial wake) trivial cleared, rfl, idle₁, returned₁, posted₁⟩
    obtain ⟨s₂, run₂, waiting₂, idle₂, same, returned₂, posted₂, _⟩ := again.wait old₁
    exact ⟨s₂, run₂, ⟨waiting₂, by rw [same], idle₂⟩, returned₂, posted₂⟩

/-- On a ring of 65536 entries the thread takes the 65536-th completion when the next one
    is in the ring already, and goes to sleep before that one. -/
theorem exists_asleep_unconsumed (len : QueueLength) (irq : Nat) (longest : len.items = 65536) :
    ∃ s, Reachable len irq s ∧ Asleep s ∧ s.ring.returned.length = 65536 ∧
      s.ring.posted.length = 65537 := by
  obtain ⟨s, drains, tagged⟩ := exists_drains len irq (by omega) 65535 (by omega)
  obtain ⟨s₁, drains₁, tagged₁⟩ := drains.post tagged (by omega)
  obtain ⟨s₂, sqHead, cqDb, drains₂, _, registers⟩ := drains₁.take tagged₁ (by omega)
  have head : s₁.ring.q.cqHead = 65535 := by
    rw [tagged₁.head, drains₁.returned, longest]
  have phase : s₁.ring.q.cqPhase = 1 := by
    rw [tagged₁.phase, drains₁.returned, longest]
    rfl
  -- the entry in slot 0 belongs to the second lap
  have tag : (s₁.ring.q.compCmd 0).phaseTag = 0 := by
    have held := tagged₁.held 65536 (by rw [drains₁.returned]; omega)
      (by rw [drains₁.posted]; omega)
    have tag := tagged₁.tags _ _ held
    rw [longest] at tag
    exact tag
  -- 65535 + 1 is 0 in sixteen bits, and not 65536
  have wrapped : s₁.ring.q.incrementCompletionHead len.items = { s₁.ring.q with cqHead := 0 } := by
    simp only [CompletionQueue.incrementCompletionHead, head, longest]
    rfl
  have old : ¬ s₂.Visible := by
    rw [Visible, registers, wrapped]
    simp [tag, phase]
  exact drains₂.exists_asleep old

end Longest

/-- No wake-up is lost on any ring shorter than 65536 entries, and only on those: whenever
    the thread is blocked, the flag is clear and no handler run is due, it has consumed
    every completion posted. -/
theorem no_lost_wake_up_iff (len : QueueLength) (irq : Nat) :
    (∀ s, Reachable len irq s → Asleep s → s.ring.returned = s.ring.posted) ↔
      len.items < 65536 := by
  constructor
  · intro consumed
    by_contra notShort
    obtain ⟨s, run, asleep, returned, posted⟩ :=
      exists_asleep_unconsumed len irq (Nat.le_antisymm len.le (Nat.not_lt.mp notShort))
    rw [consumed s run asleep] at returned
    omega
  · exact fun short s run asleep => asleep.consumed short run

/-- On the longest ring the device allows, the thread sleeps over the 65537-th. -/
theorem wake_up_lost_on_longest_ring :
    ∃ s, Reachable ⟨65536, by decide, by decide⟩ 40 s ∧ Asleep s ∧
      s.ring.returned.length = 65536 ∧ s.ring.posted.length = 65537 :=
  exists_asleep_unconsumed _ 40 rfl

end WakeUp

end Xdk.Nvme
