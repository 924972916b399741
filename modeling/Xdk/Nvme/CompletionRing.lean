import Xdk.Nvme.IoQueue

/-! # The completion ring

The controller posts completions into consecutive slots of the completion ring and marks
each with a phase tag that is inverted on every pass over the ring.  The driver knows a
new entry by the tag: `get_next_completion` compares it with `_cq_phase`, which
`increment_completion_head` inverts when the head comes back to slot 0.

The head has sixteen bits and the length of the ring does not fit into sixteen bits when
it is 65536, so on the longest ring the comparison that inverts the phase never holds.
-/

namespace Xdk.Nvme

open Xdk.Lib

structure Completion where
  dw0 : Nat
  dw1 : Nat
  sqHdptr : Nat
  sqId : Nat
  commandId : Nat
  phaseTag : Nat
  status : Nat
  deriving DecidableEq, Repr

def Completion.zeroed : Completion := ⟨0, 0, 0, 0, 0, 0, 0⟩

/-- The part of `NVME_queues_base` that completion uses; `cqDb` is the value last written
    to the completion doorbell. -/
structure CompletionQueue where
  cqHead : Nat
  cqPhase : Nat
  sqHead : Nat
  cqDb : Nat
  compCmd : Nat → Completion

namespace CompletionQueue

def init : CompletionQueue := ⟨0, 1, 0, 0, fun _ => .zeroed⟩

def incrementCompletionHead (queueMaxItems : Nat) (q : CompletionQueue) : CompletionQueue :=
  let cqHead := u16 (q.cqHead + 1)
  if cqHead = queueMaxItems then
    { q with cqHead := 0, cqPhase := if q.cqPhase = 0 then 1 else 0 }
  else { q with cqHead := cqHead }

def ringCompletionDoorbell (q : CompletionQueue) : CompletionQueue := { q with cqDb := q.cqHead }

def updateSqHead (q : CompletionQueue) (entry : Completion) : CompletionQueue :=
  { q with sqHead := entry.sqHdptr }

def updateAdminSqHead (q : CompletionQueue) : CompletionQueue := { q with sqHead := q.cqHead }

def ringDoorbellSingleCompletion (queueMaxItems : Nat) (q : CompletionQueue) : CompletionQueue :=
  (q.updateAdminSqHead.ringCompletionDoorbell).incrementCompletionHead queueMaxItems

/-- The assertions on a status: only the generic type with code 0 passes. -/
def statusPasses (status : Nat) : Bool :=
  status = 0 || status / 256 % 8 = 0 && status % 256 = 0

/-- `get_next_completion`: `none` is a failed assertion, `some none` the result `NULL`. -/
def getNextCompletion (queueMaxItems : Nat) (q : CompletionQueue) :
    Option (Option Completion × CompletionQueue) :=
  let slot := q.compCmd q.cqHead
  if slot.phaseTag ≠ q.cqPhase then some (none, q)
  else if statusPasses slot.status then some (some slot, q.incrementCompletionHead queueMaxItems)
  else none

variable {queueMaxItems : Nat} {q q' : CompletionQueue}

theorem getNextCompletion_some {e : Completion}
    (taken : q.getNextCompletion queueMaxItems = some (some e, q')) :
    e = q.compCmd q.cqHead ∧ q' = q.incrementCompletionHead queueMaxItems := by
  simp only [getNextCompletion] at taken
  split at taken
  · cases taken
  · split_ifs at taken
    cases taken
    exact ⟨rfl, rfl⟩

theorem getNextCompletion_visible {e : Completion}
    (taken : q.getNextCompletion queueMaxItems = some (some e, q')) :
    (q.compCmd q.cqHead).phaseTag = q.cqPhase := by
  simp only [getNextCompletion] at taken
  split at taken
  · cases taken
  · rename_i new
    exact Decidable.not_not.mp new

theorem getNextCompletion_null_iff :
    q.getNextCompletion queueMaxItems = some (none, q') ↔
      q = q' ∧ (q.compCmd q.cqHead).phaseTag ≠ q.cqPhase := by
  simp only [getNextCompletion]
  split
  · simp_all
  · split <;> simp_all

theorem getNextCompletion_none (null : q.getNextCompletion queueMaxItems = some (none, q')) :
    q' = q :=
  (getNextCompletion_null_iff.mp null).1.symm

end CompletionQueue

/-! ## Phases -/

/-- The phase tag of the entry at a position of the sequence of completions. -/
def phaseAt (size position : Nat) : Nat := if position / size % 2 = 0 then 1 else 0

variable {size : Nat}

theorem phaseAt_next_lap (pos : 0 < size) (position : Nat) :
    phaseAt size (position + size) ≠ phaseAt size position := by
  simp only [phaseAt, Nat.add_div_right _ pos]
  split <;> split <;> omega

theorem phaseAt_first_lap {p : Nat} (first : p < size) :
    phaseAt size p = 1 := by
  simp [phaseAt, Nat.div_eq_of_lt first]

/-- The phase is inverted where the position comes back to slot 0. -/
theorem phaseAt_succ (pos : 0 < size) (position : Nat) :
    phaseAt size (position + 1) =
      if position % size + 1 = size then if phaseAt size position = 0 then 1 else 0
      else phaseAt size position := by
  have wraps : size ∣ position + 1 ↔ position % size + 1 = size := by
    rw [Nat.dvd_iff_mod_eq_zero, ← Nat.mod_add_mod,
      succ_mod_eq (Nat.mod_lt position pos)]
    split_ifs <;> simp_all
  simp only [phaseAt, Nat.succ_div, wraps]
  split_ifs <;> omega

namespace CompletionQueue

/-- The head goes once around the ring, also where it wraps by itself. -/
theorem incrementCompletionHead_head {len : QueueLength} {q : CompletionQueue} {p : Nat}
    (head : q.cqHead = p % len.items) :
    (q.incrementCompletionHead len.items).cqHead = (p + 1) % len.items := by
  have atMost := len.le
  have lt := Nat.mod_lt p len.pos
  rw [← Nat.mod_add_mod, succ_mod_eq lt]
  simp only [incrementCompletionHead, apply_ite cqHead, u16]
  split_ifs <;> omega

/-- As long as the incremented head fits into sixteen bits, head and phase follow the
    position. -/
theorem incrementCompletionHead_eq {len : QueueLength} {q : CompletionQueue} {p : Nat}
    (fits : len.items < 65536 ∨ p + 1 < len.items)
    (head : q.cqHead = p % len.items) (phase : q.cqPhase = phaseAt len.items p) :
    q.incrementCompletionHead len.items = { q with
      cqHead := (p + 1) % len.items
      cqPhase := phaseAt len.items (p + 1) } := by
  have atMost := len.le
  have lt := Nat.mod_lt p len.pos
  have small : p % len.items + 1 < 65536 := by
    obtain short | early := fits
    · omega
    · rw [Nat.mod_eq_of_lt (by omega)]
      omega
  have next : (p + 1) % len.items =
      if p % len.items + 1 = len.items then 0 else p % len.items + 1 := by
    rw [← Nat.mod_add_mod, succ_mod_eq lt]
  simp only [incrementCompletionHead, head, u16_of_lt small, phase, next,
    phaseAt_succ len.pos p]
  split_ifs <;> rfl

end CompletionQueue

/-! ## The ring with its two parties -/

/-- The driver's half of the ring, what the controller has posted, and what
    `get_next_completion` has returned. -/
structure CompletionRing where
  q : CompletionQueue
  posted : List Completion
  returned : List Completion

inductive RingEvent where
  | post (entry : Completion)
  | getNextCompletion
  deriving DecidableEq

namespace CompletionRing

def init : CompletionRing := ⟨.init, [], []⟩

/-- The controller posts a successful completion into the next slot, with the phase tag
    of the lap; it leaves one slot of the ring unused. -/
def post (len : QueueLength) (s : CompletionRing) (entry : Completion) :
    Option CompletionRing :=
  if entry.status = 0 ∧ s.posted.length + 1 < s.returned.length + len.items then
    let entry := { entry with phaseTag := phaseAt len.items s.posted.length }
    let slot := s.posted.length % len.items
    some { s with
      q := { s.q with compCmd := Function.update s.q.compCmd slot entry }
      posted := s.posted ++ [entry] }
  else none

def postAny (len : QueueLength) (s : CompletionRing) (entry : Completion) :
    Option CompletionRing :=
  if s.posted.length + 1 < s.returned.length + len.items then
    let entry := { entry with phaseTag := phaseAt len.items s.posted.length }
    let slot := s.posted.length % len.items
    some { s with
      q := { s.q with compCmd := Function.update s.q.compCmd slot entry }
      posted := s.posted ++ [entry] }
  else none

theorem post_eq_some_iff {len : QueueLength} {s s' : CompletionRing} {e : Completion} :
    s.post len e = some s' ↔ e.status = 0 ∧ s.postAny len e = some s' := by
  by_cases success : e.status = 0 <;> simp [post, postAny, success]

def step (len : QueueLength) (s : CompletionRing) : RingEvent → Option CompletionRing
  | .post entry => s.post len entry
  | .getNextCompletion =>
    match s.q.getNextCompletion len.items with
    | none => none
    | some (none, q) => some { s with q := q }
    | some (some entry, q) => some { s with q := q, returned := s.returned ++ [entry] }

abbrev Reachable (len : QueueLength) : CompletionRing → Prop :=
  Reaches (step len) (fun _ _ => True) init

structure InOrder (len : QueueLength) (s : CompletionRing) : Prop where
  returned : s.returned = s.posted.take s.returned.length
  null_iff : s.q.getNextCompletion len.items = some (none, s.q) ↔
    s.returned.length = s.posted.length
  next : ∀ entry, s.posted[s.returned.length]? = some entry →
    ∃ q, s.q.getNextCompletion len.items = some (some entry, q)
  head : s.q.cqHead = s.returned.length % len.items
  phase : s.q.cqPhase = phaseAt len.items s.returned.length

/-- The invariant behind it: from the driver's position on, one turn of the ring holds
    the completions not yet returned, and then slots with the tag of the lap before. -/
structure Phased (len : QueueLength) (s : CompletionRing) : Prop where
  returned : s.returned = s.posted.take s.returned.length
  ahead : s.returned.length ≤ s.posted.length
  room : s.posted.length < s.returned.length + len.items
  head : s.q.cqHead = s.returned.length % len.items
  phase : s.q.cqPhase = phaseAt len.items s.returned.length
  tags : ∀ position entry, s.posted[position]? = some entry →
    entry.phaseTag = phaseAt len.items position
  held : ∀ position, s.returned.length ≤ position → position < s.posted.length →
    s.posted[position]? = some (s.q.compCmd (position % len.items))
  stale : ∀ position, s.posted.length ≤ position → position < s.returned.length + len.items →
    (s.q.compCmd (position % len.items)).phaseTag ≠ phaseAt len.items position

structure Tagged (len : QueueLength) (s : CompletionRing) : Prop extends Phased len s where
  successes : ∀ entry ∈ s.posted, entry.status = 0

theorem phased_init (len : QueueLength) : Phased len init := by
  have pos := len.pos
  constructor <;> simp [init, CompletionQueue.init, phaseAt_first_lap, pos]
  intro position first
  simp [phaseAt_first_lap first, Completion.zeroed]

theorem tagged_init (len : QueueLength) : Tagged len init :=
  ⟨phased_init len, fun _ mem => absurd mem List.not_mem_nil⟩

/-- What holds of the elements of a list and of one more, with their positions. -/
theorem forall_getElem?_concat {α : Type*} {list : List α} {last : α} {motive : Nat → α → Prop}
    (old : ∀ position element, list[position]? = some element → motive position element)
    (new : motive list.length last) :
    ∀ position element, (list ++ [last])[position]? = some element → motive position element := by
  intro position element mem
  rw [List.getElem?_append] at mem
  split at mem
  · exact old position element mem
  · obtain ⟨i, same⟩ := List.getElem?_eq_some_iff.mp mem
    simp only [List.length_singleton] at i
    obtain rfl : position = list.length := by omega
    obtain rfl : last = element := by simpa using same
    exact new

section Step

variable {len : QueueLength} {s s' : CompletionRing}

section

variable (phased : Phased len s)
include phased

theorem Phased.postAny {e : Completion} (posted : s.postAny len e = some s') : Phased len s' := by
  simp only [CompletionRing.postAny] at posted
  split_ifs at posted with room
  cases posted
  have ahead := phased.ahead
  have ne : ∀ p, s.returned.length ≤ p →
      p < s.returned.length + len.items → p ≠ s.posted.length →
      p % len.items ≠ s.posted.length % len.items :=
    fun p lo hi => cell_ne_of_turn lo hi ahead phased.room
  refine
    { phased with
      returned := ?_
      ahead := by simp; omega
      room := by simpa using room
      tags := ?_
      held := ?_
      stale := ?_ }
  · rw [List.take_append_of_le_length ahead]
    exact phased.returned
  · exact forall_getElem?_concat
      phased.tags rfl
  · intro p lo hi
    simp only [List.length_append, List.length_singleton] at hi
    by_cases last : p = s.posted.length
    · subst last
      simp
    · dsimp only at lo ⊢
      rw [List.getElem?_append_left (by omega),
        Function.update_of_ne (ne p lo (by omega) last)]
      exact phased.held p lo (by omega)
  · intro p lo hi
    simp only [List.length_append, List.length_singleton] at lo
    dsimp only at hi ⊢
    rw [Function.update_of_ne (ne p (by omega) hi (by omega))]
    exact phased.stale p (by omega) hi

/-- The next completion is in the slot at the head, with the phase the driver expects. -/
theorem Phased.visible (behind : s.returned.length < s.posted.length) :
    s.posted[s.returned.length]? = some (s.q.compCmd s.q.cqHead) ∧
      (s.q.compCmd s.q.cqHead).phaseTag = s.q.cqPhase := by
  have held := phased.held s.returned.length (Nat.le_refl _) behind
  have tag := phased.tags _ _ held
  rw [phased.head, phased.phase]
  exact ⟨held, tag⟩

/-- Without one, the slot at the head has the other phase. -/
theorem Phased.behind_of_visible (visible : (s.q.compCmd s.q.cqHead).phaseTag = s.q.cqPhase) :
    s.returned.length < s.posted.length := by
  by_contra notBehind
  refine phased.stale s.returned.length (by omega) (by have := len.pos; omega) ?_
  rw [← phased.head, ← phased.phase]
  exact visible

theorem Phased.getNextCompletion (fits : len.items < 65536 ∨ s.returned.length + 1 < len.items)
    (made : s.step len .getNextCompletion = some s') : Phased len s' := by
  simp only [step] at made
  split at made
  · cases made
  · rename_i q null
    cases made
    rw [CompletionQueue.getNextCompletion_none null]
    exact phased
  · rename_i entry q taken
    cases made
    obtain ⟨rfl, rfl⟩ := CompletionQueue.getNextCompletion_some taken
    have behind := phased.behind_of_visible (CompletionQueue.getNextCompletion_visible taken)
    obtain ⟨held, tag⟩ := phased.visible behind
    rw [CompletionQueue.incrementCompletionHead_eq fits phased.head phased.phase]
    have room := phased.room
    refine
      { returned := ?_
        ahead := by simp; omega
        room := by simp; omega
        head := by simp
        phase := by simp
        tags := phased.tags
        held := fun p lo => phased.held p (by simp at lo; omega)
        stale := ?_ }
    · rw [List.length_append, List.length_singleton, List.take_add_one, held, ← phased.returned]
      rfl
    · intro p lo hi
      simp only [List.length_append, List.length_singleton] at hi
      by_cases entering : p = s.returned.length + len.items
      · subst entering
        rw [Nat.add_mod_right, ← phased.head, tag, phased.phase]
        exact (phaseAt_next_lap len.pos _).symm
      · exact phased.stale p lo (by omega)

end

section

variable (tagged : Tagged len s)
include tagged

theorem Tagged.post {e : Completion} (posted : s.post len e = some s') : Tagged len s' := by
  obtain ⟨success, posted⟩ := post_eq_some_iff.mp posted
  refine ⟨tagged.toPhased.postAny posted, ?_⟩
  simp only [CompletionRing.postAny] at posted
  split_ifs at posted
  cases posted
  intro o mem
  obtain old | new := List.mem_append.mp mem
  · exact tagged.successes o old
  · rw [List.mem_singleton.mp new]
    exact success

theorem Tagged.getNextCompletion_null (all : s.returned.length = s.posted.length) :
    s.q.getNextCompletion len.items = some (none, s.q) := by
  refine CompletionQueue.getNextCompletion_null_iff.mpr ⟨rfl, fun visible => ?_⟩
  have behind := tagged.behind_of_visible visible
  omega

theorem Tagged.getNextCompletion_some (behind : s.returned.length < s.posted.length) :
    s.posted[s.returned.length]? = some (s.q.compCmd (s.returned.length % len.items)) ∧
      s.q.getNextCompletion len.items =
        some (some (s.q.compCmd (s.returned.length % len.items)),
          s.q.incrementCompletionHead len.items) := by
  obtain ⟨held, tag⟩ := tagged.visible behind
  have success := tagged.successes _ (List.mem_of_getElem? held)
  rw [← tagged.head]
  refine ⟨held, ?_⟩
  simp [CompletionQueue.getNextCompletion, tag, success, CompletionQueue.statusPasses]

theorem Tagged.inOrder : InOrder len s where
  returned := tagged.returned
  head := tagged.head
  phase := tagged.phase
  null_iff := by
    refine ⟨fun null => ?_, tagged.getNextCompletion_null⟩
    by_contra notAll
    have ahead := tagged.ahead
    rw [(tagged.getNextCompletion_some (by omega)).2] at null
    cases null
  next := by
    intro entry mem
    obtain ⟨behind, _⟩ := List.getElem?_eq_some_iff.mp mem
    obtain ⟨held, taken⟩ := tagged.getNextCompletion_some behind
    rw [held] at mem
    cases mem
    exact ⟨_, taken⟩

end

theorem Tagged.getNextCompletion
    (fits : len.items < 65536 ∨ s.returned.length + 1 < len.items) (tagged : Tagged len s)
    (made : s.step len .getNextCompletion = some s') : Tagged len s' := by
  refine ⟨tagged.toPhased.getNextCompletion fits made, ?_⟩
  simp only [step] at made
  split at made <;> cases made <;> exact tagged.successes

theorem Reachable.tagged (short : len.items < 65536) (run : Reachable len s) : Tagged len s := by
  refine run.invariant (tagged_init len) ?_
  intro before after ev tagged _ step
  cases ev with
  | post entry => exact tagged.post step
  | getNextCompletion => exact tagged.getNextCompletion (.inl short) step

/-! ## The longest ring -/

theorem exists_post (len : QueueLength) (s : CompletionRing)
    (room : s.posted.length + 1 < s.returned.length + len.items) :
    ∃ s', s.step len (.post .zeroed) = some s' ∧ s'.posted.length = s.posted.length + 1 ∧
      s'.returned = s.returned := by
  simp only [step, post, room]
  exact ⟨_, rfl, by simp, rfl⟩

theorem Tagged.step_getNextCompletion (tagged : Tagged len s)
    (behind : s.returned.length < s.posted.length) :
    s.step len .getNextCompletion = some { s with
      q := s.q.incrementCompletionHead len.items
      returned := s.returned ++ [s.q.compCmd (s.returned.length % len.items)] } := by
  simp only [step, (tagged.getNextCompletion_some behind).2]

/-- Completions are posted and returned one at a time, up to the last slot of the ring. -/
theorem exists_returned (len : QueueLength) (count : Nat) (bound : count < len.items) :
    ∃ s, Reachable len s ∧ Tagged len s ∧ s.returned.length = count ∧ s.posted.length = count := by
  induction count with
  | zero => exact ⟨init, .refl, tagged_init len, rfl, rfl⟩
  | succ count ih =>
    obtain ⟨s, run, tagged, returned, posted⟩ := ih (by omega)
    obtain ⟨s₁, step₁, posted₁, returned₁⟩ := exists_post len s (by omega)
    have tagged₁ := tagged.post step₁
    have step₂ := tagged₁.step_getNextCompletion (by rw [returned₁]; omega)
    refine ⟨_, .next (.next run trivial step₁) trivial step₂,
      tagged₁.getNextCompletion (.inr ?_) step₂, ?_, ?_⟩
    · rw [returned₁]
      omega
    · simp [returned₁, returned]
    · simp [posted₁, posted]

/-- On a ring of 65536 entries the 65536-th completion brings the head back to slot 0
    without inverting the phase. -/
theorem exists_not_inOrder (longest : len.items = 65536) :
    ∃ s, Reachable len s ∧ ¬ InOrder len s := by
  obtain ⟨s, run, tagged, returned, posted⟩ := exists_returned len 65535 (by omega)
  obtain ⟨s₁, step₁, posted₁, returned₁⟩ := exists_post len s (by omega)
  have tagged₁ := tagged.post step₁
  have step₂ := tagged₁.step_getNextCompletion (by rw [returned₁]; omega)
  have head : s₁.q.cqHead = 65535 := by
    rw [tagged₁.head, returned₁, returned, longest]
  have phase : s₁.q.cqPhase = 1 := by
    rw [tagged₁.phase, returned₁, returned, longest]
    rfl
  -- 65535 + 1 is 0 in sixteen bits, and not 65536
  have wrapped : s₁.q.incrementCompletionHead len.items = { s₁.q with cqHead := 0 } := by
    simp only [CompletionQueue.incrementCompletionHead, head, longest]
    rfl
  refine ⟨_, .next (.next run trivial step₁) trivial step₂, fun inOrder => ?_⟩
  have expected := inOrder.phase
  simp only [wrapped, phase, List.length_append, List.length_singleton, returned₁,
    returned] at expected
  rw [longest] at expected
  exact absurd expected (by decide)

end Step

/-- The driver sees every completion, once and in order, on every ring that is shorter
    than 65536 entries, and only on those. -/
theorem completion_ring_in_order_iff (len : QueueLength) :
    (∀ s, Reachable len s → InOrder len s) ↔ len.items < 65536 := by
  constructor
  · intro inOrder
    by_contra notShort
    obtain ⟨s, run, outOfOrder⟩ :=
      exists_not_inOrder (Nat.le_antisymm len.le (Nat.not_lt.mp notShort))
    exact outOfOrder (inOrder s run)
  · exact fun short s run => (Reachable.tagged short run).inOrder

/-- The longest ring the device allows is not. -/
theorem completion_ring_longest_not_in_order :
    ∃ s, Reachable ⟨65536, by decide, by decide⟩ s ∧ ¬ InOrder ⟨65536, by decide, by decide⟩ s :=
  exists_not_inOrder rfl

end CompletionRing

end Xdk.Nvme
