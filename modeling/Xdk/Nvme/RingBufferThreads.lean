import Xdk.Lib.Transition
import Xdk.Nvme.RingBuffer

/-! # The ring buffer between two threads

One thread calls `push` and another one `pop`.  Each call is a sequence of accesses to what the
threads share: a load of `_tail` or `_head`, an access to the array, a store.  The accesses of
the two threads alternate in any way.  What a thread has loaded may be out of date when it acts
on it, but only on the safe side: each index is stored by one thread, and moves away from the
other one.
-/

namespace Xdk.Nvme

open Xdk.Lib

section Threads

variable {Element : Type*} {size : Nat}

/-- The next access of the producer, with what the call has in its variables. -/
inductive PushPc (Element : Type*) (size : Nat) where
  | idle
  | loadTail (item : Element)
  | loadHead (item : Element) (currentTail nextTail : Fin size)
  | write (item : Element) (currentTail nextTail : Fin size)
  | storeTail (item : Element) (nextTail : Fin size)
  deriving DecidableEq

inductive PopPc (Element : Type*) (size : Nat) where
  | idle
  | loadHead
  | loadTail (currentHead : Fin size)
  | read (currentHead : Fin size)
  | storeHead (item : Element) (currentHead : Fin size)
  deriving DecidableEq

/-- What the producer knows: the tail is its own, and once it has found room there is room. -/
def PushPc.Knows (buffer : RingBuffer Element size) : PushPc Element size → Prop
  | .idle | .loadTail _ => True
  | .loadHead _ currentTail nextTail =>
    currentTail = buffer.tail ∧ nextTail = RingBuffer.increment buffer.tail
  | .write _ currentTail nextTail =>
    currentTail = buffer.tail ∧ nextTail = RingBuffer.increment buffer.tail ∧
      nextTail ≠ buffer.head
  | .storeTail item nextTail =>
    nextTail = RingBuffer.increment buffer.tail ∧ nextTail ≠ buffer.head ∧
      buffer.array buffer.tail = item

/-- What the consumer knows: the head is its own, and once it has found an element there is one. -/
def PopPc.Knows (buffer : RingBuffer Element size) : PopPc Element size → Prop
  | .idle | .loadHead => True
  | .loadTail currentHead => currentHead = buffer.head
  | .read currentHead => currentHead = buffer.head ∧ buffer.head ≠ buffer.tail
  | .storeHead item currentHead =>
    currentHead = buffer.head ∧ buffer.head ≠ buffer.tail ∧ item = buffer.array buffer.head

end Threads

/-- The buffer and the two threads.  `accepted` lists the elements whose `push` has succeeded and
    `popped` those returned by `pop`. -/
structure RingThreads (Element : Type*) (size : Nat) where
  buffer : RingBuffer Element size
  producer : PushPc Element size
  consumer : PopPc Element size
  accepted : List Element
  popped : List Element

inductive PushPopEvent (Element : Type*) where
  | push (item : Element)
  | pop
  -- the next access of a thread
  | producer
  | consumer

namespace RingThreads

variable {Element : Type*} {size : Nat}

def init (positive : 0 < size) (array : Nat → Element) : RingThreads Element size :=
  ⟨⟨array, ⟨0, positive⟩, ⟨0, positive⟩⟩, .idle, .idle, [], []⟩

def producerStep (s : RingThreads Element size) : Option (RingThreads Element size) :=
  match s.producer with
  | .idle => none
  | .loadTail item =>
    let currentTail := s.buffer.tail
    some { s with producer := .loadHead item currentTail (RingBuffer.increment currentTail) }
  | .loadHead item currentTail nextTail =>
    -- otherwise the queue is full and the result is `false`
    some { s with
      producer := if nextTail ≠ s.buffer.head then .write item currentTail nextTail else .idle }
  | .write item currentTail nextTail =>
    some { s with
      buffer := s.buffer.set currentTail item
      producer := .storeTail item nextTail }
  | .storeTail item nextTail =>
    some { s with
      buffer := { s.buffer with tail := nextTail }
      producer := .idle
      accepted := s.accepted ++ [item] }

def consumerStep (s : RingThreads Element size) : Option (RingThreads Element size) :=
  match s.consumer with
  | .idle => none
  | .loadHead => some { s with consumer := .loadTail s.buffer.head }
  | .loadTail currentHead =>
    -- an empty queue is the result `false`
    some { s with
      consumer := if currentHead = s.buffer.tail then .idle else .read currentHead }
  | .read currentHead =>
    some { s with consumer := .storeHead (s.buffer.array currentHead) currentHead }
  | .storeHead item currentHead =>
    some { s with
      buffer := { s.buffer with head := RingBuffer.increment currentHead }
      consumer := .idle
      popped := s.popped ++ [item] }

def step (s : RingThreads Element size) : PushPopEvent Element → Option (RingThreads Element size)
  | .push item =>
    match s.producer with
    | .idle => some { s with producer := .loadTail item }
    | _ => none
  | .pop =>
    match s.consumer with
    | .idle => some { s with consumer := .loadHead }
    | _ => none
  | .producer => s.producerStep
  | .consumer => s.consumerStep

abbrev Reachable (positive : 0 < size) (array : Nat → Element) (s : RingThreads Element size) :
    Prop :=
  Reaches step (fun _ _ => True) (init positive array) s

/-! ## One access -/

section Buffer

variable {buffer : RingBuffer Element size}

theorem contents_written (x : Element) :
    (buffer.set buffer.tail x).contents = buffer.contents := by
  rw [RingBuffer.tail_eq]
  exact window_update_outside _ _ (next_cell_outside buffer.count_lt)

theorem contents_tail_stored (room : RingBuffer.increment buffer.tail ≠ buffer.head) :
    ({ buffer with tail := RingBuffer.increment buffer.tail } : RingBuffer Element size).contents =
      buffer.contents ++ [buffer.array buffer.tail] := by
  rw [← RingBuffer.contents_store buffer _ room, RingBuffer.store, Function.update_eq_self]

theorem contents_head_stored (ne : buffer.head ≠ buffer.tail) :
    buffer.contents = buffer.array buffer.head ::
      ({ buffer with head := RingBuffer.increment buffer.head } :
        RingBuffer Element size).contents :=
  RingBuffer.contents_pop (if_neg ne)

/-- The consumer's knowledge outlasts a write beside the elements. -/
theorem knows_written {buf : RingBuffer Element size} {pc : PopPc Element size} (x : Element)
    (knows : pc.Knows buf) :
    pc.Knows (buf.set buf.tail x) := by
  cases pc with
  | idle | loadHead | loadTail | read => exact knows
  | storeHead taken currentHead =>
    obtain ⟨rfl, ne, rfl⟩ := knows
    refine ⟨rfl, ne, (Function.update_of_ne ?_ _ _).symm⟩
    exact fun same => ne (Fin.ext same)

/-- It outlasts one more element. -/
theorem knows_tail_stored {pc : PopPc Element size} (knows : pc.Knows buffer)
    (room : RingBuffer.increment buffer.tail ≠ buffer.head) :
    pc.Knows { buffer with tail := RingBuffer.increment buffer.tail } := by
  cases pc with
  | idle | loadHead | loadTail => exact knows
  | read => exact ⟨knows.1, room.symm⟩
  | storeHead => exact ⟨knows.1, room.symm, knows.2.2⟩

/-- The producer's knowledge outlasts the removal of an element. -/
theorem knows_head_stored {pc : PushPc Element size} (knows : pc.Knows buffer)
    (ne : buffer.head ≠ buffer.tail) :
    pc.Knows { buffer with head := RingBuffer.increment buffer.head } := by
  have room : RingBuffer.increment buffer.tail ≠ RingBuffer.increment buffer.head :=
    fun same => ne (RingBuffer.increment_injective same).symm
  cases pc with
  | idle | loadTail | loadHead => exact knows
  | write => exact ⟨knows.1, knows.2.1, knows.2.1 ▸ room⟩
  | storeTail => exact ⟨knows.1, knows.1 ▸ room, knows.2.2⟩

end Buffer

structure Consistent (s : RingThreads Element size) : Prop where
  history : s.accepted = s.popped ++ s.buffer.contents
  producer : s.producer.Knows s.buffer
  consumer : s.consumer.Knows s.buffer

theorem consistent_init (pos : 0 < size) (array : Nat → Element) :
    Consistent (init pos array) := by
  refine ⟨?_, trivial, trivial⟩
  rfl

section Step

variable {s s' : RingThreads Element size}

theorem Consistent.producerStep (inv : Consistent s) (step : s.producerStep = some s') :
    Consistent s' := by
  obtain ⟨history, producer, c⟩ := inv
  simp only [RingThreads.producerStep] at step
  cases pc : s.producer <;> rw [pc] at step producer <;> cases step
  case loadTail x => exact ⟨history, ⟨rfl, rfl⟩, c⟩
  case loadHead x currentTail nextTail =>
    obtain ⟨rfl, rfl⟩ := producer
    refine ⟨history, ?_, c⟩
    split
    · rename_i room
      exact ⟨rfl, rfl, room⟩
    · trivial
  case write x currentTail nextTail =>
    obtain ⟨rfl, rfl, room⟩ := producer
    refine ⟨?_, ⟨rfl, room, Function.update_self _ _ _⟩, knows_written x c⟩
    rw [contents_written, history]
  case storeTail x nextTail =>
    obtain ⟨rfl, room, rfl⟩ := producer
    refine ⟨?_, trivial, knows_tail_stored c room⟩
    rw [contents_tail_stored room, history, List.append_assoc]

theorem Consistent.consumerStep (inv : Consistent s) (step : s.consumerStep = some s') :
    Consistent s' := by
  obtain ⟨history, producer, consumer⟩ := inv
  simp only [RingThreads.consumerStep] at step
  cases pc : s.consumer <;> rw [pc] at step consumer <;> cases step
  case loadHead => exact ⟨history, producer, rfl⟩
  case loadTail currentHead =>
    obtain rfl := consumer
    refine ⟨history, producer, ?_⟩
    split
    · trivial
    · rename_i ne
      exact ⟨rfl, ne⟩
  case read currentHead =>
    obtain ⟨rfl, ne⟩ := consumer
    exact ⟨history, producer, rfl, ne, rfl⟩
  case storeHead item currentHead =>
    obtain ⟨rfl, ne, rfl⟩ := consumer
    refine ⟨?_, knows_head_stored producer ne, trivial⟩
    rw [history, contents_head_stored ne, List.append_assoc]
    rfl

theorem Consistent.step {ev : PushPopEvent Element} (inv : Consistent s)
    (step : s.step ev = some s') : Consistent s' := by
  cases ev with
  | push item =>
    simp only [RingThreads.step] at step
    split at step <;> cases step
    exact ⟨inv.history, trivial, inv.consumer⟩
  | pop =>
    simp only [RingThreads.step] at step
    split at step <;> cases step
    exact ⟨inv.history, inv.producer, trivial⟩
  | producer => exact inv.producerStep step
  | consumer => exact inv.consumerStep step

end Step

/-! ## Every run -/

variable {s : RingThreads Element size}

theorem Reachable.consistent {pos : 0 < size} {array : Nat → Element}
    {s : RingThreads Element size} (run : Reachable pos array s) : Consistent s :=
  run.invariant (consistent_init pos array) fun inv _ step =>
    inv.step step

def stored (s : RingThreads Element size) : Nat := s.accepted.length - s.popped.length

theorem Consistent.stored_eq (inv : Consistent s) :
    s.stored = s.buffer.count := by
  rw [stored, inv.history, List.length_append, Nat.add_sub_cancel_left,
    RingBuffer.length_contents]

/-- The entry of the array with the `offset`-th of the elements that are not yet popped. -/
def entry (s : RingThreads Element size) (offset : Nat) : Nat := (s.buffer.head + offset) % size

theorem Consistent.getElem_entry (inv : Consistent s) {off : Nat} (lt : off < s.stored) :
    s.accepted[s.popped.length + off]? = some (s.buffer.array (s.entry off)) := by
  rw [inv.stored_eq, ← RingBuffer.length_contents] at lt
  rw [inv.history, List.getElem?_append_right (Nat.le_add_right _ _),
    Nat.add_sub_cancel_left, List.getElem?_eq_getElem lt, RingBuffer.getElem_contents]
  rfl

/-- In every interleaving of a producer and a consumer: what has been popped are the first
    elements accepted; the entry that `push` is about to write holds no element that has not been
    popped; `push` fails only when it loads `_head` with `size - 1` elements stored; and `pop`
    fails only when it loads `_tail` with none. -/
theorem push_pop_interleaved (two : 2 ≤ size) {array : Nat → Element}
    {s : RingThreads Element size}
    (run : Reachable (Nat.lt_of_lt_of_le Nat.zero_lt_two two) array s) :
    s.popped <+: s.accepted ∧
      (∀ offset < s.stored,
        s.accepted[s.popped.length + offset]? = some (s.buffer.array (s.entry offset)) ∧
        ∀ item currentTail nextTail, s.producer = .write item currentTail nextTail →
          currentTail.val ≠ s.entry offset) ∧
      (∀ item currentTail nextTail s', s.producer = .loadHead item currentTail nextTail →
        s.step .producer = some s' → s'.producer = .idle → s.stored = size - 1) ∧
      (∀ currentHead s', s.consumer = .loadTail currentHead →
        s.step .consumer = some s' → s'.consumer = .idle → s.stored = 0) := by
  have consistent := run.consistent
  have producer := consistent.producer
  have consumer := consistent.consumer
  refine ⟨⟨_, consistent.history.symm⟩, fun offset bound => ?_, ?_, ?_⟩
  · refine ⟨consistent.getElem_entry bound, fun item currentTail nextTail pc same => ?_⟩
    rw [pc] at producer
    rw [producer.1, RingBuffer.tail_eq] at same
    rw [consistent.stored_eq] at bound
    exact next_cell_outside s.buffer.count_lt offset bound same.symm
  · rintro item currentTail nextTail s' pc stepped returned
    rw [pc] at producer
    simp only [step, producerStep, pc] at stepped
    cases stepped
    split_ifs at returned with full
    have full := (producer.2.symm.trans (not_not.mp full))
    have count := RingBuffer.count_of_full _ full
    rw [consistent.stored_eq]
    omega
  · rintro currentHead s' pc stepped returned
    rw [pc] at consumer
    simp only [step, consumerStep, pc] at stepped
    cases stepped
    split_ifs at returned with empty
    rw [consistent.stored_eq, RingBuffer.count_eq_zero_iff]
    exact consumer.symm.trans empty

/-- In a buffer of three entries, after a `pop` between two calls of `push`, the fourth `push`
    finds two elements still stored. -/
theorem push_pop_interleaved_full :
    ∃ s s' : RingThreads Nat 3, Reachable (by decide) (fun _ => 0) s ∧
      s.accepted = [7, 8, 9] ∧ s.popped = [7] ∧ s.producer = .loadHead 10 0 1 ∧
      s.step .producer = some s' ∧ s'.producer = .idle ∧ s.stored = 2 := by
  have executed : ∃ s ∈ execute step (fun _ _ => True)
      (.push 7 :: List.replicate 4 .producer ++
        [.push 8, .producer, .pop, .producer, .consumer, .consumer, .producer, .consumer,
          .producer, .consumer] ++
        .push 9 :: List.replicate 4 .producer ++ [.push 10, .producer])
      (init (by decide : 0 < 3) fun _ => 0),
      s.accepted = [7, 8, 9] ∧ s.popped = [7] ∧ s.producer = .loadHead 10 0 1 ∧
        ∃ s' ∈ s.step .producer, s'.producer = .idle := by
    decide +kernel
  obtain ⟨s, run, accepted, popped, pc, s', stepped, returned⟩ := exists_reaches_of_execute executed
  obtain ⟨_, _, full, _⟩ := push_pop_interleaved (by decide) run
  exact ⟨s, s', run, accepted, popped, pc, stepped, returned, full _ _ _ _ pc stepped returned⟩

end RingThreads

end Xdk.Nvme
