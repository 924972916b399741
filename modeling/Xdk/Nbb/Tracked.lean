import Xdk.Lib.Ring
import Xdk.Nbb.Buffer

/-! # What the counters say

`counter count` is the value of a counter whose party is done with `count` slots.  It is twice the
number until the counters begin again at 0, and that modulo the limit afterwards.  Whatever it is,
the parties keep the counters, the items and the slots together in the same way, as long as the
counter goes from one value to the next and the tests of the parties are to be trusted.
-/

namespace Xdk.Nbb

open Xdk.Lib

namespace Parties

variable {α : Type*}

/-- The counters of the producer, by its next access; `room` says that there is a free
    slot, and `last` is the content of the slot after the items in the buffer.  Where calls are
    `guarded`, nobody begins to insert without room. -/
def ProducerAt (value : Nat) (guarded room : Prop) (last : α) (uc lastUc : Nat) :
    ProducerPc α → Prop
  | .idle => uc = value ∧ lastUc = value
  | .loadAc _ => uc = value ∧ lastUc = value ∧ (guarded → room)
  | .begin _ => uc = value ∧ lastUc = value ∧ room
  | .storeSlot _ => uc = value + 1 ∧ lastUc = value ∧ room
  | .publish item => uc = value + 1 ∧ lastUc = value ∧ room ∧ last = item
  | .remember => uc = value

/-- The counters of the consumer, by its next access; `first` is the oldest item in the
    buffer. -/
def ConsumerAt (value : Nat) (first : Option α) (ac lastAc : Nat) : ConsumerPc α → Prop
  | .idle | .loadUc => ac = value ∧ lastAc = value
  | .begin => ac = value ∧ lastAc = value ∧ first.isSome
  | .loadSlot => ac = value + 1 ∧ lastAc = value ∧ first.isSome
  | .publish item => ac = value + 1 ∧ lastAc = value ∧ first = some item
  | .remember => ac = value

structure Tracked (shape : Shape) (counter : Nat → Nat) (guarded : Prop) (s : Parties α) :
    Prop where
  producer : ProducerAt (counter s.inserted.length) guarded
    (s.inserted.length < s.taken.length + shape.size)
    (s.nbb.buffer (s.inserted.length % shape.size)) s.nbb.uc s.nbb.lastUc s.producer
  consumer : ConsumerAt (counter s.taken.length) s.inserted[s.taken.length]? s.nbb.ac s.nbb.lastAc
    s.consumer
  behind : s.taken.length ≤ s.inserted.length
  fits : s.inserted.length ≤ s.taken.length + shape.size
  contents : ∀ position, s.taken.length ≤ position → position < s.inserted.length →
    s.inserted[position]? = some (s.nbb.buffer (position % shape.size))

/-- What a party needs of its counter, when it is done with `count` slots. -/
structure Counts (shape : Shape) (counter : Nat → Nat) (count : Nat) : Prop where
  lt : counter count + 1 < 2 ^ 32
  slot : shape.slot (counter count) = count % shape.size

theorem ProducerAt.more {value uc lastUc : Nat} {guarded room room' : Prop} {last : α}
    {pc : ProducerPc α} (known : ProducerAt value guarded room last uc lastUc pc)
    (more : room → room') : ProducerAt value guarded room' last uc lastUc pc := by
  cases pc with
  | idle | remember => exact known
  | loadAc => exact ⟨known.1, known.2.1, fun holds => more (known.2.2 holds)⟩
  | begin | storeSlot => exact ⟨known.1, known.2.1, more known.2.2⟩
  | publish => exact ⟨known.1, known.2.1, more known.2.2.1, known.2.2.2⟩

theorem ConsumerAt.grow {value ac lastAc : Nat} {first first' : Option α} {pc : ConsumerPc α}
    (known : ConsumerAt value first ac lastAc pc)
    (grow : ∀ x, first = some x → first' = some x) : ConsumerAt value first' ac lastAc pc := by
  have isSome : first.isSome → first'.isSome := by
    intro some
    obtain ⟨x, same⟩ := Option.isSome_iff_exists.mp some
    rw [grow x same]
    rfl
  cases pc with
  | idle | loadUc | remember => exact known
  | begin | loadSlot => exact ⟨known.1, known.2.1, isSome known.2.2⟩
  | publish => exact ⟨known.1, known.2.1, grow _ known.2.2⟩

namespace Tracked

variable {shape : Shape} {counter : Nat → Nat} {guarded : Prop} {s s' : Parties α} {item : α}

section

variable (tracked : Tracked shape counter guarded s)
include tracked

/-- What the producer reads from `_ac`. -/
theorem ac :
    s.nbb.ac = counter s.taken.length ∨
      (s.nbb.ac = counter s.taken.length + 1 ∧ s.taken.length < s.inserted.length) := by
  have consumer := tracked.consumer
  generalize pc : s.consumer = here at consumer
  cases here with
  | idle | loadUc | begin =>
    exact .inl consumer.1
  | remember =>
    exact .inl consumer
  | loadSlot =>
    exact .inr ⟨consumer.1, by simpa using consumer.2.2⟩
  | publish item =>
    obtain ⟨inside, _⟩ := List.getElem?_eq_some_iff.mp consumer.2.2
    exact .inr ⟨consumer.1, inside⟩

/-- What the consumer reads from `_uc`. -/
theorem uc :
    s.nbb.uc = counter s.inserted.length ∨ s.nbb.uc = counter s.inserted.length + 1 := by
  have producer := tracked.producer
  generalize pc : s.producer = here at producer
  cases here with
  | idle | loadAc | begin =>
    exact .inl producer.1
  | remember =>
    exact .inl producer
  | storeSlot | publish =>
    exact .inr producer.1

/-- Somebody begins with `insert_item`. -/
theorem insertItem (idle : s.producer = .idle)
    (room : guarded → s.inserted.length < s.taken.length + shape.size) (x : α) :
    Tracked shape counter guarded { s with producer := .loadAc x } := by
  have producer := tracked.producer
  rw [idle] at producer
  exact { tracked with producer := ⟨producer.1, producer.2, room⟩ }

theorem readItem (idle : s.consumer = .idle) :
    Tracked shape counter guarded { s with consumer := .loadUc } := by
  have consumer := tracked.consumer
  rw [idle] at consumer
  exact { tracked with consumer := consumer }

/-! ## The producer -/

/-- The producer has written a new slot. -/
theorem storeSlot (counts : Counts shape counter s.inserted.length)
    (pc : s.producer = .storeSlot item) :
    Tracked shape counter guarded
      { s with nbb := s.nbb.storeSlot shape item, producer := .publish item } := by
  have producer := tracked.producer
  rw [pc] at producer
  obtain ⟨uc, last, room⟩ := producer
  have slot : shape.slot s.nbb.lastUc = s.inserted.length % shape.size := by
    rw [last, counts.slot]
  refine
    { tracked with
      producer := ⟨uc, last, room, ?_⟩
      contents := fun p lo hi => ?_ }
  · simp only [SymmetricNbb.storeSlot, slot, Function.update_self]
  · dsimp only at lo hi
    have ne : p % shape.size ≠ s.inserted.length % shape.size :=
      cell_ne_of_turn lo (by omega) tracked.behind room (Nat.ne_of_lt hi)
    simp only [SymmetricNbb.storeSlot, slot, Function.update_of_ne ne]
    exact tracked.contents p lo hi

/-- The producer has told the consumer of it. -/
theorem publishInsert (pc : s.producer = .publish item)
    (next : shape.advance (counter s.inserted.length) = counter (s.inserted.length + 1)) :
    Tracked shape counter guarded { s with
      nbb := s.nbb.publishInsert shape
      producer := .remember
      inserted := s.inserted ++ [item]
      slots := s.slots ++ [shape.slot s.nbb.lastUc] } := by
  have producer := tracked.producer
  rw [pc] at producer
  obtain ⟨uc, last, room, content⟩ := producer
  have behind := tracked.behind
  have len : (s.inserted ++ [item]).length = s.inserted.length + 1 := by simp
  refine
    { producer := ?_
      consumer := tracked.consumer.grow fun first present => ?_
      behind := by dsimp only; omega
      fits := by dsimp only; omega
      contents := fun p lo hi => ?_ }
  · show shape.advance s.nbb.lastUc = counter (s.inserted ++ [item]).length
    rw [len, last, next]
  · obtain ⟨inside, _⟩ := List.getElem?_eq_some_iff.mp present
    rw [List.getElem?_append_left inside]
    exact present
  · dsimp only at lo hi ⊢
    by_cases new : p = s.inserted.length
    · subst new
      simp only [List.getElem?_concat_length, SymmetricNbb.publishInsert, content]
    · rw [List.getElem?_append_left (by omega)]
      exact tracked.contents p lo (by omega)

theorem produce (counts : Counts shape counter s.inserted.length)
    (next : ∀ item, s.producer = .publish item →
      shape.advance (counter s.inserted.length) = counter (s.inserted.length + 1))
    (room_of_check : ¬ guarded → s.nbb.lastUc = counter s.inserted.length →
      SymmetricNbb.insertCheck shape s.nbb.lastUc s.nbb.ac = none →
      s.inserted.length < s.taken.length + shape.size)
    (step : s.produce shape = some s') : Tracked shape counter guarded s' := by
  have producer := tracked.producer
  simp only [Parties.produce] at step
  generalize pc : s.producer = access at step producer
  cases access with
  | idle =>
    cases step
  | loadAc x =>
    cases step
    obtain ⟨uc, last, asked⟩ := producer
    refine { tracked with producer := ?_ }
    split
    · exact ⟨uc, last⟩
    · rename_i passed
      by_cases holds : guarded
      · exact ⟨uc, last, asked holds⟩
      · exact ⟨uc, last, room_of_check holds last passed⟩
  | begin x =>
    cases step
    obtain ⟨uc, last, room⟩ := producer
    refine { tracked with producer := ⟨?_, last, room⟩ }
    rw [SymmetricNbb.beginInsert, last, wrap_of_lt counts.lt]
  | storeSlot x =>
    cases step
    exact tracked.storeSlot counts pc
  | publish x =>
    cases step
    exact tracked.publishInsert pc (next x pc)
  | remember =>
    cases step
    exact { tracked with producer := ⟨producer, producer⟩ }

/-! ## The consumer -/

/-- The consumer gives a slot back. -/
theorem publishRead (pc : s.consumer = .publish item)
    (next : shape.advance (counter s.taken.length) = counter (s.taken.length + 1)) :
    Tracked shape counter guarded { s with
      nbb := s.nbb.publishRead shape
      consumer := .remember
      taken := s.taken ++ [item] } := by
  have consumer := tracked.consumer
  rw [pc] at consumer
  obtain ⟨ac, last, first⟩ := consumer
  obtain ⟨behind, _⟩ := List.getElem?_eq_some_iff.mp first
  have fits := tracked.fits
  have len : (s.taken ++ [item]).length = s.taken.length + 1 := by simp
  refine
    { producer := tracked.producer.more fun free => ?_
      consumer := ?_
      behind := by dsimp only; omega
      fits := by dsimp only; omega
      contents := fun p lo => tracked.contents p (by dsimp only at lo; omega) }
  · dsimp only
    omega
  · show shape.advance s.nbb.lastAc = counter (s.taken ++ [item]).length
    rw [len, last, next]

theorem consume (counts : Counts shape counter s.taken.length)
    (next : ∀ item, s.consumer = .publish item →
      shape.advance (counter s.taken.length) = counter (s.taken.length + 1))
    (some_of_check : s.nbb.lastAc = counter s.taken.length →
      SymmetricNbb.readCheck s.nbb.lastAc s.nbb.uc = none → s.taken.length < s.inserted.length)
    (step : s.consume shape = some s') : Tracked shape counter guarded s' := by
  have consumer := tracked.consumer
  simp only [Parties.consume] at step
  generalize pc : s.consumer = access at step consumer
  cases access with
  | idle =>
    cases step
  | loadUc =>
    cases step
    refine { tracked with consumer := ?_ }
    split
    · exact consumer
    · rename_i passed
      have behind := some_of_check consumer.2 passed
      exact ⟨consumer.1, consumer.2, by simpa using behind⟩
  | begin =>
    cases step
    obtain ⟨ac, last, some⟩ := consumer
    refine { tracked with consumer := ⟨?_, last, some⟩ }
    rw [SymmetricNbb.beginRead, last, wrap_of_lt counts.lt]
  | loadSlot =>
    cases step
    obtain ⟨ac, last, some⟩ := consumer
    have behind : s.taken.length < s.inserted.length := by simpa using some
    refine { tracked with consumer := ⟨ac, last, ?_⟩ }
    rw [tracked.contents _ (Nat.le_refl _) behind, SymmetricNbb.loadSlot, last, counts.slot]
  | publish item =>
    cases step
    exact tracked.publishRead pc (next item pc)
  | remember =>
    cases step
    exact { tracked with consumer := ⟨consumer, consumer⟩ }

end

end Tracked

end Parties

end Xdk.Nbb
