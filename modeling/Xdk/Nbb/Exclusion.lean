import Xdk.Nbb.Tracked

/-! # The buffer under concurrency

As long as no counter has begun again at 0, half of `_uc` is the number of items inserted
and half of `_ac` the number of items taken.  The producer goes on only when it has read
from `_ac` that fewer than `size` items are in the buffer; what it has read may be old, but
by then the consumer can only have taken more.  The consumer goes on only when it has read
from `_uc` that there is an item; by then there can only be more.  So the slot that the
producer writes is the one after the items in the buffer, and never one of theirs.
-/

namespace Xdk.Nbb

open Xdk.Lib

/-- The producer has begun with a slot, and its counter does not yet say that it is done. -/
def ProducerPc.writing {α : Type*} : ProducerPc α → Bool
  | .storeSlot _ | .publish _ => true
  | _ => false

def ConsumerPc.reading {α : Type*} : ConsumerPc α → Bool
  | .loadSlot | .publish _ => true
  | _ => false

namespace Parties

variable {α : Type*}

def unreset (shape : Shape) (s : Parties α) : NbbEvent α → Bool
  | .producer =>
    match s.producer with
    | .publish _ => wrap 32 (s.nbb.lastUc + 2) ≠ shape.countLimit
    | _ => true
  | .consumer =>
    match s.consumer with
    | .publish _ => wrap 32 (s.nbb.lastAc + 2) ≠ shape.countLimit
    | _ => true
  | .insertItem _ | .readItem => true

/-- No counter has begun again. -/
structure Counted (shape : Shape) (s : Parties α) : Prop extends
    Tracked shape (2 * ·) False s where
  limit : 2 * s.inserted.length < shape.countLimit
  taken : s.taken = s.inserted.take s.taken.length
  slots : s.slots = (List.range s.inserted.length).map (· % shape.size)

theorem counted_init [Inhabited α] (shape : Shape) : Counted shape (init : Parties α) where
  producer := ⟨rfl, rfl⟩
  consumer := ⟨rfl, rfl⟩
  behind := Nat.le_refl 0
  fits := Nat.zero_le _
  limit := shape.limit_pos
  contents := fun _ _ above => absurd above (Nat.not_lt_zero _)
  taken := rfl
  slots := rfl

theorem counts_double {shape : Shape} {count : Nat} (limit : 2 * count < shape.countLimit) :
    Counts shape (2 * ·) count where
  lt := by
    have limit_lt := shape.limit_lt
    omega
  slot := by rw [Shape.slot, Nat.mul_div_cancel_left _ Nat.two_pos]

theorem advance_double {shape : Shape} {count : Nat} (limit : 2 * count < shape.countLimit)
    (unreset : 2 * count + 2 ≠ shape.countLimit) : shape.advance (2 * count) = 2 * (count + 1) := by
  have limit_lt := shape.limit_lt
  have limit_even := shape.limit_even
  rw [Shape.advance, wrap_of_lt (by omega)]
  exact if_neg unreset

section Steps

variable {shape : Shape} {s s' : Parties α}

section

variable (inv : Counted shape s)
include inv

/-- The tests of the producer leave it a free slot. -/
theorem Counted.room_of_check (last : s.nbb.lastUc = 2 * s.inserted.length)
    (passed : SymmetricNbb.insertCheck shape s.nbb.lastUc s.nbb.ac = none) :
    s.inserted.length < s.taken.length + shape.size := by
  have behind := inv.behind
  have room := inv.fits
  have limit := inv.limit
  have limit_lt := shape.limit_lt
  have size_lt := shape.size_lt
  have size_pos := shape.size_pos
  have double : wrap 32 (2 * shape.size) = 2 * shape.size := wrap_of_lt (by omega)
  have odd : wrapSub 32 (2 * shape.size) 1 = 2 * shape.size - 1 :=
    wrapSub_of_le (by omega) (by omega)
  simp only [SymmetricNbb.insertCheck, double] at passed
  split at passed
  · cases passed
  · rename_i notFull
    split_ifs at passed with notReading
    obtain even | ⟨reading, behind'⟩ := inv.ac
    · rw [wrapSub_of_le (by omega) (by omega)] at notFull
      omega
    · rw [wrapSub_of_le (by omega) (by omega)] at notReading
      omega

/-- The tests of the consumer leave it an item. -/
theorem Counted.some_of_check (last : s.nbb.lastAc = 2 * s.taken.length)
    (passed : SymmetricNbb.readCheck s.nbb.lastAc s.nbb.uc = none) :
    s.taken.length < s.inserted.length := by
  have behind := inv.behind
  have limit := inv.limit
  have limit_lt := shape.limit_lt
  simp only [SymmetricNbb.readCheck] at passed
  split at passed
  · cases passed
  · rename_i notEmpty
    split_ifs at passed with notInserting
    obtain even | inserting := inv.uc
    · omega
    · rw [wrapSub_of_le (by omega) (by omega)] at notInserting
      omega

end

section

variable (inv : Counted shape s)
include inv

theorem Counted.produce (unreset : s.unreset shape .producer = true)
    (step : s.produce shape = some s') :
    Counted shape s' := by
  have limit := inv.limit
  have limit_lt := shape.limit_lt
  have limit_even := shape.limit_even
  have notReset : ∀ item, s.producer = .publish item →
      2 * s.inserted.length + 2 ≠ shape.countLimit := by
    intro item pc
    have producer := inv.producer
    rw [pc] at producer
    simp only [Parties.unreset, pc, decide_eq_true_eq, producer.2.1] at unreset
    rwa [wrap_of_lt (by omega)] at unreset
  have tracked := inv.toTracked.produce (counts_double limit)
    (fun item pc => advance_double limit (notReset item pc)) (fun _ => inv.room_of_check) step
  simp only [Parties.produce] at step
  generalize pc : s.producer = access at step
  cases access with
  | idle =>
    cases step
  | loadAc | begin | storeSlot | remember =>
    cases step
    exact { tracked with limit := limit, taken := inv.taken, slots := inv.slots }
  | publish item =>
    cases step
    have unreset := notReset item pc
    have last : s.nbb.lastUc = 2 * s.inserted.length := by
      have producer := inv.producer
      rw [pc] at producer
      exact producer.2.1
    have len : (s.inserted ++ [item]).length = s.inserted.length + 1 := by simp
    refine { tracked with limit := by dsimp only; omega, taken := ?_, slots := ?_ }
    · rw [List.take_append_of_le_length inv.behind]
      exact inv.taken
    · simp only [len, List.range_succ, List.map_append, inv.slots, Shape.slot, last,
        Nat.mul_div_cancel_left _ Nat.two_pos]
      rfl

theorem Counted.consume (step : s.consume shape = some s') :
    Counted shape s' := by
  have limit := inv.limit
  have behind := inv.behind
  have first : ∀ item, s.consumer = .publish item → s.inserted[s.taken.length]? = some item := by
    intro item pc
    have consumer := inv.consumer
    rw [pc] at consumer
    exact consumer.2.2
  have tracked := inv.toTracked.consume (counts_double (by omega))
    (fun item pc => by
      obtain ⟨lt, _⟩ := List.getElem?_eq_some_iff.mp (first item pc)
      exact advance_double (by omega) (by omega)) inv.some_of_check step
  simp only [Parties.consume] at step
  generalize pc : s.consumer = access at step
  cases access with
  | idle =>
    cases step
  | loadUc | begin | loadSlot | remember =>
    cases step
    exact { tracked with limit := limit, taken := inv.taken, slots := inv.slots }
  | publish item =>
    cases step
    have len : (s.taken ++ [item]).length = s.taken.length + 1 := by simp
    refine { tracked with limit := limit, taken := ?_, slots := inv.slots }
    rw [len, List.take_add_one, first item pc, ← inv.taken]
    rfl

theorem Counted.step {ev : NbbEvent α} (unreset : s.unreset shape ev = true)
    (step : s.step shape ev = some s') :
    Counted shape s' := by
  cases ev with
  | insertItem item =>
    simp only [Parties.step] at step
    split at step
    · rename_i idle
      cases step
      exact { inv.toTracked.insertItem idle nofun item with
        limit := inv.limit, taken := inv.taken, slots := inv.slots }
    · cases step
  | readItem =>
    simp only [Parties.step] at step
    split at step
    · rename_i idle
      cases step
      exact { inv.toTracked.readItem idle with
        limit := inv.limit, taken := inv.taken, slots := inv.slots }
    · cases step
  | producer => exact inv.produce unreset step
  | consumer => exact inv.consume step

end

end Steps

/-! ## No two accesses to one slot -/

/-- What the two parties owe each other: the items read are a prefix of the items inserted,
    and the slot that the producer is writing is neither the one that the consumer is
    reading nor one with an item that has not been taken. -/
structure Disjoint (shape : Shape) (s : Parties α) : Prop where
  fifo : s.taken <+: s.inserted
  reading : s.producer.writing = true → s.consumer.reading = true →
    shape.slot s.nbb.lastUc ≠ shape.slot s.nbb.lastAc
  unread : s.producer.writing = true →
    shape.slot s.nbb.lastUc ∉ s.slots.drop s.taken.length

section Disjoint

variable {shape : Shape} {s : Parties α}

theorem Counted.writing (inv : Counted shape s) (writing : s.producer.writing = true) :
    shape.slot s.nbb.lastUc = s.inserted.length % shape.size ∧
      s.inserted.length < s.taken.length + shape.size := by
  have producer := inv.producer
  generalize pc : s.producer = access at writing producer
  cases access with
  | idle | loadAc | begin | remember =>
    cases writing
  | storeSlot =>
    obtain ⟨_, last, room⟩ := producer
    rw [Shape.slot, last, Nat.mul_div_cancel_left _ Nat.two_pos]
    exact ⟨rfl, room⟩
  | publish =>
    obtain ⟨_, last, room, _⟩ := producer
    rw [Shape.slot, last, Nat.mul_div_cancel_left _ Nat.two_pos]
    exact ⟨rfl, room⟩

theorem Counted.reading (inv : Counted shape s) (reading : s.consumer.reading = true) :
    shape.slot s.nbb.lastAc = s.taken.length % shape.size ∧
      s.taken.length < s.inserted.length := by
  have consumer := inv.consumer
  generalize pc : s.consumer = access at reading consumer
  cases access with
  | idle | loadUc | begin | remember =>
    cases reading
  | loadSlot =>
    obtain ⟨_, last, some⟩ := consumer
    rw [Shape.slot, last, Nat.mul_div_cancel_left _ Nat.two_pos]
    exact ⟨rfl, by simpa using some⟩
  | publish =>
    obtain ⟨_, last, first⟩ := consumer
    obtain ⟨behind, _⟩ := List.getElem?_eq_some_iff.mp first
    rw [Shape.slot, last, Nat.mul_div_cancel_left _ Nat.two_pos]
    exact ⟨rfl, behind⟩

theorem Counted.disjoint (inv : Counted shape s) : Disjoint shape s := by
  refine ⟨?_, fun writing reading => ?_, fun writing listed => ?_⟩
  · rw [inv.taken]
    exact List.take_prefix _ _
  · obtain ⟨written, room⟩ := inv.writing writing
    obtain ⟨read, behind⟩ := inv.reading reading
    rw [written, read]
    exact cell_ne_of_turn inv.behind room (Nat.le_refl _) (by omega) (by omega)
  · obtain ⟨written, room⟩ := inv.writing writing
    rw [written, inv.slots, ← List.map_drop, List.mem_map] at listed
    obtain ⟨p, mem, same⟩ := listed
    obtain ⟨lower, upper⟩ : s.taken.length ≤ p ∧ p < s.inserted.length := by
      rw [List.range_eq_range', List.drop_range', List.mem_range'] at mem
      omega
    exact cell_ne_of_turn lower (by omega) inv.behind room (by omega) same

end Disjoint

/-- In every run of the producer and the consumer in which no counter begins again at 0,
    for every buffer that the constructor makes, the parties stay disjoint and the items
    come out in order. -/
theorem nbb_parties_disjoint [Inhabited α] {shape : Shape} {s : Parties α}
    (run : Reaches (step shape) (fun s event => s.unreset shape event = true) init s) :
    Disjoint shape s := by
  have counted : Counted shape s :=
    run.invariant (counted_init shape) fun counted unreset stepped => counted.step unreset stepped
  exact counted.disjoint

def twoSlots : Shape :=
  ⟨2, 2147483644, by decide, by decide, by decide, by decide, by decide⟩

example : Shape.create 2 = some twoSlots := rfl

/-- The first item is being taken while the second is written. -/
theorem nbb_parties_disjoint_two_slots :
    ∃ s : Parties Nat,
      Reaches (step twoSlots) (fun s event => s.unreset twoSlots event = true) init s ∧
        s.producer = .storeSlot 8 ∧ s.consumer = .publish 7 ∧ Disjoint twoSlots s := by
  have executed : ∃ s ∈ execute (step twoSlots)
      (fun (s : Parties Nat) event => s.unreset twoSlots event = true)
      [.insertItem 7, .producer, .producer, .producer, .producer, .producer,
        .readItem, .consumer, .consumer, .consumer, .insertItem 8, .producer, .producer] init,
      s.producer = .storeSlot 8 ∧ s.consumer = .publish 7 := by
    decide +kernel
  obtain ⟨s, run, producer, consumer⟩ := exists_reaches_of_execute executed
  exact ⟨s, run, producer, consumer, nbb_parties_disjoint run⟩

/-! ## The answers -/

def fullStatus (shape : Shape) (s : Parties α) : Option NbbStatus :=
  if s.inserted.length = s.taken.length + shape.size then
    some (if s.consumer.reading then .fullButConsumerReading else .full)
  else none

def emptyStatus (s : Parties α) : Option NbbStatus :=
  if s.inserted.length = s.taken.length then
    some (if s.producer.writing then .emptyButProducerInserting else .empty)
  else none

section Answers

variable {shape : Shape} {s : Parties α} (inv : Counted shape s)
include inv

theorem Counted.ac_eq : s.nbb.ac = 2 * s.taken.length + s.consumer.reading.toNat := by
  have consumer := inv.consumer
  generalize s.consumer = access at consumer ⊢
  cases access with
  | remember => exact consumer
  | _ => exact consumer.1

theorem Counted.uc_eq : s.nbb.uc = 2 * s.inserted.length + s.producer.writing.toNat := by
  have producer := inv.producer
  generalize s.producer = access at producer ⊢
  cases access with
  | remember => exact producer
  | _ => exact producer.1

theorem Counted.insertCheck_eq (last : s.nbb.lastUc = 2 * s.inserted.length) :
    SymmetricNbb.insertCheck shape s.nbb.lastUc s.nbb.ac = s.fullStatus shape := by
  have ac := inv.ac_eq
  have room := inv.fits
  have behind := inv.behind
  have taking := fun reading => (inv.reading reading).2
  have fits := inv.limit.trans shape.limit_lt
  have size_lt := shape.size_lt
  have size_pos := shape.size_pos
  have double : wrap 32 (2 * shape.size) = 2 * shape.size := wrap_of_lt (by omega)
  have odd : wrapSub 32 (2 * shape.size) 1 = 2 * shape.size - 1 :=
    wrapSub_of_le (by omega) (by omega)
  rw [SymmetricNbb.insertCheck, fullStatus, double, odd]
  cases reading : s.consumer.reading <;>
  · simp only [reading, Bool.toNat_false, Bool.toNat_true, Bool.false_eq_true, forall_const,
      reduceIte] at ac taking ⊢
    rw [wrapSub_of_le (by omega) (by omega)]
    split_ifs <;> first | rfl | omega

theorem Counted.readCheck_eq (last : s.nbb.lastAc = 2 * s.taken.length) :
    SymmetricNbb.readCheck s.nbb.lastAc s.nbb.uc = s.emptyStatus := by
  have uc := inv.uc_eq
  have behind := inv.behind
  have fits := inv.limit.trans shape.limit_lt
  rw [SymmetricNbb.readCheck, emptyStatus]
  cases writing : s.producer.writing <;>
  · simp only [writing, Bool.toNat_false, Bool.toNat_true, Bool.false_eq_true, reduceIte] at uc ⊢
    rw [wrapSub_of_le (by omega) (by omega)]
    split_ifs <;> first | rfl | omega

end Answers

/-- In every run in which no counter begins again at 0, a call is refused exactly when its one
    look at the counter of the other party is made while the buffer is full, or empty. -/
theorem nbb_answers_as_queue [Inhabited α] {shape : Shape} {s : Parties α}
    (run : Reaches (step shape) (fun s event => s.unreset shape event = true) init s) :
    (∀ item, s.producer = .loadAc item →
      SymmetricNbb.insertCheck shape s.nbb.lastUc s.nbb.ac = s.fullStatus shape) ∧
    (s.consumer = .loadUc →
      SymmetricNbb.readCheck s.nbb.lastAc s.nbb.uc = s.emptyStatus) := by
  have inv : Counted shape s :=
    run.invariant (counted_init shape) fun inv unreset stepped => inv.step unreset stepped
  have producer := inv.producer
  have consumer := inv.consumer
  refine ⟨fun item pc => inv.insertCheck_eq ?_, fun pc => inv.readCheck_eq ?_⟩
  · rw [pc] at producer
    exact producer.2.1
  · rw [pc] at consumer
    exact consumer.2

/-- The first item is being inserted. -/
theorem nbb_answers_as_queue_first :
    ∃ s : Parties Nat,
      Reaches (step twoSlots) (fun s event => s.unreset twoSlots event = true) init s ∧
        SymmetricNbb.readCheck s.nbb.lastAc s.nbb.uc = some .emptyButProducerInserting := by
  have executed : ∃ s ∈ execute (step twoSlots)
      (fun (s : Parties Nat) event => s.unreset twoSlots event = true)
      [.insertItem 7, .producer, .producer, .readItem] init,
      s.consumer = .loadUc ∧ s.emptyStatus = some .emptyButProducerInserting := by
    decide
  obtain ⟨s, run, pc, empty⟩ := exists_reaches_of_execute executed
  exact ⟨s, run, ((nbb_answers_as_queue run).2 pc).trans empty⟩

end Parties

end Xdk.Nbb
