import Xdk.Lib.Holding
import Xdk.Lib.Ring
import Xdk.Numa.Circbuffer

/-! # Every item is delivered in its turn

The four counters are 8 times a number of items, modulo 2^32: `_prod_tail` counts the items
accepted, `_cons_head` the items claimed and `_cons_tail` the items returned.  The numbers
between the last two are the tickets of the consumers that are at work, and these finish in
their order.  The producer stays less than a turn ahead of `_cons_tail`, so the slot it
writes belongs to none of them.
-/

namespace Xdk.Numa

open Xdk.Lib Function

def counter (number : Nat) : Nat := wrap 32 (8 * number)

theorem next_counter (n : Nat) : Circbuffer.next (counter n) = counter (n + 1) := by
  rw [Circbuffer.next, counter, wrap, wrap, Nat.mod_add_mod]
  rfl

/-- Two numbers less than 2^29 apart with the same counter are equal. -/
theorem counter_inj {first second : Nat} (ordered : first ≤ second)
    (close : second < first + 2 ^ 29) (same : counter first = counter second) :
    first = second := by
  have := eq_of_wrap_eq (Nat.mul_le_mul_left 8 ordered) (by omega) same
  omega

/-! ## The slots -/

def Size.lines (size : Size) : Nat := 2 ^ (size.exponent - 3)

theorem Size.slots_eq (size : Size) : size.slots = 8 * size.lines := by
  have large := size.large
  rw [Size.slots, Size.lines, show (8 : Nat) = 2 ^ 3 from rfl, ← Nat.pow_add]
  congr 1
  omega

theorem Size.lines_bounds (size : Size) : 2 ≤ size.lines ∧ size.lines ≤ 2 ^ 28 := by
  have large := size.large
  have fits := size.fits
  refine ⟨?_, Nat.pow_le_pow_right (by decide) (by omega)⟩
  exact (Nat.pow_le_pow_right (by decide) (show 1 ≤ size.exponent - 3 by omega) :
    2 ^ 1 ≤ 2 ^ (size.exponent - 3))

theorem slot_counter (size : Size) (n : Nat) :
    Circbuffer.slot size (counter n) = 8 * n % size.slots := by
  exact Nat.mod_mod_of_dvd _ (Nat.pow_dvd_pow 2 (Nat.le_of_lt size.fits))

/-- Numbers that are less than a turn apart have slots of their own. -/
theorem slot_counter_ne {size : Size} {a b : Nat} (before : a < b)
    (close : b < a + size.lines) :
    Circbuffer.slot size (counter a) ≠ Circbuffer.slot size (counter b) := by
  rw [slot_counter, slot_counter, size.slots_eq]
  intro same
  have := position_eq_of_close (Nat.mul_le_mul_left 8 (Nat.le_of_lt before)) (by omega) same
  omega

/-! ## The two tests -/

/-- While nobody has claimed an item in between, there is one behind the test of
    `consume`. -/
theorem not_seesEmpty {claimed accepted : Nat} (behind : claimed ≤ accepted)
    (notEmpty : Circbuffer.seesEmpty (counter claimed) (counter accepted) = false) :
    claimed < accepted := by
  rw [Circbuffer.seesEmpty, decide_eq_false_iff_not, counter, counter,
    wrapSub_wrap (Nat.mul_le_mul_left 8 behind)] at notEmpty
  by_contra more
  obtain rfl : claimed = accepted := by omega
  rw [Nat.sub_self] at notEmpty
  exact notEmpty (by decide)

/-- Behind the test of `produce` there is room for an item, with one line to spare. -/
theorem not_seesFull {size : Size} {accepted returned : Nat}
    (room : accepted < returned + size.lines)
    (notFull : Circbuffer.seesFull size (counter accepted) (counter returned) = false) :
    accepted + 1 < returned + size.lines := by
  have bounds := size.lines_bounds
  have slots := size.slots_eq
  have sum : wrap 32 (size.mask + counter returned) = wrap 32 (size.mask + 8 * returned) := by
    rw [counter, wrap, wrap, wrap, Nat.add_mod_mod]
  rw [Circbuffer.seesFull, decide_eq_false_iff_not, sum, counter,
    wrapSub_wrap (by rw [Size.mask]; omega)] at notFull
  by_contra more
  have few : size.mask + 8 * returned - 8 * accepted = 7 := by
    rw [Size.mask]
    omega
  rw [few] at notFull
  exact notFull (by decide)

/-! ## The parties -/

/-- The number of the item that a consumer has claimed and not yet returned. -/
def ConsumerPc.ticket : ConsumerPc → Option Nat
  | .loadSlot _ number | .loadConsTail _ number _ | .storeConsTail _ number _ => some number
  | .idle | .loadConsHead | .loadProdTail _ _ | .cas _ _ | .done _ => none

namespace Parties

variable {Consumer : Type*}

/-- Fewer than 2^29 items are claimed between a consumer's read of `_cons_head` and its
    compare-and-swap. -/
def Allowed (s : Parties Consumer) : ChannelEvent Consumer → Prop
  | .consumer consumer =>
    match s.consumers consumer with
    | .cas _ claimed => s.claimed < claimed + 2 ^ 29
    | _ => True
  | .produce _ | .producer | .consume _ => True

instance (s : Parties Consumer) (event : ChannelEvent Consumer) : Decidable (s.Allowed event) :=
  match event with
  | .consumer consumer =>
    match pc : s.consumers consumer with
    | .cas _ claimed => decidable_of_iff (s.claimed < claimed + 2 ^ 29) (by simp only [Allowed, pc])
    | .idle | .loadConsHead | .loadProdTail _ _ | .loadSlot _ _ | .loadConsTail _ _ _
    | .storeConsTail _ _ _ | .done _ => isTrue (by simp only [Allowed, pc])
  | .produce _ | .producer | .consume _ => isTrue trivial

def tickets (s : Parties Consumer) (consumer : Consumer) : Option Nat :=
  (s.consumers consumer).ticket

def ConsumerAt (accepted : List Nat) (claimed returned : Nat) : ConsumerPc → Prop
  | .loadProdTail consHead old => consHead = counter old ∧ old ≤ claimed
  | .cas consHead old => consHead = counter old ∧ old ≤ claimed ∧
      (old = claimed → claimed < accepted.length)
  | .loadSlot consHead number => consHead = counter number
  | .loadConsTail consHead number item => consHead = counter number ∧ accepted[number]? = some item
  | .storeConsTail consHead number item => consHead = counter number ∧
      accepted[number]? = some item ∧ number = returned
  | .idle | .loadConsHead | .done _ => True

/-- What the producer knows: `room` says that there is room for one more item. -/
def ProducerAt (size : Size) (ring : Circbuffer) (accepted : Nat) (room : Prop) :
    ProducerPc → Prop
  | .idle | .loadProdHead _ | .done _ => ring.prodHead = counter accepted
  | .loadConsTail _ prodHead => ring.prodHead = counter accepted ∧ prodHead = counter accepted
  | .storeProdHead _ prodHead => prodHead = counter accepted ∧ room
  | .storeSlot _ prodHead => ring.prodHead = counter (accepted + 1) ∧
      prodHead = counter accepted ∧ room
  | .storeProdTail item prodHead => ring.prodHead = counter (accepted + 1) ∧
      prodHead = counter accepted ∧ room ∧ ring.buffer (Circbuffer.slot size prodHead) = item

structure Consistent (size : Size) (s : Parties Consumer) : Prop where
  prodTail : s.ring.prodTail = counter s.accepted.length
  consHead : s.ring.consHead = counter s.claimed
  consTail : s.ring.consTail = counter s.returned.length
  tickets : Ticketed s.tickets s.returned.length s.claimed
  behind : s.claimed ≤ s.accepted.length
  room : s.accepted.length < s.returned.length + size.lines
  content : ∀ number, s.returned.length ≤ number → number < s.accepted.length →
    s.accepted[number]? = some (s.ring.buffer (Circbuffer.slot size (counter number)))
  results : ∀ (number : Nat) (entry : Consumer × Nat × Nat), s.returned[number]? = some entry →
    entry.2.1 = number ∧ s.accepted[number]? = some entry.2.2
  consumers : ∀ consumer,
    ConsumerAt s.accepted s.claimed s.returned.length (s.consumers consumer)
  producer : ProducerAt size s.ring s.accepted.length
    (s.accepted.length + 1 < s.returned.length + size.lines) s.producer

section Steps

variable {size : Size} {s s' : Parties Consumer}

theorem consistent_init (size : Size) : Consistent size (init : Parties Consumer) where
  prodTail := rfl
  consHead := rfl
  consTail := rfl
  tickets := ticketed_none 0
  behind := Nat.le_refl _
  room := by
    have bounds := size.lines_bounds
    simp only [init]
    omega
  content := fun n _ lt => absurd lt (Nat.not_lt_zero _)
  results := fun n entry mem => by cases mem
  consumers := fun _ => trivial
  producer := rfl

/-! ### The producer -/

theorem ConsumerAt.accept {accepted : List Nat} {claimed returned : Nat} {pc : ConsumerPc}
    (known : ConsumerAt accepted claimed returned pc) (item : Nat) :
    ConsumerAt (accepted ++ [item]) claimed returned pc := by
  have kept : ∀ {number old : Nat}, accepted[number]? = some old →
      (accepted ++ [item])[number]? = some old := by
    intro number old got
    rw [List.getElem?_append_left (List.getElem?_eq_some_iff.mp got).1]
    exact got
  cases pc with
  | cas consHead old =>
    refine ⟨known.1, known.2.1, fun same => ?_⟩
    rw [List.length_append]
    exact Nat.lt_add_right _ (known.2.2 same)
  | loadConsTail consHead number got => exact ⟨known.1, kept known.2⟩
  | storeConsTail consHead number got => exact ⟨known.1, kept known.2.1, known.2.2⟩
  | idle | loadConsHead | loadProdTail | loadSlot | done => exact known

theorem Consistent.publish {item : Nat} (inv : Consistent size s)
    (room : s.accepted.length + 1 < s.returned.length + size.lines)
    (content : s.ring.buffer (Circbuffer.slot size (counter s.accepted.length)) = item)
    (prodHead : s.ring.prodHead = counter (s.accepted.length + 1)) :
    Consistent size { s with
      ring := { s.ring with prodTail := Circbuffer.next (counter s.accepted.length) }
      producer := .done .ok
      accepted := s.accepted ++ [item] } := by
  have len : (s.accepted ++ [item]).length = s.accepted.length + 1 := List.length_append
  have kept : ∀ {number}, number < s.accepted.length →
      (s.accepted ++ [item])[number]? = s.accepted[number]? :=
    fun lt => List.getElem?_append_left lt
  refine
    { prodTail := ?_
      consHead := inv.consHead
      consTail := inv.consTail
      tickets := inv.tickets
      behind := ?_
      room := ?_
      content := fun number lo hi => ?_
      results := fun number e mem => ?_
      consumers := fun c => (inv.consumers c).accept item
      producer := ?_ }
  · rw [len]
    exact next_counter _
  · rw [len]
    exact Nat.le_succ_of_le inv.behind
  · rw [len]
    exact room
  · rw [len] at hi
    by_cases last : number = s.accepted.length
    · subst last
      rw [List.getElem?_concat_length, content]
    · rw [kept (by omega)]
      exact inv.content number lo (by omega)
  · obtain ⟨same, got⟩ := inv.results number e mem
    refine ⟨same, ?_⟩
    rw [kept (List.getElem?_eq_some_iff.mp got).1]
    exact got
  · rw [len]
    exact prodHead

theorem Consistent.produceStep (inv : Consistent size s)
    (step : s.produceStep size = some s') : Consistent size s' := by
  have known := inv.producer
  simp only [Parties.produceStep] at step
  generalize pc : s.producer = access at step known
  cases access with
  | idle =>
    cases step
  | loadProdHead x =>
    cases step
    exact { inv with producer := ⟨known, known⟩ }
  | loadConsTail x prodHead =>
    cases step
    obtain ⟨head, rfl⟩ := known
    refine { inv with producer := ?_ }
    split
    · exact head
    · rename_i notFull
      rw [inv.consTail, Bool.not_eq_true] at notFull
      exact ⟨rfl, not_seesFull inv.room notFull⟩
  | storeProdHead x prodHead =>
    cases step
    obtain ⟨rfl, room⟩ := known
    exact { inv with producer := ⟨next_counter _, rfl, room⟩ }
  | storeSlot x prodHead =>
    cases step
    obtain ⟨head, rfl, room⟩ := known
    refine { inv with
      content := fun number lo hi => ?_
      producer := ⟨head, rfl, room, update_self _ _ _⟩ }
    have elsewhere : Circbuffer.slot size (counter number) ≠
        Circbuffer.slot size (counter s.accepted.length) := by
      have lo : s.returned.length ≤ number := lo
      exact slot_counter_ne hi (by omega)
    rw [inv.content number lo hi]
    exact congrArg some (update_of_ne elsewhere _ _).symm
  | storeProdTail x prodHead =>
    cases step
    obtain ⟨head, rfl, room, content⟩ := known
    exact inv.publish room content head
  | done status =>
    cases step
    exact { inv with producer := known }

/-! ### The consumers -/

variable {consumer : Consumer}

/-- The compare-and-swap succeeds only while nobody has claimed an item since `_cons_head`
    was read. -/
theorem Consistent.cas_current {consHead old : Nat} (inv : Consistent size s)
    (pc : s.consumers consumer = .cas consHead old) (ok : s.claimed < old + 2 ^ 29)
    (same : s.ring.consHead = consHead) :
    consHead = counter s.claimed ∧ s.claimed < s.accepted.length := by
  have known := inv.consumers consumer
  rw [pc] at known
  obtain ⟨rfl, older, stored⟩ := known
  have equal := counter_inj older ok (same.symm.trans inv.consHead)
  exact ⟨congrArg counter equal, stored equal⟩

variable [DecidableEq Consumer]

theorem tickets_setPc (s : Parties Consumer) (c : Consumer) (pc : ConsumerPc) :
    (s.setPc c pc).tickets = update s.tickets c pc.ticket :=
  comp_update ConsumerPc.ticket s.consumers c pc

/-- A step of a consumer that neither claims nor returns an item. -/
theorem Consistent.setPc {pc : ConsumerPc} (inv : Consistent size s)
    (same : pc.ticket = s.tickets consumer)
    (known : ConsumerAt s.accepted s.claimed s.returned.length pc) :
    Consistent size (s.setPc consumer pc) := by
  have tickets : (s.setPc consumer pc).tickets = s.tickets := by
    rw [tickets_setPc, same, update_eq_self]
  refine { inv with tickets := ?_, consumers := ?_ }
  · rw [tickets]
    exact inv.tickets
  · exact (forall_update_iff _
      fun _ pc => ConsumerAt s.accepted s.claimed s.returned.length pc).mpr
        ⟨known, fun o _ => inv.consumers o⟩

theorem Consistent.claim (inv : Consistent size s) (free : s.tickets consumer = none)
    (stored : s.claimed < s.accepted.length) :
    Consistent size { s.setPc consumer (.loadSlot (counter s.claimed) s.claimed) with
      ring := { s.ring with consHead := Circbuffer.next (counter s.claimed) }
      claimed := s.claimed + 1 } := by
  refine
    { prodTail := inv.prodTail
      consHead := next_counter _
      consTail := inv.consTail
      tickets := ?_
      behind := stored
      room := inv.room
      content := inv.content
      results := inv.results
      consumers := ?_
      producer := inv.producer }
  · have drawn := inv.tickets.draw free
    have tickets := tickets_setPc s consumer (.loadSlot (counter s.claimed) s.claimed)
    exact tickets ▸ drawn
  · refine (forall_update_iff _
      fun _ pc => ConsumerAt s.accepted (s.claimed + 1) s.returned.length pc).mpr
        ⟨rfl, fun o _ => ?_⟩
    have known := inv.consumers o
    generalize pc : s.consumers o = access at known
    cases access with
    | loadProdTail consHead old =>
      exact ⟨known.1, Nat.le_succ_of_le known.2⟩
    | cas consHead old =>
      refine ⟨known.1, Nat.le_succ_of_le known.2.1, fun same => ?_⟩
      have older := known.2.1
      omega
    | idle | loadConsHead | loadSlot | loadConsTail | storeConsTail | done =>
      exact known

theorem ProducerAt.mono {ring : Circbuffer} {accepted : Nat} {room more : Prop} {pc : ProducerPc}
    (known : ProducerAt size ring accepted room pc) (weaker : room → more) :
    ProducerAt size ring accepted more pc := by
  cases pc with
  | storeProdHead x prodHead => exact ⟨known.1, weaker known.2⟩
  | storeSlot x prodHead => exact ⟨known.1, known.2.1, weaker known.2.2⟩
  | storeProdTail x prodHead =>
    exact ⟨known.1, known.2.1, weaker known.2.2.1, known.2.2.2⟩
  | idle | loadProdHead | loadConsTail | done => exact known

/-- The consumer whose turn it is returns its item. -/
theorem Consistent.finish {x : Nat} (inv : Consistent size s)
    (holds : s.tickets consumer = some s.returned.length)
    (got : s.accepted[s.returned.length]? = some x) :
    Consistent size { s.setPc consumer (.done .ok) with
      ring := { s.ring with consTail := Circbuffer.next (counter s.returned.length) }
      returned := s.returned ++ [(consumer, s.returned.length, x)] } := by
  have len : (s.returned ++ [(consumer, s.returned.length, x)]).length =
      s.returned.length + 1 := List.length_append
  have room := inv.room
  refine
    { prodTail := inv.prodTail
      consHead := inv.consHead
      consTail := ?_
      tickets := ?_
      behind := inv.behind
      room := ?_
      content := fun n lo hi => ?_
      results := fun n e mem => ?_
      consumers := ?_
      producer := ?_ }
  · rw [len]
    exact next_counter _
  · rw [len]
    have tickets := tickets_setPc s consumer (.done .ok)
    exact tickets ▸ inv.tickets.finish holds
  · rw [len]
    exact Nat.lt_of_lt_of_le room (by omega)
  · rw [len] at lo
    exact inv.content n (by omega) hi
  · by_cases last : n = s.returned.length
    · subst last
      rw [List.getElem?_concat_length] at mem
      obtain rfl := Option.some.inj mem
      exact ⟨rfl, got⟩
    · have lt := (List.getElem?_eq_some_iff.mp mem).1
      rw [len] at lt
      rw [List.getElem?_append_left (by omega)] at mem
      exact inv.results n e mem
  · rw [len]
    refine (forall_update_iff _
      fun _ pc => ConsumerAt s.accepted s.claimed (s.returned.length + 1) pc).mpr
        ⟨trivial, fun o ne => ?_⟩
    have known := inv.consumers o
    generalize pc : s.consumers o = access at known
    cases access with
    | storeConsTail consHead n got =>
      have alsoHolds : s.tickets o = some s.returned.length := by
        rw [← known.2.2, Parties.tickets, pc]
        rfl
      exact absurd (inv.tickets.exclusive o consumer _ alsoHolds holds) ne
    | idle | loadConsHead | loadProdTail | cas | loadSlot | loadConsTail | done =>
      exact known
  · rw [len]
    exact inv.producer.mono (fun room => Nat.lt_of_lt_of_le room (by omega))

theorem Consistent.consumeStep (inv : Consistent size s)
    (ok : s.Allowed (.consumer consumer))
    (step : s.consumeStep size consumer = some s') : Consistent size s' := by
  have known := inv.consumers consumer
  simp only [Allowed] at ok
  simp only [Parties.consumeStep] at step
  generalize pc : s.consumers consumer = access at step known ok
  cases access with
  | idle =>
    cases step
  | loadConsHead =>
    cases step
    exact inv.setPc (by rw [Parties.tickets, pc]; rfl)
      ⟨inv.consHead, Nat.le_refl _⟩
  | loadProdTail consHead old =>
    cases step
    obtain ⟨rfl, older⟩ := known
    split
    · exact inv.setPc (by rw [Parties.tickets, pc]; rfl) trivial
    · rename_i notEmpty
      refine inv.setPc (by rw [Parties.tickets, pc]; rfl) ⟨rfl, older, ?_⟩
      rintro rfl
      rw [inv.prodTail, Bool.not_eq_true] at notEmpty
      exact not_seesEmpty inv.behind notEmpty
  | cas consHead old =>
    dsimp only at step
    split at step
    · rename_i same
      obtain ⟨rfl, stored⟩ := inv.cas_current pc ok same
      cases step
      exact inv.claim (by rw [Parties.tickets, pc]; rfl) stored
    · cases step
      exact inv.setPc (by rw [Parties.tickets, pc]; rfl) trivial
  | loadSlot consHead number =>
    cases step
    obtain rfl := known
    have holds : s.tickets consumer = some number := by rw [Parties.tickets, pc]; rfl
    obtain ⟨lo, hi⟩ := (inv.tickets.between number).mp ⟨consumer, holds⟩
    have stored := inv.content number lo (Nat.lt_of_lt_of_le hi inv.behind)
    exact inv.setPc holds.symm ⟨rfl, stored⟩
  | loadConsTail consHead number x =>
    cases step
    obtain ⟨rfl, got⟩ := known
    have holds : s.tickets consumer = some number := by rw [Parties.tickets, pc]; rfl
    split
    · rename_i turn
      obtain ⟨lo, hi⟩ := (inv.tickets.between number).mp ⟨consumer, holds⟩
      have behind := inv.behind
      have room := inv.room
      have bounds := size.lines_bounds
      have equal := counter_inj lo (by omega) (inv.consTail.symm.trans turn)
      exact inv.setPc holds.symm ⟨rfl, got, equal.symm⟩
    · exact inv.setPc holds.symm ⟨rfl, got⟩
  | storeConsTail consHead number x =>
    cases step
    obtain ⟨rfl, got, rfl⟩ := known
    exact inv.finish (by rw [Parties.tickets, pc]; rfl) got
  | done status =>
    cases step
    exact inv.setPc (by rw [Parties.tickets, pc]; rfl) trivial

theorem Consistent.step {ev : ChannelEvent Consumer} (inv : Consistent size s)
    (ok : s.Allowed ev) (step : s.step size ev = some s') : Consistent size s' := by
  cases ev with
  | produce item =>
    simp only [Parties.step] at step
    split at step
    swap
    · cases step
    rename_i idle
    have known := inv.producer
    rw [idle] at known
    cases step
    refine { inv with producer := ?_ }
    split
    · exact known
    · exact known
  | producer => exact inv.produceStep step
  | consume consumer =>
    simp only [Parties.step] at step
    split at step
    · rename_i idle
      cases step
      exact inv.setPc (by rw [Parties.tickets, idle]; rfl) trivial
    · cases step
  | consumer consumer => exact inv.consumeStep ok step

theorem consistent_reaches
    (run : Reaches (fun s ev => s.step size ev) Allowed (init : Parties Consumer) s) :
    Consistent size s :=
  run.invariant (motive := Consistent size) (consistent_init size)
    fun inv ok step => inv.step ok step

end Steps

/-! ## What the channel promises -/

structure Delivered (size : Size) (s : Parties Consumer) : Prop where
  -- the calls that have returned have the first items, in their order and each once
  numbers : (s.returned.map fun entry => entry.2.1) = List.range s.returned.length
  items : (s.returned.map fun entry => entry.2.2) = s.accepted.take s.returned.length
  -- a claim that is at work has an item that nobody else has or had
  alone : ∀ first second number, s.tickets first = some number →
    s.tickets second = some number → first = second
  between : ∀ number, (∃ consumer, s.tickets consumer = some number) ↔
    s.returned.length ≤ number ∧ number < s.claimed
  -- claim number `k` gets item number `k`
  claims : s.claimed ≤ s.accepted.length
  copies : ∀ consumer consHead number, s.consumers consumer = .loadSlot consHead number →
    s.accepted[number]? = some (s.ring.buffer (Circbuffer.slot size consHead))
  got : ∀ consumer consHead number item,
    s.consumers consumer = .loadConsTail consHead number item ∨
      s.consumers consumer = .storeConsTail consHead number item →
    s.accepted[number]? = some item
  -- what a consumer is about to copy is not overwritten
  safe : ∀ item prodHead, s.producer = .storeSlot item prodHead →
    ∀ consumer consHead number, s.consumers consumer = .loadSlot consHead number →
      Circbuffer.slot size prodHead ≠ Circbuffer.slot size consHead

section Contract

variable {size : Size} {s : Parties Consumer}

section

variable (inv : Consistent size s)
include inv

theorem Consistent.result {number : Nat} (lt : number < s.returned.length) :
    s.returned[number].2.1 = number ∧
      s.accepted[number]? = some s.returned[number].2.2 :=
  inv.results number _ (List.getElem?_eq_getElem lt)

theorem Consistent.numbers :
    (s.returned.map fun e => e.2.1) = List.range s.returned.length := by
  refine List.ext_getElem (by simp) fun number lt _ => ?_
  rw [List.length_map] at lt
  rw [List.getElem_map, List.getElem_range]
  exact (inv.result lt).1

theorem Consistent.items :
    (s.returned.map fun e => e.2.2) = s.accepted.take s.returned.length := by
  refine List.ext_getElem? fun n => ?_
  by_cases listed : n < s.returned.length
  · rw [List.getElem?_map, List.getElem?_eq_getElem listed, List.getElem?_take_of_lt listed]
    exact (inv.result listed).2.symm
  · rw [List.getElem?_eq_none (by simpa using listed), List.getElem?_eq_none]
    rw [List.length_take]
    omega

theorem Consistent.copies {c : Consumer} {consHead number : Nat}
    (pc : s.consumers c = .loadSlot consHead number) :
    consHead = counter number ∧ s.returned.length ≤ number ∧ number < s.accepted.length := by
  have known := inv.consumers c
  rw [pc] at known
  have holds : s.tickets c = some number := by rw [Parties.tickets, pc]; rfl
  obtain ⟨lo, hi⟩ := (inv.tickets.between number).mp ⟨c, holds⟩
  exact ⟨known, lo, Nat.lt_of_lt_of_le hi inv.behind⟩

end

variable [DecidableEq Consumer]

/-- However long a run is, every item goes to the claim with its number, and no item is
    overwritten before it has been copied. -/
theorem numa_circular_buffer_delivers (size : Size) (s : Parties Consumer)
    (run : Reaches (fun s event => s.step size event) Allowed init s) : Delivered size s := by
  have consistent := consistent_reaches run
  refine
    { numbers := consistent.numbers
      items := consistent.items
      alone := consistent.tickets.exclusive
      between := consistent.tickets.between
      claims := consistent.behind
      copies := fun consumer consHead number pc => ?_
      got := fun consumer consHead number item pc => ?_
      safe := fun item prodHead writing consumer consHead number pc => ?_ }
  · obtain ⟨rfl, lower, upper⟩ := consistent.copies pc
    exact consistent.content number lower upper
  · have known := consistent.consumers consumer
    obtain pc | pc := pc
    · rw [pc] at known
      exact known.2
    · rw [pc] at known
      exact known.2.1
  · have known := consistent.producer
    rw [writing] at known
    obtain ⟨_, rfl, room⟩ := known
    obtain ⟨rfl, lower, upper⟩ := consistent.copies pc
    exact (slot_counter_ne upper (by omega)).symm

/-- The second consumer has copied item 5 and waits for the first one, which is about to
    copy item 3. -/
theorem numa_circular_buffer_delivers_waiting : ∃ s : Parties Bool,
    Reaches (fun s event => s.step ⟨5, by decide, by decide⟩ event) Allowed init s ∧
      s.consumers false = .loadSlot 0 0 ∧ s.consumers true = .loadConsTail 8 1 5 ∧
      s.producer = .storeSlot 7 16 ∧ Delivered ⟨5, by decide, by decide⟩ s := by
  have executed : ∃ s ∈ execute
      (fun (s : Parties Bool) event => s.step ⟨5, by decide, by decide⟩ event) Allowed
      [.produce 3, .producer, .producer, .producer, .producer, .producer, .producer,
        .produce 5, .producer, .producer, .producer, .producer, .producer, .producer,
        .consume false, .consumer false, .consumer false, .consumer false,
        .consume true, .consumer true, .consumer true, .consumer true, .consumer true,
        .consumer true, .produce 7, .producer, .producer, .producer] init,
      s.consumers false = .loadSlot 0 0 ∧ s.consumers true = .loadConsTail 8 1 5 ∧
      s.producer = .storeSlot 7 16 := by
    decide +kernel
  obtain ⟨s, run, first, second, writing⟩ := exists_reaches_of_execute executed
  exact ⟨s, run, first, second, writing, numa_circular_buffer_delivers _ s run⟩

end Contract

end Parties

end Xdk.Numa
