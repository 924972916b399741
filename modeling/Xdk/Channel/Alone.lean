import Xdk.Channel.Delivery
import Xdk.Lib.Ring

/-! # A consumer that is not disturbed

While `_tail` and its successor fit into 32 bits, a call of `consume` that runs alone takes
the oldest item, or reports that there is none.  `temp + 1` is computed in 32 bits: the
consumer that claims position 2^32 - 1 sets `_tail` back to 0, behind items that were
returned long ago.
-/

namespace Xdk.Channel

open Xdk.Lib Function

namespace Circbuffer

variable {size : Size} {c : Circbuffer}

def stored (size : Size) (c : Circbuffer) : List Nat :=
  window size.items c.buffer c.tail (c.head - c.tail)

/-- The claim and the mark take the oldest item out and leave the rest alone. -/
theorem stored_claim (some : c.tail < c.head) (fits : c.head - c.tail ≤ size.items)
    (small : c.tail + 1 < 2 ^ 32) :
    c.stored size = c.buffer (slot size c.tail) ::
      ((c.claim c.tail).markSlot size c.tail).stored size := by
  have moved : ((c.claim c.tail).markSlot size c.tail).tail = c.tail + 1 := wrap_of_lt small
  have outside : ∀ offset < c.head - (c.tail + 1),
      (c.tail + 1 + offset) % size.items ≠ slot size c.tail := by
    intro offset bound
    have lo : c.tail ≤ c.tail + 1 + offset := by omega
    exact cell_ne_of_turn lo (by omega) (Nat.le_refl _) (by omega) (by omega)
  have kept : window size.items (update c.buffer (slot size c.tail) dummyAddr)
      (c.tail + 1) (c.head - (c.tail + 1)) =
        window size.items c.buffer (c.tail + 1) (c.head - (c.tail + 1)) :=
    window_update_outside c.buffer dummyAddr outside
  rw [stored, stored, moved]
  rw [show c.head - c.tail = c.head - (c.tail + 1) + 1 by omega, window_cons]
  exact congrArg _ kept.symm

theorem seesEmpty_iff (behind : c.tail ≤ c.head) (range : c.head < 2 ^ 64) :
    c.seesEmpty c.tail = true ↔ c.head = c.tail := by
  rw [seesEmpty, decide_eq_true_iff, wrapSub_of_le behind range]
  omega

theorem consume_of_lt (ahead : c.tail < c.head) (range : c.head < 2 ^ 64)
    (small : c.tail < 2 ^ 32) :
    c.consume size = ((.ok, some (c.buffer (slot size c.tail))),
      (c.claim c.tail).markSlot size c.tail) := by
  have copy : c.loadTail = c.tail := wrap_of_lt small
  have notEmpty : ¬ c.seesEmpty c.tail = true := by
    rw [seesEmpty_iff (Nat.le_of_lt ahead) range]
    omega
  rw [consume, copy, if_neg notEmpty, if_pos rfl]

theorem consume_of_eq (same : c.head = c.tail) (small : c.tail < 2 ^ 32) :
    c.consume size = ((.empty, none), c) := by
  have copy : c.loadTail = c.tail := wrap_of_lt small
  rw [consume, copy, if_pos ((seesEmpty_iff (by omega) (by omega)).mpr same)]

/-- The copy of a `_tail` beyond 32 bits is another number, at which no compare-and-swap
    succeeds. -/
theorem consume_of_le (behind : c.tail ≤ c.head) (range : c.head < 2 ^ 64)
    (large : 2 ^ 32 ≤ c.tail) : c.consume size = ((.contention, none), c) := by
  have copy : c.loadTail < 2 ^ 32 := Nat.mod_lt _ (Nat.two_pow_pos 32)
  have notEmpty : ¬ c.seesEmpty c.loadTail = true := by
    rw [seesEmpty, decide_eq_true_iff, wrapSub_of_le (by omega) range]
    omega
  rw [consume, if_neg notEmpty, if_neg (by omega)]

/-- A call that runs alone reports an empty buffer exactly when there is no item, and otherwise
    takes the oldest one. -/
structure TakesOldest (size : Size) (c : Circbuffer) : Prop where
  empty_iff : (c.consume size).1.1 = .empty ↔ c.head = c.tail
  unchanged : c.head = c.tail → (c.consume size).2 = c
  oldest : c.head ≠ c.tail → ∃ oldest, c.stored size = oldest :: (c.consume size).2.stored size ∧
    (c.consume size).1 = (.ok, some oldest) ∧ (c.consume size).2.tail = c.tail + 1

theorem takesOldest_of_eq (same : c.head = c.tail) (small : c.tail < 2 ^ 32) :
    c.TakesOldest size := by
  have result := @consume_of_eq size c same small
  refine ⟨?_, fun _ => ?_, fun more => absurd same more⟩
  · simp [result, same]
  · rw [result]

theorem takesOldest_of_lt (ahead : c.tail < c.head) (fits : c.head - c.tail ≤ size.items)
    (range : c.head < 2 ^ 64) (small : c.tail + 1 < 2 ^ 32) : c.TakesOldest size := by
  have result := @consume_of_lt size c ahead range (by omega)
  refine ⟨?_, fun same => ?_, fun _ => ?_⟩
  · simp [result, Nat.ne_of_gt ahead]
  · omega
  · rw [result]
    exact ⟨_, stored_claim ahead fits small, rfl, wrap_of_lt small⟩

/-- A call that runs alone does what it should exactly if the successor of `_tail` fits into 32
    bits, or `_tail` does and there is nothing to take. -/
theorem consume_takes_oldest_iff (behind : c.tail ≤ c.head) (fits : c.head - c.tail ≤ size.items)
    (range : c.head < 2 ^ 64) :
    c.TakesOldest size ↔ c.tail + 1 < 2 ^ 32 ∨ c.head = c.tail ∧ c.tail < 2 ^ 32 := by
  constructor
  · intro takes
    by_contra outside
    obtain large | small := Nat.lt_or_ge (2 ^ 32 - 1) c.tail
    · have result := @consume_of_le size c behind range large
      by_cases same : c.head = c.tail
      · have empty := takes.empty_iff.mpr same
        rw [result] at empty
        cases empty
      · obtain ⟨oldest, _, taken, _⟩ := takes.oldest same
        rw [result] at taken
        cases taken
    · -- the last item below 2^32 is taken, and the tail goes back to 0
      have last : c.tail = 2 ^ 32 - 1 := by omega
      obtain ⟨oldest, _, _, tail⟩ := takes.oldest (by omega)
      rw [consume_of_lt (by omega) range (by omega), last] at tail
      simp only [markSlot, claim, wrap] at tail
      omega
  · rintro (small | ⟨same, small⟩)
    · obtain same | ahead := Nat.eq_or_lt_of_le behind
      · exact takesOldest_of_eq same.symm (by omega)
      · exact takesOldest_of_lt ahead fits range small
    · exact takesOldest_of_eq same small

/-- A full buffer, and an empty one at the last position below 2^32. -/
theorem consume_takes_oldest_iff_full :
    TakesOldest fourSlots ⟨9, 5, fun index => index + 1⟩ ∧
      TakesOldest fourSlots ⟨2 ^ 32 - 1, 2 ^ 32 - 1, fun _ => dummyAddr⟩ :=
  ⟨(consume_takes_oldest_iff (by decide) (by decide) (by decide)).mpr (by decide),
    (consume_takes_oldest_iff (by decide) (by decide) (by decide)).mpr (by decide)⟩

/-! ## The end of the 32 bits -/

inductive Call where
  | produce (item : Nat)
  | consume

def call (size : Size) (c : Circbuffer) : Call → Option Circbuffer
  | .produce item => some (c.produce size item).2
  | .consume => some (c.consume size).2

def emptied (count : Nat) : Circbuffer := ⟨count, count, fun _ => dummyAddr⟩

variable {count : Nat}

theorem produce_emptied {x : Nat} (genuine : x ≠ null) (range : count + 1 < 2 ^ 64) :
    (emptied count).produce size x =
      (.ok, ⟨count + 1, count, update (fun _ => dummyAddr) (slot size count) x⟩) := by
  have notFull : seesFull size count count = false := by
    have pos := size.pos
    rw [seesFull, decide_eq_false_iff_not, wrapSub_of_le (Nat.le_refl _) (by omega)]
    omega
  simp only [produce, if_neg genuine, emptied, notFull, storeSlot, addHead, wrap_of_lt range]
  rfl

/-- One item goes through the buffer. -/
theorem consume_produce_emptied {x : Nat} (genuine : x ≠ null) (small : count + 1 < 2 ^ 32) :
    (((emptied count).produce size x).2.consume size).2 = emptied (count + 1) := by
  have range : count + 1 < 2 ^ 64 := by omega
  rw [produce_emptied genuine range,
    consume_of_lt (Nat.lt_succ_self count) range (Nat.lt_of_succ_lt small)]
  simp only [claim, markSlot, wrap_of_lt small, update_idem, update_eq_self,
    emptied]

theorem emptied_reached (size : Size) (small : count < 2 ^ 32) :
    Reaches (call size) (fun _ _ => True) init (emptied count) := by
  induction count with
  | zero => exact .refl
  | succ count ih =>
    have round : (((emptied count).produce size 1).2.consume size).2 = emptied (count + 1) :=
      consume_produce_emptied (by decide) small
    have produced : call size (emptied count) (.produce 1) =
      some ((emptied count).produce size 1).2 := rfl
    have consumed : call size ((emptied count).produce size 1).2 .consume =
      some (emptied (count + 1)) := congrArg some round
    exact ((ih (by omega)).next trivial produced).next trivial consumed

/-- After 2^32 - 1 items have gone through the buffer, one item is stored; the call that
    takes it sets `_tail` to 0, and the next call returns the mark of an empty slot. -/
theorem consume_returns_dummy : ∃ c,
    Reaches (call fourSlots) (fun _ _ => True) init c ∧
      c.head = 2 ^ 32 ∧ c.tail = 2 ^ 32 - 1 ∧ c.stored fourSlots = [1] ∧
      (c.consume fourSlots).2.tail = 0 ∧
      ((c.consume fourSlots).2.consume fourSlots).1 = (.ok, some dummyAddr) := by
  have reached : Reaches (call fourSlots) (fun _ _ => True) init (emptied (2 ^ 32 - 1)) :=
    emptied_reached fourSlots (by decide)
  have put : (emptied (2 ^ 32 - 1)).produce fourSlots 1 =
      (.ok, ⟨2 ^ 32, 2 ^ 32 - 1, Function.update (fun _ => dummyAddr) 3 1⟩) :=
    produce_emptied (by decide) (by decide)
  have produced : call fourSlots (emptied (2 ^ 32 - 1)) (.produce 1) =
      some ⟨2 ^ 32, 2 ^ 32 - 1, Function.update (fun _ => dummyAddr) 3 1⟩ := by
    rw [call, put]
  refine ⟨_, reached.next trivial produced, rfl, rfl, by decide, by decide, by decide⟩

end Circbuffer

/-! ## The accesses of a call that runs alone -/

namespace Parties

variable {Consumer : Type*} [DecidableEq Consumer]

def Alone (consumer : Consumer) (_ : Parties Consumer) : ChannelEvent Consumer → Prop
  | .consume other | .consumer other => other = consumer
  | .produce _ | .producer => False

theorem reaches_alone {size : Size} {c : Consumer} {s middle finish : Parties Consumer}
    (run : Reaches (fun s ev => s.step size ev) (Alone c) s middle)
    (step : middle.consumeStep size c = some finish) :
    Reaches (fun s ev => s.step size ev) (Alone c) s finish :=
  have own : Alone c middle (.consumer c) := rfl
  run.next own step

/-- A call of `consume` during which nobody else moves does what the function says. -/
theorem consume_alone (size : Size) (s : Parties Consumer) (c : Consumer)
    (idle : s.consumers c = .idle) :
    ∃ s', Reaches (fun s ev => s.step size ev) (Alone c) s s' ∧
      s'.consumers c = .done (s.ring.consume size).1.1 ∧
      s'.ring = (s.ring.consume size).2 ∧
      s'.returned = s.returned ++
        (s.ring.consume size).1.2.toList.map fun item => (c, s.ring.loadTail, item) := by
  have own : Alone c s (.consume c) := rfl
  have begun : s.step size (.consume c) = some (s.setPc c .loadTail) := by
    simp only [step, idle]
  have loaded : (s.setPc c .loadTail).consumeStep size c =
      some (s.setPc c (.loadHead s.ring.loadTail)) := by
    simp [consumeStep, setPc]
  have run := reaches_alone (Reaches.refl.next own begun) loaded
  by_cases empty : s.ring.seesEmpty s.ring.loadTail = true
  · have tested : (s.setPc c (.loadHead s.ring.loadTail)).consumeStep size c =
        some (s.setPc c (.done .empty)) := by
      simp [consumeStep, setPc, empty]
    refine ⟨_, reaches_alone run tested, ?_⟩
    simp [Circbuffer.consume, empty, setPc]
  have tested : (s.setPc c (.loadHead s.ring.loadTail)).consumeStep size c =
      some (s.setPc c (.cas s.ring.loadTail)) := by
    simp [consumeStep, setPc, empty]
  have run := reaches_alone run tested
  by_cases same : s.ring.tail = s.ring.loadTail
  · have swapped : (s.setPc c (.cas s.ring.loadTail)).consumeStep size c =
        some { s.setPc c (.loadSlot s.ring.loadTail) with
          ring := s.ring.claim s.ring.loadTail } := by
      simp [consumeStep, setPc, ← same]
    have run := reaches_alone run swapped
    let item := s.ring.buffer (Circbuffer.slot size s.ring.loadTail)
    have copied : Parties.consumeStep size { s.setPc c (.loadSlot s.ring.loadTail) with
          ring := s.ring.claim s.ring.loadTail } c =
        some { s.setPc c (.markSlot s.ring.loadTail item) with
          ring := s.ring.claim s.ring.loadTail } := by
      simp [consumeStep, setPc, Circbuffer.claim, item]
    have marked : Parties.consumeStep size { s.setPc c (.markSlot s.ring.loadTail item) with
          ring := s.ring.claim s.ring.loadTail } c =
        some { s.setPc c (.done .ok) with
          ring := (s.ring.claim s.ring.loadTail).markSlot size s.ring.loadTail
          returned := s.returned ++ [(c, s.ring.loadTail, item)] } := by
      simp [consumeStep, setPc]
    have res : s.ring.consume size = ((.ok, some item),
        (s.ring.claim s.ring.loadTail).markSlot size s.ring.loadTail) := by
      rw [Circbuffer.consume, if_neg empty, if_pos same]
    refine ⟨_, reaches_alone (reaches_alone run copied) marked, ?_⟩
    simp [res, setPc]
  · have failed : (s.setPc c (.cas s.ring.loadTail)).consumeStep size c =
        some (s.setPc c (.done .contention)) := by
      simp [consumeStep, setPc, same]
    refine ⟨_, reaches_alone run failed, ?_⟩
    simp [Circbuffer.consume, empty, same, setPc]

/-- Three items have been accepted and the first has been returned to another consumer. -/
theorem consume_alone_second :
    ∃ s s' : Parties Bool,
      Reaches (fun s event => s.step fourSlots event) (fun _ _ => True) init s ∧
      s.accepted = [3, 5, 7] ∧ Reaches (fun s event => s.step fourSlots event) (Alone false) s s' ∧
      s'.consumers false = .done .ok ∧ s'.returned = [(true, 0, 3), (false, 1, 5)] := by
  have executed : ∃ s ∈ execute (fun (s : Parties Bool) event => s.step fourSlots event)
      (fun _ _ => True)
      (.produce 3 :: List.replicate 6 .producer ++ .produce 5 :: List.replicate 6 .producer ++
        .consume true :: List.replicate 6 (.consumer true) ++
        .produce 7 :: List.replicate 5 .producer) init,
      s.accepted = [3, 5, 7] ∧ s.consumers false = .idle ∧ s.returned = [(true, 0, 3)] ∧
        s.ring.loadTail = 1 ∧ (s.ring.consume fourSlots).1 = (.ok, some 5) := by
    decide +kernel
  obtain ⟨s, reached, accepted, idle, returned, tail, answer⟩ := exists_reaches_of_execute executed
  obtain ⟨s', run, done, -, later⟩ := consume_alone fourSlots s false idle
  rw [answer] at done later
  rw [returned, tail] at later
  exact ⟨s, s', reached, accepted, run, done, later⟩

end Parties

end Xdk.Channel
