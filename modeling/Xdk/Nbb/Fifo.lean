import Xdk.Lib.Ring
import Xdk.Nbb.Buffer

/-! # The buffer as a bounded queue

Called one after the other, `insert_item` and `read_item` should be the two operations of a
queue of `size` places, for ever.  The counters then are even, and half of each is the
number of items inserted or taken so far, modulo half of `_count_limit`.

The test for a full buffer takes the difference of the counters modulo 2^32, which is
another modulus.  When `_uc` has begun again at 0 and `_ac` has not, the difference is not
twice the number of items, and a full buffer is not seen to be full.  Where half of the
limit is the size itself, `_uc` is then even equal to `_ac`, and the full buffer looks
empty.  On every size below 2^30 these are the only calls that go wrong.
-/

namespace Xdk.Nbb

open Xdk.Lib

inductive Call (α : Type*) where
  | insertItem (item : α)
  | readItem
  deriving DecidableEq

abbrev Answer (α : Type*) := NbbStatus × Option α

def SymmetricNbb.call {α : Type*} (shape : Shape) (nbb : SymmetricNbb α) :
    Call α → Answer α × SymmetricNbb α
  | .insertItem item =>
    let result := nbb.insertItem shape item
    ((result.1, none), result.2)
  | .readItem => nbb.readItem shape

def queueCall {α : Type*} (size : Nat) (queue : List α) : Call α → Answer α × List α
  | .insertItem item =>
    if queue.length = size then ((.full, none), queue) else ((.ok, none), queue ++ [item])
  | .readItem =>
    match queue with
    | [] => ((.empty, none), [])
    | item :: queue => ((.ok, some item), queue)

structure History (α : Type*) where
  nbb : SymmetricNbb α
  queue : List α

namespace History

variable {α : Type*}

def init [Inhabited α] : History α := ⟨.init, []⟩

def step (shape : Shape) (h : History α) (call : Call α) : Option (History α) :=
  some ⟨(h.nbb.call shape call).2, (queueCall shape.size h.queue call).2⟩

def Conforms (shape : Shape) (h : History α) (call : Call α) : Prop :=
  (h.nbb.call shape call).1 = (queueCall shape.size h.queue call).1

/-- The calls that do not go wrong: none on a full buffer after `_uc` has begun again and
    before `_ac` has; and in buffers of 2^30 places and more none that makes `_uc` begin
    again. -/
def steady (shape : Shape) (h : History α) : Call α → Bool
  | .insertItem _ =>
    ¬ (h.queue.length = shape.size ∧ h.nbb.lastUc ≤ h.nbb.lastAc) ∧
      (shape.size < 2 ^ 30 ∨ h.nbb.lastUc + 2 ≠ shape.countLimit)
  | .readItem => ¬ (h.queue.length = shape.size ∧ h.nbb.lastUc = h.nbb.lastAc)

end History

/-! ## The limit of the counters -/

namespace Shape

def half (shape : Shape) : Nat := shape.countLimit / 2

theorem countLimit_eq (shape : Shape) : shape.countLimit = 2 * shape.half := by
  have even := shape.limit_even
  simp only [half]
  omega

theorem half_pos (shape : Shape) : 0 < shape.half := by
  have pos := shape.limit_pos
  rw [countLimit_eq] at pos
  omega

/-- What the proofs need of a buffer below 2^30 places. -/
structure Aligned (shape : Shape) : Prop where
  dvd : shape.size ∣ shape.half
  lt : shape.half < 2 ^ 30

variable {size : Nat} {shape : Shape}

section

variable (created : create size = some shape)
include created

theorem create_size : shape.size = size ∧ shape.countLimit = limitOf size := by
  simp only [create] at created
  split_ifs at created
  cases created
  exact ⟨rfl, rfl⟩

theorem create_half (small : size < 2 ^ 30) : shape.half = (2 ^ 32 - 1) / (4 * size) * size := by
  obtain ⟨_, limit⟩ := create_size created
  rw [half, limit, (limitOf_small small).1, Nat.mul_div_cancel_left _ Nat.two_pos]

theorem create_aligned (small : shape.size < 2 ^ 30) : Aligned shape := by
  obtain ⟨rfl, _⟩ := create_size created
  obtain ⟨_, bound⟩ := limitOf_small small
  have half := create_half created small
  constructor
  · rw [half]
    exact Nat.dvd_mul_left _ _
  · rw [half]
    omega

end

end Shape

/-! ## The counters of a history -/

namespace History

variable {α : Type*}

structure Stored (shape : Shape) (h : History α) (first count : Nat) : Prop where
  uc : h.nbb.uc = 2 * ((first + count) % shape.half)
  lastUc : h.nbb.lastUc = 2 * ((first + count) % shape.half)
  ac : h.nbb.ac = 2 * (first % shape.half)
  lastAc : h.nbb.lastAc = 2 * (first % shape.half)
  fits : count ≤ shape.size
  queue : h.queue = window shape.size h.nbb.buffer first count
  regular : Shape.Aligned shape ∨ first + count < shape.half

theorem stored_init [Inhabited α] (shape : Shape) : Stored shape (init : History α) 0 0 where
  uc := by simp [init, SymmetricNbb.init]
  lastUc := by simp [init, SymmetricNbb.init]
  ac := by simp [init, SymmetricNbb.init]
  lastAc := by simp [init, SymmetricNbb.init]
  fits := Nat.zero_le _
  queue := rfl
  regular := .inr shape.half_pos

section Step

variable {shape : Shape} {h : History α} {first count : Nat}

section

variable (stored : Stored shape h first count)
include stored

theorem Stored.length : h.queue.length = count := by
  rw [stored.queue, length_window]

/-- Seen from the consumer's counter, the producer's is ahead by the number of items, or it
    has begun again; then the buffer is aligned. -/
theorem Stored.lap :
    (first + count) % shape.half = first % shape.half + count ∨
      ((first + count) % shape.half + shape.half = first % shape.half + count ∧
        Shape.Aligned shape) := by
  have pos := shape.half_pos
  obtain aligned | straight := stored.regular
  · have size_le : shape.size ≤ shape.half := Nat.le_of_dvd pos aligned.dvd
    exact (add_mod_lap first pos (stored.fits.trans size_le)).imp_right (⟨·, aligned⟩)
  · left
    rw [Nat.mod_eq_of_lt straight, Nat.mod_eq_of_lt (by omega)]

/-- The slot of a position. -/
theorem Stored.slot_eq {p : Nat} (bound : p ≤ first + count) :
    shape.slot (2 * (p % shape.half)) = p % shape.size := by
  rw [Shape.slot, Nat.mul_div_cancel_left _ Nat.two_pos]
  obtain aligned | straight := stored.regular
  · exact Nat.mod_mod_of_dvd p aligned.dvd
  · rw [Nat.mod_eq_of_lt (by omega : p < shape.half)]

end

theorem advance_eq (shape : Shape) (p : Nat) :
    shape.advance (2 * (p % shape.half)) = 2 * ((p + 1) % shape.half) := by
  have lt := Nat.mod_lt p shape.half_pos
  have limit := shape.limit_lt
  have even := shape.countLimit_eq
  rw [← Nat.mod_add_mod, succ_mod_eq lt]
  simp only [Shape.advance]
  rw [wrap_of_lt (by omega)]
  split_ifs <;> omega

section

variable (stored : Stored shape h first count)
include stored

/-- A full buffer is found to be full only on the same lap. -/
theorem Stored.insertCheck_eq :
    SymmetricNbb.insertCheck shape h.nbb.lastUc h.nbb.ac =
      if count = shape.size ∧ h.nbb.lastAc < h.nbb.lastUc then some .full else none := by
  have fits := stored.fits
  have size_pos := shape.size_pos
  have size_lt := shape.size_lt
  have limit := shape.limit_lt
  rw [shape.countLimit_eq] at limit
  have lt := Nat.mod_lt first shape.half_pos
  have below' := Nat.mod_lt (first + count) shape.half_pos
  have lap := stored.lap
  have double : wrap 32 (2 * shape.size) = 2 * shape.size := wrap_of_lt (by omega)
  simp only [SymmetricNbb.insertCheck, double, stored.lastUc, stored.ac, stored.lastAc, wrapSub]
  obtain same | ⟨wrapped, aligned⟩ := lap
  · split_ifs <;> first | rfl | (exfalso; omega)
  · -- the difference is 2^32 less something that is too small to make up for it
    have half_lt := aligned.lt
    have size_le := Nat.le_of_dvd shape.half_pos aligned.dvd
    split_ifs <;> first | rfl | (exfalso; omega)

/-- A buffer looks empty when the counters are equal. -/
theorem Stored.readCheck_eq :
    SymmetricNbb.readCheck h.nbb.lastAc h.nbb.uc =
      if h.nbb.lastUc = h.nbb.lastAc then some .empty else none := by
  have limit := shape.limit_lt
  simp only [SymmetricNbb.readCheck, stored.uc, stored.lastUc, stored.lastAc, wrapSub]
  split_ifs <;> first | rfl | (exfalso; omega)

/-- They are equal on an empty buffer, and on a full one where half of the limit is the
    size. -/
theorem Stored.lastUc_eq_lastAc (equal : h.nbb.lastUc = h.nbb.lastAc) :
    count = 0 ∨ count = shape.size := by
  have fits := stored.fits
  rw [stored.lastUc, stored.lastAc] at equal
  obtain same | ⟨wrapped, aligned⟩ := stored.lap
  · omega
  · have size_le := Nat.le_of_dvd shape.half_pos aligned.dvd
    omega

/-- One more item. -/
theorem Stored.insert (room : count < shape.size)
    (regular : Shape.Aligned shape ∨ first + (count + 1) < shape.half) (item : α) :
    Stored shape
      ⟨((h.nbb.beginInsert.storeSlot shape item).publishInsert shape).rememberInsert,
        h.queue ++ [item]⟩ first (count + 1) := by
  have next : shape.advance h.nbb.lastUc = 2 * ((first + (count + 1)) % shape.half) := by
    rw [stored.lastUc, advance_eq]
    rfl
  have slot : shape.slot h.nbb.lastUc = (first + count) % shape.size := by
    rw [stored.lastUc, stored.slot_eq (Nat.le_refl _)]
  refine ⟨next, next, stored.ac, stored.lastAc, room, ?_, regular⟩
  show h.queue ++ [item] =
    window shape.size (Function.update h.nbb.buffer (shape.slot h.nbb.lastUc) item) first
      (count + 1)
  rw [slot, window_succ, window_update_outside _ item (next_cell_outside room),
    Function.update_self, stored.queue]

end

/-- One item less. -/
theorem Stored.read (stored : Stored shape h first (count + 1)) :
    h.queue = h.nbb.beginRead.loadSlot shape :: h.queue.tail ∧
      Stored shape ⟨(h.nbb.beginRead.publishRead shape).rememberRead, h.queue.tail⟩
        (first + 1) count := by
  have next : shape.advance h.nbb.lastAc = 2 * ((first + 1) % shape.half) := by
    rw [stored.lastAc, advance_eq]
  have slot : shape.slot h.nbb.lastAc = first % shape.size := by
    rw [stored.lastAc, stored.slot_eq (Nat.le_add_right _ _)]
  have swap : first + (count + 1) = first + 1 + count := by omega
  have queue := stored.queue
  rw [window_cons] at queue
  have tail : h.queue.tail = window shape.size h.nbb.buffer (first + 1) count := by
    rw [queue, List.tail_cons]
  have fits := stored.fits
  have uc := stored.uc
  have lastUc := stored.lastUc
  have regular := stored.regular
  rw [swap] at uc lastUc regular
  refine ⟨?_, uc, lastUc, next, next, by omega, tail, regular⟩
  rw [tail, queue]
  show _ = h.nbb.buffer (shape.slot h.nbb.lastAc) :: _
  rw [slot]

/-! ## Calls -/

theorem Stored.conforms_insertItem_iff (stored : Stored shape h first count) (x : α) :
    Conforms shape h (.insertItem x) ↔
      ¬ (h.queue.length = shape.size ∧ h.nbb.lastUc ≤ h.nbb.lastAc) := by
  have len := stored.length
  simp only [Conforms, SymmetricNbb.call, queueCall, SymmetricNbb.insertItem,
    stored.insertCheck_eq, len]
  by_cases full : count = shape.size <;>
    by_cases ahead : h.nbb.lastAc < h.nbb.lastUc <;> simp [full, ahead]

theorem Stored.conforms_readItem_iff (stored : Stored shape h first count) :
    Conforms shape h .readItem ↔
      ¬ (h.queue.length = shape.size ∧ h.nbb.lastUc = h.nbb.lastAc) := by
  have len := stored.length
  have size_pos := shape.size_pos
  simp only [Conforms, SymmetricNbb.call, SymmetricNbb.readItem, stored.readCheck_eq, len]
  cases count with
  | zero =>
    have none : h.queue = [] := List.eq_nil_of_length_eq_zero len
    have equal : h.nbb.lastUc = h.nbb.lastAc := by rw [stored.lastUc, stored.lastAc, Nat.add_zero]
    have pos : ¬ 0 = shape.size := by omega
    simp [none, equal, queueCall, pos]
  | succ count =>
    have head := stored.read.1
    by_cases equal : h.nbb.lastUc = h.nbb.lastAc
    · have full := (stored.lastUc_eq_lastAc equal).resolve_left (Nat.succ_ne_zero count)
      rw [head]
      simp [equal, full, queueCall]
    · rw [head]
      simp [equal, queueCall]

/-- An insertion with a free place. -/
theorem Stored.step_insertItem_eq (stored : Stored shape h first count)
    (room : count < shape.size) (item : α) :
    h.step shape (.insertItem item) =
      some ⟨((h.nbb.beginInsert.storeSlot shape item).publishInsert shape).rememberInsert,
        h.queue ++ [item]⟩ := by
  have notFull : count ≠ shape.size := Nat.ne_of_lt room
  simp only [History.step, SymmetricNbb.call, queueCall, SymmetricNbb.insertItem,
    stored.insertCheck_eq, stored.length, notFull, false_and, if_false]

/-- A read with an item, where the counters tell that there is one. -/
theorem Stored.step_readItem_eq (stored : Stored shape h first (count + 1))
    (ne : h.nbb.lastUc ≠ h.nbb.lastAc) :
    h.step shape .readItem =
      some ⟨(h.nbb.beginRead.publishRead shape).rememberRead, h.queue.tail⟩ := by
  simp only [History.step, SymmetricNbb.call, SymmetricNbb.readItem, stored.readCheck_eq,
    ne]
  rw [stored.read.1]
  rfl

theorem Stored.step_insertItem {h' : History α} {x : α} (stored : Stored shape h first count)
    (aligned : shape.size < 2 ^ 30 → Shape.Aligned shape)
    (steady : h.steady shape (.insertItem x) = true)
    (step : h.step shape (.insertItem x) = some h') :
    ∃ count, Stored shape h' first count := by
  obtain ⟨notFull, noReset⟩ := of_decide_eq_true steady
  rw [stored.length] at notFull
  by_cases full : count = shape.size
  · have ahead : h.nbb.lastAc < h.nbb.lastUc := by omega
    simp only [History.step, SymmetricNbb.call, queueCall, SymmetricNbb.insertItem,
      stored.insertCheck_eq, stored.length, full, ahead] at step
    cases step
    exact ⟨count, stored⟩
  · have fits := stored.fits
    have room : count < shape.size := by omega
    rw [stored.step_insertItem_eq room x] at step
    cases step
    refine ⟨count + 1, stored.insert room ?_ x⟩
    obtain small | noReset := noReset
    · exact .inl (aligned small)
    · refine stored.regular.imp_right fun straight => ?_
      rw [stored.lastUc, Nat.mod_eq_of_lt straight, shape.countLimit_eq] at noReset
      omega

theorem Stored.step_readItem {h' : History α} (stored : Stored shape h first count)
    (steady : h.steady shape .readItem = true) (step : h.step shape .readItem = some h') :
    ∃ first count, Stored shape h' first count := by
  have notEqual := of_decide_eq_true steady
  rw [stored.length] at notEqual
  cases count with
  | zero =>
    have none : h.queue = [] := List.eq_nil_of_length_eq_zero stored.length
    have equal : h.nbb.lastUc = h.nbb.lastAc := by rw [stored.lastUc, stored.lastAc, Nat.add_zero]
    simp only [History.step, SymmetricNbb.call, SymmetricNbb.readItem, stored.readCheck_eq,
      equal, none, queueCall] at step
    cases step
    exact ⟨first, 0, none ▸ stored⟩
  | succ count =>
    have ne : h.nbb.lastUc ≠ h.nbb.lastAc := fun equal =>
      notEqual ⟨(stored.lastUc_eq_lastAc equal).resolve_left (Nat.succ_ne_zero count), equal⟩
    rw [stored.step_readItem_eq ne] at step
    cases step
    exact ⟨first + 1, count, stored.read.2⟩

end Step

/-- A history of steady calls. -/
abbrev Steady [Inhabited α] (shape : Shape) (h : History α) : Prop :=
  Reaches (step shape) (fun h call => h.steady shape call = true) init h

theorem Steady.stored [Inhabited α] {size : Nat} {shape : Shape}
    (created : Shape.create size = some shape) {h : History α} (run : Steady shape h) :
    ∃ first count, Stored shape h first count := by
  refine run.invariant (motive := fun h => ∃ first count, Stored shape h first count)
    ⟨0, 0, stored_init shape⟩ ?_
  intro before after call ⟨first, count, stored⟩ steady step
  cases call with
  | insertItem item =>
    obtain ⟨count', stored'⟩ :=
      stored.step_insertItem (Shape.create_aligned created) steady step
    exact ⟨first, count', stored'⟩
  | readItem => exact stored.step_readItem steady step

/-- For every size that the constructor accepts and every sequence of steady calls, the
    buffer answers the next steady call as the queue does.  Below 2^30 places it does so for
    no other call. -/
theorem nbb_conforms_to_queue [Inhabited α] {size : Nat} {shape : Shape}
    (created : Shape.create size = some shape) {h : History α} (run : Steady shape h)
    (call : Call α) :
    (h.steady shape call = true → Conforms shape h call) ∧
      (size < 2 ^ 30 → (Conforms shape h call ↔ h.steady shape call = true)) := by
  obtain ⟨first, count, stored⟩ := Steady.stored created run
  obtain ⟨same, _⟩ := Shape.create_size created
  cases call with
  | insertItem item =>
    rw [stored.conforms_insertItem_iff item, steady, decide_eq_true_iff]
    exact ⟨And.left, fun small => ⟨fun fine => ⟨fine, .inl (same ▸ small)⟩, And.left⟩⟩
  | readItem =>
    rw [stored.conforms_readItem_iff, steady, decide_eq_true_iff]
    exact ⟨id, fun _ => Iff.rfl⟩

/-- The buffer of one place with an item. -/
theorem nbb_conforms_to_queue_one_place :
    ∃ shape, Shape.create 1 = some shape ∧ ∃ h : History Nat, Steady shape h ∧
      h.queue = [7] ∧ Conforms shape h (.insertItem 8) ∧ Conforms shape h .readItem := by
  obtain ⟨shape, created, h, run, queue, refuses, reads⟩ :
      ∃ shape, Shape.create 1 = some shape ∧ ∃ h : History Nat, Steady shape h ∧
        h.queue = [7] ∧ h.steady shape (.insertItem 8) = true ∧
        h.steady shape .readItem = true :=
    ⟨_, rfl, _, .next .refl rfl (rfl : step _ init (.insertItem 7) = some _), rfl, rfl, rfl⟩
  exact ⟨shape, created, h, run, queue, (nbb_conforms_to_queue created run _).1 refuses,
    (nbb_conforms_to_queue created run _).1 reads⟩

/-! ## A full buffer that is not seen -/

section Wrapped

variable [Inhabited α] {shape : Shape}

/-- One item goes through the buffer at a time, until the counters are at their end. -/
theorem exists_turns (x : α) (turns : Nat) (bound : turns < shape.half) :
    ∃ h : History α, Steady shape h ∧ Stored shape h turns 0 := by
  induction turns with
  | zero => exact ⟨init, .refl, stored_init shape⟩
  | succ turns ih =>
    obtain ⟨h, run, stored⟩ := ih (by omega)
    have size_pos := shape.size_pos
    have limit := shape.countLimit_eq
    have lastUc : h.nbb.lastUc = 2 * turns := by
      rw [stored.lastUc, Nat.add_zero, Nat.mod_eq_of_lt (by omega)]
    have steady : h.steady shape (.insertItem x) = true := by
      rw [History.steady, decide_eq_true_iff, stored.length]
      omega
    have stored₁ := stored.insert size_pos (.inr (by omega)) x
    have ne : 2 * ((turns + (0 + 1)) % shape.half) ≠ 2 * (turns % shape.half) := by
      rw [Nat.mod_eq_of_lt (by omega), Nat.mod_eq_of_lt (by omega)]
      omega
    rw [← stored₁.lastUc, ← stored₁.lastAc] at ne
    refine ⟨_, .next (.next run steady (stored.step_insertItem_eq size_pos x)) ?_
      (stored₁.step_readItem_eq ne), stored₁.read.2⟩
    rw [History.steady, decide_eq_true_iff]
    exact fun ⟨_, equal⟩ => ne equal

/-- From there the buffer is filled, and the first insertion makes `_uc` begin again. -/
theorem exists_filled (aligned : Shape.Aligned shape) (small : shape.size < 2 ^ 30) (x : α)
    (count : Nat) (le : count ≤ shape.size) :
    ∃ h : History α, Steady shape h ∧ Stored shape h (shape.half - 1) count := by
  induction count with
  | zero => exact exists_turns x _ (Nat.sub_lt shape.half_pos Nat.one_pos)
  | succ count ih =>
    obtain ⟨h, run, stored⟩ := ih (by omega)
    refine ⟨_, .next run ?_ (stored.step_insertItem_eq le x),
      stored.insert le (.inl aligned) x⟩
    rw [History.steady, decide_eq_true_iff, stored.length]
    exact ⟨by omega, .inl small⟩

/-- In a full buffer, another item is accepted. -/
theorem exists_full_accepts {size : Nat} (created : Shape.create size = some shape)
    (small : size < 2 ^ 30) (x : α) :
    ∃ h : History α, Steady shape h ∧ h.queue.length = size ∧
      (h.nbb.insertItem shape x).1 = .ok := by
  obtain ⟨rfl, _⟩ := Shape.create_size created
  have aligned := Shape.create_aligned created small
  have pos := shape.half_pos
  have size_pos := shape.size_pos
  have size_le := Nat.le_of_dvd pos aligned.dvd
  obtain ⟨h, run, stored⟩ := exists_filled aligned small x shape.size (Nat.le_refl _)
  have lastAc : h.nbb.lastAc = 2 * (shape.half - 1) := by
    rw [stored.lastAc, Nat.mod_eq_of_lt (by omega)]
  have lastUc : h.nbb.lastUc = 2 * (shape.size - 1) := by
    rw [stored.lastUc, show shape.half - 1 + shape.size = shape.size - 1 + shape.half by omega,
      Nat.add_mod_right, Nat.mod_eq_of_lt (by omega)]
  have behind : ¬ h.nbb.lastAc < h.nbb.lastUc := by omega
  refine ⟨h, run, stored.length, ?_⟩
  simp only [SymmetricNbb.insertItem, stored.insertCheck_eq, behind, and_false, if_false]

end Wrapped

/-- The buffer of one place holds an item, and `insert_item` says that it has stored
    another. -/
theorem nbb_full_not_seen :
    ∃ shape, Shape.create 1 = some shape ∧ ∃ h : History Nat, Steady shape h ∧
      h.queue.length = 1 ∧ (h.nbb.insertItem shape 7).1 = .ok := by
  obtain ⟨shape, created⟩ : ∃ shape, Shape.create 1 = some shape := ⟨_, rfl⟩
  exact ⟨shape, created, exists_full_accepts created (by decide) 7⟩

end History

end Xdk.Nbb
