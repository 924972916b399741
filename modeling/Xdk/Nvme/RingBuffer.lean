import Xdk.Lib.Ring

/-! # The single-producer single-consumer ring buffer

`RingBuffer<Element, Size>` of the batch manager.  The two indices are elements
of `Fin size`, so the assertion of `increment` cannot fail.  One cell always
stays free: the buffer is full when incrementing the tail would reach the head.

`contents` is the queue the buffer stands for, oldest element first; the lemmas
about `push` and `pop` say that they are the queue's own operations.
-/

namespace Xdk.Nvme

open Xdk.Lib

structure RingBuffer (Element : Type*) (size : Nat) where
  array : Nat → Element
  head : Fin size
  tail : Fin size

namespace RingBuffer

variable {Element : Type*} {size : Nat}

def increment (idx : Fin size) : Fin size :=
  if last : idx.val + 1 = size then ⟨0, by omega⟩
  else ⟨idx.val + 1, by have := idx.isLt; omega⟩

def store (buffer : RingBuffer Element size) (item : Element) : RingBuffer Element size :=
  { buffer with
    array := Function.update buffer.array buffer.tail item
    tail := increment buffer.tail }

/-- `none` is the result `false`: the queue is full. -/
def push (buffer : RingBuffer Element size) (item : Element) : Option (RingBuffer Element size) :=
  if increment buffer.tail ≠ buffer.head then some (buffer.store item) else none

/-- `none` is the result `false`: the queue is empty. -/
def pop (buffer : RingBuffer Element size) : Option (Element × RingBuffer Element size) :=
  if buffer.head = buffer.tail then none
  else some (buffer.array buffer.head, { buffer with head := increment buffer.head })

def wasEmpty (buffer : RingBuffer Element size) : Bool := buffer.head = buffer.tail

def wasFull (buffer : RingBuffer Element size) : Bool := increment buffer.tail = buffer.head

def set (buffer : RingBuffer Element size) (idx : Nat) (item : Element) :
    RingBuffer Element size :=
  { buffer with array := Function.update buffer.array idx item }

/-- The tail, shifted past the head by one turn when it lies below it: the end of
    the index range in which the consumer looks for elements. -/
def endIndex (buffer : RingBuffer Element size) : Nat :=
  if buffer.tail < buffer.head then buffer.tail + size else buffer.tail

def count (buffer : RingBuffer Element size) : Nat := buffer.endIndex - buffer.head

def contents (buffer : RingBuffer Element size) : List Element :=
  window size buffer.array buffer.head buffer.count

/-! ## Indices -/

theorem increment_val (idx : Fin size) : (increment idx).val = (idx.val + 1) % size := by
  rw [succ_mod_eq idx.isLt, increment]
  split_ifs <;> rfl

theorem increment_injective : Function.Injective (@increment size) := by
  intro a b same
  have values := congrArg Fin.val same
  rw [increment_val, increment_val, succ_mod_eq a.isLt, succ_mod_eq b.isLt] at values
  split_ifs at values <;> omega

section

variable (buf : RingBuffer Element size)
include buf

theorem head_le_endIndex : buf.head ≤ buf.endIndex := by
  simp only [endIndex]
  split_ifs <;> omega

theorem count_lt : buf.count < size := by
  simp only [count, endIndex]
  split_ifs <;> omega

theorem tail_eq :
    (buf.tail : Nat) = (buf.head + buf.count) % size := by
  have tailBound := buf.tail.isLt
  have atEnd : buf.head + buf.count = buf.endIndex := by
    have := buf.head_le_endIndex
    simp only [count]
    omega
  rw [atEnd, endIndex]
  split_ifs
  · rw [Nat.add_mod_right, Nat.mod_eq_of_lt tailBound]
  · rw [Nat.mod_eq_of_lt tailBound]

theorem count_eq_zero_iff :
    buf.count = 0 ↔ buf.head = buf.tail := by
  simp only [count, endIndex]
  split_ifs <;> omega

theorem count_of_full (full : increment buf.tail = buf.head) : buf.count + 1 = size := by
  have tailVal := increment_val buf.tail
  rw [succ_mod_eq buf.tail.isLt] at tailVal
  simp only [count, endIndex]
  split_ifs at tailVal ⊢ <;> omega

theorem count_store (x : Element) (room : increment buf.tail ≠ buf.head) :
    (buf.store x).count = buf.count + 1 := by
  have tailVal := increment_val buf.tail
  rw [succ_mod_eq buf.tail.isLt] at tailVal
  simp only [count, endIndex, store, Fin.lt_def]
  split_ifs at tailVal ⊢ <;> omega

theorem count_popped (ne : buf.head ≠ buf.tail) :
    buf.count = ({ buf with head := increment buf.head } : RingBuffer Element size).count + 1 := by
  have headVal := increment_val buf.head
  rw [succ_mod_eq buf.head.isLt] at headVal
  simp only [count, endIndex]
  split_ifs at headVal ⊢ <;> omega

end

/-! ## The queue -/

section

variable (buf : RingBuffer Element size)
include buf

@[simp] theorem length_contents : buf.contents.length = buf.count := length_window _ _ _

theorem contents_eq_nil_iff : buf.contents = [] ↔ buf.head = buf.tail := by
  rw [← List.length_eq_zero_iff, length_contents, count_eq_zero_iff]

theorem wasEmpty_iff : buf.wasEmpty = true ↔ buf.contents = [] := by
  rw [contents_eq_nil_iff, wasEmpty, decide_eq_true_iff]

theorem contents_store (item : Element) (room : increment buf.tail ≠ buf.head) :
    (buf.store item).contents = buf.contents ++ [item] := by
  have grown := count_store buf item room
  have fits : buf.count + 1 < size := grown ▸ count_lt (buf.store item)
  simp only [contents, grown]
  simp only [store, tail_eq buf]
  rw [window_succ, Function.update_self,
    window_update_outside _ _ (next_cell_outside (by omega))]

end

theorem contents_pop {buf rest : RingBuffer Element size} {x : Element}
    (popped : buf.pop = some (x, rest)) : buf.contents = x :: rest.contents := by
  simp only [pop] at popped
  split_ifs at popped with ne
  cases popped
  rw [contents, count_popped buf ne, window_cons, Nat.mod_eq_of_lt buf.head.isLt]
  simp only [contents, increment_val, window_mod]

/-- A pop advances the head, and leaves room for an element. -/
theorem pop_some {buf rest : RingBuffer Element size} {x : Element}
    (popped : buf.pop = some (x, rest)) :
    x = buf.array buf.head ∧ rest.head = increment buf.head ∧
      increment rest.tail ≠ rest.head := by
  simp only [pop] at popped
  split_ifs at popped with ne
  cases popped
  exact ⟨rfl, rfl, fun full => ne (increment_injective full).symm⟩

section

variable (buf : RingBuffer Element size)
include buf

theorem getElem_contents (off : Nat) (bound : off < buf.contents.length) :
    buf.contents[off] = buf.array ((buf.head + off) % size) :=
  getElem_window _ _ _ _ _

theorem take_contents {offset : Nat} (le : offset ≤ buf.count) :
    buf.contents.take offset = window size buf.array buf.head offset := by
  refine List.ext_getElem ?_ fun index left right => ?_
  · simpa using le
  · rw [List.getElem_take, getElem_window]
    exact getElem_contents _ _ _

theorem index_eq_head_iff {off : Nat} (lt : off < buf.count) :
    (buf.head + off) % size = buf.head ↔ off = 0 := by
  have headBound := buf.head.isLt
  constructor
  · intro same
    have shifted : (buf.head + off) % size = (buf.head + 0) % size := by
      rw [same, Nat.add_zero, Nat.mod_eq_of_lt headBound]
    exact position_inj (Nat.lt_trans lt (count_lt buf)) (by omega) shifted
  · intro zero
    rw [zero, Nat.add_zero, Nat.mod_eq_of_lt headBound]

theorem contents_set {off : Nat} (item : Element) (lt : off < buf.count) :
    (buf.set ((buf.head + off) % size) item).contents =
      buf.contents.set off item :=
  window_update_inside _ _ lt (Nat.le_of_lt (count_lt buf))

end

end RingBuffer

end Xdk.Nvme
