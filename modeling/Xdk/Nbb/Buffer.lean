import Mathlib.Algebra.Group.Nat.Defs
import Mathlib.Logic.Function.Basic
import Xdk.Lib.Transition
import Xdk.Lib.Word

/-! # The non-blocking buffer

`Symmetric_nbb` is a buffer for one producer and one consumer.  Each has a counter that it
alone writes: the producer `_uc`, the consumer `_ac`.  A counter goes up by one when its
party begins with a slot and once more when it is done, so that it is odd exactly in
between, and half of it counts the slots done.  At `_count_limit` a counter begins again
at 0.

The functions are here twice: as the functions that they are for a caller, and as programs
of single accesses to the counters and the slots, which the two parties run side by side.
Both are made of the same pieces.
-/

namespace Xdk.Nbb

open Xdk.Lib

/-! ## The constructor -/

structure Shape where
  size : Nat
  countLimit : Nat
  size_pos : 0 < size
  size_lt : size < 2 ^ 31
  limit_even : countLimit % 2 = 0
  limit_pos : 0 < countLimit
  limit_lt : countLimit < 2 ^ 32

namespace Shape

def limitFactor (size : Nat) : Nat := 2 * ((2 ^ 32 - 1) / wrap 32 (4 * size))

def limitOf (size : Nat) : Nat := wrap 32 (limitFactor size * size)

theorem limitOf_eq (size : Nat) :
    limitOf size = wrap 32 (2 * ((2 ^ 32 - 1) / wrap 32 (4 * size) * size)) := by
  rw [limitOf, limitFactor, Nat.mul_assoc]

/-- The quotient by which `k` is computed, times the divisor. -/
theorem quotient_mul_le (divisor : Nat) : (2 ^ 32 - 1) / divisor * divisor ≤ 2 ^ 32 - 1 :=
  Nat.div_mul_le_self _ _

theorem limitOf_small {size : Nat} (small : size < 2 ^ 30) :
    limitOf size = 2 * ((2 ^ 32 - 1) / (4 * size) * size) ∧
      4 * ((2 ^ 32 - 1) / (4 * size) * size) < 2 ^ 32 := by
  have divisor : wrap 32 (4 * size) = 4 * size := wrap_of_lt (by omega)
  have le := quotient_mul_le (4 * size)
  rw [Nat.mul_left_comm] at le
  rw [limitOf_eq, divisor, wrap_of_lt (by omega)]
  exact ⟨rfl, by omega⟩

theorem limitOf_pos {size : Nat} (size_pos : 0 < size) (size_lt : size < 2 ^ 31)
    (divisor : wrap 32 (4 * size) ≠ 0) : 0 < limitOf size := by
  obtain small | large := Nat.lt_or_ge size (2 ^ 30)
  · rw [(limitOf_small small).1]
    have quotient : 0 < (2 ^ 32 - 1) / (4 * size) := Nat.div_pos (by omega) (by omega)
    have := Nat.mul_pos quotient size_pos
    omega
  · -- the divisor is four times what the size has more than 2^30
    obtain ⟨more, rfl⟩ := Nat.exists_eq_add_of_le large
    have wrapped : wrap 32 (4 * (2 ^ 30 + more)) = 4 * more := by
      simp only [wrap]
      omega
    have le := quotient_mul_le (4 * more)
    have quotient : 0 < (2 ^ 32 - 1) / (4 * more) := Nat.div_pos (by omega) (by omega)
    rw [limitOf_eq, wrapped]
    generalize (2 ^ 32 - 1) / (4 * more) = factor at le quotient ⊢
    have product : 0 < factor * more := Nat.mul_pos quotient (by omega)
    rw [Nat.mul_left_comm] at le
    rw [Nat.mul_add]
    simp only [wrap]
    omega

/-- The constructor, for an `int` that is not negative.  It refuses the size 0; `none` is
    also the division by zero, and the assertion on `k`. -/
def create (size : Nat) : Option Shape :=
  if accepted : 0 < size ∧ size < 2 ^ 31 ∧ wrap 32 (4 * size) ≠ 0 ∧ 2 ≤ limitFactor size then
    some
      { size := size
        countLimit := limitOf size
        size_pos := accepted.1
        size_lt := accepted.2.1
        limit_even := by
          rw [limitOf_eq, wrap]
          omega
        limit_pos := limitOf_pos accepted.1 accepted.2.1 accepted.2.2.1
        limit_lt := Nat.mod_lt _ (Nat.two_pow_pos 32) }
  else none

def slot (shape : Shape) (last : Nat) : Nat := last / 2 % shape.size

def advance (shape : Shape) (last : Nat) : Nat :=
  let tmp := wrap 32 (last + 2)
  if tmp = shape.countLimit then 0 else tmp

end Shape

/-! ## The two functions -/

inductive NbbStatus where
  | ok
  | full
  | fullButConsumerReading
  | empty
  | emptyButProducerInserting
  deriving DecidableEq, Repr

structure SymmetricNbb (α : Type*) where
  uc : Nat
  ac : Nat
  lastUc : Nat
  lastAc : Nat
  buffer : Nat → α

namespace SymmetricNbb

variable {α : Type*}

def init [Inhabited α] : SymmetricNbb α := ⟨0, 0, 0, 0, fun _ => default⟩

def insertCheck (shape : Shape) (lastUc tempAc : Nat) : Option NbbStatus :=
  if wrapSub 32 lastUc tempAc = wrap 32 (2 * shape.size) then some .full
  else if wrapSub 32 lastUc tempAc = wrapSub 32 (wrap 32 (2 * shape.size)) 1 then
    some .fullButConsumerReading
  else none

def readCheck (lastAc tempUc : Nat) : Option NbbStatus :=
  if tempUc = lastAc then some .empty
  else if wrapSub 32 tempUc lastAc = 1 then some .emptyButProducerInserting
  else none

/-! The accesses of `insert_item` after its tests, and of `read_item`. -/

def beginInsert (nbb : SymmetricNbb α) : SymmetricNbb α :=
  { nbb with uc := wrap 32 (nbb.lastUc + 1) }

def storeSlot (shape : Shape) (nbb : SymmetricNbb α) (item : α) : SymmetricNbb α :=
  { nbb with buffer := Function.update nbb.buffer (shape.slot nbb.lastUc) item }

def publishInsert (shape : Shape) (nbb : SymmetricNbb α) : SymmetricNbb α :=
  { nbb with uc := shape.advance nbb.lastUc }

def rememberInsert (nbb : SymmetricNbb α) : SymmetricNbb α := { nbb with lastUc := nbb.uc }

def beginRead (nbb : SymmetricNbb α) : SymmetricNbb α := { nbb with ac := wrap 32 (nbb.lastAc + 1) }

def loadSlot (shape : Shape) (nbb : SymmetricNbb α) : α := nbb.buffer (shape.slot nbb.lastAc)

def publishRead (shape : Shape) (nbb : SymmetricNbb α) : SymmetricNbb α :=
  { nbb with ac := shape.advance nbb.lastAc }

def rememberRead (nbb : SymmetricNbb α) : SymmetricNbb α := { nbb with lastAc := nbb.ac }

def insertItem (shape : Shape) (nbb : SymmetricNbb α) (item : α) : NbbStatus × SymmetricNbb α :=
  match insertCheck shape nbb.lastUc nbb.ac with
  | some status => (status, nbb)
  | none => (.ok, ((nbb.beginInsert.storeSlot shape item).publishInsert shape).rememberInsert)

/-- The item read is missing where nothing is copied. -/
def readItem (shape : Shape) (nbb : SymmetricNbb α) : (NbbStatus × Option α) × SymmetricNbb α :=
  match readCheck nbb.lastAc nbb.uc with
  | some status => ((status, none), nbb)
  | none =>
    ((.ok, some (nbb.beginRead.loadSlot shape)), (nbb.beginRead.publishRead shape).rememberRead)

end SymmetricNbb

/-! ## The two programs -/

inductive ProducerPc (α : Type*) where
  | idle
  | loadAc (item : α)
  | begin (item : α)
  | storeSlot (item : α)
  | publish (item : α)
  | remember
  deriving DecidableEq, Repr

inductive ConsumerPc (α : Type*) where
  | idle
  | loadUc
  | begin
  | loadSlot
  | publish (item : α)
  | remember
  deriving DecidableEq, Repr

/-- The buffer and its parties.  `inserted` has the items of the insertions that succeed
    and `slots` the slots they went to, from the moment the counter says so; `taken` has
    the items of the reads that succeed. -/
structure Parties (α : Type*) where
  nbb : SymmetricNbb α
  producer : ProducerPc α
  consumer : ConsumerPc α
  inserted : List α
  slots : List Nat
  taken : List α

inductive NbbEvent (α : Type*) where
  | insertItem (item : α)
  | readItem
  | producer
  | consumer
  deriving DecidableEq

namespace Parties

variable {α : Type*}

def init [Inhabited α] : Parties α := ⟨.init, .idle, .idle, [], [], []⟩

def produce (shape : Shape) (s : Parties α) : Option (Parties α) :=
  match s.producer with
  | .idle => none
  | .loadAc item =>
    some { s with
      producer := match SymmetricNbb.insertCheck shape s.nbb.lastUc s.nbb.ac with
        | some _ => .idle
        | none => .begin item }
  | .begin item => some { s with nbb := s.nbb.beginInsert, producer := .storeSlot item }
  | .storeSlot item =>
    some { s with nbb := s.nbb.storeSlot shape item, producer := .publish item }
  | .publish item =>
    some { s with
      nbb := s.nbb.publishInsert shape
      producer := .remember
      inserted := s.inserted ++ [item]
      slots := s.slots ++ [shape.slot s.nbb.lastUc] }
  | .remember => some { s with nbb := s.nbb.rememberInsert, producer := .idle }

def consume (shape : Shape) (s : Parties α) : Option (Parties α) :=
  match s.consumer with
  | .idle => none
  | .loadUc =>
    some { s with
      consumer := match SymmetricNbb.readCheck s.nbb.lastAc s.nbb.uc with
        | some _ => .idle
        | none => .begin }
  | .begin => some { s with nbb := s.nbb.beginRead, consumer := .loadSlot }
  | .loadSlot => some { s with consumer := .publish (s.nbb.loadSlot shape) }
  | .publish item =>
    some { s with
      nbb := s.nbb.publishRead shape
      consumer := .remember
      taken := s.taken ++ [item] }
  | .remember => some { s with nbb := s.nbb.rememberRead, consumer := .idle }

def step (shape : Shape) (s : Parties α) : NbbEvent α → Option (Parties α)
  | .insertItem item =>
    match s.producer with
    | .idle => some { s with producer := .loadAc item }
    | _ => none
  | .readItem =>
    match s.consumer with
    | .idle => some { s with consumer := .loadUc }
    | _ => none
  | .producer => s.produce shape
  | .consumer => s.consume shape

end Parties

end Xdk.Nbb
