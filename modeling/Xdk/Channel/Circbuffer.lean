import Xdk.Lib.Transition
import Xdk.Lib.Word

/-! # The circular buffer of the shared-memory channel

`SPMC_circular_buffer` of `channel/spmc_circbuffer.h` hands pointers from one producer to
any number of consumers.  `_head` counts the items produced and `_tail` the items claimed;
a consumer claims an item by moving `_tail` with a compare-and-swap, copies it out of its
slot and marks the slot with the dummy address.  The producer writes to a slot only when it
finds the mark there.

The counters have 64 bits, but `consume` keeps `_tail` in an `unsigned`, and it is this
copy that it increments.
-/

namespace Xdk.Channel

open Xdk.Lib

/-- `SIZE`, which the constructor asserts to be a power of two. -/
structure Size where
  items : Nat
  power : ∃ exponent, items = 2 ^ exponent
  fits : items < 2 ^ 32

theorem Size.pos (size : Size) : 0 < size.items := by
  obtain ⟨exponent, same⟩ := size.power
  rw [same]
  exact Nat.two_pow_pos exponent

def fourSlots : Size := ⟨4, ⟨2, rfl⟩, by decide⟩

def null : Nat := 0

def dummyAddr : Nat := 2 ^ 64 - 1

inductive Status where
  | ok
  | empty
  | full
  | contention
  | invParam
  deriving DecidableEq, Repr

structure Circbuffer where
  head : Nat
  tail : Nat
  buffer : Nat → Nat

namespace Circbuffer

def init : Circbuffer := ⟨0, 0, fun _ => dummyAddr⟩

/-! ## The accesses of the two functions -/

def loadTail (c : Circbuffer) : Nat := wrap 32 c.tail

def seesEmpty (c : Circbuffer) (temp : Nat) : Bool := wrapSub 64 c.head temp = 0

def claim (c : Circbuffer) (temp : Nat) : Circbuffer := { c with tail := wrap 32 (temp + 1) }

def slot (size : Size) (index : Nat) : Nat := index % size.items

def markSlot (size : Size) (c : Circbuffer) (temp : Nat) : Circbuffer :=
  { c with buffer := Function.update c.buffer (slot size temp) dummyAddr }

def seesFull (size : Size) (head tail : Nat) : Bool := wrapSub 64 head tail = size.items

def storeSlot (size : Size) (c : Circbuffer) (item : Nat) : Circbuffer :=
  { c with buffer := Function.update c.buffer (slot size c.head) item }

def addHead (c : Circbuffer) : Circbuffer := { c with head := wrap 64 (c.head + 1) }

/-! ## The two functions -/

def consume (size : Size) (c : Circbuffer) : (Status × Option Nat) × Circbuffer :=
  let temp := c.loadTail
  if c.seesEmpty temp then ((.empty, none), c)
  else if c.tail = temp then
    ((.ok, some (c.buffer (slot size temp))), (c.claim temp).markSlot size temp)
  else ((.contention, none), c)

def produce (size : Size) (c : Circbuffer) (item : Nat) : Status × Circbuffer :=
  if item = null then (.invParam, c)
  else if seesFull size c.head c.tail then (.full, c)
  else if c.buffer (slot size c.head) = dummyAddr then (.ok, (c.storeSlot size item).addHead)
  else (.contention, c)

end Circbuffer

/-! ## The two programs -/

inductive ConsumerPc where
  | idle
  | loadTail
  | loadHead (temp : Nat)
  | cas (temp : Nat)
  | loadSlot (temp : Nat)
  | markSlot (temp item : Nat)
  | done (status : Status)
  deriving DecidableEq, Repr

inductive ProducerPc where
  | idle
  | loadHead (item : Nat)
  | loadTail (item head : Nat)
  | checkSlot (item : Nat)
  | storeSlot (item : Nat)
  | addHead (item : Nat)
  | done (status : Status)
  deriving DecidableEq, Repr

/-- The buffer, the producer and its consumers.  `accepted` has the items in the order in
    which they were accepted, and `returned` what the calls of `consume` have returned:
    who, the value of `_tail` that was moved, and the item. -/
structure Parties (Consumer : Type*) where
  ring : Circbuffer
  producer : ProducerPc
  consumers : Consumer → ConsumerPc
  accepted : List Nat
  returned : List (Consumer × Nat × Nat)

inductive ChannelEvent (Consumer : Type*) where
  | produce (item : Nat)
  | producer
  | consume (consumer : Consumer)
  | consumer (consumer : Consumer)
  deriving DecidableEq

namespace Parties

variable {Consumer : Type*} [DecidableEq Consumer]

def init : Parties Consumer := ⟨.init, .idle, fun _ => .idle, [], []⟩

def setPc (s : Parties Consumer) (consumer : Consumer) (pc : ConsumerPc) : Parties Consumer :=
  { s with consumers := Function.update s.consumers consumer pc }

def produceStep (size : Size) (s : Parties Consumer) : Option (Parties Consumer) :=
  match s.producer with
  | .idle => none
  | .loadHead item => some { s with producer := .loadTail item s.ring.head }
  | .loadTail item head =>
    some { s with
      producer := if Circbuffer.seesFull size head s.ring.tail then .done .full
        else .checkSlot item }
  | .checkSlot item =>
    some { s with
      producer := if s.ring.buffer (Circbuffer.slot size s.ring.head) = dummyAddr
        then .storeSlot item else .done .contention }
  | .storeSlot item => some { s with ring := s.ring.storeSlot size item, producer := .addHead item }
  | .addHead item =>
    some { s with
      ring := s.ring.addHead
      producer := .done .ok
      accepted := s.accepted ++ [item] }
  | .done _ => some { s with producer := .idle }

def consumeStep (size : Size) (s : Parties Consumer) (consumer : Consumer) :
    Option (Parties Consumer) :=
  match s.consumers consumer with
  | .idle => none
  | .loadTail => some (s.setPc consumer (.loadHead s.ring.loadTail))
  | .loadHead temp =>
    some (s.setPc consumer (if s.ring.seesEmpty temp then .done .empty else .cas temp))
  | .cas temp =>
    if s.ring.tail = temp then
      some { s.setPc consumer (.loadSlot temp) with ring := s.ring.claim temp }
    else some (s.setPc consumer (.done .contention))
  | .loadSlot temp =>
    some (s.setPc consumer (.markSlot temp (s.ring.buffer (Circbuffer.slot size temp))))
  | .markSlot temp item =>
    some { s.setPc consumer (.done .ok) with
      ring := s.ring.markSlot size temp
      returned := s.returned ++ [(consumer, temp, item)] }
  | .done _ => some (s.setPc consumer .idle)

def step (size : Size) (s : Parties Consumer) : ChannelEvent Consumer → Option (Parties Consumer)
  | .produce item =>
    match s.producer with
    | .idle =>
      some { s with producer := if item = null then .done .invParam else .loadHead item }
    | _ => none
  | .producer => s.produceStep size
  | .consume consumer =>
    match s.consumers consumer with
    | .idle => some (s.setPc consumer .loadTail)
    | _ => none
  | .consumer consumer => s.consumeStep size consumer

end Parties

end Xdk.Channel
