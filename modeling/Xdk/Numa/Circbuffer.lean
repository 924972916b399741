import Xdk.Lib.Transition
import Xdk.Lib.Word

/-! # The circular buffer of the NUMA channel

`SPMC_circular_buffer` of `numa_channel/spmc_circbuffer.h` keeps four counters of 32 bits
that step by 8, so that every item has a cache line of its own: of `SIZE` slots only every
eighth is used.  The producer moves `_prod_head`, writes the slot and moves `_prod_tail`.
A consumer claims an item by moving `_cons_head` with a compare-and-swap, copies the item,
waits for the consumers before it and moves `_cons_tail`.
-/

namespace Xdk.Numa

open Xdk.Lib

/-- `SIZE`, which the constructor asserts to be a power of two; with fewer than 16 slots the
    buffer has no room for an item. -/
structure Size where
  exponent : Nat
  large : 4 ≤ exponent
  fits : exponent < 32

def Size.slots (size : Size) : Nat := 2 ^ size.exponent

def Size.mask (size : Size) : Nat := size.slots - 1

def headTailDistance : Nat := 8

def null : Nat := 0

inductive Status where
  | ok
  | empty
  | full
  | contention
  | invParam
  deriving DecidableEq, Repr

structure Circbuffer where
  prodHead : Nat
  consHead : Nat
  prodTail : Nat
  consTail : Nat
  buffer : Nat → Nat

namespace Circbuffer

def init : Circbuffer := ⟨0, 0, 0, 0, fun _ => null⟩

def next (counter : Nat) : Nat := wrap 32 (counter + 8)

def slot (size : Size) (counter : Nat) : Nat := counter % size.slots

def seesEmpty (consHead prodTail : Nat) : Bool := wrapSub 32 prodTail consHead < headTailDistance

def seesFull (size : Size) (prodHead consTail : Nat) : Bool :=
  wrapSub 32 (wrap 32 (size.mask + consTail)) prodHead < headTailDistance

end Circbuffer

/-! ## The two programs -/

/-- The next access of `consume`.  Beside the values that it has read, a consumer remembers
    how many items had been claimed when it read `_cons_head`, and after its
    compare-and-swap the number of its own item. -/
inductive ConsumerPc where
  | idle
  | loadConsHead
  | loadProdTail (consHead claimed : Nat)
  | cas (consHead claimed : Nat)
  | loadSlot (consHead number : Nat)
  | loadConsTail (consHead number item : Nat)
  | storeConsTail (consHead number item : Nat)
  | done (status : Status)
  deriving DecidableEq, Repr

inductive ProducerPc where
  | idle
  | loadProdHead (item : Nat)
  | loadConsTail (item prodHead : Nat)
  | storeProdHead (item prodHead : Nat)
  | storeSlot (item prodHead : Nat)
  | storeProdTail (item prodHead : Nat)
  | done (status : Status)
  deriving DecidableEq, Repr

/-- The buffer, the producer and its consumers.  `accepted` has the items in the order in
    which they were accepted, `claimed` counts the claims, and `returned` has what the calls
    of `consume` have returned: who, the number of the claim, and the item. -/
structure Parties (Consumer : Type*) where
  ring : Circbuffer
  producer : ProducerPc
  consumers : Consumer → ConsumerPc
  accepted : List Nat
  claimed : Nat
  returned : List (Consumer × Nat × Nat)

inductive ChannelEvent (Consumer : Type*) where
  | produce (item : Nat)
  | producer
  | consume (consumer : Consumer)
  | consumer (consumer : Consumer)
  deriving DecidableEq

namespace Parties

variable {Consumer : Type*} [DecidableEq Consumer]

def init : Parties Consumer := ⟨.init, .idle, fun _ => .idle, [], 0, []⟩

def setPc (s : Parties Consumer) (consumer : Consumer) (pc : ConsumerPc) : Parties Consumer :=
  { s with consumers := Function.update s.consumers consumer pc }

def produceStep (size : Size) (s : Parties Consumer) : Option (Parties Consumer) :=
  match s.producer with
  | .idle => none
  | .loadProdHead item => some { s with producer := .loadConsTail item s.ring.prodHead }
  | .loadConsTail item prodHead =>
    some { s with
      producer := if Circbuffer.seesFull size prodHead s.ring.consTail then .done .full
        else .storeProdHead item prodHead }
  | .storeProdHead item prodHead =>
    some { s with
      ring := { s.ring with prodHead := Circbuffer.next prodHead }
      producer := .storeSlot item prodHead }
  | .storeSlot item prodHead =>
    some { s with
      ring := { s.ring with
        buffer := Function.update s.ring.buffer (Circbuffer.slot size prodHead) item }
      producer := .storeProdTail item prodHead }
  | .storeProdTail item prodHead =>
    some { s with
      ring := { s.ring with prodTail := Circbuffer.next prodHead }
      producer := .done .ok
      accepted := s.accepted ++ [item] }
  | .done _ => some { s with producer := .idle }

def consumeStep (size : Size) (s : Parties Consumer) (consumer : Consumer) :
    Option (Parties Consumer) :=
  match s.consumers consumer with
  | .idle => none
  | .loadConsHead => some (s.setPc consumer (.loadProdTail s.ring.consHead s.claimed))
  | .loadProdTail consHead claimed =>
    some (s.setPc consumer (if Circbuffer.seesEmpty consHead s.ring.prodTail then .done .empty
      else .cas consHead claimed))
  | .cas consHead _ =>
    if s.ring.consHead = consHead then
      some { s.setPc consumer (.loadSlot consHead s.claimed) with
        ring := { s.ring with consHead := Circbuffer.next consHead }
        claimed := s.claimed + 1 }
    else some (s.setPc consumer (.done .contention))
  | .loadSlot consHead number =>
    some (s.setPc consumer (.loadConsTail consHead number
      (s.ring.buffer (Circbuffer.slot size consHead))))
  | .loadConsTail consHead number item =>
    some (s.setPc consumer (if s.ring.consTail = consHead then .storeConsTail consHead number item
      else .loadConsTail consHead number item))
  | .storeConsTail consHead number item =>
    some { s.setPc consumer (.done .ok) with
      ring := { s.ring with consTail := Circbuffer.next consHead }
      returned := s.returned ++ [(consumer, number, item)] }
  | .done _ => some (s.setPc consumer .idle)

def step (size : Size) (s : Parties Consumer) : ChannelEvent Consumer → Option (Parties Consumer)
  | .produce item =>
    match s.producer with
    | .idle =>
      some { s with producer := if item = null then .done .invParam else .loadProdHead item }
    | _ => none
  | .producer => s.produceStep size
  | .consume consumer =>
    match s.consumers consumer with
    | .idle => some (s.setPc consumer .loadConsHead)
    | _ => none
  | .consumer consumer => s.consumeStep size consumer

end Parties

end Xdk.Numa
