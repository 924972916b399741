import Xdk.X540.TxRing
import Xdk.Lib.Transition

/-! # Simple transmit of the x540 driver

`send` uses one descriptor for each packet.  It first looks whether the hardware is done with a
block of `tx_rs_thresh` descriptors, then fills descriptors from the tail on, asks for a report
on the last descriptor of each block and writes the tail register.  The hardware may process a
descriptor between any two stores of the driver, so a call computes what it will store and the
stores happen one after the other.
-/

namespace Xdk.X540

open Xdk.Lib

def ixgbeTxMaxBurst : Nat := 64

structure TxDesc where
  address : Nat
  length : UInt16
  cmd : UInt8
  sta : UInt8
  deriving DecidableEq

namespace TxDesc

def zero : TxDesc := ⟨0, 0, 0, 0⟩

def Rs (desc : TxDesc) : Prop := desc.cmd &&& 8 ≠ 0

def Dd (desc : TxDesc) : Prop := desc.sta &&& 1 ≠ 0

instance (desc : TxDesc) : Decidable desc.Rs := inferInstanceAs (Decidable (_ ≠ _))
instance (desc : TxDesc) : Decidable desc.Dd := inferInstanceAs (Decidable (_ ≠ _))

/-- `tx1`; `tx4` does the same for four packets. -/
def ofPacket (pkt : ExoMbuf) : TxDesc := ⟨pkt.physAddr, pkt.len, 3, 0⟩

def setRs (desc : TxDesc) : TxDesc := { desc with cmd := desc.cmd ||| 8 }

def process (desc : TxDesc) : TxDesc :=
  if desc.Rs then { desc with sta := desc.sta ||| 1 } else desc

end TxDesc

inductive Store where
  | fill (pos : Nat) (pkt : ExoMbuf)
  | setRs (pos : Nat)
  | tail (value : Nat)

namespace TxRing

/-- The entries that `tx_free_bufs` visits: both loops end at `tx_rs_thresh`, whatever block is
    reclaimed. -/
def freeIndices (ring : TxRing) : List Nat :=
  let first := wrapSub 32 ring.txNextDd (ring.txRsThresh - 1)
  List.range' first (ring.txRsThresh - first)

/-- The ring and the buffers that are freed, when the hardware is done with the block. -/
def txFreeBufs (ring : TxRing) : TxRing × List Nat :=
  let nextDd := wrap 16 (ring.txNextDd + ring.txRsThresh)
  ({ ring with
      swRing := fun index => if index ∈ ring.freeIndices then .zero else ring.swRing index
      nbTxFree := wrap 16 (ring.nbTxFree + ring.txRsThresh)
      txNextDd := if ring.nbTxDesc ≤ nextDd then wrap 16 (ring.txRsThresh - 1) else nextDd },
    (ring.freeIndices.filter fun index => (ring.swRing index).txBuf.Frees).map fun index =>
      (ring.swRing index).txBuf.virtAddr)

def Reclaims (ring : TxRing) (desc : Nat → TxDesc) : Prop :=
  ring.nbTxFree < ring.txFreeThresh ∧ (desc ring.txNextDd).Dd

instance (ring : TxRing) (desc : Nat → TxDesc) : Decidable (ring.Reclaims desc) :=
  inferInstanceAs (Decidable (_ ∧ _))

def fills : Nat → List ExoMbuf → List Store
  | _, [] => []
  | pos, pkt :: pkts => .fill pos pkt :: fills (pos + 1) pkts

def txFillHwRing (ring : TxRing) (pkts : List ExoMbuf) : TxRing × List Store :=
  ({ ring with
      swRing := fun index =>
        if ring.txTail ≤ index ∧ index < ring.txTail + pkts.length then
          { ring.swRing index with txBuf := pkts.getD (index - ring.txTail) .zero }
        else ring.swRing index },
    fills ring.txTail pkts)

def fillTop (ring : TxRing) (pkts : List ExoMbuf) : TxRing × List Store :=
  let filled := ring.txFillHwRing pkts
  ({ filled.1 with txNextRs := wrap 16 (ring.txRsThresh - 1), txTail := 0 },
    filled.2 ++ [.setRs ring.txNextRs])

/-- What comes after the wrap-around has been handled. -/
def fillBottom (ring : TxRing) (pkts : List ExoMbuf) : TxRing × List Store :=
  let filled := ring.txFillHwRing pkts
  let txTail := wrap 16 (ring.txTail + pkts.length)
  let nextRs := wrap 16 (ring.txNextRs + ring.txRsThresh)
  let marks := ring.txNextRs < txTail
  let last := if ring.nbTxDesc ≤ txTail then 0 else txTail
  ({ filled.1 with
      txTail := last
      txNextRs :=
        if marks then
          if ring.nbTxDesc ≤ nextRs then wrap 16 (ring.txRsThresh - 1) else nextRs
        else ring.txNextRs },
    filled.2 ++ (if marks then [.setRs ring.txNextRs] else []) ++ [.tail last])

/-- The packets from the tail on; if they wrap around, the top of the ring comes first. -/
def fillAround (ring : TxRing) (pkts : List ExoMbuf) : TxRing × List Store :=
  if ring.nbTxDesc < ring.txTail + pkts.length then
    let n := wrap 16 (ring.nbTxDesc - ring.txTail)
    let top := ring.fillTop (pkts.take n)
    let bottom := top.1.fillBottom (pkts.drop n)
    (bottom.1, top.2 ++ bottom.2)
  else ring.fillBottom pkts

def transmit (ring : TxRing) (pkts : List ExoMbuf) : TxRing × List Store :=
  fillAround { ring with
    nbTxFree := wrapSub 16 ring.nbTxFree pkts.length
    nbTxUsed := wrap 16 (ring.nbTxUsed + pkts.length) } pkts

end TxRing

/-! ## The driver and the hardware -/

/-- `pending` are the stores of the running call that have not happened.  The rest is history:
    the packets accepted, what the hardware found in the descriptors it processed, the buffers
    freed, and how many descriptors have been filled, handed over with the tail register,
    processed and reclaimed. -/
structure SimpleTx where
  ring : TxRing
  desc : Nat → TxDesc
  pending : List Store
  tdt : Nat
  tdh : Nat
  accepted : List ExoMbuf
  seen : List (Nat × UInt16)
  freed : List Nat
  stored : Nat
  handed : Nat
  processed : Nat
  reclaimed : Nat

namespace SimpleTx

def start (config : TxConfig) : SimpleTx :=
  ⟨configureTx config, fun _ => .zero, [], 0, 0, [], [], [], 0, 0, 0, 0⟩

inductive Event where
  | send (pkts : List ExoMbuf)
  | store
  | process

def reclaim (tx : SimpleTx) : SimpleTx :=
  if tx.ring.Reclaims tx.desc then
    { tx with
      ring := tx.ring.txFreeBufs.1
      freed := tx.freed ++ tx.ring.txFreeBufs.2
      reclaimed := tx.reclaimed + tx.ring.txRsThresh }
  else tx

def accept (tx : SimpleTx) (pkts : List ExoMbuf) : SimpleTx :=
  let nbPkts := wrap 16 (min tx.ring.nbTxFree pkts.length)
  if nbPkts = 0 then tx
  else
    let sent := tx.ring.transmit (pkts.take nbPkts)
    { tx with
      ring := sent.1
      pending := sent.2
      accepted := tx.accepted ++ pkts.take nbPkts }

def perform (tx : SimpleTx) : Store → SimpleTx
  | .fill pos pkt =>
    { tx with desc := Function.update tx.desc pos (.ofPacket pkt), stored := tx.stored + 1 }
  | .setRs pos => { tx with desc := Function.update tx.desc pos (tx.desc pos).setRs }
  | .tail value => { tx with tdt := value, handed := tx.stored }

def step (tx : SimpleTx) : Event → Option SimpleTx
  | .send pkts =>
    match tx.pending with
    | [] => some (tx.reclaim.accept pkts)
    | _ :: _ => none
  | .store =>
    match tx.pending with
    | [] => none
    | store :: rest => some ({ tx with pending := rest }.perform store)
  | .process =>
    if tx.tdh ≠ tx.tdt then
      let desc := tx.desc tx.tdh
      some { tx with
        desc := Function.update tx.desc tx.tdh desc.process
        tdh := (tx.tdh + 1) % tx.ring.nbTxDesc
        seen := tx.seen ++ [(desc.address, desc.length)]
        processed := tx.processed + 1 }
    else none

def Burst (_ : SimpleTx) : Event → Prop
  | .send pkts => pkts.length ≤ ixgbeTxMaxBurst
  | _ => True

instance (tx : SimpleTx) (event : Event) : Decidable (tx.Burst event) := by
  cases event <;> unfold Burst <;> infer_instance

end SimpleTx

end Xdk.X540
