import Mathlib.Data.List.GetD
import Xdk.Lib.Word

/-! # The transmit ring of the x540 driver

Both send functions work on a `exo_tx_ring`: the cursors into the ring of descriptors, and for
each descriptor an entry with the packet whose buffers are to be freed.
-/

namespace Xdk.X540

open Xdk.Lib

/-- `exo_mbuf`: a packet of up to three segments.  The lowest bit of a flag says that the buffer
    is to be freed, its upper half which allocator it came from. -/
structure ExoMbuf where
  physAddr : Nat
  virtAddr : Nat
  physAddrSeg : Fin 2 → Nat
  virtAddrSeg : Fin 2 → Nat
  len : UInt16
  segLen : Fin 2 → UInt16
  flag : Nat
  segFlag : Fin 2 → Nat
  nbSegment : Nat

namespace ExoMbuf

def zero : ExoMbuf := ⟨0, 0, fun _ => 0, fun _ => 0, 0, fun _ => 0, 0, fun _ => 0, 0⟩

def Frees (pkt : ExoMbuf) : Prop := pkt.flag % 2 = 1

instance (pkt : ExoMbuf) : Decidable pkt.Frees := inferInstanceAs (Decidable (_ = _))

end ExoMbuf

structure TxEntry where
  txBuf : ExoMbuf
  nextId : Nat
  lastId : Nat

namespace TxEntry

def zero : TxEntry := ⟨.zero, 0, 0⟩

def setLast (entry : TxEntry) (lastId : Nat) : TxEntry := { entry with lastId := lastId }

end TxEntry

structure TxRing where
  swRing : Nat → TxEntry
  txTail : Nat
  txFreeThresh : Nat
  txRsThresh : Nat
  nbTxDesc : Nat
  nbTxUsed : Nat
  lastDescCleaned : Nat
  txNextDd : Nat
  txNextRs : Nat
  nbTxFree : Nat

structure TxConfig where
  nbTxDesc : Nat
  txRsThresh : Nat
  txFreeThresh : Nat

def configureTx (config : TxConfig) : TxRing where
  swRing index := ⟨.zero, (index + 1) % config.nbTxDesc, index⟩
  txTail := 0
  txFreeThresh := config.txFreeThresh
  txRsThresh := config.txRsThresh
  nbTxDesc := config.nbTxDesc
  nbTxUsed := 0
  lastDescCleaned := wrap 16 (config.nbTxDesc - 1)
  txNextDd := wrap 16 (config.txRsThresh - 1)
  txNextRs := wrap 16 (config.txRsThresh - 1)
  nbTxFree := wrap 16 (config.nbTxDesc - 1)

end Xdk.X540
