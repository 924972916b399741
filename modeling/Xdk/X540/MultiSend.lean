import Xdk.X540.TxRing
import Xdk.Lib.Transition

/-! # Multi-segment transmit of the x540 driver

`multi_send` uses a context descriptor and one data descriptor for each segment of a packet.  It
asks for a report on the last descriptor of a packet once `tx_rs_thresh` descriptors have been
used since the last report, and `xmit_cleanup` takes back the descriptors up to the next report.
As in simple transmit the hardware may process a descriptor between any two stores.
-/

namespace Xdk.X540

open Xdk.Lib

/-! ## Descriptors -/

structure AdvDesc where
  address : Nat
  cmdTypeLen : UInt32
  olinfoStatus : UInt32

namespace AdvDesc

def zero : AdvDesc := ⟨0, 0, 0⟩

def Rs (desc : AdvDesc) : Prop := desc.cmdTypeLen &&& 0x08000000 ≠ 0

def Dd (desc : AdvDesc) : Prop := desc.olinfoStatus &&& 1 ≠ 0

instance (desc : AdvDesc) : Decidable desc.Rs := inferInstanceAs (Decidable (_ ≠ _))
instance (desc : AdvDesc) : Decidable desc.Dd := inferInstanceAs (Decidable (_ ≠ _))

def process (desc : AdvDesc) : AdvDesc :=
  if desc.Rs then { desc with olinfoStatus := desc.olinfoStatus ||| 1 } else desc

end AdvDesc

def firstDescCmd : UInt32 := 0x00300000 ||| 0x20000000 ||| 0x02000000

def lastDescCmd : UInt32 := firstDescCmd ||| 0x01000000

def firstDescStatus : UInt32 := 0x00000080 ||| 0x00000100

inductive DescWrite where
  | context
  | first (address : Nat) (len : UInt16) (cmd pktLen : UInt32)
  | more (address : Nat) (len : UInt16) (cmd : UInt32)
  | skip
  | setRs
  | resetStatus

/-- The context descriptor covers the words of the data descriptor: `special` has 64 bits.  The
    data descriptors after the first keep the status that was there. -/
def DescWrite.apply : DescWrite → AdvDesc → AdvDesc
  | .context, desc =>
    ⟨desc.address / 2 ^ 32 * 2 ^ 32 + (20 ||| 14 <<< 9),
      0x00000400 ||| 0x00200000 ||| 0x20000000, 0⟩
  | .first address len cmd pktLen, _ =>
    ⟨address, len.toUInt32 ||| cmd, firstDescStatus ||| pktLen <<< 14⟩
  | .more address len cmd, desc =>
    { desc with address := address, cmdTypeLen := len.toUInt32 ||| cmd }
  | .skip, desc => desc
  | .setRs, desc => { desc with cmdTypeLen := desc.cmdTypeLen ||| 0x08000000 }
  | .resetStatus, desc => { desc with olinfoStatus := 0 }

/-! ## Packets -/

namespace ExoMbuf

/-- The data descriptors of a packet, `none` when an assertion on the number of segments fails. -/
def dataWrites (pkt : ExoMbuf) : Option (List DescWrite) :=
  let pktLen := pkt.len.toUInt32 + (pkt.segLen 0).toUInt32 + (pkt.segLen 1).toUInt32
  if pkt.nbSegment = 1 then some [.first pkt.physAddr pkt.len lastDescCmd pktLen]
  else
    let first := .first pkt.physAddr pkt.len firstDescCmd pktLen
    if pkt.segLen 0 ≠ 0 ∧ pkt.segLen 1 ≠ 0 then
      if pkt.nbSegment = 3 then
        some [first, .more (pkt.physAddrSeg 0) (pkt.segLen 0) firstDescCmd,
          .more (pkt.physAddrSeg 1) (pkt.segLen 1) lastDescCmd]
      else none
    else if pkt.segLen 0 ≠ 0 then
      if pkt.nbSegment = 2 then
        some [first, .more (pkt.physAddrSeg 0) (pkt.segLen 0) lastDescCmd]
      else none
    else if pkt.segLen 1 ≠ 0 then
      if pkt.nbSegment = 2 then
        some [first, .more (pkt.physAddrSeg 1) (pkt.segLen 1) lastDescCmd]
      else none
    else some [first, .skip]

def buffers (pkt : ExoMbuf) : List (Nat × Nat) :=
  (if pkt.flag % 2 = 1 then [(pkt.virtAddr, pkt.flag / 16)] else []) ++
    (if pkt.segFlag 0 % 2 = 1 then [(pkt.virtAddrSeg 0, pkt.segFlag 0 / 16)] else []) ++
    (if pkt.segFlag 1 % 2 = 1 then [(pkt.virtAddrSeg 1, pkt.segFlag 1 / 16)] else [])

def Consistent (pkt : ExoMbuf) : Prop :=
  pkt.nbSegment =
    1 + (if pkt.segLen 0 = 0 then 0 else 1) + (if pkt.segLen 1 = 0 then 0 else 1)

instance (pkt : ExoMbuf) : Decidable pkt.Consistent := inferInstanceAs (Decidable (_ = _))

end ExoMbuf

namespace TxRing

/-- An index of sixteen bits that may be beyond the end of the ring. -/
def ringIndex (ring : TxRing) (value : Nat) : Nat :=
  if ring.nbTxDesc ≤ wrap 16 value then wrap 16 (wrap 16 value - ring.nbTxDesc) else wrap 16 value

/-- The descriptors from `txId` on, each the next one of the one before; all of them get the last
    descriptor of the packet. -/
def layout (txLast : Nat) : List DescWrite → (Nat → TxEntry) → Nat →
    (Nat → TxEntry) × List (Nat × DescWrite) × Nat
  | [], swRing, txId => (swRing, [], txId)
  | write :: writes, swRing, txId =>
    let linked := Function.update swRing txId ((swRing txId).setLast txLast)
    let rest := layout txLast writes linked (swRing txId).nextId
    (rest.1, (txId, write) :: rest.2.1, rest.2.2)

def sendPacket (ring : TxRing) (txId : Nat) (pkt : ExoMbuf) (writes : List DescWrite) :
    TxRing × List (Nat × DescWrite) × Nat :=
  let nbUsed := wrap 16 (pkt.nbSegment + 1)
  let second := (ring.swRing txId).nextId
  let stored := Function.update ring.swRing second { ring.swRing second with txBuf := pkt }
  let laid := layout (ring.ringIndex (txId + nbUsed - 1)) (.context :: writes) stored txId
  let last := (laid.2.1.getLast?.map Prod.fst).getD txId
  let nbTxUsed := wrap 16 (ring.nbTxUsed + nbUsed)
  let reports := ring.txRsThresh ≤ nbTxUsed
  ({ ring with
      swRing := laid.1
      nbTxUsed := if reports then 0 else nbTxUsed
      nbTxFree := wrapSub 16 ring.nbTxFree nbUsed },
    laid.2.1 ++ (if reports then [(last, .setRs)] else []), laid.2.2)

def descToCleanTo (ring : TxRing) : Nat :=
  (ring.swRing (ring.ringIndex (ring.lastDescCleaned + ring.txRsThresh))).lastId

def cleanIndices (ring : TxRing) : List Nat :=
  if ring.descToCleanTo < ring.lastDescCleaned then
    List.range' (ring.lastDescCleaned + 1) (ring.nbTxDesc - (ring.lastDescCleaned + 1)) ++
      List.range' 0 (ring.descToCleanTo + 1)
  else List.range' (ring.lastDescCleaned + 1) (ring.descToCleanTo - ring.lastDescCleaned)

def nbTxToClean (ring : TxRing) : Nat :=
  if ring.descToCleanTo < ring.lastDescCleaned then
    wrap 16 (ring.nbTxDesc - ring.lastDescCleaned + ring.descToCleanTo)
  else wrap 16 (ring.descToCleanTo - ring.lastDescCleaned)

def xmitCleanup (ring : TxRing) : TxRing :=
  { ring with
    swRing := fun index =>
      if index ∈ ring.cleanIndices then ⟨.zero, (index + 1) % ring.nbTxDesc, index⟩
      else ring.swRing index
    lastDescCleaned := ring.descToCleanTo
    nbTxFree := wrap 16 (ring.nbTxFree + ring.nbTxToClean) }

end TxRing

/-! ## The driver and the hardware -/

/-- In the loop: the packets that are left, how many have been sent, and `tx_id`. -/
inductive SendPhase where
  | idle
  | loop (left : List ExoMbuf) (nbTx txId : Nat)

/-- `pending` are the stores of the current turn that have not happened.  The rest is history: the
    packets sent, the buffers freed, and how many descriptors had been used before the current
    turn, handed over with the tail register, processed and cleaned. -/
structure MultiTx where
  ring : TxRing
  desc : Nat → AdvDesc
  phase : SendPhase
  pending : List (Nat × DescWrite)
  tdt : Nat
  tdh : Nat
  sent : List ExoMbuf
  freed : List (Nat × Nat)
  filled : Nat
  handed : Nat
  processed : Nat
  cleaned : Nat

def descriptors (pkts : List ExoMbuf) : Nat := (pkts.map fun pkt => pkt.nbSegment + 1).sum

namespace MultiTx

def start (config : TxConfig) : MultiTx :=
  ⟨configureTx config, fun _ => .zero, .idle, [], 0, 0, [], [], 0, 0, 0, 0⟩

/-- `none` when the descriptor that is tested is not done. -/
def cleanup (tx : MultiTx) : Option MultiTx :=
  let target := tx.ring.descToCleanTo
  if (tx.desc target).Dd then
    some { tx with
      ring := tx.ring.xmitCleanup
      pending := tx.pending ++ [(target, .resetStatus)]
      freed := tx.freed ++ tx.ring.cleanIndices.flatMap fun index =>
        (tx.ring.swRing index).txBuf.buffers
      cleaned := tx.cleaned + tx.ring.nbTxToClean }
  else none

def endOfTx (tx : MultiTx) (txId : Nat) : MultiTx :=
  { tx with
    ring := { tx.ring with txTail := txId }
    phase := .idle
    tdt := txId
    handed := descriptors tx.sent }

def sendPacket (tx : MultiTx) (pkt : ExoMbuf) (left : List ExoMbuf) (nbTx txId : Nat) :
    Option MultiTx :=
  if wrap 16 (pkt.nbSegment + 1) ≤ tx.ring.nbTxFree then
    pkt.dataWrites.map fun writes =>
      let sent := tx.ring.sendPacket txId pkt writes
      { tx with
        ring := sent.1
        phase := .loop left (nbTx + 1) sent.2.2
        pending := tx.pending ++ sent.2.1
        sent := tx.sent ++ [pkt]
        filled := descriptors tx.sent }
  else none

inductive Event where
  | call (pkts : List ExoMbuf)
  | next
  | store
  | process

def step (tx : MultiTx) : Event → Option MultiTx
  | .call pkts =>
    match tx.phase with
    | .idle =>
      let tx := { tx with phase := .loop pkts 0 tx.ring.txTail, filled := descriptors tx.sent }
      if tx.ring.txFreeThresh < tx.ring.nbTxDesc - tx.ring.nbTxFree then
        some (tx.cleanup.getD tx)
      else some tx
    | .loop _ _ _ => none
  | .next =>
    match tx.phase, tx.pending with
    | .loop [] _ txId, [] => some (tx.endOfTx txId)
    | .loop (pkt :: left) nbTx txId, [] =>
      if tx.ring.nbTxFree < wrap 16 (pkt.nbSegment + 1) then
        match tx.cleanup with
        | none => some (if nbTx = 0 then { tx with phase := .idle } else tx.endOfTx txId)
        | some tx => tx.sendPacket pkt left nbTx txId
      else tx.sendPacket pkt left nbTx txId
    | _, _ => none
  | .store =>
    match tx.pending with
    | [] => none
    | (index, write) :: rest =>
      some { tx with
        desc := Function.update tx.desc index (write.apply (tx.desc index))
        pending := rest }
  | .process =>
    if tx.tdh ≠ tx.tdt then
      some { tx with
        desc := Function.update tx.desc tx.tdh (tx.desc tx.tdh).process
        tdh := (tx.tdh + 1) % tx.ring.nbTxDesc
        processed := tx.processed + 1 }
    else none

def Consistent (_ : MultiTx) : Event → Prop
  | .call pkts => ∀ pkt ∈ pkts, pkt.Consistent
  | _ => True

instance (tx : MultiTx) (event : Event) : Decidable (tx.Consistent event) := by
  cases event <;> unfold Consistent <;> infer_instance

end MultiTx

end Xdk.X540
