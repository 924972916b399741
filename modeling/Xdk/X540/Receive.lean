import Xdk.Lib.Transition
import Xdk.Lib.Word

/-! # The receive ring of the x540 driver

`interrupt_handler` works on one ring.  It reads the statuses of eight descriptors backwards,
hands as many packets to the stack as there were statuses with the done bit, and gives the
descriptors back to the hardware with the tail register.  A step of the model is one access to
what the driver shares with the hardware, so the hardware may fill descriptors between any two.
-/

namespace Xdk.X540

open Xdk.Lib

def lookAhead : Nat := 8

def ixgbeRxMaxBurst : Nat := 64

/-- The union of the format that the driver writes and the one that the hardware writes back: the
    upper word is a buffer address, or the status, the length and the VLAN tag. -/
structure RxDesc where
  pktAddr : Nat
  hdrAddr : Nat

namespace RxDesc

def statusError (desc : RxDesc) : Nat := desc.hdrAddr % 2 ^ 32

def length (desc : RxDesc) : Nat := desc.hdrAddr / 2 ^ 32 % 2 ^ 16

/-- The status with `IXGBE_RXDADV_STAT_DD` as mask. -/
def dd (desc : RxDesc) : Nat := desc.statusError % 2

end RxDesc

structure RxBuf where
  virtAddr : Nat
  physAddr : Nat

inductive PktStatus where
  | reuseThisPacket
  | keepThisPacket
  | packetErrorArpInput
  | packetErrorWrongArpType
  | packetErrorBadIpFragOverlap1
  | packetErrorBadIpFragDuplicate
  | packetErrorBadIpFragOverlap2
  | packetErrorBadIp
  | packetErrorUnknownIpType
  | packetErrorBadEth
  | packetErrorUnknownEthType
  | packetSuccessProcessingAppPayload
  | packetErrorProcessingAppPayload
deriving DecidableEq

/-- Where the handler is.  The variables have the names of the source; `seen` are the statuses
    `s[j], .., s[7]` that have been read. -/
inductive RxPhase where
  | idle
  | check
  | scan (nbRx i rxdp : Nat) (seen : List Nat)
  | receive (nbRx i rxdp j nbDd : Nat)
  | reset (nbRx i rxdp j nbDd : Nat) (newPkt : Bool)
  | store (nbRx i rxdp j nbDd : Nat)
  | tail (nbRx : Nat)
deriving DecidableEq

def RxPhase.allocates : RxPhase → Bool
  | .reset _ _ _ _ _ newPkt => newPkt
  | _ => false

structure RxConfig where
  numRxDescriptors : Nat
  getPhysAddr : Nat → Nat

/-- `rdt` and `rdh` are the registers of the hardware.  The rest is history: the buffer and the
    length of each packet the hardware has received, the arguments of the calls of
    `receive_packet`, and the buffers that the stack has kept and not freed. -/
structure RxQueue where
  rxTail : Nat
  rxBuf : Nat → RxBuf
  desc : Nat → RxDesc
  rdt : Nat
  rdh : Nat
  phase : RxPhase
  received : List (Nat × Nat)
  delivered : List (Nat × Nat)
  kept : List Nat

namespace RxQueue

def start (config : RxConfig) (buffer : Nat → Nat) : RxQueue where
  rxTail := 0
  rxBuf index := ⟨buffer index, config.getPhysAddr (buffer index)⟩
  desc index := ⟨config.getPhysAddr (buffer index), config.getPhysAddr (buffer index)⟩
  rdt := config.numRxDescriptors - 1
  rdh := 0
  phase := .idle
  received := []
  delivered := []
  kept := []

def afterPacket (config : RxConfig) (nbRx i rxdp j nbDd : Nat) : RxPhase :=
  if j < nbDd then .receive nbRx i rxdp j nbDd
  else if nbDd ≠ lookAhead then .tail nbRx
  else if i + lookAhead < ixgbeRxMaxBurst then
    .scan nbRx (i + lookAhead) ((rxdp + lookAhead) % config.numRxDescriptors) []
  else .tail nbRx

/-- The status of one more descriptor, and what comes when all eight have been read. -/
def scanStatus (config : RxConfig) (rx : RxQueue) (nbRx i rxdp : Nat) (seen : List Nat) : RxPhase :=
  let rxdpR := (rxdp + (lookAhead - 1 - seen.length)) % config.numRxDescriptors
  let seen := (rx.desc rxdpR).dd :: seen
  if seen.length < lookAhead then .scan nbRx i rxdp seen
  else afterPacket config (nbRx + seen.sum) i rxdp 0 seen.sum

/-- `reset_rx_desc` up to the store to `pkt_addr`; `fresh` is what the allocator returns. -/
def resetRxDesc (config : RxConfig) (rx : RxQueue) (index : Nat) (newPkt : Bool) (fresh : Nat) :
    RxQueue :=
  let buf := if newPkt then ⟨fresh, config.getPhysAddr fresh⟩ else rx.rxBuf index
  { rx with
    rxBuf := Function.update rx.rxBuf index buf
    desc := Function.update rx.desc index { rx.desc index with hdrAddr := buf.physAddr } }

inductive Event where
  /-- `interrupt_handler` is called. -/
  | interrupt
  /-- The handler reads a status. -/
  | read
  /-- The handler reads a length and calls `receive_packet`. -/
  | receive (answer : PktStatus)
  | reset (fresh : Nat)
  | store
  /-- The handler writes the tail register. -/
  | tail
  /-- The hardware fills the descriptor at its head. -/
  | fill (lower upper : Nat)
  /-- The stack frees a buffer it has kept. -/
  | free (buffer : Nat)

def step (config : RxConfig) (rx : RxQueue) : Event → Option RxQueue
  | .interrupt =>
    match rx.phase with
    | .idle => some { rx with phase := .check }
    | _ => none
  | .read =>
    match rx.phase with
    | .check =>
      if (rx.desc rx.rxTail).dd = 1 then some { rx with phase := .scan 0 0 rx.rxTail [] }
      else some { rx with phase := .idle }
    | .scan nbRx i rxdp seen => some { rx with phase := rx.scanStatus config nbRx i rxdp seen }
    | _ => none
  | .receive answer =>
    match rx.phase with
    | .receive nbRx i rxdp j nbDd =>
      let rxdpR := (rxdp + j) % config.numRxDescriptors
      let pkt := (rx.rxBuf rxdpR).virtAddr
      let newPkt := answer == .keepThisPacket
      some { rx with
        phase := .reset nbRx i rxdp j nbDd newPkt
        delivered := rx.delivered ++ [(pkt, (rx.desc rxdpR).length)]
        kept := if newPkt then pkt :: rx.kept else rx.kept }
    | _ => none
  | .reset fresh =>
    match rx.phase with
    | .reset nbRx i rxdp j nbDd newPkt =>
      let rxdpR := (rxdp + j) % config.numRxDescriptors
      some { rx.resetRxDesc config rxdpR newPkt fresh with phase := .store nbRx i rxdp j nbDd }
    | _ => none
  | .store =>
    match rx.phase with
    | .store nbRx i rxdp j nbDd =>
      let rxdpR := (rxdp + j) % config.numRxDescriptors
      some { rx with
        desc := Function.update rx.desc rxdpR
          { rx.desc rxdpR with pktAddr := (rx.rxBuf rxdpR).physAddr }
        phase := afterPacket config nbRx i rxdp (j + 1) nbDd }
    | _ => none
  | .tail =>
    match rx.phase with
    | .tail nbRx =>
      let tmp := wrap 32 (rx.rxTail + nbRx)
      some { rx with
        rdt := wrapSub 32 tmp 1 % config.numRxDescriptors
        rxTail := wrap 16 (tmp % config.numRxDescriptors)
        phase := .check }
    | _ => none
  | .fill lower upper =>
    if rx.rdh ≠ rx.rdt then
      some { rx with
        desc := Function.update rx.desc rx.rdh ⟨lower, upper⟩
        rdh := (rx.rdh + 1) % config.numRxDescriptors
        received := rx.received ++ [((rx.desc rx.rdh).pktAddr, (RxDesc.mk lower upper).length)] }
    else none
  | .free buffer => some { rx with kept := rx.kept.erase buffer }

/-- The descriptors from the head up to the tail register belong to the hardware. -/
def Owned (config : RxConfig) (rx : RxQueue) (index : Nat) : Prop :=
  ∃ offset < (rx.rdt + config.numRxDescriptors - rx.rdh) % config.numRxDescriptors,
    index = (rx.rdh + offset) % config.numRxDescriptors

/-- The allocator returns a buffer at an even address that is neither in the ring nor with the
    stack. -/
def Fresh (config : RxConfig) (rx : RxQueue) (fresh : Nat) : Prop :=
  config.getPhysAddr fresh % 2 = 0 ∧
    (∀ index < config.numRxDescriptors, (rx.rxBuf index).physAddr ≠ config.getPhysAddr fresh) ∧
    ∀ buffer ∈ rx.kept, config.getPhysAddr buffer ≠ config.getPhysAddr fresh

instance (config : RxConfig) (rx : RxQueue) (fresh : Nat) : Decidable (rx.Fresh config fresh) :=
  inferInstanceAs (Decidable (_ ∧ _ ∧ _))

def Environment (config : RxConfig) (rx : RxQueue) : Event → Prop
  | .fill lower upper => (RxDesc.mk lower upper).dd = 1
  | .reset fresh => rx.phase.allocates = true → rx.Fresh config fresh
  | _ => True

instance (config : RxConfig) (rx : RxQueue) (event : Event) :
    Decidable (rx.Environment config event) := by
  cases event <;> unfold Environment <;> infer_instance

end RxQueue

end Xdk.X540
