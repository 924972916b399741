import Mathlib.Logic.Function.Basic
import Mathlib.Tactic.SplitIfs
import Xdk.Lib.Transition

/-! # Receive path of the e1000 driver

`rx_init` sets up a ring of descriptors with a buffer each.  The hardware fills the descriptors
from its head on, up to but not including the tail, and sets the end-of-packet bit of the last one
of a frame.  `interrupt_handler` walks over the filled descriptors, hands a packet that is meant
for this host to the channel, resets the descriptor and moves the tail to it.

The valid tails are the indices of the ring.  `rx_init` writes the size of the ring instead, which
no head ever reaches.  And the handler, which means to refuse a descriptor without the
end-of-packet bit, combines the status with the bit by a logical and: every filled descriptor
passes.
-/

namespace Xdk.E1000

open Xdk.Lib

def numRxDescriptors : Nat := 4 * 4096 / 16

def pktMaxSize : Nat := 2048

structure RxDesc where
  address : Nat
  length : UInt16
  checksum : UInt16
  status : UInt8
  errors : UInt8
  special : UInt16
  deriving DecidableEq, Repr

/-- The fields of the card that the receive path reads, and the physical address of the packet
    buffers. -/
structure RxConfig where
  isX8254 : Bool
  mac : Nat → UInt8
  ip : Nat → UInt32
  pktP : Nat

/-! ## Which packets are meant for this host -/

def sentToMe (config : RxConfig) (pkt : Nat → UInt8) : Bool :=
  (List.range 6).all fun i => config.mac i == pkt i

/-- `is_arp`; the target address is compared when the address of the host is known. -/
def isArp (config : RxConfig) (pkt : Nat → UInt8) : Bool :=
  ((List.range 6).all fun pos => pkt pos == 0xFF) && pkt 12 == 0x08 && pkt 13 == 0x06 &&
    (config.ip 0 == 0 ||
      (List.range' 38 4).all fun pos => (pkt pos).toUInt32 == config.ip (pos - 38))

def accepts (config : RxConfig) (pkt : Nat → UInt8) : Bool :=
  isArp config pkt || sentToMe config pkt

/-! ## The driver and the hardware -/

/-- What the hardware puts into one descriptor: a frame, or a part of one. -/
structure Chunk where
  bytes : List UInt8
  endOfPacket : Bool
  checksum : UInt16
  errors : UInt8
  special : UInt16
  deriving DecidableEq, Repr

def Chunk.status (chunk : Chunk) : UInt8 := if chunk.endOfPacket then 0x03 else 0x01

def Chunk.copy (chunk : Chunk) (address : Nat) (memory : Nat → UInt8) : Nat → UInt8 := fun place =>
  if address ≤ place ∧ place < address + chunk.bytes.length then
    chunk.bytes.getD (place - address) 0
  else memory place

def Chunk.writeBack (chunk : Chunk) (desc : RxDesc) : RxDesc :=
  { desc with
    length := UInt16.ofNat chunk.bytes.length
    checksum := chunk.checksum
    status := chunk.status
    errors := chunk.errors
    special := chunk.special }

inductive RxPhase where
  | idle
  | readStatus
  | test (status : UInt8)
  | checkErrors
  | readLength
  | deliver (pktlen : UInt16)
  | reset
  | writeTail
  | advance
  | panicked
  deriving DecidableEq, Repr

/-- `rdh` is the descriptor that the hardware fills next.  `received` lists what it has put into
    descriptors, `delivered` counts the descriptors that the handler has looked at, `produced` is
    what it has handed to the channel, each with the number of its descriptor, and `rdtWrites`
    lists the values written to the tail register. -/
structure Receiver where
  rxDesc : Nat → RxDesc
  rxPkt : Nat → UInt8
  rxBufPos : Nat
  isUp : Bool
  icr : UInt32
  rdh : Nat
  rdt : Nat
  phase : RxPhase
  received : List Chunk
  delivered : Nat
  produced : List (Nat × List UInt8)
  rdtWrites : List Nat

def resetRxDesc (config : RxConfig) (index : Nat) : RxDesc :=
  ⟨config.pktP + index * pktMaxSize, 0, 0, 0, 0, 0⟩

inductive RxEvent where
  -- a call of `interrupt_handler`, and its next access
  | interrupt
  | access
  -- the hardware fills a descriptor, or has a reason for an interrupt
  | receive (chunk : Chunk)
  | cause (bits : UInt32)

namespace Receiver

def rxInit (config : RxConfig) (isUp : Bool) : Receiver where
  rxDesc := resetRxDesc config
  rxPkt _ := 0
  rxBufPos := 0
  isUp := isUp
  icr := 0
  rdh := 0
  rdt := numRxDescriptors
  phase := .idle
  received := []
  delivered := 0
  produced := []
  rdtWrites := [numRxDescriptors]

def pkt (config : RxConfig) (s : Receiver) (pos : Nat) : UInt8 :=
  s.rxPkt (config.pktP + s.rxBufPos * pktMaxSize + pos)

/-- The start of `interrupt_handler`; to read `ICR` clears it. -/
def interrupt (s : Receiver) : Receiver :=
  if s.icr &&& ((1 : UInt32) <<< 7) ≠ 0 then { s with icr := 0, phase := .readStatus }
  else if s.icr &&& ((1 : UInt32) <<< 2) ≠ 0 then { s with icr := 0, isUp := !s.isUp }
  else { s with icr := 0 }

def access (config : RxConfig) (s : Receiver) : Option Receiver :=
  match s.phase with
  | .idle | .panicked => none
  | .readStatus => some { s with phase := .test (s.rxDesc s.rxBufPos).status }
  | .test status =>
    if status &&& 0x01 = 0 then some { s with phase := .idle }
    -- `!(status && 0x10)`
    else if !(status ≠ 0 && (0x10 : UInt8) ≠ 0) then some { s with phase := .panicked }
    else some { s with phase := .checkErrors }
  | .checkErrors =>
    if config.isX8254 && (s.rxDesc s.rxBufPos).errors ≠ 0 then some { s with phase := .panicked }
    else some { s with phase := .readLength }
  | .readLength => some { s with phase := .deliver (s.rxDesc s.rxBufPos).length }
  | .deliver pktlen =>
    let item := (List.range pktlen.toNat).map (s.pkt config)
    some { s with
      produced :=
        if accepts config (s.pkt config) then s.produced ++ [(s.delivered, item)] else s.produced
      delivered := s.delivered + 1
      phase := .reset }
  | .reset =>
    some { s with
      rxDesc := Function.update s.rxDesc s.rxBufPos (resetRxDesc config s.rxBufPos)
      phase := .writeTail }
  | .writeTail =>
    some { s with
      rdt := s.rxBufPos % numRxDescriptors
      rdtWrites := s.rdtWrites ++ [s.rxBufPos % numRxDescriptors]
      phase := .advance }
  | .advance =>
    some { s with
      rxBufPos := (s.rxBufPos + 1) % numRxDescriptors
      phase := .readStatus }

/-- The hardware copies the bytes to the buffer of the descriptor and writes the descriptor back.
    It owns the descriptors up to the tail, and a buffer has 2048 bytes. -/
def receive (s : Receiver) (chunk : Chunk) : Option Receiver :=
  if s.rdh ≠ s.rdt ∧ chunk.bytes.length ≤ pktMaxSize then
    some { s with
      rxPkt := chunk.copy (s.rxDesc s.rdh).address s.rxPkt
      rxDesc := Function.update s.rxDesc s.rdh (chunk.writeBack (s.rxDesc s.rdh))
      rdh := (s.rdh + 1) % numRxDescriptors
      received := s.received ++ [chunk] }
  else none

def step (config : RxConfig) (s : Receiver) : RxEvent → Option Receiver
  | .interrupt => if s.phase = .idle then some s.interrupt else none
  | .access => s.access config
  | .receive chunk => s.receive chunk
  | .cause bits => some { s with icr := s.icr ||| bits }

/-! ## What the receive path should do -/

/-- The descriptor holds a whole frame: it ends one, and so does the descriptor before it. -/
def Whole (received : List Chunk) (index : Nat) : Prop :=
  (∃ chunk, received[index]? = some chunk ∧ chunk.endOfPacket = true) ∧
    (index = 0 ∨ ∃ previous, received[index - 1]? = some previous ∧ previous.endOfPacket = true)

/-- The packets of the channel are those that end a frame, each at most once and in the order of
    their arrival, and the whole frames for this host are among them. -/
structure Delivers (config : RxConfig) (s : Receiver) : Prop where
  order : s.produced.Pairwise fun first second => first.1 < second.1
  origin : ∀ entry ∈ s.produced, ∃ chunk, s.received[entry.1]? = some chunk ∧
    chunk.endOfPacket = true ∧ entry.2 = chunk.bytes
  kept : ∀ index < s.delivered, ∀ chunk, s.received[index]? = some chunk →
    Whole s.received index → accepts config (chunk.bytes.getD · 0) = true →
    index ∈ s.produced.map Prod.fst

structure ReceivesWell (config : RxConfig) (s : Receiver) : Prop extends Delivers config s where
  tails : ∀ value ∈ s.rdtWrites, value < numRxDescriptors

section Tails

variable {config : RxConfig} {isUp : Bool} {s s' : Receiver} {event : RxEvent}

/-- Only the handler writes the tail, and it writes an index of the ring. -/
theorem step_rdtWrites (made : s.step config event = some s') :
    s'.rdtWrites = s.rdtWrites ∨
      s'.rdtWrites = s.rdtWrites ++ [s.rxBufPos % numRxDescriptors] := by
  cases event with
  | interrupt =>
    simp only [step, interrupt] at made
    split_ifs at made <;> cases made <;> exact .inl rfl
  | access =>
    simp only [step, access] at made
    split at made
    all_goals first | split_ifs at made | skip
    all_goals cases made
    all_goals first | exact .inl rfl | exact .inr rfl
  | receive chunk =>
    simp only [step, receive] at made
    split_ifs at made
    cases made
    exact .inl rfl
  | cause bits =>
    cases made
    exact .inl rfl

/-- The first tail is not an index of the ring, and all others are. -/
def TailsAfterFirst (s : Receiver) : Prop :=
  ∃ later, s.rdtWrites = numRxDescriptors :: later ∧ ∀ value ∈ later, value < numRxDescriptors

theorem TailsAfterFirst.step (tails : s.TailsAfterFirst) (step : s.step config event = some s') :
    s'.TailsAfterFirst := by
  obtain ⟨later, writes, valid⟩ := tails
  rcases step_rdtWrites step with same | written
  · exact ⟨later, same.trans writes, valid⟩
  · refine ⟨later ++ [s.rxBufPos % numRxDescriptors], by rw [written, writes]; rfl, ?_⟩
    intro v mem
    rcases List.mem_append.mp mem with old | new
    · exact valid v old
    · obtain rfl := List.mem_singleton.mp new
      exact Nat.mod_lt _ (by decide)

/-- No run of the driver meets its purpose: the tail that `rx_init` writes is not valid, and it
    is the only one. -/
theorem receive_path_fails
    (run : Reaches (step config) (fun _ _ => True) (rxInit config isUp) s) :
    ¬ s.ReceivesWell config ∧ s.TailsAfterFirst := by
  have tails : s.TailsAfterFirst :=
    run.invariant ⟨[], rfl, by simp⟩ fun tails _ stepped => tails.step stepped
  refine ⟨fun well => ?_, tails⟩
  obtain ⟨later, writes, -⟩ := tails
  have first : numRxDescriptors ∈ s.rdtWrites := by
    rw [writes]
    exact List.mem_cons_self
  exact Nat.lt_irrefl _ (well.tails _ first)

end Tails

def quietHost : RxConfig := ⟨false, fun _ => 2, fun _ => 0, 0x10000⟩

/-- The first part of a frame that is too long for one buffer, and looks like ARP. -/
def firstPart : Chunk where
  bytes := List.replicate 12 0xFF ++ [0x08, 0x06] ++ List.replicate 2034 0
  endOfPacket := false
  checksum := 0
  errors := 0
  special := 0

def oneDescriptor : List RxEvent :=
  [.cause 0x80, .interrupt, .access, .access, .access, .access, .access, .access, .access]

/-- The start of the ring alone. -/
theorem receive_path_fails_at_start :
    ∃ s, Reaches (step quietHost) (fun _ _ => True) (rxInit quietHost true) s ∧
      ¬ s.ReceivesWell quietHost :=
  ⟨_, .refl, (receive_path_fails .refl).1⟩

/-- The first tail is 1024.  A descriptor without the end-of-packet bit is handed to the channel
    as a packet, before the rest of its frame has arrived. -/
theorem receive_path_produces_part :
    ∃ s, Reaches (step quietHost) (fun _ _ => True) (rxInit quietHost true) s ∧
      s.received = [firstPart] ∧ s.produced.map Prod.fst = [0] ∧ s.rdtWrites = [1024, 0] := by
  have executed : ∃ s ∈ execute (step quietHost) (fun _ _ => True)
      (.receive firstPart :: oneDescriptor) (rxInit quietHost true),
      s.received = [firstPart] ∧ s.produced.map Prod.fst = [0] ∧ s.rdtWrites = [1024, 0] := by
    decide +kernel
  exact exists_reaches_of_execute executed

end Receiver

end Xdk.E1000
