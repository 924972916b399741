import Mathlib.Init

/-! # IO requests and submission commands

The data a client hands to the driver (`io_request_t`) and the 64-byte command
that `Command_io_rw` and `Command_io_flush` build in a submission slot.  Machine
integers are natural numbers; every place where the source narrows a value says
so (`u8`, `u16`, `u32`).
-/

namespace Xdk.Nvme

abbrev u8 (n : Nat) : Nat := n % 256

abbrev u16 (n : Nat) : Nat := n % 65536

abbrev u32 (n : Nat) : Nat := n % 4294967296

theorem u16_lt (n : Nat) : u16 n < 65536 := Nat.mod_lt _ (by decide)

theorem u16_of_lt {n : Nat} (lt : n < 65536) : u16 n = n := Nat.mod_eq_of_lt lt

inductive IoAction where
  | blockRead
  | blockWrite
  deriving DecidableEq, Repr

/-- `io_request_t`; the virtual address of the buffer is not read by the driver. -/
structure IoRequest where
  action : IoAction
  bufferPhys : Nat
  offset : Nat
  numBlocks : Nat
  deriving DecidableEq, Repr

structure RwCommand where
  opcode : Nat
  flags : Nat
  commandId : Nat
  nsid : Nat
  rsvd2 : Nat
  metadata : Nat
  prp1 : Nat
  prp2 : Nat
  slba : Nat
  length : Nat
  control : Nat
  dsmgmt : Nat
  reftag : Nat
  apptag : Nat
  appmask : Nat
  deriving DecidableEq, Repr

def RwCommand.cleared : RwCommand :=
  ⟨0, 0, 0, 0, 0, 0, 0, 0, 0, 0, 0, 0, 0, 0, 0⟩

def nvmeCmdFlush : Nat := 0x00
def nvmeCmdWrite : Nat := 0x01
def nvmeCmdRead : Nat := 0x02

/-- The byte of `struct nvme_io_dsm`: `access_freq : 4`, `access_lat : 2`,
    `seq_request : 1` and `incompressible : 1`, which is always zero. -/
def nvmeIoDsm (sequential : Bool) (accessFreq accessLat : Nat) : Nat :=
  accessFreq % 16 + 16 * (accessLat % 4) + 64 * sequential.toNat

def commandIoRw (sc : RwCommand) (commandId nsid prp1 offset numBlocks : Nat)
    (sequential : Bool) (accessFreq accessLat : Nat) (iswrite : Bool) : RwCommand :=
  { sc with
    opcode := u8 (if iswrite then nvmeCmdWrite else nvmeCmdRead)
    nsid := u32 nsid
    commandId := u16 commandId
    prp1 := prp1
    slba := offset
    -- `num_blocks - 1` on `size_t`, narrowed to sixteen bits
    length := u16 (numBlocks + 65535)
    -- a one-byte copy over the low byte of `dsmgmt`
    dsmgmt := sc.dsmgmt / 256 * 256 + nvmeIoDsm sequential accessFreq accessLat }

def commandIoFlush (commandId nsid : Nat) : RwCommand :=
  { RwCommand.cleared with
    opcode := u8 nvmeCmdFlush
    nsid := u32 nsid
    commandId := u16 commandId }

/-- One IO command: a read or a write of a request, or a flush. -/
inductive Op where
  | rw (request : IoRequest)
  | flush
  deriving DecidableEq, Repr

/-- What `issue_async_read`, `issue_async_write` and `issue_flush` write into the
    slot they got; the hints keep their default values and the namespace is 1. -/
def Op.write (sc : RwCommand) (commandId : Nat) : Op → RwCommand
  | .rw request =>
    match request.action with
    | .blockRead => commandIoRw sc commandId 1 request.bufferPhys request.offset
        request.numBlocks false 0 0 false
    | .blockWrite => commandIoRw sc commandId 1 request.bufferPhys request.offset
        request.numBlocks false 0 0 true
  | .flush => commandIoFlush commandId 1

def Op.opcode : Op → Nat
  | .rw ⟨.blockRead, _, _, _⟩ => nvmeCmdRead
  | .rw ⟨.blockWrite, _, _, _⟩ => nvmeCmdWrite
  | .flush => nvmeCmdFlush

def Op.buffer : Op → Nat
  | .rw request => request.bufferPhys
  | .flush => 0

def Op.offset : Op → Nat
  | .rw request => request.offset
  | .flush => 0

theorem Op.write_cleared (op : Op) {commandId : Nat} (lt : commandId < 65536) :
    (op.write .cleared commandId).opcode = op.opcode ∧
      (op.write .cleared commandId).prp1 = op.buffer ∧
      (op.write .cleared commandId).slba = op.offset ∧
      (op.write .cleared commandId).commandId = commandId := by
  have narrow := u16_of_lt lt
  cases op with
  | flush => exact ⟨rfl, rfl, rfl, narrow⟩
  | rw req =>
    obtain ⟨action, bufferPhys, offset, numBlocks⟩ := req
    cases action <;> exact ⟨rfl, rfl, rfl, narrow⟩

end Xdk.Nvme
