import Xdk.Lib.Bytes
import Xdk.Nvme.Command

/-! # The bytes of a submission slot

A submission slot is 64 bytes.  `next_sub_slot` clears all of them and `Command_io_rw` writes the
fields of `struct nvme_rw_command` over them.  The device reads back the command of the model,
whatever the slot held before.

One thing is never written: the second data pointer.  The device moves the blocks to or from the
page of the first pointer and then needs the second one, so a transfer is complete only if it
ends in the page where it starts.
-/

namespace Xdk.Nvme

open Xdk.Lib

/-! ## The layout -/

inductive RwField where
  | opcode | flags | commandId | nsid | rsvd2 | metadata | prp1 | prp2 | slba | length | control
  | dsmgmt | reftag | apptag | appmask
  deriving DecidableEq, Repr

namespace RwField

def all : List RwField :=
  [opcode, flags, commandId, nsid, rsvd2, metadata, prp1, prp2, slba, length, control, dsmgmt,
    reftag, apptag, appmask]

def width : RwField → Nat
  | opcode | flags => 1
  | commandId | length | control | apptag | appmask => 2
  | nsid | dsmgmt | reftag => 4
  | rsvd2 | metadata | prp1 | prp2 | slba => 8

/-- The fields follow each other without a gap, since each is aligned to its width as it is. -/
def offset (field : RwField) : Nat :=
  ((all.takeWhile (· ≠ field)).map width).sum

def bytes (field : RwField) : ByteField := ⟨field.offset, field.width⟩

theorem bytes_apart {a b : RwField} (ne : a ≠ b) :
    a.bytes.Apart b.bytes := by
  revert ne
  cases a <;> cases b <;> decide

end RwField

def slotBytes : ByteField := ⟨0, 64⟩

theorem RwField.bytes_inside (field : RwField) : field.bytes.Inside slotBytes := by
  cases field <;> decide

/-! ## Writing a command -/

def clearSlot (slot : Memory) : Memory := slotBytes.write 0 slot

/-- `Command_io_rw`, which asserts that the namespace is 1.  The hints are one byte, copied over
    the first one of `dsmgmt`. -/
def commandIoRwBytes (slot : Memory) (commandId nsid prp1 offset numBlocks : Nat)
    (sequential : Bool) (accessFreq accessLat : Nat) (iswrite : Bool) : Option Memory :=
  if nsid ≠ 1 then none
  else
    let slot := RwField.opcode.bytes.write (if iswrite then nvmeCmdWrite else nvmeCmdRead) slot
    let slot := RwField.nsid.bytes.write nsid slot
    let slot := RwField.commandId.bytes.write commandId slot
    let slot := RwField.prp1.bytes.write prp1 slot
    let slot := RwField.slba.bytes.write offset slot
    -- `num_blocks - 1` on `size_t`
    let slot := RwField.length.bytes.write ((numBlocks + (2 ^ 64 - 1)) % 2 ^ 64) slot
    some ((⟨RwField.dsmgmt.offset, 1⟩ : ByteField).write
      (nvmeIoDsm sequential accessFreq accessLat) slot)

/-- `issue_async_read` and `issue_async_write`, from the slot that `next_sub_slot` takes to the
    one that the doorbell announces. -/
def issueAsync (iswrite : Bool) (slot : Memory) (cmdid prp1 offset numBlocks : Nat)
    (sequential : Bool) (accessFreq accessLat nsid : Nat) : Option Memory :=
  commandIoRwBytes (clearSlot slot) cmdid nsid prp1 offset numBlocks sequential accessFreq
    accessLat iswrite

def issueAsyncRead := issueAsync false

def issueAsyncWrite := issueAsync true

def IoAction.issue : IoAction → Memory → Nat → Nat → Nat → Nat → Bool → Nat → Nat → Nat →
    Option Memory
  | .blockRead => issueAsyncRead
  | .blockWrite => issueAsyncWrite

/-! ## Reading it back -/

def readRwCommand (slot : Memory) : RwCommand where
  opcode := RwField.opcode.bytes.read slot
  flags := RwField.flags.bytes.read slot
  commandId := RwField.commandId.bytes.read slot
  nsid := RwField.nsid.bytes.read slot
  rsvd2 := RwField.rsvd2.bytes.read slot
  metadata := RwField.metadata.bytes.read slot
  prp1 := RwField.prp1.bytes.read slot
  prp2 := RwField.prp2.bytes.read slot
  slba := RwField.slba.bytes.read slot
  length := RwField.length.bytes.read slot
  control := RwField.control.bytes.read slot
  dsmgmt := RwField.dsmgmt.bytes.read slot
  reftag := RwField.reftag.bytes.read slot
  apptag := RwField.apptag.bytes.read slot
  appmask := RwField.appmask.bytes.read slot

theorem read_clearSlot {field : ByteField} (inside : field.Inside slotBytes) (slot : Memory) :
    field.read (clearSlot slot) = 0 :=
  ByteField.read_write_of_inside inside

theorem RwField.read_write (field written : RwField) (v : Nat) (slot : Memory) :
    field.bytes.read (written.bytes.write v slot) =
      if field = written then v % 256 ^ field.width else field.bytes.read slot := by
  split
  next same =>
    subst same
    exact ByteField.read_write field.bytes v slot
  next ne => exact ByteField.read_write_of_apart (bytes_apart ne)

/-- The byte of the hints is part of one field. -/
theorem RwField.read_write_hints {field : RwField} (ne : field ≠ dsmgmt) (v : Nat)
    (slot : Memory) :
    field.bytes.read ((⟨dsmgmt.offset, 1⟩ : ByteField).write v slot) =
      field.bytes.read slot := by
  apply ByteField.read_write_of_apart
  revert ne
  cases field <;> decide

section Encoding

variable {slot slot' : Memory} {commandId nsid prp1 offset numBlocks : Nat}
variable {sequential iswrite : Bool} {accessFreq accessLat : Nat}

theorem nvmeIoDsm_lt (sequential : Bool) (accessFreq accessLat : Nat) :
    nvmeIoDsm sequential accessFreq accessLat < 256 := by
  have := sequential.toNat_le
  simp only [nvmeIoDsm]
  omega

/-- The bytes hold the command that `Command_io_rw` builds over a cleared one. -/
theorem readRwCommand_issueAsync (address : prp1 < 2 ^ 64) (start : offset < 2 ^ 64)
    (accepted : issueAsync iswrite slot commandId prp1 offset numBlocks sequential accessFreq
      accessLat nsid = some slot') :
    readRwCommand slot' = commandIoRw .cleared commandId nsid prp1 offset numBlocks sequential
      accessFreq accessLat iswrite := by
  simp only [issueAsync, commandIoRwBytes] at accepted
  split at accepted
  · cases accepted
  cases accepted
  have narrow : (numBlocks + 18446744073709551615) % 65536 = u16 (numBlocks + 65535) := by
    simp only [u16]
    omega
  simp only [readRwCommand, commandIoRw, RwCommand.cleared, RwCommand.mk.injEq]
  simp only [RwField.read_write_hints, RwField.read_write, RwField.width, RwField.bytes_inside,
    read_clearSlot, Nat.reducePow, Nat.reduceDvd, Nat.mod_mod_of_dvd, narrow,
    ne_eq, reduceCtorEq, not_false_eq_true, if_true, if_false, Nat.zero_div, zero_mul,
    zero_add, and_true, true_and]
  refine ⟨Nat.mod_eq_of_lt address, Nat.mod_eq_of_lt start, ?_⟩
  refine (ByteField.read_write_low 52 1 3 _ _).trans ?_
  rw [pow_one, Nat.mod_eq_of_lt (nvmeIoDsm_lt sequential accessFreq accessLat)]
  simp (disch := decide) only [ByteField.read_write_of_apart, read_clearSlot, Nat.mul_zero,
    Nat.add_zero]

/-- What the device must find in the slot: the request, and data pointers for all of it. -/
structure Encodes (slot : Memory) (action : IoAction) (commandId prp1 offset numBlocks : Nat) :
    Prop where
  opcode : (readRwCommand slot).opcode = (Op.rw ⟨action, prp1, offset, numBlocks⟩).opcode
  identifier : (readRwCommand slot).commandId = commandId
  start : (readRwCommand slot).slba = offset
  address : (readRwCommand slot).prp1 = prp1
  length : (readRwCommand slot).length + 1 = numBlocks
  pointers : 4096 < prp1 % 4096 + 512 * numBlocks → (readRwCommand slot).prp2 ≠ 0

end Encoding

/-- A request is encoded exactly when its blocks end in the page where they start. -/
theorem issue_async_encoding_iff {slot slot' : Memory} {action : IoAction} {commandId : UInt16}
    {prp1 offset numBlocks : UInt64} {sequential : Bool} {accessFreq accessLat nsid : Nat}
    (positive : 1 ≤ numBlocks.toNat)
    (accepted : action.issue slot commandId.toNat prp1.toNat offset.toNat numBlocks.toNat
      sequential accessFreq accessLat nsid = some slot') :
    Encodes slot' action commandId.toNat prp1.toNat offset.toNat numBlocks.toNat ↔
      prp1.toNat % 4096 + 512 * numBlocks.toNat ≤ 4096 := by
  have issued : issueAsync (action = .blockWrite) slot commandId.toNat prp1.toNat offset.toNat
      numBlocks.toNat sequential accessFreq accessLat nsid = some slot' := by
    cases action <;> exact accepted
  have command := readRwCommand_issueAsync prp1.toNat_lt offset.toNat_lt issued
  have pointer : (readRwCommand slot').prp2 = 0 := by
    rw [command]
    rfl
  constructor
  · intro encoded
    by_contra crosses
    exact encoded.pointers (by omega) pointer
  · intro inside
    have narrow : u16 commandId.toNat = commandId.toNat := u16_of_lt commandId.toNat_lt
    have length : u16 (numBlocks.toNat + 65535) + 1 = numBlocks.toNat := by
      simp only [u16]
      omega
    refine ⟨?_, ?_, ?_, ?_, ?_, fun crosses => absurd inside (by omega)⟩
    · rw [command]
      cases action <;> rfl
    · rw [command]
      exact narrow
    · rw [command]
      rfl
    · rw [command]
      rfl
    · rw [command]
      exact length

/-- Eight blocks from the start of a page, over a slot of ones. -/
theorem issue_async_encoding_iff_page :
    ∃ slot', IoAction.blockWrite.issue (fun _ => 255) 7 0x100000 40 8 false 0 0 1 = some slot' ∧
      Encodes slot' .blockWrite 7 0x100000 40 8 := by
  obtain ⟨slot', accepted⟩ : ∃ slot',
      IoAction.blockWrite.issue (fun _ => 255) (7 : UInt16).toNat (0x100000 : UInt64).toNat
        (40 : UInt64).toNat (8 : UInt64).toNat false 0 0 1 = some slot' := ⟨_, rfl⟩
  exact ⟨slot', accepted, (issue_async_encoding_iff (by decide) accepted).mpr (by decide)⟩

/-- A ninth block is in the next page, and the second pointer stays 0.  With one block more than
    the sixteen bits of the length can say, the device finds a request for one block. -/
theorem issue_async_encoding_second_page :
    (∃ slot', issueAsyncRead (fun _ => 255) 7 0x100000 40 9 false 0 0 1 = some slot' ∧
      (readRwCommand slot').length + 1 = 9 ∧ (readRwCommand slot').prp2 = 0 ∧
      ¬ Encodes slot' .blockRead 7 0x100000 40 9) ∧
    ∃ slot', issueAsyncRead (fun _ => 255) 7 0x100000 40 65537 false 0 0 1 = some slot' ∧
      (readRwCommand slot').length + 1 = 1 := by
  refine ⟨⟨_, rfl, by decide +kernel, by decide +kernel, fun encoded => ?_⟩, _, rfl,
    by decide +kernel⟩
  exact encoded.pointers (by decide) (by decide +kernel)

end Xdk.Nvme
