import Xdk.Lib.Bytes

/-! # First-party DMA commands

`setup_fpdma_read_cmd` and `setup_fpdma_write_cmd` build a command in a block of memory: the frame
that the host sends to the device, the descriptor of the data buffer behind it, and the header of
the command slot, which points to the block.  The device takes the block number, the tag and the
number of sectors from the frame; the controller takes the address and the length of the buffer
from the descriptor.

The frame has sixteen bits for the number of sectors, and the descriptor twenty-two for the number
of bytes.  The second limit is reached at 8192 sectors, and the two functions do not check it.
-/

namespace Xdk.Ahci

open Xdk.Lib ByteField

def sataDefaultBlockSize : Nat := 512

def sataCmdFisType : Nat := 0x27
def sataCmdFisCommandIndicator : Nat := 0x80

def ahciCmdhdrFlagsClearBusyUponOk : Nat := 0x0400
def ahciCmdhdrFlagsWrite : Nat := 0x0040
def ahciCmdhdrFlags5dwcmd : Nat := 0x0005

def lo (address : Nat) : Nat := address &&& 0xffffffff
def hi (address : Nat) : Nat := address >>> 32

/-! ## The layout -/

/-- The fields of `sata_ncq_command_frame_t`, and of the `ahci_cmd_prdt_t` behind it.  `prio` is
    the byte of the bit fields `reserved1` and `prio`, and `prdtDbc` the word of `dbc`, `reserved2`
    and `ioc`. -/
inductive FrameField where
  | fisType | c | command | sectorCountLow | lba0 | lba1 | lba2 | fua | lba3 | lba4 | lba5
  | sectorCountHigh | tag | prio | icc | control | reserved3 | reserved4 | reserved5 | reserved6
  | prdtDataAddressLow | prdtDataAddressUpper | prdtReserved1 | prdtDbc
  deriving DecidableEq, Repr

namespace FrameField

/-- The descriptor is behind the 0x40 bytes of the frame, 0x10 of an ATAPI command and 0x30
    reserved ones. -/
def offset : FrameField → Nat
  | fisType => 0
  | c => 1
  | command => 2
  | sectorCountLow => 3
  | lba0 => 4
  | lba1 => 5
  | lba2 => 6
  | fua => 7
  | lba3 => 8
  | lba4 => 9
  | lba5 => 10
  | sectorCountHigh => 11
  | tag => 12
  | prio => 13
  | icc => 14
  | control => 15
  | reserved3 => 16
  | reserved4 => 17
  | reserved5 => 18
  | reserved6 => 19
  | prdtDataAddressLow => 0x80
  | prdtDataAddressUpper => 0x84
  | prdtReserved1 => 0x88
  | prdtDbc => 0x8c

def width : FrameField → Nat
  | prdtDataAddressLow | prdtDataAddressUpper | prdtReserved1 | prdtDbc => 4
  | _ => 1

def bytes (field : FrameField) : ByteField := ⟨field.offset, field.width⟩

theorem bytes_apart {a b : FrameField} (ne : a ≠ b) :
    a.bytes.Apart b.bytes := by
  revert ne
  cases a <;> cases b <;> decide

theorem read_write (field written : FrameField) (v : Nat) (frame : Memory) :
    field.bytes.read (written.bytes.write v frame) =
      if field = written then v % 256 ^ field.width else field.bytes.read frame := by
  split
  next same =>
    subst same
    exact ByteField.read_write field.bytes v frame
  next ne => exact ByteField.read_write_of_apart (bytes_apart ne)

theorem read_writeBits {field written : FrameField} (ne : field ≠ written)
    (bits : BitField) (v : Nat) (frame : Memory) :
    field.bytes.read (written.bytes.writeBits bits v frame) = field.bytes.read frame :=
  read_write_of_apart (bytes_apart ne)

end FrameField

def frameBytes : ByteField := ⟨0, 0x80⟩

def reserved1 : BitField := ⟨0, 6⟩

def dbc : BitField := ⟨0, 22⟩
def reserved2 : BitField := ⟨22, 9⟩
def ioc : BitField := ⟨31, 1⟩

/-- `ahci_cmdhdr_t`; its reserved words are not touched. -/
structure CmdHdr where
  flags : Nat
  prdtl : Nat
  bytesprocessed : Nat
  cmdtable : Nat
  cmdtableu : Nat
  deriving DecidableEq, Repr

/-! ## Building a command -/

/-- The frame and the descriptor; the two functions differ in the command only. -/
def fpdmaFrame (command : Nat) (cmd : Memory) (slot blocknum count prdtPhys : Nat) : Memory :=
  let cmd := frameBytes.write 0 cmd
  let cmd := FrameField.fisType.bytes.write sataCmdFisType cmd
  let cmd := FrameField.c.bytes.write sataCmdFisCommandIndicator cmd
  let cmd := FrameField.command.bytes.write command cmd
  let cmd := FrameField.control.bytes.write 0 cmd
  let cmd := FrameField.prio.bytes.writeBits reserved1 0 cmd
  let cmd := FrameField.icc.bytes.write 0 cmd
  let cmd := FrameField.reserved3.bytes.write 0 cmd
  let cmd := FrameField.reserved4.bytes.write 0 cmd
  let cmd := FrameField.reserved5.bytes.write 0 cmd
  let cmd := FrameField.reserved6.bytes.write 0 cmd
  let cmd := FrameField.sectorCountLow.bytes.write (count &&& 0xff) cmd
  let cmd := FrameField.sectorCountHigh.bytes.write (count >>> 8 &&& 0xff) cmd
  let cmd := FrameField.lba0.bytes.write (blocknum &&& 0xff) cmd
  let cmd := FrameField.lba1.bytes.write (blocknum >>> 8 &&& 0xff) cmd
  let cmd := FrameField.lba2.bytes.write (blocknum >>> 16 &&& 0xff) cmd
  let cmd := FrameField.lba3.bytes.write (blocknum >>> 24 &&& 0xff) cmd
  let cmd := FrameField.lba4.bytes.write (blocknum >>> 32 &&& 0xff) cmd
  let cmd := FrameField.lba5.bytes.write (blocknum >>> 40 &&& 0xff) cmd
  let cmd := FrameField.tag.bytes.write (slot <<< 3) cmd
  let cmd := FrameField.prdtDataAddressLow.bytes.write (lo prdtPhys) cmd
  let cmd := FrameField.prdtDataAddressUpper.bytes.write (hi prdtPhys) cmd
  let cmd := FrameField.prdtReserved1.bytes.write 0 cmd
  -- the product and the difference on `unsigned`
  let cmd := FrameField.prdtDbc.bytes.writeBits dbc
    ((sataDefaultBlockSize * count % 2 ^ 32 + (2 ^ 32 - 1)) % 2 ^ 32) cmd
  let cmd := FrameField.prdtDbc.bytes.writeBits reserved2 0 cmd
  FrameField.prdtDbc.bytes.writeBits ioc 0 cmd

def fpdmaHeader (flags cmdPhys : Nat) : CmdHdr where
  flags := flags
  prdtl := 1
  bytesprocessed := 0
  cmdtable := lo cmdPhys
  cmdtableu := hi cmdPhys

/-- `setup_fpdma_read_cmd` in the block that the allocator returns; it asserts that there is
    something to read. -/
def setupFpdmaReadCmd (cmd : Memory) (cmdPhys slot blocknum count prdtPhys : Nat) :
    Option (Memory × CmdHdr) :=
  if cmdPhys = 0 then none
  else if count = 0 then none
  else some (fpdmaFrame 0x60 cmd slot blocknum count prdtPhys,
    fpdmaHeader (5 ||| (ahciCmdhdrFlagsClearBusyUponOk ||| ahciCmdhdrFlags5dwcmd)) cmdPhys)

/-- `setup_fpdma_write_cmd`, which has no assertion about the number of sectors. -/
def setupFpdmaWriteCmd (cmd : Memory) (cmdPhys slot blocknum count prdtPhys : Nat) :
    Option (Memory × CmdHdr) :=
  if cmdPhys = 0 then none
  else some (fpdmaFrame 0x61 cmd slot blocknum count prdtPhys,
    fpdmaHeader (ahciCmdhdrFlagsClearBusyUponOk ||| ahciCmdhdrFlagsWrite |||
      ahciCmdhdrFlags5dwcmd) cmdPhys)

def setupFpdmaCmd (write : Bool) (cmd : Memory) (cmdPhys slot blocknum count prdtPhys : Nat) :
    Option (Memory × CmdHdr) :=
  if write then setupFpdmaWriteCmd cmd cmdPhys slot blocknum count prdtPhys
  else setupFpdmaReadCmd cmd cmdPhys slot blocknum count prdtPhys

/-! ## Reading it back -/

def frameLba (frame : Memory) : Nat :=
  FrameField.lba0.bytes.read frame + 2 ^ 8 * FrameField.lba1.bytes.read frame +
    2 ^ 16 * FrameField.lba2.bytes.read frame + 2 ^ 24 * FrameField.lba3.bytes.read frame +
    2 ^ 32 * FrameField.lba4.bytes.read frame + 2 ^ 40 * FrameField.lba5.bytes.read frame

def frameTag (frame : Memory) : Nat := FrameField.tag.bytes.read frame / 8

def frameSectors (frame : Memory) : Nat :=
  let stored := FrameField.sectorCountLow.bytes.read frame +
    256 * FrameField.sectorCountHigh.bytes.read frame
  if stored = 0 then 65536 else stored

def prdtBytes (frame : Memory) : Nat := FrameField.prdtDbc.bytes.readBits dbc frame + 1

structure RoundTrip (frame : Memory) (slot blocknum count : Nat) : Prop where
  lba : frameLba frame = blocknum
  tag : frameTag frame = slot
  sectors : frameSectors frame = count
  bytes : prdtBytes frame = sataDefaultBlockSize * count

section Decoding

variable {command slot blocknum count prdtPhys cmdPhys : Nat} {cmd : Memory}

theorem and_byte (v : Nat) : v &&& 0xff = v % 256 :=
  Nat.and_two_pow_sub_one_eq_mod v 8

theorem frameLba_fpdmaFrame (bound : blocknum < 2 ^ 48) :
    frameLba (fpdmaFrame command cmd slot blocknum count prdtPhys) = blocknum := by
  simp [frameLba, fpdmaFrame, FrameField.read_writeBits, FrameField.read_write, FrameField.width,
    and_byte]
  omega

theorem frameTag_fpdmaFrame (bound : slot < 32) :
    frameTag (fpdmaFrame command cmd slot blocknum count prdtPhys) = slot := by
  simp [frameTag, fpdmaFrame, FrameField.read_writeBits, FrameField.read_write, FrameField.width]
  omega

theorem frameSectors_fpdmaFrame :
    frameSectors (fpdmaFrame command cmd slot blocknum count prdtPhys) =
      if count % 65536 = 0 then 65536 else count % 65536 := by
  have stored : count % 256 + 256 * (count / 256 % 256) = count % 65536 := by omega
  simp [frameSectors, fpdmaFrame, FrameField.read_writeBits, FrameField.read_write,
    FrameField.width, and_byte, Nat.shiftRight_eq_div_pow, stored]

/-- The bit field keeps 22 bits of the length. -/
theorem prdtBytes_fpdmaFrame :
    prdtBytes (fpdmaFrame command cmd slot blocknum count prdtPhys) =
      (sataDefaultBlockSize * count + (2 ^ 22 - 1)) % 2 ^ 22 + 1 := by
  simp only [prdtBytes, fpdmaFrame]
  rw [readBits_writeBits_of_apart (by decide) (by decide),
    readBits_writeBits_of_apart (by decide) (by decide),
    readBits_writeBits (by decide)]
  simp only [dbc]
  omega

/-- Both functions build the same frame but for the command. -/
theorem setupFpdmaCmd_frame {write : Bool} {frame : Memory} {cmdhdr : CmdHdr}
    (built : setupFpdmaCmd write cmd cmdPhys slot blocknum count prdtPhys =
      some (frame, cmdhdr)) :
    frame = fpdmaFrame (if write then 0x61 else 0x60) cmd slot blocknum count prdtPhys := by
  cases write with
  | true =>
    simp only [setupFpdmaCmd, setupFpdmaWriteCmd, if_true] at built
    split_ifs at built
    cases built
    rfl
  | false =>
    simp only [setupFpdmaCmd, setupFpdmaReadCmd, Bool.false_eq_true, if_false] at built
    split at built
    · cases built
    split at built
    · cases built
    next =>
      cases built
      rfl

end Decoding

/-- A command is read back as it was asked for exactly when its length fits the descriptor. -/
theorem setup_fpdma_cmd_round_trip_iff {write : Bool} {cmd frame : Memory} {cmdhdr : CmdHdr}
    {slot : Nat} {blocknum prdtPhys cmdPhys : UInt64} {count : UInt32} (slotBound : slot < 32)
    (blockBound : blocknum.toNat < 2 ^ 48)
    (built : setupFpdmaCmd write cmd cmdPhys.toNat slot blocknum.toNat count.toNat
      prdtPhys.toNat = some (frame, cmdhdr)) :
    RoundTrip frame slot blocknum.toNat count.toNat ↔ 1 ≤ count.toNat ∧ count.toNat ≤ 8192 := by
  obtain rfl := setupFpdmaCmd_frame built
  constructor
  · intro trip
    have bytes := trip.bytes
    rw [prdtBytes_fpdmaFrame, sataDefaultBlockSize] at bytes
    omega
  · rintro ⟨positive, small⟩
    refine ⟨frameLba_fpdmaFrame blockBound, frameTag_fpdmaFrame slotBound, ?_, ?_⟩
    · rw [frameSectors_fpdmaFrame, Nat.mod_eq_of_lt (by omega), if_neg (by omega)]
    · rw [prdtBytes_fpdmaFrame, sataDefaultBlockSize]
      omega

/-- A read of the largest number of sectors, over a block of ones. -/
theorem setup_fpdma_cmd_round_trip_iff_largest :
    ∃ frame cmdhdr, setupFpdmaReadCmd (fun _ => 255) 0x2000 31 0xabcdef012345 8192 0x7f000 =
        some (frame, cmdhdr) ∧
      RoundTrip frame 31 0xabcdef012345 8192 := by
  obtain ⟨frame, cmdhdr, built⟩ : ∃ frame cmdhdr,
      setupFpdmaCmd false (fun _ => 255) (0x2000 : UInt64).toNat 31
        (0xabcdef012345 : UInt64).toNat (8192 : UInt32).toNat (0x7f000 : UInt64).toNat =
          some (frame, cmdhdr) := ⟨_, _, rfl⟩
  exact ⟨frame, cmdhdr, built,
    (setup_fpdma_cmd_round_trip_iff (by decide) (by decide) built).mpr ⟨by decide, by decide⟩⟩

/-- With one sector more the descriptor has room for 512 bytes.  A write of no sectors is
    encoded as one of 65536. -/
theorem setup_fpdma_cmd_truncates :
    (∃ frame cmdhdr, setupFpdmaReadCmd (fun _ => 255) 0x2000 31 0xabcdef012345 8193 0x7f000 =
        some (frame, cmdhdr) ∧ frameSectors frame = 8193 ∧ prdtBytes frame = 512) ∧
    ∃ frame cmdhdr, setupFpdmaWriteCmd (fun _ => 255) 0x2000 31 0xabcdef012345 0 0x7f000 =
        some (frame, cmdhdr) ∧ frameSectors frame = 65536 ∧ prdtBytes frame = 4194304 :=
  ⟨⟨_, _, rfl, frameSectors_fpdmaFrame, prdtBytes_fpdmaFrame⟩,
    _, _, rfl, frameSectors_fpdmaFrame, prdtBytes_fpdmaFrame⟩

end Xdk.Ahci
