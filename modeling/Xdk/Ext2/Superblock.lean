import Mathlib.Algebra.Order.Floor.Div
import Xdk.Ext2.File

/-! # Where the superblock says things are

`Superblock` computes byte offsets in variables of 64 bits, but some of their summands in 32 bits:
the start of the partition, the place of a group descriptor in its table, and the place of an inode
in its group.  The number of groups is counted from block 0, also when the first group begins at
block 1.
-/

namespace Xdk.Ext2

open Xdk.Lib

structure Superblock where
  totalInodeCount : Nat
  totalBlockCount : Nat
  firstBlock : Nat
  blockSizeLog2 : Nat
  blocksPerGroup : Nat
  inodesPerGroup : Nat
  inodeSize : Nat

namespace Superblock

def blockSize (sb : Superblock) : Nat := blockSizeOf sb.blockSizeLog2

structure Revision1 (sb : Superblock) : Prop where
  blockSize_lt : sb.blockSize < 2 ^ 32
  firstBlock : sb.firstBlock = if sb.blockSize = 1024 then 1 else 0

/-! ## Byte offsets -/

def partitionStartOffset (startLba : Nat) : Nat := wrap 32 (startLba * 512)

def sbStartOffset (startLba : Nat) : Nat := wrap 64 (1024 + partitionStartOffset startLba)

def geometry (sb : Superblock) (startLba : Nat) : Geometry :=
  ⟨sb.blockSizeLog2, partitionStartOffset startLba⟩

def groupOffset (sb : Superblock) (startLba bgid : Nat) : Nat :=
  wrap 64 ((sb.geometry startLba).groupOffset bgid)

def blockToAbsOffset (sb : Superblock) (startLba block : Nat) : Nat :=
  wrap 64 ((sb.geometry startLba).blockToAbsOffset block)

/-- An index of 0 has failed an assertion before. -/
def blockGroupId (sb : Superblock) (inodeIndex : Nat) : Nat := (inodeIndex - 1) / sb.inodesPerGroup

def inodePosAbs (sb : Superblock) (startLba table inodeIndex : Nat) : Nat :=
  wrap 64 ((sb.geometry startLba).inodePosAbs sb.inodesPerGroup sb.inodeSize table inodeIndex)

/-- The offsets are where things are on the device; for an inode also that of the descriptor that
    its table is taken from. -/
structure Exact (sb : Superblock) (startLba bgid block table inodeIndex : Nat) : Prop where
  superblock : sbStartOffset startLba = 512 * startLba + 1024
  group : sb.groupOffset startLba bgid =
    512 * startLba + (sb.firstBlock + 1) * sb.blockSize + 32 * bgid
  block : sb.blockToAbsOffset startLba block = 512 * startLba + block * sb.blockSize
  inodeGroup : sb.groupOffset startLba (sb.blockGroupId inodeIndex) =
    512 * startLba + (sb.firstBlock + 1) * sb.blockSize + 32 * sb.blockGroupId inodeIndex
  inode : sb.inodePosAbs startLba table inodeIndex = 512 * startLba + table * sb.blockSize +
    (inodeIndex - 1) % sb.inodesPerGroup * sb.inodeSize

variable {sb : Superblock} {startLba block : Nat}

theorem partitionStartOffset_lt (startLba : Nat) : partitionStartOffset startLba < 2 ^ 32 :=
  wrap_lt 32 _

theorem partitionStartOffset_eq_iff :
    partitionStartOffset startLba = 512 * startLba ↔ startLba < 2 ^ 23 := by
  rw [partitionStartOffset, wrap]
  omega

theorem sbStartOffset_eq (startLba : Nat) :
    sbStartOffset startLba = 1024 + partitionStartOffset startLba := by
  have lt := partitionStartOffset_lt startLba
  exact wrap_of_lt (by omega)

theorem one_le_blockSize (sb : Superblock) : 1024 ≤ sb.blockSize := by
  rw [blockSize, blockSizeOf, Nat.shiftLeft_eq]
  exact Nat.le_mul_of_pos_right _ (Nat.two_pow_pos _)

/-- The table of the descriptors is in the block after that of the superblock. -/
theorem bgStartOffset_eq (valid : sb.Revision1) (startLba : Nat) :
    (sb.geometry startLba).bgStartOffset =
      partitionStartOffset startLba + (sb.firstBlock + 1) * sb.blockSize := by
  have least := sb.one_le_blockSize
  have isStart : (sb.geometry startLba).bgStartOffset =
      if 1024 < sb.blockSize then sb.blockSize + partitionStartOffset startLba
      else sb.blockSize + (1024 + partitionStartOffset startLba) := rfl
  rw [isStart, valid.firstBlock]
  split
  · rename_i large
    rw [if_neg (by omega)]
    omega
  · rename_i notLarge
    have size : sb.blockSize = 1024 := by omega
    rw [size, if_pos rfl]
    omega

theorem groupOffset_eq_iff (valid : sb.Revision1) (start : startLba < 2 ^ 23) (bgid : Nat) :
    sb.groupOffset startLba bgid =
      512 * startLba + (sb.firstBlock + 1) * sb.blockSize + 32 * bgid ↔ bgid < 2 ^ 27 := by
  have small := valid.blockSize_lt
  have table : (sb.firstBlock + 1) * sb.blockSize ≤ 2 * sb.blockSize := by
    rw [valid.firstBlock]
    split <;> omega
  have index := wrap_lt 32 (32 * bgid)
  rw [groupOffset, Geometry.groupOffset, bgStartOffset_eq valid,
    partitionStartOffset_eq_iff.mpr start, wrap_of_lt (by omega), wrap]
  omega

theorem geometry_blockToAbsOffset (start : startLba < 2 ^ 23) (block : Nat) :
    (sb.geometry startLba).blockToAbsOffset block = 512 * startLba + block * sb.blockSize := by
  have isOffset : (sb.geometry startLba).blockToAbsOffset block =
      block * sb.blockSize + partitionStartOffset startLba := rfl
  rw [isOffset, partitionStartOffset_eq_iff.mpr start, Nat.add_comm]

theorem blockToAbsOffset_lt (valid : sb.Revision1) (start : startLba < 2 ^ 23)
    (lt : block < 2 ^ 32) : 512 * startLba + block * sb.blockSize < 2 ^ 64 - 2 ^ 32 := by
  have small := valid.blockSize_lt
  have product : block * sb.blockSize ≤ (2 ^ 32 - 1) * (2 ^ 32 - 1) :=
    Nat.mul_le_mul (by omega) (by omega)
  omega

/-- The offsets are exact exactly if none of the products of 32 bits wraps around: the partition
    begins below 4 GiB, its descriptors are among the first 2^27, and the inode is less than 4 GiB
    from the start of its table. -/
theorem byte_offsets_exact_iff (valid : sb.Revision1) {bgid table inodeIndex : Nat}
    (isBlock : block < 2 ^ 32) (isTable : table < 2 ^ 32) :
    sb.Exact startLba bgid block table inodeIndex ↔
      startLba < 2 ^ 23 ∧ bgid < 2 ^ 27 ∧ sb.blockGroupId inodeIndex < 2 ^ 27 ∧
        sb.inodeSize * ((inodeIndex - 1) % sb.inodesPerGroup) < 2 ^ 32 := by
  by_cases start : startLba < 2 ^ 23
  · have exactBlock : sb.blockToAbsOffset startLba block =
        512 * startLba + block * sb.blockSize := by
      have below := blockToAbsOffset_lt valid start isBlock
      rw [blockToAbsOffset, geometry_blockToAbsOffset start, wrap_of_lt (by omega)]
    have below := blockToAbsOffset_lt valid start isTable
    have index := wrap_lt 32 (sb.inodeSize * ((inodeIndex - 1) % sb.inodesPerGroup))
    have inode : sb.inodePosAbs startLba table inodeIndex = 512 * startLba + table * sb.blockSize +
          (inodeIndex - 1) % sb.inodesPerGroup * sb.inodeSize ↔
        sb.inodeSize * ((inodeIndex - 1) % sb.inodesPerGroup) < 2 ^ 32 := by
      rw [inodePosAbs, Geometry.inodePosAbs, geometry_blockToAbsOffset start,
        wrap_of_lt (by omega), Nat.mul_comm _ sb.inodeSize, wrap]
      omega
    rw [← groupOffset_eq_iff valid start, ← groupOffset_eq_iff valid start, ← inode]
    constructor
    · intro exact
      exact ⟨start, exact.group, exact.inodeGroup, exact.inode⟩
    · rintro ⟨-, group, inodeGroup, inode⟩
      refine ⟨?_, group, exactBlock, inodeGroup, inode⟩
      rw [sbStartOffset_eq, partitionStartOffset_eq_iff.mpr start, Nat.add_comm]
  · refine iff_of_false (fun exact => start ?_) fun all => start all.1
    have superblock := exact.superblock
    rw [sbStartOffset_eq] at superblock
    exact partitionStartOffset_eq_iff.mp (by omega)

/-- A file system at the beginning of the second half of a 4 GiB disk. -/
theorem byte_offsets_exact_iff_half :
    (⟨8192, 32768, 1, 0, 8192, 2048, 128⟩ : Superblock).Exact (2 ^ 22) 3 20000 24600 8192 := by
  refine (byte_offsets_exact_iff ⟨by decide, by decide⟩ (by decide) (by decide)).mpr ?_
  decide

/-- The superblock of a partition that begins at 4 GiB is looked for at the beginning of the
    disk. -/
theorem byte_offsets_wrapped :
    sbStartOffset (2 ^ 23) = 1024 ∧
      ¬ (⟨8192, 32768, 1, 0, 8192, 2048, 128⟩ : Superblock).Exact (2 ^ 23) 0 0 0 1 :=
  ⟨by decide, fun exact => absurd exact.superblock (by decide)⟩

/-! ## Block groups -/

def numBlockGroups (sb : Superblock) : Nat :=
  sb.totalBlockCount / sb.blocksPerGroup +
    if 0 < sb.totalBlockCount % sb.blocksPerGroup then 1 else 0

structure Grouped (sb : Superblock) (groups : Nat) : Prop where
  blocksPerGroup : 0 < sb.blocksPerGroup
  inodesPerGroup : 0 < sb.inodesPerGroup
  firstBlock : sb.firstBlock = 0 ∨ sb.firstBlock = 1 ∧ 1 ≤ sb.totalBlockCount
  groups_eq : groups = (sb.totalBlockCount - sb.firstBlock) ⌈/⌉ sb.blocksPerGroup
  inodes : sb.totalInodeCount = groups * sb.inodesPerGroup

/-- The constructor finds the number, its assertion holds, and every inode is in a group. -/
structure CountsGroups (sb : Superblock) (groups : Nat) : Prop where
  number : sb.numBlockGroups = groups
  asserted : sb.numBlockGroups = sb.totalInodeCount / sb.inodesPerGroup
  below : ∀ index, 1 ≤ index → index ≤ sb.totalInodeCount → sb.blockGroupId index < groups

theorem succ_ceilDiv (n : Nat) {b : Nat} (pos : 0 < b) : (n + 1) ⌈/⌉ b = n / b + 1 := by
  rw [Nat.ceilDiv_eq_add_pred_div, Nat.add_right_comm, Nat.add_sub_cancel, Nat.add_div_right _ pos]

theorem ceilDiv_eq (n : Nat) {b : Nat} (pos : 0 < b) :
    n ⌈/⌉ b = n / b + if 0 < n % b then 1 else 0 := by
  cases n with
  | zero => simp
  | succ n =>
    simp only [succ_ceilDiv n pos, Nat.succ_div]
    split_ifs <;> omega

/-- Once their number is right, so is the rest. -/
theorem Grouped.countsGroups_iff {groups : Nat} (grouped : sb.Grouped groups) :
    sb.CountsGroups groups ↔ sb.numBlockGroups = groups := by
  refine ⟨CountsGroups.number, fun number => ⟨number, ?_, fun index least most => ?_⟩⟩
  · rw [number, grouped.inodes, Nat.mul_div_cancel _ grouped.inodesPerGroup]
  · rw [grouped.inodes] at most
    exact (Nat.div_lt_iff_lt_mul grouped.inodesPerGroup).mpr (by omega)

/-- The groups are counted right unless they begin at block 1 and a single block is left for the
    last one to be counted. -/
theorem block_groups_iff {groups : Nat} (grouped : sb.Grouped groups) :
    sb.CountsGroups groups ↔
      sb.firstBlock = 0 ∨ ¬ sb.blocksPerGroup ∣ sb.totalBlockCount - 1 := by
  have pos := grouped.blocksPerGroup
  rw [grouped.countsGroups_iff, grouped.groups_eq, numBlockGroups, ← ceilDiv_eq _ pos]
  obtain first | ⟨first, some⟩ := grouped.firstBlock
  · simp [first]
  · obtain ⟨n, total⟩ := Nat.exists_eq_add_of_le' some
    rw [first, total, Nat.add_sub_cancel, succ_ceilDiv n pos, ceilDiv_eq n pos,
      Nat.dvd_iff_mod_eq_zero]
    by_cases rest : n % sb.blocksPerGroup = 0 <;> simp

/-- Four groups that begin at block 1, the last of them not full. -/
theorem block_groups_iff_four :
    (⟨8192, 30000, 1, 0, 8192, 2048, 128⟩ : Superblock).CountsGroups 4 := by
  refine (block_groups_iff ⟨by decide, by decide, by decide, by decide, by decide⟩).mpr ?_
  decide

/-- Four full groups: the block before the first one is counted as another group, and the assertion
    fails. -/
theorem block_groups_one_more :
    let sb : Superblock := ⟨8192, 32769, 1, 0, 8192, 2048, 128⟩
    sb.Grouped 4 ∧ sb.numBlockGroups = 5 ∧ sb.totalInodeCount / sb.inodesPerGroup = 4 :=
  ⟨⟨by decide, by decide, by decide, by decide, by decide⟩, by decide, by decide⟩

end Superblock

end Xdk.Ext2
