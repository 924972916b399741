import Xdk.Ext2.AddressLists
import Xdk.Lib.Bytes
import Xdk.Lib.Word

/-! # Reading a file of an ext2 volume

`open_file` collects the blocks of addresses of the file: the direct addresses in the inode, the
block that the inode points to, and the blocks at the end of the trees of depth two and three.
`Logical_range_tree` keeps, for each list of addresses, the range of positions of the file that
it stands for, and `read` copies from one block after the other.
-/

namespace Xdk.Ext2

open Xdk.Lib

/-! ## The volume -/

def blockSizeOf (blockSizeLog2 : Nat) : Nat := 1024 <<< blockSizeLog2

/-- What the byte offsets on the device are computed from. -/
structure Geometry where
  blockSizeLog2 : Nat
  partitionStart : Nat

namespace Geometry

def blockSize (geometry : Geometry) : Nat := blockSizeOf geometry.blockSizeLog2

def blockToAbsOffset (geometry : Geometry) (block : Nat) : Nat :=
  block * geometry.blockSize + geometry.partitionStart

def bgStartOffset (geometry : Geometry) : Nat :=
  if 1024 < geometry.blockSize then geometry.blockSize + geometry.partitionStart
  else geometry.blockSize + (1024 + geometry.partitionStart)

/-! The products with `unsigned` variables are of 32 bits. -/

def groupOffset (geometry : Geometry) (bgid : Nat) : Nat :=
  geometry.bgStartOffset + wrap 32 (32 * bgid)

/-- What `get_inode_ref` reads from, when the group has its inode table at block `table`. -/
def inodePosAbs (geometry : Geometry) (inodesPerGroup inodeSize table inodeIndex : Nat) : Nat :=
  geometry.blockToAbsOffset table + wrap 32 (inodeSize * ((inodeIndex - 1) % inodesPerGroup))

end Geometry

structure Volume extends Geometry where
  device : Memory

structure Inode where
  mode : Nat
  size : Nat
  flags : Nat
  directDataBlocks : Nat → Nat
  singlyIndirect : Nat
  doublyIndirect : Nat
  triplyIndirect : Nat

def Inode.getDirectBlocks (inode : Inode) : List Nat := (List.range 12).map inode.directDataBlocks

namespace Volume

def addressesPerBlock (volume : Volume) : Nat := volume.blockSize / 4

def addressAt (volume : Volume) (block index : Nat) : Nat :=
  getBytes volume.device (volume.blockToAbsOffset block + 4 * index) 4

def getBlockAddressList (volume : Volume) (block : Nat) : List Nat :=
  (List.range volume.addressesPerBlock).map (volume.addressAt block)

/-! ## The blocks of a file -/

/-- The loop over the entries of a block of addresses of blocks of addresses. -/
def insertLists (volume : Volume) : List Nat → Heap → Collective → Heap × Collective
  | [], heap, collective => (heap, collective)
  | block :: rest, heap, collective =>
    if 0 < block then
      let new := heap.alloc (volume.getBlockAddressList block)
      let inserted := collective.insert new.2 new.1
      volume.insertLists rest inserted.1 inserted.2
    else volume.insertLists rest heap collective

def insertTrees (volume : Volume) : List Nat → Heap → Collective → Heap × Collective
  | [], heap, collective => (heap, collective)
  | block :: rest, heap, collective =>
    if 0 < block then
      let inserted := volume.insertLists (volume.getBlockAddressList block) heap collective
      volume.insertTrees rest inserted.1 inserted.2
    else volume.insertTrees rest heap collective

/-! The collective is missing where the code returns a null pointer. -/

def getSinglyIndirectBlockAddresses (volume : Volume) (inode : Inode) (heap : Heap) :
    Heap × Option Collective :=
  if inode.singlyIndirect = 0 then (heap, none)
  else
    let new := heap.alloc (volume.getBlockAddressList inode.singlyIndirect)
    let inserted := Collective.empty.insert new.2 new.1
    (inserted.1, some inserted.2)

def getDoublyIndirectBlockAddresses (volume : Volume) (inode : Inode) (heap : Heap) :
    Heap × Option Collective :=
  if inode.doublyIndirect = 0 then (heap, none)
  else
    let inserted :=
      volume.insertLists (volume.getBlockAddressList inode.doublyIndirect) heap .empty
    (inserted.1, some inserted.2)

def getTriplyIndirectBlockAddresses (volume : Volume) (inode : Inode) (heap : Heap) :
    Heap × Option Collective :=
  if inode.triplyIndirect = 0 then (heap, none)
  else
    let inserted :=
      volume.insertTrees (volume.getBlockAddressList inode.triplyIndirect) heap .empty
    (inserted.1, some inserted.2)

/-- A collective is appended unless the pointer to it is null. -/
def appendAny (collective : Collective) (found : Heap × Option Collective) : Heap × Collective :=
  match found.2 with
  | none => (found.1, collective)
  | some other => collective.append found.1 other

def getBlocksForInode (volume : Volume) (inode : Inode) : Heap × Collective :=
  let new := Heap.empty.alloc inode.getDirectBlocks
  let direct := Collective.empty.insert new.2 new.1
  let singly := appendAny direct.2 (volume.getSinglyIndirectBlockAddresses inode direct.1)
  let doubly := appendAny singly.2 (volume.getDoublyIndirectBlockAddresses inode singly.1)
  appendAny doubly.2 (volume.getTriplyIndirectBlockAddresses inode doubly.1)

end Volume

/-! ## The ranges of a file -/

def countBlocks (addresses : List Nat) : Nat := (addresses.filter (0 < ·)).length

structure Range where
  lower : Nat
  length : Nat
  bal : List Nat

/-- The constructor of `Logical_range_tree`; the length of a range is a `size_t` of the only
    architecture that `byteorder.h` admits. -/
def rangesFrom (blockSize : Nat) : Nat → List (List Nat) → List Range
  | _, [] => []
  | currBlock, bal :: rest =>
    let numBlocks := countBlocks bal
    if 0 < numBlocks then
      ⟨currBlock * blockSize, wrap 32 (numBlocks * blockSize), bal⟩ ::
        rangesFrom blockSize (currBlock + numBlocks) rest
    else rangesFrom blockSize (currBlock + numBlocks) rest

structure LogicalRangeTree where
  ranges : List Range
  fsBlockSizeBytes : Nat

def sOk : Int := 0

def null : Int := 0

namespace LogicalRangeTree

def new (lists : List (List Nat)) (blockSizeInBytes : Nat) : LogicalRangeTree :=
  ⟨rangesFrom blockSizeInBytes 0 lists, blockSizeInBytes⟩

/-- `Range_tree::search_region`, which is not in this repository, for one byte. -/
def searchRegion (tree : LogicalRangeTree) (pos : Nat) : Option Range :=
  tree.ranges.find? fun range => range.lower ≤ pos ∧ pos < range.lower + range.length

/-- The status, and the variables of the caller afterwards; `none` when the assertion on the
    index fails.  For a position without a range, the function returns `NULL`, which is `S_OK`. -/
def lookupBlockAndOffset (tree : LogicalRangeTree) (pos block offset : Nat) :
    Option (Int × Nat × Nat) :=
  match tree.searchRegion pos with
  | none => some (null, block, offset)
  | some range =>
    let delta := wrap 32 (pos - range.lower)
    (range.bal[delta / tree.fsBlockSizeBytes]?).map fun found =>
      (sOk, found, delta % tree.fsBlockSizeBytes)

end LogicalRangeTree

structure File where
  volume : Volume
  rangeTree : LogicalRangeTree

def Volume.openInode (volume : Volume) (inode : Inode) : File :=
  let found := volume.getBlocksForInode inode
  ⟨volume, .new (found.2.addressLists found.1) volume.blockSize⟩

namespace File

def copy (bytes : Nat → UInt8) (count : Nat) (buffer : Nat → UInt8) (start : Nat) : Nat → UInt8 :=
  fun index =>
    if start ≤ index ∧ index < start + count then bytes (index - start) else buffer index

/-- The loop of `read`, which ends when nothing remains; `none` when an assertion fails. -/
def readFrom (file : File) (currPos bytesCopied bytesRemaining block offset : Nat)
    (buffer : Nat → UInt8) : Option (Nat → UInt8) :=
  match file.rangeTree.lookupBlockAndOffset currPos block offset with
  | none => none
  | some (status, block, offset) =>
    if status = sOk ∧ offset < file.volume.blockSize then
      let bytesToCopy := min (file.volume.blockSize - offset) bytesRemaining
      let absOff := file.volume.blockToAbsOffset block + offset
      let copied := copy (file.volume.device <| absOff + ·) bytesToCopy buffer bytesCopied
      if bytesToCopy < bytesRemaining then
        file.readFrom (currPos + bytesToCopy) (bytesCopied + bytesToCopy)
          (bytesRemaining - bytesToCopy) block offset copied
      else some copied
    else none
termination_by bytesRemaining

def read (file : File) (readPos len : Nat) (buffer : Nat → UInt8) : Option (Nat → UInt8) :=
  file.readFrom readPos 0 len 0 0 buffer

end File

end Xdk.Ext2
