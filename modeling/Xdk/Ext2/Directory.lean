import Xdk.Ext2.File

/-! # Finding a file by its path

A directory is a file whose bytes are entries, one after the other.  Each entry has the number of
an inode, the length of the entry, and a name; the number is 0 in an entry that was deleted.

`get_blocks_for_file` cuts a path at its last slash.  `locate_directory` goes down the directories
before it with `find_local_directory`, and `locate_file` looks for the name after it.  The two
functions go through the entries with two loops of their own.
-/

namespace Xdk.Ext2

open Xdk.Lib

inductive Failure where
  | assertion
  | panic (text : String)
  /-- It uses a byte that is not of the directory it has read. -/
  | outside
  /-- It writes past the end of an array. -/
  | overrun
  /-- It comes back to the same entry for ever. -/
  | endless
  /-- It deletes an object that was deleted. -/
  | deletedTwice
  deriving DecidableEq

/-- `assert` of a pointer. -/
def asserted {α : Type} : Option α → Except Failure α
  | some target => .ok target
  | none => .error .assertion

/-! ## Entries of a directory

An entry is given by its offset in the content of the directory. -/

namespace DirectoryEntry

def byteAt (content : List UInt8) (offset : Nat) : Except Failure UInt8 :=
  match content[offset]? with
  | some byte => .ok byte
  | none => .error .outside

def numberAt (content : List UInt8) (offset count : Nat) : Except Failure Nat :=
  if offset + count ≤ content.length then .ok (getBytes (content.getD · 0) offset count)
  else .error .outside

def getInode (content : List UInt8) (entry : Nat) : Except Failure Nat :=
  numberAt content entry 4

def getRecordLength (content : List UInt8) (entry : Nat) : Except Failure Nat :=
  numberAt content (entry + 4) 2

def getNameLength (content : List UInt8) (entry : Nat) : Except Failure Nat :=
  numberAt content (entry + 6) 1

def getFileType (content : List UInt8) (entry : Nat) : Except Failure Nat :=
  numberAt content (entry + 7) 1

def strncpy (content : List UInt8) (offset : Nat) : Nat → Except Failure (List UInt8)
  | 0 => .ok []
  | count + 1 => do
    let byte ← byteAt content offset
    if byte = 0 then return []
    let more ← strncpy content (offset + 1) count
    return byte :: more

def nameLen : Nat := 255

/-- The name; the zero after it is written at the index `get_name_length()`. -/
def getName (content : List UInt8) (entry : Nat) : Except Failure (List UInt8) := do
  let nameLength ← getNameLength content entry
  let name ← strncpy content (entry + 8) nameLength
  if nameLength < nameLen then return name
  .error .overrun

def next (content : List UInt8) (entry : Nat) : Except Failure Nat := do
  let recordLength ← getRecordLength content entry
  return entry + recordLength

end DirectoryEntry

/-! ## Inodes by number -/

structure Filesystem extends Volume where
  totalInodeCount : Nat
  inodesPerGroup : Nat
  inodeSize : Nat
  /-- The constructor of `Superblock` divides by it. -/
  positive : 0 < inodesPerGroup

def Volume.readInode (volume : Volume) (offset : Nat) : Inode where
  mode := getBytes volume.device offset 2
  size := getBytes volume.device (offset + 4) 4
  flags := getBytes volume.device (offset + 32) 4
  directDataBlocks index := getBytes volume.device (offset + 40 + 4 * index) 4
  singlyIndirect := getBytes volume.device (offset + 88) 4
  doublyIndirect := getBytes volume.device (offset + 92) 4
  triplyIndirect := getBytes volume.device (offset + 96) 4

def Inode.isFile (inode : Inode) : Prop := inode.mode &&& 0x8000 ≠ 0

instance (inode : Inode) : Decidable inode.isFile := inferInstanceAs (Decidable (_ ≠ _))

namespace Filesystem

/-- The constructor of `Superblock` asserts that `_num_block_groups` is this quotient. -/
def numBlockGroups (fs : Filesystem) : Nat := fs.totalInodeCount / fs.inodesPerGroup

/-- `get_block_group_ref` and, of what it reads, `get_inode_table_first_block`. -/
def getInodeTableFirstBlock (fs : Filesystem) (bgid : Nat) : Except Failure Nat :=
  if fs.numBlockGroups < bgid then .error (.panic "bgid (%u) > _num_block_groups(%u)")
  else .ok (getBytes fs.device (fs.groupOffset bgid + 8) 4)

def getInodeRef (fs : Filesystem) (inodeIndex : Nat) : Except Failure Inode :=
  if 0 < inodeIndex ∧ inodeIndex ≤ fs.totalInodeCount then do
    let table ← fs.getInodeTableFirstBlock ((inodeIndex - 1) / fs.inodesPerGroup)
    return fs.readInode (fs.inodePosAbs fs.inodesPerGroup fs.inodeSize table inodeIndex)
  else .error .assertion

def inodeRootIndex : Nat := 2

end Filesystem

/-! ## The content of a directory -/

namespace Heap

def elementAfter (heap : Heap) : Nat → Option Nat → Option Nat
  | 0, pointer => pointer
  | _ + 1, none => none
  | index + 1, some element => heap.elementAfter index (heap.next element)

end Heap

def Collective.getBlockList (heap : Heap) (collective : Collective) (index : Nat) :
    Option (List Nat) :=
  if collective.listCount < index then none
  else (heap.elementAfter index collective.head).map (heap.lists.getD · [])

namespace Volume

def bytes (volume : Volume) (offset count : Nat) : List UInt8 :=
  (List.range count).map (volume.device <| offset + ·)

/-- The loop over the addresses in a list, which ends at an address that is 0. -/
def readBlocks (volume : Volume) : List Nat → Nat → List UInt8
  | [], _ => []
  | baddr :: rest, remainingSize =>
    if baddr = 0 then []
    else
      let readThisTime := min remainingSize volume.blockSize
      volume.bytes (volume.blockToAbsOffset baddr) readThisTime ++
        volume.readBlocks rest (remainingSize - readThisTime)

def readLists (volume : Volume) : List (List Nat) → Nat → List UInt8
  | [], _ => []
  | bal :: rest, remainingSize =>
    let read := volume.readBlocks bal remainingSize
    read ++ volume.readLists rest (remainingSize - read.length)

def getDirectoryEntries (volume : Volume) (dirInode : Inode) : Except Failure (List UInt8) := do
  let found := volume.getBlocksForInode dirInode
  let lists ← (List.range found.2.listCount).mapM fun index =>
    asserted (found.2.getBlockList found.1 index)
  return volume.readLists lists dirInode.size

end Volume

/-! ## The two loops over the entries

A round looks at one entry.  There are no more rounds than bytes, unless the entry has the length
0 and the next one is itself. -/

namespace Filesystem

open DirectoryEntry

/-- The loop of `find_local_directory`.  What is subtracted from the size is the length of the
    next entry. -/
def findFrom (fs : Filesystem) (dirname content : List UInt8) :
    Nat → Nat → Nat → Except Failure Inode
  | 0, _, _ => .error .endless
  | rounds + 1, entry, sizeOfContent =>
    if 0 < sizeOfContent then do
      let name ← getName content entry
      if dirname = name then
        let fileType ← getFileType content entry
        if fileType = 2 then
          let inodeIdx ← getInode content entry
          fs.getInodeRef inodeIdx
        else .error .assertion
      else
        let entry ← next content entry
        let recordLength ← getRecordLength content entry
        fs.findFrom dirname content rounds entry (wrapSub 32 sizeOfContent recordLength)
    else .error (.panic "find_local_directory could not find dir [%s].")

def locateFrom (fs : Filesystem) (filename content : List UInt8) :
    Nat → Nat → Nat → Except Failure Inode
  | 0, _, _ => .error .endless
  | rounds + 1, entry, s =>
    if 0 < s then do
      let inodeIdx ← getInode content entry
      let same ← if 0 < inodeIdx then do
          let name ← getName content entry
          pure (decide (name = filename))
        else pure false
      if same then
        let result ← fs.getInodeRef inodeIdx
        if result.isFile then return result
        .error .assertion
      else
        let recordLength ← getRecordLength content entry
        let entry ← next content entry
        fs.locateFrom filename content rounds entry (wrapSub 32 s recordLength)
    else .error (.panic "locate_file: unable to locate file [%s]\n")

end Filesystem

/-! ## Paths -/

/-- The inode objects: how many have been made, and the ones that were deleted, in order. -/
structure Objects where
  created : Nat
  deleted : List Nat
  deriving DecidableEq

structure Handle where
  object : Nat
  inode : Inode

namespace Objects

def new (objects : Objects) (inode : Inode) : Handle × Objects :=
  (⟨objects.created, inode⟩, { objects with created := objects.created + 1 })

/-- The language does not say what the deletion of an object that was deleted does: `second` is
    what it does here. -/
def delete (second : Except Failure Unit) (objects : Objects) (handle : Handle) :
    Except Failure Objects := do
  if handle.object ∈ objects.deleted then second
  return { objects with deleted := objects.deleted ++ [handle.object] }

end Objects

def slash : UInt8 := 47

/-- `MAX_PATH_SIZE`, the length of the array for the directories of a path; `next_dirname` has
    the same length. -/
def maxPathSize : Nat := 255

/-- The loop that copies the path to `dir` and finds the last slash.  It ends at the first byte
    that is not positive as a `char`. -/
def tokenize : List UInt8 → (lastSlash : Nat) → (dir : List UInt8) →
    Except Failure (Nat × List UInt8)
  | [], lastSlash, dir => .ok (lastSlash, dir)
  | byte :: rest, lastSlash, dir =>
    if 128 ≤ byte.toNat then .ok (lastSlash, dir)
    else
      let lastSlash := if byte = slash then dir.length else lastSlash
      if dir.length + 1 < maxPathSize then tokenize rest lastSlash (dir ++ [byte])
      else .error .assertion

structure Resolved where
  outCollective : Heap × Collective
  outInode : Inode
  objects : Objects

namespace Filesystem

def findLocalDirectory (fs : Filesystem) (second : Except Failure Unit) (dirname : List UInt8)
    (currentDir : Handle) (objects : Objects) : Except Failure (Handle × Objects) := do
  let content ← fs.getDirectoryEntries currentDir.inode
  let objects ← objects.delete second currentDir
  let result ← fs.findFrom dirname content (content.length + 1) 0 currentDir.inode.size
  return objects.new result

/-- A path that does not begin with a slash gives a null pointer. -/
def locateDirectory (fs : Filesystem) (second : Except Failure Unit) (pathname : List UInt8)
    (currentDir : Handle) (objects : Objects) : Except Failure (Option Handle × Objects) :=
  match pathname with
  | [] => .ok (none, objects)
  | first :: tail =>
    if first ≠ slash then .ok (none, objects)
    else if tail = [] then .ok (some currentDir, objects)
    else
      let nextDirname := tail.takeWhile (· ≠ slash)
      -- without another slash, the loop runs past the end of the path
      if tail.dropWhile (· ≠ slash) = [] then .error .outside
      else if nextDirname.length < maxPathSize then do
        let (nextDir, objects) ← fs.findLocalDirectory second nextDirname currentDir objects
        let objects ← objects.delete second currentDir
        fs.locateDirectory second (tail.dropWhile (· ≠ slash)) nextDir objects
      else .error .overrun
termination_by pathname.length
decreasing_by
  exact Nat.lt_succ_of_le (List.dropWhile_suffix _).length_le

def fsIndexFl : Nat := 0x1000

def locateFile (fs : Filesystem) (filename : List UInt8) (dir : Inode) : Except Failure Inode :=
  if dir.flags &&& fsIndexFl = 0 then do
    let content ← fs.getDirectoryEntries dir
    fs.locateFrom filename content (content.length + 1) 0 dir.size
  else .error .assertion

/-- `pathname` is what the string has before its end. -/
def getBlocksForFile (fs : Filesystem) (second : Except Failure Unit) (pathname : List UInt8) :
    Except Failure Resolved := do
  let (lastSlash, dir) ← tokenize pathname 0 []
  -- of an empty path, the first byte of `dir` is not set
  if dir = [] then .error .outside
  let root ← fs.getInodeRef inodeRootIndex
  let (rootDir, objects) := (⟨0, []⟩ : Objects).new root
  let (located, objects) ← fs.locateDirectory second (dir.take (lastSlash + 1)) rootDir objects
  let iDir ← asserted located
  let iFile ← fs.locateFile (pathname.drop (lastSlash + 1)) iDir.inode
  let (file, objects) := objects.new iFile
  let objects ← objects.delete second iDir
  return ⟨fs.getBlocksForInode file.inode, file.inode, objects⟩

end Filesystem

end Xdk.Ext2
