import Xdk.Ext2.Sparse

/-! # What `read` returns

`read` returns the bytes that the block map of ext2 assigns to the positions, up to the end of
the first list of doubly indirect addresses, unless the range of a list is longer than a `size_t`
can say.  Where the range tree has no range, `read` copies the bytes of whatever block it has
copied from last.
-/

namespace Xdk.Ext2

open Xdk.Lib Volume

variable {pos : Nat}

/-! ## The lookup in an open file -/

namespace Volume

variable {volume : Volume} {inode : Inode}

/-- A block that `read` finds: its address is in a list that `append` keeps, and its bytes are in
    what the range of this list is, as a `size_t`. -/
structure Kept (volume : Volume) (inode : Inode) (index : Nat) : Prop where
  near : index < 12 + 2 * volume.addressesPerBlock
  reached : (volume.keptList inode index).2 * volume.blockSize <
    wrap 32 (countBlocks (volume.keptList inode index).1 * volume.blockSize)

def UsedOnce (volume : Volume) (inode : Inode) : Prop :=
  ∀ first second block, volume.blockMap inode first = some block →
    volume.blockMap inode second = some block → first = second

theorem used_eq_some {block address : Nat} (isUsed : used address = some block) : block ≠ 0 := by
  rw [used] at isUsed
  split at isUsed
  next => cases isUsed
  next notZero =>
    cases isUsed
    exact notZero

theorem blockMap_ne_zero {index block : Nat} (isBlock : volume.blockMap inode index = some block) :
    block ≠ 0 := by
  rw [blockMap] at isBlock
  dsimp only at isBlock
  split_ifs at isBlock
  · exact used_eq_some isBlock
  · obtain ⟨_, _, leaf⟩ := Option.bind_eq_some_iff.mp isBlock
    exact used_eq_some leaf
  · obtain ⟨_, _, rest⟩ := Option.bind_eq_some_iff.mp isBlock
    obtain ⟨_, _, leaf⟩ := Option.bind_eq_some_iff.mp rest
    exact used_eq_some leaf
  · obtain ⟨_, _, rest⟩ := Option.bind_eq_some_iff.mp isBlock
    obtain ⟨_, _, rest⟩ := Option.bind_eq_some_iff.mp rest
    obtain ⟨_, _, leaf⟩ := Option.bind_eq_some_iff.mp rest
    exact used_eq_some leaf

theorem rangeTree_eq (volume : Volume) (inode : Inode) :
    (volume.openInode inode).rangeTree = .new (volume.reachedLists inode) volume.blockSize := by
  obtain ⟨elements, reached⟩ := exists_reached volume inode
  rw [openInode, reached.addressLists]

/-- The length of a range is a number of blocks, also when it is too long. -/
theorem exists_wrap_eq (volume : Volume) (count : Nat) :
    ∃ blocks, wrap 32 (count * volume.blockSize) = blocks * volume.blockSize := by
  rw [blockSize_eq, wrap]
  obtain small | large := Nat.le_total (volume.blockSizeLog2 + 10) 32
  · refine ⟨count % 2 ^ (32 - (volume.blockSizeLog2 + 10)), ?_⟩
    rw [← Nat.mul_mod_mul_right, ← Nat.pow_add, Nat.sub_add_cancel small]
  · refine ⟨0, ?_⟩
    rw [Nat.zero_mul, ← Nat.add_sub_cancel' large, Nat.pow_add, Nat.mul_left_comm]
    exact Nat.mul_mod_right _ _

theorem add_lt_wrap_iff {place part count : Nat} (lt : part < volume.blockSize) :
    place * volume.blockSize + part < wrap 32 (count * volume.blockSize) ↔
      place * volume.blockSize < wrap 32 (count * volume.blockSize) := by
  obtain ⟨blocks, isWrap⟩ := volume.exists_wrap_eq count
  rw [isWrap]
  refine ⟨fun inside => by omega, fun inside => ?_⟩
  have next := Nat.mul_le_mul_right volume.blockSize
    (Nat.succ_le_of_lt (Nat.lt_of_mul_lt_mul_right inside))
  rw [Nat.succ_mul] at next
  omega

section

variable (allocated : ∀ before ≤ pos / volume.blockSize, (volume.blockMap inode before).isSome)
include allocated

/-- The lookup finds a block that is kept. -/
theorem lookup_of_kept (kept : volume.Kept inode (pos / volume.blockSize)) (b off : Nat) :
    (volume.openInode inode).rangeTree.lookupBlockAndOffset pos b off =
      (volume.blockMap inode (pos / volume.blockSize)).map fun block =>
        (sOk, block, pos % volume.blockSize) := by
  have positive := volume.blockSize_pos
  obtain ⟨located, isBlock⟩ := locate_reachedLists allocated kept.near
  have reached := (add_lt_wrap_iff (Nat.mod_lt pos positive)).mpr kept.reached
  generalize volume.keptList inode (pos / volume.blockSize) = found at located isBlock reached
  obtain ⟨bal, place⟩ := found
  rw [rangeTree_eq, lookup_located positive located reached, isBlock]

/-- Beyond the first list of doubly indirect addresses, there is at most the first list of the
    triply indirect ones, and it has no block that is to be found there. -/
theorem getElem?_of_far (once : volume.UsedOnce inode) {target place : Nat} {bal : List Nat}
    (far : 12 + 2 * volume.addressesPerBlock ≤ pos / volume.blockSize)
    (located : locate (volume.reachedLists inode) (pos / volume.blockSize) = some (bal, place))
    (isBlock : volume.blockMap inode (pos / volume.blockSize) = some target) :
    ∃ other, other ≠ target ∧ bal[place]? = some other := by
  have least := volume.le_addressesPerBlock
  have square := Nat.mul_le_mul_right volume.addressesPerBlock least
  rw [locate_beyond allocated far] at located
  cases head : (volume.triplyLists inode).head? with
  | none =>
    rw [head] at located
    cases located
  | some first =>
    rw [head, Option.toList_some, locate] at located
    split at located
    next inside =>
      obtain ⟨isBal, isPlace⟩ := Prod.mk.inj (Option.some.inj located)
      rw [isBal, isPlace] at inside
      rw [isBal] at head
      obtain ⟨other, listed⟩ : ∃ other, bal[place]? = some other :=
        ⟨_, List.getElem?_eq_getElem (inside.trans_le (countBlocks_le bal))⟩
      refine ⟨other, ?_, listed⟩
      rintro rfl
      obtain ⟨index, behind, again⟩ := exists_blockMap_triply head listed (blockMap_ne_zero isBlock)
      have same := once _ _ _ isBlock again
      omega
    next => cases located

/-- The lookup of another block finds nothing, or something else. -/
theorem lookup_of_not_kept (once : volume.UsedOnce inode) {target : Nat}
    (isBlock : volume.blockMap inode (pos / volume.blockSize) = some target)
    (stray : ¬ volume.Kept inode (pos / volume.blockSize)) (b off : Nat) (other : b ≠ target) :
    ∃ b' off', b' ≠ target ∧
      (volume.openInode inode).rangeTree.lookupBlockAndOffset pos b off = some (sOk, b', off') := by
  have positive := volume.blockSize_pos
  have part := Nat.mod_lt pos positive
  rw [rangeTree_eq]
  cases region : (LogicalRangeTree.new (volume.reachedLists inode) volume.blockSize).searchRegion
      pos with
  | none => exact ⟨b, off, other, lookup_missed region b off⟩
  | some range =>
    rw [searchRegion_new positive] at region
    obtain ⟨⟨bal, place⟩, located, found⟩ := Option.bind_eq_some_iff.mp region
    split at found
    next reached =>
      obtain near | far := Nat.lt_or_ge (pos / volume.blockSize)
        (12 + 2 * volume.addressesPerBlock)
      · obtain ⟨isKept, _⟩ := locate_reachedLists allocated near
        rw [located] at isKept
        have kept := (add_lt_wrap_iff part).mp reached
        rw [Option.some.inj isKept] at kept
        exact absurd ⟨near, kept⟩ stray
      · obtain ⟨address, different, listed⟩ := getElem?_of_far allocated once far located isBlock
        refine ⟨address, pos % volume.blockSize, different, ?_⟩
        rw [lookup_located positive located reached, listed]
        rfl
    next => cases found

end

end Volume

/-! ## The loop of `read` -/

/-- The positions up to the end of a block. -/
theorem same_block {blockSize more : Nat} (inside : more < blockSize - pos % blockSize) :
    (pos + more) / blockSize = pos / blockSize ∧
      (pos + more) % blockSize = pos % blockSize + more := by
  have lt : pos % blockSize + more < blockSize := by omega
  have whole : pos + more = blockSize * (pos / blockSize) + (pos % blockSize + more) := by
    rw [← Nat.add_assoc, Nat.div_add_mod]
  rw [whole, Nat.mul_add_div (by omega), Nat.div_eq_of_lt lt, Nat.mul_add_mod,
    Nat.mod_eq_of_lt lt]
  exact ⟨rfl, rfl⟩

/-- The next end of a block is not after one that comes later. -/
theorem le_of_aligned {blockSize later : Nat} (aligned : later % blockSize = 0)
    (lt : pos < later) : pos + (blockSize - pos % blockSize) ≤ later := by
  obtain ⟨blocks, rfl⟩ := Nat.dvd_of_mod_eq_zero aligned
  have positive : 0 < blockSize := Nat.pos_of_mul_pos_right (Nat.zero_lt_of_lt lt)
  have next : pos / blockSize + 1 ≤ blocks := (Nat.div_lt_iff_lt_mul positive).mpr (by
    rwa [Nat.mul_comm])
  have whole := Nat.div_add_mod pos blockSize
  have part := Nat.mod_lt pos positive
  have := Nat.mul_le_mul_left blockSize next
  rw [Nat.mul_add, Nat.mul_one] at this
  omega

namespace File

def byteAt (volume : Volume) (blockOf : Nat → Nat) (pos : Nat) : UInt8 :=
  volume.device
    (volume.blockToAbsOffset (blockOf (pos / volume.blockSize)) + pos % volume.blockSize)

theorem copy_congr {bytes bytes' : Nat → UInt8} {c : Nat} (buf : Nat → UInt8) (start : Nat)
    (same : ∀ i < c, bytes i = bytes' i) :
    copy bytes c buf start = copy bytes' c buf start := by
  funext i
  simp only [copy]
  split
  · exact same _ (by omega)
  · rfl

/-- Bytes that are copied in two parts. -/
theorem copy_copy (bytes : Nat → UInt8) {part c : Nat} (buf : Nat → UInt8) (start : Nat)
    (fits : part ≤ c) :
    copy (fun i => bytes (part + i)) (c - part) (copy bytes part buf start)
      (start + part) = copy bytes c buf start := by
  funext i
  simp only [copy]
  split_ifs
  · exact congrArg bytes (by omega)
  all_goals first | rfl | omega

/-- When every position is found in the block that `blockOf` gives, the loop copies the bytes of
    these blocks. -/
theorem readFrom_eq {file : File} {blockOf : Nat → Nat} {currPos bytesRemaining : Nat}
    (found : ∀ pos, currPos ≤ pos → pos < currPos + bytesRemaining → ∀ b off,
      file.rangeTree.lookupBlockAndOffset pos b off =
        some (sOk, blockOf (pos / file.volume.blockSize), pos % file.volume.blockSize))
    (remains : 0 < bytesRemaining) (bytesCopied b off : Nat) (buf : Nat → UInt8) :
    file.readFrom currPos bytesCopied bytesRemaining b off buf =
      some (copy (fun i => byteAt file.volume blockOf (currPos + i)) bytesRemaining buf
        bytesCopied) := by
  induction bytesRemaining using Nat.strongRecOn generalizing currPos bytesCopied b off
    buf with
  | ind bytesRemaining ih =>
    have lt := Nat.mod_lt currPos file.volume.blockSize_pos
    rw [readFrom, found currPos (Nat.le_refl _) (by omega)]
    simp only [true_and]
    have chunk : ∀ c ≤ file.volume.blockSize - currPos % file.volume.blockSize,
        copy (file.volume.device <| file.volume.blockToAbsOffset
          (blockOf (currPos / file.volume.blockSize)) + currPos % file.volume.blockSize + ·)
          c buf bytesCopied =
        copy (fun i => byteAt file.volume blockOf (currPos + i)) c buf
          bytesCopied := by
      refine fun c small => copy_congr buf bytesCopied fun i inside => ?_
      obtain ⟨sameBlock, sameOffset⟩ := same_block (Nat.lt_of_lt_of_le inside small)
      rw [byteAt, sameBlock, sameOffset, Nat.add_assoc]
    rw [chunk _ (Nat.min_le_left _ _)]
    split_ifs with more
    · have rest := copy_copy (fun i => byteAt file.volume blockOf (currPos + i)) buf
        bytesCopied (Nat.le_of_lt more)
      rw [ih _ (by omega) (fun pos lower upper => found pos (by omega) (by omega))
        (by omega), ← rest]
      simp only [Nat.add_assoc]
    · rw [Nat.min_eq_right (by omega)]

/-- What has been copied stays. -/
theorem readFrom_before {file : File} {currPos bytesCopied bytesRemaining b off : Nat}
    {buf result : Nat → UInt8}
    (read : file.readFrom currPos bytesCopied bytesRemaining b off buf = some result) {i : Nat}
    (before : i < bytesCopied) : result i = buf i := by
  induction bytesRemaining using Nat.strongRecOn generalizing currPos bytesCopied b off buf with
  | ind bytesRemaining ih =>
    rw [readFrom] at read
    split at read
    next => cases read
    next status block offset looked =>
      split at read
      next valid =>
        dsimp only at read
        split at read
        next more =>
          rw [ih _ (by omega) read (by omega), copy, if_neg (by omega)]
        next last =>
          cases read
          rw [copy, if_neg (by omega)]
      next => cases read

/-- When a position is not found in its block, what is copied for it is a byte of another block. -/
theorem readFrom_stray {file : File} {blockOf : Nat → Nat}
    {target stray currPos bytesCopied bytesRemaining b off : Nat} {buf result : Nat → UInt8}
    (before : ∀ pos, currPos ≤ pos → pos < stray → blockOf (pos / file.volume.blockSize) ≠ target ∧
      ∀ b off, file.rangeTree.lookupBlockAndOffset pos b off =
        some (sOk, blockOf (pos / file.volume.blockSize), pos % file.volume.blockSize))
    (here : ∀ b off, b ≠ target → ∃ b' off', b' ≠ target ∧
      file.rangeTree.lookupBlockAndOffset stray b off = some (sOk, b', off'))
    (aligned : currPos = stray ∨ stray % file.volume.blockSize = 0) (le : currPos ≤ stray)
    (inside : stray < currPos + bytesRemaining) (other : b ≠ target)
    (read : file.readFrom currPos bytesCopied bytesRemaining b off buf = some result) :
    ∃ block offset, block ≠ target ∧ offset < file.volume.blockSize ∧
      result (bytesCopied + (stray - currPos)) =
        file.volume.device (file.volume.blockToAbsOffset block + offset) := by
  induction bytesRemaining using Nat.strongRecOn generalizing currPos bytesCopied b off buf with
  | ind bytesRemaining ih =>
    rw [readFrom] at read
    obtain rfl | earlier := Nat.eq_or_lt_of_le le
    · obtain ⟨block, offset, otherBlock, looked⟩ := here b off other
      rw [looked] at read
      simp only [true_and] at read
      split at read
      next valid =>
        refine ⟨block, offset, otherBlock, valid, ?_⟩
        rw [Nat.sub_self, Nat.add_zero]
        have copied : copy (file.volume.device <| file.volume.blockToAbsOffset block + offset + ·)
            (min (file.volume.blockSize - offset) bytesRemaining) buf bytesCopied bytesCopied =
            file.volume.device (file.volume.blockToAbsOffset block + offset) := by
          rw [copy, if_pos (by omega), Nat.sub_self, Nat.add_zero]
        split at read
        next more => rw [readFrom_before read (by omega), copied]
        next last =>
          cases read
          exact copied
      next => cases read
    · obtain ⟨otherBlock, looked⟩ := before currPos (Nat.le_refl _) earlier
      have lt := Nat.mod_lt currPos file.volume.blockSize_pos
      have boundary := le_of_aligned (aligned.resolve_left (Nat.ne_of_lt earlier)) earlier
      rw [looked] at read
      simp only [true_and, if_pos lt] at read
      rw [Nat.min_eq_left (by omega), if_pos (by omega)] at read
      obtain ⟨block, offset, found⟩ := ih _ (by omega)
        (fun pos lower upper => before pos (by omega) upper)
        (.inr (aligned.resolve_left (Nat.ne_of_lt earlier))) boundary (by omega) otherBlock read
      refine ⟨block, offset, ?_⟩
      rwa [Nat.add_assoc, ← Nat.sub_sub, Nat.add_sub_cancel' (by omega)] at found

end File

/-! ## The contract -/

/-- An open file, when `device` has what stands on the device by now. -/
def File.withDevice (file : File) (device : Memory) : File :=
  { file with volume := { file.volume with device } }

namespace Volume

/-- `read` of an open file returns the bytes of the file that stand on the device by now. -/
def Reads (volume : Volume) (inode : Inode) (device : Memory) (pos len : Nat) : Prop :=
  ∀ buffer, ∃ result, ((volume.openInode inode).withDevice device).read pos len buffer =
      some result ∧
    (∀ index < len, volume.contentByte inode device (pos + index) = some (result index)) ∧
    ∀ index, len ≤ index → result index = buffer index

def KeepsAll (volume : Volume) (inode : Inode) (pos len : Nat) : Prop :=
  ∀ index, pos / volume.blockSize ≤ index → index * volume.blockSize < pos + len →
    volume.Kept inode index

variable {volume : Volume} {inode : Inode} {len : Nat}

def blockOf (volume : Volume) (inode : Inode) (index : Nat) : Nat :=
  (volume.blockMap inode index).getD 0

theorem Allocated.blockMap_eq (allocated : volume.Allocated inode) (inFile : pos < inode.size) :
    volume.blockMap inode (pos / volume.blockSize) =
      some (volume.blockOf inode (pos / volume.blockSize)) := by
  obtain ⟨block, isBlock⟩ :=
    Option.isSome_iff_exists.mp (allocated.before inFile _ (Nat.le_refl _))
  rw [blockOf, isBlock, Option.getD_some]

theorem Allocated.lookup (allocated : volume.Allocated inode) (inFile : pos < inode.size)
    (kept : volume.Kept inode (pos / volume.blockSize)) (b off : Nat) :
    (volume.openInode inode).rangeTree.lookupBlockAndOffset pos b off =
      some (sOk, volume.blockOf inode (pos / volume.blockSize), pos % volume.blockSize) := by
  rw [lookup_of_kept (allocated.before inFile) kept, allocated.blockMap_eq inFile]
  rfl

theorem reads_of_keepsAll (allocated : volume.Allocated inode) (nonempty : 0 < len)
    (inFile : pos + len ≤ inode.size) (keeps : volume.KeepsAll inode pos len) (device : Memory) :
    volume.Reads inode device pos len := by
  intro buffer
  have found : ∀ now, pos ≤ now → now < pos + len → ∀ b off,
      (volume.openInode inode).rangeTree.lookupBlockAndOffset now b off =
        some (sOk, volume.blockOf inode (now / volume.blockSize), now % volume.blockSize) := by
    intro now least inside
    exact allocated.lookup (Nat.lt_of_lt_of_le inside inFile) (keeps _ (Nat.div_le_div_right least)
      (Nat.lt_of_le_of_lt (Nat.div_mul_le_self ..) inside))
  refine ⟨_, @File.readFrom_eq ((volume.openInode inode).withDevice device) (volume.blockOf inode)
    pos len found nonempty 0 0 0 buffer, fun index inside => ?_, fun index outside => ?_⟩
  · rw [contentByte, allocated.blockMap_eq (show pos + index < inode.size by omega), File.copy,
      if_pos ⟨Nat.zero_le _, by omega⟩]
    rfl
  · rw [File.copy, if_neg (by omega)]

/-- Bytes of different blocks are at different offsets. -/
theorem blockToAbsOffset_ne {block block' offset offset' : Nat} (ne : block ≠ block')
    (lt : offset < volume.blockSize) (lt' : offset' < volume.blockSize) :
    volume.blockToAbsOffset block + offset ≠ volume.blockToAbsOffset block' + offset' := by
  intro same
  apply ne
  have position : block * volume.blockSize + offset = block' * volume.blockSize + offset' := by
    simp only [Geometry.blockToAbsOffset] at same
    omega
  have quotient := congrArg (· / volume.blockSize) position
  simpa [Nat.mul_comm _ volume.blockSize, Nat.mul_add_div volume.blockSize_pos,
    Nat.div_eq_of_lt lt, Nat.div_eq_of_lt lt'] using quotient

/-- When a block is not kept, the read is wrong for some contents. -/
theorem exists_not_reads (allocated : volume.Allocated inode) (once : volume.UsedOnce inode)
    (inFile : pos + len ≤ inode.size) {stray : Nat} (least : pos ≤ stray)
    (inside : stray < pos + len) (aligned : pos = stray ∨ stray % volume.blockSize = 0)
    (kept : ∀ now, pos ≤ now → now < stray → volume.Kept inode (now / volume.blockSize))
    (notKept : ¬ volume.Kept inode (stray / volume.blockSize)) :
    ∃ device, ¬ volume.Reads inode device pos len := by
  have strayInFile : stray < inode.size := Nat.lt_of_lt_of_le inside inFile
  have isTarget := allocated.blockMap_eq strayInFile
  generalize volume.blockOf inode (stray / volume.blockSize) = target at isTarget
  let address := volume.blockToAbsOffset target + stray % volume.blockSize
  let device : Memory := fun position => if position = address then 1 else 0
  refine ⟨device, fun reads => ?_⟩
  obtain ⟨result, read, right, -⟩ := reads fun _ => 0
  have found : ∀ now, pos ≤ now → now < stray →
      volume.blockOf inode (now / volume.blockSize) ≠ target ∧
      ∀ b off, (volume.openInode inode).rangeTree.lookupBlockAndOffset now b off =
        some (sOk, volume.blockOf inode (now / volume.blockSize), now % volume.blockSize) := by
    intro now lower upper
    have inFile : now < inode.size := Nat.lt_trans upper strayInFile
    have isKept := kept now lower upper
    refine ⟨fun again => notKept ?_, allocated.lookup inFile isKept⟩
    exact once _ _ _ (again ▸ allocated.blockMap_eq inFile) isTarget ▸ isKept
  obtain ⟨block, offset, ne, lt, copied⟩ :=
    @File.readFrom_stray ((volume.openInode inode).withDevice device) (volume.blockOf inode) target
      stray pos 0 len 0 0 _ result found
      (lookup_of_not_kept (allocated.before strayInFile) once isTarget notKept) aligned least
      inside (blockMap_ne_zero isTarget).symm read
  have expected := right (stray - pos) (by omega)
  rw [contentByte, Nat.add_sub_cancel' least, isTarget, ← Nat.zero_add (stray - pos), copied]
    at expected
  have other : volume.blockToAbsOffset block + offset ≠ address :=
    blockToAbsOffset_ne ne lt (Nat.mod_lt _ volume.blockSize_pos)
  have values : (if address = address then 1 else 0 : UInt8) =
      if volume.blockToAbsOffset block + offset = address then 1 else 0 := Option.some.inj expected
  rw [if_pos rfl, if_neg other] at values
  cases values

end Volume

/-- What a read of an inode whose blocks are allocated returns are the bytes of the file, whatever
    these are, if the blocks that it reads from are all kept; and, when no block is used twice, only
    then. -/
theorem read_returns_file_bytes_iff (volume : Volume) (inode : Inode)
    (allocated : volume.Allocated inode) (pos len : Nat) (nonempty : 0 < len)
    (inFile : pos + len ≤ inode.size) :
    (volume.KeepsAll inode pos len → ∀ device, volume.Reads inode device pos len) ∧
      (volume.UsedOnce inode → (∀ device, volume.Reads inode device pos len) →
        volume.KeepsAll inode pos len) := by
  refine ⟨reads_of_keepsAll allocated nonempty inFile, fun once reads index => ?_⟩
  induction index using Nat.strong_induction_on with
  | h index ih =>
    intro least inside
    by_contra stray
    have failing : ∃ device, ¬ volume.Reads inode device pos len := by
      obtain here | later := Nat.eq_or_lt_of_le least
      · exact exists_not_reads allocated once inFile (Nat.le_refl _) (by omega) (.inl rfl)
          (fun now lower upper => by omega) (here ▸ stray)
      · have positive := volume.blockSize_pos
        have behind : pos < index * volume.blockSize := (Nat.div_lt_iff_lt_mul positive).mp later
        refine exists_not_reads allocated once inFile (Nat.le_of_lt behind) inside
          (.inr (Nat.mul_mod_left ..)) (fun now lower upper => ?_) ?_
        · exact ih _ ((Nat.div_lt_iff_lt_mul positive).mpr upper) (Nat.div_le_div_right lower)
            (Nat.lt_of_le_of_lt (Nat.div_mul_le_self ..) (by omega))
        · rwa [Nat.mul_div_cancel _ positive]
    obtain ⟨device, wrong⟩ := failing
    exact wrong (reads device)

/-- Past the first list of doubly indirect addresses, a read of a file without triply indirect
    addresses returns the bytes at the beginning of the volume. -/
theorem read_beyond {volume : Volume} {inode : Inode} (allocated : volume.Allocated inode)
    (triply : inode.triplyIndirect = 0) {len : Nat} (small : len ≤ volume.blockSize)
    (inFile : pos < inode.size)
    (far : (12 + 2 * volume.addressesPerBlock) * volume.blockSize ≤ pos) (buf : Nat → UInt8) :
    (volume.openInode inode).read pos len buf =
      some (File.copy (volume.device <| volume.blockToAbsOffset 0 + ·) len buf 0) := by
  have positive := volume.blockSize_pos
  have missed : (LogicalRangeTree.new (volume.reachedLists inode) volume.blockSize).searchRegion
      pos = none := by
    rw [searchRegion_new positive, locate_beyond (allocated.before inFile)
      ((Nat.le_div_iff_mul_le positive).mpr far), triplyLists, if_pos triply]
    rfl
  have lookup : (volume.openInode inode).rangeTree.lookupBlockAndOffset pos 0 0 =
      some (sOk, 0, 0) := by
    rw [rangeTree_eq]
    exact lookup_missed missed 0 0
  have volumeOf : (volume.openInode inode).volume = volume := rfl
  rw [File.read, File.readFrom, lookup]
  simp only [volumeOf, positive, and_self, if_true, Nat.sub_zero, Nat.min_eq_right small,
    Nat.lt_irrefl, if_false, Nat.add_zero]

/-- The number at an offset of a block of the sample volume: blocks 20 to 23 have addresses, the
    other blocks have their own number all over. -/
def sampleWord (block entry : Nat) : Nat :=
  if block = 20 then 1000 + entry
  else if block = 21 then (if entry < 2 then 22 + entry else 0)
  else if block = 22 then 2000 + entry
  else if block = 23 then (if entry = 0 then 3000 else 0)
  else block

/-- A volume with blocks of 1024 bytes in a partition that begins at 1 MiB. -/
def sampleVolume : Volume where
  device address :=
    let offset := address - 2 ^ 20
    UInt8.ofNat (sampleWord (offset / 1024) (offset % 1024 / 4) / 256 ^ (offset % 4))
  blockSizeLog2 := 0
  partitionStart := 2 ^ 20

/-- A file of 525 blocks: its last block is the first one of the second list of doubly indirect
    addresses. -/
def sampleInode : Inode where
  mode := 0x8000
  size := 525 * 1024
  flags := 0
  directDataBlocks index := 100 + index
  singlyIndirect := 20
  doublyIndirect := 21
  triplyIndirect := 0

def sampleBlock (index : Nat) : Nat :=
  if index < 12 then 100 + index
  else if index < 268 then 988 + index
  else if index < 524 then 1732 + index
  else if index = 524 then 3000
  else 0

theorem addressAt_sample : ∀ block ∈ [21, 23], ∀ entry < 256,
    sampleVolume.addressAt block entry = sampleWord block entry := by
  decide +kernel

/-- Behind the last block there is none: only two lists are in use, and the second has one entry. -/
theorem blockMap_sample_beyond {index : Nat} (beyond : 525 ≤ index) :
    sampleVolume.blockMap sampleInode index = none := by
  have per : sampleVolume.addressesPerBlock = 256 := rfl
  have doublyRoot : used sampleInode.doublyIndirect = some 21 := rfl
  have triplyRoot : used sampleInode.triplyIndirect = none := rfl
  have unused : ∀ block ∈ [21, 23], ∀ entry < 256, sampleWord block entry = 0 →
      used (sampleVolume.addressAt block entry) = none := by
    intro block listed entry inside zero
    rw [addressAt_sample block listed entry inside, zero]
    rfl
  rw [blockMap, per]
  dsimp only
  rw [if_neg (by omega), if_neg (by omega), doublyRoot, triplyRoot]
  split_ifs with doubly
  · rw [Option.bind_some]
    obtain second | later : (index - 12 - 256) / 256 = 1 ∨ 2 ≤ (index - 12 - 256) / 256 := by omega
    · have leaf : used (sampleVolume.addressAt 21 1) = some 23 := by decide +kernel
      rw [second, leaf, Option.bind_some]
      refine unused 23 (by decide) _ (Nat.mod_lt _ (by decide)) ?_
      simp [sampleWord, show (index - 12 - 256) % 256 ≠ 0 by omega]
    · rw [unused 21 (by decide) _ (by omega)]
      · rfl
      · simp [sampleWord, Nat.not_lt.mpr later]
  · rfl

theorem blockMap_sample (index : Nat) :
    sampleVolume.blockMap sampleInode index = used (sampleBlock index) := by
  have inFile : ∀ index < 525,
      sampleVolume.blockMap sampleInode index = used (sampleBlock index) := by
    decide +kernel
  obtain inside | beyond := Nat.lt_or_ge index 525
  · exact inFile index inside
  · have zero : sampleBlock index = 0 := by
      unfold sampleBlock
      split_ifs <;> omega
    rw [blockMap_sample_beyond beyond, zero]
    rfl

theorem allocated_sample : sampleVolume.Allocated sampleInode := by
  intro index inside
  have size : index * 1024 < 525 * 1024 := inside
  have isBlock : sampleBlock index ≠ 0 := by
    unfold sampleBlock
    split_ifs <;> omega
  rw [blockMap_sample, used, if_neg isBlock]
  rfl

theorem usedOnce_sample : sampleVolume.UsedOnce sampleInode := by
  intro first second block isFirst isSecond
  rw [blockMap_sample] at isFirst isSecond
  have same : sampleBlock first = sampleBlock second := by
    unfold used at isFirst isSecond
    split_ifs at isFirst isSecond
    exact (Option.some.inj isFirst).trans (Option.some.inj isSecond).symm
  have isBlock : sampleBlock first ≠ 0 := fun zero => by
    rw [zero] at isFirst
    cases isFirst
  unfold sampleBlock at same isBlock
  split_ifs at same isBlock <;> omega

/-- A read over the end of the direct blocks, and one in the second list of doubly indirect
    addresses. -/
theorem read_returns_file_bytes_iff_sample :
    (∀ device, sampleVolume.Reads sampleInode device 12280 16) ∧
      ¬ ∀ device, sampleVolume.Reads sampleInode device (524 * 1024) 1 := by
  have kept : ∀ index ∈ [11, 12], sampleVolume.Kept sampleInode index := by
    have reached : ∀ index ∈ [11, 12], (sampleVolume.keptList sampleInode index).2 * 1024 <
        wrap 32 (countBlocks (sampleVolume.keptList sampleInode index).1 * 1024) := by
      decide +kernel
    refine fun index mem => ⟨?_, reached index mem⟩
    revert index
    decide
  have size : sampleVolume.blockSize = 1024 := rfl
  obtain ⟨direct, -⟩ := read_returns_file_bytes_iff sampleVolume sampleInode allocated_sample
    12280 16 (by decide) (by decide)
  obtain ⟨-, doubly⟩ := read_returns_file_bytes_iff sampleVolume sampleInode allocated_sample
    (524 * 1024) 1 (by decide) (by decide)
  refine ⟨direct fun index lower upper => kept index ?_, fun reads => ?_⟩
  · rw [size] at lower upper
    simp only [List.mem_cons, List.not_mem_nil, or_false]
    omega
  · have far := (doubly usedOnce_sample reads 524 (by decide) (by decide)).near
    exact absurd far (by decide)

/-- The last block of the file is not found, and a byte of block 0 is returned for its first
    byte. -/
theorem read_returns_other_byte : sampleVolume.Allocated sampleInode ∧
    524 * 1024 + 1 ≤ sampleInode.size ∧
    sampleVolume.fileByte sampleInode (524 * 1024) = some 184 ∧
    ∃ result, (sampleVolume.openInode sampleInode).read (524 * 1024) 1 (fun _ => 7) =
      some result ∧ result 0 = 0 := by
  refine ⟨allocated_sample, by decide, by decide +kernel, _,
    read_beyond allocated_sample rfl (by decide) (by decide) (by decide) _, ?_⟩
  decide +kernel

end Xdk.Ext2
