import Xdk.Ext2.File

/-! # What `read` finds of the block map

The block map of ext2 goes through the trees of the inode.  Of the trees of depth two and three
the collective has only the first list, so a position is found as long as it is in the direct
blocks, in the singly indirect ones or in the first list of the doubly indirect ones.
-/

namespace Xdk.Ext2

open Xdk.Lib

/-! ## The block map -/

def used (block : Nat) : Option Nat := if block = 0 then none else some block

namespace Volume

def blockMap (volume : Volume) (inode : Inode) (index : Nat) : Option Nat :=
  let per := volume.addressesPerBlock
  let follow := fun block index => used (volume.addressAt block index)
  if index < 12 then used (inode.directDataBlocks index)
  else if index - 12 < per then (used inode.singlyIndirect).bind (follow · (index - 12))
  else if index - 12 - per < per * per then
    let rest := index - 12 - per
    (used inode.doublyIndirect).bind fun block =>
      (follow block (rest / per)).bind (follow · (rest % per))
  else
    let rest := index - 12 - per - per * per
    (used inode.triplyIndirect).bind fun block =>
      (follow block (rest / (per * per))).bind fun block =>
        (follow block (rest / per % per)).bind (follow · (rest % per))

/-- The byte at a position of the file, when `device` has what stands on the device by now. -/
def contentByte (volume : Volume) (inode : Inode) (device : Memory) (pos : Nat) : Option UInt8 :=
  (volume.blockMap inode (pos / volume.blockSize)).map fun block =>
    device (volume.blockToAbsOffset block + pos % volume.blockSize)

def fileByte (volume : Volume) (inode : Inode) (pos : Nat) : Option UInt8 :=
  volume.contentByte inode volume.device pos

def Allocated (volume : Volume) (inode : Inode) : Prop :=
  ∀ index, index * volume.blockSize < inode.size → (volume.blockMap inode index).isSome

theorem blockSize_eq (volume : Volume) : volume.blockSize = 2 ^ (volume.blockSizeLog2 + 10) := by
  rw [Geometry.blockSize, blockSizeOf, Nat.shiftLeft_eq, Nat.pow_add, Nat.mul_comm]

theorem blockSize_pos (volume : Volume) : 0 < volume.blockSize := by
  rw [blockSize_eq]
  exact Nat.two_pow_pos _

theorem le_addressesPerBlock (volume : Volume) : 256 ≤ volume.addressesPerBlock := by
  have size := volume.blockSize_eq
  rw [Nat.pow_add] at size
  have := Nat.two_pow_pos volume.blockSizeLog2
  rw [addressesPerBlock]
  omega

/-- The blocks up to that of a position of the file. -/
theorem Allocated.before {volume : Volume} {i : Inode} (allocated : volume.Allocated i)
    {pos : Nat} (inFile : pos < i.size) :
    ∀ before ≤ pos / volume.blockSize, (volume.blockMap i before).isSome := by
  intro before least
  have := (Nat.le_div_iff_mul_le volume.blockSize_pos).mp least
  exact allocated before (by omega)

/-! ## The lists that are collected -/

def listsOf (volume : Volume) (blocks : List Nat) : List (List Nat) :=
  (blocks.filter (0 < ·)).map volume.getBlockAddressList

def singlyLists (volume : Volume) (inode : Inode) : List (List Nat) :=
  volume.listsOf [inode.singlyIndirect]

def doublyLists (volume : Volume) (inode : Inode) : List (List Nat) :=
  if inode.doublyIndirect = 0 then []
  else volume.listsOf (volume.getBlockAddressList inode.doublyIndirect)

def triplyLists (volume : Volume) (inode : Inode) : List (List Nat) :=
  if inode.triplyIndirect = 0 then []
  else ((volume.getBlockAddressList inode.triplyIndirect).filter (0 < ·)).flatMap fun block =>
    volume.listsOf (volume.getBlockAddressList block)

structure Built (heap : Heap) (result : Heap × Collective) (lists : List (List Nat)) : Prop where
  frame : Frame heap.lists.length heap result.1
  reached : ∃ elements, Reached result.1 result.2 elements lists ∧
    ∀ element ∈ elements, heap.lists.length ≤ element

variable {volume : Volume} {start : Heap} {result : Heap × Collective} {lists : List (List Nat)}

theorem built_empty (heap : Heap) : Built heap (heap, .empty) [] :=
  ⟨.refl _ _, [], reached_empty heap, nofun⟩

section

variable (built : Built start result lists)
include built

/-- One more new list. -/
theorem Built.insert (addresses : List Nat) :
    Built start
      (result.2.insert (result.1.alloc addresses).2 (result.1.alloc addresses).1)
      (lists ++ [addresses]) := by
  obtain ⟨frame, elements, reached, new⟩ := built
  have longer : start.lists.length ≤ result.1.lists.length := frame.lists.length_le
  have absent : result.1.lists.length ∉ elements := fun mem =>
    Nat.lt_irrefl _ (reached.known _ mem)
  have allocated := reached.frame (frame_alloc result.1 addresses (Nat.le_refl _)) reached.known
  have inserted := allocated.insert absent (by simp [Heap.alloc])
  refine ⟨?_, elements ++ [result.1.lists.length], ?_, fun x mem => ?_⟩
  · exact (frame.trans (frame_alloc result.1 addresses longer)).trans
      (allocated.frame_insert new longer)
  · have payload :
        (result.1.alloc addresses).2.lists.getD result.1.lists.length [] = addresses := by
      simp [Heap.alloc]
    rw [payload] at inserted
    exact inserted
  · obtain old | last := List.mem_append.mp mem
    · exact new x old
    · exact List.mem_singleton.mp last ▸ longer

theorem Built.insertLists (volume : Volume) (bs : List Nat) :
    Built start (volume.insertLists bs result.1 result.2) (lists ++ volume.listsOf bs) := by
  induction bs generalizing result lists with
  | nil => simpa [Volume.insertLists, listsOf] using built
  | cons b rest ih =>
    rw [Volume.insertLists]
    split_ifs with pos
    · have next := ih (built.insert (volume.getBlockAddressList b))
      simpa [listsOf, pos] using next
    · simpa [listsOf, pos] using ih built

theorem Built.insertTrees (volume : Volume) (bs : List Nat) :
    Built start (volume.insertTrees bs result.1 result.2)
      (lists ++ (bs.filter (0 < ·)).flatMap fun b =>
        volume.listsOf (volume.getBlockAddressList b)) := by
  induction bs generalizing result lists with
  | nil => simpa [Volume.insertTrees] using built
  | cons b rest ih =>
    rw [Volume.insertTrees]
    split_ifs with pos
    · have next := ih
        (built.insertLists volume (volume.getBlockAddressList b))
      simpa [pos] using next
    · simpa [pos] using ih built

end

/-! ## The collective of the file -/

/-- A function has returned a null pointer or a new collective. -/
inductive Found (heap : Heap) : Heap × Option Collective → List (List Nat) → Prop where
  | nothing : Found heap (heap, none) []
  | collective {result : Heap × Collective} {lists : List (List Nat)} :
      Built heap result lists → Found heap (result.1, some result.2) lists

theorem found_singly (i : Inode) (heap : Heap) :
    Found heap (volume.getSinglyIndirectBlockAddresses i heap) (volume.singlyLists i) := by
  rw [getSinglyIndirectBlockAddresses, singlyLists, listsOf]
  split_ifs with zero
  · simpa [zero] using Found.nothing
  · have built := (built_empty heap).insert (volume.getBlockAddressList i.singlyIndirect)
    simpa [Nat.pos_of_ne_zero zero] using Found.collective built

theorem found_doubly (i : Inode) (heap : Heap) :
    Found heap (volume.getDoublyIndirectBlockAddresses i heap) (volume.doublyLists i) := by
  rw [getDoublyIndirectBlockAddresses, doublyLists]
  split
  · exact .nothing
  · exact .collective ((built_empty heap).insertLists volume _)

theorem found_triply (i : Inode) (heap : Heap) :
    Found heap (volume.getTriplyIndirectBlockAddresses i heap) (volume.triplyLists i) := by
  rw [getTriplyIndirectBlockAddresses, triplyLists]
  split
  · exact .nothing
  · exact .collective ((built_empty heap).insertTrees volume _)

/-- Of the collective that was found, the first list is appended. -/
theorem Found.appendAny {heap : Heap} {collective : Collective} {elements : List Nat}
    {addresses : List (List Nat)} {found : Heap × Option Collective}
    (isFound : Found heap found lists) (reached : Reached heap collective elements addresses) :
    ∃ elements', Reached (Volume.appendAny collective found).1
      (Volume.appendAny collective found).2 elements' (addresses ++ lists.head?.toList) := by
  cases isFound with
  | nothing => exact ⟨elements, by simpa [Volume.appendAny] using reached⟩
  | collective built =>
    rename_i res
    obtain ⟨frame, others, otherReached, new⟩ := built
    have kept := reached.frame frame reached.known
    have lists := otherReached.addresses
    cases others with
    | nil =>
      have empty : collective.append res.1 res.2 = (res.1, collective) :=
        Collective.append_empty collective otherReached.ends
      simp only [Volume.appendAny, empty, ← lists]
      exact ⟨elements, by simpa using kept⟩
    | cons first rest =>
      have absent : first ∉ elements := fun mem => by
        have old := reached.known first mem
        have := new first (List.mem_cons_self ..)
        omega
      rw [← lists]
      exact ⟨_, kept.append otherReached absent⟩

/-- The lists of a file that can be reached: the direct addresses, and of every tree the first
    list. -/
def reachedLists (volume : Volume) (inode : Inode) : List (List Nat) :=
  [inode.getDirectBlocks] ++ (volume.singlyLists inode).head?.toList ++
    (volume.doublyLists inode).head?.toList ++ (volume.triplyLists inode).head?.toList

theorem exists_reached (volume : Volume) (i : Inode) :
    ∃ elements, Reached (volume.getBlocksForInode i).1 (volume.getBlocksForInode i).2
      elements (volume.reachedLists i) := by
  obtain ⟨_, _, direct, _⟩ := (built_empty .empty).insert i.getDirectBlocks
  obtain ⟨_, singly⟩ := (found_singly i _).appendAny direct
  obtain ⟨_, doubly⟩ := (found_doubly i _).appendAny singly
  exact (found_triply i _).appendAny doubly

/-! ## Addresses in the lists -/

/-- The list and the index in it of the block of a file with a number. -/
def locate : List (List Nat) → Nat → Option (List Nat × Nat)
  | [], _ => none
  | bal :: rest, index =>
    if index < countBlocks bal then some (bal, index) else locate rest (index - countBlocks bal)

variable {bal : List Nat}

theorem locate_here {rest : List (List Nat)} {i : Nat} (inside : i < countBlocks bal) :
    locate (bal :: rest) i = some (bal, i) :=
  if_pos inside

theorem locate_later {rest : List (List Nat)} {c i : Nat} (full : countBlocks bal = c)
    (outside : c ≤ i) :
    locate (bal :: rest) i = locate rest (i - c) := by
  rw [locate, full, if_neg (by omega)]

theorem locate_spec {index place : Nat} (located : locate lists index = some (bal, place)) :
    bal ∈ lists ∧ place < countBlocks bal ∧ place ≤ index := by
  induction lists generalizing index with
  | nil => cases located
  | cons first rest ih =>
    rw [locate] at located
    split at located
    · rename_i inside
      cases located
      exact ⟨List.mem_cons_self .., inside, Nat.le_refl _⟩
    · obtain ⟨mem, inv, before⟩ := ih located
      exact ⟨List.mem_cons_of_mem _ mem, inv, by omega⟩

/-- A list that begins with `c` addresses that are used. -/
theorem le_countBlocks {len c : Nat} {address : Nat → Nat} (short : c ≤ len)
    (used : ∀ i < c, address i ≠ 0) :
    c ≤ countBlocks ((List.range len).map address) := by
  obtain ⟨more, rfl⟩ := Nat.exists_eq_add_of_le short
  have kept : ((List.range c).map address).filter (0 < ·) = (List.range c).map address := by
    refine List.filter_eq_self.mpr fun block mem => ?_
    obtain ⟨i, inside, rfl⟩ := List.mem_map.mp mem
    exact decide_eq_true (Nat.pos_of_ne_zero (used i (List.mem_range.mp inside)))
  rw [countBlocks, List.range_add, List.map_append, List.filter_append, kept, List.length_append,
    List.length_map, List.length_range]
  exact Nat.le_add_right _ _

/-- A list in which all addresses are used. -/
theorem countBlocks_eq {length : Nat} {a : Nat → Nat}
    (used : ∀ i < length, a i ≠ 0) :
    countBlocks ((List.range length).map a) = length := by
  refine Nat.le_antisymm ?_ (le_countBlocks (Nat.le_refl _) used)
  exact (List.length_filter_le ..).trans (by simp)

/-! ## The block map in the lists -/

section Located

variable {inode : Inode} {index : Nat}

theorem used_isSome {block : Nat} (isUsed : (used block).isSome) :
    block ≠ 0 ∧ used block = some block := by
  by_cases zero : block = 0
  · simp [used, zero] at isUsed
  · exact ⟨zero, if_neg zero⟩

theorem blockMap_direct (small : index < 12) :
    volume.blockMap inode index = used (inode.directDataBlocks index) := if_pos small

theorem blockMap_singly (large : 12 ≤ index) (small : index - 12 < volume.addressesPerBlock) :
    volume.blockMap inode index =
      (used inode.singlyIndirect).bind fun b => used (volume.addressAt b (index - 12)) := by
  rw [blockMap, if_neg (by omega), if_pos small]

/-- The first list of the doubly indirect addresses. -/
theorem blockMap_doubly (large : 12 + volume.addressesPerBlock ≤ index)
    (small : index - 12 - volume.addressesPerBlock < volume.addressesPerBlock) :
    volume.blockMap inode index =
      (used inode.doublyIndirect).bind fun b => (used (volume.addressAt b 0)).bind
        fun b => used (volume.addressAt b (index - 12 - volume.addressesPerBlock)) := by
  have square : volume.addressesPerBlock ≤ volume.addressesPerBlock * volume.addressesPerBlock :=
    Nat.le_mul_self _
  rw [blockMap, if_neg (by omega), if_neg (by omega), if_pos (by omega)]
  dsimp only
  rw [Nat.div_eq_of_lt small, Nat.mod_eq_of_lt small]

/-! What is used, when the blocks of the file are allocated. -/

variable {place : Nat}

section

variable (allocated : ∀ before ≤ index, (volume.blockMap inode before).isSome)
include allocated

theorem direct_used (small : place < 12) (before : place ≤ index) :
    inode.directDataBlocks place ≠ 0 := by
  have isSome := allocated place before
  rw [blockMap_direct small] at isSome
  exact (used_isSome isSome).1

theorem singly_used (small : place < volume.addressesPerBlock) (before : 12 + place ≤ index) :
    inode.singlyIndirect ≠ 0 ∧ volume.addressAt inode.singlyIndirect place ≠ 0 := by
  have isSome := allocated (12 + place) before
  rw [blockMap_singly (by omega) (by omega), Nat.add_sub_cancel_left] at isSome
  obtain ⟨root, same⟩ := used_isSome (Option.isSome_of_isSome_bind isSome)
  rw [same] at isSome
  exact ⟨root, (used_isSome isSome).1⟩

theorem doubly_used (small : place < volume.addressesPerBlock)
    (before : 12 + volume.addressesPerBlock + place ≤ index) :
    inode.doublyIndirect ≠ 0 ∧ volume.addressAt inode.doublyIndirect 0 ≠ 0 ∧
      volume.addressAt (volume.addressAt inode.doublyIndirect 0) place ≠ 0 := by
  have isSome := allocated _ before
  rw [blockMap_doubly (by omega) (by omega),
    show 12 + volume.addressesPerBlock + place - 12 - volume.addressesPerBlock = place by omega]
    at isSome
  obtain ⟨root, same⟩ := used_isSome (Option.isSome_of_isSome_bind isSome)
  rw [same] at isSome
  obtain ⟨first, same⟩ := used_isSome (Option.isSome_of_isSome_bind isSome)
  rw [Option.bind_some, same] at isSome
  exact ⟨root, first, (used_isSome isSome).1⟩

end

/-! Where the addresses of the blocks are. -/

section

variable (allocated : ∀ before ≤ index, (volume.blockMap inode before).isSome)
include allocated

theorem blockMap_eq_direct (small : index < 12) :
    volume.blockMap inode index = some (inode.directDataBlocks index) := by
  rw [blockMap_direct small]
  exact if_neg (direct_used allocated small (Nat.le_refl _))

theorem blockMap_eq_singly (large : 12 ≤ index) (small : index - 12 < volume.addressesPerBlock) :
    volume.blockMap inode index =
      some (volume.addressAt inode.singlyIndirect (index - 12)) := by
  obtain ⟨root, leaf⟩ := singly_used allocated small (show 12 + (index - 12) ≤ index by omega)
  rw [blockMap_singly large small, used, if_neg root]
  exact if_neg leaf

theorem blockMap_eq_doubly (large : 12 + volume.addressesPerBlock ≤ index)
    (small : index - 12 - volume.addressesPerBlock < volume.addressesPerBlock) :
    volume.blockMap inode index =
      some (volume.addressAt (volume.addressAt inode.doublyIndirect 0)
        (index - 12 - volume.addressesPerBlock)) := by
  obtain ⟨root, first, leaf⟩ := doubly_used allocated small (by omega)
  rw [blockMap_doubly large small, used, if_neg root, Option.bind_some, used, if_neg first]
  exact if_neg leaf

/-- A block of a file that is in the direct addresses. -/
theorem locate_direct (small : index < 12) (rest : List (List Nat)) :
    locate (inode.getDirectBlocks :: rest) index = some (inode.getDirectBlocks, index) ∧
      inode.getDirectBlocks[index]? = volume.blockMap inode index := by
  have inside : index + 1 ≤ countBlocks inode.getDirectBlocks :=
    le_countBlocks (by omega) fun place below => direct_used allocated (by omega) (by omega)
  refine ⟨locate_here inside, ?_⟩
  rw [blockMap_eq_direct allocated small]
  simp [Inode.getDirectBlocks, small]

theorem countBlocks_direct (large : 12 ≤ index) : countBlocks inode.getDirectBlocks = 12 :=
  countBlocks_eq fun place lt => direct_used allocated lt (by omega)

/-- A block of a file that is in the singly indirect addresses. -/
theorem locate_singly (large : 12 ≤ index) (small : index - 12 < volume.addressesPerBlock)
    (rest : List (List Nat)) :
    locate (volume.getBlockAddressList inode.singlyIndirect :: rest) (index - 12) =
        some (volume.getBlockAddressList inode.singlyIndirect, index - 12) ∧
      (volume.getBlockAddressList inode.singlyIndirect)[index - 12]? =
        volume.blockMap inode index := by
  have inside : index - 12 + 1 ≤ countBlocks (volume.getBlockAddressList inode.singlyIndirect) :=
    le_countBlocks (by omega) fun place below =>
      (singly_used allocated (by omega) (by omega)).2
  refine ⟨locate_here inside, ?_⟩
  rw [blockMap_eq_singly allocated large small]
  simp [getBlockAddressList, small]

theorem countBlocks_singly (large : 12 + volume.addressesPerBlock ≤ index) :
    countBlocks (volume.getBlockAddressList inode.singlyIndirect) = volume.addressesPerBlock :=
  countBlocks_eq fun place lt => (singly_used allocated lt (by omega)).2

end

/-- The first list of the doubly indirect addresses is that of the first entry. -/
theorem head_doublyLists (pos : 0 < volume.addressesPerBlock)
    (root : inode.doublyIndirect ≠ 0) (first : volume.addressAt inode.doublyIndirect 0 ≠ 0) :
    (volume.doublyLists inode).head? =
      some (volume.getBlockAddressList (volume.addressAt inode.doublyIndirect 0)) := by
  obtain ⟨per, some⟩ := Nat.exists_eq_add_one_of_ne_zero (Nat.ne_of_gt pos)
  have list : volume.getBlockAddressList inode.doublyIndirect =
      volume.addressAt inode.doublyIndirect 0 ::
        (List.range per).map fun place => volume.addressAt inode.doublyIndirect (place + 1) := by
    rw [getBlockAddressList, some, List.range_succ_eq_map, List.map_cons, List.map_map]
    rfl
  have isUsed := decide_eq_true (Nat.pos_of_ne_zero first)
  rw [doublyLists, if_neg root, listsOf, list, List.filter_cons, if_pos isUsed]
  rfl

section

variable (allocated : ∀ before ≤ index, (volume.blockMap inode before).isSome)
include allocated

/-- A block of a file that is in the first list of the doubly indirect addresses. -/
theorem locate_doubly (large : 12 + volume.addressesPerBlock ≤ index)
    (small : index - 12 - volume.addressesPerBlock < volume.addressesPerBlock)
    (rest : List (List Nat)) :
    locate (volume.getBlockAddressList (volume.addressAt inode.doublyIndirect 0) :: rest)
          (index - 12 - volume.addressesPerBlock) =
        some (volume.getBlockAddressList (volume.addressAt inode.doublyIndirect 0),
          index - 12 - volume.addressesPerBlock) ∧
      (volume.getBlockAddressList (volume.addressAt inode.doublyIndirect 0))[
          index - 12 - volume.addressesPerBlock]? = volume.blockMap inode index := by
  have inside : index - 12 - volume.addressesPerBlock + 1 ≤ countBlocks
      (volume.getBlockAddressList (volume.addressAt inode.doublyIndirect 0)) :=
    le_countBlocks (by omega) fun place below =>
      (doubly_used allocated (by omega) (by omega)).2.2
  refine ⟨locate_here inside, ?_⟩
  rw [blockMap_eq_doubly allocated large small]
  simp [getBlockAddressList, small]

theorem countBlocks_doubly (large : 12 + 2 * volume.addressesPerBlock ≤ index) :
    countBlocks (volume.getBlockAddressList (volume.addressAt inode.doublyIndirect 0)) =
      volume.addressesPerBlock :=
  countBlocks_eq fun place lt => (doubly_used allocated lt (by omega)).2.2

end

/-- The lists of a file that has singly indirect blocks. -/
theorem reachedLists_eq (root : inode.singlyIndirect ≠ 0) :
    volume.reachedLists inode =
      inode.getDirectBlocks :: volume.getBlockAddressList inode.singlyIndirect ::
        ((volume.doublyLists inode).head?.toList ++ (volume.triplyLists inode).head?.toList) := by
  simp [reachedLists, singlyLists, listsOf, Nat.pos_of_ne_zero root]

/-- The list that has the address of a block, up to the end of the first list of doubly indirect
    addresses, and the place in it. -/
def keptList (volume : Volume) (inode : Inode) (index : Nat) : List Nat × Nat :=
  let per := volume.addressesPerBlock
  if index < 12 then (inode.getDirectBlocks, index)
  else if index - 12 < per then (volume.getBlockAddressList inode.singlyIndirect, index - 12)
  else (volume.getBlockAddressList (volume.addressAt inode.doublyIndirect 0), index - 12 - per)

section

variable (allocated : ∀ before ≤ index, (volume.blockMap inode before).isSome)
include allocated

/-- A block that can be reached is found in the lists, when all blocks before it are allocated. -/
theorem locate_reachedLists (near : index < 12 + 2 * volume.addressesPerBlock) :
    locate (volume.reachedLists inode) index = some (volume.keptList inode index) ∧
      (volume.keptList inode index).1[(volume.keptList inode index).2]? =
        volume.blockMap inode index := by
  rw [keptList]
  obtain direct | indirect := Nat.lt_or_ge index 12
  · rw [if_pos direct]
    exact locate_direct allocated direct _
  have directs := countBlocks_direct allocated indirect
  have pos : 0 < volume.addressesPerBlock := by omega
  obtain ⟨root, _⟩ := singly_used allocated pos (by omega)
  rw [if_neg (by omega), reachedLists_eq root, locate_later directs indirect]
  obtain singly | doubly := Nat.lt_or_ge (index - 12) volume.addressesPerBlock
  · rw [if_pos singly]
    exact locate_singly allocated indirect singly _
  · have large : 12 + volume.addressesPerBlock ≤ index := by omega
    obtain ⟨root, first, _⟩ := doubly_used allocated pos large
    rw [if_neg (by omega), locate_later (countBlocks_singly allocated large) doubly,
      head_doublyLists pos root first]
    exact locate_doubly allocated large (by omega) _

/-- Beyond the first list of doubly indirect addresses, only the first list of the triply indirect
    ones is left. -/
theorem locate_beyond (far : 12 + 2 * volume.addressesPerBlock ≤ index) :
    locate (volume.reachedLists inode) index =
      locate (volume.triplyLists inode).head?.toList
        (index - (12 + 2 * volume.addressesPerBlock)) := by
  have least := volume.le_addressesPerBlock
  have pos : 0 < volume.addressesPerBlock := by omega
  obtain ⟨singly, _⟩ := singly_used allocated pos (by omega)
  obtain ⟨doubly, first, _⟩ := doubly_used allocated pos (by omega)
  rw [reachedLists_eq singly, head_doublyLists pos doubly first,
    locate_later (countBlocks_direct allocated (by omega)) (by omega),
    locate_later (countBlocks_singly allocated (by omega)) (by omega), Option.toList_some,
    List.singleton_append, locate_later (countBlocks_doubly allocated far) (by omega)]
  congr 1
  omega

end

theorem getElem?_getBlockAddressList {block place address : Nat}
    (found : (volume.getBlockAddressList block)[place]? = some address) :
    place < volume.addressesPerBlock ∧ address = volume.addressAt block place := by
  obtain ⟨lt, same⟩ := List.getElem?_eq_some_iff.mp found
  simp only [getBlockAddressList, List.length_map, List.length_range, List.getElem_map,
    List.getElem_range] at lt same
  exact ⟨lt, same.symm⟩

theorem blockMap_triply (inode : Inode) {high low place : Nat}
    (highLt : high < volume.addressesPerBlock) (lowLt : low < volume.addressesPerBlock)
    (placeLt : place < volume.addressesPerBlock) :
    volume.blockMap inode (12 + volume.addressesPerBlock +
        volume.addressesPerBlock * volume.addressesPerBlock +
        (volume.addressesPerBlock * (volume.addressesPerBlock * high + low) + place)) =
      (used inode.triplyIndirect).bind fun block =>
        (used (volume.addressAt block high)).bind fun block =>
          (used (volume.addressAt block low)).bind fun block =>
            used (volume.addressAt block place) := by
  have pos : 0 < volume.addressesPerBlock := by omega
  rw [blockMap]
  dsimp only
  generalize volume.addressesPerBlock = per at *
  have rest : 12 + per + per * per + (per * (per * high + low) + place) - 12 - per - per * per =
      per * (per * high + low) + place := by omega
  have outer : (per * (per * high + low) + place) / per = per * high + low := by
    rw [Nat.mul_add_div pos, Nat.div_eq_of_lt placeLt, Nat.add_zero]
  rw [if_neg (by omega), if_neg (by omega), if_neg (by omega), rest, ← Nat.div_div_eq_div_mul,
    outer, Nat.mul_add_div pos, Nat.div_eq_of_lt lowLt, Nat.add_zero, Nat.mul_add_mod,
    Nat.mod_eq_of_lt lowLt, Nat.mul_add_mod, Nat.mod_eq_of_lt placeLt]

/-- The first list of the triply indirect addresses has addresses of blocks that come after those of
    all the doubly indirect ones. -/
theorem exists_blockMap_triply {bal : List Nat} {place block : Nat}
    (head : (volume.triplyLists inode).head? = some bal) (found : bal[place]? = some block)
    (isUsed : block ≠ 0) :
    ∃ index, 12 + volume.addressesPerBlock + volume.addressesPerBlock * volume.addressesPerBlock +
      place ≤ index ∧ volume.blockMap inode index = some block := by
  have mem := List.mem_of_mem_head? head
  rw [triplyLists] at mem
  split at mem
  next => cases mem
  next root =>
    obtain ⟨middle, inRoot, inMiddle⟩ := List.mem_flatMap.mp mem
    obtain ⟨middleListed, middleUsed⟩ := List.mem_filter.mp inRoot
    obtain ⟨leaf, inLists, rfl⟩ := List.mem_map.mp inMiddle
    obtain ⟨leafListed, leafUsed⟩ := List.mem_filter.mp inLists
    obtain ⟨high, highLt, rfl⟩ := List.mem_map.mp middleListed
    obtain ⟨low, lowLt, rfl⟩ := List.mem_map.mp leafListed
    rw [List.mem_range] at highLt lowLt
    obtain ⟨placeLt, rfl⟩ := getElem?_getBlockAddressList found
    have rest := blockMap_triply inode highLt lowLt placeLt
    rw [used, if_neg root, Option.bind_some, used,
      if_neg (Nat.ne_of_gt (of_decide_eq_true middleUsed)), Option.bind_some, used,
      if_neg (Nat.ne_of_gt (of_decide_eq_true leafUsed)), Option.bind_some, used,
      if_neg isUsed] at rest
    exact ⟨_, by omega, rest⟩

end Located

end Volume

end Xdk.Ext2
