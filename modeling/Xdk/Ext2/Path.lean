import Xdk.Ext2.Entries

/-! # What a path leads to

A path names a directory below the root for each of its components, and in the last one a file.
`get_blocks_for_file` deletes the object of each directory on the way twice, so that only the paths
of the files in the root lead anywhere.  If a second deletion does nothing, the file of a longer
path is found as well, when no deleted entry has the name of one of the directories.
-/

namespace Xdk.Ext2

open Xdk.Lib

theorem bind_eq_ok {α β : Type} {first : Except Failure α} {next : α → Except Failure β}
    {result : β} (done : first.bind next = .ok result) :
    ∃ value, first = .ok value ∧ next value = .ok result := by
  cases first with
  | error failure => cases done
  | ok value => exact ⟨value, rfl, done⟩

/-! ## Deletion of objects -/

namespace Objects

theorem delete_of_not_mem {second : Except Failure Unit} {objects : Objects}
    {handle : Handle} (fresh : handle.object ∉ objects.deleted) :
    objects.delete second handle =
      .ok { objects with deleted := objects.deleted ++ [handle.object] } := by
  rw [delete, if_neg fresh]
  rfl

/-- When a second deletion does nothing. -/
theorem delete_ok (objects : Objects) (handle : Handle) :
    objects.delete (.ok ()) handle =
      .ok { objects with deleted := objects.deleted ++ [handle.object] } := by
  rw [delete]
  split <;> rfl

theorem eq_of_delete {second : Except Failure Unit} {objects after : Objects}
    {handle : Handle} (done : objects.delete second handle = .ok after) :
    after = { objects with deleted := objects.deleted ++ [handle.object] } := by
  rw [delete] at done
  split at done
  · cases second with
    | error => cases done
    | ok =>
      cases done
      rfl
  · cases done
    rfl

end Objects

namespace Filesystem

/-! ## The tree of directories -/

def inodeAt (fs : Filesystem) (number : Nat) : Option Inode :=
  if 0 < number ∧ number ≤ fs.totalInodeCount then
    let group := (number - 1) / fs.inodesPerGroup
    let table := getBytes fs.device (fs.bgStartOffset + 32 * group + 8) 4
    some (fs.readInode
      (fs.blockToAbsOffset table + fs.inodeSize * ((number - 1) % fs.inodesPerGroup)))
  else none

def entries (fs : Filesystem) (dir : Inode) : List Entry :=
  (entriesOf (fs.fileContent dir)).getD []

def child (fs : Filesystem) (dir : Inode) (name : List UInt8) : Option Inode :=
  (lookup (fs.entries dir) name).bind fun entry => fs.inodeAt entry.inode

def walk (fs : Filesystem) : Inode → List (List UInt8) → Option Inode
  | dir, [] => some dir
  | dir, name :: rest => (fs.child dir name).bind (fs.walk · rest)

/-- The lookups on the way: a directory, and a name that is looked up in it. -/
def visits (fs : Filesystem) : Inode → List (List UInt8) → List (Inode × List UInt8)
  | _, [] => []
  | dir, name :: rest => (dir, name) ::
    match fs.child dir name with
    | some next => fs.visits next rest
    | none => []

structure Directory (fs : Filesystem) (dir : Inode) : Prop where
  allocated : fs.Allocated dir
  unindexed : dir.flags &&& fsIndexFl = 0
  tiled : (entriesOf (fs.fileContent dir)).isSome

/-- A directory that the code can read: all its blocks can be reached, and the names fit. -/
structure Legible (fs : Filesystem) (dir : Inode) : Prop where
  near : dir.size ≤ (12 + 2 * fs.addressesPerBlock) * fs.blockSize
  named : ∀ entry ∈ fs.entries dir, entry.Named

/-- The entries with a name are all directories, and none of them is deleted. -/
def Enterable (fs : Filesystem) (dir : Inode) (name : List UInt8) : Prop :=
  ∀ entry ∈ fs.entries dir, entry.name = name → 0 < entry.inode ∧ entry.fileType = 2

structure Moderate (fs : Filesystem) : Prop where
  groups : 32 * fs.numBlockGroups < 2 ^ 32
  table : fs.inodeSize * fs.inodesPerGroup < 2 ^ 32

variable {fs : Filesystem} {dir last : Inode} {name : List UInt8} {names : List (List UInt8)}

theorem visits_append (found : fs.walk dir names = some last) (more : List (List UInt8)) :
    fs.visits dir (names ++ more) = fs.visits dir names ++ fs.visits last more := by
  induction names generalizing dir with
  | nil =>
    cases found
    rfl
  | cons name rest ih =>
    obtain ⟨next, isChild, foundRest⟩ := Option.bind_eq_some_iff.mp found
    simp only [List.cons_append, visits, isChild, ih foundRest]

/-! ## Inodes by number -/

variable {number : Nat}

/-- The size is a field of 32 bits. -/
theorem size_of_inodeAt {i : Inode} (isInode : fs.inodeAt number = some i) :
    i.size < 2 ^ 32 := by
  rw [inodeAt] at isInode
  split_ifs at isInode
  cases isInode
  exact getBytes_lt ..

theorem size_of_walk (size : dir.size < 2 ^ 32) (found : fs.walk dir names = some last) :
    last.size < 2 ^ 32 := by
  induction names generalizing dir with
  | nil =>
    cases found
    exact size
  | cons name rest ih =>
    obtain ⟨next, isChild, foundRest⟩ := Option.bind_eq_some_iff.mp found
    obtain ⟨_, _, isNext⟩ := Option.bind_eq_some_iff.mp isChild
    exact ih (size_of_inodeAt isNext) foundRest

theorem getInodeRef_eq (moderate : fs.Moderate) (n : Nat) :
    fs.getInodeRef n = asserted (fs.inodeAt n) := by
  rw [getInodeRef, inodeAt]
  split
  · rename_i inside
    have group : (n - 1) / fs.inodesPerGroup ≤ fs.numBlockGroups :=
      Nat.div_le_div_right (by omega)
    have off : fs.inodeSize * ((n - 1) % fs.inodesPerGroup) < 2 ^ 32 :=
      Nat.lt_of_le_of_lt (Nat.mul_le_mul_left _ (Nat.mod_lt _ fs.positive).le) moderate.table
    have groups := moderate.groups
    rw [getInodeTableFirstBlock, if_neg (by omega), Geometry.groupOffset, wrap_of_lt (by omega)]
    simp only [Geometry.inodePosAbs, wrap_of_lt off]
    rfl
  · rfl

/-! ## The lookup in a directory -/

theorem Directory.entriesOf_eq (directory : fs.Directory dir) :
    entriesOf (fs.fileContent dir) = some (fs.entries dir) := by
  obtain ⟨parts, parsed⟩ := Option.isSome_iff_exists.mp directory.tiled
  rw [entries, parsed]
  rfl

theorem Directory.getDirectoryEntries (directory : fs.Directory dir) (legible : fs.Legible dir) :
    fs.getDirectoryEntries dir = .ok (fs.fileContent dir) :=
  Volume.getDirectoryEntries_eq directory.allocated legible.near

/-- `find_local_directory` takes the first entry with the name, deleted or not, and for a missing
    name it uses a byte that is not of the directory. -/
theorem findLocalDirectory_eq (second : Except Failure Unit) (directory : fs.Directory dir)
    (legible : fs.Legible dir) (size : dir.size < 2 ^ 32) (ne : fs.entries dir ≠ [])
    (object : Nat) (objects : Objects) :
    fs.findLocalDirectory second name ⟨object, dir⟩ objects =
      objects.delete second ⟨object, dir⟩ >>= fun objects =>
        (fs.enter ((fs.entries dir).find? (name = ·.name))).map objects.new := by
  have parsed := directory.entriesOf_eq
  have length := fs.length_fileContent dir
  have named := legible.named
  obtain ⟨first, rest, isEntries⟩ := List.exists_cons_of_ne_nil ne
  rw [isEntries] at parsed named ⊢
  obtain ⟨_, long, inside, _⟩ := entriesFrom_cons parsed
  have few := length_entriesFrom parsed
  rw [List.length_cons] at few
  have search : fs.findFrom name (fs.fileContent dir) ((fs.fileContent dir).length + 1) 0 dir.size =
      fs.enter ((first :: rest).find? (name = ·.name)) :=
    findFrom_eq name parsed named (by omega) (show _ = first.recordLength + _ by omega) (by omega)
      size
  rw [findLocalDirectory, directory.getDirectoryEntries legible]
  show (objects.delete second ⟨object, dir⟩ >>= fun objects =>
    fs.findFrom name _ _ 0 dir.size >>= fun result => .ok (objects.new result)) = _
  rw [search]
  cases fs.enter ((first :: rest).find? (name = ·.name)) <;> rfl

/-- The lookup of a directory that can be entered. -/
theorem findLocalDirectory_of_child {next : Inode} {second : Except Failure Unit}
    (moderate : fs.Moderate)
    (directory : fs.Directory dir) (legible : fs.Legible dir) (enterable : fs.Enterable dir name)
    (size : dir.size < 2 ^ 32) (isChild : fs.child dir name = some next) (object : Nat)
    (objects : Objects) :
    fs.findLocalDirectory second name ⟨object, dir⟩ objects =
      (objects.delete second ⟨object, dir⟩).map (·.new next) := by
  obtain ⟨e, found, isNext⟩ := Option.bind_eq_some_iff.mp isChild
  obtain ⟨mem, isName⟩ := mem_of_lookup found
  have same := find?_eq_lookup fun e mem isName => (enterable e mem isName).1
  rw [findLocalDirectory_eq second directory legible size (List.ne_nil_of_mem mem), same, found,
    enter, if_pos (enterable e mem isName).2, getInodeRef_eq moderate, isNext]
  cases objects.delete second ⟨object, dir⟩ <;> rfl

/-- `locate_file` takes the first entry with the name that is not deleted. -/
theorem locateFile_eq (directory : fs.Directory dir) (legible : fs.Legible dir)
    (size : dir.size < 2 ^ 32) (filename : List UInt8) :
    fs.locateFile filename dir = fs.openFile (lookup (fs.entries dir) filename) := by
  have parsed := directory.entriesOf_eq
  have length := fs.length_fileContent dir
  have few := length_entriesFrom parsed
  rw [locateFile, if_pos directory.unindexed, directory.getDirectoryEntries legible]
  exact locateFrom_eq filename parsed legible.named (by omega) (by omega) size

theorem openFile_of_child {inode : Inode} (moderate : fs.Moderate)
    (isChild : fs.child dir name = some inode) (isFile : inode.isFile) :
    fs.openFile (lookup (fs.entries dir) name) = .ok inode := by
  obtain ⟨entry, isEntry, isNumber⟩ := Option.bind_eq_some_iff.mp isChild
  rw [isEntry, openFile, getInodeRef_eq moderate, isNumber]
  exact if_pos isFile

def dirPath (dirs : List (List UInt8)) : List UInt8 := dirs.flatMap (slash :: ·) ++ [slash]

theorem exists_dirPath (dirs : List (List UInt8)) : ∃ more, dirPath dirs = slash :: more := by
  cases dirs with
  | nil => exact ⟨[], rfl⟩
  | cons first rest => exact ⟨_, rfl⟩

def twice : Nat → Nat → List Nat
  | _, 0 => []
  | first, count + 1 => first :: first :: twice (first + 1) count

variable {dirs : List (List UInt8)}

/-- Going down one directory. -/
theorem locateDirectory_cons {second : Except Failure Unit} (oneComponent : slash ∉ name)
    (short : name.length < maxPathSize) (currentDir : Handle) (objects : Objects) :
    fs.locateDirectory second (dirPath (name :: dirs)) currentDir objects =
      fs.findLocalDirectory second name currentDir objects >>= fun found =>
        found.2.delete second currentDir >>= fun objects =>
          fs.locateDirectory second (dirPath dirs) found.1 objects := by
  obtain ⟨more, isPath⟩ := exists_dirPath dirs
  have tail : dirPath (name :: dirs) = slash :: (name ++ dirPath dirs) := by
    simp [dirPath]
  have ne : ∀ byte ∈ name, decide (byte ≠ slash) = true := fun byte mem =>
    decide_eq_true fun same => oneComponent (same ▸ mem)
  have component : (name ++ dirPath dirs).takeWhile (· ≠ slash) = name := by
    rw [List.takeWhile_append_of_pos ne, isPath]
    simp
  have rest : (name ++ dirPath dirs).dropWhile (· ≠ slash) = dirPath dirs := by
    rw [List.dropWhile_append_of_pos ne, isPath]
    simp
  rw [tail, locateDirectory, if_neg (by simp), if_neg (by simp [isPath])]
  rw [component, rest, if_neg (by simp [isPath]), if_pos short]

/-- When a second deletion does nothing, the directory of the path is found. -/
theorem locateDirectory_eq {dirs : List (List UInt8)} (moderate : fs.Moderate)
    (components : ∀ name ∈ dirs, slash ∉ name ∧ name.length < maxPathSize)
    (directories : ∀ visit ∈ fs.visits dir dirs, fs.Directory visit.1 ∧ fs.Legible visit.1 ∧
      fs.Enterable visit.1 visit.2)
    (size : dir.size < 2 ^ 32) (found : fs.walk dir dirs = some last) (object : Nat)
    (deleted : List Nat) :
    fs.locateDirectory (.ok ()) (dirPath dirs) ⟨object, dir⟩ ⟨object + 1, deleted⟩ =
      .ok (some ⟨object + dirs.length, last⟩,
        ⟨object + dirs.length + 1, deleted ++ twice object dirs.length⟩) := by
  induction dirs generalizing dir object deleted with
  | nil =>
    cases found
    rw [show dirPath [] = slash :: [] from rfl, locateDirectory]
    simp [twice]
  | cons name rest ih =>
    obtain ⟨oneComponent, short⟩ := components name (List.mem_cons_self ..)
    obtain ⟨next, isChild, foundRest⟩ := Option.bind_eq_some_iff.mp found
    obtain ⟨directory, legible, enterable⟩ := directories (dir, name) (List.mem_cons_self ..)
    obtain ⟨_, _, isNext⟩ := Option.bind_eq_some_iff.mp isChild
    rw [locateDirectory_cons oneComponent short,
      findLocalDirectory_of_child moderate directory legible enterable size isChild,
      Objects.delete_ok]
    have tail := @ih next
      (fun o mem => components o (List.mem_cons_of_mem _ mem))
      (fun visit mem => directories visit (by
        rw [visits, isChild]
        exact List.mem_cons_of_mem _ mem))
      (size_of_inodeAt isNext) foundRest (object + 1) (deleted ++ [object] ++ [object])
    show (Objects.delete (.ok ()) _ _ >>= _) = _
    rw [Objects.delete_ok]
    refine Eq.trans tail ?_
    simp only [List.length_cons, twice, List.append_assoc, List.cons_append, List.nil_append,
      Nat.add_assoc, Nat.add_comm 1]

/-! ## The path -/

def path (dirs : List (List UInt8)) (file : List UInt8) : List UInt8 :=
  dirs.flatMap (slash :: ·) ++ slash :: file

theorem tokenize_slash {before : List UInt8} (ascii : ∀ byte ∈ before, byte.toNat < 128)
    (rest dir : List UInt8) (lastSlash : Nat)
    (short : dir.length + before.length + 1 < maxPathSize) :
    tokenize (before ++ slash :: rest) lastSlash dir =
      tokenize rest (dir.length + before.length) (dir ++ before ++ [slash]) := by
  induction before generalizing dir lastSlash with
  | nil =>
    have small : dir.length + 1 < maxPathSize := by simpa using short
    rw [List.nil_append, tokenize, if_neg (by decide), if_pos small]
    simp
  | cons byte before ih =>
    have isAscii := ascii byte (List.mem_cons_self ..)
    rw [List.length_cons] at short
    rw [List.cons_append, tokenize, if_neg (by omega), if_pos (by omega),
      ih (fun o mem => ascii o (List.mem_cons_of_mem _ mem)) _ _
        (by rw [List.length_append, List.length_singleton]; omega)]
    simp only [List.length_append, List.length_cons, List.length_nil, List.append_assoc]
    congr 1
    omega

/-- What the loop sees of a path. -/
def seenPart (pathname : List UInt8) : List UInt8 := pathname.takeWhile (·.toNat < 128)

theorem seenPart_cons {byte : UInt8} (low : byte.toNat < 128) (rest : List UInt8) :
    seenPart (byte :: rest) = byte :: seenPart rest :=
  List.takeWhile_cons_of_pos (decide_eq_true low)

theorem seenPart_stop {byte : UInt8} (high : 128 ≤ byte.toNat) (rest : List UInt8) :
    seenPart (byte :: rest) = [] :=
  List.takeWhile_cons_of_neg (by simpa using high)

/-- The loop copies what it sees of the path, and there is no slash after the last one. -/
theorem tokenize_spec {pathname dir before : List UInt8} {lastSlash last : Nat}
    (none : slash ∉ before.drop (last + 1)) (room : before.length < maxPathSize)
    (tokens : tokenize pathname last before = .ok (lastSlash, dir)) :
    dir = before ++ seenPart pathname ∧ slash ∉ dir.drop (lastSlash + 1) ∧
      dir.length < maxPathSize ∧ (lastSlash = last ∨ lastSlash < dir.length) := by
  induction pathname generalizing before last with
  | nil =>
    cases tokens
    exact ⟨(List.append_nil _).symm, none, room, .inl rfl⟩
  | cons byte rest ih =>
    simp only [tokenize] at tokens
    split at tokens
    next high =>
      cases tokens
      rw [seenPart_stop high, List.append_nil]
      exact ⟨rfl, none, room, .inl rfl⟩
    next low =>
      split at tokens
      next short =>
        have after : slash ∉ (before ++ [byte]).drop
            ((if byte = slash then before.length else last) + 1) := by
          split
          next isSlash => simp
          next notSlash =>
            intro mem
            rw [List.drop_append] at mem
            obtain earlier | here := List.mem_append.mp mem
            · exact none earlier
            · have isByte := List.mem_of_mem_drop here
              rw [List.mem_singleton] at isByte
              exact notSlash isByte.symm
        obtain ⟨copied, noMore, fits, isLast⟩ := ih after (by simpa using short) tokens
        rw [List.append_assoc, List.singleton_append, ← seenPart_cons (by omega)] at copied
        refine ⟨copied, noMore, fits, ?_⟩
        rw [copied, seenPart_cons (by omega), List.length_append, List.length_cons] at isLast ⊢
        split at isLast
        · omega
        · exact isLast
      next long => cases tokens

theorem exists_tokenize_eq (oneComponent : slash ∉ name) (lastSlash : Nat) (dir : List UInt8)
    (short : dir.length + (seenPart name).length < maxPathSize) :
    ∃ more, tokenize name lastSlash dir = .ok (lastSlash, dir ++ more) := by
  induction name generalizing dir with
  | nil => exact ⟨[], by rw [tokenize, List.append_nil]⟩
  | cons byte rest ih =>
    obtain ⟨notSlash, restComponent⟩ := not_or.mp (mt List.mem_cons.mpr oneComponent)
    rw [tokenize]
    split
    · exact ⟨[], by rw [List.append_nil]⟩
    · rw [seenPart_cons (by omega), List.length_cons] at short
      rw [if_neg (Ne.symm notSlash), if_pos (by omega)]
      obtain ⟨more, tokens⟩ := ih restComponent (dir ++ [byte])
        (by rw [List.length_append, List.length_singleton]; omega)
      exact ⟨byte :: more, by rw [tokens, List.append_assoc]; rfl⟩

variable {file : List UInt8}

/-- The path is cut at its last slash. -/
theorem exists_tokenize_path (ascii : ∀ name ∈ dirs, ∀ byte ∈ name, byte.toNat < 128)
    (oneComponent : slash ∉ file)
    (short : (dirPath dirs).length + (seenPart file).length < maxPathSize) :
    ∃ lastSlash dir, tokenize (path dirs file) 0 [] = .ok (lastSlash, dir) ∧ dir ≠ [] ∧
      dir.take (lastSlash + 1) = dirPath dirs ∧ (path dirs file).drop (lastSlash + 1) = file := by
  have allAscii : ∀ byte ∈ dirs.flatMap (slash :: ·), byte.toNat < 128 := by
    intro byte mem
    obtain ⟨name, isName, inName⟩ := List.mem_flatMap.mp mem
    obtain rfl | inside := List.mem_cons.mp inName
    · decide
    · exact ascii name isName byte inside
  have len : (dirPath dirs).length = (dirs.flatMap (slash :: ·)).length + 1 := by
    rw [dirPath, List.length_append, List.length_singleton]
  obtain ⟨more, tokens⟩ := exists_tokenize_eq oneComponent (dirs.flatMap (slash :: ·)).length
    (dirPath dirs) short
  have cut := tokenize_slash allAscii file [] 0 (by rw [List.length_nil]; omega)
  rw [List.length_nil, Nat.zero_add] at cut
  refine ⟨_, _, cut.trans tokens, ?_, ?_, ?_⟩
  · simp [dirPath]
  · rw [← len, List.take_left]
  · rw [← len, path, ← List.singleton_append, ← List.append_assoc]
    exact List.drop_left

/-! ## The contract -/

structure IsName (name : List UInt8) : Prop where
  nonempty : name ≠ []
  text : 0 ∉ name
  oneComponent : slash ∉ name
  short : name.length ≤ 254

instance (name : List UInt8) : Decidable (IsName name) :=
  decidable_of_iff (name ≠ [] ∧ 0 ∉ name ∧ slash ∉ name ∧ name.length ≤ 254)
    ⟨fun ⟨nonempty, text, oneComponent, short⟩ => ⟨nonempty, text, oneComponent, short⟩,
      fun isName => ⟨isName.nonempty, isName.text, isName.oneComponent, isName.short⟩⟩

/-- What a path needs on its way, so that the code goes it as it should when a second deletion does
    nothing. -/
structure Passable (fs : Filesystem) (root : Inode) (dirs : List (List UInt8))
    (file : List UInt8) : Prop where
  short : (dirPath dirs).length + (seenPart file).length < maxPathSize
  ascii : ∀ name ∈ dirs, ∀ byte ∈ name, byte.toNat < 128
  legible : ∀ visit ∈ fs.visits root (dirs ++ [file]), fs.Legible visit.1
  enterable : ∀ visit ∈ fs.visits root dirs, fs.Enterable visit.1 visit.2

/-- When the directories of the path are found, the file is looked up in the last one. -/
theorem getBlocksForFile_eq {root : Inode} (moderate : fs.Moderate)
    (isRoot : fs.inodeAt inodeRootIndex = some root) (names : ∀ name ∈ dirs ++ [file], IsName name)
    (wellFormed : ∀ visit ∈ fs.visits root (dirs ++ [file]), fs.Directory visit.1)
    (passable : fs.Passable root dirs file) (found : fs.walk root dirs = some dir) :
    fs.getBlocksForFile (.ok ()) (path dirs file) =
      (fs.openFile (lookup (fs.entries dir) file)).map fun inode =>
        ⟨fs.getBlocksForInode inode, inode,
          ⟨dirs.length + 2, twice 0 dirs.length ++ [dirs.length]⟩⟩ := by
  have size := size_of_inodeAt isRoot
  have visited := visits_append found [file]
  have lastVisit : (dir, file) ∈ fs.visits root (dirs ++ [file]) := by
    rw [visited]
    exact List.mem_append_right _ (List.mem_cons_self ..)
  have earlier : ∀ visit ∈ fs.visits root dirs, visit ∈ fs.visits root (dirs ++ [file]) := by
    intro visit mem
    rw [visited]
    exact List.mem_append_left _ mem
  obtain ⟨lastSlash, text, tokens, ne, isDir, isFile⟩ := exists_tokenize_path passable.ascii
    (names file (by simp)).oneComponent passable.short
  have located := locateDirectory_eq moderate
    (fun name mem =>
      have isName := names name (List.mem_append_left _ mem)
      ⟨isName.oneComponent, Nat.lt_succ_of_le isName.short⟩)
    (fun visit mem => ⟨wellFormed visit (earlier visit mem),
      passable.legible visit (earlier visit mem), passable.enterable visit mem⟩)
    size found 0 []
  have opened := locateFile_eq (wellFormed _ lastVisit) (passable.legible _ lastVisit)
    (size_of_walk size found) file
  simp only [Nat.zero_add, ← isDir] at located
  rw [getBlocksForFile, tokens, getInodeRef_eq moderate, isRoot]
  simp only [asserted, bind, Except.bind, if_neg ne, Objects.new, located, isFile, opened,
    Objects.delete_ok]
  cases fs.openFile (lookup (fs.entries dir) file) <;> rfl

/-- A directory that is found has a new object, and the one that was searched is deleted. -/
theorem findLocalDirectory_new {second : Except Failure Unit} {dirname : List UInt8}
    {currentDir nextDir : Handle} {objects after : Objects}
    (found : fs.findLocalDirectory second dirname currentDir objects = .ok (nextDir, after)) :
    nextDir.object = objects.created ∧
      after = ⟨objects.created + 1, objects.deleted ++ [currentDir.object]⟩ := by
  obtain ⟨content, -, found⟩ := bind_eq_ok found
  obtain ⟨searched, isDeleted, found⟩ := bind_eq_ok found
  obtain ⟨result, -, found⟩ := bind_eq_ok found
  cases found
  rw [Objects.eq_of_delete isDeleted]
  exact ⟨rfl, rfl⟩

/-- What `locate_directory` does: it is there, or it enters a directory and deletes the one before
    again. -/
theorem locateDirectory_cases {second : Except Failure Unit} {pathname : List UInt8}
    {currentDir handle : Handle} {objects after : Objects}
    (located : fs.locateDirectory second pathname currentDir objects = .ok (some handle, after)) :
    pathname = [slash] ∧ handle = currentDir ∧ after = objects ∨
      ∃ tail nextDir again, pathname = slash :: tail ∧ nextDir.object = objects.created ∧
        Objects.delete second ⟨objects.created + 1, objects.deleted ++ [currentDir.object]⟩
          currentDir = .ok again ∧
        fs.locateDirectory second (tail.dropWhile (· ≠ slash)) nextDir again =
          .ok (some handle, after) := by
  rw [locateDirectory.eq_def] at located
  split at located
  next => cases located
  next first tail =>
    dsimp only at located
    split_ifs at located with notSlash isEmpty noSlash
    · cases located
    · cases located
      rw [not_not.mp notSlash, isEmpty]
      exact .inl ⟨rfl, rfl, rfl⟩
    · obtain ⟨⟨nextDir, found⟩, isFound, located⟩ := bind_eq_ok located
      obtain ⟨again, isDeleted, located⟩ := bind_eq_ok located
      obtain ⟨isNew, rfl⟩ := findLocalDirectory_new isFound
      rw [not_not.mp notSlash]
      exact .inr ⟨tail, nextDir, again, rfl, isNew, isDeleted, located⟩

/-- What `get_blocks_for_file` has found when it returns. -/
theorem exists_of_getBlocksForFile {second : Except Failure Unit} {pathname : List UInt8}
    {resolved : Resolved} (found : fs.getBlocksForFile second pathname = .ok resolved) :
    ∃ lastSlash dir root iDir objects iFile, tokenize pathname 0 [] = .ok (lastSlash, dir) ∧
      dir ≠ [] ∧ fs.getInodeRef inodeRootIndex = .ok root ∧
      fs.locateDirectory second (dir.take (lastSlash + 1)) ⟨0, root⟩ ⟨1, []⟩ =
        .ok (some iDir, objects) ∧
      fs.locateFile (pathname.drop (lastSlash + 1)) iDir.inode = .ok iFile ∧
      resolved.objects = ⟨objects.created + 1, objects.deleted ++ [iDir.object]⟩ := by
  obtain ⟨⟨lastSlash, dir⟩, isTokens, found⟩ := bind_eq_ok found
  dsimp only at found
  split at found
  next => cases found
  next ne =>
    obtain ⟨root, isRoot, found⟩ := bind_eq_ok found
    obtain ⟨⟨pointer, objects⟩, isLocated, found⟩ := bind_eq_ok found
    obtain ⟨iDir, isDir, found⟩ := bind_eq_ok found
    cases pointer with
    | none => cases isDir
    | some handle =>
      cases isDir
      obtain ⟨iFile, isFile, found⟩ := bind_eq_ok found
      obtain ⟨after, isDeleted, found⟩ := bind_eq_ok found
      cases found
      exact ⟨lastSlash, dir, root, iDir, objects, iFile, isTokens, ne, isRoot, isLocated, isFile,
        Objects.eq_of_delete isDeleted⟩

section Flat

variable {root : Inode} (moderate : fs.Moderate) (isRoot : fs.inodeAt inodeRootIndex = some root)
  (directory : fs.Directory root) (legible : fs.Legible root)
include moderate isRoot directory legible

/-- A file in the root is looked up, whatever a second deletion does. -/
theorem getBlocksForFile_flat (isName : IsName file)
    (short : (seenPart file).length + 1 < maxPathSize) (second : Except Failure Unit) :
    fs.getBlocksForFile second (path [] file) =
      (fs.openFile (lookup (fs.entries root) file)).map fun inode =>
        ⟨fs.getBlocksForInode inode, inode, ⟨2, [0]⟩⟩ := by
  obtain ⟨lastSlash, text, tokens, ne, isDir, isRest⟩ := @exists_tokenize_path []
    file (by simp) isName.oneComponent (by simpa [dirPath, Nat.add_comm] using short)
  have located : fs.locateDirectory second (text.take (lastSlash + 1)) ⟨0, root⟩ ⟨1, []⟩ =
      .ok (some ⟨0, root⟩, ⟨1, []⟩) := by
    rw [isDir, show dirPath [] = slash :: [] from rfl, locateDirectory]
    simp
  have opened := locateFile_eq directory legible (size_of_inodeAt isRoot) file
  have deleted : Objects.delete second ⟨2, []⟩ ⟨0, root⟩ = .ok ⟨2, [0]⟩ :=
    Objects.delete_of_not_mem List.not_mem_nil
  rw [getBlocksForFile, tokens, getInodeRef_eq moderate, isRoot]
  simp only [asserted, bind, Except.bind, if_neg ne, Objects.new, located, isRest, opened, deleted]
  cases fs.openFile (lookup (fs.entries root) file) <;> rfl

end Flat

/-- An inode of which the numbers are less than 256, up to the first direct address. -/
def inodeBytes (mode size : Nat) (block : UInt8) : List UInt8 :=
  [.ofNat mode, .ofNat (mode / 256), 0, 0, .ofNat size, .ofNat (size / 256)] ++
    List.replicate 34 0 ++ [block]

def entryBytes (inode : UInt8) (recordLength : Nat) (fileType : UInt8) (name : List UInt8) :
    List UInt8 :=
  [inode, 0, 0, 0, .ofNat recordLength, .ofNat (recordLength / 256), .ofNat name.length, fileType]
    ++ name

/-- The parts of the blocks of the sample volume that are not 0: a group descriptor, the inodes
    2, 12, 13 and 14, and three directories.  In the root, the names `d` and `f` each have a deleted
    entry and one that is not. -/
def sampleParts : Nat → List (Nat × List UInt8)
  | 2 => [(0, [0, 0, 0, 0, 0, 0, 0, 0, 5])]
  | 5 => [(128, inodeBytes 0x41ED 1024 10)]
  | 6 => [(384, inodeBytes 0x41ED 1024 11), (512, inodeBytes 0x81A4 5 12),
      (640, inodeBytes 0x41ED 1024 13)]
  | 10 => [(0, entryBytes 2 12 2 [46]), (12, entryBytes 2 12 2 [46, 46]),
      (24, entryBytes 0 12 2 [100]), (36, entryBytes 12 12 2 [100]),
      (48, entryBytes 14 12 2 [101]), (60, entryBytes 0 12 1 [102]),
      (72, entryBytes 13 952 1 [102])]
  | 11 => [(0, entryBytes 12 12 2 [46]), (12, entryBytes 2 12 2 [46, 46]),
      (24, entryBytes 13 1000 1 [102])]
  | 13 => [(0, entryBytes 14 12 2 [46]), (12, entryBytes 2 12 2 [46, 46]),
      (24, entryBytes 13 1000 1 [102])]
  | _ => []

/-- A volume with blocks of 1024 bytes in a partition that begins at 1 MiB. -/
def sampleFs : Filesystem where
  device address :=
    let offset := (address - 2 ^ 20) % 1024
    let parts := sampleParts ((address - 2 ^ 20) / 1024)
    match parts.find? fun part => part.1 ≤ offset ∧ offset < part.1 + part.2.length with
    | some part => part.2.getD (offset - part.1) 0
    | none => 0
  blockSizeLog2 := 0
  partitionStart := 2 ^ 20
  totalInodeCount := 16
  inodesPerGroup := 16
  inodeSize := 128
  positive := by decide

def sampleInodeAt (number : Nat) : Inode :=
  sampleFs.readInode (2 ^ 20 + 5120 + 128 * (number - 1))

theorem inodeAt_sample (pos : 0 < number) (small : number ≤ 16) :
    sampleFs.inodeAt number = some (sampleInodeAt number) := by
  have table : getBytes sampleFs.device (sampleFs.bgStartOffset + 32 * 0 + 8) 4 = 5 := by
    decide +kernel
  have group : (number - 1) / sampleFs.inodesPerGroup = 0 :=
    Nat.div_eq_of_lt (show number - 1 < 16 by omega)
  have place : (number - 1) % sampleFs.inodesPerGroup = number - 1 :=
    Nat.mod_eq_of_lt (show number - 1 < 16 by omega)
  rw [inodeAt, if_pos ⟨pos, small⟩]
  dsimp only
  rw [group, place]
  rfl

def sampleEntries : Nat → List Entry
  | 2 => [⟨2, 12, 1, 2, [46]⟩, ⟨2, 12, 2, 2, [46, 46]⟩, ⟨0, 12, 1, 2, [100]⟩,
      ⟨12, 12, 1, 2, [100]⟩, ⟨14, 12, 1, 2, [101]⟩, ⟨0, 12, 1, 1, [102]⟩, ⟨13, 952, 1, 1, [102]⟩]
  | number => [⟨number, 12, 1, 2, [46]⟩, ⟨2, 12, 2, 2, [46, 46]⟩, ⟨13, 1000, 1, 1, [102]⟩]

theorem entriesOf_sample : ∀ n ∈ [2, 12, 14],
    entriesOf (sampleFs.fileContent (sampleInodeAt n)) = some (sampleEntries n) := by
  decide +kernel

theorem entries_sample (mem : number ∈ [2, 12, 14]) :
    sampleFs.entries (sampleInodeAt number) = sampleEntries number := by
  rw [entries, entriesOf_sample number mem]
  rfl

theorem directory_sample {n : Nat} (mem : n ∈ [2, 12, 14]) :
    sampleFs.Directory (sampleInodeAt n) := by
  have fields : ∀ n ∈ [2, 12, 14], (sampleInodeAt n).size = 1024 ∧
      (sampleInodeAt n).flags &&& fsIndexFl = 0 ∧
      (sampleFs.blockMap (sampleInodeAt n) 0).isSome := by
    decide +kernel
  obtain ⟨size, unindexed, isSome⟩ := fields n mem
  refine ⟨fun i inside => ?_, unindexed, by rw [entriesOf_sample n mem]; rfl⟩
  rw [show sampleFs.blockSize = 1024 from rfl] at inside
  obtain rfl : i = 0 := by omega
  exact isSome

theorem legible_sample {n : Nat} (mem : n ∈ [2, 12, 14]) :
    sampleFs.Legible (sampleInodeAt n) := by
  have near : ∀ n ∈ [2, 12, 14], (sampleInodeAt n).size ≤
      (12 + 2 * sampleFs.addressesPerBlock) * sampleFs.blockSize := by
    decide +kernel
  have named : ∀ n ∈ [2, 12, 14], ∀ e ∈ sampleEntries n, e.Named := by
    decide
  refine ⟨near n mem, fun e listed => named n mem e ?_⟩
  rwa [entries_sample mem] at listed

theorem child_sample {next : Nat} {e : Entry} (mem : number ∈ [2, 12, 14])
    (found : lookup (sampleEntries number) name = some e) (isNext : e.inode = next)
    (pos : 0 < next) (small : next ≤ 16) :
    sampleFs.child (sampleInodeAt number) name = some (sampleInodeAt next) := by
  subst isNext
  rw [child, entries_sample mem, found]
  exact inodeAt_sample pos small

theorem moderate_sample : sampleFs.Moderate := ⟨by decide, by decide⟩

theorem isFile_sample : (sampleInodeAt 13).isFile := by decide +kernel

theorem root_sample : sampleFs.inodeAt inodeRootIndex = some (sampleInodeAt 2) :=
  inodeAt_sample (by decide) (by decide)

/-! The paths `/f`, `/d/f` and `/e/f` of the sample volume. -/

theorem child_sample_file {n : Nat} (mem : n ∈ [12, 14]) :
    sampleFs.child (sampleInodeAt n) [102] = some (sampleInodeAt 13) := by
  have found : ∀ n ∈ [12, 14], lookup (sampleEntries n) [102] =
      some ⟨13, 1000, 1, 1, [102]⟩ := by
    decide
  exact child_sample (List.mem_cons_of_mem _ mem) (found n mem) rfl (by decide)
    (by decide)

theorem child_sample_e : sampleFs.child (sampleInodeAt 2) [101] = some (sampleInodeAt 14) :=
  child_sample (by decide) (show _ = some ⟨14, 12, 1, 2, [101]⟩ by decide) rfl (by decide)
    (by decide)

theorem child_sample_root : sampleFs.child (sampleInodeAt 2) [102] = some (sampleInodeAt 13) :=
  child_sample (by decide) (show _ = some ⟨13, 952, 1, 1, [102]⟩ by decide) rfl (by decide)
    (by decide)

theorem visits_sample {visit : Inode × List UInt8}
    (mem : visit ∈ sampleFs.visits (sampleInodeAt 2) ([[101]] ++ [[102]])) :
    ∃ number ∈ [2, 12, 14], visit.1 = sampleInodeAt number := by
  simp only [List.cons_append, List.nil_append, visits, child_sample_e,
    child_sample_file (show 14 ∈ [12, 14] by decide), List.mem_cons, List.not_mem_nil,
    or_false] at mem
  obtain rfl | rfl := mem
  · exact ⟨2, by decide, rfl⟩
  · exact ⟨14, by decide, rfl⟩

theorem wellFormed_sample : ∀ visit ∈ sampleFs.visits (sampleInodeAt 2) ([[101]] ++ [[102]]),
    sampleFs.Directory visit.1 := by
  intro visit mem
  obtain ⟨number, listed, same⟩ := visits_sample mem
  exact same ▸ directory_sample listed

theorem passable_sample : sampleFs.Passable (sampleInodeAt 2) [[101]] [102] where
  short := by decide
  ascii := by simp
  legible := by
    intro visit mem
    obtain ⟨number, listed, same⟩ := visits_sample mem
    exact same ▸ legible_sample listed
  enterable := by
    intro visit mem
    simp only [visits, child_sample_e, List.mem_cons, List.not_mem_nil, or_false] at mem
    subst mem
    rw [Enterable, entries_sample (by decide)]
    decide

end Filesystem

end Xdk.Ext2
