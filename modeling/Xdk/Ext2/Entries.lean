import Xdk.Ext2.Content

/-! # The entries of a directory and the two loops

The content of a directory is a sequence of entries.  `locate_file` finds the first entry that is
not deleted and has the name.  `find_local_directory` finds the first entry that has the name,
deleted or not; and when there is none, it uses the length of an entry after the last one.
-/

namespace Xdk.Ext2

open Xdk.Lib

/-! ## The sequence of entries -/

structure Entry where
  inode : Nat
  recordLength : Nat
  nameLength : Nat
  fileType : Nat
  name : List UInt8
  deriving DecidableEq

def slice (content : List UInt8) (offset count : Nat) : List UInt8 :=
  (content.drop offset).take count

def entryAt (content : List UInt8) (offset : Nat) : Entry :=
  let number := getBytes (content.getD · 0)
  let nameLength := number (offset + 6) 1
  { inode := number offset 4
    recordLength := number (offset + 4) 2
    nameLength := nameLength
    fileType := number (offset + 7) 1
    name := slice content (offset + 8) nameLength }

/-- The entries from an offset on, which must fill the content to its end. -/
def entriesFrom (content : List UInt8) : Nat → Nat → Option (List Entry)
  | 0, _ => none
  | rounds + 1, offset =>
    if offset = content.length then some []
    else
      let entry := entryAt content offset
      if 8 ≤ entry.recordLength ∧ offset + entry.recordLength ≤ content.length then
        (entriesFrom content rounds (offset + entry.recordLength)).map (entry :: ·)
      else none

def entriesOf (content : List UInt8) : Option (List Entry) :=
  entriesFrom content (content.length + 1) 0

/-- The name is in the entry, has no zero and is shorter than the array it is copied to. -/
structure Entry.Named (entry : Entry) : Prop where
  inside : 8 + entry.nameLength ≤ entry.recordLength
  text : 0 ∉ entry.name
  short : entry.nameLength < DirectoryEntry.nameLen

instance (entry : Entry) : Decidable entry.Named :=
  decidable_of_iff (8 + entry.nameLength ≤ entry.recordLength ∧ 0 ∉ entry.name ∧
      entry.nameLength < DirectoryEntry.nameLen)
    ⟨fun ⟨inside, text, short⟩ => ⟨inside, text, short⟩, fun named =>
      ⟨named.inside, named.text, named.short⟩⟩

section Entries

variable {content : List UInt8} {offset rounds : Nat} {entries : List Entry}

theorem offset_of_entriesFrom_nil (parsed : entriesFrom content rounds offset = some []) :
    offset = content.length := by
  cases rounds with
  | zero => cases parsed
  | succ rounds =>
    rw [entriesFrom] at parsed
    split at parsed
    · assumption
    · simp only at parsed
      simp at parsed

theorem entriesFrom_cons {e : Entry}
    (parsed : entriesFrom content rounds offset = some (e :: entries)) :
    e = entryAt content offset ∧ 8 ≤ e.recordLength ∧
      offset + e.recordLength ≤ content.length ∧
      ∃ rounds, entriesFrom content rounds (offset + e.recordLength) = some entries := by
  cases rounds with
  | zero => cases parsed
  | succ rounds =>
    rw [entriesFrom] at parsed
    split at parsed
    · cases parsed
    · simp only at parsed
      split_ifs at parsed with fits
      obtain ⟨rest, parsedRest, same⟩ := Option.map_eq_some_iff.mp parsed
      cases same
      exact ⟨rfl, fits.1, fits.2, rounds, parsedRest⟩

theorem length_entriesFrom (parsed : entriesFrom content rounds offset = some entries) :
    offset + entries.length ≤ content.length := by
  induction entries generalizing rounds offset with
  | nil => exact Nat.le_of_eq (offset_of_entriesFrom_nil parsed)
  | cons entry rest ih =>
    obtain ⟨_, long, _, _, parsedRest⟩ := entriesFrom_cons parsed
    have := ih parsedRest
    rw [List.length_cons]
    omega

end Entries

/-! ## What the accessors return -/

namespace DirectoryEntry

variable {content : List UInt8} {offset count : Nat}

theorem byteAt_eq (inside : offset < content.length) :
    byteAt content offset = .ok content[offset] := by
  rw [byteAt, List.getElem?_eq_getElem inside]

theorem slice_succ (inside : offset < content.length) :
    slice content offset (count + 1) = content[offset] :: slice content (offset + 1) count := by
  rw [slice, List.drop_eq_getElem_cons inside]
  rfl

theorem strncpy_eq (inside : offset + count ≤ content.length)
    (text : 0 ∉ slice content offset count) :
    strncpy content offset count = .ok (slice content offset count) := by
  induction count generalizing offset with
  | zero => rfl
  | succ count ih =>
    have here : offset < content.length := by omega
    rw [slice_succ here] at text ⊢
    obtain ⟨first, rest⟩ := not_or.mp (mt List.mem_cons.mpr text)
    rw [strncpy, byteAt_eq here, ih (by omega) rest]
    exact if_neg (Ne.symm first)

/-! An entry of which the header is in the content. -/

section

variable (inside : offset + 8 ≤ content.length)
include inside

theorem getInode_eq :
    getInode content offset = .ok (entryAt content offset).inode := if_pos (by omega)

theorem getRecordLength_eq :
    getRecordLength content offset = .ok (entryAt content offset).recordLength :=
  if_pos (by omega)

theorem getFileType_eq :
    getFileType content offset = .ok (entryAt content offset).fileType := if_pos (by omega)

theorem next_eq :
    next content offset = .ok (offset + (entryAt content offset).recordLength) := by
  rw [next, getRecordLength_eq inside]
  rfl

end

theorem getName_eq (named : (entryAt content offset).Named)
    (inside : offset + (entryAt content offset).recordLength ≤ content.length) :
    getName content offset = .ok (entryAt content offset).name := by
  have fits := named.inside
  have nameLength : getNameLength content offset = .ok (entryAt content offset).nameLength :=
    if_pos (by omega)
  have name : strncpy content (offset + 8) (entryAt content offset).nameLength =
      .ok (entryAt content offset).name := strncpy_eq (by omega) named.text
  rw [getName, nameLength]
  show (strncpy content (offset + 8) (entryAt content offset).nameLength >>= _) = _
  rw [name]
  exact if_pos named.short

theorem getRecordLength_outside (outside : content.length ≤ offset) :
    getRecordLength content offset = .error .outside := if_neg (by omega)

end DirectoryEntry

/-! ## What the loops find -/

namespace Filesystem

open DirectoryEntry

variable {fs : Filesystem} {content : List UInt8} {entries : List Entry}
  {offset parsedRounds rounds size : Nat}

def enter (fs : Filesystem) : Option Entry → Except Failure Inode
  | some entry => if entry.fileType = 2 then fs.getInodeRef entry.inode else .error .assertion
  | none => .error .outside

/-- One round of `find_local_directory`. -/
theorem findFrom_succ (dirname : List UInt8) (named : (entryAt content offset).Named)
    (inside : offset + (entryAt content offset).recordLength ≤ content.length)
    (pos : 0 < size) :
    fs.findFrom dirname content (rounds + 1) offset size =
      if dirname = (entryAt content offset).name then fs.enter (some (entryAt content offset))
      else
        getRecordLength content (offset + (entryAt content offset).recordLength) >>=
          fun recordLength => fs.findFrom dirname content rounds
            (offset + (entryAt content offset).recordLength) (wrapSub 32 size recordLength) := by
  have hdr : offset + 8 ≤ content.length := by
    have := named.inside
    omega
  rw [findFrom, if_pos pos, getName_eq named inside, getFileType_eq hdr,
    getInode_eq hdr, next_eq hdr]
  rfl

/-- The loop of `find_local_directory` finds the first entry with the name.  The size it keeps is
    too large by the length of the first entry, so the loop goes on after the last entry. -/
theorem findFrom_eq {e : Entry} {extra : Nat} (dirname : List UInt8)
    (parsed : entriesFrom content parsedRounds offset = some (e :: entries))
    (named : ∀ o ∈ e :: entries, o.Named) (enough : entries.length < rounds)
    (isSize : size = extra + (content.length - (offset + e.recordLength)))
    (positive : 0 < extra) (fits : size < 2 ^ 32) :
    fs.findFrom dirname content rounds offset size =
      fs.enter ((e :: entries).find? (dirname = ·.name)) := by
  induction entries generalizing e offset parsedRounds rounds size with
  | nil =>
    obtain ⟨rfl, _, inside, _, parsedRest⟩ := entriesFrom_cons parsed
    have last := offset_of_entriesFrom_nil parsedRest
    obtain ⟨rounds, rfl⟩ := Nat.exists_eq_add_one_of_ne_zero (Nat.ne_of_gt enough)
    rw [findFrom_succ dirname (named _ (List.mem_cons_self ..)) inside (by omega),
      getRecordLength_outside (Nat.le_of_eq last.symm), List.find?_cons]
    by_cases same : dirname = (entryAt content offset).name
    · rw [if_pos same, decide_eq_true same]
    · rw [if_neg same, decide_eq_false same]
      rfl
  | cons second rest ih =>
    obtain ⟨rfl, _, inside, _, parsedRest⟩ := entriesFrom_cons parsed
    obtain ⟨isSecond, long, secondInside, _⟩ := entriesFrom_cons parsedRest
    have secondHeader : offset + (entryAt content offset).recordLength + 8 ≤ content.length := by
      omega
    obtain ⟨rounds, rfl⟩ := Nat.exists_eq_add_one_of_ne_zero (Nat.ne_zero_of_lt enough)
    rw [findFrom_succ dirname (named _ (List.mem_cons_self ..)) inside (by omega),
      getRecordLength_eq secondHeader, ← isSecond, List.find?_cons]
    by_cases same : dirname = (entryAt content offset).name
    · rw [if_pos same, decide_eq_true same]
    · rw [if_neg same, decide_eq_false same]
      have smaller : wrapSub 32 size second.recordLength = size - second.recordLength :=
        wrapSub_of_le (by omega) fits
      have tail := ih parsedRest
        (fun o mem => named o (List.mem_cons_of_mem _ mem))
        (Nat.lt_of_succ_lt_succ enough) (show size - second.recordLength = _ by omega) (by omega)
      rw [← smaller] at tail
      exact tail

def openFile (fs : Filesystem) : Option Entry → Except Failure Inode
  | some entry => do
    let result ← fs.getInodeRef entry.inode
    if result.isFile then return result
    .error .assertion
  | none => .error (.panic "locate_file: unable to locate file [%s]\n")

def lookup (entries : List Entry) (name : List UInt8) : Option Entry :=
  entries.find? fun entry => 0 < entry.inode ∧ entry.name = name

theorem mem_of_lookup {name : List UInt8} {e : Entry}
    (found : lookup entries name = some e) : e ∈ entries ∧ e.name = name := by
  refine ⟨List.mem_of_find?_eq_some found, ?_⟩
  have holds := List.find?_some (p := fun e : Entry => decide (0 < e.inode ∧ _)) found
  exact (of_decide_eq_true holds).2

/-- When no entry with the name is deleted, the first one is found. -/
theorem find?_eq_lookup {name : List UInt8}
    (live : ∀ e ∈ entries, e.name = name → 0 < e.inode) :
    entries.find? (name = ·.name) = lookup entries name := by
  induction entries with
  | nil => rfl
  | cons e rest ih =>
    have tail := ih fun o mem =>
      live o (List.mem_cons_of_mem _ mem)
    rw [lookup, List.find?_cons, List.find?_cons]
    by_cases same : e.name = name
    · rw [decide_eq_true same.symm, decide_eq_true ⟨live e (List.mem_cons_self ..) same, same⟩]
    · rw [decide_eq_false (Ne.symm same), decide_eq_false fun holds => same holds.2]
      exact tail

/-- One round of `locate_file`. -/
theorem locateFrom_succ (filename : List UInt8) (named : (entryAt content offset).Named)
    (inside : offset + (entryAt content offset).recordLength ≤ content.length)
    (pos : 0 < size) :
    fs.locateFrom filename content (rounds + 1) offset size =
      if 0 < (entryAt content offset).inode ∧ (entryAt content offset).name = filename then
        fs.openFile (some (entryAt content offset))
      else
        fs.locateFrom filename content rounds (offset + (entryAt content offset).recordLength)
          (wrapSub 32 size (entryAt content offset).recordLength) := by
  have hdr : offset + 8 ≤ content.length := by
    have := named.inside
    omega
  rw [locateFrom, if_pos pos, getInode_eq hdr, getName_eq named inside,
    getRecordLength_eq hdr, next_eq hdr]
  by_cases live : 0 < (entryAt content offset).inode
  · by_cases same : (entryAt content offset).name = filename
    · simp [bind, Except.bind, pure, Except.pure, openFile, live]
    · simp [bind, Except.bind, pure, Except.pure, same]
  · simp [bind, Except.bind, pure, Except.pure, live]

/-- The loop of `locate_file` finds the first entry with the name that is not deleted. -/
theorem locateFrom_eq (filename : List UInt8)
    (parsed : entriesFrom content parsedRounds offset = some entries)
    (named : ∀ o ∈ entries, o.Named) (enough : entries.length < rounds)
    (isSize : size = content.length - offset) (fits : size < 2 ^ 32) :
    fs.locateFrom filename content rounds offset size =
      fs.openFile (lookup entries filename) := by
  obtain ⟨rounds, rfl⟩ := Nat.exists_eq_add_one_of_ne_zero (Nat.ne_zero_of_lt enough)
  induction entries generalizing offset parsedRounds rounds size with
  | nil =>
    have last := offset_of_entriesFrom_nil parsed
    rw [locateFrom, if_neg (by omega)]
    rfl
  | cons entry rest ih =>
    obtain ⟨rfl, long, inside, _, parsedRest⟩ := entriesFrom_cons parsed
    rw [locateFrom_succ filename (named _ (List.mem_cons_self ..)) inside (by omega), lookup,
      List.find?_cons]
    by_cases found : 0 < (entryAt content offset).inode ∧ (entryAt content offset).name = filename
    · rw [if_pos found, decide_eq_true found]
    · have smaller : wrapSub 32 size (entryAt content offset).recordLength =
          content.length - (offset + (entryAt content offset).recordLength) :=
        (wrapSub_of_le (by omega) fits).trans (by omega)
      rw [List.length_cons] at enough
      obtain ⟨rounds, rfl⟩ := Nat.exists_eq_add_one_of_ne_zero (show rounds ≠ 0 by omega)
      rw [if_neg found, decide_eq_false found, smaller]
      exact ih parsedRest
        (fun o mem => named o (List.mem_cons_of_mem _ mem)) rfl (by omega) rounds
        (by omega)

end Filesystem

end Xdk.Ext2
