import Xdk.Lib.Numerals
import Xdk.Parasite.EntryPoints

/-! # The text of a DMA allocation

`alloc_dma_pages` of the user library writes a request to the file `dma_page_alloc` and then reads
the file to learn which area it got.  The kernel prints one line for each area of the process,
with the owner and the physical address in hexadecimal and the node and the order in decimal.  The
library switches its stream to hexadecimal before the first number, and the stream stays so.
-/

namespace Xdk.Sysfs

open Xdk.Lib Xdk.Parasite

/-! ## The kernel -/

def showInt (value : Int) : List Char :=
  if value < 0 then '-' :: Nat.toDigits 10 value.natAbs else Nat.toDigits 10 value.natAbs

def showHex (value : Nat) : List Char := '0' :: 'x' :: Nat.toDigits 16 value

def allocLine (area : PkDmaArea) : List Char :=
  showHex area.ownerPid ++ ' ' :: (showInt area.nodeId ++ ' ' :: (Nat.toDigits 10 area.order ++
    ' ' :: (showHex area.physAddr ++ ['\n'])))

/-- The lines of the areas of the caller, as many as fit into a page. -/
def showLines : Nat → List PkDmaArea → List Char
  | _, [] => []
  | totalChars, area :: rest =>
    let line := allocLine area
    if pageSize < totalChars + line.length then showLines totalChars rest
    else line ++ showLines (totalChars + line.length) rest

def dmaAllocText (s : State) (device : Nat) (caller : Caller) :
    Option (Except Errno (List Char)) :=
  (dmaAllocShow s device caller).map (Except.map (showLines 0))

/-! ## The library -/

def FitsInt (value : Int) : Prop := -2 ^ 31 ≤ value ∧ value < 2 ^ 31

instance (value : Int) : Decidable (FitsInt value) := inferInstanceAs (Decidable (_ ∧ _))

def readInt (text : List Char) : Option (Int × List Char) := do
  let (negative, magnitude, rest) ← readHex text
  let value : Int := if negative then -magnitude else magnitude
  if FitsInt value then some (value, rest) else none

def readAddr (text : List Char) : Option (Nat × List Char) := do
  let (negative, magnitude, rest) ← readHex text
  let value := if negative then (2 ^ 64 - magnitude) % 2 ^ 64 else magnitude
  if magnitude < 2 ^ 64 then some (value, rest) else none

structure AllocRecord where
  owner : Int
  numa : Int
  order : Int
  paddr : Nat
deriving DecidableEq

/-- The numbers that `alloc_dma_pages` reads, `none` if the stream fails. -/
def readAllocation (text : List Char) : Option AllocRecord := do
  let (owner, text) ← readInt text
  let (numa, text) ← readInt text
  let (order, text) ← readInt text
  let (paddr, _) ← readAddr text
  return ⟨owner, numa, order, paddr⟩

/-! ## Reading a line -/

/-- The ranges of the fields of `pk_dma_area`; an order is below `MAX_ORDER`. -/
structure InRange (area : PkDmaArea) : Prop where
  ownerPid : area.ownerPid < 2 ^ 31
  nodeId : FitsInt area.nodeId
  order : area.order < maxOrder
  physAddr : area.physAddr < 2 ^ 64

def recordOf (area : PkDmaArea) : AllocRecord :=
  ⟨area.ownerPid, area.nodeId, area.order, area.physAddr⟩

structure OneDigit (area : PkDmaArea) : Prop where
  nodeId : -10 < area.nodeId ∧ area.nodeId < 10
  order : area.order < 10

theorem space_ends (rest : List Char) : ∀ c ∈ (' ' :: rest).head?, Ends c := by
  rintro c ⟨⟩
  exact ⟨by decide, by decide, by decide⟩

theorem readHex_showHex {value : Nat} {rest : List Char} {c : Char}
    (ends : isHexDigit c = false) :
    readHex (showHex value ++ c :: rest) = some (false, value, c :: rest) := by
  have read := @readHex_mark (Nat.toDigits 16 value) (c :: rest) Nat.toDigits_ne_nil
    (fun _ => isHexDigit_of_mem_toDigits (by decide) (by decide)) (by simpa using ends)
  rwa [valueOf_toDigits (by decide) (by decide)] at read

def misread (value : Nat) : Nat := valueOf 16 (Nat.toDigits 10 value)

theorem misread_eq_iff (v : Nat) : misread v = v ↔ v < 10 :=
  valueOf_toDigits_eq_iff (by decide) (by decide) (by decide)

def misreadInt (value : Int) : Int :=
  if value < 0 then -misread value.natAbs else misread value.natAbs

theorem misreadInt_eq_iff (v : Int) : misreadInt v = v ↔ -10 < v ∧ v < 10 := by
  have same := misread_eq_iff v.natAbs
  unfold misreadInt
  split <;> omega

variable {area : PkDmaArea} {text rest : List Char} {negative : Bool} {magnitude : Nat}

theorem readInt_of_readHex {v : Int} (read : readHex text = some (negative, magnitude, rest))
    (signed : (if negative then -(magnitude : Int) else magnitude) = v) :
    readInt text = if FitsInt v then some (v, rest) else none := by
  subst signed
  simp only [readInt, read, Option.bind_eq_bind, Option.bind_some]

theorem readInt_showHex {v : Nat} (fits : v < 2 ^ 31) :
    readInt (showHex v ++ ' ' :: rest) = some ((v : Int), ' ' :: rest) := by
  have inside : FitsInt (v : Int) := ⟨by omega, by omega⟩
  rw [readInt_of_readHex (readHex_showHex (by decide)) (if_neg Bool.false_ne_true),
    if_pos inside]

theorem readInt_showInt {v : Int} :
    readInt (' ' :: (showInt v ++ ' ' :: rest)) =
      if FitsInt (misreadInt v) then some (misreadInt v, ' ' :: rest) else none := by
  unfold showInt misreadInt
  split
  · have read := @readHex_minus (Nat.toDigits 10 v.natAbs) (' ' :: rest) Nat.toDigits_ne_nil
      (fun _ => isHexDigit_of_mem_toDigits (by decide) (by decide)) (space_ends rest)
    exact readInt_of_readHex ((readHex_space _).trans read) (if_pos rfl)
  · have read := @readHex_toDigits 10 v.natAbs (' ' :: rest) (by decide) (by decide)
      (space_ends rest)
    exact readInt_of_readHex ((readHex_space _).trans read) (if_neg Bool.false_ne_true)

theorem readInt_order (small : area.order < maxOrder) :
    readInt (' ' :: (Nat.toDigits 10 area.order ++ ' ' :: rest)) =
      some ((misread area.order : Int), ' ' :: rest) := by
  have inside : FitsInt (misread area.order : Int) := by
    generalize area.order = order at small
    rw [maxOrder] at small
    interval_cases order <;> decide
  have read := @readHex_toDigits 10 area.order (' ' :: rest) (by decide) (by decide)
    (space_ends rest)
  rw [readInt_of_readHex ((readHex_space _).trans read) (if_neg Bool.false_ne_true)]
  exact if_pos inside

theorem readAddr_showHex {v : Nat} (fits : v < 2 ^ 64) :
    readAddr (' ' :: (showHex v ++ '\n' :: rest)) = some (v, '\n' :: rest) := by
  have read := @readHex_showHex v rest '\n' (by decide)
  simp only [readAddr, readHex_space, read, Option.bind_eq_bind, Option.bind_some,
    Bool.false_eq_true, if_false, if_pos fits]

/-- What is read for a line. -/
theorem readAllocation_line (inRange : InRange area) (rest : List Char) :
    readAllocation (allocLine area ++ rest) =
      if FitsInt (misreadInt area.nodeId) then
        some ⟨area.ownerPid, misreadInt area.nodeId, misread area.order, area.physAddr⟩
      else none := by
  have text : allocLine area ++ rest = showHex area.ownerPid ++ ' ' ::
      (showInt area.nodeId ++ ' ' :: (Nat.toDigits 10 area.order ++
        ' ' :: (showHex area.physAddr ++ '\n' :: rest))) := by
    simp [allocLine]
  simp only [text, readAllocation, readInt_showHex inRange.ownerPid, Option.bind_eq_bind,
    Option.bind_some, readInt_showInt]
  split
  · simp only [Option.bind_some, readInt_order inRange.order, readAddr_showHex inRange.physAddr]
    rfl
  · rfl

/-- A line is read back to the same record exactly if its decimal numbers have one digit. -/
theorem readAllocation_line_iff (inRange : InRange area) :
    readAllocation (allocLine area ++ rest) = some (recordOf area) ↔ OneDigit area := by
  have node := misreadInt_eq_iff area.nodeId
  have order := misread_eq_iff area.order
  rw [readAllocation_line inRange]
  constructor
  · intro read
    split_ifs at read
    have same := Option.some.inj read
    simp only [recordOf, AllocRecord.mk.injEq, Int.ofNat_inj] at same
    exact ⟨node.mp same.2.1, order.mp same.2.2.1⟩
  · intro single
    rw [node.mpr single.nodeId, order.mpr single.order, if_pos inRange.nodeId]
    rfl

/-! ## The lines of a list -/

structure Printable (area : PkDmaArea) : Prop where
  ownerPid : area.ownerPid < 2 ^ 32
  nodeId : FitsInt area.nodeId
  order : area.order < 2 ^ 64
  physAddr : area.physAddr < 2 ^ 64

theorem InRange.printable (inRange : InRange area) : Printable area where
  ownerPid := Nat.lt_trans inRange.ownerPid (by simp)
  nodeId := inRange.nodeId
  order := Nat.lt_trans inRange.order (by simp [maxOrder])
  physAddr := inRange.physAddr

theorem allocLine_length_le (printable : Printable area) : (allocLine area).length ≤ 63 := by
  have owner : (Nat.toDigits 16 area.ownerPid).length ≤ 8 :=
    (Nat.length_toDigits_le_iff (by decide) (by decide)).mpr printable.ownerPid
  have node : (Nat.toDigits 10 area.nodeId.natAbs).length ≤ 10 := by
    have bounds := printable.nodeId
    rw [FitsInt] at bounds
    exact (Nat.length_toDigits_le_iff (by decide) (by decide)).mpr (by omega)
  have order : (Nat.toDigits 10 area.order).length ≤ 20 :=
    (Nat.length_toDigits_le_iff (by decide) (by decide)).mpr
      (Nat.lt_trans printable.order (by decide))
  have address : (Nat.toDigits 16 area.physAddr).length ≤ 16 :=
    (Nat.length_toDigits_le_iff (by decide) (by decide)).mpr printable.physAddr
  have signed : (showInt area.nodeId).length ≤ 11 := by
    unfold showInt
    split
    · rw [List.length_cons]
      omega
    · omega
  simp only [allocLine, showHex, List.length_append, List.length_cons, List.length_nil]
  omega

/-- The text consists of the lines of some of the areas, in order. -/
theorem showLines_eq (totalChars : Nat) (areas : List PkDmaArea) :
    ∃ shown : List PkDmaArea, shown.Sublist areas ∧
      showLines totalChars areas = shown.flatMap allocLine := by
  induction areas generalizing totalChars with
  | nil => exact ⟨[], .slnil, rfl⟩
  | cons area areas ih =>
    rw [showLines]
    split
    · obtain ⟨shown, part, text⟩ := ih totalChars
      exact ⟨shown, part.cons area, text⟩
    · obtain ⟨shown, part, text⟩ := ih (totalChars + (allocLine area).length)
      exact ⟨area :: shown, part.cons_cons area, by rw [text, List.flatMap_cons]⟩

/-! ## Right after an allocation -/

variable {s s' : State} {device : Nat} {caller : Caller} {request : Option AllocRequest}
  {answers : AllocAnswers}

/-- The area that a successful call makes is the first one of the device. -/
theorem dmaAllocStore_ok
    (stored : dmaAllocStore s device caller request answers = some (.ok (), s')) :
    ∃ pkdev numbers page, s.devices[device]? = some pkdev ∧ request = some numbers ∧
      answers.page = some page ∧ s.checkAuthority pkdev.pciDev caller = true ∧
      s'.grants = s.grants ∧
      s'.devices[device]? = some { pkdev with
        dmaAreas := newArea caller numbers answers
          (allocOrder answers.clzOfZero numbers.numPages) page :: pkdev.dmaAreas } := by
  obtain ⟨pkdev, attached, stored⟩ := Option.bind_eq_some_iff.mp stored
  split at stored
  · cases stored
  rename_i authorised
  cases request with
  | none => cases stored
  | some numbers =>
    dsimp only at stored
    split at stored
    · cases stored
    split at stored
    · cases stored
    generalize obtained : answers.page = access at stored
    cases access with
    | none =>
      cases stored
    | some page =>
      dsimp only at stored
      split at stored
      · cases stored
      · cases stored
        refine ⟨pkdev, numbers, page, attached, rfl, rfl, by simpa using authorised, rfl, ?_⟩
        simp [State.addArea, attached]

theorem dmaAllocText_eq {pkdev : PkDevice} (attached : s.devices[device]? = some pkdev)
    (authorised : s.checkAuthority pkdev.pciDev caller = true) :
    dmaAllocText s device caller =
      some (.ok (showLines 0 (pkdev.dmaAreas.filter fun area => area.ownerPid = caller.pid))) := by
  simp only [dmaAllocText, dmaAllocShow, attached, Option.bind_eq_bind, Option.bind_some,
    authorised]
  rfl

/-- The first line describes the area that has just been allocated. -/
theorem dmaAllocText_after_store
    (stored : dmaAllocStore s device caller request answers = some (.ok (), s')) :
    ∃ numbers page, request = some numbers ∧ answers.page = some page ∧
      ∀ area, area = newArea caller numbers answers
          (allocOrder answers.clzOfZero numbers.numPages) page → InRange area →
        ∃ rest, dmaAllocText s' device caller = some (.ok (allocLine area ++ rest)) := by
  obtain ⟨pkdev, numbers, page, attached, given, obtained, authorised, grants, first⟩ :=
    dmaAllocStore_ok stored
  refine ⟨numbers, page, given, obtained, fun area made inRange => ?_⟩
  have still : s'.checkAuthority pkdev.pciDev caller = true := by
    rw [State.checkAuthority, grants]
    exact authorised
  have fits : (allocLine area).length ≤ pageSize :=
    Nat.le_trans (allocLine_length_le inRange.printable) (by simp [pageSize])
  have owner : area.ownerPid = caller.pid := made ▸ rfl
  rw [← made] at first
  refine ⟨showLines (0 + (allocLine area).length)
    (pkdev.dmaAreas.filter fun area => area.ownerPid = caller.pid), ?_⟩
  have own : (area :: pkdev.dmaAreas).filter (fun area => area.ownerPid = caller.pid) =
      area :: pkdev.dmaAreas.filter fun area => area.ownerPid = caller.pid :=
    List.filter_cons_of_pos (decide_eq_true owner)
  rw [dmaAllocText_eq first still, own, showLines, if_neg (by omega)]

/-- What is read for a line is what was printed exactly if the node and the order have one digit;
    a text consists of lines, and the first one after an allocation is that of the new area. -/
theorem alloc_text_round_trip_iff {area : PkDmaArea} (inRange : InRange area) :
    (∀ rest, readAllocation (allocLine area ++ rest) = some (recordOf area) ↔ OneDigit area) ∧
    (∀ totalChars areas, ∃ shown : List PkDmaArea, shown.Sublist areas ∧
      showLines totalChars areas = shown.flatMap allocLine) ∧
    ∀ s s' device caller request answers,
      dmaAllocStore s device caller request answers = some (.ok (), s') →
      ∃ numbers page, request = some numbers ∧ answers.page = some page ∧
        (area = newArea caller numbers answers
            (allocOrder answers.clzOfZero numbers.numPages) page →
          ∃ rest, dmaAllocText s' device caller = some (.ok (allocLine area ++ rest)) ∧
            (readAllocation (allocLine area ++ rest) = some (recordOf area) ↔ OneDigit area)) := by
  refine ⟨fun rest => readAllocation_line_iff inRange, showLines_eq, ?_⟩
  intro s s' device caller request answers stored
  obtain ⟨numbers, page, given, obtained, shows⟩ := dmaAllocText_after_store stored
  refine ⟨numbers, page, given, obtained, fun made => ?_⟩
  obtain ⟨rest, text⟩ := shows area made inRange
  exact ⟨rest, text, readAllocation_line_iff inRange⟩

def grantedState : State := ⟨[⟨0, ⟨0, 0, 0, 0⟩, []⟩], [⟨0, 0, 0, 1000⟩], []⟩

def smallRequest : AllocRequest := ⟨16, 0, 0, by decide⟩

def allocAnswers : AllocAnswers := ⟨0, 0, true, some 0x40000, 0x40000000, 0x40000000⟩

/-- Sixteen pages on node 0: the line is read back as it was printed. -/
theorem alloc_text_round_trip_small :
    ∃ s' text, dmaAllocStore grantedState 0 ⟨1234, 1000⟩ (some smallRequest) allocAnswers =
        some (.ok (), s') ∧
      dmaAllocText s' 0 ⟨1234, 1000⟩ = some (.ok text) ∧
      readAllocation text = some ⟨1234, 0, 4, 0x40000000⟩ := by
  obtain ⟨s', stored⟩ : ∃ s', dmaAllocStore grantedState 0 ⟨1234, 1000⟩ (some smallRequest)
      allocAnswers = some (.ok (), s') := ⟨_, rfl⟩
  have inRange : InRange (newArea ⟨1234, 1000⟩ smallRequest allocAnswers
      (allocOrder allocAnswers.clzOfZero smallRequest.numPages) 0x40000) :=
    ⟨by decide, ⟨by decide, by decide⟩, by decide, by decide⟩
  obtain ⟨numbers, page, given, obtained, shows⟩ :=
    (alloc_text_round_trip_iff inRange).2.2 _ _ _ _ _ _ stored
  cases given
  cases obtained
  obtain ⟨rest, text, read⟩ := shows rfl
  exact ⟨s', _, stored, text, read.mpr ⟨⟨by decide, by decide⟩, by decide⟩⟩

/-- With 1024 pages the order is 10, and it is read as 16. -/
theorem alloc_text_misread :
    ∃ s' text, dmaAllocStore grantedState 0 ⟨1234, 1000⟩ (some ⟨1024, 0, 0, by decide⟩)
        allocAnswers = some (.ok (), s') ∧
      s'.areas.map PkDmaArea.order = [10] ∧
      dmaAllocText s' 0 ⟨1234, 1000⟩ = some (.ok text) ∧
      readAllocation text = some ⟨1234, 0, 16, 0x40000000⟩ :=
  ⟨_, _, rfl, rfl, rfl, by decide +kernel⟩

end Xdk.Sysfs
