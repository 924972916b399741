import Xdk.Lib.CString
import Xdk.Sysfs.AllocText

/-! # The page that a listing of allocations is written to

`dma_alloc_show` is given a buffer of one page.  It prints the line of an area into a buffer of its
own and appends it with `strcat` if the page has as many characters left.  The 0 behind the text is
not counted: a line that ends with the last byte of the page is appended, and the 0 is written
behind the page.
-/

namespace Xdk.Sysfs

open Xdk.Lib Xdk.Parasite

def tmpSize : Nat := 128

/-- The loop of `dma_alloc_show`, with `total_chars`.  It is `none` where `sprintf` would write
    behind `tmp`. -/
def showLoop (pid : Nat) : List PkDmaArea → Nat → CBuffer → Option (Nat × CBuffer)
  | [], totalChars, buf => some (totalChars, buf)
  | area :: areas, totalChars, buf =>
    if area.ownerPid ≠ pid then showLoop pid areas totalChars buf
    else
      let tmp := allocLine area
      if tmpSize ≤ tmp.length then none
      else if pageSize < totalChars + tmp.length then showLoop pid areas totalChars buf
      else (buf.strcat tmp).bind fun buf => showLoop pid areas (totalChars + tmp.length) buf

def dmaAllocShowInto (s : State) (device : Nat) (caller : Caller) (chars : Nat → Char) :
    Option (Except Errno Nat × CBuffer) := do
  let pkdev ← s.devices[device]?
  let buf : CBuffer := ⟨chars, 0⟩
  if !s.checkAuthority pkdev.pciDev caller then
    return (.error .eperm, buf)
  let (totalChars, buf) ← showLoop caller.pid pkdev.dmaAreas 0 (buf.put 0 nul)
  return (.ok totalChars, buf)

/-! ## The lines -/

theorem ne_nul_of_isHexDigit {c : Char} (digit : isHexDigit c = true) : c ≠ nul := by
  intro zero
  subst zero
  simp [isHexDigit, digitValue, nul] at digit

theorem nul_notMem_toDigits {base number : Nat} (large : 1 < base) (small : base ≤ 16) :
    nul ∉ Nat.toDigits base number := fun mem =>
  ne_nul_of_isHexDigit (isHexDigit_of_mem_toDigits large small mem) rfl

theorem nul_notMem_allocLine (area : PkDmaArea) : nul ∉ allocLine area := by
  have others : nul ≠ '0' ∧ nul ≠ 'x' ∧ nul ≠ '-' ∧ nul ≠ ' ' ∧ nul ≠ '\n' := by
    simp [nul]
  have hex : ∀ number, nul ∉ showHex number := by
    simp [showHex, nul_notMem_toDigits, others]
  have signed : nul ∉ showInt area.nodeId := by
    unfold showInt
    split <;> simp [nul_notMem_toDigits, others]
  simp [allocLine, hex, signed, nul_notMem_toDigits, others]

/-! ## The loop -/

variable {pid totalChars : Nat} {areas : List PkDmaArea} {buf : CBuffer} {text : List Char}

def ownAreas (pid : Nat) (areas : List PkDmaArea) : List PkDmaArea :=
  areas.filter fun area => area.ownerPid = pid

/-- The loop appends the lines to the string in the buffer. -/
theorem showLoop_holds (holds : buf.Holds text)
    (printable : ∀ area ∈ areas, Printable area) :
    ∃ buf', showLoop pid areas totalChars buf =
        some (totalChars + (showLines totalChars (ownAreas pid areas)).length, buf') ∧
      buf'.Holds (text ++ showLines totalChars (ownAreas pid areas)) := by
  induction areas generalizing totalChars buf text with
  | nil => exact ⟨buf, rfl, by simpa [ownAreas, showLines] using holds⟩
  | cons area areas ih =>
    have rest : ∀ other ∈ areas, Printable other := fun other mem =>
      printable other (List.mem_cons_of_mem _ mem)
    by_cases own : area.ownerPid = pid
    · have short : ¬ tmpSize ≤ (allocLine area).length := by
        have := allocLine_length_le (printable area List.mem_cons_self)
        simp only [tmpSize]
        omega
      have lines : ownAreas pid (area :: areas) = area :: ownAreas pid areas :=
        List.filter_cons_of_pos (by simpa using own)
      rw [lines, showLines, showLoop, if_neg (by simpa using own)]
      simp only [short]
      by_cases full : pageSize < totalChars + (allocLine area).length
      · simp only [full]
        exact ih holds rest
      · obtain ⟨buf', appended, holds'⟩ := holds.strcat (nul_notMem_allocLine area)
        obtain ⟨buf'', looped, holds''⟩ :=
          @ih (totalChars + (allocLine area).length) buf' _ holds' rest
        simp only [full, if_false, appended, Option.bind_some, looped]
        refine ⟨buf'', ?_, ?_⟩
        · rw [List.length_append, Nat.add_assoc]
        · rwa [List.append_assoc] at holds''
    · have lines : ownAreas pid (area :: areas) = ownAreas pid areas :=
        List.filter_cons_of_neg (by simpa using own)
      rw [lines, showLoop, if_pos own]
      exact ih holds rest

theorem dmaAllocShowInto_eq {s : State} {device : Nat} {pkdev : PkDevice} {c : Caller}
    (attached : s.devices[device]? = some pkdev)
    (authorised : s.checkAuthority pkdev.pciDev c = true)
    (printable : ∀ area ∈ pkdev.dmaAreas, Printable area) (chars : Nat → Char) :
    ∃ buf, dmaAllocShowInto s device c chars =
        some (.ok (showLines 0 (ownAreas c.pid pkdev.dmaAreas)).length, buf) ∧
      buf.Holds (showLines 0 (ownAreas c.pid pkdev.dmaAreas)) := by
  obtain ⟨buf, looped, holds⟩ :=
    @showLoop_holds c.pid 0 _ _ _ (@CBuffer.holds_put_nul chars) printable
  refine ⟨buf, ?_, holds⟩
  simp [dmaAllocShowInto, attached, authorised, looped]

/-! ## The page -/

/-- The areas that a page has room for, from the first one on, when so many characters of it are
    used: a line with the 0 behind it fits, or the area is left out. -/
inductive Shown : Nat → List PkDmaArea → List PkDmaArea → Prop where
  | nil {used : Nat} : Shown used [] []
  | take {used : Nat} {area : PkDmaArea} {areas shown : List PkDmaArea}
      (fits : used + (allocLine area).length + 1 ≤ pageSize)
      (rest : Shown (used + (allocLine area).length) areas shown) :
      Shown used (area :: areas) (area :: shown)
  | skip {used : Nat} {area : PkDmaArea} {areas shown : List PkDmaArea}
      (full : pageSize < used + (allocLine area).length + 1)
      (rest : Shown used areas shown) : Shown used (area :: areas) shown

structure Listed (areas : List PkDmaArea) (count : Nat) (buf : CBuffer) : Prop where
  inside : buf.extent ≤ pageSize
  zero : buf.chars count = nul
  text : ∃ shown, Shown 0 areas shown ∧ count = (shown.flatMap allocLine).length ∧
    ∀ index (within : index < (shown.flatMap allocLine).length),
      buf.chars index = (shown.flatMap allocLine)[index] ∧ buf.chars index ≠ nul

/-- No line ends with the last byte of the page, when the lines before it are put there as far as
    they fit. -/
def NeverFull (used : Nat) (areas : List PkDmaArea) : Prop :=
  ∀ before area after shown, areas = before ++ area :: after → Shown used before shown →
    used + (shown.flatMap allocLine).length + (allocLine area).length ≠ pageSize

section Page

variable {used : Nat} {area : PkDmaArea}

theorem allocLine_ne_nil (area : PkDmaArea) : 0 < (allocLine area).length := by
  simp [allocLine]

/-- Nothing follows a line that has filled the page. -/
theorem showLines_full (areas : List PkDmaArea) : showLines pageSize areas = [] := by
  induction areas with
  | nil => rfl
  | cons area areas ih =>
    have line := allocLine_ne_nil area
    rw [showLines, if_pos (by omega)]
    exact ih

theorem NeverFull.head (never : NeverFull used (area :: areas)) :
    used + (allocLine area).length ≠ pageSize :=
  never [] area areas [] rfl .nil

theorem neverFull_cons_take (fits : used + (allocLine area).length + 1 ≤ pageSize) :
    NeverFull used (area :: areas) ↔ NeverFull (used + (allocLine area).length) areas := by
  constructor
  · intro never before o after shown split kept
    have ends := never (area :: before) o after (area :: shown) (by rw [split]; rfl)
      (.take fits kept)
    rwa [List.flatMap_cons, List.length_append, ← Nat.add_assoc] at ends
  · intro never before o after shown split kept
    cases kept with
    | nil =>
      cases split
      simp only [List.flatMap_nil, List.length_nil]
      omega
    | take _ rest =>
      cases split
      have ends := never _ _ _ _ rfl rest
      rwa [List.flatMap_cons, List.length_append, ← Nat.add_assoc]
    | skip full _ =>
      cases split
      omega

theorem neverFull_cons_skip (full : pageSize < used + (allocLine area).length) :
    NeverFull used (area :: areas) ↔ NeverFull used areas := by
  constructor
  · intro never before o after shown split kept
    exact never (area :: before) o after shown (by rw [split]; rfl) (.skip (by omega) kept)
  · intro never before o after shown split kept
    cases kept with
    | nil | take fits _ =>
      cases split
      omega
    | skip _ rest =>
      cases split
      exact never _ _ _ _ rfl rest

/-- Either no line ends with the page, and the lines are those that there is room for; or one does,
    and the text has as many characters as the page. -/
theorem showLines_cases (lt : used < pageSize) (areas : List PkDmaArea) :
    (NeverFull used areas ∧ ∃ shown, Shown used areas shown ∧
        showLines used areas = shown.flatMap allocLine ∧
        used + (showLines used areas).length < pageSize) ∨
      (¬ NeverFull used areas ∧ used + (showLines used areas).length = pageSize) := by
  induction areas generalizing used with
  | nil =>
    left
    refine ⟨?_, [], .nil, rfl, lt⟩
    intro before area after shown split
    simp at split
  | cons area areas ih =>
    rw [showLines]
    obtain fits | ends | full := Nat.lt_trichotomy (used + (allocLine area).length) pageSize
    · rw [if_neg (by omega), neverFull_cons_take fits, List.length_append, ← Nat.add_assoc]
      obtain ⟨never, shown, kept, text, room⟩ | filled := ih fits
      · exact .inl ⟨never, area :: shown, .take fits kept, by rw [text, List.flatMap_cons], room⟩
      · exact .inr filled
    · rw [ends, showLines_full, List.append_nil]
      exact .inr ⟨fun never => never.head ends, ends⟩
    · rw [if_pos full, neverFull_cons_skip full]
      obtain ⟨never, shown, kept, text, room⟩ | filled := ih lt
      · exact .inl ⟨never, shown, .skip (by omega) kept, text, room⟩
      · exact .inr filled

/-- All lines are shown if there is room for them. -/
theorem showLines_of_le (room : used + (areas.flatMap allocLine).length ≤ pageSize) :
    showLines used areas = areas.flatMap allocLine := by
  induction areas generalizing used with
  | nil => rfl
  | cons area areas ih =>
    rw [List.flatMap_cons, List.length_append] at room
    rw [showLines, if_neg (by omega), ih (by omega), List.flatMap_cons]

end Page

/-- An authorised process gets a listing as it should be, exactly if no line of its areas ends with
    the last byte of the page. -/
theorem dma_alloc_show_listed_iff {s : State} {device : Nat} {pkdev : PkDevice} {caller : Caller}
    (attached : s.devices[device]? = some pkdev)
    (authorised : s.checkAuthority pkdev.pciDev caller = true)
    (printable : ∀ area ∈ pkdev.dmaAreas, Printable area) (chars : Nat → Char) :
    ∃ count buf, dmaAllocShowInto s device caller chars = some (.ok count, buf) ∧
      (Listed (ownAreas caller.pid pkdev.dmaAreas) count buf ↔
        NeverFull 0 (ownAreas caller.pid pkdev.dmaAreas)) := by
  obtain ⟨buf, shows, holds⟩ := dmaAllocShowInto_eq attached authorised printable chars
  refine ⟨_, buf, shows, ?_⟩
  have page : 0 < pageSize := by simp [pageSize]
  have extent := holds.extent
  constructor
  · intro listed
    have inside := listed.inside
    obtain ⟨never, _⟩ | ⟨_, filled⟩ := showLines_cases page (ownAreas caller.pid pkdev.dmaAreas)
    · exact never
    · omega
  · intro never
    obtain ⟨_, shown, kept, text, room⟩ | ⟨full, _⟩ :=
      showLines_cases page (ownAreas caller.pid pkdev.dmaAreas)
    · constructor
      · omega
      · exact holds.terminated
      · rw [text] at holds ⊢
        refine ⟨shown, kept, rfl, fun index within => ?_⟩
        have stored := holds.chars index within
        refine ⟨stored, fun zero => holds.clean ?_⟩
        rw [← zero, stored]
        exact List.getElem_mem within
    · exact absurd never full

def pageAt (physAddr : Nat) : PkDmaArea :=
  ⟨physAddr / 4096, physAddr, 0, 0, 0, physAddr, 7, 0, false⟩

def withAreas (areas : List PkDmaArea) : State where
  devices := [⟨0, ⟨0, 1, 0, 0⟩, areas⟩]
  grants := [⟨1, 0, 0, 0⟩]
  blocks := []

theorem printable_pageAt {physAddr : Nat} (fits : physAddr < 2 ^ 64) :
    Printable (pageAt physAddr) := by
  constructor
  · simp [pageAt]
  · simp [pageAt, FitsInt]
  · simp [pageAt]
  · exact fits

/-- Three areas, the second of which is of another process. -/
def threeAreas : List PkDmaArea :=
  [pageAt 0x100000, { pageAt 0x200000 with ownerPid := 8 }, pageAt 0x300000]

/-- The listing of the other two. -/
theorem dma_alloc_show_listed_two : ∃ count buf,
    dmaAllocShowInto (withAreas threeAreas) 0 ⟨7, 0⟩ (fun _ => 'a') = some (.ok count, buf) ∧
      Listed [pageAt 0x100000, pageAt 0x300000] count buf := by
  have printable : ∀ area ∈ threeAreas, Printable area := by
    simp only [threeAreas, List.forall_mem_cons]
    refine ⟨printable_pageAt (by simp), ?_, printable_pageAt (by simp), nofun⟩
    exact { printable_pageAt (show 0x200000 < 2 ^ 64 by simp) with ownerPid := by simp }
  obtain ⟨count, buf, shows, listed⟩ :=
    @dma_alloc_show_listed_iff (withAreas threeAreas) 0 _ ⟨7, 0⟩ rfl rfl printable fun _ => 'a'
  refine ⟨count, buf, shows, listed.mpr ?_⟩
  obtain ⟨never, _⟩ | ⟨_, filled⟩ := showLines_cases (show 0 < pageSize by simp [pageSize])
    (ownAreas 7 threeAreas)
  · exact never
  · exact absurd filled (by decide +kernel)

/-- The areas of 241 allocations of one page, whose lines have 4096 characters together. -/
def exactlyOnePage : List PkDmaArea :=
  pageAt 0xff000 :: (List.range 240).map fun index => pageAt (0x100000 + 4096 * index)

theorem length_exactlyOnePage : (exactlyOnePage.flatMap allocLine).length = pageSize := by
  decide +kernel

/-- The 0 behind the text is written to the byte behind the page. -/
theorem dma_alloc_show_overflows : ∃ buf,
    dmaAllocShowInto (withAreas exactlyOnePage) 0 ⟨7, 0⟩ (fun _ => 'a') =
        some (.ok pageSize, buf) ∧ buf.chars pageSize = nul ∧ buf.extent = pageSize + 1 := by
  have printable : ∀ area ∈ exactlyOnePage, Printable area := by
    intro area listed
    obtain rfl | listed := List.mem_cons.mp listed
    · exact printable_pageAt (by simp)
    · obtain ⟨index, below, rfl⟩ := List.mem_map.mp listed
      rw [List.mem_range] at below
      exact printable_pageAt (by omega)
  have own : ownAreas 7 exactlyOnePage = exactlyOnePage := by
    simp [ownAreas, exactlyOnePage, pageAt]
  obtain ⟨buf, shows, holds⟩ :=
    @dmaAllocShowInto_eq (withAreas exactlyOnePage) 0 _ ⟨7, 0⟩ rfl rfl printable fun _ => 'a'
  have length := length_exactlyOnePage
  rw [own, showLines_of_le (by omega)] at shows holds
  rw [length] at shows
  refine ⟨buf, shows, ?_, ?_⟩
  · have zero := holds.terminated
    rwa [length] at zero
  · rw [holds.extent, length]

end Xdk.Sysfs
