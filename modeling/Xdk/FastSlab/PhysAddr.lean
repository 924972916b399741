import Xdk.FastSlab.Passes

/-! # The physical addresses of the blocks

With `needs_phys_addr` the second pass stores the physical address of every block in its header.
It looks the physical address of the area up at the beginning and adds the distance of the block;
where a header is at a boundary of huge pages, it looks that header up instead and goes on from
there.  So a page of which no header is the beginning is taken for the continuation of an earlier
one.
-/

namespace Xdk.FastSlab

open Xdk.Lib Xdk.Nbb

def hugePage : Nat := 2 ^ 21

/-- The huge pages of the process, in whatever frames of the physical memory they are. -/
structure PageMap where
  frame : Nat → Nat
  frame_lt : ∀ page, frame page < 2 ^ 31

def PageMap.virtToPhys (map : PageMap) (vaddr : Nat) : Nat :=
  map.frame (vaddr / hugePage) * hugePage + vaddr % hugePage

structure PhysBase where
  phys : Nat
  aggregatedSize : Nat

def lookUp (params : Params) (map : PageMap) (vaddr : Nat) : PhysBase :=
  ⟨map.virtToPhys vaddr, wrap 32 (wrapSub 64 vaddr params.memArea)⟩

def blockPhysAddr (params : Params) (base : PhysBase) (d : Nat) : Nat :=
  wrap 64 (base.phys + wrapSub 64 (wrapSub 64 d params.memArea) base.aggregatedSize)

/-- The blocks with their physical addresses, unless an assertion fails. -/
def assignPhys (params : Params) (map : PageMap) :
    PhysBase → List Nat → Option (List (Nat × Nat))
  | _, [] => some []
  | base, header :: rest =>
    let d := header + headerSize
    let base := if header % hugePage = 0 then lookUp params map header else base
    if base.phys = 0 then none
    else (assignPhys params map base rest).map ((d, blockPhysAddr params base d) :: ·)

def buildBlocks (params : Params) (alignment fuel : Nat) : Option (List Nat) := do
  if hugePage < params.actualBlockLen then none
  if params.actualBlockLen = 0 then none
  if hugePage % params.actualBlockLen ≠ 0 ∧ hugePage < params.memLen then none
  let number ← countBlocks params alignment fuel
  if number = 0 then none
  let shape ← Shape.create (wrap 32 number)
  let blocks ← populatePass params alignment fuel params.memArea
  let _ ← populate shape blocks .init
  if blocks.length ≠ number then none
  return blocks

def createPhys (params : Params) (alignment : Nat) (map : PageMap) (fuel : Nat) :
    Option (List (Nat × Nat)) := do
  let blocks ← buildBlocks params alignment fuel
  assignPhys params map ⟨map.virtToPhys params.memArea, 0⟩ blocks

def PhysRight (params : Params) (alignment : Nat) : Prop :=
  ∀ map fuel entries, createPhys params alignment map fuel = some entries →
    ∀ entry ∈ entries, entry.2 = map.virtToPhys entry.1

/-! ## The bases -/

section Bases

variable {params : Params} {map : PageMap}

def rebase (base header : Nat) : Nat := if header % hugePage = 0 then header else base

def bases : Nat → List Nat → List (Nat × Nat)
  | _, [] => []
  | base, header :: rest => (header, rebase base header) :: bases (rebase base header) rest

/-- The block behind a header, with the address that is computed from its base. -/
def entryOf (params : Params) (map : PageMap) (pair : Nat × Nat) : Nat × Nat :=
  (pair.1 + headerSize,
    blockPhysAddr params (lookUp params map pair.2) (pair.1 + headerSize))

theorem assignPhys_cons (base hdr : Nat) (rest : List Nat) :
    assignPhys params map (lookUp params map base) (hdr :: rest) =
      if map.virtToPhys (rebase base hdr) = 0 then none
      else (assignPhys params map (lookUp params map (rebase base hdr)) rest).map
        (entryOf params map (hdr, rebase base hdr) :: ·) := by
  simp only [assignPhys, rebase]
  split <;> rfl

variable {base : Nat}

/-- What the pass computes for the blocks. -/
theorem assignPhys_eq {bs : List Nat} {entries : List (Nat × Nat)}
    (assigned : assignPhys params map (lookUp params map base) bs = some entries) :
    entries = (bases base bs).map (entryOf params map) := by
  induction bs generalizing base entries with
  | nil =>
    cases assigned
    rfl
  | cons header rest ih =>
    rw [assignPhys_cons] at assigned
    split_ifs at assigned
    obtain ⟨others, further, rfl⟩ := Option.map_eq_some_iff.mp assigned
    rw [ih further, bases, List.map_cons]

/-- The assertion holds where no page is in the first frame. -/
theorem exists_assignPhys (nonzero : ∀ vaddr, map.virtToPhys vaddr ≠ 0) (base : Nat)
    (bs : List Nat) :
    ∃ entries, assignPhys params map (lookUp params map base) bs = some entries := by
  induction bs generalizing base with
  | nil => exact ⟨[], rfl⟩
  | cons hdr rest ih =>
    obtain ⟨others, further⟩ := ih (rebase base hdr)
    rw [assignPhys_cons, if_neg (nonzero _), further]
    exact ⟨_, rfl⟩

/-- The base behind some headers: the last of them that begins a page, if there is one, and the
    beginning of the area otherwise. -/
structure IsBase (memArea : Nat) (headers : Nat → Prop) (base : Nat) : Prop where
  start : base = memArea ∨ (headers base ∧ base % hugePage = 0)
  last : ∀ header, headers header → header % hugePage = 0 → header ≤ base

/-- One header more, behind all the others. -/
theorem IsBase.rebase {memArea hdr : Nat} {before after : Nat → Prop}
    (isBase : IsBase memArea before base) (behind : ∀ o, before o → o ≤ hdr)
    (after_iff : ∀ o, after o ↔ before o ∨ o = hdr) :
    IsBase memArea after (rebase base hdr) := by
  rw [FastSlab.rebase]
  split
  · rename_i begins
    refine ⟨.inr ⟨(after_iff hdr).mpr (.inr rfl), begins⟩, fun o mem _ => ?_⟩
    obtain early | rfl := (after_iff o).mp mem
    · exact behind o early
    · exact Nat.le_refl o
  · rename_i inside
    refine ⟨isBase.start.imp_right fun found => ?_, fun o mem begins => ?_⟩
    · exact ⟨(after_iff base).mpr (.inl found.1), found.2⟩
    · obtain early | rfl := (after_iff o).mp mem
      · exact isBase.last o early begins
      · exact absurd begins inside

/-- The base of every header. -/
theorem isBase_of_mem_bases {memArea : Nat} {before rest : List Nat} {pair : Nat × Nat}
    (ordered : (before ++ rest).Pairwise (· < ·)) (isBase : IsBase memArea (· ∈ before) base)
    (mem : pair ∈ bases base rest) :
    IsBase memArea (fun header => header ∈ before ++ rest ∧ header ≤ pair.1) pair.2 := by
  induction rest generalizing base before with
  | nil => cases mem
  | cons header rest ih =>
    obtain ⟨_, behind, earlier⟩ := List.pairwise_append.mp ordered
    have later := (List.pairwise_cons.mp behind).1
    have smaller : ∀ o ∈ before, o < header :=
      fun o early => earlier o early header (List.mem_cons_self ..)
    obtain rfl | further := List.mem_cons.mp mem
    · refine isBase.rebase (fun o early => Nat.le_of_lt (smaller o early)) fun o => ?_
      constructor
      · rintro ⟨listed, le⟩
        obtain early | same := List.mem_append.mp listed
        · exact .inl early
        · obtain same | late := List.mem_cons.mp same
          · exact .inr same
          · exact absurd (later o late) (Nat.not_lt.mpr le)
      · rintro (early | rfl)
        · exact ⟨List.mem_append_left _ early, Nat.le_of_lt (smaller o early)⟩
        · exact ⟨List.mem_append_right _ (List.mem_cons_self ..), Nat.le_refl o⟩
    · rw [List.append_cons] at ordered ⊢
      refine ih ordered ?_ further
      refine isBase.rebase (fun o early => Nat.le_of_lt (smaller o early)) fun o => ?_
      simp

theorem exists_mem_bases {base hdr : Nat} {blocks : List Nat} (mem : hdr ∈ blocks) :
    ∃ o, (hdr, o) ∈ bases base blocks := by
  induction blocks generalizing base with
  | nil => cases mem
  | cons first rest ih =>
    obtain rfl | later := List.mem_cons.mp mem
    · exact ⟨_, List.mem_cons_self ..⟩
    · obtain ⟨o, found⟩ := @ih (rebase base first) later
      exact ⟨o, List.mem_cons_of_mem _ found⟩

theorem fst_mem_of_mem_bases {base : Nat} {blocks : List Nat} {pair : Nat × Nat}
    (mem : pair ∈ bases base blocks) : pair.1 ∈ blocks := by
  induction blocks generalizing base with
  | nil => cases mem
  | cons first rest ih =>
    obtain rfl | later := List.mem_cons.mp mem
    · exact List.mem_cons_self ..
    · exact List.mem_cons_of_mem _ (ih later)

end Bases

/-! ## One block -/

section Addresses

variable {params : Params} {map : PageMap}

def boundary (vaddr : Nat) : Nat := vaddr / hugePage * hugePage

theorem le_boundary {lo vaddr : Nat} (begins : lo % hugePage = 0) (below : lo ≤ vaddr) :
    lo ≤ boundary vaddr := by
  obtain ⟨pages, rfl⟩ := Nat.dvd_of_mod_eq_zero begins
  rw [Nat.mul_comm hugePage]
  exact Nat.mul_le_mul_right _ ((Nat.le_div_iff_mul_le (by decide)).mpr (by rwa [Nat.mul_comm]))

theorem virtToPhys_lt (map : PageMap) (vaddr : Nat) : map.virtToPhys vaddr < 2 ^ 52 := by
  have frame := map.frame_lt (vaddr / hugePage)
  have off : vaddr % hugePage < hugePage := Nat.mod_lt _ (by decide)
  simp only [PageMap.virtToPhys, hugePage] at frame off ⊢
  omega

/-- Within a page the distance is the same as in the virtual memory. -/
theorem virtToPhys_of_boundary_le {base vaddr : Nat} (inPage : boundary vaddr ≤ base)
    (le : base ≤ vaddr) :
    map.virtToPhys vaddr = map.virtToPhys base + (vaddr - base) := by
  have same : base / hugePage = vaddr / hugePage := by
    refine Nat.le_antisymm (Nat.div_le_div_right le) ?_
    exact (Nat.le_div_iff_mul_le (by decide)).mpr inPage
  have whole := Nat.div_add_mod base hugePage
  have parts := Nat.div_add_mod vaddr hugePage
  rw [PageMap.virtToPhys, PageMap.virtToPhys, same]
  rw [same] at whole
  omega

/-- What is computed from a base. -/
theorem blockPhysAddr_eq {base d : Nat} (start : params.memArea ≤ base) (below : base ≤ d)
    (short : d < 2 ^ 63) :
    blockPhysAddr params (lookUp params map base) d =
      map.virtToPhys base + (d - params.memArea - (base - params.memArea) % 2 ^ 32) := by
  have phys := virtToPhys_lt map base
  have distance : wrapSub 64 d params.memArea = d - params.memArea :=
    wrapSub_of_le (by omega) (by omega)
  have aggregated : wrapSub 64 base params.memArea = base - params.memArea :=
    wrapSub_of_le start (by omega)
  simp only [blockPhysAddr, lookUp, distance, aggregated, wrap]
  rw [wrapSub_of_le (by omega) (by omega), Nat.mod_eq_of_lt (by omega)]

/-- The page in which the block begins is the page of the area's beginning, or it begins with a
    header up to that of the block and less than 4 GB into the area. -/
def InReach (params : Params) (blocks : List Nat) (header : Nat) : Prop :=
  boundary (header + headerSize) ≤ params.memArea ∨
    (boundary (header + headerSize) ∈ blocks ∧ boundary (header + headerSize) ≤ header ∧
      boundary (header + headerSize) < params.memArea + 2 ^ 32)

variable {blocks : List Nat} {header base : Nat}

theorem boundary_mod (vaddr : Nat) : boundary vaddr % hugePage = 0 := Nat.mul_mod_left _ _

/-- A base is in the area up to the block, and it begins a page or the area. -/
theorem IsBase.le_boundary_or
    (isBase : IsBase params.memArea (fun o => o ∈ blocks ∧ o ≤ header) base) :
    base = params.memArea ∨
      (base ∈ blocks ∧ base ≤ header ∧ base ≤ boundary (header + headerSize)) := by
  refine isBase.start.imp_right fun ⟨⟨mem, le⟩, begins⟩ => ⟨mem, le, ?_⟩
  exact le_boundary begins (Nat.le_trans le (Nat.le_add_right _ _))

theorem entry_right (inside : ∀ o ∈ blocks, params.memArea ≤ o)
    (short : header + headerSize < 2 ^ 63) (mem : header ∈ blocks)
    (isBase : IsBase params.memArea (fun o => o ∈ blocks ∧ o ≤ header) base)
    (reach : InReach params blocks header) :
    blockPhysAddr params (lookUp params map base) (header + headerSize) =
      map.virtToPhys (header + headerSize) := by
  have area := inside header mem
  have start := isBase.le_boundary_or
  have begins : params.memArea ≤ base := by
    obtain rfl | ⟨listed, _⟩ := start
    · exact Nat.le_refl _
    · exact inside base listed
  have le : base ≤ header + headerSize := by omega
  have inPage : boundary (header + headerSize) ≤ base := by
    obtain same | ⟨listed, before, _⟩ := reach
    · exact Nat.le_trans same begins
    · exact isBase.last _ ⟨listed, before⟩ (boundary_mod _)
  have few : base - params.memArea < 2 ^ 32 := by
    obtain same | ⟨_, _, close⟩ := reach <;> omega
  rw [blockPhysAddr_eq begins le short, Nat.mod_eq_of_lt few,
    virtToPhys_of_boundary_le inPage le]
  omega

def PageMap.moved (moved : Option Nat) : PageMap where
  frame := fun page => if moved = some page then 2 else 1
  frame_lt := by
    intro page
    split <;> decide

theorem moved_ne_zero (moved : Option Nat) (vaddr : Nat) :
    (PageMap.moved moved).virtToPhys vaddr ≠ 0 := by
  simp only [PageMap.virtToPhys, PageMap.moved, hugePage]
  split <;> omega

/-- Moving the page of an address moves the address, and no address of another page. -/
theorem virtToPhys_moved (page vaddr : Nat) :
    (PageMap.moved (some page)).virtToPhys vaddr =
      (PageMap.moved none).virtToPhys vaddr + if vaddr / hugePage = page then hugePage else 0 := by
  simp only [PageMap.virtToPhys, PageMap.moved, Option.some.injEq, reduceCtorEq, if_false,
    eq_comm]
  split <;> omega

/-- A block out of reach gets a wrong address under some page map. -/
theorem exists_entry_wrong (inside : ∀ o ∈ blocks, params.memArea ≤ o)
    (short : header + headerSize < 2 ^ 63)
    (isBase : IsBase params.memArea (fun o => o ∈ blocks ∧ o ≤ header) base)
    (reach : ¬ InReach params blocks header) :
    ∃ moved, blockPhysAddr params (lookUp params (.moved moved) base) (header + headerSize) ≠
      (PageMap.moved moved).virtToPhys (header + headerSize) := by
  have start := isBase.le_boundary_or
  rw [InReach, not_or] at reach
  obtain ⟨later, far⟩ := reach
  obtain earlier | inPage := Nat.lt_or_ge base (boundary (header + headerSize))
  · -- the page of the block is not the page of its base and may be anywhere
    have apart : base / hugePage ≠ (header + headerSize) / hugePage := by
      intro same
      have reach := Nat.div_mul_le_self base hugePage
      rw [same] at reach
      exact Nat.not_lt.mpr reach earlier
    by_cases right : blockPhysAddr params (lookUp params (.moved none) base)
        (header + headerSize) = (PageMap.moved none).virtToPhys (header + headerSize)
    · refine ⟨some ((header + headerSize) / hugePage), ?_⟩
      rw [lookUp, virtToPhys_moved, if_neg apart, Nat.add_zero, ← lookUp,
        virtToPhys_moved, if_pos rfl]
      simp only [hugePage]
      omega
    · exact ⟨none, right⟩
  · -- the page begins with the base, too far into the area
    obtain rfl | ⟨listed, before, within⟩ := start
    · exact absurd inPage later
    · have same : boundary (header + headerSize) = base := Nat.le_antisymm inPage within
      rw [same] at far later
      have long : params.memArea + 2 ^ 32 ≤ base := by
        by_contra close
        exact far ⟨listed, before, Nat.not_le.mp close⟩
      have le : base ≤ header + headerSize := by omega
      refine ⟨none, ?_⟩
      rw [blockPhysAddr_eq (inside base listed) le short,
        virtToPhys_of_boundary_le (Nat.le_of_eq same) le]
      omega

end Addresses

/-! ## The constructor -/

section Constructor

variable {params : Params} {alignment : Nat} {fuel : Nat}

theorem buildBlocks_spec {blocks : List Nat}
    (built : buildBlocks params alignment fuel = some blocks) :
    params.actualBlockLen ≤ hugePage ∧ 0 < params.actualBlockLen ∧
      populatePass params alignment fuel params.memArea = some blocks := by
  simp only [buildBlocks] at built
  split at built
  · cases built
  rename_i small
  split at built
  · cases built
  rename_i pos
  split at built
  · cases built
  obtain ⟨number, _, built⟩ := Option.bind_eq_some_iff.mp built
  split at built
  · cases built
  obtain ⟨shape, _, built⟩ := Option.bind_eq_some_iff.mp built
  obtain ⟨others, populated, built⟩ := Option.bind_eq_some_iff.mp built
  obtain ⟨_, _, built⟩ := Option.bind_eq_some_iff.mp built
  split at built
  · cases built
  cases built
  exact ⟨Nat.not_lt.mp small, Nat.pos_of_ne_zero pos, populated⟩

/-- The headers of the blocks are those of the second pass. -/
theorem blocks_of_buildBlocks (typed : params.Typed) (used : params.useAlignment = some alignment)
    {bs : List Nat} (built : buildBlocks params alignment fuel = some bs) :
    bs = passHeaders params alignment params.memArea ∧ 0 < params.actualBlockLen ∧
      ∀ hdr ∈ bs, hdr + headerSize < params.memEnd := by
  obtain ⟨small, pos, populated⟩ := buildBlocks_spec built
  have short := alignment_lt typed used
  have memory := typed.memory
  have area : params.memArea ≤ params.memEnd := Nat.le_add_right _ _
  have straight : Straight params alignment params.memArea := by
    have reach := place_le alignment params.memArea
    simp only [Straight, hugePage] at small reach ⊢
    omega
  obtain ⟨same, lt⟩ := (populatePass_iff typed short pos straight le_rfl bs).mp ⟨_, populated⟩
  exact ⟨same, pos, lt⟩

theorem memArea_le_of_mem_passHeaders {header : Nat}
    (mem : header ∈ passHeaders params alignment params.memArea) : params.memArea ≤ header := by
  obtain ⟨index, _, rfl⟩ := List.mem_range'.mp mem
  have behind := lt_place alignment params.memArea
  omega

theorem pairwise_passHeaders (pos : 0 < params.actualBlockLen) :
    (passHeaders params alignment params.memArea).Pairwise (· < ·) :=
  List.pairwise_lt_range' _ (passStride_pos pos)

theorem lookUp_memArea (typed : params.Typed) (map : PageMap) :
    lookUp params map params.memArea = ⟨map.virtToPhys params.memArea, 0⟩ := by
  have memory := typed.memory
  have area : params.memArea ≤ params.memEnd := Nat.le_add_right _ _
  have none : wrapSub 64 params.memArea params.memArea = 0 := by
    rw [wrapSub_of_le (Nat.le_refl _) (by omega), Nat.sub_self]
  rw [lookUp, none]
  rfl

theorem createPhys_eq_some_iff (typed : params.Typed) {map : PageMap} {entries : List (Nat × Nat)} :
    createPhys params alignment map fuel = some entries ↔
      ∃ bs, buildBlocks params alignment fuel = some bs ∧
        assignPhys params map (lookUp params map params.memArea) bs = some entries := by
  rw [lookUp_memArea typed]
  exact Option.bind_eq_some_iff

theorem isBase_of_mem_bases_memArea (pos : 0 < params.actualBlockLen) {pair : Nat × Nat}
    (mem : pair ∈ bases params.memArea (passHeaders params alignment params.memArea)) :
    IsBase params.memArea (fun hdr =>
      hdr ∈ passHeaders params alignment params.memArea ∧ hdr ≤ pair.1) pair.2 := by
  have none : IsBase params.memArea (· ∈ []) params.memArea :=
    ⟨.inl rfl, fun _ listed => by cases listed⟩
  exact isBase_of_mem_bases (pairwise_passHeaders pos) none mem

/-- Where the constructor completes, every block has the right physical address whatever frames
    the pages are in, exactly if the page in which a block begins is the page of the area's
    beginning or begins with the header of that block or an earlier one, less than 4 GB into the
    area. -/
theorem phys_right_iff (params : Params) (typed : params.Typed) {alignment : Nat}
    (used : params.useAlignment = some alignment) {map : PageMap} {fuel : Nat}
    {entries : List (Nat × Nat)} (created : createPhys params alignment map fuel = some entries) :
    PhysRight params alignment ↔
      ∀ header ∈ passHeaders params alignment params.memArea,
        InReach params (passHeaders params alignment params.memArea) header := by
  have memory := typed.memory
  constructor
  · intro right header member
    by_contra reach
    obtain ⟨blocks, built, _⟩ := (createPhys_eq_some_iff typed).mp created
    obtain ⟨rfl, positive, below⟩ := blocks_of_buildBlocks typed used built
    obtain ⟨base, found⟩ := @exists_mem_bases params.memArea _ _ member
    have last := below header member
    obtain ⟨moved, wrong⟩ := exists_entry_wrong (fun _ => memArea_le_of_mem_passHeaders)
      (by omega) (isBase_of_mem_bases_memArea positive found) reach
    obtain ⟨others, assigned⟩ := @exists_assignPhys params _ (moved_ne_zero moved) params.memArea
      (passHeaders params alignment params.memArea)
    have listed : entryOf params (.moved moved) (header, base) ∈ others := by
      rw [assignPhys_eq assigned]
      exact List.mem_map_of_mem found
    exact wrong (right _ _ _ ((createPhys_eq_some_iff typed).mpr ⟨_, built, assigned⟩) _ listed)
  · intro reach map fuel entries created entry listed
    obtain ⟨blocks, built, assigned⟩ := (createPhys_eq_some_iff typed).mp created
    obtain ⟨rfl, positive, below⟩ := blocks_of_buildBlocks typed used built
    rw [assignPhys_eq assigned] at listed
    obtain ⟨pair, found, rfl⟩ := List.mem_map.mp listed
    have member := fst_mem_of_mem_bases found
    have last := below pair.1 member
    exact entry_right (fun _ => memArea_le_of_mem_passHeaders) (by omega) member
      (isBase_of_mem_bases_memArea positive found) (reach pair.1 member)

end Constructor

def threePages : Params := ⟨2 ^ 21, 3 * 2 ^ 21, 2 ^ 20 - 64, 0⟩

/-- Two blocks in each of three pages, the second of which is in a frame before the others. -/
theorem phys_right_threePages :
    threePages.useAlignment = some 0 ∧
      (∃ entries, createPhys threePages 0 (.moved (some 2)) 8 = some entries ∧
        entries.length = 6) ∧ PhysRight threePages 0 := by
  have typed : threePages.Typed := by constructor <;> decide
  have used : threePages.useAlignment = some 0 := by decide
  have created : ∃ entries ∈ createPhys threePages 0 (.moved (some 2)) 8, entries.length = 6 := by
    decide +kernel
  refine ⟨used, created, ?_⟩
  obtain ⟨entries, created, -⟩ := created
  refine (phys_right_iff threePages typed used created).mpr ?_
  simp only [InReach]
  decide +kernel

/-- Two such blocks across a boundary that is not the beginning of a block. -/
def acrossPages : Params := ⟨2 ^ 21 + 3 * 2 ^ 19, 2 ^ 21, 2 ^ 20 - 64, 0⟩

/-- The second block begins in the second page.  Its frame is the one before that of the first
    page, but the address computed for the block is behind the first page. -/
theorem phys_wrong_acrossPages :
    acrossPages.Typed ∧ acrossPages.useAlignment = some 0 ∧
      createPhys acrossPages 0 (.moved (some 1)) 4 =
        some [(3670080, 5767232), (4718656, 6815808)] ∧
      (PageMap.moved (some 1)).virtToPhys 4718656 = 2621504 ∧ ¬ PhysRight acrossPages 0 := by
  have typed : acrossPages.Typed := by constructor <;> decide
  have created : createPhys acrossPages 0 (.moved (some 1)) 4 =
      some [(3670080, 5767232), (4718656, 6815808)] := by
    decide +kernel
  refine ⟨typed, by decide, created, by decide, fun right => ?_⟩
  exact absurd (right _ _ _ created (4718656, 6815808) (by decide)) (by decide)

end Xdk.FastSlab
