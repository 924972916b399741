import Mathlib.Order.Interval.Finset.Nat
import Xdk.Parasite.Areas

/-! # What a process can map

A process should get at no other physical pages than those of the areas it owns and of
the areas that were shared.  `fops_mmap` compares the offset of a request with the physical
addresses of the areas of the caller, and never looks at the length: a request is answered
with as many pages as it asks for, from the start of the area on and past its end.

The physical address is what `dma_to_phys` has made of the DMA handle.  It is the address of
the block only where devices see physical addresses.
-/

namespace Xdk.Parasite

open Xdk.Lib

def PkDmaArea.pages (area : PkDmaArea) : Set Nat :=
  Set.Ico area.page (area.page + 2 ^ area.order)

def PfnRange.pages (range : PfnRange) : Set Nat := Set.Ico range.first (range.first + range.count)

/-- The pages that a process may see: those of the listed areas that it owns or that
    their owner has shared. -/
def State.accessible (s : State) (pid : Nat) : Set Nat :=
  {page | ∃ area ∈ s.areas, (area.ownerPid = pid ∨ area.granted = true) ∧ page ∈ area.pages}

/-! ## The search -/

variable {pid : Nat} {area : PkDmaArea}

theorem getOwnedDmaArea_some {devices : List PkDevice} {addr : Nat}
    (found : getOwnedDmaArea devices pid addr = some area) :
    area ∈ devices.flatMap PkDevice.dmaAreas ∧ area.ownerPid = pid ∧ area.physAddr = addr := by
  obtain ⟨d, mem, hit⟩ := List.exists_of_findSome?_eq_some found
  have owned := List.find?_some hit
  simp only [PkDmaArea.ownedAt, Bool.and_eq_true, decide_eq_true_eq] at owned
  exact ⟨List.mem_flatMap.mpr ⟨d, mem, List.mem_of_find?_eq_some hit⟩, owned⟩

variable {vma : VmArea}

/-- A request that is accepted is answered with the pages from its offset on, as many as it
    asks for. -/
theorem fopsMmap_ok {s : State} {remapped : Bool} {range : PfnRange}
    (accepted : fopsMmap s pid vma remapped = .ok range) :
    vma.vmStart ≤ vma.vmEnd ∧ range = ⟨vma.vmPgoff, vma.pages⟩ := by
  simp only [fopsMmap] at accepted
  split at accepted
  · cases accepted
  · rename_i valid
    split at accepted
    · cases accepted
    · split_ifs at accepted
      cases accepted
      exact ⟨Nat.not_lt.mp valid, rfl⟩

/-- The offset of the request is the first page of the area. -/
theorem DirectReachable.page_eq {s : State} (run : State.DirectReachable s)
    (found : getOwnedDmaArea s.devices pid vma.phys = some area) : area.page = vma.vmPgoff := by
  obtain ⟨mem, _, starts⟩ := getOwnedDmaArea_some found
  have address := (DirectReachable.wellFormed run area mem).physAddr_eq
  refine Nat.eq_of_mul_eq_mul_right (show 0 < pageSize by decide) ?_
  rw [← address, starts, vma.phys_eq]

theorem pages_subset_accessible {s : State} (run : State.DirectReachable s)
    (found : getOwnedDmaArea s.devices pid vma.phys = some area)
    (inside : vma.pages ≤ 2 ^ area.order) :
    PfnRange.pages ⟨vma.vmPgoff, vma.pages⟩ ⊆ s.accessible pid := by
  obtain ⟨mem, owner, _⟩ := getOwnedDmaArea_some found
  rintro page ⟨lo, hi⟩
  refine ⟨area, mem, .inl owner, ?_⟩
  rw [PkDmaArea.pages, DirectReachable.page_eq run found]
  exact ⟨lo, lt_of_lt_of_le hi (Nat.add_le_add_left inside _)⟩

/-! ## A process with one area -/

/-- A number of pages that is a power of two is allocated exactly. -/
theorem allocOrder_two_pow (clzOfZero : Fin 65) {order : Nat} (small : order < 64) :
    allocOrder clzOfZero (2 ^ order) = order := by
  have pos : 2 ^ order ≠ 0 := (Nat.two_pow_pos order).ne'
  have bits : 64 - builtinClzl clzOfZero (2 ^ order) = order + 1 := by
    rw [builtinClzl, if_neg pos, Nat.log2_two_pow]
    omega
  simp [allocOrder, bits]

section OneArea

variable {pid page order address : Nat}

def oneArea (pid page order address : Nat) : PkDmaArea where
  page := page
  handle := 1
  dmaDirection := 0
  nodeId := 0
  order := order
  physAddr := address
  ownerPid := pid
  flags := 0
  granted := false

def withOneArea (pid page order address : Nat) : State where
  devices := [⟨0, ⟨0, 0, 0, 0⟩, [oneArea pid page order address]⟩]
  grants := [⟨0, 0, 0, 0⟩]
  blocks := [⟨page, order⟩]

/-- Every process can come to own an aligned block of every order. -/
theorem reaches_withOneArea (small : order < maxOrder) (aligned : page % 2 ^ order = 0)
    (memory : page < 2 ^ 52) :
    Reaches State.step
      (fun s event => s.expected event = true ∧ (address = page * pageSize → event.Direct))
      State.init (withOneArea pid page order address) := by
  have fits : 2 ^ order < 2 ^ 64 :=
    Nat.pow_lt_pow_right (by decide) (by simp only [maxOrder] at small; omega)
  let granted : State := ⟨[], [⟨0, 0, 0, 0⟩], []⟩
  let attached : State := ⟨[⟨0, ⟨0, 0, 0, 0⟩, []⟩], [⟨0, 0, 0, 0⟩], []⟩
  let answers : AllocAnswers := ⟨0, 0, true, some page, 1, address⟩
  have grants : State.init.step (.grantDevice ⟨0, 0, 0, 0⟩) = some granted := rfl
  have attaches : granted.step (.attach ⟨pid, 0⟩ ⟨0, 0, 0, 0⟩ 0) = some attached := rfl
  have exact := allocOrder_two_pow 0 (show order < 64 by simp only [maxOrder] at small; omega)
  have allocates : attached.step (.dmaAlloc 0 ⟨pid, 0⟩ (some ⟨2 ^ order, 0, 0, fits⟩) answers) =
      some (withOneArea pid page order address) := by
    simp [State.step, attached, answers, exact, dmaAllocStore, State.checkAuthority,
      isDeviceGranted, Nat.not_le.mpr small, State.addArea, newArea, withOneArea, oneArea]
  refine ((Reaches.refl.next ?_ grants).next ?_ attaches).next ⟨?_, ?_⟩ allocates
  · exact ⟨rfl, fun _ => trivial⟩
  · exact ⟨rfl, fun _ => trivial⟩
  · simp only [State.expected, AllocAnswers.honest, exact, answers, aligned, attached,
      decide_eq_true memory, decide_true, List.all_nil, Bool.and_true]
  · rintro rfl found ⟨⟩ _
    rfl

theorem reachable_withOneArea (small : order < maxOrder) (aligned : page % 2 ^ order = 0)
    (memory : page < 2 ^ 52) : State.Reachable (withOneArea pid page order address) :=
  (reaches_withOneArea small aligned memory).mono fun answered => answered.1

theorem directReachable_withOneArea (small : order < maxOrder) (aligned : page % 2 ^ order = 0)
    (memory : page < 2 ^ 52) :
    State.DirectReachable (withOneArea pid page order (page * pageSize)) :=
  (reaches_withOneArea small aligned memory).mono fun answered => ⟨answered.1, answered.2 rfl⟩

theorem accessible_withOneArea :
    (withOneArea pid page order address).accessible pid = Set.Ico page (page + 2 ^ order) := by
  ext candidate
  simp [State.accessible, State.areas, withOneArea, oneArea, PkDmaArea.pages]

theorem getOwnedDmaArea_withOneArea (vma : VmArea) :
    getOwnedDmaArea (withOneArea pid page order (vma.vmPgoff * pageSize)).devices pid vma.phys =
      some (oneArea pid page order (vma.vmPgoff * pageSize)) := by
  simp [getOwnedDmaArea, withOneArea, PkDmaArea.ownedAt, oneArea, vma.phys_eq]

/-- The process can map from its address on as much as it likes. -/
theorem fopsMmap_withOneArea {vma : VmArea} (valid : vma.vmStart ≤ vma.vmEnd) :
    fopsMmap (withOneArea pid page order (vma.vmPgoff * pageSize)) pid vma true =
      .ok ⟨vma.vmPgoff, vma.pages⟩ := by
  simp [fopsMmap, getOwnedDmaArea_withOneArea, valid]

/-- Where `dma_to_phys` may return anything, the address can be that of a page of somebody
    else. -/
theorem exists_not_isolated {vma : VmArea} (valid : vma.vmStart ≤ vma.vmEnd)
    (some : 0 < vma.pages) :
    ∃ s range, State.Reachable s ∧ fopsMmap s pid vma true = .ok range ∧
      ¬ range.pages ⊆ s.accessible pid := by
  obtain ⟨page, memory, other⟩ : ∃ page < 2 ^ 52, page ≠ vma.vmPgoff := by
    by_cases first : vma.vmPgoff = 0
    · exact ⟨1, by decide, by omega⟩
    · exact ⟨0, by decide, Ne.symm first⟩
  refine ⟨withOneArea pid page 0 (vma.vmPgoff * pageSize), _,
    reachable_withOneArea (by decide) (Nat.mod_one page) memory, fopsMmap_withOneArea valid, ?_⟩
  intro subset
  rw [accessible_withOneArea] at subset
  obtain ⟨lower, upper⟩ := subset (show vma.vmPgoff ∈ PfnRange.pages _ from
    ⟨Nat.le_refl _, Nat.lt_add_of_pos_right some⟩)
  omega

end OneArea

/-! ## Isolation -/

/-- Take a request that is accepted after some run without an IOMMU.  It is answered with
    accessible pages only, after every such run that leaves an area of this size at its offset,
    exactly if it asks for at most the pages of the area.  With any other `dma_to_phys` the first
    page may be in no area of the process. -/
theorem mmap_isolated_iff {s : State} {pid : Nat} {vma : VmArea} {range : PfnRange}
    {area : PkDmaArea} (run : State.DirectReachable s)
    (accepted : fopsMmap s pid vma true = .ok range)
    (found : getOwnedDmaArea s.devices pid vma.phys = some area) :
    ((∀ s' range' area', State.DirectReachable s' → fopsMmap s' pid vma true = .ok range' →
      getOwnedDmaArea s'.devices pid vma.phys = some area' → area'.order = area.order →
      range'.pages ⊆ s'.accessible pid) ↔
    vma.pages ≤ 2 ^ area.order) ∧
    (0 < vma.pages → ∃ s' range', State.Reachable s' ∧ fopsMmap s' pid vma true = .ok range' ∧
      ¬ range'.pages ⊆ s'.accessible pid) := by
  obtain ⟨valid, -⟩ := fopsMmap_ok accepted
  refine ⟨⟨?_, ?_⟩, exists_not_isolated valid⟩
  · intro isolated
    by_contra long
    obtain ⟨listed, _, _⟩ := getOwnedDmaArea_some found
    obtain ⟨small, aligned, _⟩ := DirectReachable.wellFormed run area listed
    rw [DirectReachable.page_eq run found] at aligned
    -- with this area and no other, the first page after it is not accessible
    have subset := isolated _ _ _ (directReachable_withOneArea small aligned vma.vmPgoff_lt)
      (fopsMmap_withOneArea valid) (getOwnedDmaArea_withOneArea vma) rfl
    rw [accessible_withOneArea] at subset
    have outside := (subset (show vma.vmPgoff + 2 ^ area.order ∈ PfnRange.pages _ from
      ⟨Nat.le_add_right _ _, Nat.add_lt_add_left (Nat.not_le.mp long) _⟩)).2
    exact absurd outside (Nat.lt_irrefl _)
  · intro inside s' range' area' run' accepted' found' sameOrder
    obtain ⟨_, rfl⟩ := fopsMmap_ok accepted'
    rw [← sameOrder] at inside
    exact pages_subset_accessible run' found' inside

/-- A process maps the one page of its area. -/
theorem mmap_isolated_one_page :
    ∃ s range, State.DirectReachable s ∧
      fopsMmap s 7 ⟨0, 4096, 1, by decide⟩ true = .ok range ∧ range.pages ⊆ s.accessible 7 := by
  let vma : VmArea := ⟨0, 4096, 1, by decide⟩
  have run : State.DirectReachable (withOneArea 7 1 0 (1 * pageSize)) :=
    directReachable_withOneArea (by decide) (by decide) (by decide)
  have accepted := @fopsMmap_withOneArea 7 1 0 vma (by decide)
  have found := @getOwnedDmaArea_withOneArea 7 1 0 vma
  have isolated := (mmap_isolated_iff run accepted found).1.mpr (by decide)
  exact ⟨_, _, run, accepted, isolated _ _ _ run accepted found rfl⟩

/-- The same process asks for two pages and gets the page after its area. -/
theorem mmap_beyond_area :
    ∃ s range, State.DirectReachable s ∧
      fopsMmap s 7 ⟨0, 8192, 1, by decide⟩ true = .ok range ∧
      2 ∈ range.pages ∧ 2 ∉ s.accessible 7 := by
  let vma : VmArea := ⟨0, 8192, 1, by decide⟩
  have valid : vma.vmStart ≤ vma.vmEnd := by decide
  refine ⟨withOneArea 7 1 0 (1 * pageSize), _,
    directReachable_withOneArea (by decide) (by decide) (by decide),
    @fopsMmap_withOneArea 7 1 0 vma valid, ⟨by decide, by decide⟩, ?_⟩
  simp [accessible_withOneArea]

end Xdk.Parasite
