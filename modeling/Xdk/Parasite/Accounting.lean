import Xdk.Parasite.Isolation

/-! # What becomes of the page blocks

A block that `alloc_pages` has handed out should be recorded in the list of some device
until it is given back.  The calls of `__free_pages` in `dma_free_store`, in
`free_dma_memory` and in `pk_device_cleanup` are disabled, and `dma_alloc_store` has none
on the path on which `dma_map_page` fails, so no block is ever given back: a record that
is removed leaves its block behind.

`step_effect` sorts the steps by what they do to the blocks and to the records.  Since no
block comes back, a block that is lost stays lost, and a run has its blocks in order at
its end exactly if none of its steps has lost one.
-/

namespace Xdk.Parasite

open Xdk.Lib

def PkDmaArea.block (area : PkDmaArea) : Block := ⟨area.page, area.order⟩

def FreeRequest.releases (request : FreeRequest) (pid : Nat) (area : PkDmaArea) : Bool :=
  area.ownerPid = pid && (request.freeAll || area.physAddr = request.physAddr)

namespace State

def listedBlocks (s : State) : List Block := s.areas.map PkDmaArea.block

/-- The blocks obtained and not given back are those of the listed areas, each as often as
    it is listed. -/
def Accounted (s : State) : Prop := s.blocks.Perm s.listedBlocks

/-- Whether a call loses a block: the DMA mapping of a new block fails, or a record is
    removed. -/
def leaks (s : State) : Event → Bool
  | .dmaAlloc device caller (some request) answers =>
    (s.devices[device]?.any fun pkdev => s.checkAuthority pkdev.pciDev caller) &&
      allocOrder answers.clzOfZero request.numPages < maxOrder && answers.record &&
      answers.page.isSome && answers.handle = 0
  | .dmaFree device caller request =>
    s.devices[device]?.any fun pkdev => s.checkAuthority pkdev.pciDev caller &&
      pkdev.dmaAreas.any (request.releases caller.pid)
  | .freeDmaMemory device caller =>
    s.devices[device]?.any fun pkdev => pkdev.dmaAreas.any fun area => area.ownerPid = caller.pid
  | .detach minor =>
    (s.devices.find? fun pkdev => pkdev.minor = minor).any fun pkdev => pkdev.dmaAreas ≠ []
  | _ => false

end State

/-! ## The lists -/

/-- A change to one device changes one stretch of the list of all areas. -/
theorem areas_modify {devices : List PkDevice} {i : Nat} {pkdev : PkDevice}
    (attached : devices[i]? = some pkdev) :
    ∃ front back, devices.flatMap PkDevice.dmaAreas = front ++ (pkdev.dmaAreas ++ back) ∧
      ∀ update : PkDevice → PkDevice,
        (devices.modify i update).flatMap PkDevice.dmaAreas =
          front ++ ((update pkdev).dmaAreas ++ back) := by
  obtain ⟨lt, rfl⟩ := List.getElem?_eq_some_iff.mp attached
  refine ⟨(devices.take i).flatMap PkDevice.dmaAreas,
    (devices.drop (i + 1)).flatMap PkDevice.dmaAreas, ?_, fun update => ?_⟩
  · have split := List.take_append_drop i devices
    rw [List.drop_eq_getElem_cons lt] at split
    rw [← List.flatMap_cons, ← List.flatMap_append, split]
  · rw [List.modify_eq_take_cons_drop lt]
    simp

theorem map_modify_of_forall {α β : Type*} {view : α → β} {update : α → α}
    (same : ∀ x, view (update x) = view x) (list : List α) (i : Nat) :
    (list.modify i update).map view = list.map view := by
  apply List.ext_getElem?
  intro position
  rw [List.getElem?_map, List.getElem?_map, List.getElem?_modify, Option.map_eq_map, Option.map_map]
  congr 1
  funext x
  split
  · exact same x
  · rfl

/-- The loop of `dma_free_store` leaves the list alone exactly if it finds nothing. -/
theorem freeAreas_eq_self_iff (req : FreeRequest) (pid : Nat) (areas : List PkDmaArea) :
    freeAreas pid req.physAddr req.freeAll areas = areas ↔
      areas.any (req.releases pid) = false := by
  induction areas with
  | nil => simp [freeAreas]
  | cons area rest ih =>
    have shorter := (freeAreas_sublist pid req.physAddr req.freeAll rest).length_le
    simp only [freeAreas, List.any_cons, Bool.or_eq_false_iff, ← ih,
      FreeRequest.releases]
    split_ifs with foreign found all
    · simp [foreign]
    · refine iff_of_false (fun same => ?_) (by simp_all)
      have := congrArg List.length same
      simp only [List.length_cons] at this
      omega
    · refine iff_of_false (fun same => ?_) (by simp_all)
      have := congrArg List.length same
      simp only [List.length_cons] at this
      omega
    · simp_all

/-! ## One step -/

inductive Effect (s s' : State) : Bool → Prop where
  | quiet (blocks : s'.blocks = s.blocks) (listed : s'.listedBlocks = s.listedBlocks) :
      Effect s s' false
  | allocated (block : Block) (blocks : s'.blocks = block :: s.blocks)
      (listed : s'.listedBlocks.Perm (block :: s.listedBlocks)) : Effect s s' false
  | unmapped (block : Block) (blocks : s'.blocks = block :: s.blocks)
      (listed : s'.listedBlocks = s.listedBlocks) : Effect s s' true
  | released (blocks : s'.blocks = s.blocks) (fewer : s'.areas.Sublist s.areas)
      (removed : s'.areas ≠ s.areas) : Effect s s' true

variable {s : State}

/-- A change of the lists that can only remove records. -/
theorem Effect.of_sublist {s' : State} {leak : Bool} (blocks : s'.blocks = s.blocks)
    (fewer : s'.areas.Sublist s.areas) (leak_iff : leak = false ↔ s'.areas = s.areas) :
    Effect s s' leak := by
  cases leak with
  | false => exact .quiet blocks (congrArg (List.map PkDmaArea.block) (leak_iff.mp rfl))
  | true => exact .released blocks fewer fun same => Bool.noConfusion (leak_iff.mpr same)

section Step

variable {s s' : State} {device : Nat} {caller : Caller} {result : Except Errno Unit}

theorem leaks_dmaAlloc_iff {numbers : AllocRequest} {answers : AllocAnswers} :
    s.leaks (.dmaAlloc device caller (some numbers) answers) = true ↔
      (∃ page, AllocDemand s device caller numbers answers page) ∧ answers.handle = 0 := by
  simp only [State.leaks, Bool.and_eq_true, Option.any_eq_true, decide_eq_true_eq,
    Option.isSome_iff_exists]
  constructor
  · rintro ⟨⟨⟨⟨authorised, small⟩, record⟩, page, obtained⟩, unmapped⟩
    exact ⟨⟨page, authorised, small, record, obtained⟩, unmapped⟩
  · rintro ⟨⟨page, authorised, small, record, obtained⟩, unmapped⟩
    exact ⟨⟨⟨⟨authorised, small⟩, record⟩, page, obtained⟩, unmapped⟩

theorem dmaAllocStore_effect {req : Option AllocRequest} {answers : AllocAnswers}
    (stored : dmaAllocStore s device caller req answers = some (result, s')) :
    Effect s s' (s.leaks (.dmaAlloc device caller req answers)) := by
  cases dmaAllocStore_outcome stored with
  | refused early =>
    have leak : s.leaks (.dmaAlloc device caller req answers) = false := by
      cases req with
      | none => rfl
      | some numbers =>
        refine Bool.eq_false_iff.mpr fun leak => ?_
        obtain ⟨⟨page, demand⟩, _⟩ := leaks_dmaAlloc_iff.mp leak
        exact early numbers page rfl demand
    rw [leak]
    exact .quiet rfl rfl
  | unmapped numbers page given demand unmapped =>
    subst given
    rw [leaks_dmaAlloc_iff.mpr ⟨⟨page, demand⟩, unmapped⟩]
    exact .unmapped _ rfl rfl
  | recorded numbers page given demand mapped =>
    subst given
    have leak : s.leaks (.dmaAlloc device caller (some numbers) answers) = false :=
      Bool.eq_false_iff.mpr fun leak => mapped (leaks_dmaAlloc_iff.mp leak).2
    rw [leak]
    refine .allocated _ rfl ?_
    obtain ⟨pkdev, attached, _⟩ := demand.authorised
    obtain ⟨front, back, before, after⟩ := areas_modify attached
    rw [State.listedBlocks, State.listedBlocks, State.areas, State.areas, State.addArea, after,
      before]
    exact List.perm_middle.map PkDmaArea.block

/-- One list is replaced by a part of it. -/
theorem modify_effect {pkdev : PkDevice} {kept : List PkDmaArea} {leak : Bool}
    {update : PkDevice → PkDevice} (attached : s.devices[device]? = some pkdev)
    (updated : (update pkdev).dmaAreas = kept) (fewer : kept.Sublist pkdev.dmaAreas)
    (leak_iff : leak = false ↔ kept = pkdev.dmaAreas) :
    Effect s { s with devices := s.devices.modify device update } leak := by
  obtain ⟨front, back, before, after⟩ := areas_modify attached
  refine .of_sublist rfl ?_ ?_
  · rw [State.areas, State.areas, after, before, updated]
    exact (fewer.append (List.Sublist.refl back)).append_left front
  · rw [State.areas, State.areas, after, before, updated, List.append_cancel_left_eq,
      List.append_cancel_right_eq]
    exact leak_iff

theorem dmaFreeStore_effect {req : FreeRequest}
    (stored : dmaFreeStore s device caller req = some (result, s')) :
    Effect s s' (s.leaks (.dmaFree device caller req)) := by
  obtain ⟨pkdev, attached, stored⟩ := Option.bind_eq_some_iff.mp stored
  split_ifs at stored with refused
  · cases stored
    simp_all [State.leaks, Effect.quiet]
  · cases stored
    refine modify_effect attached rfl (freeAreas_sublist _ _ _ _) ?_
    rw [freeAreas_eq_self_iff]
    simp_all [State.leaks]

theorem freeDmaMemory_effect (s : State) (device : Nat) (c : Caller) :
    Effect s (freeDmaMemory s device c) (s.leaks (.freeDmaMemory device c)) := by
  cases attached : s.devices[device]? with
  | none =>
    have same : freeDmaMemory s device c = s := by
      rw [freeDmaMemory, List.modify_eq_self (List.getElem?_eq_none_iff.mp attached)]
    rw [same]
    exact .of_sublist rfl (List.Sublist.refl _) (by simp [State.leaks, attached])
  | some pkdev =>
    refine modify_effect attached rfl List.filter_sublist ?_
    simp [State.leaks, attached]

theorem detachStore_effect (s : State) (minor : Nat) :
    Effect s (s.detachStore minor) (s.leaks (.detach minor)) := by
  refine .of_sublist rfl (List.eraseP_sublist.flatMap _) ?_
  simp only [State.leaks, State.detachStore, State.areas]
  cases found : s.devices.find? fun pkdev => decide (pkdev.minor = minor) with
  | none =>
    rw [List.eraseP_of_forall_not (List.find?_eq_none.mp found)]
    simp
  | some pkdev =>
    obtain ⟨named, front, back, split, others⟩ := List.find?_eq_some_iff_append.mp found
    have erased : s.devices.eraseP (fun pkdev => decide (pkdev.minor = minor)) = front ++ back := by
      rw [split, List.eraseP_append_right _ (by simpa using others)]
      simp [named]
    rw [erased, split]
    simp

theorem updateOwnedDmaArea_blocks (pid addr : Nat) (devices : List PkDevice) :
    ((updateOwnedDmaArea pid addr PkDmaArea.share devices).flatMap PkDevice.dmaAreas).map
      PkDmaArea.block = (devices.flatMap PkDevice.dmaAreas).map PkDmaArea.block := by
  rw [List.map_flatMap, List.map_flatMap, List.flatMap_def]
  congr 1
  have shares : ∀ area : PkDmaArea, area.share.block = area.block := fun _ => rfl
  exact map_modify_of_forall (fun d => map_modify_of_forall shares d.dmaAreas _) _ _

theorem grantAccessStore_effect {physAddr : Option Nat}
    (stored : grantAccessStore s device caller physAddr = some (result, s')) :
    Effect s s' false := by
  obtain ⟨pkdev, attached, stored⟩ := Option.bind_eq_some_iff.mp stored
  split at stored
  · cases stored
    exact .quiet rfl rfl
  cases physAddr with
  | none =>
    cases stored
    exact .quiet rfl rfl
  | some physAddr =>
    dsimp only at stored
    split at stored
    · cases stored
      exact .quiet rfl rfl
    · cases stored
      exact .quiet rfl (updateOwnedDmaArea_blocks _ _ _)

theorem step_effect {ev : Event} (step : s.step ev = some s') :
    Effect s s' (s.leaks ev) := by
  cases ev with
  | grantDevice grant =>
    cases step
    exact .quiet rfl rfl
  | attach c pciDev minor =>
    cases step
    simp only [State.probe]
    split <;> exact .quiet rfl rfl
  | detach minor =>
    cases step
    exact detachStore_effect s minor
  | dmaAlloc d c req answers =>
    obtain ⟨⟨res, s''⟩, stored, rfl⟩ := Option.map_eq_some_iff.mp step
    exact dmaAllocStore_effect stored
  | dmaFree d c req =>
    obtain ⟨⟨res, s''⟩, stored, rfl⟩ := Option.map_eq_some_iff.mp step
    exact dmaFreeStore_effect stored
  | freeDmaMemory d c =>
    cases step
    exact freeDmaMemory_effect s d c
  | grantAccess d c physAddr =>
    obtain ⟨⟨res, s''⟩, stored, rfl⟩ := Option.map_eq_some_iff.mp step
    exact grantAccessStore_effect stored

end Step

/-! ## Every run -/

def State.Lost (s : State) (lost : List Block) : Prop := s.blocks.Perm (s.listedBlocks ++ lost)

theorem State.Lost.accounted_iff {lost : List Block} (split : s.Lost lost) :
    s.Accounted ↔ lost = [] := by
  constructor
  · intro accounted
    have lengths := (accounted.symm.trans split).length_eq
    rw [List.length_append] at lengths
    exact List.eq_nil_of_length_eq_zero (by omega)
  · rintro rfl
    simpa [State.Lost, State.Accounted] using split

/-- A step that leaks loses one block or more, and every other step keeps the ones that
    are lost. -/
theorem Effect.lost {s' : State} {leak : Bool} {lost : List Block} (effect : Effect s s' leak)
    (split : s.Lost lost) :
    ∃ more, s'.Lost (more ++ lost) ∧ (more = [] ↔ leak = false) := by
  cases effect with
  | quiet blocks listed => exact ⟨[], by rwa [State.Lost, blocks, listed], by simp⟩
  | allocated block blocks listed =>
    refine ⟨[], ?_, by simp⟩
    rw [State.Lost, blocks]
    exact (split.cons block).trans (listed.symm.append_right lost)
  | unmapped block blocks listed =>
    refine ⟨[block], ?_, by simp⟩
    rw [State.Lost, blocks, listed]
    exact (split.cons block).trans List.perm_middle.symm
  | released blocks fewer removed =>
    obtain ⟨gone, areas⟩ := fewer.exists_perm_append
    refine ⟨gone.map PkDmaArea.block, ?_, ?_⟩
    · have listed : s.listedBlocks.Perm (s'.listedBlocks ++ gone.map PkDmaArea.block) := by
        simpa [State.listedBlocks] using areas.map PkDmaArea.block
      rw [State.Lost, blocks, ← List.append_assoc]
      exact split.trans (listed.append_right lost)
    · simp only [List.map_eq_nil_iff, Bool.true_eq_false, iff_false]
      rintro rfl
      rw [List.append_nil] at areas
      exact removed (fewer.eq_of_length areas.length_eq.symm)

variable {allowed : State → Event → Prop}

/-- A run that has lost nothing has no step that leaks. -/
theorem exists_lost (run : Reaches State.step allowed State.init s) :
    ∃ lost, s.Lost lost ∧ (lost = [] →
      Reaches State.step (fun s ev => allowed s ev ∧ s.leaks ev = false) State.init s) := by
  refine run.invariant (motive := fun s => ∃ lost, s.Lost lost ∧ (lost = [] →
    Reaches State.step (fun s ev => allowed s ev ∧ s.leaks ev = false) State.init s))
    ⟨[], .refl _, fun _ => .refl⟩ ?_
  rintro before after ev ⟨lost, split, clean⟩ permitted step
  obtain ⟨more, split', more_iff⟩ := (step_effect step).lost split
  refine ⟨more ++ lost, split', fun none => ?_⟩
  obtain ⟨noMore, noneBefore⟩ := List.append_eq_nil_iff.mp none
  exact .next (clean noneBefore) ⟨permitted, more_iff.mp noMore⟩ step

theorem accounted_of_no_leak
    (run : Reaches State.step (fun s ev => allowed s ev ∧ s.leaks ev = false) State.init s) :
    s.Accounted := by
  refine run.invariant (motive := State.Accounted) (.refl _) ?_
  intro before after ev accounted kept step
  have split : before.Lost [] := by simpa [State.Lost, State.Accounted] using accounted
  obtain ⟨more, split', more_iff⟩ := (step_effect step).lost split
  rw [more_iff.mpr kept.2] at split'
  exact split'.accounted_iff.mpr rfl

/-- After every run, whatever is expected of the kernel, the blocks obtained and not given back
    are those of the listed areas exactly if the run consists of steps that lose none: no
    `dma_map_page` fails for a new block, and no call removes a record. -/
theorem page_blocks_accounted_iff {s : State} {allowed : State → Event → Prop}
    (run : Reaches State.step allowed State.init s) :
    s.Accounted ↔
      Reaches State.step (fun s event => allowed s event ∧ s.leaks event = false) State.init s := by
  refine ⟨fun accounted => ?_, accounted_of_no_leak⟩
  obtain ⟨lost, split, clean⟩ := exists_lost run
  exact clean (split.accounted_iff.mp accounted)

/-- One page is allocated and recorded. -/
theorem page_blocks_accounted_one_page :
    ∃ s, State.Reachable s ∧ s.areas.length = 1 ∧ Reaches State.step
      (fun s event => s.expected event = true ∧ s.leaks event = false) State.init s := by
  have run : State.Reachable (withOneArea 7 1 0 4096) :=
    reachable_withOneArea (by decide) (by decide) (by decide)
  exact ⟨_, run, rfl, (page_blocks_accounted_iff run).mp (.refl _)⟩

/-- The page is released, and its block is in no list and not given back. -/
theorem page_block_lost_by_free :
    ∃ s, State.Reachable s ∧ s.areas = [] ∧ s.blocks = [⟨1, 0⟩] ∧ ¬ s.Accounted := by
  have run : State.Reachable (withOneArea 7 1 0 4096) :=
    reachable_withOneArea (by decide) (by decide) (by decide)
  have frees : (withOneArea 7 1 0 4096).step (.dmaFree 0 ⟨7, 0⟩ (.address 4096)) =
      some ⟨[⟨0, ⟨0, 0, 0, 0⟩, []⟩], [⟨0, 0, 0, 0⟩], [⟨1, 0⟩]⟩ := by decide
  refine ⟨_, .next run rfl frees, rfl, rfl, fun accounted => ?_⟩
  exact absurd accounted.length_eq (by decide)

end Xdk.Parasite
