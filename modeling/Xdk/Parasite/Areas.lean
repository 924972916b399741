import Mathlib.Tactic.SplitIfs
import Xdk.Parasite.Module

/-! # Where the listed areas come from

`step_areas` says once what a step can do to the lists of areas: an area that is listed
after a step was listed before it, possibly without the mark of having been shared, or it
was made by `dma_alloc_store` in this step.  What every listed area has in common follows
from that by induction over the run.
-/

namespace Xdk.Parasite

open Xdk.Lib

theorem mem_of_mem_modify {α : Type*} {list : List α} {i : Nat} {update : α → α} {x : α}
    (mem : x ∈ list.modify i update) :
    x ∈ list ∨ ∃ old, list[i]? = some old ∧ x = update old := by
  obtain ⟨p, atPosition⟩ := List.mem_iff_getElem?.mp mem
  rw [List.getElem?_modify] at atPosition
  obtain ⟨old, listed, rfl⟩ := Option.map_eq_some_iff.mp atPosition
  by_cases same : i = p
  · subst same
    exact .inr ⟨old, listed, if_pos rfl⟩
  · rw [if_neg same]
    exact .inl (List.mem_of_getElem? listed)

variable {devices : List PkDevice} {area : PkDmaArea}

theorem mem_areas {d : PkDevice} (attached : d ∈ devices)
    (mem : area ∈ d.dmaAreas) :
    area ∈ devices.flatMap PkDevice.dmaAreas :=
  List.mem_flatMap.mpr ⟨d, attached, mem⟩

theorem mem_areas_modify {i : Nat} {update : PkDevice → PkDevice}
    (listed : area ∈ (devices.modify i update).flatMap PkDevice.dmaAreas) :
    area ∈ devices.flatMap PkDevice.dmaAreas ∨
      ∃ d ∈ devices, area ∈ (update d).dmaAreas := by
  obtain ⟨d, attached, mem⟩ := List.mem_flatMap.mp listed
  obtain old | ⟨old, found, rfl⟩ := mem_of_mem_modify attached
  · exact .inl (mem_areas old mem)
  · exact .inr ⟨old, List.mem_of_getElem? found, mem⟩

theorem freeAreas_sublist (pid physAddr : Nat) (freeAll : Bool) (areas : List PkDmaArea) :
    (freeAreas pid physAddr freeAll areas).Sublist areas := by
  induction areas with
  | nil => exact .slnil
  | cons area rest ih =>
    simp only [freeAreas]
    split_ifs
    · exact ih.cons_cons area
    · exact ih.cons area
    · exact List.sublist_cons_self area rest
    · exact ih.cons_cons area

/-- A write through the pointer changes one area, and that one is owned. -/
theorem mem_areas_updateOwnedDmaArea {pid addr : Nat} {update : PkDmaArea → PkDmaArea}
    (listed : area ∈ (updateOwnedDmaArea pid addr update devices).flatMap PkDevice.dmaAreas) :
    area ∈ devices.flatMap PkDevice.dmaAreas ∨
      ∃ old ∈ devices.flatMap PkDevice.dmaAreas, area = update old := by
  obtain old | ⟨device, attached, mem⟩ := mem_areas_modify listed
  · exact .inl old
  · obtain old | ⟨old, found, rfl⟩ := mem_of_mem_modify mem
    · exact .inl (mem_areas attached old)
    · exact .inr ⟨old, mem_areas attached (List.mem_of_getElem? found), rfl⟩

/-! ## One step -/

inductive Origin (s : State) (event : Event) (area : PkDmaArea) : Prop where
  | kept (listed : area ∈ s.areas)
  | shared (old : PkDmaArea) (listed : old ∈ s.areas) (same : area = old.share)
  | allocated (device : Nat) (caller : Caller) (request : AllocRequest) (answers : AllocAnswers)
      (page : Nat) (call : event = .dmaAlloc device caller (some request) answers)
      (small : allocOrder answers.clzOfZero request.numPages < maxOrder)
      (obtained : answers.page = some page) (mapped : answers.handle ≠ 0)
      (new : area = newArea caller request answers
        (allocOrder answers.clzOfZero request.numPages) page)

structure AllocDemand (s : State) (device : Nat) (caller : Caller) (numbers : AllocRequest)
    (answers : AllocAnswers) (page : Nat) : Prop where
  authorised : ∃ pkdev, s.devices[device]? = some pkdev ∧
    s.checkAuthority pkdev.pciDev caller = true
  small : allocOrder answers.clzOfZero numbers.numPages < maxOrder
  record : answers.record = true
  obtained : answers.page = some page

/-- The outcomes of `dma_alloc_store`: it stops before it has a block, it gets a block and
    no mapping for it, or it records the block in a new area. -/
inductive AllocOutcome (s : State) (device : Nat) (caller : Caller)
    (request : Option AllocRequest) (answers : AllocAnswers) : State → Prop where
  | refused (early : ∀ numbers page, request = some numbers →
      ¬ AllocDemand s device caller numbers answers page) :
      AllocOutcome s device caller request answers s
  | unmapped (numbers : AllocRequest) (page : Nat) (given : request = some numbers)
      (demand : AllocDemand s device caller numbers answers page)
      (unmapped : answers.handle = 0) :
      AllocOutcome s device caller request answers
        { s with blocks := ⟨page, allocOrder answers.clzOfZero numbers.numPages⟩ :: s.blocks }
  | recorded (numbers : AllocRequest) (page : Nat) (given : request = some numbers)
      (demand : AllocDemand s device caller numbers answers page)
      (mapped : answers.handle ≠ 0) :
      AllocOutcome s device caller request answers
        (State.addArea
          { s with blocks := ⟨page, allocOrder answers.clzOfZero numbers.numPages⟩ :: s.blocks }
          device (newArea caller numbers answers
            (allocOrder answers.clzOfZero numbers.numPages) page))

section Step

variable {s s' : State} {device : Nat} {caller : Caller} {result : Except Errno Unit}

theorem dmaAllocStore_outcome {req : Option AllocRequest} {answers : AllocAnswers}
    (stored : dmaAllocStore s device caller req answers = some (result, s')) :
    AllocOutcome s device caller req answers s' := by
  obtain ⟨pkdev, attached, stored⟩ := Option.bind_eq_some_iff.mp stored
  split at stored
  · rename_i refused
    cases stored
    refine .refused fun numbers page _ demand => ?_
    obtain ⟨pkdev', attached', authorised⟩ := demand.authorised
    obtain rfl := Option.some.inj (attached.symm.trans attached')
    simp [authorised] at refused
  rename_i authorised
  cases req with
  | none =>
    cases stored
    exact .refused fun numbers page given => by cases given
  | some numbers =>
    dsimp only at stored
    split at stored
    · rename_i large
      cases stored
      refine .refused fun numbers' page given demand => ?_
      cases given
      exact absurd large (Nat.not_le.mpr demand.small)
    rename_i small
    split at stored
    · cases stored
    rename_i recorded
    generalize obtained : answers.page = access at stored
    cases access with
    | none =>
      cases stored
      refine .refused fun numbers' page given demand => ?_
      cases obtained.symm.trans demand.obtained
    | some page =>
      have demand : AllocDemand s device caller numbers answers page :=
        ⟨⟨pkdev, attached, by simpa using authorised⟩, Nat.not_le.mp small,
          by simpa using recorded, obtained⟩
      split_ifs at stored with unmapped
      · cases stored
        exact .unmapped numbers page rfl demand unmapped
      · cases stored
        exact .recorded numbers page rfl demand unmapped

variable {area : PkDmaArea}

theorem mem_areas_dmaFreeStore {req : FreeRequest}
    (stored : dmaFreeStore s device caller req = some (result, s')) (listed : area ∈ s'.areas) :
    area ∈ s.areas := by
  obtain ⟨pkdev, attached, stored⟩ := Option.bind_eq_some_iff.mp stored
  split at stored
  · cases stored
    exact listed
  · cases stored
    obtain old | ⟨pkdev, attached, mem⟩ := mem_areas_modify listed
    · exact old
    · exact mem_areas attached ((freeAreas_sublist _ _ _ _).subset mem)

theorem mem_areas_grantAccessStore {physAddr : Option Nat}
    (stored : grantAccessStore s device caller physAddr = some (result, s'))
    (mem : area ∈ s'.areas) : area ∈ s.areas ∨ ∃ old ∈ s.areas, area = old.share := by
  obtain ⟨pkdev, attached, stored⟩ := Option.bind_eq_some_iff.mp stored
  split at stored
  · cases stored
    exact .inl mem
  cases physAddr with
  | none =>
    cases stored
    exact .inl mem
  | some physAddr =>
    dsimp only at stored
    split at stored
    · cases stored
      exact .inl mem
    · cases stored
      exact mem_areas_updateOwnedDmaArea mem

theorem step_areas {ev : Event} (step : s.step ev = some s') (listed : area ∈ s'.areas) :
    Origin s ev area := by
  cases ev with
  | grantDevice grant =>
    cases step
    exact .kept listed
  | attach c pciDev minor =>
    cases step
    simp only [State.probe] at listed
    split at listed <;> exact .kept listed
  | detach minor =>
    cases step
    obtain ⟨d, attached, mem⟩ := List.mem_flatMap.mp listed
    exact .kept (mem_areas (List.mem_of_mem_eraseP attached) mem)
  | dmaAlloc d c req answers =>
    obtain ⟨⟨res, s''⟩, stored, rfl⟩ := Option.map_eq_some_iff.mp step
    cases dmaAllocStore_outcome stored with
    | refused early | unmapped numbers page given demand unmapped => exact .kept listed
    | recorded numbers page given demand mapped =>
      subst given
      obtain old | ⟨pkdev, attached, mem⟩ := mem_areas_modify listed
      · exact .kept old
      · obtain new | old := List.mem_cons.mp mem
        · exact .allocated d c numbers answers page rfl demand.small demand.obtained mapped new
        · exact .kept (mem_areas attached old)
  | dmaFree d c req =>
    obtain ⟨⟨res, s''⟩, stored, rfl⟩ := Option.map_eq_some_iff.mp step
    exact .kept (mem_areas_dmaFreeStore stored listed)
  | freeDmaMemory d c =>
    cases step
    obtain old | ⟨pkdev, attached, mem⟩ := mem_areas_modify listed
    · exact .kept old
    · exact .kept (mem_areas attached ((List.mem_filter.mp mem).1))
  | grantAccess d c physAddr =>
    obtain ⟨⟨res, s''⟩, stored, rfl⟩ := Option.map_eq_some_iff.mp step
    obtain old | ⟨old, mem, same⟩ := mem_areas_grantAccessStore stored listed
    · exact .kept old
    · exact .shared old mem same

end Step

/-! ## Every run -/

/-- An area is an aligned block of allocatable size, and its physical address is that of the
    block. -/
structure PkDmaArea.WellFormed (area : PkDmaArea) : Prop where
  order_lt : area.order < maxOrder
  aligned : area.page % 2 ^ area.order = 0
  physAddr_eq : area.physAddr = area.page * pageSize

theorem newArea_wellFormed {c : Caller} {req : AllocRequest} {answers : AllocAnswers}
    {bs : List Block} {order page : Nat} (small : order < maxOrder)
    (honest : answers.honest bs order = true) (obtained : answers.page = some page)
    (mapped : answers.handle ≠ 0) (direct : answers.Direct) :
    (newArea c req answers order page).WellFormed := by
  simp only [AllocAnswers.honest, obtained, Bool.and_eq_true, decide_eq_true_eq] at honest
  exact ⟨small, honest.1.1, direct page obtained mapped⟩

/-- Without an IOMMU, every area that is listed after any sequence of calls is well-formed. -/
theorem DirectReachable.wellFormed {s : State} (run : State.DirectReachable s) :
    ∀ area ∈ s.areas, area.WellFormed := by
  refine run.invariant (motive := fun s => ∀ area ∈ s.areas, area.WellFormed)
    (by rintro area ⟨⟩) ?_
  intro before after event wellFormed answered step area mem
  cases step_areas step mem with
  | kept wasListed => exact wellFormed area wasListed
  | shared old wasListed same =>
    subst same
    obtain ⟨order_lt, aligned, physAddr_eq⟩ := wellFormed old wasListed
    exact ⟨order_lt, aligned, physAddr_eq⟩
  | allocated device caller request answers page call small obtained mapped new =>
    subst new call
    exact newArea_wellFormed small answered.1 obtained mapped answered.2

end Xdk.Parasite
