import Xdk.Parasite.Accounting

/-! # Sharing memory with other processes

The owner of an area shares it by writing its address to `grant_access`, and from then on
every process should be able to map it.  The flag that `grant_access_store` sets has no
bit, and `get_owned_dma_area`, by which `fops_mmap` decides, never looks at the flags: it
asks for the owner, before and after.

That the area found at an address is the one meant needs an invariant of the whole run:
the blocks handed out never overlap, so that without an IOMMU no two listed areas have the
same address.
-/

namespace Xdk.Parasite

open Xdk.Lib

/-! ## Areas do not overlap -/

def Block.Apart (first second : Block) : Prop :=
  first.limit ≤ second.page ∨ second.limit ≤ first.page

theorem Block.not_apart {first second : Block} (same : first.page = second.page) :
    ¬ first.Apart second := by
  have := Nat.two_pow_pos first.order
  have := Nat.two_pow_pos second.order
  rintro (before | after)
  · simp only [Block.limit] at before
    omega
  · simp only [Block.limit] at after
    omega

variable {s : State}

theorem AllocAnswers.honest.apart {answers : AllocAnswers} {bs : List Block}
    {order page : Nat} (honest : answers.honest bs order = true)
    (obtained : answers.page = some page) :
    ∀ old ∈ bs, Block.Apart ⟨page, order⟩ old := by
  simp only [AllocAnswers.honest, obtained, Bool.and_eq_true, List.all_eq_true, Bool.or_eq_true,
    decide_eq_true_eq] at honest
  exact fun old mem => (honest.2 old mem).symm

theorem dmaFreeStore_blocks {s' : State} {d : Nat} {c : Caller} {req : FreeRequest}
    {result : Except Errno Unit} (stored : dmaFreeStore s d c req = some (result, s')) :
    s'.blocks = s.blocks := by
  obtain ⟨pkdev, attached, stored⟩ := Option.bind_eq_some_iff.mp stored
  split at stored <;> cases stored <;> rfl

theorem grantAccessStore_blocks {s' : State} {d : Nat} {c : Caller} {physAddr : Option Nat}
    {result : Except Errno Unit} (stored : grantAccessStore s d c physAddr = some (result, s')) :
    s'.blocks = s.blocks := by
  obtain ⟨pkdev, attached, stored⟩ := Option.bind_eq_some_iff.mp stored
  split at stored
  · cases stored
    rfl
  cases physAddr with
  | none =>
    cases stored
    rfl
  | some physAddr =>
    dsimp only at stored
    split at stored <;> cases stored <;> rfl

theorem step_apart {s' : State} {ev : Event} (answered : s.expected ev = true)
    (step : s.step ev = some s') (apart : s.blocks.Pairwise Block.Apart) :
    s'.blocks.Pairwise Block.Apart := by
  cases ev with
  | grantDevice grant =>
    cases step
    exact apart
  | attach c pciDev minor =>
    cases step
    simp only [State.probe]
    split <;> exact apart
  | detach minor | freeDmaMemory d c =>
    cases step
    exact apart
  | dmaAlloc d c req answers =>
    obtain ⟨⟨res, s''⟩, stored, rfl⟩ := Option.map_eq_some_iff.mp step
    cases dmaAllocStore_outcome stored with
    | refused early => exact apart
    | unmapped numbers page given demand _ | recorded numbers page given demand _ =>
      subst given
      exact .cons (AllocAnswers.honest.apart answered demand.obtained) apart
  | dmaFree d c req =>
    obtain ⟨⟨res, s''⟩, stored, rfl⟩ := Option.map_eq_some_iff.mp step
    rwa [dmaFreeStore_blocks stored]
  | grantAccess d c physAddr =>
    obtain ⟨⟨res, s''⟩, stored, rfl⟩ := Option.map_eq_some_iff.mp step
    rwa [grantAccessStore_blocks stored]

theorem DirectReachable.blocks_apart (run : State.DirectReachable s) :
    s.blocks.Pairwise Block.Apart :=
  run.invariant (motive := fun s => s.blocks.Pairwise Block.Apart) .nil
    fun apart answered step => step_apart answered.1 step apart

/-- No two listed areas begin at the same address. -/
theorem DirectReachable.area_at {first second : PkDmaArea} (run : State.DirectReachable s)
    (firstListed : first ∈ s.areas) (secondListed : second ∈ s.areas)
    (same : first.physAddr = second.physAddr) : first = second := by
  obtain ⟨lost, split, _⟩ := exists_lost run
  have apart : (s.listedBlocks ++ lost).Pairwise Block.Apart :=
    (split.pairwise_iff Or.symm).mp (DirectReachable.blocks_apart run)
  have mem := List.pairwise_map.mp (List.pairwise_append.mp apart).1
  have firstAddress := (DirectReachable.wellFormed run first firstListed).physAddr_eq
  have secondAddress := (DirectReachable.wellFormed run second secondListed).physAddr_eq
  have pages : first.page = second.page := by
    refine Nat.eq_of_mul_eq_mul_right (show 0 < pageSize by decide) ?_
    rw [← firstAddress, ← secondAddress, same]
  have symmetric : Std.Symm fun area o : PkDmaArea => area.block.Apart o.block :=
    ⟨fun _ _ => Or.symm⟩
  by_contra ne
  exact @Block.not_apart first.block second.block pages
    (mem.forall firstListed secondListed ne)

/-! ## The search by address -/

variable {pid : Nat}

theorem getOwnedDmaArea_isSome_iff {devices : List PkDevice} {addr : Nat} :
    (getOwnedDmaArea devices pid addr).isSome = true ↔
      ∃ area ∈ devices.flatMap PkDevice.dmaAreas, area.ownerPid = pid ∧ area.physAddr = addr := by
  constructor
  · intro found
    obtain ⟨area, found⟩ := Option.isSome_iff_exists.mp found
    exact ⟨area, getOwnedDmaArea_some found⟩
  · rintro ⟨area, listed, rfl, rfl⟩
    obtain ⟨d, attached, mem⟩ := List.mem_flatMap.mp listed
    simp only [getOwnedDmaArea, List.findSome?_isSome_iff, List.find?_isSome]
    exact ⟨d, attached, area, mem, by simp [PkDmaArea.ownedAt]⟩

/-! ## Mapping a shared area -/

structure VmArea.Covers (vma : VmArea) (area : PkDmaArea) : Prop where
  offset : vma.vmPgoff * pageSize = area.physAddr
  length : vma.vmEnd = vma.vmStart + 2 ^ area.order * pageSize

/-- What the owner of an area and a process can expect: once the area is shared, the
    process can map it, and before that, only if it is the owner. -/
structure SharingContract (s : State) (area : PkDmaArea) (pid : Nat) (vma : VmArea) : Prop where
  shared : area.granted = true → ∃ range, fopsMmap s pid vma true = .ok range
  unshared : area.granted = false → ∀ remapped range, fopsMmap s pid vma remapped = .ok range →
    pid = area.ownerPid

variable {area : PkDmaArea}

/-- Whoever has an area that begins at the address is let in, and nobody else. -/
theorem fopsMmap_ok_iff {vma : VmArea} (covers : vma.Covers area) (remapped : Bool) :
    (∃ range, fopsMmap s pid vma remapped = .ok range) ↔
      (∃ o ∈ s.areas, o.ownerPid = pid ∧ o.physAddr = area.physAddr) ∧
        remapped = true := by
  have valid : ¬ vma.vmEnd < vma.vmStart := by
    have := covers.length
    omega
  have address : vma.phys = area.physAddr := vma.phys_eq.trans covers.offset
  rw [State.areas, ← getOwnedDmaArea_isSome_iff]
  simp only [fopsMmap, if_neg valid, address]
  cases getOwnedDmaArea s.devices pid area.physAddr <;> cases remapped <;> simp

theorem DirectReachable.owns_at_iff (run : State.DirectReachable s) (mem : area ∈ s.areas) :
    (∃ o ∈ s.areas, o.ownerPid = pid ∧ o.physAddr = area.physAddr) ↔
      pid = area.ownerPid := by
  constructor
  · rintro ⟨o, otherListed, rfl, a⟩
    rw [DirectReachable.area_at run otherListed mem a]
  · rintro rfl
    exact ⟨area, mem, rfl, rfl⟩

/-- There are more processes than areas. -/
theorem exists_pid_without_area (s : State) : ∃ pid, ∀ area ∈ s.areas, area.ownerPid ≠ pid := by
  obtain ⟨pid, unused⟩ :=
    Infinite.exists_notMem_finset (s.areas.map PkDmaArea.ownerPid).toFinset
  refine ⟨pid, fun area mem o => unused ?_⟩
  exact List.mem_toFinset.mpr (List.mem_map.mpr ⟨area, mem, o⟩)

/-- In every state of the lists and for every listed area: all processes can map it as the
    sharing demands exactly if the area is not shared and whoever has an area at its
    address is its owner.  In the states that a sequence of calls reaches without an IOMMU, a
    single process can exactly if the area is not shared or the process is the owner. -/
theorem sharing_takes_effect_iff {s : State} {area : PkDmaArea} {vma : VmArea}
    (listed : area ∈ s.areas) (covers : vma.Covers area) :
    ((∀ pid, SharingContract s area pid vma) ↔
      area.granted = false ∧
        ∀ other ∈ s.areas, other.physAddr = area.physAddr → other.ownerPid = area.ownerPid) ∧
    (State.DirectReachable s → ∀ pid, SharingContract s area pid vma ↔
      (area.granted = true → pid = area.ownerPid)) := by
  have accepts : ∀ pid remapped, (∃ range, fopsMmap s pid vma remapped = .ok range) ↔
      (∃ other ∈ s.areas, other.ownerPid = pid ∧ other.physAddr = area.physAddr) ∧
        remapped = true := fun pid remapped => fopsMmap_ok_iff covers remapped
  refine ⟨⟨fun contract => ?_, ?_⟩, fun run pid => ⟨?_, ?_⟩⟩
  · have unshared : area.granted = false := by
      refine Bool.eq_false_iff.mpr fun shared => ?_
      obtain ⟨pid, without⟩ := exists_pid_without_area s
      obtain ⟨⟨other, otherListed, owner, _⟩, _⟩ :=
        (accepts pid true).mp ((contract pid).shared shared)
      exact without other otherListed owner
    refine ⟨unshared, fun other otherListed address => ?_⟩
    obtain ⟨range, accepted⟩ :=
      (accepts other.ownerPid true).mpr ⟨⟨other, otherListed, rfl, address⟩, rfl⟩
    exact (contract other.ownerPid).unshared unshared true range accepted
  · rintro ⟨unshared, alone⟩ pid
    refine ⟨fun shared => absurd (unshared.symm.trans shared) Bool.false_ne_true, ?_⟩
    intro _ remapped range accepted
    obtain ⟨⟨other, otherListed, rfl, address⟩, _⟩ := (accepts pid remapped).mp ⟨range, accepted⟩
    exact alone other otherListed address
  · intro contract shared
    have accepted := (accepts pid true).mp (contract.shared shared)
    exact (DirectReachable.owns_at_iff run listed).mp accepted.1
  · intro own
    refine ⟨fun shared => (accepts pid true).mpr ⟨?_, rfl⟩, fun _ remapped range accepted => ?_⟩
    · exact (DirectReachable.owns_at_iff run listed).mpr (own shared)
    · have accepted := (accepts pid remapped).mp ⟨range, accepted⟩
      exact (DirectReachable.owns_at_iff run listed).mp accepted.1

/-- The area is not shared, and its owner maps it. -/
theorem sharing_takes_effect_owner :
    ∃ s area vma, State.DirectReachable s ∧ area ∈ s.areas ∧ vma.Covers area ∧
      SharingContract s area 7 vma := by
  have run : State.DirectReachable (withOneArea 7 1 0 (1 * pageSize)) :=
    directReachable_withOneArea (by decide) (by decide) (by decide)
  have listed : oneArea 7 1 0 4096 ∈ (withOneArea 7 1 0 (1 * pageSize)).areas :=
    List.mem_singleton.mpr rfl
  have covers : VmArea.Covers ⟨0, 4096, 1, by decide⟩ (oneArea 7 1 0 4096) := ⟨rfl, rfl⟩
  exact ⟨_, _, _, run, listed, covers,
    ((sharing_takes_effect_iff listed covers).2 run 7).mpr fun _ => rfl⟩

/-- The owner shares the area, the call succeeds, and another process is refused. -/
theorem shared_area_refused :
    ∃ s s' area, State.DirectReachable s ∧ area ∈ s.areas ∧
      grantAccessStore s 0 ⟨area.ownerPid, 0⟩ (some area.physAddr) = some (.ok (), s') ∧
      State.DirectReachable s' ∧ area.share ∈ s'.areas ∧
      fopsMmap s' 8 ⟨0, 4096, 1, by decide⟩ true = .error .eperm := by
  have run : State.DirectReachable (withOneArea 7 1 0 (1 * pageSize)) :=
    directReachable_withOneArea (by decide) (by decide) (by decide)
  let area := oneArea 7 1 0 4096
  let shared : State := ⟨[⟨0, ⟨0, 0, 0, 0⟩, [area.share]⟩], [⟨0, 0, 0, 0⟩], [⟨1, 0⟩]⟩
  have grants : grantAccessStore (withOneArea 7 1 0 4096) 0 ⟨7, 0⟩ (some 4096) =
      some (.ok (), shared) := by decide
  have steps : (withOneArea 7 1 0 4096).step (.grantAccess 0 ⟨7, 0⟩ (some 4096)) =
      some shared := by decide
  refine ⟨_, _, area, run, List.mem_singleton.mpr rfl, grants, run.next ?_ steps,
    List.mem_singleton.mpr rfl, by decide⟩
  exact ⟨rfl, trivial⟩

end Xdk.Parasite
