import Mathlib.Data.List.AList
import Xdk.Parasite.Module

/-! # The DMA allocations of a device

`Device_sysfs` keeps a map from the addresses of its DMA memory to what it needs to give the memory
back.  The allocation functions store an entry, the free functions look one up, and the destructor
gives back what is in the map.  The free functions use `operator[]`, which makes an entry for an
address that has none, and they do not remove the entry that they find.

The memory itself belongs to the kernel module, which has an area for each allocation that it has
granted.  A request that it refuses leaves the variable for the physical address as it was, and the
allocation functions go on with that.
-/

namespace Xdk.Sysfs

open Xdk.Lib Xdk.Parasite

def hugePageSize : Nat := 2 * 1024 * 1024

structure MemoryMapping where
  physAddr : Nat
  length : Nat
  flags : Int
deriving DecidableEq

/-- The map has a null pointer for an entry that `operator[]` has made.  The order of its keys is
    left out.  `areas` has the addresses of the areas that the kernel module has for the process.
    The rest is history: the allocations that have not been given back, all of them, and those for
    which `munmap` and `dma_page_free` have been called. -/
structure DeviceSysfs where
  dmaAllocations : AList fun _ : Nat => Option MemoryMapping
  destroyed : Bool
  areas : List Nat
  live : List (Nat × MemoryMapping)
  allocated : List (Nat × MemoryMapping)
  freed : List (Nat × MemoryMapping)

inductive CallResult where
  | pointer (p : Nat)
  | done
  | exception
  | fatal
deriving DecidableEq

/-- What the kernel answers in an allocation: the address of the area that `dma_page_alloc` grants,
    what `paddr` has on the stack, and what `mmap` returns. -/
structure MapAnswers where
  granted : Option Nat
  uninitialised : Nat
  mapped : Option Nat
deriving DecidableEq

/-- `paddr` after the read of `dma_page_alloc`, which fails after a request that is refused. -/
def MapAnswers.paddr (answers : MapAnswers) : Nat := answers.granted.getD answers.uninitialised

namespace DeviceSysfs

def start : DeviceSysfs := ⟨∅, false, [], [], [], []⟩

/-- What the allocation functions have in common.  A `none` as result is an assertion that fails,
    here and below. -/
def allocate (device : DeviceSysfs) (length : Nat) (flags : Int) (answers : MapAnswers) :
    Option (CallResult × DeviceSysfs) :=
  let device := { device with areas := answers.granted.toList ++ device.areas }
  let mm : MemoryMapping := ⟨answers.paddr, length, flags⟩
  if mm.physAddr = 0 then none
  else
    match answers.mapped with
    | none => some (.fatal, device)
    | some p =>
      if p = 0 ∨ p % pageSize ≠ 0 then none
      else some (.pointer p, { device with
        dmaAllocations := device.dmaAllocations.insert p (some mm)
        live := (p, mm) :: device.live
        allocated := (p, mm) :: device.allocated })

def allocDmaPages (device : DeviceSysfs) (numPages : Nat) : Int → MapAnswers →
    Option (CallResult × DeviceSysfs) :=
  device.allocate (unsignedLong (numPages * pageSize))

def allocDmaHugePages (device : DeviceSysfs) (numPages : Nat) : Int → MapAnswers →
    Option (CallResult × DeviceSysfs) :=
  device.allocate (unsignedLong (numPages * hugePageSize))

/-- `__free_dma_mapping`; the kernel module removes one area with the address, if it has one. -/
def freeDmaMapping (device : DeviceSysfs) (vptr : Nat) (mm : MemoryMapping) : DeviceSysfs :=
  { device with
    areas := device.areas.erase mm.physAddr
    live := device.live.filter fun allocation => allocation.1 ≠ vptr
    freed := device.freed ++ [(vptr, mm)] }

/-- Both free functions: `accepted` is the assertion on the mapping. -/
def lookUpAndFree (accepted : MemoryMapping → Bool) (device : DeviceSysfs) (vptr : Nat) :
    Option (CallResult × DeviceSysfs) :=
  match device.dmaAllocations.lookup vptr with
  | none =>
    some (.exception, { device with dmaAllocations := device.dmaAllocations.insert vptr none })
  | some none => some (.exception, device)
  | some (some mm) => if accepted mm then some (.done, device.freeDmaMapping vptr mm) else none

def freeDmaPages : DeviceSysfs → Nat → Option (CallResult × DeviceSysfs) :=
  lookUpAndFree fun _ => true

def freeDmaHugePages : DeviceSysfs → Nat → Option (CallResult × DeviceSysfs) :=
  lookUpAndFree fun mm => mm.length % hugePageSize = 0

/-- The mappings in the map, `none` if there is a null pointer. -/
def mappings (device : DeviceSysfs) : Option (List (Nat × MemoryMapping)) :=
  device.dmaAllocations.entries.mapM fun entry => entry.2.map fun mm => (entry.1, mm)

def physAddrs (allocations : List (Nat × MemoryMapping)) : List Nat :=
  allocations.map fun allocation => allocation.2.physAddr

def destroy (device : DeviceSysfs) : Option (CallResult × DeviceSysfs) :=
  device.mappings.map fun mappings =>
    (.done, { device with
      destroyed := true
      areas := device.areas.diff (physAddrs mappings)
      live := []
      freed := device.freed ++ mappings })

inductive Event where
  | allocDmaPages (numPages : Nat) (flags : Int) (answers : MapAnswers)
  | allocDmaHugePages (numPages : Nat) (flags : Int) (answers : MapAnswers)
  | freeDmaPages (vptr : Nat)
  | freeDmaHugePages (vptr : Nat)
  | destroy

def call (device : DeviceSysfs) (event : Event) : Option (CallResult × DeviceSysfs) :=
  if device.destroyed then none
  else
    match event with
    | .allocDmaPages numPages flags answers => device.allocDmaPages numPages flags answers
    | .allocDmaHugePages numPages flags answers => device.allocDmaHugePages numPages flags answers
    | .freeDmaPages vptr => device.freeDmaPages vptr
    | .freeDmaHugePages vptr => device.freeDmaHugePages vptr
    | .destroy => device.destroy

def step (device : DeviceSysfs) (event : Event) : Option DeviceSysfs :=
  (device.call event).map Prod.snd

def Event.mapped : Event → Option Nat
  | .allocDmaPages _ _ answers | .allocDmaHugePages _ _ answers => answers.mapped
  | _ => none

/-- Not a free; and an allocation for which there is an area can be mapped, and no other one. -/
def Event.sound : Event → Bool
  | .allocDmaPages _ _ answers | .allocDmaHugePages _ _ answers =>
    answers.granted.isSome = answers.mapped.isSome
  | .freeDmaPages _ | .freeDmaHugePages _ => false
  | .destroy => true

/-- `mmap` returns no address at which there is a live allocation. -/
def Mapped (device : DeviceSysfs) (event : Event) : Prop :=
  ∀ p ∈ event.mapped, ∀ allocation ∈ device.live, allocation.1 ≠ p

def Sound (device : DeviceSysfs) (event : Event) : Prop :=
  event.sound = true ∧ device.Mapped event

instance (device : DeviceSysfs) (event : Event) : Decidable (device.Mapped event) :=
  inferInstanceAs (Decidable (∀ p ∈ event.mapped, ∀ allocation ∈ device.live, allocation.1 ≠ p))

instance (device : DeviceSysfs) (event : Event) : Decidable (device.Sound event) :=
  inferInstanceAs (Decidable (_ ∧ _))

/-! ## What should hold -/

def entryOf (allocation : Nat × MemoryMapping) : Sigma fun _ : Nat => Option MemoryMapping :=
  ⟨allocation.1, some allocation.2⟩

structure Untouched (device : DeviceSysfs) : Prop where
  entries : device.destroyed = false → device.dmaAllocations.entries = device.live.map entryOf
  freed : device.destroyed = false → device.freed = [] ∧ device.allocated = device.live
  areas : device.areas = physAddrs device.live
  gone : device.destroyed = true → device.live = [] ∧ device.freed = device.allocated

variable {device after : DeviceSysfs} {mm : MemoryMapping} {answers : MapAnswers} {length : Nat}
  {flags : Int} {res : CallResult}

/-- The outcomes of an allocation that does not end the program. -/
theorem allocate_cases (called : device.allocate length flags answers = some (res, after)) :
    answers.mapped = none ∧
        after = { device with areas := answers.granted.toList ++ device.areas } ∨
      ∃ p, answers.mapped = some p ∧ after = { device with
        areas := answers.granted.toList ++ device.areas
        dmaAllocations := device.dmaAllocations.insert p (some ⟨answers.paddr, length, flags⟩)
        live := (p, ⟨answers.paddr, length, flags⟩) :: device.live
        allocated := (p, ⟨answers.paddr, length, flags⟩) :: device.allocated } := by
  dsimp only [allocate] at called
  split_ifs at called
  split at called
  · rename_i failed
    cases called
    exact .inl ⟨failed, rfl⟩
  · rename_i p mapped
    split_ifs at called
    cases called
    exact .inr ⟨p, mapped, rfl⟩

theorem diff_self (addresses : List Nat) : addresses.diff addresses = [] := by
  induction addresses with
  | nil => rfl
  | cons address rest ih => rw [List.diff_cons, List.erase_cons_head, ih]

section

variable (untouched : device.Untouched)
include untouched

theorem Untouched.mappings (alive : device.destroyed = false) :
    device.mappings = some device.live := by
  rw [DeviceSysfs.mappings, untouched.entries alive]
  induction device.live with
  | nil => rfl
  | cons allocation live ih =>
    rw [List.map_cons, List.mapM_cons, ih]
    rfl

theorem Untouched.allocate (alive : device.destroyed = false)
    (sound : answers.granted.isSome = answers.mapped.isSome)
    (fresh : ∀ p ∈ answers.mapped, ∀ allocation ∈ device.live, allocation.1 ≠ p)
    (called : device.allocate length flags answers = some (res, after)) : after.Untouched := by
  have entries := untouched.entries alive
  obtain ⟨freed, allocated⟩ := untouched.freed alive
  obtain ⟨failed, rfl⟩ | ⟨p, mapped, rfl⟩ := allocate_cases called
  · rw [failed, Option.isSome_none, Option.isSome_eq_false_iff, Option.isNone_iff_eq_none] at sound
    refine ⟨fun _ => entries, fun _ => ⟨freed, allocated⟩, ?_, fun gone => by simp [alive] at gone⟩
    simp [sound, untouched.areas]
  · rw [mapped, Option.isSome_some, Option.isSome_iff_exists] at sound
    obtain ⟨area, granted⟩ := sound
    have absent : p ∉ device.dmaAllocations := by
      rw [AList.mem_keys, AList.keys, List.keys, entries]
      intro mem
      simp only [List.map_map, List.mem_map] at mem
      obtain ⟨allocation, live, same⟩ := mem
      exact fresh p mapped allocation live same
    refine ⟨fun _ => ?_, fun _ => ⟨freed, ?_⟩, ?_, fun gone => by simp [alive] at gone⟩
    · rw [AList.entries_insert_of_notMem absent, entries]
      rfl
    · rw [allocated]
    · simp [MapAnswers.paddr, granted, untouched.areas, physAddrs]

theorem Untouched.destroy (alive : device.destroyed = false)
    (called : device.destroy = some (res, after)) : after.Untouched := by
  obtain ⟨freed, allocated⟩ := untouched.freed alive
  simp only [DeviceSysfs.destroy, untouched.mappings alive] at called
  obtain ⟨-, rfl⟩ := called
  refine ⟨nofun, nofun, ?_, fun _ => ⟨rfl, ?_⟩⟩
  · rw [untouched.areas]
    exact diff_self _
  · rw [freed, allocated, List.nil_append]

theorem Untouched.step {ev : Event} (ok : device.Sound ev) (step : device.step ev = some after) :
    after.Untouched := by
  obtain ⟨sound, fresh⟩ := ok
  obtain ⟨⟨result, _⟩, called, rfl⟩ := Option.map_eq_some_iff.mp step
  unfold call at called
  split_ifs at called with alive
  rw [Bool.not_eq_true] at alive
  cases ev with
  | allocDmaPages numPages flags answers | allocDmaHugePages numPages flags answers =>
    exact untouched.allocate alive (of_decide_eq_true sound) fresh called
  | freeDmaPages vptr | freeDmaHugePages vptr => cases sound
  | destroy => exact untouched.destroy alive called

end

/-! ## Calls that break it -/

end DeviceSysfs

end Xdk.Sysfs
