import Mathlib.Data.List.Nodup
import Xdk.FastSlab.Calls
import Xdk.FastSlab.Layout
import Xdk.Lib.Word

/-! # The NUMA slab allocator

`Numa_slab_allocator` of `exo/numa_slab.h` has a fast slab allocator for each CPU of a NUMA node.
The constructor is given one piece of memory and cuts it into areas of one size, one for each CPU
of a mask.  A block may be freed by any CPU: the header in front of it has the identifier of the
CPU whose allocator made it.

The size of the piece is only printed.  Sizes are of type `size_t` and wrap around; addresses are
numbers of any size, as in the model of the fast slab allocator.  Each call ends before the next
one begins; how the calls of several threads interleave within the pool of one CPU is the subject
of the fast slab allocator.
-/

namespace Xdk.NumaSlab

open Xdk.Lib Xdk.FastSlab

def maxCpus : Nat := 64

/-- What the constructor is given.  Physical addresses, which are asked for by a further argument,
    have no part in the layout. -/
structure Params where
  addrV : Nat
  totalSize : Nat
  perCpuBlockQuota : Nat
  blockSize : Nat
  cpuMask : BitVec maxCpus
  alignment : Nat

/-- What libnuma says about the machine; the node of a CPU that does not exist is negative. -/
structure Machine where
  numConfiguredNodes : Nat
  nodeOfCpu : Nat → Int

def actualBlockSize (itemSize : Nat) : Nat := wrap 64 (headerSize + itemSize)

namespace Params

def cpus (params : Params) : List Nat := (List.range maxCpus).filter params.cpuMask.getLsbD

def perCpuTotalSize (params : Params) : Nat :=
  wrap 64 (params.perCpuBlockQuota * actualBlockSize params.blockSize)

def area (params : Params) (spaceV : Nat) : FastSlab.Params :=
  ⟨spaceV, params.perCpuTotalSize, params.blockSize, params.alignment⟩

end Params

/-! ## The constructor -/

/-- The loop that looks for one valid node; `none` is its panic, or its assertion. -/
def checkNodes (machine : Machine) : List Nat → Int → Option Int
  | [], numaId => some numaId
  | cpu :: cpus, numaId =>
    let nid := machine.nodeOfCpu cpu
    if nid < 0 then none
    else
      let numaId := if numaId < 0 then nid else numaId
      if numaId ≠ nid then none else checkNodes machine cpus numaId

structure Partition where
  cpu : Nat
  area : FastSlab.Params
  pool : Built

/-- The allocator of one CPU.  The alignment becomes an `int`, and a negative one is refused; it is
    asserted that the data of every block begin before the end of the area. -/
def newAllocator (params : Params) (cpu spaceV : Nat) : Option Partition := do
  let area := params.area spaceV
  if 2 ^ 31 ≤ params.alignment then none
  let pool ← FastSlab.create area
  if ∃ header ∈ pool.blocks, area.memEnd ≤ header + headerSize then none
  return ⟨cpu, area, pool⟩

def makeAllocators (params : Params) : List Nat → Nat → Option (List Partition)
  | [], _ => some []
  | cpu :: cpus, spaceV => do
    let partition ← newAllocator params cpu spaceV
    let rest ← makeAllocators params cpus (spaceV + params.perCpuTotalSize)
    return partition :: rest

def create (machine : Machine) (params : Params) : Option (List Partition) := do
  if maxCpus < machine.numConfiguredNodes then none
  let _ ← checkNodes machine params.cpus (-1)
  makeAllocators params params.cpus params.addrV

/-! ## The calls -/

/-- The fields of a block's header that `free` reads; an allocator goes by its CPU. -/
structure BlockHeader where
  ownerAllocator : Nat
  id : Nat

/-- `out` has the blocks that have been allocated and not freed, with the core that `alloc` was
    called for. -/
structure Slab where
  memory : Nat → Option BlockHeader
  perCpuAllocs : Nat → Option Built
  out : List (Nat × Nat)

inductive SlabCall where
  | alloc (coreId : Nat)
  | free (block : Nat)
  deriving DecidableEq

namespace Slab

def new (partitions : List Partition) : Slab where
  memory := fun header =>
    (partitions.reverse.find? fun partition => header ∈ partition.pool.blocks).map
      fun partition => ⟨partition.cpu, partition.cpu⟩
  perCpuAllocs := fun cpu => (partitions.find? fun partition => partition.cpu = cpu).map (·.pool)
  out := []

def setPool (s : Slab) (cpu : Nat) (pool : Built) : Slab :=
  { s with perCpuAllocs := Function.update s.perCpuAllocs cpu (some pool) }

/-- What is returned, NULL being `none`; there has to be an allocator for the core. -/
def alloc (s : Slab) (coreId : Nat) : Option (Option Nat × Slab) :=
  match s.perCpuAllocs coreId with
  | none => none
  | some pool =>
    let result := pool.alloc
    some (result.1, { s.setPool coreId result.2 with
      out := match result.1 with
        | some block => (coreId, block) :: s.out
        | none => s.out })

def getIdFromBlock (s : Slab) (block : Nat) : Option Nat :=
  (s.memory (block - headerSize)).map (·.id)

def putBack (s : Slab) (coreId block : Nat) (pool : Built) : Slab :=
  { s.setPool coreId pool with out := s.out.erase (coreId, block) }

/-- `none` is an assertion, a panic, or an address with no header in front of it. -/
def free (s : Slab) (block : Nat) : Option (Status × Slab) :=
  if block = 0 then none
  else
    match s.memory (block - headerSize) with
    | none => none
    | some header =>
      match s.perCpuAllocs header.id with
      | none => none
      | some pool =>
        if header.ownerAllocator ≠ header.id then some (.badParam, s)
        else
          (pool.free (block - headerSize)).map fun pool => (.ok, s.putBack header.id block pool)

def step (s : Slab) : SlabCall → Option Slab
  | .alloc coreId => (s.alloc coreId).map (·.2)
  | .free block => (s.free block).map (·.2)

/-- Blocks are allocated for cores that have an allocator, and freed when they are out. -/
def Allowed (s : Slab) : SlabCall → Prop
  | .alloc coreId => (s.perCpuAllocs coreId).isSome
  | .free block => block ∈ s.out.map Prod.snd

instance (s : Slab) : (call : SlabCall) → Decidable (s.Allowed call)
  | .alloc _ => inferInstanceAs (Decidable (_ = true))
  | .free _ => inferInstanceAs (Decidable (_ ∈ _))

/-- The blocks that `alloc` returns for a core one after the other up to the first NULL, in at
    most `calls` calls. -/
def allocBlocks (s : Slab) (coreId : Nat) : Nat → List Nat
  | 0 => []
  | calls + 1 =>
    match s.alloc coreId with
    | some (some block, s) => block :: s.allocBlocks coreId calls
    | _ => []

end Slab

/-! ## What has been constructed -/

theorem nodup_cpus (params : Params) : params.cpus.Nodup := List.nodup_range.filter _

variable {params : Params}

theorem newAllocator_spec {cpu spaceV : Nat} {p : Partition}
    (made : newAllocator params cpu spaceV = some p) :
    p.cpu = cpu ∧ p.area = params.area spaceV ∧
      FastSlab.create (params.area spaceV) = some p.pool := by
  simp only [newAllocator] at made
  split at made
  · cases made
  · obtain ⟨pool, created, made⟩ := Option.bind_eq_some_iff.mp made
    split at made
    · cases made
    · cases made
      exact ⟨rfl, rfl, created⟩

/-- Each CPU has an allocator, and their areas lie one behind the other from `spaceV` on. -/
structure Laid (params : Params) (cpus : List Nat) (spaceV : Nat) (partitions : List Partition) :
    Prop where
  cpus : partitions.map Partition.cpu = cpus
  area : ∀ index partition, partitions[index]? = some partition →
    partition.area = params.area (spaceV + index * params.perCpuTotalSize)
  pool : ∀ partition ∈ partitions, FastSlab.create partition.area = some partition.pool

theorem makeAllocators_laid {cpus : List Nat} {spaceV : Nat} {partitions : List Partition}
    (made : makeAllocators params cpus spaceV = some partitions) :
    Laid params cpus spaceV partitions := by
  induction cpus generalizing spaceV partitions with
  | nil =>
    cases made
    exact ⟨rfl, fun _ _ found => (nomatch found), fun _ mem => (nomatch mem)⟩
  | cons cpu cpus ih =>
    obtain ⟨first, firstMade, made⟩ := Option.bind_eq_some_iff.mp made
    obtain ⟨rest, restMade, made⟩ := Option.bind_eq_some_iff.mp made
    cases made
    obtain ⟨sameCpu, firstArea, created⟩ := newAllocator_spec firstMade
    have laid := ih restMade
    refine ⟨?_, fun i p found => ?_, fun p mem => ?_⟩
    · rw [List.map_cons, sameCpu, laid.cpus]
    · cases i with
      | zero =>
        cases found
        rw [Nat.zero_mul, Nat.add_zero, firstArea]
      | succ i =>
        rw [Nat.succ_mul, Nat.add_comm (i * _), ← Nat.add_assoc]
        exact laid.area i p found
    · obtain rfl | later := List.mem_cons.mp mem
      · rw [firstArea]
        exact created
      · exact laid.pool p later

theorem create_laid {machine : Machine} {partitions : List Partition}
    (created : create machine params = some partitions) :
    Laid params params.cpus params.addrV partitions := by
  simp only [create] at created
  split at created
  · cases created
  · obtain ⟨_, _, made⟩ := Option.bind_eq_some_iff.mp created
    exact makeAllocators_laid made

namespace Laid

variable {params : Params} {cpus : List Nat} {spaceV : Nat} {partitions : List Partition}

theorem length (laid : Laid params cpus spaceV partitions) : partitions.length = cpus.length := by
  rw [← laid.cpus, List.length_map]

theorem blocks {i : Nat} {p : Partition} (laid : Laid params cpus spaceV partitions)
    (found : partitions[i]? = some p) :
    p.pool.blocks =
      headers (params.area (spaceV + i * params.perCpuTotalSize)) params.alignment
        (spaceV + i * params.perCpuTotalSize) := by
  have created := laid.pool p (List.mem_of_getElem? found)
  rw [laid.area i p found] at created
  exact create_blocks created

end Laid

/-! ## The constructor completes -/

theorem perCpuTotalSize_le (params : Params) :
    params.perCpuTotalSize ≤ params.perCpuBlockQuota * (headerSize + params.blockSize) :=
  Nat.le_trans (wrap_le _ _) (Nat.mul_le_mul_left _ (wrap_le _ _))

/-- Nothing but a lack of room can keep the constructor from making an allocator. -/
structure Params.Acceptable (params : Params) : Prop where
  power : FastSlab.Params.isPowerOfTwo params.alignment
  alignment : params.alignment < 2 ^ 31
  data : 0 < params.blockSize
  small : params.perCpuBlockQuota < 2 ^ 30

section Accepted

variable {params : Params}

theorem Params.Acceptable.exists_newAllocator (acceptable : params.Acceptable) (cpu : Nat)
    {spaceV : Nat} (space : spaceV ≠ 0)
    (pos : 0 < room (params.area spaceV) params.alignment spaceV) :
    ∃ partition, newAllocator params cpu spaceV = some partition := by
  have data := acceptable.data
  obtain ⟨used, isUsed⟩ : ∃ used, (params.area spaceV).useAlignment = some used :=
    ⟨_, if_neg fun odd => odd.2 acceptable.power⟩
  have number : (headers (params.area spaceV) used spaceV).length =
      room (params.area spaceV) params.alignment spaceV := by
    rw [headers_useAlignment isUsed]
    exact length_headers_eq ..
  have most : room (params.area spaceV) params.alignment spaceV ≤ params.perCpuBlockQuota :=
    room_le _ (perCpuTotalSize_le params)
  have len : params.perCpuTotalSize ≠ 0 := by
    have first : _ ≤ spaceV + params.perCpuTotalSize := fitting_pos_iff.mp pos
    have behind := lt_place params.alignment spaceV
    simp only [headerSize] at behind
    omega
  obtain ⟨pool, created, blocks⟩ := @exists_create_headers (params.area spaceV) used space len
    isUsed (number ▸ pos) (number ▸ Nat.lt_of_le_of_lt most acceptable.small)
  have inside : ¬ ∃ hdr ∈ pool.blocks, (params.area spaceV).memEnd ≤ hdr + headerSize := by
    rintro ⟨hdr, mem, beyond⟩
    rw [blocks] at mem
    have ends : hdr + headerSize + params.blockSize ≤ _ := end_le_of_mem_headers mem
    omega
  refine ⟨⟨cpu, params.area spaceV, pool⟩, ?_⟩
  simp only [newAllocator, created, inside, Nat.not_le.mpr acceptable.alignment,
    Option.bind_eq_bind, Option.bind_some]
  rfl

theorem Params.Acceptable.exists_makeAllocators (acceptable : params.Acceptable) (cpus : List Nat)
    (spaceV : Nat) (space : spaceV ≠ 0)
    (pos : ∀ i < cpus.length,
      0 < room (params.area (spaceV + i * params.perCpuTotalSize)) params.alignment
        (spaceV + i * params.perCpuTotalSize)) :
    ∃ partitions, makeAllocators params cpus spaceV = some partitions := by
  induction cpus generalizing spaceV with
  | nil => exact ⟨[], rfl⟩
  | cons cpu cpus ih =>
    have first := pos 0 (Nat.succ_pos _)
    rw [Nat.zero_mul] at first
    obtain ⟨p, made⟩ := acceptable.exists_newAllocator cpu space first
    have others :
        ∃ rest, makeAllocators params cpus (spaceV + params.perCpuTotalSize) = some rest := by
      refine ih _ (by omega) fun i inside => ?_
      have next := pos (i + 1) (Nat.succ_lt_succ inside)
      rwa [Nat.succ_mul, Nat.add_comm (i * _), ← Nat.add_assoc] at next
    obtain ⟨rest, restMade⟩ := others
    refine ⟨p :: rest, ?_⟩
    simp only [makeAllocators, made, restMade]
    rfl

theorem Params.Acceptable.exists_create {machine : Machine} {numaId : Int}
    (acceptable : params.Acceptable) (nodes : machine.numConfiguredNodes ≤ maxCpus)
    (checked : checkNodes machine params.cpus (-1) = some numaId) (space : params.addrV ≠ 0)
    (pos : ∀ i < params.cpus.length,
      0 < room (params.area (params.addrV + i * params.perCpuTotalSize)) params.alignment
        (params.addrV + i * params.perCpuTotalSize)) :
    ∃ partitions, create machine params = some partitions := by
  obtain ⟨partitions, made⟩ :=
    acceptable.exists_makeAllocators params.cpus params.addrV space pos
  refine ⟨partitions, ?_⟩
  simp only [create, Nat.not_lt.mpr nodes, if_false, checked, made, Option.bind_eq_bind,
    Option.bind_some]

end Accepted

end Xdk.NumaSlab
