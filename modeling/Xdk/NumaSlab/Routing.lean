import Xdk.NumaSlab.Areas

/-! # Where freed blocks go

A block may be freed by any core.  The areas are disjoint, so that no header is written over, and
the header of a block has the identifier of the CPU whose allocator made it: a block that is freed
is handed to that allocator.  In pools that are small enough for the counters of their buffers, the
block is then the last one in the pool.
-/

namespace Xdk.NumaSlab

open Xdk.Lib Xdk.Nbb Xdk.FastSlab Function

/-! ## One partition for a CPU, and for a block -/

section Laid

variable {params : Params} {partitions : List Partition} {partition other : Partition}

section

variable (laid : Laid params params.cpus params.addrV partitions)
include laid

theorem Laid.eq_of_cpu (mem : partition ∈ partitions) (otherMember : other ∈ partitions)
    (same : other.cpu = partition.cpu) : other = partition := by
  have nodup : (partitions.map Partition.cpu).Nodup := laid.cpus ▸ nodup_cpus params
  exact List.inj_on_of_nodup_map nodup otherMember mem same

variable {hdr : Nat}

theorem Laid.index_le {index otherIndex : Nat} (found : partitions[index]? = some partition)
    (otherFound : partitions[otherIndex]? = some other) (block : hdr ∈ partition.pool.blocks)
    (otherBlock : hdr ∈ other.pool.blocks) : otherIndex ≤ index := by
  by_contra later
  have ends := (laid.block_inside found block).2
  have begins := (laid.block_inside otherFound otherBlock).1
  have apart : params.spaceV (index + 1) ≤ params.spaceV otherIndex :=
    spaceV_mono params (Nat.not_le.mp later)
  simp only [headerSize] at ends
  omega

theorem Laid.eq_of_block (mem : partition ∈ partitions) (otherMember : other ∈ partitions)
    (block : hdr ∈ partition.pool.blocks) (otherBlock : hdr ∈ other.pool.blocks) :
    other = partition := by
  obtain ⟨index, found⟩ := List.mem_iff_getElem?.mp mem
  obtain ⟨otherIndex, otherFound⟩ := List.mem_iff_getElem?.mp otherMember
  have le := laid.index_le found otherFound block otherBlock
  have above := laid.index_le otherFound found otherBlock block
  obtain rfl := Nat.le_antisymm le above
  exact Option.some.inj (otherFound.symm.trans found)

end

/-- The search ends at the only element that it can end at. -/
theorem find?_eq_of_only {α : Type*} {p : α → Bool} {xs : List α} {x : α} (mem : x ∈ xs)
    (holds : p x = true) (unique : ∀ y ∈ xs, p y = true → y = x) : xs.find? p = some x := by
  cases found : xs.find? p with
  | none => exact absurd holds (List.find?_eq_none.mp found x mem)
  | some y =>
    rw [unique y (List.mem_of_find?_eq_some found) (List.find?_some found)]

section

variable (laid : Laid params params.cpus params.addrV partitions) (mem : partition ∈ partitions)
include laid mem

theorem Laid.perCpuAllocs_new :
    (Slab.new partitions).perCpuAllocs partition.cpu = some partition.pool := by
  have found := find?_eq_of_only (p := fun o => decide (o.cpu = partition.cpu))
    mem (decide_eq_true rfl) fun o otherMember same =>
      laid.eq_of_cpu mem otherMember (of_decide_eq_true same)
  simp only [Slab.new, found, Option.map_some]

/-- No header is written over. -/
theorem Laid.memory_new {hdr : Nat} (block : hdr ∈ partition.pool.blocks) :
    (Slab.new partitions).memory hdr = some ⟨partition.cpu, partition.cpu⟩ := by
  have found := find?_eq_of_only (p := fun o => decide (hdr ∈ o.pool.blocks))
    (List.mem_reverse.mpr mem) (decide_eq_true block) fun o otherMember otherBlock =>
      laid.eq_of_block mem (List.mem_reverse.mp otherMember) block
        (of_decide_eq_true otherBlock)
  simp only [Slab.new, found, Option.map_some]

end

end Laid

/-! ## Blocks go back to where they came from -/

/-- The pools have their own blocks only, and so have the cores that blocks were allocated for. -/
structure Routed (partitions : List Partition) (s : Slab) : Prop where
  memory : s.memory = (Slab.new partitions).memory
  pool : ∀ partition ∈ partitions, ∃ pool, s.perCpuAllocs partition.cpu = some pool ∧
    pool.blocks = partition.pool.blocks ∧ pool.Kept
  known : ∀ cpu pool, s.perCpuAllocs cpu = some pool → ∃ partition ∈ partitions, partition.cpu = cpu
  out : ∀ coreId block, (coreId, block) ∈ s.out → ∃ partition ∈ partitions,
    partition.cpu = coreId ∧ ∃ header ∈ partition.pool.blocks, block = header + headerSize

/-- The block is handed to the allocator of the core it was allocated for, and it is this
    allocator's pool that changes. -/
def Slab.HandedBack (s : Slab) (coreId block : Nat) : Prop :=
  s.getIdFromBlock block = some coreId ∧
    ∃ pool, s.perCpuAllocs coreId = some pool ∧ block - headerSize ∈ pool.blocks ∧
      s.free block =
        (pool.free (block - headerSize)).map fun pool => (.ok, s.putBack coreId block pool)

section Routing

variable {params : Params} {partitions : List Partition} {s s' : Slab}

section

variable (laid : Laid params params.cpus params.addrV partitions)
include laid

theorem routed_new :
    Routed partitions (Slab.new partitions) where
  memory := rfl
  pool := fun p mem => ⟨_, laid.perCpuAllocs_new mem, rfl,
    Built.create_kept (laid.pool p mem)⟩
  known := by
    intro cpu pool found
    obtain ⟨p, found, _⟩ := Option.map_eq_some_iff.mp found
    exact ⟨p, List.mem_of_find?_eq_some found, by simpa using List.find?_some found⟩
  out := fun _ _ mem => nomatch mem

section

variable (routed : Routed partitions s)
include routed

theorem Routed.handedBack {coreId block : Nat} (isOut : (coreId, block) ∈ s.out) :
    s.HandedBack coreId block := by
  obtain ⟨p, mem, rfl, header, isBlock, rfl⟩ := routed.out coreId block isOut
  obtain ⟨pool, found, blocks, _⟩ := routed.pool p mem
  have memory : s.memory header = some ⟨p.cpu, p.cpu⟩ := by
    rw [routed.memory]
    exact laid.memory_new mem isBlock
  have here : header + headerSize - headerSize = header := Nat.add_sub_cancel _ _
  have address : ¬ header + headerSize = 0 := by
    simp only [headerSize]
    omega
  refine ⟨?_, pool, found, ?_, ?_⟩
  · rw [Slab.getIdFromBlock, here, memory]
    rfl
  · rw [blocks]
    exact isBlock
  · simp only [Slab.free, address, if_false, here, memory, found, ne_eq, not_true]

/-- One pool is replaced by another with the same blocks. -/
theorem Routed.setPool {p : Partition} {pool : Built} (mem : p ∈ partitions)
    (blocks : pool.blocks = p.pool.blocks) (kept : pool.Kept) :
    Routed partitions (s.setPool p.cpu pool) where
  memory := routed.memory
  pool := by
    intro o otherMember
    simp only [Slab.setPool, update_apply]
    split
    · rename_i same
      obtain rfl := laid.eq_of_cpu mem otherMember same
      exact ⟨pool, rfl, blocks, kept⟩
    · exact routed.pool o otherMember
  known := by
    intro cpu found
    simp only [Slab.setPool, update_apply]
    split
    · rename_i same
      exact fun _ => ⟨p, mem, same.symm⟩
    · exact routed.known cpu found
  out := routed.out

theorem Routed.alloc {coreId : Nat} {res : Option Nat} (called : s.alloc coreId = some (res, s')) :
    Routed partitions s' := by
  simp only [Slab.alloc] at called
  split at called
  · cases called
  rename_i pool found
  cases called
  obtain ⟨p, mem, rfl⟩ := routed.known coreId pool found
  obtain ⟨pool', found', blocks, kept⟩ := routed.pool p mem
  obtain rfl : pool' = pool := Option.some.inj (found'.symm.trans found)
  obtain ⟨kept', blocks', own⟩ := kept.alloc
  have next := routed.setPool laid mem (blocks'.trans blocks) kept'
  refine { next with out := fun coreId b isOut => ?_ }
  generalize res : pool'.alloc.1 = access at isOut
  cases access with
  | none =>
    exact routed.out coreId b isOut
  | some returned =>
    obtain new | earlier := List.mem_cons.mp isOut
    · cases new
      obtain ⟨hdr, isBlock, same⟩ := own b res
      exact ⟨p, mem, rfl, hdr, blocks ▸ isBlock, same⟩
    · exact routed.out coreId b earlier

theorem Routed.free {b : Nat} {status : Status} (ok : b ∈ s.out.map Prod.snd)
    (called : s.free b = some (status, s')) : Routed partitions s' := by
  obtain ⟨⟨coreId, b⟩, isOut, rfl⟩ := List.mem_map.mp ok
  obtain ⟨_, pool, found, isBlock, res⟩ := routed.handedBack laid isOut
  rw [called] at res
  obtain ⟨pool', freed, res⟩ := Option.map_eq_some_iff.mp res.symm
  cases res
  obtain ⟨p, mem, rfl⟩ := routed.known coreId pool found
  obtain ⟨same, found', blocks, kept⟩ := routed.pool p mem
  obtain rfl : same = pool := Option.some.inj (found'.symm.trans found)
  obtain ⟨kept', blocks'⟩ := kept.free isBlock freed
  have next := routed.setPool laid mem (blocks'.trans blocks) kept'
  exact { next with out := fun _ _ still => routed.out _ _ (List.mem_of_mem_erase still) }

theorem Routed.step {call : SlabCall} (ok : s.Allowed call) (step : s.step call = some s') :
    Routed partitions s' := by
  cases call with
  | alloc coreId =>
    obtain ⟨⟨result, _⟩, called, rfl⟩ := Option.map_eq_some_iff.mp step
    exact routed.alloc laid called
  | free block =>
    obtain ⟨⟨status, _⟩, called, rfl⟩ := Option.map_eq_some_iff.mp step
    exact routed.free laid ok called

end

theorem Laid.routed (run : Reaches Slab.step Slab.Allowed (Slab.new partitions) s) :
    Routed partitions s :=
  run.invariant (routed_new laid) fun routed ok step => routed.step laid ok step

end

end Routing

/-! ## Every block is in the pool or out -/

/-- What is in the pool of a CPU, and how much has been allocated for it. -/
def Stocked (partitions : List Partition) (s : Slab) : Prop :=
  ∀ partition ∈ partitions, ∃ pool queue, s.perCpuAllocs partition.cpu = some pool ∧
    pool.shape = partition.pool.shape ∧ pool.Has queue ∧
    queue.length + s.out.countP (·.1 = partition.cpu) = partition.pool.blocks.length

/-- The block is in the pool of the core again, behind those that were there, and the other pools
    are as before. -/
def Slab.Returned (s : Slab) (calls coreId block : Nat) : Prop :=
  ∃ s', s.free block = some (.ok, s') ∧
    s'.allocBlocks coreId calls = s.allocBlocks coreId calls ++ [block] ∧
    ∀ other ≠ coreId, s'.perCpuAllocs other = s.perCpuAllocs other

theorem Slab.allocBlocks_eq {s : Slab} {coreId : Nat} {pool : Built}
    (found : s.perCpuAllocs coreId = some pool) (calls : Nat) :
    s.allocBlocks coreId calls = pool.allocBlocks calls := by
  induction calls generalizing s pool with
  | zero => rfl
  | succ calls ih =>
    simp only [Slab.allocBlocks, Slab.alloc, found, Built.allocBlocks]
    cases result : pool.alloc with
    | mk returned after =>
      cases returned with
      | none => rfl
      | some b =>
        refine congrArg (b :: ·) (ih ?_)
        exact update_self ..

section Stock

variable {params : Params} {partitions : List Partition} {s s' : Slab}

def Small (partitions : List Partition) : Prop :=
  ∀ partition ∈ partitions, partition.pool.blocks.length < 2 ^ 29

theorem shape_ample {p : Partition} (small : p.pool.blocks.length < 2 ^ 29)
    (created : FastSlab.create p.area = some p.pool) :
    Shape.Ample p.pool.shape ∧
      p.pool.shape.size = p.pool.blocks.length := by
  obtain ⟨_, shaped, _⟩ := create_stored created (by omega)
  exact ⟨Shape.create_ample shaped small, (Shape.create_size shaped).1⟩

section

variable (laid : Laid params params.cpus params.addrV partitions)
include laid

theorem stocked_new (small : Small partitions) : Stocked partitions (Slab.new partitions) := by
  intro p mem
  have created := laid.pool p mem
  obtain ⟨ample, size⟩ := shape_ample (small p mem) created
  have has := Built.create_has created (size ▸ ample.size_lt_half)
  exact ⟨_, _, laid.perCpuAllocs_new mem, rfl, has, rfl⟩

section

variable (stocked : Stocked partitions s)
include stocked

/-- The pool of one CPU changes together with the number of its blocks that are out. -/
theorem Stocked.setPool {p : Partition} {pool : Built} {queue : List Nat} {out : List (Nat × Nat)}
    (mem : p ∈ partitions) (shape : pool.shape = p.pool.shape) (has : pool.Has queue)
    (inv : queue.length + out.countP (·.1 = p.cpu) = p.pool.blocks.length)
    (others : ∀ cpu ≠ p.cpu, out.countP (·.1 = cpu) = s.out.countP (·.1 = cpu)) :
    Stocked partitions { s.setPool p.cpu pool with out := out } := by
  intro o otherMember
  by_cases same : o.cpu = p.cpu
  · obtain rfl := laid.eq_of_cpu mem otherMember same
    exact ⟨pool, queue, update_self .., shape, has, inv⟩
  · obtain ⟨otherPool, otherQueue, found, rest⟩ := stocked o otherMember
    refine ⟨otherPool, otherQueue, (update_of_ne same ..).trans found, ?_⟩
    rw [others o.cpu same]
    exact rest

theorem Stocked.alloc {coreId : Nat} {res : Option Nat} (routed : Routed partitions s)
    (called : s.alloc coreId = some (res, s')) : Stocked partitions s' := by
  simp only [Slab.alloc] at called
  split at called
  · cases called
  rename_i pool found
  cases called
  obtain ⟨p, mem, rfl⟩ := routed.known coreId pool found
  obtain ⟨pool', queue, found', shape, has, inv⟩ := stocked p mem
  obtain rfl : pool' = pool := Option.some.inj (found'.symm.trans found)
  cases queue with
  | nil =>
    rw [has.nil_alloc]
    exact stocked.setPool laid mem shape has inv fun _ _ => rfl
  | cons header queue =>
    obtain ⟨nbb, taken, rest⟩ := has.cons_alloc
    rw [taken]
    refine stocked.setPool laid mem shape rest ?_ fun cpu ne => ?_
    · rw [List.length_cons] at inv
      rw [List.countP_cons_of_pos (by simp)]
      omega
    · exact List.countP_cons_of_neg (by simpa using ne.symm)

/-- A block that is out can be freed, and then it is in the pool again. -/
theorem Stocked.free {coreId b : Nat} (small : Small partitions) (routed : Routed partitions s)
    (isOut : (coreId, b) ∈ s.out) :
    ∃ pool queue s', s.perCpuAllocs coreId = some pool ∧ pool.Has queue ∧
      s.free b = some (.ok, s') ∧ Stocked partitions s' ∧
      ∃ pool', s'.perCpuAllocs coreId = some pool' ∧ pool'.Has (queue ++ [b - headerSize]) ∧
        (∀ o ≠ coreId, s'.perCpuAllocs o = s.perCpuAllocs o) ∧
        ∃ partition ∈ partitions, queue.length < partition.pool.blocks.length := by
  obtain ⟨_, pool, found, _, res⟩ := routed.handedBack laid isOut
  obtain ⟨partition, mem, rfl⟩ := routed.known coreId pool found
  obtain ⟨pool', queue, found', shape, has, counted⟩ := stocked partition mem
  obtain rfl : pool' = pool := Option.some.inj (found'.symm.trans found)
  obtain ⟨ample, size⟩ := shape_ample (small partition mem) (laid.pool partition mem)
  have some : 0 < s.out.countP (·.1 = partition.cpu) :=
    List.countP_pos_iff.mpr ⟨_, isOut, by simp⟩
  have room : queue.length < pool'.shape.size := by
    rw [shape]
    omega
  obtain ⟨nbb, freed, has'⟩ := has.free (shape ▸ ample.toAligned) room (b - headerSize)
  rw [freed] at res
  refine ⟨pool', queue, _, found, has, res, ?_, _, update_self .., has',
    fun o ne => update_of_ne ne .., partition, mem, by omega⟩
  refine stocked.setPool laid mem shape has' ?_ fun cpu ne => ?_
  · have one := (List.perm_cons_erase isOut).countP_eq (·.1 = partition.cpu)
    rw [List.countP_cons_of_pos (by simp)] at one
    rw [List.length_append, List.length_singleton]
    omega
  · have same := (List.perm_cons_erase isOut).countP_eq (·.1 = cpu)
    rw [List.countP_cons_of_neg (by simpa using ne.symm)] at same
    exact same.symm

theorem Stocked.step {call : SlabCall} (small : Small partitions) (routed : Routed partitions s)
    (ok : s.Allowed call) (step : s.step call = some s') : Stocked partitions s' := by
  cases call with
  | alloc coreId =>
    obtain ⟨⟨result, _⟩, called, rfl⟩ := Option.map_eq_some_iff.mp step
    exact stocked.alloc laid routed called
  | free block =>
    obtain ⟨⟨coreId, _⟩, isOut, rfl⟩ := List.mem_map.mp ok
    obtain ⟨_, _, after, _, _, freed, stocked', _⟩ := stocked.free laid small routed isOut
    have same : some after = some s' := by
      rw [← step, Slab.step, freed]
      rfl
    exact Option.some.inj same ▸ stocked'

end

theorem Laid.stocked (small : Small partitions)
    (run : Reaches Slab.step Slab.Allowed (Slab.new partitions) s) : Stocked partitions s := by
  have both : Routed partitions s ∧ Stocked partitions s := by
    refine run.invariant (motive := fun s => Routed partitions s ∧ Stocked partitions s)
      ⟨routed_new laid, stocked_new laid small⟩ ?_
    intro before after call holds ok step
    exact ⟨holds.1.step laid ok step, holds.2.step laid small holds.1 ok step⟩
  exact both.2

end

end Stock

end Xdk.NumaSlab
