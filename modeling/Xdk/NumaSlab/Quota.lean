import Xdk.NumaSlab.Routing

/-! # The quota of a CPU

The area of a CPU has the size of as many blocks and headers as its quota says.  Where there is
padding in front of a block, not all of them fit, and the CPU gets fewer blocks than its quota; it
never gets more.  The pool of a CPU is a fast slab allocator, with the limits of its buffer: where
the counters have begun again before all the blocks are in, `alloc` returns NULL too early.
-/

namespace Xdk.NumaSlab

open Xdk.Lib Xdk.Nbb Xdk.FastSlab

/-- The calls of `alloc` for a CPU return as many different blocks as the quota says, and then
    NULL. -/
def Slab.AllocatesQuota (params : Params) (s : Slab) (cpu : Nat) : Prop :=
  (s.allocBlocks cpu (params.perCpuBlockQuota + 1)).length = params.perCpuBlockQuota ∧
    (s.allocBlocks cpu (params.perCpuBlockQuota + 1)).Nodup

/-- The counters of the buffer can tell the blocks of a quota, and there is no padding: the area
    of a CPU has room for all of them.  A single block needs no further condition, since the
    constructor panics where not even one fits. -/
def Params.QuotaFits (params : Params) : Prop :=
  params.perCpuBlockQuota < Shape.limitOf params.perCpuBlockQuota / 2 ∧
    (params.perCpuBlockQuota = 1 ∨
      params.perCpuBlockQuota * (headerSize + params.blockSize) < 2 ^ 64 ∧
        params.alignment ∣ headerSize ∧ params.alignment ∣ params.blockSize)

/-- Quotas below 2^29 are no matter for the counters. -/
theorem lt_half_limitOf {quota : Nat} (pos : 0 < quota) (small : quota < 2 ^ 29) :
    quota < Shape.limitOf quota / 2 := by
  obtain ⟨shape, shaped⟩ := Shape.exists_create pos (by omega)
  obtain ⟨size, limit⟩ := Shape.create_size shaped
  have ample := (Shape.create_ample shaped small).size_lt_half
  rwa [Shape.half, size, limit] at ample

section Quota

variable {params : Params} {partitions : List Partition} {partition : Partition} {s : Slab}

theorem perCpuTotalSize_eq
    (fits : params.perCpuBlockQuota * (headerSize + params.blockSize) < 2 ^ 64) :
    params.perCpuTotalSize = params.perCpuBlockQuota * (headerSize + params.blockSize) := by
  obtain none | positive := Nat.eq_zero_or_pos params.perCpuBlockQuota
  · rw [Params.perCpuTotalSize, none, Nat.zero_mul, Nat.zero_mul]
    rfl
  · have single := Nat.le_mul_of_pos_left (headerSize + params.blockSize) positive
    have whole : actualBlockSize params.blockSize = headerSize + params.blockSize :=
      wrap_of_lt (Nat.lt_of_le_of_lt single fits)
    rw [Params.perCpuTotalSize, whole, wrap_of_lt fits]

theorem perCpuTotalSize_eq_iff (params : Params) :
    params.perCpuTotalSize = params.perCpuBlockQuota * (headerSize + params.blockSize) ↔
      params.perCpuBlockQuota * (headerSize + params.blockSize) < 2 ^ 64 :=
  ⟨fun same => same ▸ wrap_lt _ _, perCpuTotalSize_eq⟩

section

variable (laid : Laid params params.cpus params.addrV partitions)
include laid

theorem Laid.length_blocks {i : Nat} (found : partitions[i]? = some partition) :
    partition.pool.blocks.length =
      room (params.area (params.spaceV i)) params.alignment (params.spaceV i) := by
  rw [laid.blocks found]
  exact length_headers_eq ..

theorem Laid.length_blocks_le (mem : partition ∈ partitions) :
    partition.pool.blocks.length ≤ params.perCpuBlockQuota := by
  obtain ⟨index, found⟩ := List.mem_iff_getElem?.mp mem
  rw [laid.length_blocks found]
  exact room_le (params.alignment) (perCpuTotalSize_le params)

theorem Laid.length_blocks_eq_iff {i : Nat} (found : partitions[i]? = some partition)
    (pos : 0 < params.perCpuBlockQuota) (align : 0 < params.alignment) :
    partition.pool.blocks.length = params.perCpuBlockQuota ↔
      params.perCpuBlockQuota * (headerSize + params.blockSize) < 2 ^ 64 ∧
        params.alignment ∣ params.spaceV i + headerSize ∧
        (params.perCpuBlockQuota = 1 ∨ params.alignment ∣ headerSize + params.blockSize) := by
  have padded : ∀ position, Padded params.alignment position ↔ params.alignment ∣ position :=
    fun position => or_iff_right (Nat.pos_iff_ne_zero.mp align)
  rw [laid.length_blocks found, ← perCpuTotalSize_eq_iff, ← padded, ← padded]
  exact room_eq_iff params.alignment pos (perCpuTotalSize_le params)

end

/-- What the counters can tell of the blocks in a new pool. -/
theorem length_mod_half_iff {area : FastSlab.Params} {pool : Built} {quota : Nat}
    (created : FastSlab.create area = some pool) (most : pool.blocks.length ≤ quota) :
    pool.blocks.length % pool.shape.half = quota ↔
      pool.blocks.length = quota ∧ quota < Shape.limitOf quota / 2 := by
  obtain ⟨_, _, _, _, shaped, _⟩ := create_spec created
  have limit := (Shape.create_size shaped).2
  have below := Nat.mod_lt pool.blocks.length pool.shape.half_pos
  have bound : ∀ v, wrap 32 v < 2 ^ 32 := fun v => Nat.mod_lt _ (Nat.two_pow_pos 32)
  have half : pool.shape.half = Shape.limitOf (wrap 32 pool.blocks.length) / 2 := by
    rw [Shape.half, limit]
  constructor
  · intro same
    have least := Nat.mod_le pool.blocks.length pool.shape.half
    have all : pool.blocks.length = quota := by omega
    have fits : Shape.limitOf (wrap 32 pool.blocks.length) < 2 ^ 32 := bound _
    rw [wrap_of_lt (by omega), all] at half
    exact ⟨all, by omega⟩
  · rintro ⟨all, ample⟩
    have fits : Shape.limitOf quota < 2 ^ 32 := bound _
    rw [wrap_of_lt (by omega), all] at half
    rw [all, half, Nat.mod_eq_of_lt ample]

theorem Laid.allocatesQuota_iff (laid : Laid params params.cpus params.addrV partitions)
    (mem : partition ∈ partitions) :
    (Slab.new partitions).AllocatesQuota params partition.cpu ↔
      partition.pool.blocks.length = params.perCpuBlockQuota ∧
        params.perCpuBlockQuota < Shape.limitOf params.perCpuBlockQuota / 2 := by
  have created := laid.pool partition mem
  have most := laid.length_blocks_le mem
  rw [Slab.AllocatesQuota, Slab.allocBlocks_eq (laid.perCpuAllocs_new mem),
    ← length_mod_half_iff created most]
  have length := Built.create_length_allocBlocks created (params.perCpuBlockQuota + 1)
  constructor
  · rintro ⟨all, _⟩
    omega
  · intro all
    have below := Nat.mod_lt partition.pool.blocks.length partition.pool.shape.half_pos
    refine ⟨by omega, ?_⟩
    have has := Built.create_has created (by omega)
    rw [has.allocBlocks]
    have nodup : partition.pool.blocks.Nodup := by
      rw [create_blocks created]
      exact nodup_headers _ _ _
    exact (nodup.sublist (List.take_sublist _ _)).map fun _ _ => Nat.add_right_cancel

/-- All the CPUs get their quota exactly if there is no padding. -/
theorem Laid.length_blocks_all_iff (laid : Laid params params.cpus params.addrV partitions)
    (ne : partitions ≠ []) (aligned : params.alignment ∣ params.addrV)
    (align : 0 < params.alignment) (pos : 0 < params.perCpuBlockQuota) :
    (∀ p ∈ partitions, p.pool.blocks.length = params.perCpuBlockQuota) ↔
      params.perCpuBlockQuota = 1 ∨
        params.perCpuBlockQuota * (headerSize + params.blockSize) < 2 ^ 64 ∧
          params.alignment ∣ headerSize ∧ params.alignment ∣ params.blockSize := by
  constructor
  · intro all
    have inside : 0 < partitions.length := List.length_pos_iff.mpr ne
    have found := List.getElem?_eq_getElem inside
    have exact := (laid.length_blocks_eq_iff found pos align).mp
      (all _ (List.getElem_mem inside))
    rw [Params.spaceV, Nat.zero_mul, Nat.add_zero, Nat.dvd_add_right aligned] at exact
    obtain ⟨fits, hdr, alone | b⟩ := exact
    · exact .inl alone
    · exact .inr ⟨fits, hdr, (Nat.dvd_add_right hdr).mp b⟩
  · rintro condition p mem
    obtain alone | ⟨fits, hdr, b⟩ := condition
    · have most := laid.length_blocks_le mem
      have some := List.length_pos_iff.mpr (blocks_ne_nil (laid.pool p mem))
      omega
    · obtain ⟨i, found⟩ := List.mem_iff_getElem?.mp mem
      have whole := Nat.dvd_add hdr b
      refine (laid.length_blocks_eq_iff found pos align).mpr ⟨fits, ?_, .inr whole⟩
      have size : params.alignment ∣ params.perCpuTotalSize := by
        rw [perCpuTotalSize_eq fits]
        exact whole.mul_left _
      exact Nat.dvd_add (Nat.dvd_add aligned (size.mul_left i)) hdr

/-- In every run, a block that is out goes back to where it came from. -/
theorem Laid.returned {coreId block : Nat}
    (laid : Laid params params.cpus params.addrV partitions)
    (small : params.perCpuBlockQuota < 2 ^ 29)
    (run : Reaches Slab.step Slab.Allowed (Slab.new partitions) s)
    (isOut : (coreId, block) ∈ s.out) : s.Returned params.perCpuBlockQuota coreId block := by
  have routed := laid.routed run
  have smallPools : Small partitions := fun partition mem =>
    Nat.lt_of_le_of_lt (laid.length_blocks_le mem) small
  obtain ⟨_, _, _, hdr, _, rfl⟩ := routed.out coreId block isOut
  obtain ⟨pool, queue, s', found, has, freed, _, pool', found', has', others, partition, mem,
    room⟩ := (laid.stocked smallPools run).free laid smallPools routed isOut
  have most := laid.length_blocks_le mem
  have before : queue.take params.perCpuBlockQuota = queue := List.take_of_length_le (by omega)
  have after : (queue ++ [hdr]).take params.perCpuBlockQuota = queue ++ [hdr] := by
    refine List.take_of_length_le ?_
    rw [List.length_append, List.length_singleton]
    omega
  refine ⟨s', freed, ?_, others⟩
  rw [Nat.add_sub_cancel] at has'
  rw [Slab.allocBlocks_eq found, Slab.allocBlocks_eq found', has.allocBlocks, has'.allocBlocks,
    before, after, List.map_append]
  rfl

/-- For the pieces of memory that the constructor accepts, aligned as it is asked for: each CPU can
    allocate exactly its quota if and only if the quota fits; in every run, a block that is freed
    is handed to the allocator of the core it was allocated for; and for quotas below 2^29 it is
    then the last block in the pool of that core. -/
theorem numa_slab_quota_iff {machine : Machine}
    (created : create machine params = some partitions)
    (aligned : params.alignment ∣ params.addrV) (alignment : 0 < params.alignment)
    (positive : 1 ≤ params.perCpuBlockQuota) :
    ((∀ cpu ∈ params.cpus, (Slab.new partitions).AllocatesQuota params cpu) ↔
        params.cpus = [] ∨ params.QuotaFits) ∧
      ∀ s, Reaches Slab.step Slab.Allowed (Slab.new partitions) s →
        ∀ coreId block, (coreId, block) ∈ s.out → s.HandedBack coreId block ∧
          (params.perCpuBlockQuota < 2 ^ 29 →
            s.Returned params.perCpuBlockQuota coreId block) := by
  have laid := create_laid created
  refine ⟨?_, fun s run coreId block isOut => ⟨(laid.routed run).handedBack laid isOut,
    fun small => laid.returned small run isOut⟩⟩
  have members : (∀ cpu ∈ params.cpus, (Slab.new partitions).AllocatesQuota params cpu) ↔
      ∀ partition ∈ partitions, partition.pool.blocks.length = params.perCpuBlockQuota ∧
        params.perCpuBlockQuota < Shape.limitOf params.perCpuBlockQuota / 2 := by
    rw [← laid.cpus, List.forall_mem_map]
    exact forall₂_congr fun partition member => laid.allocatesQuota_iff member
  have empty : params.cpus = [] ↔ partitions = [] := by rw [← laid.cpus, List.map_eq_nil_iff]
  rw [members, empty]
  by_cases none : partitions = []
  · rw [none]
    exact iff_of_true (fun _ member => nomatch member) (.inl rfl)
  · have quota := laid.length_blocks_all_iff none aligned alignment positive
    rw [or_iff_right none, Params.QuotaFits, ← quota]
    constructor
    · intro all
      obtain ⟨partition, member⟩ := List.exists_mem_of_ne_nil partitions none
      exact ⟨(all partition member).2, fun partition member => (all partition member).1⟩
    · rintro ⟨ample, all⟩ partition member
      exact ⟨all partition member, ample⟩

end Quota

theorem numa_slab_quota_two_cpus :
    ∃ partitions, create ⟨1, fun _ => 0⟩ (twoCpus 512) = some partitions ∧
      (∀ cpu ∈ (twoCpus 512).cpus, (Slab.new partitions).AllocatesQuota (twoCpus 512) cpu) ∧
      ∀ s, Reaches Slab.step Slab.Allowed (Slab.new partitions) s →
        ∀ coreId block, (coreId, block) ∈ s.out →
          s.HandedBack coreId block ∧ s.Returned 2 coreId block := by
  obtain ⟨partitions, created⟩ := exists_create_twoCpus 512
  obtain ⟨quota, back⟩ := numa_slab_quota_iff created (show 64 ∣ 4096 from by decide)
    (show 0 < 64 from by decide) (show 1 ≤ 2 from by decide)
  have fits : (twoCpus 512).QuotaFits := by
    refine ⟨lt_half_limitOf Nat.two_pos (show 2 < 2 ^ 29 from by decide), .inr ⟨?_, ?_, ?_⟩⟩
    · exact show 2 * (headerSize + 64) < 2 ^ 64 from by decide
    · exact show 64 ∣ headerSize from by decide
    · exact Nat.dvd_refl 64
  refine ⟨partitions, created, quota.mpr (.inr fits), fun s run coreId block isOut => ?_⟩
  obtain ⟨handed, returned⟩ := back s run coreId block isOut
  exact ⟨handed, returned (show 2 < 2 ^ 29 from by decide)⟩

/-- One CPU with two blocks of 100 bytes, which are aligned to 64. -/
def paddedCpu : Params := ⟨4096, 328, 2, 100, .ofNat maxCpus 1, 64⟩

theorem exists_create_paddedCpu :
    ∃ partitions, create ⟨1, fun _ => 0⟩ paddedCpu = some partitions := by
  have cpus : paddedCpu.cpus = [0] := by decide +kernel
  have acceptable : paddedCpu.Acceptable := ⟨by decide, by decide, by decide, by decide⟩
  have checked : checkNodes ⟨1, fun _ => 0⟩ paddedCpu.cpus (-1) = some 0 := by
    decide
  refine acceptable.exists_create (by decide) checked (by decide) ?_
  decide

/-- The second block would end at 4452, and the area ends at 4424. -/
theorem numa_slab_quota_padded :
    ∃ partitions, create ⟨1, fun _ => 0⟩ paddedCpu = some partitions ∧ 0 ∈ paddedCpu.cpus ∧
      ((Slab.new partitions).allocBlocks 0 3).length = 1 ∧
      ¬ (Slab.new partitions).AllocatesQuota paddedCpu 0 := by
  obtain ⟨partitions, created⟩ := exists_create_paddedCpu
  have laid := create_laid created
  have cpus : paddedCpu.cpus = [0] := by decide +kernel
  have inside : 0 < partitions.length := by
    rw [laid.length]
    decide
  have found := List.getElem?_eq_getElem inside
  have member := List.getElem_mem inside
  have cpu : partitions[0].cpu = 0 := by
    have first := congrArg (·[0]?) laid.cpus
    simpa [cpus, inside] using first
  have single : partitions[0].pool.blocks.length = 1 := by
    rw [laid.length_blocks found]
    decide
  have created' := laid.pool _ member
  have told := (length_mod_half_iff created' (Nat.le_of_eq single)).mpr
    ⟨single, lt_half_limitOf Nat.one_pos (by decide)⟩
  have three : ((Slab.new partitions).allocBlocks 0 3).length = 1 := by
    have pool := laid.perCpuAllocs_new member
    rw [cpu] at pool
    rw [Slab.allocBlocks_eq pool, Built.create_length_allocBlocks created', told]
    rfl
  refine ⟨partitions, created, by rw [cpus]; exact List.mem_singleton_self 0, three, ?_⟩
  intro both
  have two : ((Slab.new partitions).allocBlocks 0 3).length = 2 := both.1
  omega

end Xdk.NumaSlab
