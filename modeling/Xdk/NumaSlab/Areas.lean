import Xdk.NumaSlab.Allocator

/-! # Where the partitions are

The areas of the CPUs follow each other, so that they are disjoint, and the blocks of a CPU are
within its area.  That the areas end within the memory that the constructor is given is not
checked: `total_size` is printed and not looked at again.  The blocks are within the memory exactly
if the last block of the last CPU is.
-/

namespace Xdk.NumaSlab

open Xdk.Lib Xdk.FastSlab

def Partition.Spans (partition : Partition) (address : Nat) : Prop :=
  partition.area.memArea ≤ address ∧ address < partition.area.memEnd

def Partition.Disjoint (left right : Partition) : Prop :=
  ∀ address, left.Spans address → ¬ right.Spans address

/-- Every block of the partition, with its header, is in the memory that the constructor was
    given. -/
def Partition.Inside (params : Params) (partition : Partition) : Prop :=
  ∀ header ∈ partition.pool.blocks, params.addrV ≤ header ∧
    header + headerSize + params.blockSize ≤ params.addrV + params.totalSize

namespace Params

def spaceV (params : Params) (index : Nat) : Nat := params.addrV + index * params.perCpuTotalSize

/-- Where the last block of the last CPU ends: the end of the first block in the area of that CPU,
    and as many whole strides as there are up to the end of the area. -/
def lastBlockEnd (params : Params) : Nat :=
  let lastSpaceV := params.spaceV (params.cpus.length - 1)
  lastEnd (params.area lastSpaceV) params.alignment lastSpaceV

end Params

section Constructed

variable {params : Params} {partitions : List Partition}

theorem memEnd_area (params : Params) (i : Nat) :
    (params.area (params.spaceV i)).memEnd = params.spaceV (i + 1) := by
  rw [Params.spaceV, Params.spaceV, Nat.succ_mul, ← Nat.add_assoc]
  rfl

theorem spaceV_mono (params : Params) {first second : Nat} (ordered : first ≤ second) :
    params.spaceV first ≤ params.spaceV second :=
  Nat.add_le_add_left (Nat.mul_le_mul_right _ ordered) _

theorem Laid.pairwise_disjoint (laid : Laid params params.cpus params.addrV partitions) :
    partitions.Pairwise Partition.Disjoint := by
  rw [List.pairwise_iff_getElem]
  intro first second firstInside secondInside ordered
  have firstArea := laid.area first _ (List.getElem?_eq_getElem firstInside)
  have secondArea := laid.area second _ (List.getElem?_eq_getElem secondInside)
  have apart : (params.area (params.spaceV first)).memEnd ≤ params.spaceV second := by
    rw [memEnd_area]
    exact spaceV_mono params ordered
  intro address inFirst inSecond
  have below : address < (params.area (params.spaceV first)).memEnd := firstArea ▸ inFirst.2
  have above : params.spaceV second ≤ address := by
    have begins := inSecond.1
    rwa [secondArea] at begins
  omega

variable {partition : Partition}

section

variable (laid : Laid params params.cpus params.addrV partitions)
include laid

/-- A block ends within the area of its CPU. -/
theorem Laid.block_inside {i hdr : Nat} (found : partitions[i]? = some partition)
    (mem : hdr ∈ partition.pool.blocks) :
    params.spaceV i ≤ hdr ∧
      hdr + headerSize + params.blockSize ≤ params.spaceV (i + 1) := by
  rw [laid.blocks found] at mem
  rw [← memEnd_area]
  exact ⟨le_of_mem_headers mem, end_le_of_mem_headers mem⟩

theorem Laid.block_end_le {i hdr : Nat} (found : partitions[i]? = some partition)
    (mem : hdr ∈ partition.pool.blocks) :
    hdr + headerSize + params.blockSize ≤ params.lastBlockEnd := by
  have inside : i < partitions.length := List.getElem?_eq_some_iff.mp found |>.1
  rw [laid.length] at inside
  obtain last | earlier := Nat.eq_or_lt_of_le (Nat.le_pred_of_lt inside)
  · have blocks := laid.blocks found
    rw [last] at blocks
    rw [blocks] at mem
    exact end_le_lastEnd mem
  · have bounds := laid.block_inside found mem
    have before : params.spaceV (i + 1) ≤ params.spaceV (params.cpus.length - 1) :=
      spaceV_mono params earlier
    have behind : params.spaceV (params.cpus.length - 1) + headerSize ≤
        place params.alignment (params.spaceV (params.cpus.length - 1)) := lt_place ..
    have least : place params.alignment (params.spaceV (params.cpus.length - 1)) ≤
        params.lastBlockEnd := Nat.le_trans (Nat.le_add_right _ _) (Nat.le_add_right _ _)
    omega

theorem Laid.exists_end_eq (ne : params.cpus ≠ []) :
    ∃ p ∈ partitions, ∃ hdr ∈ p.pool.blocks,
      hdr + headerSize + params.blockSize = params.lastBlockEnd := by
  have positive : 0 < params.cpus.length := List.length_pos_iff.mpr ne
  have inside : params.cpus.length - 1 < partitions.length := by
    rw [laid.length]
    omega
  have found := List.getElem?_eq_getElem inside
  have blocks := laid.blocks found
  have mem := List.getElem_mem inside
  have some := blocks_ne_nil (laid.pool _ mem)
  rw [blocks] at some
  obtain ⟨hdr, isBlock, same⟩ := exists_end_eq_lastEnd some
  exact ⟨_, mem, hdr, blocks ▸ isBlock, same⟩

end

/-- The areas are disjoint, and the blocks are all inside of the memory exactly if the last block
    ends there. -/
theorem numa_partitions_inside_iff {machine : Machine}
    (created : create machine params = some partitions) :
    partitions.Pairwise Partition.Disjoint ∧
      ((∀ partition ∈ partitions, partition.Inside params) ↔
        params.cpus = [] ∨ params.lastBlockEnd ≤ params.addrV + params.totalSize) := by
  have laid := create_laid created
  refine ⟨laid.pairwise_disjoint, ?_, ?_⟩
  · intro inside
    by_cases nonempty : params.cpus = []
    · exact .inl nonempty
    · obtain ⟨partition, member, header, block, last⟩ := laid.exists_end_eq nonempty
      exact .inr (last ▸ (inside partition member header block).2)
  · intro condition partition member header block
    obtain ⟨index, found⟩ := List.mem_iff_getElem?.mp member
    have begins := (laid.block_inside found block).1
    have ends := laid.block_end_le found block
    have first : params.addrV ≤ params.spaceV index := Nat.le_add_right _ _
    obtain none | enough := condition
    · have length := laid.length
      rw [none, List.length_nil, List.length_eq_zero_iff] at length
      rw [length] at member
      cases member
    · exact ⟨Nat.le_trans first begins, Nat.le_trans ends enough⟩

end Constructed

/-- Two CPUs with two blocks of 64 bytes each: with their headers, they take 512 bytes. -/
def twoCpus (totalSize : Nat) : Params := ⟨4096, totalSize, 2, 64, .ofNat maxCpus 3, 64⟩

theorem cpus_twoCpus (totalSize : Nat) : (twoCpus totalSize).cpus = [0, 1] := by
  show (List.range maxCpus).filter (BitVec.ofNat maxCpus 3).getLsbD = [0, 1]
  decide +kernel

theorem exists_create_twoCpus (totalSize : Nat) :
    ∃ partitions, create ⟨1, fun _ => 0⟩ (twoCpus totalSize) = some partitions := by
  have acceptable : (twoCpus totalSize).Acceptable :=
    { power := show FastSlab.Params.isPowerOfTwo 64 from by decide
      alignment := show 64 < 2 ^ 31 from by decide
      data := show 0 < 64 from by decide
      small := show 2 < 2 ^ 30 from by decide }
  have checked : checkNodes ⟨1, fun _ => 0⟩ (twoCpus totalSize).cpus (-1) = some 0 := by
    rw [cpus_twoCpus]
    decide
  refine acceptable.exists_create (by decide) checked (show 4096 ≠ 0 from by decide) ?_
  rw [cpus_twoCpus]
  show ∀ i < 2, 0 < room ⟨4096 + i * 256, 256, 64, 64⟩ 64 (4096 + i * 256)
  decide

theorem numa_partitions_inside_two_cpus :
    ∃ partitions, create ⟨1, fun _ => 0⟩ (twoCpus 512) = some partitions ∧
      partitions.Pairwise Partition.Disjoint ∧
      ∀ partition ∈ partitions, partition.Inside (twoCpus 512) := by
  obtain ⟨partitions, created⟩ := exists_create_twoCpus 512
  obtain ⟨disjoint, inside⟩ := numa_partitions_inside_iff created
  refine ⟨partitions, created, disjoint, inside.mpr (.inr ?_)⟩
  decide

/-- With 256 bytes the constructor completes too, and the blocks of the second CPU are behind the
    end of the memory. -/
theorem numa_partitions_outside :
    ∃ partitions, create ⟨1, fun _ => 0⟩ (twoCpus 256) = some partitions ∧
      ∃ partition ∈ partitions, ¬ partition.Inside (twoCpus 256) := by
  obtain ⟨partitions, created⟩ := exists_create_twoCpus 256
  have nonempty : (twoCpus 256).cpus ≠ [] := by
    exact List.cons_ne_nil _ _
  obtain ⟨partition, member, header, block, last⟩ := (create_laid created).exists_end_eq nonempty
  refine ⟨partitions, created, partition, member, fun inside => ?_⟩
  have ends := (inside header block).2
  rw [last] at ends
  exact absurd ends (by decide)

end Xdk.NumaSlab
