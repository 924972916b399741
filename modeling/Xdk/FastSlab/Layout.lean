import Xdk.FastSlab.Constructor

/-! # Where the blocks are

The loop of the constructor aligns the data of every block.  Behind an aligned block the padding
is always the same, so that the blocks are equally far apart: the layout of an area is an
arithmetic progression, with as many members as fit.
-/

namespace Xdk.FastSlab

open Xdk.Lib Xdk.Nbb

def stride (params : Params) (alignment : Nat) : Nat :=
  padUp alignment (headerSize + params.blockLen)

theorem le_stride (params : Params) (alignment : Nat) :
    headerSize + params.blockLen ≤ stride params alignment := le_padUp _ _

theorem stride_pos (params : Params) (alignment : Nat) : 0 < stride params alignment :=
  Nat.lt_of_lt_of_le (Nat.add_pos_left (by decide) _) (le_stride params alignment)

/-- The data of the block after the one at `cur`. -/
theorem place_next (params : Params) (alignment cur : Nat) :
    place alignment (place alignment cur + params.blockLen) =
      place alignment cur + stride params alignment := by
  have padded : Padded alignment (place alignment cur) := padded_padUp _ _
  rw [stride, ← padUp_add padded, Nat.add_comm headerSize, ← Nat.add_assoc]
  rfl

def room (params : Params) (alignment cur : Nat) : Nat :=
  fitting (place alignment cur) params.blockLen (stride params alignment) params.memEnd

theorem headers_eq (params : Params) (alignment cur : Nat) :
    headers params alignment cur =
      List.range' (place alignment cur - headerSize) (room params alignment cur)
        (stride params alignment) := by
  fun_induction headers params alignment cur with
  | case1 cur inside d next fits ih =>
    have behind : cur + headerSize ≤ d := lt_place alignment cur
    have following : place alignment next = d + stride params alignment := place_next ..
    have more : room params alignment cur = room params alignment next + 1 := by
      rw [room, room, following]
      exact fitting_succ (stride_pos ..) fits
    rw [more, ih]
    congr 2
    omega
  | case2 cur inside d next full ih =>
    have beyond : next + headerSize ≤ place alignment next := lt_place alignment next
    have none : room params alignment cur = 0 := fitting_eq_zero (Nat.not_le.mp full)
    have still : room params alignment next = 0 := fitting_eq_zero (by omega)
    rw [ih, none, still]
    rfl
  | case3 cur outside =>
    have behind : cur + headerSize ≤ place alignment cur := lt_place alignment cur
    have none : room params alignment cur = 0 := by
      refine fitting_eq_zero ?_
      simp only [headerSize] at behind
      omega
    rw [none]
    rfl

variable {params : Params} {align cur hdr : Nat}

/-- A header and its data, in their place in the layout. -/
theorem mem_headers_iff :
    hdr ∈ headers params align cur ↔
      ∃ index < room params align cur,
        hdr + headerSize = place align cur + stride params align * index := by
  have behind : cur + headerSize ≤ place align cur := lt_place align cur
  rw [headers_eq, List.mem_range']
  constructor
  · rintro ⟨index, inside, rfl⟩
    exact ⟨index, inside, by omega⟩
  · rintro ⟨index, inside, same⟩
    exact ⟨index, inside, by omega⟩

theorem length_headers_eq (params : Params) (align cur : Nat) :
    (headers params align cur).length = room params align cur := by
  rw [headers_eq, List.length_range']

theorem end_le_of_mem_headers (mem : hdr ∈ headers params align cur) :
    hdr + headerSize + params.blockLen ≤ params.memEnd := by
  obtain ⟨index, inside, same⟩ := mem_headers_iff.mp mem
  rw [same]
  exact (lt_fitting_iff (stride_pos ..)).mp inside

def lastEnd (params : Params) (alignment cur : Nat) : Nat :=
  let first := place alignment cur + params.blockLen
  first + (params.memEnd - first) / stride params alignment * stride params alignment

theorem end_le_lastEnd (mem : hdr ∈ headers params align cur) :
    hdr + headerSize + params.blockLen ≤ lastEnd params align cur := by
  obtain ⟨index, inside, same⟩ := mem_headers_iff.mp mem
  rw [same]
  exact end_le_of_lt_fitting inside

theorem exists_end_eq_lastEnd (ne : headers params align cur ≠ []) :
    ∃ hdr ∈ headers params align cur,
      hdr + headerSize + params.blockLen = lastEnd params align cur := by
  have pos : 0 < room params align cur := by
    rw [← length_headers_eq]
    exact List.length_pos_iff.mpr ne
  have fits : place align cur + params.blockLen ≤ params.memEnd := fitting_pos_iff.mp pos
  have behind : cur + headerSize ≤ place align cur := lt_place align cur
  let last := (params.memEnd - (place align cur + params.blockLen)) / stride params align
  refine ⟨place align cur - headerSize + stride params align * last, ?_, ?_⟩
  · refine mem_headers_iff.mpr ⟨last, ?_, by omega⟩
    rw [room, fitting, if_pos fits]
    exact Nat.lt_succ_self last
  · show _ = place align cur + params.blockLen + last * stride params align
    rw [Nat.mul_comm last]
    omega

/-! ## How many blocks fit -/

/-- An area of `quota` blocks with their headers, and perhaps less, has room for at most `quota`
    blocks; for all of them exactly if there is no padding at all. -/
theorem room_le {quota : Nat} (align : Nat)
    (len : params.memLen ≤ quota * (headerSize + params.blockLen)) :
    room params align params.memArea ≤ quota := by
  have behind := lt_place align params.memArea
  have pos := stride_pos params align
  by_contra more
  have fits := (lt_fitting_iff pos).mp (Nat.not_le.mp more)
  have strides := Nat.mul_le_mul_left quota (le_stride params align)
  rw [Nat.mul_comm quota (stride _ _)] at strides
  simp only [Params.memEnd, headerSize] at fits behind len strides
  omega

theorem room_eq_iff {quota : Nat} (alignment : Nat) (pos : 0 < quota)
    (len : params.memLen ≤ quota * (headerSize + params.blockLen)) :
    room params alignment params.memArea = quota ↔
      params.memLen = quota * (headerSize + params.blockLen) ∧
        Padded alignment (params.memArea + headerSize) ∧
        (quota = 1 ∨ Padded alignment (headerSize + params.blockLen)) := by
  obtain ⟨others, rfl⟩ := Nat.exists_eq_succ_of_ne_zero (Nat.pos_iff_ne_zero.mp pos)
  have most := room_le alignment len
  have first : params.memArea + headerSize ≤ place alignment params.memArea := lt_place ..
  have next : headerSize + params.blockLen ≤ stride params alignment := le_stride ..
  have strides := Nat.mul_le_mul_right others next
  have all : room params alignment params.memArea = others + 1 ↔
      place alignment params.memArea + stride params alignment * others + params.blockLen ≤
        params.memArea + params.memLen := by
    rw [← lt_fitting_iff (stride_pos params alignment)]
    exact ⟨fun same => Nat.lt_of_succ_le (Nat.le_of_eq same.symm),
      fun lt => Nat.le_antisymm most lt⟩
  rw [all, ← padUp_eq_self_iff, ← padUp_eq_self_iff, ← place]
  rw [Nat.succ_mul, Nat.mul_comm others] at len ⊢
  constructor
  · intro fits
    refine ⟨by omega, by omega, ?_⟩
    obtain rfl | more := Nat.eq_zero_or_pos others
    · exact .inl rfl
    · refine .inr (Nat.le_antisymm ?_ next)
      exact Nat.le_of_mul_le_mul_right (show stride params alignment * others ≤ _ by omega) more
  · rintro ⟨whole, placed, alone | same⟩
    · obtain rfl : others = 0 := by omega
      omega
    · have same : stride params alignment = headerSize + params.blockLen := same
      rw [same]
      omega

/-! ## The constructor -/

/-- The alignment 1 asks for no padding, and neither does 0. -/
theorem headers_useAlignment (used : params.useAlignment = some align) (cur : Nat) :
    headers params align cur = headers params params.alignment cur := by
  simp only [Params.useAlignment] at used
  split at used
  · cases used
  · cases used
    split
    · rename_i one
      have same : ∀ position, padUp 0 position = padUp 1 position := fun position =>
        (padUp_eq_self_iff.mpr (.inl rfl)).trans (padUp_one position).symm
      rw [one]
      simp only [headers_eq, room, stride, place, same]
    · rfl

theorem create_blocks {built : Built} (created : create params = some built) :
    built.blocks = headers params params.alignment params.memArea := by
  obtain ⟨alignment, used, blocks, _⟩ := create_spec created
  exact blocks.trans (headers_useAlignment used _)

theorem blocks_ne_nil {built : Built} (created : create params = some built) :
    built.blocks ≠ [] := by
  obtain ⟨_, _, _, pos, _⟩ := create_spec created
  exact List.ne_nil_of_length_pos (Nat.pos_of_ne_zero pos)

end Xdk.FastSlab
