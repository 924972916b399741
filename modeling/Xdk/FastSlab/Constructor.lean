import Xdk.FastSlab.Allocator
import Xdk.Nbb.Laps

/-! # What the constructor builds

The headers are different from each other, and the buffer has all of them in their order.
-/

namespace Xdk.FastSlab

open Xdk.Lib Xdk.Nbb

/-! ## The headers -/

variable {params : Params}

theorem le_of_mem_headers {align cur header : Nat} (mem : header ∈ headers params align cur) :
    cur ≤ header := by
  fun_induction headers params align cur with
  | case1 cur inside d next fits ih =>
    have behind : cur + headerSize ≤ d := lt_place align cur
    obtain rfl | later := List.mem_cons.mp mem
    · omega
    · have := ih later
      omega
  | case2 cur inside d next full ih =>
    have := ih mem
    omega
  | case3 => cases mem

theorem nodup_headers (params : Params) (align cur : Nat) :
    (headers params align cur).Nodup := by
  fun_induction headers params align cur with
  | case1 cur inside d next fits ih =>
    refine List.nodup_cons.mpr ⟨fun mem => ?_, ih⟩
    have behind : cur + headerSize ≤ d := lt_place align cur
    have later := le_of_mem_headers mem
    simp only [headerSize] at behind later
    omega
  | case2 cur inside d next full ih => exact ih
  | case3 => exact List.nodup_nil

/-- Without an alignment, the area is cut into as many blocks as fit. -/
theorem length_headers (params : Params) (cur : Nat) :
    (headers params 0 cur).length =
      (params.memEnd - cur) / (headerSize + params.blockLen) := by
  have pos : 0 < headerSize + params.blockLen := Nat.add_pos_left (by decide) _
  fun_induction headers params 0 cur with
  | case1 cur inside d next fits ih =>
    have whole : next = cur + (headerSize + params.blockLen) := Nat.add_assoc _ _ _
    rw [List.length_cons, ih, whole, ← Nat.sub_sub,
      ← Nat.div_eq_sub_div pos (by omega)]
  | case2 cur inside d next full ih =>
    have whole : next = cur + (headerSize + params.blockLen) := Nat.add_assoc _ _ _
    rw [ih, Nat.sub_eq_zero_of_le (by omega), Nat.zero_div,
      Nat.div_eq_of_lt (by omega)]
  | case3 cur outside =>
    rw [Nat.sub_eq_zero_of_le (by omega), Nat.zero_div]
    rfl

/-! ## The buffer -/

open History in
theorem populate_stored {shape : Shape} (bs : List Nat) {nbb : SymmetricNbb Nat}
    {queue : List Nat} {c : Nat} (stored : Stored shape ⟨nbb, queue⟩ 0 c)
    (regular : Shape.Aligned shape ∨ c + bs.length < shape.half)
    (fits : c + bs.length ≤ shape.size) :
    ∃ filled, populate shape bs nbb = some filled ∧
      Stored shape ⟨filled, queue ++ bs⟩ 0 (c + bs.length) := by
  induction bs generalizing nbb queue c with
  | nil => exact ⟨nbb, rfl, by simpa using stored⟩
  | cons hdr rest ih =>
    rw [List.length_cons] at fits regular
    have room : c < shape.size := by omega
    have accepted : nbb.insertItem shape hdr =
        (.ok, ((nbb.beginInsert.storeSlot shape hdr).publishInsert shape).rememberInsert) := by
      have check := stored.insertCheck_eq
      rw [if_neg (by omega)] at check
      simp only [SymmetricNbb.insertItem, check]
    have next := stored.insert room (regular.imp_right (by omega)) hdr
    obtain ⟨filled, populated, stored'⟩ :=
      ih next (regular.imp_right (by omega)) (by omega)
    refine ⟨filled, ?_, ?_⟩
    · simp only [populate, accepted, populated]
    · rw [List.length_cons, Nat.add_comm rest.length, ← Nat.add_assoc]
      simpa using stored'

theorem create_spec {built : Built} (created : create params = some built) :
    ∃ align, params.useAlignment = some align ∧
      built.blocks = headers params align params.memArea ∧ built.blocks.length ≠ 0 ∧
      Shape.create (wrap 32 built.blocks.length) = some built.shape ∧
      populate built.shape built.blocks .init = some built.nbb := by
  simp only [create] at created
  split at created
  · cases created
  obtain ⟨align, used, created⟩ := Option.bind_eq_some_iff.mp created
  split at created
  · cases created
  rename_i pos
  obtain ⟨shape, shaped, created⟩ := Option.bind_eq_some_iff.mp created
  obtain ⟨nbb, populated, created⟩ := Option.bind_eq_some_iff.mp created
  split at created
  · cases created
  · rename_i inv
    rw [not_not] at inv
    cases created
    rw [← inv] at shaped pos
    exact ⟨align, used, rfl, pos, shaped, populated⟩

theorem create_stored {built : Built} (created : create params = some built)
    (small : built.blocks.length < 2 ^ 30) :
    built.blocks.Nodup ∧ Shape.create built.blocks.length = some built.shape ∧
      History.Stored built.shape ⟨built.nbb, built.blocks⟩ 0 built.blocks.length := by
  obtain ⟨alignment, _, blocks, _, shaped, populated⟩ := create_spec created
  rw [wrap_of_lt (by omega)] at shaped
  obtain ⟨size, _⟩ := Shape.create_size shaped
  have aligned := Shape.create_aligned shaped (by omega)
  obtain ⟨filled, same, stored⟩ :=
    populate_stored built.blocks (History.stored_init built.shape) (.inl aligned) (by omega)
  have isFilled : built.nbb = filled := Option.some.inj (populated.symm.trans same)
  refine ⟨?_, shaped, ?_⟩
  · rw [blocks]
    exact nodup_headers _ _ _
  · rw [isFilled]
    simpa using stored

theorem numOfBlocks_eq (params : Params) (align : Nat) :
    numOfBlocks params align = (headers params align params.memArea).length := by
  rw [numOfBlocks]
  split
  · rename_i unaligned
    rw [unaligned, length_headers, Params.memEnd, Nat.add_sub_cancel_left]
  · rfl

/-- The constructor builds a pool of any number of blocks below 2^30. -/
theorem exists_create_headers {params : Params} {align : Nat} (area : params.memArea ≠ 0)
    (len : params.memLen ≠ 0) (used : params.useAlignment = some align)
    (pos : 0 < (headers params align params.memArea).length)
    (small : (headers params align params.memArea).length < 2 ^ 30) :
    ∃ built, create params = some built ∧
      built.blocks = headers params align params.memArea := by
  have number := numOfBlocks_eq params align
  obtain ⟨shape, shaped⟩ := Shape.exists_create pos small
  obtain ⟨size, _⟩ := Shape.create_size shaped
  obtain ⟨nbb, populated, _⟩ := populate_stored (headers params align params.memArea)
    (History.stored_init shape) (.inl (Shape.create_aligned shaped (by omega))) (by omega)
  refine ⟨⟨headers params align params.memArea, shape, nbb⟩, ?_, rfl⟩
  have fits : wrap 32 (headers params align params.memArea).length =
      (headers params align params.memArea).length := wrap_of_lt (by omega)
  simp only [create, used, number, fits, shaped, populated, area, len, or_self, if_false,
    ne_eq, Option.bind_eq_bind, Option.bind_some]
  rw [if_neg (by omega)]
  rfl

theorem exists_create {params : Params} {number : Nat} (area : params.memArea ≠ 0)
    (unaligned : params.alignment = 0)
    (fit : params.memLen / (headerSize + params.blockLen) = number) (positive : 0 < number)
    (small : number < 2 ^ 30) :
    ∃ built, create params = some built ∧ built.blocks.length = number := by
  have inv : (headers params 0 params.memArea).length = number := by
    rw [length_headers, Params.memEnd, Nat.add_sub_cancel_left, fit]
  have len : params.memLen ≠ 0 := by
    intro empty
    rw [empty, Nat.zero_div] at fit
    omega
  have used : params.useAlignment = some 0 := by
    rw [Params.useAlignment, unaligned]
    rfl
  obtain ⟨built, created, blocks⟩ :=
    exists_create_headers area len used (by omega) (by omega)
  exact ⟨built, created, blocks ▸ inv⟩

end Xdk.FastSlab
