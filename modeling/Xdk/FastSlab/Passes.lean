import Xdk.FastSlab.Layout
import Xdk.Lib.Word

/-! # The two passes of the constructor

The constructor counts the blocks, makes a buffer for so many, and goes over the area a second
time to make the headers and insert them.  Without an alignment the first pass is a division.

Here the passes are modelled with the widths of their variables.  The area is part of the address
space of a process, so that only the addition of the block length can wrap; the number of blocks
is a `size_t` of which the buffer gets the lower 32 bits.
-/

namespace Xdk.FastSlab

open Xdk.Lib Xdk.Nbb

/-- An area of the process, a length that is a `size_t` and an alignment that is an `int`. -/
structure Params.Typed (params : Params) : Prop where
  area : params.memArea ≠ 0
  length : params.memLen ≠ 0
  memory : params.memEnd ≤ 2 ^ 47
  blockLen : params.blockLen < 2 ^ 64
  alignment : params.alignment < 2 ^ 31

def Params.actualBlockLen (params : Params) : Nat := wrap 64 (headerSize + params.blockLen)

def nextCur (params : Params) (d : Nat) : Nat := wrap 64 (d + params.blockLen)

def countPass (params : Params) (alignment : Nat) : (fuel cur : Nat) → Option Nat
  | 0, _ => none
  | fuel + 1, cur =>
    if cur < params.memEnd then
      let next := nextCur params (place alignment cur)
      if next ≤ params.memEnd then (countPass params alignment fuel next).map (· + 1)
      else countPass params alignment fuel next
    else some 0

/-- `__num_of_blocks`; `none` is the division by 0 and the pass that does not end. -/
def countBlocks (params : Params) (alignment fuel : Nat) : Option Nat :=
  if alignment = 0 then
    if params.actualBlockLen = 0 then none else some (params.memLen / params.actualBlockLen)
  else countPass params alignment fuel params.memArea

/-- The second pass: the headers in their order, unless an assertion fails. -/
def populatePass (params : Params) (alignment : Nat) : (fuel cur : Nat) → Option (List Nat)
  | 0, _ => none
  | fuel + 1, cur =>
    if cur < params.memEnd then
      let d := place alignment cur
      let next := nextCur params d
      if next ≤ params.memEnd then
        if d = headerSize ∨ d < params.memArea ∨ params.memEnd ≤ d then none
        else (populatePass params alignment fuel next).map ((d - headerSize) :: ·)
      else populatePass params alignment fuel next
    else some []

/-! ## The blocks are equally far apart -/

def passStride (params : Params) (alignment : Nat) : Nat := padUp alignment params.actualBlockLen

def passRoom (params : Params) (alignment cur : Nat) : Nat :=
  fitting (place alignment cur) params.actualBlockLen (passStride params alignment)
    (params.memEnd + headerSize)

def passHeaders (params : Params) (alignment cur : Nat) : List Nat :=
  List.range' (place alignment cur - headerSize) (passRoom params alignment cur)
    (passStride params alignment)

section Progression

variable {params : Params} {alignment cur : Nat}

theorem passStride_pos (pos : 0 < params.actualBlockLen) : 0 < passStride params alignment :=
  Nat.lt_of_lt_of_le pos (le_padUp _ _)

/-- Where the sum does not wrap, or wraps together with the length of the whole block. -/
theorem nextCur_eq {d : Nat} (behind : headerSize ≤ d)
    (fits : d + params.actualBlockLen < 2 ^ 64 + headerSize) :
    nextCur params d + headerSize = d + params.actualBlockLen := by
  simp only [nextCur, Params.actualBlockLen, wrap] at *
  omega

/-- The data behind that of the block at `cur`. -/
theorem place_of_next {next : Nat}
    (there : next + headerSize = place alignment cur + params.actualBlockLen) :
    place alignment next = place alignment cur + passStride params alignment := by
  have padded : Padded alignment (place alignment cur) := padded_padUp _ _
  rw [passStride, ← padUp_add padded, ← there]
  rfl

theorem passHeaders_cons (pos : 0 < params.actualBlockLen) {next : Nat}
    (there : next + headerSize = place alignment cur + params.actualBlockLen)
    (inside : next ≤ params.memEnd) :
    passHeaders params alignment cur =
      (place alignment cur - headerSize) :: passHeaders params alignment next := by
  have behind := lt_place alignment cur
  have following := place_of_next there
  have more : passRoom params alignment cur = passRoom params alignment next + 1 := by
    rw [passRoom, passRoom, following]
    exact fitting_succ (passStride_pos pos) (by omega)
  rw [passHeaders, more, List.range'_succ]
  congr 2
  omega

theorem passHeaders_nil (full : params.memEnd + headerSize <
    place alignment cur + params.actualBlockLen) : passHeaders params alignment cur = [] := by
  rw [passHeaders, passRoom, fitting_eq_zero full]
  rfl

theorem passHeaders_of_ge (positive : 0 < params.actualBlockLen) (outside : params.memEnd ≤ cur) :
    passHeaders params alignment cur = [] := by
  have behind := lt_place alignment cur
  exact passHeaders_nil (by omega)

/-- The end of the block at `cur` does not wrap. -/
def Straight (params : Params) (alignment cur : Nat) : Prop :=
  place alignment cur + params.actualBlockLen < 2 ^ 64 + headerSize

theorem place_le (alignment cur : Nat) : place alignment cur ≤ cur + headerSize + alignment := by
  simp only [place, padUp]
  split
  · have position := Nat.div_mul_le_self (cur + headerSize) alignment
    omega
  · omega

section

variable (typed : params.Typed) (short : alignment < 2 ^ 31)
include typed short

theorem Straight.next {next : Nat}
    (there : next + headerSize = place alignment cur + params.actualBlockLen)
    (inside : next ≤ params.memEnd) : Straight params alignment next := by
  have memory := typed.memory
  have reach := place_le alignment next
  simp only [Straight, headerSize] at there reach ⊢
  omega

/-- What an iteration of either pass comes upon: the end of the area, too little room for another
    block, or a block. -/
theorem pass_induction (pos : 0 < params.actualBlockLen) {motive : Nat → List Nat → Prop}
    (ends : ∀ {cur}, params.memEnd ≤ cur → motive cur [])
    (full : ∀ {cur}, cur < params.memEnd → params.memEnd < nextCur params (place alignment cur) →
      motive cur [])
    (block : ∀ {cur rest}, cur < params.memEnd →
      nextCur params (place alignment cur) ≤ params.memEnd →
      cur < nextCur params (place alignment cur) →
      motive (nextCur params (place alignment cur)) rest →
      motive cur ((place alignment cur - headerSize) :: rest))
    (straight : Straight params alignment cur) : motive cur (passHeaders params alignment cur) := by
  induction left : params.memEnd - cur using Nat.strong_induction_on generalizing cur with
  | _ left ih =>
    have behind := lt_place alignment cur
    have there := nextCur_eq (Nat.le_trans (Nat.le_add_left _ _) behind) straight
    obtain inside | outside := Nat.lt_or_ge cur params.memEnd
    · obtain beyond | fits := Nat.lt_or_ge params.memEnd (nextCur params (place alignment cur))
      · rw [passHeaders_nil (by omega)]
        exact full inside beyond
      · rw [passHeaders_cons pos there fits]
        exact block inside fits (by omega) (ih _ (by omega) (.next typed short there fits) rfl)
    · rw [passHeaders_of_ge pos outside]
      exact ends outside

section

variable (pos : 0 < params.actualBlockLen) (straight : Straight params alignment cur)
include pos straight

/-- The first pass ends and has counted the blocks. -/
theorem countPass_iff (n : Nat) :
    (∃ fuel, countPass params alignment fuel cur = some n) ↔
      n = (passHeaders params alignment cur).length := by
  refine pass_induction (motive := fun cur blocks => ∀ n,
    (∃ fuel, countPass params alignment fuel cur = some n) ↔ n = blocks.length)
    typed short pos ?_ ?_ ?_ straight n
  · intro cur outside n
    rw [← Nat.or_exists_add_one]
    simp [countPass, Nat.not_lt.mpr outside, eq_comm]
  · intro cur inside full n
    rw [← Nat.or_exists_add_one, ← Nat.or_exists_add_one]
    simp [countPass, Nat.not_le.mpr full, Nat.not_lt.mpr full.le, eq_comm]
  · intro cur rest inside fits _ ih n
    rw [← Nat.or_exists_add_one]
    simp only [countPass, if_pos inside, if_pos fits, Option.map_eq_some_iff, reduceCtorEq,
      false_or]
    rw [exists_comm]
    simp only [exists_and_right, ih, exists_eq_left]
    exact eq_comm

/-- The second pass ends and has made the headers, unless one of them is at the end of the area. -/
theorem populatePass_iff (within : params.memArea ≤ cur) (bs : List Nat) :
    (∃ fuel, populatePass params alignment fuel cur = some bs) ↔
      bs = passHeaders params alignment cur ∧ ∀ hdr ∈ bs, hdr + headerSize < params.memEnd := by
  refine pass_induction (motive := fun cur blocks => params.memArea ≤ cur → ∀ bs,
    (∃ fuel, populatePass params alignment fuel cur = some bs) ↔
      bs = blocks ∧ ∀ hdr ∈ bs, hdr + headerSize < params.memEnd)
    typed short pos ?_ ?_ ?_ straight within bs
  · intro cur outside _ bs
    rw [← Nat.or_exists_add_one]
    simp +contextual [populatePass, Nat.not_lt.mpr outside, eq_comm]
  · intro cur inside full _ bs
    rw [← Nat.or_exists_add_one, ← Nat.or_exists_add_one]
    simp +contextual [populatePass, inside, Nat.not_le.mpr full, Nat.not_lt.mpr full.le, eq_comm]
  · intro cur rest inside fits later ih within bs
    have behind := lt_place alignment cur
    have area := typed.area
    rw [← Nat.or_exists_add_one]
    simp only [populatePass, if_pos inside, if_pos fits, reduceCtorEq, false_or]
    by_cases last : params.memEnd ≤ place alignment cur
    · simp only [last, or_true, if_true, reduceCtorEq, exists_false, false_iff]
      rintro ⟨rfl, lt⟩
      have := lt _ List.mem_cons_self
      omega
    · simp only [if_neg (show ¬ (place alignment cur = headerSize ∨
        place alignment cur < params.memArea ∨ params.memEnd ≤ place alignment cur) by omega),
        Option.map_eq_some_iff]
      rw [exists_comm]
      simp only [exists_and_right, ih (within.trans later.le)]
      constructor
      · rintro ⟨others, ⟨rfl, lt⟩, rfl⟩
        exact ⟨rfl, List.forall_mem_cons.mpr ⟨by omega, lt⟩⟩
      · rintro ⟨rfl, lt⟩
        exact ⟨rest, ⟨rfl, (List.forall_mem_cons.mp lt).2⟩, rfl⟩

end

end

end Progression

/-! ## The buffer -/

/-- With nothing taken out, an item is refused when the counter stands at the size. -/
theorem insertCheck_eq (shape : Shape) (c : Nat) :
    SymmetricNbb.insertCheck shape (2 * (c % shape.half)) 0 =
      if c % shape.half = shape.size then some .full else none := by
  have below := Nat.mod_lt c shape.half_pos
  have limit := shape.limit_lt
  have even := shape.countLimit_eq
  have size_pos := shape.size_pos
  have size_lt := shape.size_lt
  have double : wrap 32 (2 * shape.size) = 2 * shape.size := wrap_of_lt (by omega)
  have ahead : wrapSub 32 (2 * (c % shape.half)) 0 = 2 * (c % shape.half) :=
    wrapSub_of_le (Nat.zero_le _) (by omega)
  have odd : wrapSub 32 (2 * shape.size) 1 = 2 * shape.size - 1 :=
    wrapSub_of_le (by omega) (by omega)
  rw [SymmetricNbb.insertCheck, double]
  split_ifs <;> first | rfl | (exfalso; omega)

theorem populate_isSome_iff (shape : Shape) (bs : List Nat) {nbb : SymmetricNbb Nat}
    {c : Nat} (lastUc : nbb.lastUc = 2 * (c % shape.half)) (ac : nbb.ac = 0) :
    (populate shape bs nbb).isSome = true ↔
      ∀ k, c ≤ k → k < c + bs.length → k % shape.half ≠ shape.size := by
  induction bs generalizing nbb c with
  | nil =>
    simp only [populate, Option.isSome_some, true_iff, List.length_nil]
    omega
  | cons hdr rest ih =>
    rw [List.length_cons]
    by_cases full : c % shape.half = shape.size
    · have refused : populate shape (hdr :: rest) nbb = none := by
        simp only [populate, SymmetricNbb.insertItem, lastUc, ac, insertCheck_eq, if_pos full]
      rw [refused]
      simp only [Option.isSome_none, Bool.false_eq_true, false_iff]
      exact fun never => never c (Nat.le_refl _) (by omega) full
    · have accepted : populate shape (hdr :: rest) nbb = populate shape rest
          ((nbb.beginInsert.storeSlot shape hdr).publishInsert shape).rememberInsert := by
        have check : SymmetricNbb.insertCheck shape nbb.lastUc nbb.ac = none := by
          rw [lastUc, ac, insertCheck_eq, if_neg full]
        simp only [populate, SymmetricNbb.insertItem, check]
      have next : shape.advance nbb.lastUc = 2 * ((c + 1) % shape.half) := by
        rw [lastUc, History.advance_eq]
      have further := @ih
        ((nbb.beginInsert.storeSlot shape hdr).publishInsert shape).rememberInsert _ next ac
      rw [accepted, further]
      constructor
      · intro never k from_ lt
        obtain rfl | later := Nat.eq_or_lt_of_le from_
        · exact full
        · exact never k later (by omega)
      · exact fun never k from_ lt => never k (by omega) (by omega)

/-- A buffer that nobody reads takes as many items as it has places, unless its counter returns
    to 0 before it has reached the last of them. -/
theorem populate_init_isSome_iff (shape : Shape) (bs : List Nat) :
    (populate shape bs .init).isSome = true ↔
      bs.length ≤ shape.size ∨ shape.half ≤ shape.size := by
  rw [populate_isSome_iff shape bs (by simp [SymmetricNbb.init] : _ = 2 * (0 % shape.half)) rfl]
  constructor
  · intro never
    by_contra more
    exact never shape.size (Nat.zero_le _) (by omega) (Nat.mod_eq_of_lt (by omega))
  · rintro (fits | early) k _ below
    · have small := Nat.mod_le k shape.half
      omega
    · have small := Nat.mod_lt k shape.half_pos
      omega

/-! ## Blocks that do not wrap

They are the headers of the allocator's model.
-/

section Headers

variable {params : Params} {alignment : Nat}

theorem actualBlockLen_of_lt (whole : headerSize + params.blockLen < 2 ^ 64) :
    params.actualBlockLen = headerSize + params.blockLen :=
  wrap_of_lt whole

theorem passHeaders_eq_headers (whole : headerSize + params.blockLen < 2 ^ 64) (cur : Nat) :
    passHeaders params alignment cur = headers params alignment cur := by
  have actual := actualBlockLen_of_lt whole
  have same : passRoom params alignment cur = room params alignment cur := by
    simp only [passRoom, room, fitting, passStride, stride, actual]
    rw [← Nat.add_assoc, Nat.add_right_comm, Nat.add_sub_add_right]
    simp only [Nat.add_le_add_iff_right]
  rw [passHeaders, headers_eq, same, passStride, stride, actual]

/-- A block lies behind those before it. -/
theorem pairwise_headers (params : Params) (align cur : Nat) :
    (headers params align cur).Pairwise fun first second =>
      first + headerSize + params.blockLen ≤ second := by
  fun_induction headers params align cur with
  | case1 cur inside d next fits ih =>
    refine List.pairwise_cons.mpr ⟨fun header mem => ?_, ih⟩
    have behind : cur + headerSize ≤ d := lt_place align cur
    have later := le_of_mem_headers mem
    omega
  | case2 cur inside d next full ih => exact ih
  | case3 => exact List.Pairwise.nil

theorem padded_of_mem_headers (used : params.useAlignment = some alignment) {hdr : Nat}
    (mem : hdr ∈ headers params alignment params.memArea) :
    Padded params.alignment (hdr + headerSize) := by
  rw [headers_useAlignment used] at mem
  obtain ⟨i, _, same⟩ := mem_headers_iff.mp mem
  have first : Padded params.alignment (place params.alignment params.memArea) := padded_padUp _ _
  have apart : Padded params.alignment (stride params params.alignment) := padded_padUp _ _
  obtain none | some := Nat.eq_zero_or_pos params.alignment
  · exact .inl none
  · have nonzero := Nat.ne_of_gt some
    rw [same]
    exact .inr (Nat.dvd_add (first.resolve_left nonzero)
      (Nat.dvd_mul_right_of_dvd (apart.resolve_left nonzero) i))

end Headers

/-! ## When the passes agree -/

/-- The blocks of the second pass are as many as the first has counted and fit into the buffer
    for so many; they lie in the area, none overlaps another, and they are aligned. -/
structure Placed (params : Params) (number : Nat) (blocks : List Nat) : Prop where
  same : blocks.length = number
  accepted : ∀ shape ∈ Shape.create (wrap 32 number), (populate shape blocks .init).isSome = true
  inside : ∀ header ∈ blocks,
    params.memArea ≤ header ∧ header + headerSize + params.blockLen ≤ params.memEnd
  apart : blocks.Pairwise fun first second =>
    first + headerSize + params.blockLen ≤ second ∨ second + headerSize + params.blockLen ≤ first
  aligned : ∀ header ∈ blocks, Padded params.alignment (header + headerSize)

/-- The first pass ends; unless it has found no room for a block, which is a panic, the second
    one ends too and makes the blocks. -/
def PassesAgree (params : Params) (alignment : Nat) : Prop :=
  ∃ fuel number, countBlocks params alignment fuel = some number ∧
    (number = 0 ∨ ∃ fuel blocks,
      populatePass params alignment fuel params.memArea = some blocks ∧
        Placed params number blocks)

/-- No sum with the block length wraps, or the wrapped one is still too long for the area. -/
def WrapFree (params : Params) (alignment : Nat) : Prop :=
  if alignment = 0 then
    headerSize + params.blockLen < 2 ^ 64 ∨
      params.memLen < headerSize + params.blockLen - 2 ^ 64
  else
    place alignment params.memArea + params.blockLen < 2 ^ 64 ∨
      params.memEnd < place alignment params.memArea + params.blockLen - 2 ^ 64

def NoneAtEnd (params : Params) (alignment : Nat) : Prop :=
  params.blockLen = 0 →
    ¬ (place alignment params.memArea ≤ params.memEnd ∧
      stride params alignment ∣ params.memEnd - place alignment params.memArea)

/-- The buffer for the lower 32 bits of the number has room for all the blocks, or its counter
    returns to 0 before it is full. -/
def Taken (number : Nat) : Prop :=
  ∀ shape ∈ Shape.create (wrap 32 number), number < 2 ^ 32 ∨ shape.half ≤ shape.size

section Agreement

variable {params : Params} {alignment : Nat}

theorem noneAtEnd_iff : NoneAtEnd params alignment ↔
    ∀ hdr ∈ headers params alignment params.memArea, hdr + headerSize < params.memEnd := by
  constructor
  · intro none hdr mem
    have fits := end_le_of_mem_headers mem
    obtain ⟨i, _, same⟩ := mem_headers_iff.mp mem
    by_contra atEnd
    refine none (by omega) ⟨by omega, i, by omega⟩
  · rintro lt empty ⟨inside, i, last⟩
    have some := lt_place alignment params.memArea
    have mem : params.memEnd - headerSize ∈ headers params alignment params.memArea := by
      refine mem_headers_iff.mpr ⟨i, ?_, by omega⟩
      rw [room, lt_fitting_iff (stride_pos params alignment)]
      omega
    have strict := lt _ mem
    omega

variable {number : Nat}

theorem taken_iff {bs : List Nat} (same : bs.length = number) :
    Taken number ↔
      ∀ shape ∈ Shape.create (wrap 32 number), (populate shape bs .init).isSome = true := by
  simp only [populate_init_isSome_iff]
  refine forall₂_congr fun shape created => or_congr ?_ Iff.rfl
  rw [(Shape.create_size created).1, wrap]
  omega

theorem alignment_lt (typed : params.Typed) (used : params.useAlignment = some alignment) :
    alignment < 2 ^ 31 := by
  have short := typed.alignment
  simp only [Params.useAlignment] at used
  split at used
  · cases used
  · cases used
    split <;> omega

/-- The second pass over blocks that do not wrap. -/
theorem exists_placed_iff (typed : params.Typed) (used : params.useAlignment = some alignment)
    (whole : headerSize + params.blockLen < 2 ^ 64)
    (straight : Straight params alignment params.memArea) :
    (∃ fuel blocks, populatePass params alignment fuel params.memArea = some blocks ∧
      Placed params (room params alignment params.memArea) blocks) ↔
      NoneAtEnd params alignment ∧ Taken (room params alignment params.memArea) := by
  have short := alignment_lt typed used
  have actual := actualBlockLen_of_lt whole
  have pos : 0 < params.actualBlockLen := by
    rw [actual]
    exact Nat.add_pos_left (by decide) _
  have inv := length_headers_eq params alignment params.memArea
  rw [noneAtEnd_iff, taken_iff inv]
  have made := @passHeaders_eq_headers params alignment whole params.memArea
  have populates := populatePass_iff typed short pos straight le_rfl
  rw [made] at populates
  constructor
  · rintro ⟨fuel, blocks, populated, placed⟩
    obtain ⟨rfl, lt⟩ := (populates blocks).mp ⟨fuel, populated⟩
    exact ⟨lt, placed.accepted⟩
  · rintro ⟨lt, accepted⟩
    obtain ⟨fuel, populated⟩ := (populates _).mpr ⟨rfl, lt⟩
    refine ⟨fuel, _, populated, inv, accepted, ?_, ?_, ?_⟩
    · exact fun hdr mem => ⟨le_of_mem_headers mem, end_le_of_mem_headers mem⟩
    · exact (pairwise_headers params alignment params.memArea).imp .inl
    · exact fun hdr mem => padded_of_mem_headers used mem

theorem noneAtEnd_and_taken_of_empty (empty : room params alignment params.memArea = 0) :
    NoneAtEnd params alignment ∧ Taken (room params alignment params.memArea) := by
  have none : headers params alignment params.memArea = [] := by
    rw [← List.length_eq_zero_iff, length_headers_eq, empty]
  refine ⟨noneAtEnd_iff.mpr fun header mem => ?_, fun _ _ => .inl ?_⟩
  · rw [none] at mem
    cases mem
  · rw [empty]
    exact Nat.two_pow_pos 32

/-- A block that is longer than the address space is not placed. -/
theorem Placed.end_lt {hdr : Nat} {bs : List Nat} (typed : params.Typed)
    (placed : Placed params number bs) (mem : hdr ∈ bs) :
    hdr + headerSize + params.blockLen < 2 ^ 64 := by
  have memory := typed.memory
  have inside := (placed.inside hdr mem).2
  omega

theorem passesAgree_iff_of_count
    (counts : ∀ o, (∃ fuel, countBlocks params alignment fuel = some o) ↔ o = number) :
    PassesAgree params alignment ↔
      number = 0 ∨ ∃ fuel blocks,
        populatePass params alignment fuel params.memArea = some blocks ∧
          Placed params number blocks := by
  rw [PassesAgree, exists_comm]
  simp only [exists_and_right, counts, exists_eq_left]

/-- The first pass counts the blocks that fit, and so does the second, unless an empty block
    begins at the end of the area. -/
theorem passesAgree_iff_of_room (typed : params.Typed)
    (used : params.useAlignment = some alignment)
    (counts : ∀ o, (∃ fuel, countBlocks params alignment fuel = some o) ↔
      o = room params alignment params.memArea)
    (whole : headerSize + params.blockLen < 2 ^ 64)
    (straight : room params alignment params.memArea ≠ 0 →
      Straight params alignment params.memArea) :
    PassesAgree params alignment ↔
      NoneAtEnd params alignment ∧ Taken (room params alignment params.memArea) := by
  rw [passesAgree_iff_of_count counts]
  by_cases empty : room params alignment params.memArea = 0
  · exact ⟨fun _ => noneAtEnd_and_taken_of_empty empty, fun _ => .inl empty⟩
  · rw [exists_placed_iff typed used whole (straight empty), or_iff_right empty]

theorem passesAgree_of_none {fuel : Nat}
    (inv : countBlocks params alignment fuel = some 0) : PassesAgree params alignment :=
  ⟨fuel, 0, inv, .inl rfl⟩

/-! Without an alignment the number of blocks is a quotient. -/

section

variable (typed : params.Typed)
include typed

theorem passesAgree_iff_of_quotient (used : params.useAlignment = some 0)
    (whole : headerSize + params.blockLen < 2 ^ 64) :
    PassesAgree params 0 ↔ NoneAtEnd params 0 ∧ Taken (room params 0 params.memArea) := by
  have memory := typed.memory
  have quotient : params.memLen / (headerSize + params.blockLen) =
      room params 0 params.memArea := by
    rw [← length_headers_eq, length_headers, Params.memEnd, Nat.add_sub_cancel_left]
  have inv : ∀ fuel, countBlocks params 0 fuel = some (room params 0 params.memArea) := by
    intro fuel
    have pos : headerSize + params.blockLen ≠ 0 :=
      Nat.ne_of_gt (Nat.add_pos_left (by decide) _)
    rw [countBlocks, if_pos rfl, actualBlockLen_of_lt whole, if_neg pos, quotient]
  refine passesAgree_iff_of_room typed used (fun o => ?_) whole ?_
  · simp [inv, eq_comm]
  · intro some
    have fits : headerSize + params.blockLen ≤ params.memLen := by
      by_contra long
      rw [Nat.div_eq_of_lt (Nat.not_le.mp long)] at quotient
      exact some quotient.symm
    have placed : place 0 params.memArea = params.memArea + headerSize := rfl
    rw [Params.memEnd] at memory
    rw [Straight, actualBlockLen_of_lt whole]
    omega

/-- The length of the whole block has wrapped. -/
theorem not_passesAgree_of_short (wraps : 2 ^ 64 ≤ headerSize + params.blockLen)
    (short : params.actualBlockLen ≤ params.memLen) : ¬ PassesAgree params 0 := by
  rintro ⟨_, number, inv, blocks⟩
  rw [countBlocks, if_pos rfl] at inv
  split_ifs at inv with pos
  obtain rfl := Option.some.inj inv
  have some : params.memLen / params.actualBlockLen ≠ 0 :=
    Nat.ne_of_gt (Nat.div_pos short (Nat.pos_of_ne_zero pos))
  obtain none | ⟨_, blocks, _, placed⟩ := blocks
  · exact some none
  · obtain ⟨header, mem⟩ := List.exists_mem_of_length_pos
      (Nat.pos_of_ne_zero (placed.same ▸ some))
    have below := placed.end_lt typed mem
    omega

theorem passesAgree_iff_of_unaligned (used : params.useAlignment = some 0) :
    PassesAgree params 0 ↔ WrapFree params 0 ∧ NoneAtEnd params 0 ∧
      Taken (room params 0 params.memArea) := by
  have length := typed.blockLen
  rw [WrapFree, if_pos rfl]
  obtain whole | wraps := Nat.lt_or_ge (headerSize + params.blockLen) (2 ^ 64)
  · rw [passesAgree_iff_of_quotient typed used whole]
    simp only [whole, true_or, true_and]
  · have actual : params.actualBlockLen = headerSize + params.blockLen - 2 ^ 64 := by
      simp only [Params.actualBlockLen, wrap, headerSize] at wraps ⊢
      omega
    obtain short | long := Nat.lt_or_ge params.memLen params.actualBlockLen
    · have empty : room params 0 params.memArea = 0 := by
        have placed : place 0 params.memArea = params.memArea + headerSize := rfl
        refine fitting_eq_zero ?_
        rw [Params.memEnd]
        omega
      have inv : countBlocks params 0 0 = some 0 := by
        rw [countBlocks, if_pos rfl, if_neg (by omega), Nat.div_eq_of_lt short]
      exact iff_of_true (passesAgree_of_none inv)
        ⟨.inr (actual ▸ short), noneAtEnd_and_taken_of_empty empty⟩
    · exact iff_of_false (not_passesAgree_of_short typed wraps long) (by omega)

/-! With an alignment both passes are loops. -/

theorem passesAgree_iff_of_loop (used : params.useAlignment = some alignment)
    (aligned : alignment ≠ 0) (ends : place alignment params.memArea + params.blockLen < 2 ^ 64) :
    PassesAgree params alignment ↔
      NoneAtEnd params alignment ∧ Taken (room params alignment params.memArea) := by
  have short := alignment_lt typed used
  have behind := lt_place alignment params.memArea
  have whole : headerSize + params.blockLen < 2 ^ 64 := by omega
  have actual := actualBlockLen_of_lt whole
  have pos : 0 < params.actualBlockLen := by
    rw [actual]
    exact Nat.add_pos_left (by decide) _
  have straight : Straight params alignment params.memArea := by
    rw [Straight]
    omega
  have len : (passHeaders params alignment params.memArea).length =
      room params alignment params.memArea := by
    rw [passHeaders_eq_headers whole, length_headers_eq]
  have inv : ∀ fuel, countBlocks params alignment fuel =
      countPass params alignment fuel params.memArea := fun fuel => if_neg aligned
  refine passesAgree_iff_of_room typed used (fun o => ?_) whole fun _ => straight
  simp only [inv, ← len]
  exact countPass_iff typed short pos straight o

/-- The end of the first block has wrapped to an address before the end of the area. -/
theorem not_passesAgree_of_back (aligned : alignment ≠ 0)
    (wraps : 2 ^ 64 ≤ place alignment params.memArea + params.blockLen)
    (back : nextCur params (place alignment params.memArea) ≤ params.memEnd) :
    ¬ PassesAgree params alignment := by
  have area : params.memArea < params.memEnd :=
    Nat.lt_add_of_pos_right (Nat.pos_of_ne_zero typed.length)
  rintro ⟨fuel, number, inv, blocks⟩
  rw [countBlocks, if_neg aligned] at inv
  have some : number ≠ 0 := by
    cases fuel with
    | zero => cases inv
    | succ fuel =>
      simp only [countPass, if_pos area, if_pos back] at inv
      obtain ⟨others, _, rfl⟩ := Option.map_eq_some_iff.mp inv
      exact Nat.succ_ne_zero others
  obtain none | ⟨fuel, blocks, populated, placed⟩ := blocks
  · exact some none
  · have mem : place alignment params.memArea - headerSize ∈ blocks := by
      cases fuel with
      | zero => cases populated
      | succ fuel =>
        simp only [populatePass] at populated
        split_ifs at populated
        obtain ⟨others, _, rfl⟩ := Option.map_eq_some_iff.mp populated
        exact List.mem_cons_self ..
    have below := placed.end_lt typed mem
    omega

theorem passesAgree_iff_of_aligned (used : params.useAlignment = some alignment)
    (aligned : alignment ≠ 0) :
    PassesAgree params alignment ↔ WrapFree params alignment ∧ NoneAtEnd params alignment ∧
      Taken (room params alignment params.memArea) := by
  have memory := typed.memory
  have area : params.memArea < params.memEnd :=
    Nat.lt_add_of_pos_right (Nat.pos_of_ne_zero typed.length)
  rw [WrapFree, if_neg aligned]
  obtain ends | wraps := Nat.lt_or_ge (place alignment params.memArea + params.blockLen) (2 ^ 64)
  · rw [passesAgree_iff_of_loop typed used aligned ends]
    simp only [ends, true_or, true_and]
  · have next : nextCur params (place alignment params.memArea) =
        place alignment params.memArea + params.blockLen - 2 ^ 64 := by
      have short := alignment_lt typed used
      have length := typed.blockLen
      have reach := place_le alignment params.memArea
      simp only [nextCur, wrap, headerSize] at reach wraps ⊢
      omega
    obtain beyond | back :=
      Nat.lt_or_ge params.memEnd (nextCur params (place alignment params.memArea))
    · have empty : room params alignment params.memArea = 0 := fitting_eq_zero (by omega)
      have inv : countBlocks params alignment 2 = some 0 := by
        simp only [countBlocks, if_neg aligned, countPass, if_pos area,
          if_neg (Nat.not_le.mpr beyond)]
        exact if_neg (Nat.not_lt.mpr (Nat.le_of_lt beyond))
      exact iff_of_true (passesAgree_of_none inv)
        ⟨.inr (next ▸ beyond), noneAtEnd_and_taken_of_empty empty⟩
    · exact iff_of_false (not_passesAgree_of_back typed aligned wraps back) (by omega)

end

end Agreement

/-- The two passes agree on the blocks, and the blocks are where they should be, exactly if no
    end of a block wraps into the area, no empty block begins at its end, and the buffer, whose
    size is an `int`, takes all the headers. -/
theorem passes_agree_iff (params : Params) (typed : params.Typed) {alignment : Nat}
    (used : params.useAlignment = some alignment) :
    PassesAgree params alignment ↔
      WrapFree params alignment ∧ NoneAtEnd params alignment ∧
        Taken (room params alignment params.memArea) := by
  by_cases aligned : alignment = 0
  · subst aligned
    exact passesAgree_iff_of_unaligned typed used
  · exact passesAgree_iff_of_aligned typed used aligned

def fourLines : Params := ⟨4096, 512, 64, 64⟩

theorem passes_agree_fourLines :
    fourLines.useAlignment = some 64 ∧ room fourLines 64 4096 = 4 ∧ PassesAgree fourLines 64 := by
  have typed : fourLines.Typed := by constructor <;> decide
  have used : fourLines.useAlignment = some 64 := by decide
  refine ⟨used, by decide, (passes_agree_iff fourLines typed used).mpr ⟨?_, ?_, ?_⟩⟩
  · rw [WrapFree]
    decide
  · rw [NoneAtEnd]
    decide
  · exact fun _ _ => .inl (by decide)

def hugeArea : Params := ⟨2 ^ 40, 2 ^ 39 + 128, 64, 0⟩

/-- The buffer is made for one header and refuses the second. -/
theorem passes_disagree_hugeArea :
    hugeArea.Typed ∧ hugeArea.useAlignment = some 0 ∧
      countBlocks hugeArea 0 0 = some (2 ^ 32 + 1) ∧ ¬ PassesAgree hugeArea 0 := by
  have typed : hugeArea.Typed := by constructor <;> decide
  have used : hugeArea.useAlignment = some 0 := by decide
  refine ⟨typed, used, by decide, ?_⟩
  rw [passesAgree_iff_of_unaligned typed used]
  rintro ⟨_, _, taken⟩
  have number : room hugeArea 0 hugeArea.memArea = 2 ^ 32 + 1 := by decide
  obtain ⟨shape, created⟩ := Shape.exists_create Nat.one_pos (by decide)
  obtain few | early := taken shape created
  · exact absurd few (by decide)
  · rw [Shape.create_half created (by decide), (Shape.create_size created).1] at early
    exact absurd early (by decide)

end Xdk.FastSlab
