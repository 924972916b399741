import Xdk.Slab.Scan

/-! # Where `init` puts the blocks

`init` counts the blocks as if they followed the bitmap directly, moves the first of them up to
the alignment and gives up as many blocks as fit into the bytes it has skipped, rounded down.
The memory has room for one alignment more than the span, and that room is also what
`align_pointer` takes for the header.

Here `init` is modelled with the widths of its variables: `_span_size`, the number of blocks and
the bytes of the bitmap are `unsigned`, and so is the sum that `malloc` is called with; the sizes
of the loop are those of `size_t`.
-/

namespace Xdk.Slab

open Xdk.Lib

structure SpanParams where
  spanSize : Nat
  baseAlignment : Nat
  elemSize : Nat
  spanSize_lt : spanSize < 2 ^ 64
  pages : 0 < spanSize ∧ pageSize ∣ spanSize
  alignment : ∃ exponent, 0 < exponent ∧ exponent < 32 ∧ baseAlignment = 2 ^ exponent
  elemSize_lt : elemSize < 2 ^ 64

namespace SpanParams

def span (params : SpanParams) : Nat := wrap 32 params.spanSize

def mallocBytes (params : SpanParams) : Nat := wrap 32 (params.span + params.baseAlignment)

def data (params : SpanParams) (unalignedData : Nat) : Nat :=
  padUp params.baseAlignment unalignedData

/-- The loop that balances the bytes of the bitmap against the bytes of the blocks. -/
def bestFit (params : SpanParams) : (fuel numBlocks bitmapSizeBytes : Nat) → Option (Nat × Nat)
  | 0, _, _ => none
  | fuel + 1, numBlocks, bitmapSizeBytes =>
    if wrap 64 (numBlocks * params.elemSize + bitmapSizeBytes) <
        wrapSub 64 params.span headerBytes then
      let grown := wrap 32 (growBitmap numBlocks bitmapSizeBytes)
      if params.span < wrap 64 (numBlocks * params.elemSize + grown) then some (numBlocks, grown)
      else params.bestFit fuel (wrap 32 (numBlocks + 1)) grown
    else some (numBlocks, bitmapSizeBytes)

/-- `init` behind its compare-and-swap, with the memory that `malloc` has returned.  It is `none`
    where an assertion fails, where it divides by 0 and where the fuel does not last. -/
def init (params : SpanParams) (fuel unalignedData : Nat) : Option Header :=
  if params.span % pageSize ≠ 0 ∨ unalignedData = 0 then none
  else
    match params.bestFit fuel 0 bytesPerMword with
    | none => none
    | some (counted, bitmapSizeBytes) =>
      let numBlocks := wrapSub 32 counted 1
      let tmp := params.data unalignedData + headerBytes + bitmapSizeBytes
      let first := alignFirst params.baseAlignment tmp
      let lost := wrap 32 ((first - tmp) / params.elemSize)
      let left := wrapSub 32 numBlocks lost
      if wrap 64 (bitmapSizeBytes * bytesPerMword) < numBlocks then none
      else if params.elemSize = 0 then none
      else if left = 0 then none
      else some ⟨left, bitmapSizeBytes, first, first + wrap 64 (left * params.elemSize)⟩

/-! ## Sizes that fit

A span that is laid out has a page at least and elements of one byte at least.  If the elements
are shorter than 4 GB, no variable wraps, and `init` is the layout that the allocator has been
verified with.
-/

theorem baseAlignment_pos (params : SpanParams) : 0 < params.baseAlignment := by
  obtain ⟨exponent, _, _, power⟩ := params.alignment
  rw [power]
  exact Nat.two_pow_pos exponent

theorem baseAlignment_le (params : SpanParams) : params.baseAlignment ≤ 2 ^ 31 := by
  obtain ⟨exponent, _, lt, power⟩ := params.alignment
  rw [power]
  exact Nat.pow_le_pow_right (by decide) (Nat.le_of_lt_succ lt)

theorem span_pages (params : SpanParams) : pageSize ∣ params.span := by
  have whole : pageSize ∣ 2 ^ 32 := ⟨2 ^ 20, rfl⟩
  exact (Nat.dvd_mod_iff whole).mpr params.pages.2

/-- The whole pages below 4 GB leave one page of room. -/
theorem span_le (params : SpanParams) : params.span + pageSize ≤ 2 ^ 32 := by
  obtain ⟨pages, whole⟩ := params.span_pages
  have lt := wrap_lt 32 params.spanSize
  rw [← span, whole] at lt
  rw [whole]
  simp only [pageSize] at lt ⊢
  omega

variable {fuel unalignedData : Nat} {h : Header}

/-- A span without pages fails the assertion about its bitmap. -/
theorem span_ne_zero {params : SpanParams} (laidOut : params.init fuel unalignedData = some h) :
    params.span ≠ 0 := by
  intro empty
  cases fuel with
  | zero => simp [init, bestFit] at laidOut
  | succ fuel =>
    have broken : params.bestFit (fuel + 1) 0 bytesPerMword = some (0, 16) := by
      simp only [bestFit, empty, Nat.zero_mul]
      rfl
    have failed : wrap 64 (16 * bytesPerMword) < wrapSub 32 0 1 := by decide
    simp [init, broken, failed] at laidOut

variable {params : SpanParams}

theorem pages_le_span (some : params.span ≠ 0) : pageSize ≤ params.span :=
  Nat.le_of_dvd (Nat.pos_of_ne_zero some) params.span_pages

def config (params : SpanParams) (some : params.span ≠ 0) : Config where
  spanSize := params.span
  baseAlignment := params.baseAlignment
  elemSize := params.elemSize
  pages := pages_le_span some
  alignment := params.alignment.imp fun _ power => ⟨power.1, power.2.2⟩

section

variable (some : params.span ≠ 0)
include some

theorem config_spanSize : (params.config some).spanSize = params.span :=
  rfl

theorem config_elemSize :
    (params.config some).elemSize = params.elemSize :=
  rfl

end

theorem growBitmap_le (numBlocks bitmapSizeBytes : Nat) :
    growBitmap numBlocks bitmapSizeBytes ≤ bitmapSizeBytes + bytesPerMword := by
  rw [growBitmap]
  split
  · exact Nat.le_refl _
  · exact Nat.le_add_right _ _

/-- The loop does not wrap. -/
theorem bestFit_eq_config (some : params.span ≠ 0) (pos : 0 < params.elemSize)
    (small : params.elemSize < 2 ^ 32) {numBlocks bitmapSizeBytes : Nat}
    (fits : numBlocks * params.elemSize + bitmapSizeBytes < 2 ^ 64) {fit : Nat × Nat}
    (found : params.bestFit fuel numBlocks bitmapSizeBytes = .some fit) :
    fit = Slab.bestFit (params.config some) numBlocks bitmapSizeBytes := by
  have page := pages_le_span some
  have limit := params.span_le
  have room : wrapSub 64 params.span headerBytes = params.span - headerBytes := by
    apply wrapSub_of_le
    · exact Nat.le_trans (by decide) page
    · omega
  induction fuel generalizing numBlocks bitmapSizeBytes with
  | zero => cases found
  | succ fuel ih =>
    rw [Slab.bestFit, config_spanSize, config_elemSize]
    simp only [bestFit, wrap_of_lt fits, room] at found
    split at found
    · rename_i enough
      rw [if_pos enough]
      have grows := growBitmap_le numBlocks bitmapSizeBytes
      have count : numBlocks ≤ numBlocks * params.elemSize := Nat.le_mul_of_pos_right _ pos
      simp only [bytesPerMword, headerBytes] at grows enough page limit
      have grown : wrap 32 (growBitmap numBlocks bitmapSizeBytes) =
          growBitmap numBlocks bitmapSizeBytes := wrap_of_lt (by omega)
      have next : wrap 32 (numBlocks + 1) = numBlocks + 1 := wrap_of_lt (by omega)
      rw [grown, next, wrap_of_lt (by omega)] at found
      split_ifs at found with long
      · rw [if_pos long]
        exact (Option.some.inj found).symm
      · rw [if_neg long]
        refine ih ?_ found
        rw [Nat.succ_mul]
        omega
    · rename_i full
      rw [if_neg full]
      exact (Option.some.inj found).symm

/-! ## As many blocks as fit -/

def bitmapBytes (numBlocks : Nat) : Nat :=
  bytesPerMword + bytesPerMword * ((numBlocks + 63) / bitsPerMword)

def Fits (params : SpanParams) (numBlocks : Nat) : Prop :=
  numBlocks * params.elemSize + bitmapBytes numBlocks + headerBytes < params.span

instance (params : SpanParams) : DecidablePred params.Fits :=
  fun _ => inferInstanceAs (Decidable (_ < _))

def capacity (params : SpanParams) : Nat := Nat.findGreatest params.Fits params.span

theorem growBitmap_bitmapBytes (numBlocks : Nat) :
    growBitmap numBlocks (bitmapBytes numBlocks) = bitmapBytes (numBlocks + 1) := by
  rw [growBitmap]
  split
  all_goals
    rename_i last
    simp only [bitmapBytes, bitsPerMword, bytesPerMword] at last ⊢
    omega

theorem bitmapBytes_mono {few many : Nat} (ordered : few ≤ many) :
    bitmapBytes few ≤ bitmapBytes many := by
  simp only [bitmapBytes, bitsPerMword, bytesPerMword]
  omega

theorem Fits.of_le {few many : Nat} (fits : params.Fits many) (ordered : few ≤ many) :
    params.Fits few := by
  have blocks := Nat.mul_le_mul_right params.elemSize ordered
  have bitmap := bitmapBytes_mono ordered
  simp only [Fits] at fits ⊢
  omega

section

variable (some : params.span ≠ 0)
include some

theorem fits_capacity : params.Fits params.capacity := by
  have page := pages_le_span some
  refine Nat.findGreatest_spec (Nat.zero_le _) (?_ : params.Fits 0)
  simp only [Fits, bitmapBytes, bitsPerMword, bytesPerMword, headerBytes, pageSize] at page ⊢
  omega

theorem capacity_lt (pos : 0 < params.elemSize) :
    params.capacity + 1 < 2 ^ 32 := by
  have fits := fits_capacity some
  have limit := params.span_le
  have count := Nat.le_mul_of_pos_right params.capacity pos
  simp only [Fits, headerBytes] at fits
  omega

theorem not_fits_succ_capacity (pos : 0 < params.elemSize) :
    ¬ params.Fits (params.capacity + 1) := by
  have count := Nat.le_mul_of_pos_right params.capacity pos
  have fits := fits_capacity some
  simp only [Fits] at fits
  exact Nat.findGreatest_is_greatest (Nat.lt_succ_self _) (by omega)

/-- The loop ends with the first number of blocks that does not fit; its `break` is never
    taken. -/
theorem bestFit_config (pos : 0 < params.elemSize) {numBlocks : Nat}
    (inv : numBlocks ≤ params.capacity + 1) :
    Slab.bestFit (params.config some) numBlocks (bitmapBytes numBlocks) =
      (params.capacity + 1, bitmapBytes (params.capacity + 1)) := by
  have full := not_fits_succ_capacity some pos
  induction inv using Nat.decreasingInduction with
  | self =>
    rw [Slab.bestFit, config_spanSize, config_elemSize, if_neg]
    simp only [Fits] at full
    omega
  | of_succ numBlocks lt ih =>
    have fits := (fits_capacity some).of_le (Nat.le_of_lt_succ lt)
    have grown := growBitmap_le numBlocks (bitmapBytes numBlocks)
    rw [growBitmap_bitmapBytes] at grown
    simp only [Fits, headerBytes, bytesPerMword] at fits grown
    rw [Slab.bestFit, config_spanSize, config_elemSize, growBitmap_bitmapBytes, if_pos, if_neg,
      ih]
    · omega
    · simp only [headerBytes]
      omega

end

theorem alignFirst_eq_padUp {align : Nat} (pos : 0 < align) (address : Nat) :
    alignFirst align address = padUp align address := by
  have parts := Nat.div_add_mod' address align
  have below := Nat.mod_lt address pos
  rw [alignFirst_eq pos, padUp]
  split_ifs with unpadded
  · rw [Nat.mod_eq_of_lt (by omega)]
    omega
  · have whole : address % align = 0 := by
      by_contra rest
      exact unpadded ⟨Nat.ne_of_gt pos, rest⟩
    rw [whole, Nat.sub_zero, Nat.mod_self, Nat.add_zero]

def front (params : SpanParams) : Nat :=
  padUp params.baseAlignment (headerBytes + bitmapBytes (params.capacity + 1))

def padding (params : SpanParams) : Nat :=
  params.front - (headerBytes + bitmapBytes (params.capacity + 1))

theorem padding_add (params : SpanParams) :
    headerBytes + bitmapBytes (params.capacity + 1) + params.padding = params.front :=
  Nat.add_sub_cancel' (le_padUp _ _)

theorem alignFirst_data (params : SpanParams) (data : Nat) :
    alignFirst params.baseAlignment
        (params.data data + headerBytes + bitmapBytes (params.capacity + 1)) =
      params.data data + params.front := by
  rw [alignFirst_eq_padUp params.baseAlignment_pos, Nat.add_assoc, SpanParams.data,
    padUp_add (padded_padUp _ _), front]

theorem padding_lt (params : SpanParams) : params.padding < params.baseAlignment := by
  have pos := params.baseAlignment_pos
  have parts := Nat.div_add_mod' (headerBytes + bitmapBytes (params.capacity + 1))
    params.baseAlignment
  simp only [padding, front, padUp]
  split <;> omega

section

variable (laidOut : params.init fuel unalignedData = some h)
include laidOut

/-- An `init` that completes has passed all its assertions. -/
theorem init_cases :
    ∃ inv bitmapSizeBytes,
      params.bestFit fuel 0 bytesPerMword = some (inv, bitmapSizeBytes) ∧
      ¬ (params.span % pageSize ≠ 0 ∨ unalignedData = 0) ∧
      ¬ wrap 64 (bitmapSizeBytes * bytesPerMword) < wrapSub 32 inv 1 ∧
      0 < params.elemSize ∧ h.numBlocks ≠ 0 ∧
      h.numBlocks = wrapSub 32 (wrapSub 32 inv 1) (wrap 32 ((h.firstBlockAddr -
        (params.data unalignedData + headerBytes + bitmapSizeBytes)) / params.elemSize)) ∧
      h.bitmapSizeBytes = bitmapSizeBytes ∧
      h.firstBlockAddr = alignFirst params.baseAlignment
        (params.data unalignedData + headerBytes + bitmapSizeBytes) ∧
      h.lastBlockAddr = h.firstBlockAddr + wrap 64 (h.numBlocks * params.elemSize) := by
  simp only [init] at laidOut
  split at laidOut
  · cases laidOut
  rename_i memory
  split at laidOut
  · cases laidOut
  rename_i inv bitmapSizeBytes found
  split at laidOut
  · cases laidOut
  rename_i bits
  split at laidOut
  · cases laidOut
  rename_i divisible
  split at laidOut
  · cases laidOut
  rename_i left
  obtain rfl := Option.some.inj laidOut
  exact ⟨inv, bitmapSizeBytes, found, memory, bits, Nat.pos_of_ne_zero divisible, left, rfl,
    rfl, rfl, rfl⟩

/-- Elements that are shorter than 4 GB wrap no variable. -/
theorem eq_of_init (small : params.elemSize < 2 ^ 32) :
    h = ⟨wrapSub 32 params.capacity (params.padding / params.elemSize),
      bitmapBytes (params.capacity + 1), params.data unalignedData + params.front,
      params.data unalignedData + params.front + wrapSub 32 params.capacity
        (params.padding / params.elemSize) * params.elemSize⟩ := by
  have nonzero := span_ne_zero laidOut
  obtain ⟨inv, bitmapSizeBytes, found, _, _, pos, _, blocks, bitmap, first, last⟩ :=
    init_cases laidOut
  have fit := bestFit_eq_config nonzero pos small (by simp [bytesPerMword]) found
  have closed := bestFit_config nonzero pos (Nat.zero_le _)
  obtain ⟨rfl, rfl⟩ := Prod.mk.inj (fit.trans closed)
  have inv : wrapSub 32 (params.capacity + 1) 1 = params.capacity :=
    wrapSub_of_le (Nat.le_add_left _ _) (capacity_lt nonzero pos)
  have lost : wrap 32 (params.padding / params.elemSize) = params.padding / params.elemSize := by
    have less := Nat.div_le_self params.padding params.elemSize
    have below := params.padding_lt
    have short := params.baseAlignment_le
    exact wrap_of_lt (by omega)
  have skipped : params.data unalignedData + params.front - (params.data unalignedData +
      headerBytes + bitmapBytes (params.capacity + 1)) = params.padding := by
    have sum := params.padding_add
    omega
  rw [alignFirst_data] at first
  rw [first, inv, skipped, lost] at blocks
  have product : h.numBlocks * params.elemSize < 2 ^ 64 := by
    calc h.numBlocks * params.elemSize
        < 2 ^ 32 * 2 ^ 32 := by
          rw [blocks]
          exact Nat.mul_lt_mul'' (Nat.mod_lt _ (by decide)) small
      _ = 2 ^ 64 := by decide
  rw [wrap_of_lt product, first, blocks] at last
  rw [Header.mk.injEq]
  exact ⟨blocks, bitmap, first, last⟩

end

/-! ## The memory of a span -/

/-- The blocks lie in the memory behind the header and the bitmap, none overlaps another, and
    each has a bit. -/
structure LaidOut (params : SpanParams) (unalignedData : Nat) (h : Header) : Prop where
  behind : ∀ block < h.numBlocks,
    params.data unalignedData + headerBytes + h.bitmapSizeBytes ≤
      h.firstBlockAddr + params.elemSize * block
  inside : ∀ block < h.numBlocks,
    unalignedData ≤ h.firstBlockAddr + params.elemSize * block ∧
      h.firstBlockAddr + params.elemSize * block + params.elemSize ≤
        unalignedData + params.mallocBytes
  apart : ∀ lower upper, lower < upper → upper < h.numBlocks →
    h.firstBlockAddr + params.elemSize * lower + params.elemSize ≤
      h.firstBlockAddr + params.elemSize * upper
  bits : h.numBlocks ≤ h.bitmapSizeBytes * 8

/-- The blocks outnumber those that are lost, and those that stay end in the memory. -/
def RoomFor (params : SpanParams) (unalignedData : Nat) : Prop :=
  params.padding / params.elemSize < params.capacity ∧
    padUp params.baseAlignment unalignedData + params.front +
        (params.capacity - params.padding / params.elemSize) * params.elemSize ≤
      unalignedData + params.mallocBytes

theorem LaidOut.elemSize_lt (some : h.numBlocks ≠ 0) (good : params.LaidOut unalignedData h) :
    params.elemSize < 2 ^ 32 := by
  have first := good.inside 0 (Nat.pos_of_ne_zero some)
  have bytes := wrap_lt 32 (params.span + params.baseAlignment)
  rw [← mallocBytes] at bytes
  omega

/-- The last block ends where the next would start. -/
theorem LaidOut.end_le (some : h.numBlocks ≠ 0) (good : params.LaidOut unalignedData h) :
    h.firstBlockAddr + h.numBlocks * params.elemSize ≤ unalignedData + params.mallocBytes := by
  obtain ⟨last, next⟩ := Nat.exists_eq_succ_of_ne_zero some
  have inside := (good.inside last (by omega)).2
  rw [next, Nat.succ_mul, Nat.mul_comm]
  omega

theorem LaidOut.roomFor (laidOut : params.init fuel unalignedData = some h)
    (good : params.LaidOut unalignedData h) :
    params.RoomFor unalignedData := by
  obtain ⟨_, _, _, _, _, pos, left, _⟩ := init_cases laidOut
  have stored := eq_of_init laidOut (good.elemSize_lt left)
  have ends := good.end_le left
  rw [stored] at ends left
  simp only at ends left
  have lost := Nat.div_le_self params.padding params.elemSize
  have sum := params.padding_add
  have start : unalignedData ≤ params.data unalignedData := by
    rw [data]
    exact le_padUp _ _
  have few : params.padding / params.elemSize ≤ params.capacity := by
    -- otherwise the count wraps, and four billion blocks are longer than the memory
    by_contra more
    have below := params.padding_lt
    have short := params.baseAlignment_le
    have count : wrapSub 32 params.capacity (params.padding / params.elemSize) =
        params.capacity + (2 ^ 32 - params.padding / params.elemSize) :=
      Nat.mod_eq_of_lt (by omega)
    have blocks := Nat.le_mul_of_pos_right
      (wrapSub 32 params.capacity (params.padding / params.elemSize)) pos
    have bytes := wrap_lt 32 (params.span + params.baseAlignment)
    rw [← mallocBytes] at bytes
    omega
  have count := Nat.lt_of_succ_lt (capacity_lt (span_ne_zero laidOut) pos)
  rw [wrapSub_of_le few count] at ends left
  refine ⟨by omega, ?_⟩
  rw [← data]
  exact ends

theorem mul_add_le {lo upper : Nat} (ordered : lo < upper) :
    params.elemSize * lo + params.elemSize ≤ params.elemSize * upper := by
  exact Nat.mul_le_mul_left _ ordered

theorem laidOut_of_roomFor (laidOut : params.init fuel unalignedData = some h)
    (room : params.RoomFor unalignedData) :
    params.LaidOut unalignedData h := by
  have nonzero := span_ne_zero laidOut
  obtain ⟨few, ends⟩ := room
  rw [← data] at ends
  obtain ⟨_, _, _, _, _, pos, _⟩ := init_cases laidOut
  have small : params.elemSize < 2 ^ 32 := by
    have fits := fits_capacity nonzero
    have limit := params.span_le
    have one := Nat.le_mul_of_pos_left params.elemSize (Nat.zero_lt_of_lt few)
    simp only [Fits] at fits
    omega
  have count := wrapSub_of_le (Nat.le_of_lt few) (Nat.lt_of_succ_lt (capacity_lt nonzero pos))
  have sum := params.padding_add
  have start : unalignedData ≤ params.data unalignedData := by
    rw [data]
    exact le_padUp _ _
  rw [eq_of_init laidOut small, count]
  refine ⟨?behind, ?inside, ?apart, ?bits⟩
  case behind =>
    simp only
    omega
  case inside =>
    intro b inside
    have ending := @mul_add_le params _ _ inside
    rw [Nat.mul_comm params.elemSize (params.capacity - _)] at ending
    simp only
    omega
  case apart =>
    intro lower upper ordered _
    have ending := @mul_add_le params _ _ ordered
    omega
  case bits =>
    have less := Nat.sub_le params.capacity (params.padding / params.elemSize)
    simp only [bitmapBytes, bitsPerMword, bytesPerMword]
    omega

/-- `init` lays the blocks out in its memory exactly if there is room for them: as many blocks
    as fit behind the first, aligned one must end by the end of the memory, however much of it
    the alignment of the header has taken. -/
theorem init_laidOut_iff (params : SpanParams) {fuel unalignedData : Nat} {h : Header}
    (laidOut : params.init fuel unalignedData = some h) :
    params.LaidOut unalignedData h ↔ params.RoomFor unalignedData :=
  ⟨LaidOut.roomFor laidOut, laidOut_of_roomFor laidOut⟩

def threeBlocks : SpanParams where
  spanSize := 4096
  baseAlignment := 8
  elemSize := 1024
  spanSize_lt := by decide
  pages := by decide
  alignment := ⟨3, by decide⟩
  elemSize_lt := by decide

theorem init_laidOut_threeBlocks :
    threeBlocks.init 10 65536 = some ⟨3, 16, 65560, 68632⟩ ∧
      threeBlocks.LaidOut 65536 ⟨3, 16, 65560, 68632⟩ := by
  have laidOut : threeBlocks.init 10 65536 = some ⟨3, 16, 65560, 68632⟩ := by
    simp only [init, alignFirst_eq_padUp threeBlocks.baseAlignment_pos]
    decide
  have room : threeBlocks.RoomFor 65536 := by
    rw [RoomFor]
    decide +kernel
  exact ⟨laidOut, (init_laidOut_iff threeBlocks laidOut).mpr room⟩

/-- One block of two pages, at an address that two pages divide, in a span of three pages. -/
def onePair : SpanParams where
  spanSize := 12288
  baseAlignment := 8192
  elemSize := 8192
  spanSize_lt := by decide
  pages := by decide
  alignment := ⟨13, by decide⟩
  elemSize_lt := by decide

/-- `malloc` is asked for 20480 bytes and returns an address 16 behind a multiple of the
    alignment.  The header takes the next multiple and the block the one after it, so the block
    ends 4080 bytes behind the memory. -/
theorem init_overruns :
    onePair.mallocBytes = 20480 ∧ 65552 % 16 = 0 ∧
      onePair.init 10 65552 = some ⟨1, 16, 81920, 90112⟩ ∧
      ¬ onePair.LaidOut 65552 ⟨1, 16, 81920, 90112⟩ := by
  refine ⟨by decide, by decide, ?_, ?_⟩
  · simp only [init, alignFirst_eq_padUp onePair.baseAlignment_pos]
    decide
  · intro good
    have inside := (good.inside 0 Nat.one_pos).2
    revert inside
    decide

end SpanParams

end Xdk.Slab
