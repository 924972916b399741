import Xdk.Parasite.Areas

/-! # The order of a DMA allocation

`dma_alloc_store` is asked for a number of pages and gets blocks of `2 ^ order` pages only.  It
computes the order with `__builtin_clzl` and takes one off if the number is a power of two.  The
builtin is undefined on 0, and 0 pages may be asked for.
-/

namespace Xdk.Parasite

structure IsLeastOrder (numPages order : Nat) : Prop where
  enough : numPages ≤ 2 ^ order
  least : ∀ smaller, numPages ≤ 2 ^ smaller → order ≤ smaller

theorem builtinClzl_of_ne_zero (clzOfZero : Fin 65) {v : Nat} (pos : v ≠ 0) :
    builtinClzl clzOfZero v = 63 - v.log2 := by
  simp [builtinClzl, pos]

variable {numPages : Nat}

/-- Without the correction the order is the number of digits of the number in base 2. -/
theorem allocOrder_of_ne_zero (clzOfZero : Fin 65) (pos : numPages ≠ 0) (fits : numPages < 2 ^ 64) :
    allocOrder clzOfZero numPages =
      if 2 ^ numPages.log2 = numPages then numPages.log2 else numPages.log2 + 1 := by
  have digits : numPages.log2 < 64 := (Nat.log2_lt pos).mpr fits
  have order : 64 - builtinClzl clzOfZero numPages = numPages.log2 + 1 := by
    rw [builtinClzl_of_ne_zero clzOfZero pos]
    omega
  simp [allocOrder, order]

theorem isLeastOrder_allocOrder (clzOfZero : Fin 65) {numPages : Nat} (pos : numPages ≠ 0)
    (fits : numPages < 2 ^ 64) : IsLeastOrder numPages (allocOrder clzOfZero numPages) := by
  have below : 2 ^ numPages.log2 ≤ numPages := Nat.log2_self_le pos
  have above : numPages < 2 ^ (numPages.log2 + 1) := Nat.lt_log2_self
  rw [allocOrder_of_ne_zero clzOfZero pos fits]
  split
  · rename_i power
    constructor
    · exact Nat.le_of_eq power.symm
    · intro smaller enough
      rw [← power] at enough
      exact (Nat.pow_le_pow_iff_right (by simp)).mp enough
  · rename_i between
    constructor
    · exact Nat.le_of_lt above
    · intro smaller enough
      apply Nat.lt_of_not_le
      intro lo
      have := Nat.pow_le_pow_right (show 0 < 2 by simp) lo
      omega

/-- The order of a request that needs a larger block than there is. -/
theorem maxOrder_le_of_isLeastOrder {order : Nat} (needed : IsLeastOrder numPages order)
    (large : 2 ^ (maxOrder - 1) < numPages) : maxOrder ≤ order := by
  apply Nat.le_of_not_lt
  intro small
  have fits : 2 ^ order ≤ 2 ^ (maxOrder - 1) :=
    Nat.pow_le_pow_right (by simp) (by omega)
  have enough := needed.enough
  omega

/-! ## The calls -/

/-- What a request gets, in every state and whatever the kernel answers: no other block than the
    smallest one with as many pages, and `-ERANGE` if there is no such block. -/
structure OrderAsNeeded (request : AllocRequest) : Prop where
  blocks : ∀ {s s' : State} {device : Nat} {caller : Caller} {answers : AllocAnswers}
    {result : Except Errno Unit},
    dmaAllocStore s device caller (some request) answers = some (result, s') →
    ∀ block ∈ s'.blocks, block ∈ s.blocks ∨ IsLeastOrder request.numPages block.order
  refused : ∀ {s : State} {device : Nat} {pkdev : PkDevice} {caller : Caller}
    (answers : AllocAnswers), s.devices[device]? = some pkdev →
    s.checkAuthority pkdev.pciDev caller = true → 2 ^ (maxOrder - 1) < request.numPages →
    dmaAllocStore s device caller (some request) answers = some (.error .erange, s)

section Calls

variable {s s' : State} {device : Nat} {pkdev : PkDevice} {caller : Caller}
  {request : AllocRequest} {answers : AllocAnswers} {result : Except Errno Unit}

/-- A call takes one block from the kernel at most, of the order that it has computed. -/
theorem order_of_mem_blocks
    (stored : dmaAllocStore s device caller (some request) answers = some (result, s'))
    {b : Block} (mem : b ∈ s'.blocks) :
    b ∈ s.blocks ∨ b.order = allocOrder answers.clzOfZero request.numPages := by
  cases dmaAllocStore_outcome stored with
  | refused early => exact .inl mem
  | unmapped numbers page given demand unmapped | recorded numbers page given demand mapped =>
    cases given
    obtain rfl | old := List.mem_cons.mp mem
    · exact .inr rfl
    · exact .inl old

theorem dmaAllocStore_erange (attached : s.devices[device]? = some pkdev)
    (authorised : s.checkAuthority pkdev.pciDev caller = true)
    (large : maxOrder ≤ allocOrder answers.clzOfZero request.numPages) :
    dmaAllocStore s device caller (some request) answers = some (.error .erange, s) := by
  simp [dmaAllocStore, attached, authorised, large]

end Calls

def oneGranted : State where
  devices := [⟨0, ⟨0, 1, 0, 0⟩, []⟩]
  grants := [⟨1, 0, 0, 0⟩]
  blocks := []

def clzReturns63 : AllocAnswers where
  clzOfZero := Fin.mk 63 (Nat.lt_add_of_pos_right (Nat.two_pow_pos 1))
  numaNodeId := 0
  record := true
  page := some 256
  handle := 0x100000
  physAddr := 0x100000

def noPages : AllocRequest := ⟨0, 0, 0, Nat.two_pow_pos 64⟩

/-- A request of 0 pages that gets two. -/
theorem dmaAllocStore_no_pages {req : AllocRequest} (none : req.numPages = 0) :
    ∃ s', dmaAllocStore oneGranted 0 ⟨7, 0⟩ (some req) clzReturns63 = some (.ok (), s') ∧
      s'.blocks = [⟨256, 1⟩] := by
  have order : allocOrder clzReturns63.clzOfZero req.numPages = 1 := by
    rw [none]
    rfl
  have record : clzReturns63.record = true := rfl
  have page : clzReturns63.page = some 256 := rfl
  have handle : clzReturns63.handle = 0x100000 := rfl
  simp [dmaAllocStore, oneGranted, order, record, page, handle, State.checkAuthority,
    isDeviceGranted, maxOrder, State.addArea]

theorem not_isLeastOrder_zero_one : ¬ IsLeastOrder 0 1 := by
  intro order
  have := order.least 0 (by simp)
  omega

/-- A request gets the smallest block that is large enough, or is refused, exactly if it asks for
    a page at least. -/
theorem dma_alloc_order_iff (request : AllocRequest) :
    OrderAsNeeded request ↔ request.numPages ≠ 0 := by
  constructor
  · intro needed none
    obtain ⟨s', stored, blocks⟩ := dmaAllocStore_no_pages none
    have order := needed.blocks stored ⟨256, 1⟩ (by simp [blocks])
    rw [none] at order
    simp [oneGranted, not_isLeastOrder_zero_one] at order
  · intro positive
    have order : ∀ answers : AllocAnswers,
        IsLeastOrder request.numPages (allocOrder answers.clzOfZero request.numPages) :=
      fun answers => isLeastOrder_allocOrder answers.clzOfZero positive request.numPages_lt
    constructor
    · intro s s' device caller answers result stored block listed
      obtain old | new := order_of_mem_blocks stored listed
      · exact .inl old
      · right
        rw [new]
        exact order answers
    · intro s device pkdev caller answers attached authorised large
      apply dmaAllocStore_erange attached authorised
      exact maxOrder_le_of_isLeastOrder (order answers) large

/-- The process 7 asks for 0 pages and gets a block of two. -/
theorem dma_alloc_order_no_pages : ∃ s',
    dmaAllocStore oneGranted 0 ⟨7, 0⟩ (some noPages) clzReturns63 = some (.ok (), s') ∧
      ⟨256, 1⟩ ∈ s'.blocks ∧ ⟨256, 1⟩ ∉ oneGranted.blocks ∧ ¬ IsLeastOrder 0 1 := by
  obtain ⟨s', stored, blocks⟩ := @dmaAllocStore_no_pages noPages rfl
  exact ⟨s', stored, by simp [blocks], by simp [oneGranted], not_isLeastOrder_zero_one⟩

end Xdk.Parasite
