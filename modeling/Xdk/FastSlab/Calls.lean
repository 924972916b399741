import Xdk.FastSlab.Constructor

/-! # The pool between calls

`alloc` and `free` of the fast slab allocator where each call ends before the next one begins.
What a pool does is decided by the counters of its buffer: they are even, and half of each is the
number of blocks inserted or taken so far, modulo half of `_count_limit`.  As far as the counters
can tell, a pool into which `number` blocks have been put has `number` of them modulo that half.
-/

namespace Xdk.FastSlab

open Xdk.Lib Xdk.Nbb Function

namespace Built

def alloc (pool : Built) : Option Nat × Built :=
  let result := pool.nbb.readItem pool.shape
  (result.1.2.map (· + headerSize), { pool with nbb := result.2 })

/-- What `free` does once the allocator has found itself to be the owner; `none` is the panic. -/
def free (pool : Built) (header : Nat) : Option Built :=
  match pool.nbb.insertItem pool.shape header with
  | (.ok, nbb) => some { pool with nbb := nbb }
  | _ => none

/-- The blocks that `alloc` returns one after the other up to the first NULL, in at most `calls`
    calls. -/
def allocBlocks (pool : Built) : Nat → List Nat
  | 0 => []
  | calls + 1 =>
    match pool.alloc with
    | (some block, pool) => block :: pool.allocBlocks calls
    | (none, _) => []

end Built

/-! ## The counters -/

/-- `inserted` blocks have been put into the buffer, and `taken` have been taken out. -/
structure Counts (shape : Shape) (nbb : SymmetricNbb Nat) (inserted taken : Nat) : Prop where
  uc : nbb.uc = shape.counter inserted
  lastUc : nbb.lastUc = shape.counter inserted
  lastAc : nbb.lastAc = shape.counter taken

section Counters

variable {shape : Shape} {nbb nbb' : SymmetricNbb Nat} {inserted taken : Nat}

theorem counts_init (shape : Shape) : Counts shape .init 0 0 := by
  have zero : shape.counter 0 = 0 := by rw [Shape.counter, Nat.zero_mod]
  exact ⟨zero.symm, zero.symm, zero.symm⟩

variable {hdr : Nat}

/-- The item has been stored, and the counter shows it. -/
theorem insertItem_ok (accepted : nbb.insertItem shape hdr = (.ok, nbb')) :
    nbb' = ((nbb.beginInsert.storeSlot shape hdr).publishInsert shape).rememberInsert := by
  simp only [SymmetricNbb.insertItem, SymmetricNbb.insertCheck] at accepted
  split_ifs at accepted
  · cases accepted
  · cases accepted
  · exact (congrArg Prod.snd accepted).symm

section

variable (counts : Counts shape nbb inserted taken)
include counts

theorem Counts.insertItem (accepted : nbb.insertItem shape hdr = (.ok, nbb')) :
    Counts shape nbb' (inserted + 1) taken := by
  obtain rfl := insertItem_ok accepted
  have next : shape.advance nbb.lastUc = shape.counter (inserted + 1) := by
    rw [counts.lastUc, Shape.advance_counter]
  exact ⟨next, next, counts.lastAc⟩

theorem Counts.readItem_empty (same : inserted % shape.half = taken % shape.half) :
    nbb.readItem shape = ((.empty, none), nbb) := by
  have equal : nbb.uc = nbb.lastAc := by
    rw [counts.uc, counts.lastAc, Shape.counter, Shape.counter, same]
  have check : SymmetricNbb.readCheck nbb.lastAc nbb.uc = some .empty := if_pos equal
  simp only [SymmetricNbb.readItem, check]

theorem Counts.readItem (different : inserted % shape.half ≠ taken % shape.half) :
    ∃ read, nbb.readItem shape =
        ((.ok, some (nbb.buffer (shape.slot (shape.counter taken)))), read) ∧
      read.buffer = nbb.buffer ∧ Counts shape read inserted (taken + 1) := by
  have check : SymmetricNbb.readCheck nbb.lastAc nbb.uc = none := by
    have lt := shape.counter_lt taken
    have apart : shape.counter inserted ≠ shape.counter taken := by
      simp only [Shape.counter]
      omega
    have even : wrapSub 32 (shape.counter inserted) (shape.counter taken) ≠ 1 := by
      simp only [wrapSub, Shape.counter]
      omega
    rw [SymmetricNbb.readCheck, counts.uc, counts.lastAc, if_neg apart, if_neg even]
  have next : shape.advance nbb.lastAc = shape.counter (taken + 1) := by
    rw [counts.lastAc, Shape.advance_counter]
  refine ⟨(nbb.beginRead.publishRead shape).rememberRead, ?_, rfl, counts.uc, counts.lastUc, next⟩
  simp only [SymmetricNbb.readItem, check]
  rw [← counts.lastAc]
  rfl

end

def Filled (blocks : List Nat) (shape : Shape) (nbb : SymmetricNbb Nat) (count : Nat) : Prop :=
  ∀ position < count, nbb.buffer (shape.slot (shape.counter position)) ∈ blocks

theorem Filled.storeSlot {bs : List Nat} {count : Nat} (filled : Filled bs shape nbb count)
    (mem : hdr ∈ bs) :
    Filled bs shape (nbb.storeSlot shape hdr) count := by
  intro p lt
  show update nbb.buffer _ hdr _ ∈ bs
  rw [update_apply]
  split
  · exact mem
  · exact filled p lt

theorem populate_counts {blocks : List Nat} (rest : List Nat)
    (subset : ∀ hdr ∈ rest, hdr ∈ blocks)
    (counts : Counts shape nbb inserted 0) (filled : Filled blocks shape nbb inserted)
    (populated : populate shape rest nbb = some nbb') :
    Counts shape nbb' (inserted + rest.length) 0 ∧
      Filled blocks shape nbb' (inserted + rest.length) := by
  induction rest generalizing nbb inserted with
  | nil =>
    cases populated
    exact ⟨counts, filled⟩
  | cons hdr rest ih =>
    simp only [populate] at populated
    split at populated
    swap
    · cases populated
    rename_i stored accepted
    have mem : hdr ∈ blocks := subset hdr (List.mem_cons_self ..)
    have more : Filled blocks shape stored (inserted + 1) := by
      obtain rfl := insertItem_ok accepted
      intro p lt
      obtain earlier | rfl := Nat.lt_succ_iff_lt_or_eq.mp lt
      · exact filled.storeSlot mem p earlier
      · show update nbb.buffer (shape.slot nbb.lastUc) hdr _ ∈ blocks
        rw [counts.lastUc, update_self]
        exact mem
    rw [List.length_cons, Nat.add_comm rest.length, ← Nat.add_assoc]
    exact ih (fun hdr mem => subset hdr (List.mem_cons_of_mem _ mem))
      (counts.insertItem accepted) more populated

end Counters

/-! ## A pool that has only its own blocks -/

namespace Built

/-- Whatever count the buffer is read at, a block of the pool is found. -/
structure Kept (pool : Built) : Prop where
  counts : ∃ inserted taken, Counts pool.shape pool.nbb inserted taken
  own : ∀ position, pool.nbb.buffer (pool.shape.slot (pool.shape.counter position)) ∈ pool.blocks

variable {params : Params}

theorem create_counts {pool : Built} (created : create params = some pool) :
    Counts pool.shape pool.nbb pool.blocks.length 0 ∧
      Filled pool.blocks pool.shape pool.nbb pool.blocks.length := by
  obtain ⟨_, _, _, _, _, populated⟩ := create_spec created
  have none : Filled pool.blocks pool.shape .init 0 :=
    fun _ lt => absurd lt (Nat.not_lt_zero _)
  have final := populate_counts pool.blocks (fun _ mem => mem) (counts_init _) none populated
  rwa [Nat.zero_add] at final

theorem create_kept {pool : Built} (created : create params = some pool) :
    Kept pool := by
  obtain ⟨_, _, _, _, shaped, _⟩ := create_spec created
  obtain ⟨size, _⟩ := Shape.create_size shaped
  obtain ⟨counts, filled⟩ := create_counts created
  refine ⟨⟨_, _, counts⟩, fun position => ?_⟩
  have below := Nat.mod_lt position pool.shape.half_pos
  obtain straight | wrapped := Nat.lt_or_ge pool.blocks.length pool.shape.half
  · let place := position % pool.shape.half % pool.shape.size
    have most : wrap 32 pool.blocks.length ≤ pool.blocks.length := Nat.mod_le _ _
    have inside : place < pool.shape.size := Nat.mod_lt _ pool.shape.size_pos
    have slot : pool.shape.slot (pool.shape.counter position) =
        pool.shape.slot (pool.shape.counter place) := by
      simp only [Shape.slot, Shape.counter, Nat.mul_div_cancel_left _ Nat.two_pos]
      rw [Nat.mod_eq_of_lt (by omega : place < pool.shape.half), Nat.mod_eq_of_lt inside]
    exact slot ▸ filled place (by omega)
  · have same : pool.shape.counter (position % pool.shape.half) = pool.shape.counter position := by
      rw [Shape.counter, Shape.counter, Nat.mod_mod]
    exact same ▸ filled (position % pool.shape.half) (by omega)

variable {pool pool' : Built}

theorem Kept.alloc (kept : Kept pool) :
    Kept pool.alloc.2 ∧ pool.alloc.2.blocks = pool.blocks ∧
      ∀ b, pool.alloc.1 = some b → ∃ hdr ∈ pool.blocks, b = hdr + headerSize := by
  obtain ⟨inserted, taken, counts⟩ := kept.counts
  by_cases same : inserted % pool.shape.half = taken % pool.shape.half
  · have empty : pool.alloc = (none, pool) := by
      rw [Built.alloc, counts.readItem_empty same]
      rfl
    rw [empty]
    exact ⟨kept, rfl, fun _ found => nomatch found⟩
  · obtain ⟨read, res, buf, counts'⟩ := counts.readItem same
    have taken' : pool.alloc =
        (some (pool.nbb.buffer (pool.shape.slot (pool.shape.counter taken)) + headerSize),
          { pool with nbb := read }) := by
      rw [Built.alloc, res]
      rfl
    rw [taken']
    refine ⟨⟨⟨_, _, counts'⟩, fun p => ?_⟩, rfl, fun b found => ?_⟩
    · show read.buffer _ ∈ pool.blocks
      rw [buf]
      exact kept.own p
    · cases found
      exact ⟨_, kept.own taken, rfl⟩

variable {hdr : Nat}

theorem free_eq_some (freed : pool.free hdr = some pool') :
    ∃ nbb, pool.nbb.insertItem pool.shape hdr = (.ok, nbb) ∧
      pool' = { pool with nbb := nbb } := by
  simp only [Built.free] at freed
  split at freed
  · rename_i nbb accepted
    exact ⟨nbb, accepted, (Option.some.inj freed).symm⟩
  · cases freed

theorem Kept.free {hdr : Nat} (kept : Kept pool) (mem : hdr ∈ pool.blocks)
    (freed : pool.free hdr = some pool') : Kept pool' ∧ pool'.blocks = pool.blocks := by
  obtain ⟨inserted, taken, counts⟩ := kept.counts
  obtain ⟨nbb, accepted, rfl⟩ := free_eq_some freed
  refine ⟨⟨⟨_, _, counts.insertItem accepted⟩, fun p => ?_⟩, rfl⟩
  obtain rfl := insertItem_ok accepted
  have filled : Filled pool.blocks pool.shape pool.nbb (p + 1) :=
    fun p _ => kept.own p
  exact filled.storeSlot mem p (Nat.lt_succ_self _)

/-! ## How many blocks a pool gives out -/

theorem length_allocBlocks {inserted taken : Nat} (calls : Nat)
    (counts : Counts pool.shape pool.nbb inserted taken)
    (ordered : taken ≤ inserted % pool.shape.half) :
    (pool.allocBlocks calls).length = min calls (inserted % pool.shape.half - taken) := by
  have lt := Nat.mod_lt inserted pool.shape.half_pos
  have straight : taken % pool.shape.half = taken := Nat.mod_eq_of_lt (by omega)
  induction calls generalizing pool taken with
  | zero => rw [Nat.zero_min]; rfl
  | succ calls ih =>
    obtain same | less := Nat.eq_or_lt_of_le ordered
    · have empty : pool.alloc = (none, pool) := by
        rw [Built.alloc, counts.readItem_empty (by rw [straight, same])]
        rfl
      rw [same, Nat.sub_self, Nat.min_zero]
      simp only [allocBlocks, empty, List.length_nil]
    · obtain ⟨read, res, _, counts'⟩ := counts.readItem (by omega)
      have next := @ih { pool with nbb := read } (taken + 1) counts' less lt
        (Nat.mod_eq_of_lt (show taken + 1 < pool.shape.half by omega))
      simp only [allocBlocks, Built.alloc, res, Option.map_some, List.length_cons, next]
      omega

/-- A new pool gives out its blocks up to the number that the counters can tell. -/
theorem create_length_allocBlocks (created : create params = some pool) (calls : Nat) :
    (pool.allocBlocks calls).length = min calls (pool.blocks.length % pool.shape.half) := by
  obtain ⟨counts, _⟩ := create_counts created
  exact length_allocBlocks calls counts (Nat.zero_le _)

/-! ## The blocks in a pool -/

/-- The blocks in the pool, in the order in which they will be given out, where there are more
    counts than places. -/
structure Has (pool : Built) (queue : List Nat) : Prop where
  ample : pool.shape.size < pool.shape.half
  stored : ∃ first, History.Stored pool.shape ⟨pool.nbb, queue⟩ first queue.length

theorem create_has (created : create params = some pool)
    (ample : pool.blocks.length < pool.shape.half) : Has pool pool.blocks := by
  obtain ⟨_, _, _, _, shaped, populated⟩ := create_spec created
  obtain ⟨size, _⟩ := Shape.create_size shaped
  have limit := pool.shape.limit_lt
  rw [pool.shape.countLimit_eq] at limit
  rw [wrap_of_lt (by omega)] at size
  obtain ⟨filled, same, stored⟩ := populate_stored pool.blocks (History.stored_init pool.shape)
    (.inr (by omega)) (by omega)
  obtain rfl : pool.nbb = filled := Option.some.inj (populated.symm.trans same)
  exact ⟨by omega, 0, by simpa using stored⟩

theorem Has.nil_alloc (has : Has pool []) : pool.alloc = (none, pool) := by
  obtain ⟨first, stored⟩ := has.stored
  have equal : pool.nbb.lastUc = pool.nbb.lastAc := stored.lastUc.trans stored.lastAc.symm
  have check : SymmetricNbb.readCheck pool.nbb.lastAc pool.nbb.uc = some .empty :=
    stored.readCheck_eq.trans (if_pos equal)
  simp only [Built.alloc, SymmetricNbb.readItem, check, Option.map_none]

variable {queue : List Nat}

theorem Has.cons_alloc (has : Has pool (hdr :: queue)) :
    ∃ nbb, pool.alloc = (some (hdr + headerSize), { pool with nbb := nbb }) ∧
      Has { pool with nbb := nbb } queue := by
  obtain ⟨first, stored⟩ := has.stored
  have ample := has.ample
  have fits := stored.fits
  rw [List.length_cons] at fits stored
  have ne : ¬ pool.nbb.lastUc = pool.nbb.lastAc := by
    have lastUc : pool.nbb.lastUc = _ := stored.lastUc
    have lastAc : pool.nbb.lastAc = _ := stored.lastAc
    obtain same | ⟨wrapped, _⟩ := stored.lap <;> omega
  have check : SymmetricNbb.readCheck pool.nbb.lastAc pool.nbb.uc = none :=
    stored.readCheck_eq.trans (if_neg ne)
  obtain ⟨head, rest⟩ := stored.read
  have head : hdr = pool.nbb.beginRead.loadSlot pool.shape := (List.cons.inj head).1
  refine ⟨(pool.nbb.beginRead.publishRead pool.shape).rememberRead, ?_, ample, first + 1, rest⟩
  simp only [Built.alloc, SymmetricNbb.readItem, check, Option.map_some, head]

theorem Has.allocBlocks (has : Has pool queue) (calls : Nat) :
    pool.allocBlocks calls = (queue.take calls).map (· + headerSize) := by
  induction calls generalizing pool queue with
  | zero => rfl
  | succ calls ih =>
    cases queue with
    | nil => simp only [Built.allocBlocks, has.nil_alloc, List.take_nil, List.map_nil]
    | cons header queue =>
      obtain ⟨nbb, res, rest⟩ := has.cons_alloc
      simp only [Built.allocBlocks, res, ih rest, List.take_succ_cons,
        List.map_cons]

theorem Has.free (has : Has pool queue) (aligned : Shape.Aligned pool.shape)
    (room : queue.length < pool.shape.size) (hdr : Nat) :
    ∃ nbb, pool.free hdr = some { pool with nbb := nbb } ∧
      Has { pool with nbb := nbb } (queue ++ [hdr]) := by
  obtain ⟨first, stored⟩ := has.stored
  have check : SymmetricNbb.insertCheck pool.shape pool.nbb.lastUc pool.nbb.ac = none :=
    stored.insertCheck_eq.trans (if_neg (by omega))
  have next := stored.insert room (.inl aligned) hdr
  refine ⟨((pool.nbb.beginInsert.storeSlot pool.shape hdr).publishInsert
    pool.shape).rememberInsert, ?_, has.ample, first, ?_⟩
  · simp only [Built.free, SymmetricNbb.insertItem, check]
  · rw [List.length_append]
    exact next

end Built

end Xdk.FastSlab
