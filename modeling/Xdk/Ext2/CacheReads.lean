import Xdk.Ext2.BlockCache

/-! # Reads through the block cache

Without writes the cache is right about what it has, but a read that does not begin at a block may
be too long for the silo that is made for it.  When all entries are in use, the one that
`find_best_silo` takes for the oldest is the one with the largest time stamp.
-/

namespace Xdk.Ext2

open Xdk.Lib Function

structure ReadCall where
  offset : Nat
  byteCount : Nat
  cycles : Nat

namespace BlockCache

def Missed (cache : BlockCache) (call : ReadCall) : Prop :=
  call.byteCount ≤ siloSizeBytes ∧ cache.readSilos call.offset call.byteCount = none

instance (cache : BlockCache) (call : ReadCall) : Decidable (cache.Missed call) :=
  inferInstanceAs (Decidable (_ ∧ _))

variable {cache after : BlockCache} {contents : Nat → UInt8} {call : ReadCall} {bytes : List UInt8}

theorem update_findBestSilo (cache : BlockCache) (entry : SiloEntry) :
    update cache.findBestSilo.1.siloEntries cache.findBestSilo.2 entry =
      update cache.siloEntries cache.findBestSilo.2 entry := by
  unfold findBestSilo
  split
  · rfl
  · exact update_idem _ _ _

theorem readSilos_of_not_held (missing : ¬ cache.Held call.offset call.byteCount) :
    cache.readSilos call.offset call.byteCount = none := by
  refine List.findSome?_eq_none_iff.mpr fun i mem => ?_
  cases found : (cache.siloEntries i).silo with
  | none => rfl
  | some silo => exact if_neg fun covers => missing ⟨i, List.mem_range.mp mem, silo, found, covers⟩

theorem read_of_missed (missed : cache.Missed call) :
    cache.read call.offset call.byteCount call.cycles =
      (cache.allocateSilo call.offset call.cycles).bind fun allocated =>
        (allocated.2.read call.offset call.byteCount).map fun bytes => (bytes, allocated.1) := by
  rw [read, if_neg (Nat.not_lt.mpr missed.1), doSiloRead, missed.2]

theorem eq_of_not_missed (hit : ¬ cache.Missed call)
    (read : cache.read call.offset call.byteCount call.cycles = some (bytes, after)) :
    after = cache := by
  rw [BlockCache.read] at read
  split_ifs at read with large
  · cases read
    rfl
  · cases found : cache.readSilos call.offset call.byteCount with
    | none => exact absurd ⟨Nat.le_of_not_lt large, found⟩ hit
    | some bytes =>
      simp only [doSiloRead, found] at read
      cases read
      rfl

/-- A miss puts a new silo into the entry that `find_best_silo` returns. -/
theorem Coherent.missed (coherent : cache.Coherent contents) (pos : 0 < call.cycles)
    (missed : cache.Missed call)
    (read : cache.read call.offset call.byteCount call.cycles = some (bytes, after)) :
    after.Coherent contents ∧ ∃ silo, after.siloEntries =
      update cache.siloEntries cache.findBestSilo.2 ⟨some silo, call.cycles⟩ := by
  obtain ⟨next, allocated, kept⟩ := coherent.allocateSilo call.offset pos
  rw [read_of_missed missed, allocated, Option.bind_some, Option.map_eq_some_iff] at read
  obtain ⟨bytes, -, same⟩ := read
  cases same
  rw [BlockCache.allocateSilo] at allocated
  split_ifs at allocated
  obtain ⟨rfl, -⟩ := Prod.mk.inj (Option.some.inj allocated)
  exact ⟨kept, _, update_findBestSilo _ _⟩

theorem Coherent.of_read (coherent : cache.Coherent contents) (pos : 0 < call.cycles)
    (read : cache.read call.offset call.byteCount call.cycles = some (bytes, after)) :
    after.Coherent contents := by
  by_cases missed : cache.Missed call
  · exact (coherent.missed pos missed read).1
  · exact eq_of_not_missed missed read ▸ coherent

end BlockCache

/-! ## Runs -/

/-- The cache, the time of the last call, and the entries in use, the one loaded last first. -/
structure Reader where
  cache : BlockCache
  now : Nat
  loads : List Nat

namespace Reader

def start (device : Nat → UInt8) : Reader := ⟨.create device, 0, []⟩

def step (r : Reader) (call : ReadCall) : Option Reader :=
  (r.cache.read call.offset call.byteCount call.cycles).map fun result =>
    { cache := result.2
      now := call.cycles
      loads := if r.cache.Missed call then
        r.cache.findBestSilo.2 :: r.loads.erase r.cache.findBestSilo.2 else r.loads }

variable {device : Nat → UInt8} {r r' : Reader} {call : ReadCall}

theorem of_step (step : r.step call = some r') :
    ∃ bytes, r.cache.read call.offset call.byteCount call.cycles = some (bytes, r'.cache) ∧
      r'.now = call.cycles ∧ r'.loads = if r.cache.Missed call then
        r.cache.findBestSilo.2 :: r.loads.erase r.cache.findBestSilo.2 else r.loads := by
  obtain ⟨⟨bytes, after⟩, read, rfl⟩ := Option.map_eq_some_iff.mp step
  exact ⟨bytes, read, rfl, rfl⟩

/-! ## What a read returns -/

structure Servable (call : ReadCall) : Prop where
  cycles : 0 < call.cycles
  range : call.offset + call.byteCount < 2 ^ 64
  silo : call.offset / 512 * 512 + siloSizeBytes < 2 ^ 64

instance (call : ReadCall) : Decidable (Servable call) :=
  decidable_of_iff (0 < call.cycles ∧ call.offset + call.byteCount < 2 ^ 64 ∧
      call.offset / 512 * 512 + siloSizeBytes < 2 ^ 64)
    ⟨fun ⟨cycles, range, silo⟩ => ⟨cycles, range, silo⟩,
      fun servable => ⟨servable.cycles, servable.range, servable.silo⟩⟩

/-- In every state that reads lead to, a read returns the bytes of the device exactly if it is too
    big for the cache, or a silo has its range, or the silo that is loaded for it will have. -/
theorem cache_reads_iff (reached : Reaches step (fun _ => Servable) (start device) r)
    (servable : Servable call) :
    (∃ after, r.cache.read call.offset call.byteCount call.cycles =
      some (bytesAt device call.offset call.byteCount, after)) ↔
      (call.byteCount ≤ siloSizeBytes → r.cache.Held call.offset call.byteCount ∨
        call.offset % 512 + call.byteCount ≤ siloSizeBytes) := by
  have coherent : r.cache.Coherent device := by
    refine reached.invariant (motive := fun r => r.cache.Coherent device)
      (BlockCache.create_coherent device) fun coherent allowed made => ?_
    obtain ⟨bytes, read, -⟩ := of_step made
    exact coherent.of_read allowed.cycles read
  constructor
  · rintro ⟨after, read⟩ small
    by_contra outside
    obtain ⟨missing, long⟩ := not_or.mp outside
    obtain ⟨next, allocated, -⟩ := coherent.allocateSilo call.offset servable.cycles
    rw [BlockCache.read_of_missed ⟨small, BlockCache.readSilos_of_not_held missing⟩, allocated,
      Option.bind_some, Option.map_eq_some_iff] at read
    obtain ⟨bytes, read, -⟩ := read
    rw [Silo.read, if_neg fun covers => ?_] at read
    · cases read
    · have range := covers.2
      rw [Silo.endOffset, Silo.create, wrap_of_lt servable.silo, wrap_of_lt servable.range] at range
      omega
  · intro fits
    obtain ⟨after, read, -⟩ := coherent.read servable.cycles servable.range fun small =>
      (fits small).imp_right fun fits => ⟨servable.silo, fits⟩
    exact ⟨after, read⟩

/-- Sixteen reads that load a silo each. -/
theorem sixteen_loads :
    ∃ r, Reaches step (fun r call => Servable call ∧ r.now < call.cycles) (start UInt8.ofNat) r ∧
      (∀ i < maxSilos, (r.cache.siloEntries i).silo.isSome = true) ∧
        (¬ r.cache.Missed ⟨siloSizeBytes + 7, 2, 17⟩ ∧
          r.cache.Missed ⟨16 * siloSizeBytes + 7, 2, 17⟩) ∧
        r.loads.getLast? = some 0 ∧ r.cache.findBestSilo.2 = 15 := by
  have executed : ∃ r ∈ execute step (fun r call => Servable call ∧ r.now < call.cycles)
      ((List.range maxSilos).map fun i => ⟨i * siloSizeBytes, 1, i + 1⟩) (start UInt8.ofNat),
      (∀ i < maxSilos, (r.cache.siloEntries i).silo.isSome = true) ∧
        (¬ r.cache.Missed ⟨siloSizeBytes + 7, 2, 17⟩ ∧
          r.cache.Missed ⟨16 * siloSizeBytes + 7, 2, 17⟩) ∧
        r.loads.getLast? = some 0 ∧ r.cache.findBestSilo.2 = 15 := by
    decide +kernel
  exact exists_reaches_of_execute executed

/-- After them, a read of bytes that a silo has, and one of bytes that none has. -/
theorem cache_reads_iff_filled :
    ∃ r, Reaches step (fun _ => Servable) (start UInt8.ofNat) r ∧
      (¬ r.cache.Missed ⟨siloSizeBytes + 7, 2, 17⟩ ∧
        ∃ after, r.cache.read (siloSizeBytes + 7) 2 17 = some ([7, 8], after)) ∧
      (r.cache.Missed ⟨16 * siloSizeBytes + 7, 2, 17⟩ ∧
        ∃ after, r.cache.read (16 * siloSizeBytes + 7) 2 17 = some ([7, 8], after)) := by
  obtain ⟨r, reached, -, ⟨hit, missed⟩, -⟩ := sixteen_loads
  have served := reached.mono fun allowed => allowed.1
  refine ⟨r, served, ⟨hit, ?_⟩, missed, ?_⟩
  · exact (@cache_reads_iff _ _ ⟨siloSizeBytes + 7, 2, 17⟩ served
      ⟨by decide, by decide, by decide⟩).mpr fun _ => .inr (by decide)
  · exact (@cache_reads_iff _ _ ⟨16 * siloSizeBytes + 7, 2, 17⟩ served
      ⟨by decide, by decide, by decide⟩).mpr fun _ => .inr (by decide)

/-- A read of 4 MiB from the second byte on: the assertion on the new silo fails. -/
theorem cache_read_asserts :
    Servable ⟨1, siloSizeBytes, 1⟩ ∧
      ((start fun _ => 0).cache.read 1 siloSizeBytes 1).isNone = true :=
  ⟨⟨by decide, by decide, by decide⟩, by decide +kernel⟩

/-! ## What is evicted -/

structure Timed (device : Nat → UInt8) (r : Reader) : Prop where
  coherent : r.cache.Coherent device
  loaded : ∀ i, i ∈ r.loads ↔ i < maxSilos ∧ (r.cache.siloEntries i).silo ≠ none
  order : r.loads.Pairwise fun a b => (r.cache.siloEntries b).age < (r.cache.siloEntries a).age
  past : ∀ i, (r.cache.siloEntries i).age ≤ r.now

theorem Timed.step (timed : r.Timed device) (later : r.now < call.cycles)
    (step : r.step call = some r') : r'.Timed device := by
  obtain ⟨bytes, read, now, loads⟩ := of_step step
  by_cases missed : r.cache.Missed call
  · obtain ⟨coherent, silo, entries⟩ := timed.coherent.missed (Nat.zero_lt_of_lt later) missed read
    have best := timed.coherent.findBestSilo.2.1
    generalize r.cache.findBestSilo.2 = i at *
    rw [if_pos missed] at loads
    have nodup : r.loads.Nodup := by
      refine timed.order.imp ?_
      rintro a b lt rfl
      exact lt.false
    have others (j : Nat) (mem : j ∈ r.loads.erase i) : r'.cache.siloEntries j =
        r.cache.siloEntries j := by
      rw [entries, update_of_ne (nodup.mem_erase_iff.mp mem).1]
    have past (j : Nat) : (r'.cache.siloEntries j).age ≤ r'.now := by
      rw [entries, now, update_apply]
      split_ifs
      · exact le_rfl
      · exact (timed.past j).trans later.le
    refine ⟨coherent, fun j => ?_, ?_, past⟩
    · by_cases own : j = i
      · simp [loads, entries, own, best]
      · simp [loads, entries, own, timed.loaded]
    · rw [loads]
      refine .cons (fun j mem => ?_) ?_
      · rw [others j mem, entries, update_self]
        exact (timed.past j).trans_lt later
      · refine (timed.order.sublist List.erase_sublist).imp_of_mem fun first second lt => ?_
        rwa [others _ first, others _ second]
  · rw [if_neg missed] at loads
    have same := BlockCache.eq_of_not_missed missed read
    obtain ⟨coherent, loaded, order, past⟩ := timed
    rw [← same] at coherent loaded order past
    rw [← loads] at loaded order
    exact ⟨coherent, loaded, order, fun i => (past i).trans (now ▸ later.le)⟩

def Full (r : Reader) : Prop := ∀ i < maxSilos, (r.cache.siloEntries i).silo ≠ none

theorem scanSilos_largest {siloEntries : Nat → SiloEntry} {indices : List Nat} (oldest : Nat)
    (used : ∀ i ∈ indices, (siloEntries i).age ≠ 0) :
    (BlockCache.scanSilos siloEntries indices oldest).2 = true ∧ ∀ i ∈ oldest :: indices,
      (siloEntries i).age ≤
        (siloEntries (BlockCache.scanSilos siloEntries indices oldest).1).age := by
  induction indices generalizing oldest with
  | nil => simp [BlockCache.scanSilos]
  | cons i indices ih =>
    rw [List.forall_mem_cons] at used
    rw [BlockCache.scanSilos, if_neg used.1]
    obtain ⟨full, largest⟩ := ih _ used.2
    rw [List.forall_mem_cons] at largest
    simp only [List.forall_mem_cons]
    refine ⟨full, ?_, ?_, largest.2⟩
    · refine le_trans ?_ largest.1
      split_ifs <;> omega
    · refine le_trans ?_ largest.1
      split_ifs <;> omega

theorem findBestSilo_snd (cache : BlockCache) : cache.findBestSilo.2 =
    (BlockCache.scanSilos cache.siloEntries (List.range maxSilos) 0).1 := by
  unfold BlockCache.findBestSilo
  split <;> simp [*]

/-- When all entries are in use, the one that is emptied for the next silo is always the one that
    was loaded last, and never the one that was loaded first. -/
theorem evicts_latest (reached : Reaches step (fun r call => r.now < call.cycles) (start device) r)
    (full : r.Full) :
    r.loads.head? = some r.cache.findBestSilo.2 ∧
      r.loads.getLast? ≠ some r.cache.findBestSilo.2 := by
  have timed : r.Timed device := by
    refine reached.invariant (motive := Timed device) ?_ fun timed later => timed.step later
    exact ⟨BlockCache.create_coherent device, by simp [start, BlockCache.create], .nil,
      fun _ => le_rfl⟩
  have used (i : Nat) (mem : i ∈ List.range maxSilos) : (r.cache.siloEntries i).age ≠ 0 :=
    fun zero => full i (List.mem_range.mp mem) ((timed.coherent.aged i).mp zero)
  obtain ⟨-, largest⟩ := scanSilos_largest 0 used
  rw [← findBestSilo_snd] at largest
  have best := timed.coherent.findBestSilo.2.1
  have mem {i : Nat} (lt : i < maxSilos) : i ∈ r.loads := (timed.loaded i).mpr ⟨lt, full i lt⟩
  have bestMem := mem best
  have order := timed.order
  cases loads : r.loads with
  | nil => simp [loads] at bestMem
  | cons first rest =>
    rw [loads, List.pairwise_cons] at order
    have first_lt := ((timed.loaded first).mp (by simp [loads])).1
    have le := largest first (List.mem_cons_of_mem _ (List.mem_range.mpr first_lt))
    have notRest : r.cache.findBestSilo.2 ∉ rest := fun mem => (order.1 _ mem).not_ge le
    have same : r.cache.findBestSilo.2 = first := by
      rw [loads] at bestMem
      exact (List.mem_cons.mp bestMem).resolve_right notRest
    have several : rest ≠ [] := by
      rintro rfl
      have zero : 0 ∈ r.loads := mem (by decide)
      have one : 1 ∈ r.loads := mem (by decide)
      simp only [loads, List.mem_singleton] at zero one
      omega
    refine ⟨by rw [List.head?_cons, same], fun last => notRest ?_⟩
    rw [List.getLast?_cons_of_ne_nil several] at last
    exact List.mem_of_getLast? last

theorem evicts_latest_of_sixteen :
    ∃ r, Reaches step (fun r call => r.now < call.cycles) (start UInt8.ofNat) r ∧ r.Full ∧
      r.loads.getLast? ≠ some r.cache.findBestSilo.2 := by
  obtain ⟨r, reached, used, -⟩ := sixteen_loads
  have full : r.Full := fun i lt => Option.isSome_iff_ne_none.mp (used i lt)
  have timed := reached.mono fun allowed => allowed.2
  exact ⟨r, timed, full, (evicts_latest timed full).2⟩

/-- The silo loaded first is in entry 0, and the next miss empties entry 15. -/
theorem evicts_not_earliest :
    ∃ r, Reaches step (fun r call => r.now < call.cycles) (start UInt8.ofNat) r ∧
      r.loads.getLast? = some 0 ∧ r.cache.findBestSilo.2 = 15 := by
  obtain ⟨r, reached, -, -, evicted⟩ := sixteen_loads
  exact ⟨r, reached.mono fun allowed => allowed.2, evicted⟩

end Reader

end Xdk.Ext2
