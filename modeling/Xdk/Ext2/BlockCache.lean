import Mathlib.Order.Interval.Finset.Nat
import Xdk.Ext2.File
import Xdk.Lib.Transition

/-! # The block cache of the ext2 file system

The cache keeps up to sixteen silos, each a copy of 4 MiB of the device from a block boundary on.
`read` looks for a silo that has the range and makes a new one when there is none; `write` goes to
the device and leaves the silos alone.  The purpose of the cache is that of the device without it:
a plain array of bytes.
-/

namespace Xdk.Ext2

open Xdk.Lib Function

def maxSilos : Nat := 16

def siloSizeBytes : Nat := 512 * 8192

def bytesAt (source : Nat → UInt8) (offset byteCount : Nat) : List UInt8 :=
  (List.range byteCount).map fun index => source (offset + index)

def store (contents : Nat → UInt8) (offset : Nat) (buffer : List UInt8) : Nat → UInt8 :=
  File.copy (buffer.getD · 0) buffer.length contents offset

/-! ## Silos -/

structure Silo where
  startOffset : Nat
  pages : Nat → UInt8

namespace Silo

/-- The constructor truncates the offset to a block and fills the pages from the device.  What
    follows the pages in memory is taken to be zero. -/
def create (device : Nat → UInt8) (offset : Nat) : Silo where
  startOffset := offset / 512 * 512
  pages index := if index < siloSizeBytes then device (offset / 512 * 512 + index) else 0

def endOffset (silo : Silo) : Nat := wrap 64 (silo.startOffset + siloSizeBytes)

def Covers (silo : Silo) (offset byteCount : Nat) : Prop :=
  silo.startOffset ≤ offset ∧ wrap 64 (offset + byteCount) ≤ silo.endOffset

instance (silo : Silo) (offset byteCount : Nat) : Decidable (silo.Covers offset byteCount) :=
  inferInstanceAs (Decidable (_ ∧ _))

/-- `none` stands for `E_FAIL`. -/
def read (silo : Silo) (offset byteCount : Nat) : Option (List UInt8) :=
  if silo.Covers offset byteCount then
    some (bytesAt silo.pages (offset - silo.startOffset) byteCount)
  else none

def Fits (offset byteCount : Nat) : Prop :=
  offset / 512 * 512 + siloSizeBytes < 2 ^ 64 ∧ offset % 512 + byteCount ≤ siloSizeBytes

instance (offset byteCount : Nat) : Decidable (Fits offset byteCount) :=
  inferInstanceAs (Decidable (_ ∧ _))

end Silo

structure SiloEntry where
  silo : Option Silo
  age : Nat

structure BlockCache where
  device : Nat → UInt8
  siloEntries : Nat → SiloEntry
  chunksTaken : Nat

namespace BlockCache

def create (device : Nat → UInt8) : BlockCache := ⟨device, fun _ => ⟨none, 0⟩, 0⟩

/-- The loop of `find_best_silo`: the entry, and whether it still has a silo.  The entry with the
    largest time stamp counts as the oldest. -/
def scanSilos (siloEntries : Nat → SiloEntry) : List Nat → Nat → Nat × Bool
  | [], oldest => (oldest, true)
  | index :: rest, oldest =>
    let oldest := if (siloEntries oldest).age < (siloEntries index).age then index else oldest
    if (siloEntries index).age = 0 then (index, false) else scanSilos siloEntries rest oldest

/-- The destructor of a silo gives its chunk back; a null pointer has none. -/
def deleteSilo (cache : BlockCache) (index : Nat) : BlockCache :=
  { cache with
    siloEntries := Function.update cache.siloEntries index ⟨none, 0⟩
    chunksTaken :=
      if (cache.siloEntries index).silo.isSome then cache.chunksTaken - 1 else cache.chunksTaken }

def findBestSilo (cache : BlockCache) : BlockCache × Nat :=
  match scanSilos cache.siloEntries (List.range maxSilos) 0 with
  | (index, false) => (cache, index)
  | (index, true) => (cache.deleteSilo index, index)

/-- `none` when `_mem_allocator` has no chunk left, which is a panic; `cycles` is what
    `read_cycles` returns. -/
def allocateSilo (cache : BlockCache) (offset cycles : Nat) : Option (BlockCache × Silo) :=
  let found := cache.findBestSilo
  if found.1.chunksTaken < maxSilos then
    let silo := Silo.create found.1.device offset
    some ({ found.1 with
      siloEntries := Function.update found.1.siloEntries found.2 ⟨some silo, cycles⟩
      chunksTaken := found.1.chunksTaken + 1 }, silo)
  else none

def readSilos (cache : BlockCache) (offset byteCount : Nat) : Option (List UInt8) :=
  (List.range maxSilos).findSome? fun index =>
    (cache.siloEntries index).silo.bind fun silo => silo.read offset byteCount

/-- `none` when the assertion on the new silo fails or there is no memory for it. -/
def doSiloRead (cache : BlockCache) (offset byteCount cycles : Nat) :
    Option (List UInt8 × BlockCache) :=
  match cache.readSilos offset byteCount with
  | some bytes => some (bytes, cache)
  | none =>
    (cache.allocateSilo offset cycles).bind fun allocated =>
      (allocated.2.read offset byteCount).map fun bytes => (bytes, allocated.1)

def read (cache : BlockCache) (offset byteCount cycles : Nat) : Option (List UInt8 × BlockCache) :=
  if siloSizeBytes < byteCount then some (bytesAt cache.device offset byteCount, cache)
  else cache.doSiloRead offset byteCount cycles

def Held (cache : BlockCache) (offset byteCount : Nat) : Prop :=
  ∃ index < maxSilos, ∃ silo, (cache.siloEntries index).silo = some silo ∧
    silo.Covers offset byteCount

def write (cache : BlockCache) (offset : Nat) (buffer : List UInt8) : BlockCache :=
  { cache with device := store cache.device offset buffer }

end BlockCache

/-! ## Runs -/

inductive BlockCall where
  | read (offset byteCount cycles : Nat)
  | write (offset : Nat) (buffer : List UInt8)

/-- The cache, and the array of bytes that it stands for: the initial contents of the device with
    all writes so far. -/
structure Session where
  cache : BlockCache
  contents : Nat → UInt8

namespace Session

def start (device : Nat → UInt8) : Session := ⟨.create device, device⟩

def step (session : Session) : BlockCall → Option Session
  | .read offset byteCount cycles =>
    (session.cache.read offset byteCount cycles).map fun result =>
      { session with cache := result.2 }
  | .write offset buffer =>
    some ⟨session.cache.write offset buffer, store session.contents offset buffer⟩

/-- The condition on the calls: a write changes no byte that a silo has, and a range that no silo
    has fits into the silo that starts at its block.  Ranges lie in the 64-bit address space and
    the cycle counter is not 0. -/
def Undisturbed (session : Session) : BlockCall → Prop
  | .read offset byteCount cycles =>
    0 < cycles ∧ offset + byteCount < 2 ^ 64 ∧
      (byteCount ≤ siloSizeBytes →
        session.cache.Held offset byteCount ∨ Silo.Fits offset byteCount)
  | .write offset buffer =>
    ∀ index silo, (session.cache.siloEntries index).silo = some silo →
      ∀ position < siloSizeBytes,
        store session.contents offset buffer (silo.startOffset + position) =
          session.contents (silo.startOffset + position)

end Session

/-! ## Coherence -/

theorem bytesAt_congr {a b : Nat → UInt8} {start off byteCount : Nat}
    (same : ∀ i < byteCount, a (start + i) = b (off + i)) :
    bytesAt a start byteCount = bytesAt b off byteCount := by
  refine List.map_congr_left fun i mem => ?_
  exact same i (List.mem_range.mp mem)

namespace Silo

def Agrees (silo : Silo) (contents : Nat → UInt8) : Prop :=
  ∀ position < siloSizeBytes, silo.pages position = contents (silo.startOffset + position)

variable {silo : Silo} {contents : Nat → UInt8} {offset byteCount : Nat} {bytes : List UInt8}

theorem Agrees.read_eq (agrees : silo.Agrees contents) (inside : offset + byteCount < 2 ^ 64)
    (read : silo.read offset byteCount = some bytes) :
    bytes = bytesAt contents offset byteCount := by
  simp only [Silo.read] at read
  split_ifs at read with covers
  obtain ⟨lower, hi⟩ := covers
  cases read
  -- the end of the silo may be wrapped, but then it is below its start
  have above : offset + byteCount ≤ silo.startOffset + siloSizeBytes := by
    rw [wrap_of_lt inside] at hi
    exact hi.trans (wrap_le _ _)
  refine bytesAt_congr fun index bound => ?_
  rw [agrees _ (by omega)]
  congr 1
  omega

theorem create_agrees (contents : Nat → UInt8) (off : Nat) :
    (create contents off).Agrees contents := by
  intro position lt
  simp [create, lt]

theorem create_covers (contents : Nat → UInt8) (fits : Fits offset byteCount) :
    (create contents offset).Covers offset byteCount := by
  obtain ⟨space, fits⟩ := fits
  have range : offset + byteCount ≤ offset / 512 * 512 + siloSizeBytes := by omega
  refine ⟨Nat.div_mul_le_self _ _, ?_⟩
  rw [endOffset, create, wrap_of_lt space, wrap_of_lt (Nat.lt_of_le_of_lt range space)]
  exact range

end Silo

namespace BlockCache

def present (cache : BlockCache) : Finset Nat :=
  (Finset.range maxSilos).filter fun index => (cache.siloEntries index).silo.isSome

structure Coherent (cache : BlockCache) (contents : Nat → UInt8) : Prop where
  device : cache.device = contents
  agrees : ∀ {index : Nat} {silo : Silo}, (cache.siloEntries index).silo = some silo →
    silo.Agrees contents
  aged : ∀ index, (cache.siloEntries index).age = 0 ↔ (cache.siloEntries index).silo = none
  chunks : cache.chunksTaken = cache.present.card

theorem create_coherent (device : Nat → UInt8) : (create device).Coherent device where
  device := rfl
  agrees found := by cases found
  aged _ := by simp [create]
  chunks := by simp [create, present]

variable {cache : BlockCache} {contents : Nat → UInt8} {siloEntries : Nat → SiloEntry}
  {offset byteCount cycles : Nat} {i : Nat}

theorem scanSilos_free {indices : List Nat} {oldest : Nat}
    (scanned : scanSilos siloEntries indices oldest = (i, false)) :
    i ∈ indices ∧ (siloEntries i).age = 0 := by
  induction indices generalizing oldest with
  | nil => cases scanned
  | cons first rest ih =>
    simp only [scanSilos] at scanned
    split at scanned
    · rename_i free
      cases scanned
      exact ⟨List.mem_cons_self, free⟩
    · obtain ⟨mem, free⟩ := ih scanned
      exact ⟨List.mem_cons_of_mem _ mem, free⟩

theorem scanSilos_full {indices : List Nat} {oldest : Nat}
    (scanned : scanSilos siloEntries indices oldest = (i, true)) :
    i ∈ oldest :: indices := by
  induction indices generalizing oldest with
  | nil =>
    cases scanned
    exact List.mem_cons_self
  | cons first rest ih =>
    simp only [scanSilos] at scanned
    split at scanned
    · cases scanned
    · have mem := ih scanned
      split at mem <;> grind

/-- An entry that is emptied. -/
theorem Coherent.deleteSilo (coherent : cache.Coherent contents) {index : Nat}
    (lt : index < maxSilos) : (cache.deleteSilo index).Coherent contents where
  device := coherent.device
  agrees {other silo} found := by
    simp only [BlockCache.deleteSilo, update_apply] at found
    split_ifs at found
    exact coherent.agrees found
  aged other := by
    simp only [BlockCache.deleteSilo, update_apply]
    split
    · simp
    · exact coherent.aged other
  chunks := by
    have erased : (cache.deleteSilo index).present = cache.present.erase index := by
      ext other
      simp only [present, BlockCache.deleteSilo, update_apply, Finset.mem_filter]
      split <;> simp_all
    rw [erased, Finset.card_erase_eq_ite, ← coherent.chunks]
    simp [BlockCache.deleteSilo, present, lt]

/-- An empty entry that gets a silo. -/
theorem card_present_update {silo : Silo} {age : Nat} (bound : i < maxSilos)
    (empty : (cache.siloEntries i).silo = none) (d : Nat → UInt8) (chunksTaken : Nat) :
    (BlockCache.mk d (update cache.siloEntries i ⟨some silo, age⟩)
      chunksTaken).present.card = cache.present.card + 1 := by
  have inserted : (BlockCache.mk d (update cache.siloEntries i ⟨some silo, age⟩)
      chunksTaken).present = insert i cache.present := by
    ext other
    simp only [present, update_apply, Finset.mem_filter]
    split <;> simp_all
  rw [inserted]
  simp [present, empty]

theorem card_present_lt (lt : i < maxSilos) (empty : (cache.siloEntries i).silo = none) :
    cache.present.card < maxSilos := by
  have proper : cache.present ⊂ Finset.range maxSilos := by
    refine Finset.filter_ssubset.mpr ⟨i, Finset.mem_range.mpr lt, ?_⟩
    simp [empty]
  simpa using Finset.card_lt_card proper

section

variable (coherent : cache.Coherent contents)
include coherent

theorem Coherent.findBestSilo :
    cache.findBestSilo.1.Coherent contents ∧ cache.findBestSilo.2 < maxSilos ∧
      (cache.findBestSilo.1.siloEntries cache.findBestSilo.2).silo = none := by
  simp only [BlockCache.findBestSilo]
  split
  · rename_i i scanned
    obtain ⟨member, free⟩ := scanSilos_free scanned
    exact ⟨coherent, List.mem_range.mp member, (coherent.aged i).mp free⟩
  · rename_i i scanned
    have lt : i < maxSilos := by
      obtain rfl | member := List.mem_cons.mp (scanSilos_full scanned)
      · decide
      · exact List.mem_range.mp member
    exact ⟨coherent.deleteSilo lt, lt, by simp [BlockCache.deleteSilo]⟩

theorem Coherent.allocateSilo (off : Nat) (counted : 0 < cycles) :
    ∃ after, cache.allocateSilo off cycles = some (after, Silo.create contents off) ∧
      after.Coherent contents := by
  obtain ⟨found, lt, empty⟩ := coherent.findBestSilo
  have room : cache.findBestSilo.1.chunksTaken < maxSilos :=
    found.chunks ▸ card_present_lt lt empty
  simp only [BlockCache.allocateSilo, if_pos room, found.device]
  refine ⟨_, rfl, rfl, ?_, ?_, ?_⟩
  · intro o silo held
    simp only [update_apply] at held
    split at held
    · cases held
      exact Silo.create_agrees contents off
    · exact found.agrees held
  · intro o
    simp only [update_apply]
    split
    · simp only [reduceCtorEq, iff_false]
      omega
    · exact found.aged o
  · rw [card_present_update lt empty, found.chunks]

theorem readSilos_eq (inside : offset + byteCount < 2 ^ 64) {bytes : List UInt8}
    (read : cache.readSilos offset byteCount = some bytes) :
    bytes = bytesAt contents offset byteCount := by
  obtain ⟨index, -, served⟩ := List.exists_of_findSome?_eq_some read
  obtain ⟨silo, held, served⟩ := Option.bind_eq_some_iff.mp served
  exact (coherent.agrees held).read_eq inside served

end

theorem readSilos_none (missed : cache.readSilos offset byteCount = none) :
    ¬ cache.Held offset byteCount := by
  rintro ⟨i, lt, silo, held, covers⟩
  have none := List.findSome?_eq_none_iff.mp missed i (List.mem_range.mpr lt)
  simp [held, Silo.read, covers] at none

/-- A read that the condition allows. -/
theorem Coherent.read (coherent : cache.Coherent contents) (inv : 0 < cycles)
    (inside : offset + byteCount < 2 ^ 64)
    (served : byteCount ≤ siloSizeBytes →
      cache.Held offset byteCount ∨ Silo.Fits offset byteCount) :
    ∃ after, cache.read offset byteCount cycles = some (bytesAt contents offset byteCount, after) ∧
      after.Coherent contents := by
  simp only [BlockCache.read]
  split
  · exact ⟨cache, by rw [coherent.device], coherent⟩
  · rename_i small
    simp only [doSiloRead]
    split
    · rename_i bytes hit
      rw [readSilos_eq coherent inside hit]
      exact ⟨cache, rfl, coherent⟩
    · rename_i missed
      have fits := (served (Nat.le_of_not_lt small)).resolve_left (readSilos_none missed)
      obtain ⟨after, allocated, kept⟩ := coherent.allocateSilo offset inv
      have covers := Silo.create_covers contents fits
      have bytes := (Silo.create_agrees contents offset).read_eq inside (if_pos covers)
      refine ⟨after, ?_, kept⟩
      simp [allocated, Silo.read, covers, bytes]

end BlockCache

namespace Session

variable {device : Nat → UInt8} {session : Session}

theorem reaches_coherent (reached : Reaches step Undisturbed (start device) session) :
    session.cache.Coherent session.contents := by
  refine reached.invariant (motive := fun session => session.cache.Coherent session.contents)
    (BlockCache.create_coherent device) ?_
  intro before after call coherent ok made
  cases call with
  | read off byteCount cycles =>
    obtain ⟨inv, inside, served⟩ := ok
    obtain ⟨cache, read, kept⟩ := coherent.read inv inside served
    simp only [step, read, Option.map_some, Option.some.injEq] at made
    exact made ▸ kept
  | write off buf =>
    cases made
    refine ⟨congrArg (store · off buf) coherent.device, ?_, coherent.aged, coherent.chunks⟩
    intro i silo held p lt
    rw [coherent.agrees held p lt]
    exact (ok i silo held p lt).symm

/-- In a run in which no write changes a byte that a silo has, each read returns the bytes most
    recently written. -/
theorem block_cache_coherent (reached : Reaches step Undisturbed (start device) session)
    {offset byteCount cycles : Nat}
    (allowed : Undisturbed session (.read offset byteCount cycles)) :
    ∃ cache, session.cache.read offset byteCount cycles =
      some (bytesAt session.contents offset byteCount, cache) := by
  obtain ⟨counted, inside, served⟩ := allowed
  obtain ⟨cache, read, -⟩ := (reaches_coherent reached).read counted inside served
  exact ⟨cache, read⟩

def firstByteRead : Session where
  cache :=
    { device := fun _ => 0
      siloEntries :=
        Function.update (fun _ => ⟨none, 0⟩) 0 ⟨some (Silo.create (fun _ => 0) 0), 1⟩
      chunksTaken := 1 }
  contents := fun _ => 0

theorem firstByteRead_reached : Reaches step Undisturbed (start fun _ => 0) firstByteRead := by
  have ok : Undisturbed (start fun _ => 0) (.read 0 1 1) :=
    ⟨by decide, by decide, fun _ => .inr (by decide)⟩
  exact .next .refl ok rfl

/-- A byte outside the only silo is written and read. -/
theorem block_cache_coherent_apart :
    ∃ session, Reaches step Undisturbed (start fun _ => 0) session ∧
      ∃ cache, session.cache.read (2 ^ 23) 1 3 = some ([7], cache) := by
  have allowed : Undisturbed firstByteRead (.write (2 ^ 23) [7]) := by
    intro index silo held position bound
    have origin : silo.startOffset = 0 := by
      simp only [firstByteRead, Function.update_apply] at held
      split_ifs at held
      rw [← Option.some.inj held, Silo.create]
    refine if_neg fun inside => ?_
    rw [siloSizeBytes] at bound
    omega
  have reached := Reaches.next firstByteRead_reached allowed rfl
  obtain ⟨cache, read⟩ := block_cache_coherent reached
    (show Undisturbed _ (.read (2 ^ 23) 1 3) from
      ⟨by decide, by decide, fun _ => .inr (by decide)⟩)
  have written : bytesAt (store (fun _ => 0) (2 ^ 23) [7]) (2 ^ 23) 1 = [7] := by decide +kernel
  exact ⟨_, reached, cache, written ▸ read⟩

/-- A byte is read, written and read again: the second read returns the old byte. -/
theorem block_cache_stale :
    ∃ session, Reaches step (fun _ _ => True) (start fun _ => 0) session ∧
      (session.cache.read 0 1 2).map Prod.fst = some [0] ∧
      bytesAt session.contents 0 1 = [1] := by
  have executed : ∃ session ∈ execute step (fun _ _ => True)
      [.read 0 1 1, .write 0 [1]] (start fun _ => 0),
      (session.cache.read 0 1 2).map Prod.fst = some [0] ∧
        bytesAt session.contents 0 1 = [1] := by
    decide +kernel
  exact exists_reaches_of_execute executed

end Session

end Xdk.Ext2
