import Xdk.Slab.BaseAllocator

/-! # Pointers that are no blocks

`_free` shows the pointer to one span after the other until one takes it.  A span takes every
pointer from its first block up to the address behind its last one, and a span that has not been
asked for a block yet panics.

A call that no other thread disturbs is a run of the interleaved program in which only its own
thread moves.
-/

namespace Xdk.Slab

open Xdk.Lib Function

/-! ## Undisturbed calls -/

namespace Span

variable {Thread : Type*} [DecidableEq Thread]

def alone (config : Config) (thread : Thread) : Nat → Span Thread → Option (Status × Span Thread)
  | 0, _ => none
  | fuel + 1, s =>
    match s.threads thread with
    | .freed status => some (status, s.setPc thread .idle)
    | _ => (s.access config thread).bind (alone config thread fuel)

/-- `span_free`; without other threads it takes four accesses at most.  It is `none` where the
    span panics or an assertion fails. -/
def spanFree (config : Config) (s : Span Thread) (thread : Thread) (ptr : Nat) :
    Option (Status × Span Thread) :=
  (s.step config (.spanFree thread ptr)).bind (alone config thread 5)

omit [DecidableEq Thread] in
/-- `is_valid`.  Until `init` has run, the first and the last address are null. -/
def isValid (config : Config) (s : Span Thread) (ptr : Nat) : Option Bool :=
  if s.initialized = 0 then none
  else
    let h := s.header.getD ⟨0, 0, 0, 0⟩
    some (h.inRange ptr && (ptr - h.firstBlockAddr) % config.elemSize == 0)

@[simp] theorem setPc_setPc (s : Span Thread) (t : Thread) (first second : Pc) :
    (s.setPc t first).setPc t second = s.setPc t second := by
  simp [setPc]

theorem setPc_eq_self {s : Span Thread} {t : Thread} {pc : Pc}
    (there : s.threads t = pc) : s.setPc t pc = s := by
  simp [setPc, ← there]

variable {config : Config} {s : Span Thread} {thread : Thread} {ptr : Nat} {h : Header}

/-- The fields that moving a thread leaves alone. -/
@[simp] theorem setPc_initialized (pc : Pc) : (s.setPc thread pc).initialized = s.initialized := rfl

@[simp] theorem setPc_header (pc : Pc) : (s.setPc thread pc).header = s.header := rfl

@[simp] theorem setPc_bitmap (pc : Pc) : (s.setPc thread pc).bitmap = s.bitmap := rfl

theorem step_spanFree (idle : s.threads thread = .idle) :
    s.step config (.spanFree thread ptr) = some (s.setPc thread (.freeTest ptr)) := by
  simp [step, idle]

/-- The next access of a thread whose call is not over. -/
theorem alone_setPc {pc : Pc} (calling : pc.calling = true) (fuel : Nat) :
    alone config thread (fuel + 1) (s.setPc thread pc) =
      ((s.setPc thread pc).access config thread).bind (alone config thread fuel) := by
  rw [alone]
  split
  · rename_i status ended
    rw [threads_setPc_self] at ended
    rw [ended] at calling
    cases calling
  · rfl

theorem spanFree_uninitialised (idle : s.threads thread = .idle) (early : s.initialized < 2) :
    s.spanFree config thread ptr = none := by
  rw [spanFree, step_spanFree idle, Option.bind_some, alone_setPc rfl]
  simp only [access, threads_setPc_self, setPc_initialized, early, if_true, Option.bind_none]

/-- The loop of `span_free`, when the bit is set. -/
theorem alone_freeAssert {slot : Nat} (set : bit s.bitmap slot = true)
    (idle : s.threads thread = .idle) :
    alone config thread 4 (s.setPc thread (.freeAssert ptr slot 0)) =
      some (.ok,
        { s with
          bitmap := update s.bitmap (slot / bitsPerMword)
            (clearIn (s.bitmap (slot / bitsPerMword)) (slot % bitsPerMword))
          held := s.held.erase (thread, ptr) }) := by
  have asserted : (s.setPc thread (.freeAssert ptr slot 0)).access config thread =
      some (s.setPc thread (.freeLoad ptr slot 0)) := by
    simp [access, set]
  have loaded : (s.setPc thread (.freeLoad ptr slot 0)).access config thread =
      some (s.setPc thread (.freeCas ptr slot 0 (s.bitmap (slot / bitsPerMword)))) := by
    simp only [access, threads_setPc_self, setPc_bitmap, setPc_setPc]
  rw [alone_setPc rfl, asserted, Option.bind_some, alone_setPc rfl, loaded, Option.bind_some]
  simp only [access, giveBlock, alone]
  simp [setPc, ← idle]

/-- What `span_free` does alone: it clears the bit of the block that the pointer points into. -/
theorem spanFree_eq (idle : s.threads thread = .idle) (ready : s.initialized = 2)
    (hdr : s.header = some h) :
    s.spanFree config thread ptr =
      if h.inRange ptr then
        if (h.numBlocks ≤ h.slot config ptr ∨ h.words < h.slot config ptr / bitsPerMword) ∨
            bit s.bitmap (h.slot config ptr) = false then none
        else some (.ok,
          { s with
            bitmap := update s.bitmap (h.slot config ptr / bitsPerMword)
              (clearIn (s.bitmap (h.slot config ptr / bitsPerMword))
                (h.slot config ptr % bitsPerMword))
            held := s.held.erase (thread, ptr) })
      else some (.outOfBounds, s) := by
  have tested : s.spanFree config thread ptr =
      (s.findSlot config thread h ptr).bind (alone config thread 4) := by
    rw [spanFree, step_spanFree idle, Option.bind_some, alone_setPc rfl]
    simp only [access, threads_setPc_self, setPc_initialized, ready, setPc_header, hdr,
      Nat.lt_irrefl, if_false, Option.bind_some, findSlot, setPc_setPc]
  rw [tested, findSlot]
  by_cases inRange : h.inRange ptr = true
  · rw [if_pos inRange, if_pos inRange]
    by_cases outside : h.numBlocks ≤ h.slot config ptr ∨
        h.words < h.slot config ptr / bitsPerMword
    · rw [if_pos outside, if_pos (.inl outside)]
      rfl
    · rw [if_neg outside, Option.bind_some]
      cases set : bit s.bitmap (h.slot config ptr) with
      | false =>
        rw [alone_setPc rfl]
        simp [access, set]
      | true =>
        rw [if_neg (by simp [outside])]
        exact alone_freeAssert set idle
  · rw [if_neg inRange, if_neg inRange]
    simp [alone, setPc_eq_self idle]

/-- A span rejects the pointers that are out of its range, and only those. -/
theorem spanFree_outOfBounds_iff (inv : s.Consistent config)
    (idle : s.threads thread = .idle) {s' : Span Thread} :
    s.spanFree config thread ptr = some (.outOfBounds, s') ↔
      s' = s ∧ s.initialized = 2 ∧ ∃ h, s.header = some h ∧ h.inRange ptr = false := by
  have bounded := inv.initialised.bounded
  by_cases ready : s.initialized = 2
  · obtain ⟨h, hdr⟩ := Option.ne_none_iff_exists'.mp (inv.initialised.after ready).1
    rw [spanFree_eq idle ready hdr]
    split
    · rename_i inRange
      split <;> simp [hdr, inRange]
    · rename_i outside
      simp only [Option.some.injEq, Prod.mk.injEq, true_and, ready, hdr, exists_eq_left',
        outside, and_true]
      exact eq_comm
  · rw [spanFree_uninitialised idle (by omega)]
    simp [ready]

end Span

/-! ## `_free` -/

inductive FreeStatus where
  | ok
  | fail
  deriving DecidableEq, Repr

/-- The last address that a span takes for one of its blocks is the one behind them. -/
theorem layout_lastBlockAddr {config : Config} {data : Nat} {h : Header}
    (laidOut : layout config data = some h) :
    h.lastBlockAddr = h.firstBlockAddr + h.numBlocks * config.elemSize := by
  simp only [layout] at laidOut
  iterate 4
    split at laidOut
    · cases laidOut
  cases laidOut
  rfl

namespace BaseAllocator

variable {Thread : Type*} [DecidableEq Thread]

def freeFrom (config : Config) (thread : Thread) (ptr : Nat) :
    (remaining i : Nat) → BaseAllocator Thread → Option (FreeStatus × BaseAllocator Thread)
  | 0, _, a => some (.fail, a)
  | remaining + 1, i, a =>
    ((a.spans i).spanFree config thread ptr).bind fun answer =>
      let a' := { a with spans := Function.update a.spans i answer.2 }
      match answer.1 with
      | .ok => some (.ok, a')
      | .outOfBounds => freeFrom config thread ptr remaining (i + 1) a'

def free (config : Config) (a : BaseAllocator Thread) (thread : Thread) (ptr : Nat) :
    Option (FreeStatus × BaseAllocator Thread) :=
  freeFrom config thread ptr (maxSpanCount config) 0 a

omit [DecidableEq Thread] in
def Foreign (config : Config) (a : BaseAllocator Thread) (ptr : Nat) : Prop :=
  ∀ i < maxSpanCount config, ∀ h ∈ (a.spans i).header,
    ∀ block < h.numBlocks, ptr ≠ h.blockAddr config block

/-- No initialised span takes the pointer for a block or frees one with it, and `_free` comes
    back from all the spans with its error and without a change. -/
def Rejected (config : Config) (a : BaseAllocator Thread) (thread : Thread) (ptr : Nat) : Prop :=
  (∀ i < maxSpanCount config, (a.spans i).initialized = 2 →
    (a.spans i).isValid config ptr = some false ∧
      (a.spans i).spanFree config thread ptr = some (.outOfBounds, a.spans i)) ∧
    a.free config thread ptr = some (.fail, a)

variable {config : Config} {a : BaseAllocator Thread} {thread : Thread} {ptr : Nat}

/-- `_free` fails quietly if every span rejects the pointer. -/
theorem freeFrom_fail_iff (inv : ∀ j, (a.spans j).Consistent config)
    (remaining i : Nat) (idle : ∀ j < i + remaining, (a.spans j).threads thread = .idle) :
    freeFrom config thread ptr remaining i a = some (.fail, a) ↔
      ∀ j, i ≤ j → j < i + remaining →
        (a.spans j).spanFree config thread ptr = some (.outOfBounds, a.spans j) := by
  induction remaining generalizing i with
  | zero =>
    simp only [freeFrom, true_iff]
    omega
  | succ remaining ih =>
    have further := ih (i + 1) fun j below => idle j (by omega)
    rw [freeFrom]
    constructor
    · intro failed j lo hi
      obtain ⟨⟨status, s⟩, answered, rest⟩ := Option.bind_eq_some_iff.mp failed
      cases status with
      | ok => cases rest
      | outOfBounds =>
        obtain ⟨rfl, _⟩ :=
          (Span.spanFree_outOfBounds_iff (inv i) (idle i (by omega))).mp answered
        simp only [update_eq_self] at rest
        obtain rfl | later := Nat.eq_or_lt_of_le lo
        · exact answered
        · exact further.mp rest j later (by omega)
    · intro rejected
      rw [rejected i (Nat.le_refl i) (by omega), Option.bind_some]
      simp only [update_eq_self]
      exact further.mpr fun j lo hi => rejected j (by omega) (by omega)

omit [DecidableEq Thread] in
/-- The span has been laid out elsewhere: the pointer is neither in its blocks nor directly
    behind them. -/
def Elsewhere (config : Config) (s : Span Thread) (ptr : Nat) : Prop :=
  s.initialized = 2 ∧ ∀ h ∈ s.header,
    ptr < h.firstBlockAddr ∨ h.firstBlockAddr + h.numBlocks * config.elemSize < ptr

omit [DecidableEq Thread] in
theorem inRange_eq_false_iff {s : Span Thread} {h : Header} (inv : s.Consistent config)
    (hdr : s.header = some h) :
    h.inRange ptr = false ↔
      ptr < h.firstBlockAddr ∨ h.firstBlockAddr + h.numBlocks * config.elemSize < ptr := by
  obtain ⟨unalignedData, laidOut⟩ := inv.initialised.laidOut h hdr
  rw [← layout_lastBlockAddr laidOut]
  simp only [Header.inRange, decide_eq_false_iff_not]
  omega

theorem elsewhere_iff {s : Span Thread} (inv : s.Consistent config)
    (idle : s.threads thread = .idle) :
    Elsewhere config s ptr ↔ s.spanFree config thread ptr = some (.outOfBounds, s) := by
  rw [Span.spanFree_outOfBounds_iff inv idle]
  constructor
  · rintro ⟨ready, outside⟩
    obtain ⟨h, hdr⟩ := Option.ne_none_iff_exists'.mp (inv.initialised.after ready).1
    exact ⟨rfl, ready, h, hdr, (inRange_eq_false_iff inv hdr).mpr (outside h hdr)⟩
  · rintro ⟨_, ready, h, hdr, outside⟩
    refine ⟨ready, fun found there => ?_⟩
    obtain rfl := Option.some.inj (hdr.symm.trans there)
    exact (inRange_eq_false_iff inv hdr).mp outside

omit [DecidableEq Thread] in
theorem Elsewhere.isValid_eq {s : Span Thread} (outside : Elsewhere config s ptr)
    (inv : s.Consistent config) : s.isValid config ptr = some false := by
  obtain ⟨ready, far⟩ := outside
  obtain ⟨h, hdr⟩ := Option.ne_none_iff_exists'.mp (inv.initialised.after ready).1
  have false := (inRange_eq_false_iff inv hdr).mpr (far h hdr)
  simp [Span.isValid, ready, hdr, false]

/-- A pointer is rejected exactly if every span of the allocator has been initialised and the
    pointer is neither in the blocks of one of them nor directly behind them.  So `_free` panics
    on every foreign pointer as long as there are spans that nobody has needed. -/
theorem rejected_iff {unalignedData : Nat} {h : Header}
    (laidOut : layout config unalignedData = some h)
    (run : Reaches (fun a event => a.step config event) Allowed (new h) a)
    (idle : ∀ i < maxSpanCount config, (a.spans i).threads thread = .idle) :
    a.Rejected config thread ptr ↔
      ∀ i < maxSpanCount config, Elsewhere config (a.spans i) ptr := by
  have consistent := consistent_reaches laidOut run
  rw [Rejected, free, freeFrom_fail_iff consistent _ 0 (by rwa [Nat.zero_add])]
  constructor
  · rintro ⟨_, quiet⟩ i below
    exact (elsewhere_iff (consistent i) (idle i below)).mpr (quiet i (Nat.zero_le i) (by omega))
  · intro outside
    have quiet : ∀ i < maxSpanCount config,
        (a.spans i).spanFree config thread ptr = some (.outOfBounds, a.spans i) :=
      fun i below => (elsewhere_iff (consistent i) (idle i below)).mp (outside i below)
    refine ⟨fun i below _ => ?_, fun i _ below => quiet i (by omega)⟩
    exact ⟨(outside i below).isValid_eq (consistent i), quiet i below⟩

/-- After four calls of `_alloc` both spans reject the address before the first block and the
    second one behind the last. -/
theorem rejected_beside :
    layout sixBlocks 8 = some ⟨3, 16, 32, 100663328⟩ ∧
    ∃ a : BaseAllocator Bool,
      Reaches (fun a event => a.step sixBlocks event) Allowed (new ⟨3, 16, 32, 100663328⟩) a ∧
      (a.spans 0).bitmap 0 = 7 ∧ (a.spans 1).bitmap 0 = 1 ∧
      a.Rejected sixBlocks false 31 ∧ a.Rejected sixBlocks false 1174405145 := by
  have laidOut : layout sixBlocks 8 = some ⟨3, 16, 32, 100663328⟩ := by decide +kernel
  have executed : ∃ a ∈ execute (fun (a : BaseAllocator Bool) event => a.step sixBlocks event)
      Allowed fourAllocs (new ⟨3, 16, 32, 100663328⟩),
      (∀ i < 2, (a.spans i).threads false = .idle ∧ (a.spans i).initialized = 2) ∧
      ((a.spans 0).bitmap 0 = 7 ∧ (a.spans 1).bitmap 0 = 1) ∧
      (a.spans 0).header = some ⟨3, 16, 32, 100663328⟩ ∧
      (a.spans 1).header = some ⟨3, 16, 1073741848, 1174405144⟩ := by
    decide +kernel
  obtain ⟨a, run, spans, ⟨full, taken⟩, first, second⟩ := exists_reaches_of_execute executed
  have rejected : ∀ ptr, (ptr < 32 ∨ 1174405144 < ptr) → a.Rejected sixBlocks false ptr := by
    intro ptr beside
    refine (rejected_iff laidOut run fun i below => (spans i below).1).mpr fun i below => ?_
    refine ⟨(spans i below).2, fun h there => ?_⟩
    obtain rfl | rfl := Nat.le_one_iff_eq_zero_or_eq_one.mp (Nat.le_of_lt_succ below)
    · cases first.symm.trans there
      exact beside.imp id fun behind => Nat.lt_trans (by decide) behind
    · cases second.symm.trans there
      exact beside.imp (fun before => Nat.lt_trans before (by decide)) id
  exact ⟨laidOut, a, run, full, taken, rejected 31 (by decide), rejected 1174405145 (by decide)⟩

def bigBlocks : Config := ⟨64 * pageSize, 8, 65536, by decide, eight_power⟩

omit [DecidableEq Thread] in
/-- With one span laid out, the pointers that are no blocks of it are foreign. -/
theorem foreign_of_first {first : Header} (hdr : (a.spans 0).header = some first)
    (others : ∀ i < maxSpanCount config, 0 < i → (a.spans i).header = none)
    (apart : ∀ b < first.numBlocks, ptr ≠ first.blockAddr config b) :
    a.Foreign config ptr := by
  intro i lt h there
  obtain rfl | later := Nat.eq_zero_or_pos i
  · obtain rfl := Option.some.inj (hdr.symm.trans there)
    exact apart
  · rw [others i lt later] at there
    cases there

/-- After one `_alloc` the second of the 1024 spans is not initialised, so that the null pointer
    makes `_free` panic; a pointer into the block that has been handed out frees the block; and
    the pointer behind the last block is valid. -/
theorem foreign_not_rejected :
    layout bigBlocks 65536 = some ⟨3, 16, 65560, 262168⟩ ∧
    ∃ a : BaseAllocator Bool,
      Reaches (fun a event => a.step bigBlocks event) Allowed (new ⟨3, 16, 65560, 262168⟩) a ∧
      (∀ i < maxSpanCount bigBlocks, (a.spans i).threads false = .idle) ∧
      a.Foreign bigBlocks 0 ∧ a.free bigBlocks false 0 = none ∧
      a.Foreign bigBlocks 65561 ∧ ¬ a.Rejected bigBlocks false 65561 ∧
      (∃ answer ∈ a.free bigBlocks false 65561,
        answer.1 = .ok ∧ (a.spans 0).bitmap 0 = 1 ∧ (answer.2.spans 0).bitmap 0 = 0) ∧
      a.Foreign bigBlocks 262168 ∧ (a.spans 0).isValid bigBlocks 262168 = some true := by
  have executed : ∃ a ∈ execute (fun (a : BaseAllocator Bool) event => a.step bigBlocks event)
      Allowed
      [.alloc false, .span 0 (.thread false), .span 0 (.thread false), .span 0 (.thread false),
        .span 0 (.thread false), .answered false, .answered false]
      (new ⟨3, 16, 65560, 262168⟩),
      (a.spans 0).header = some ⟨3, 16, 65560, 262168⟩ ∧
      (∀ i < maxSpanCount bigBlocks,
        (a.spans i).threads false = .idle ∧ (0 < i → (a.spans i).header = none)) ∧
      (a.free bigBlocks false 0).isNone = true ∧
      (∃ answer ∈ a.free bigBlocks false 65561,
        answer.1 = .ok ∧ (a.spans 0).bitmap 0 = 1 ∧ (answer.2.spans 0).bitmap 0 = 0) ∧
      (a.spans 0).isValid bigBlocks 262168 = some true := by
    decide +kernel
  obtain ⟨a, run, header, spans, panics, freed, valid⟩ := executed
  have foreign : ∀ ptr, (∀ block < 3, ptr ≠ 65560 + 65536 * block) → a.Foreign bigBlocks ptr :=
    fun ptr apart => foreign_of_first header (fun i below => (spans i below).2) apart
  refine ⟨by decide +kernel, a, execute_reaches run, fun i below => (spans i below).1,
    foreign 0 (by decide), Option.isNone_iff_eq_none.mp panics, foreign 65561 (by decide), ?_,
    freed, foreign 262168 (by decide), valid⟩
  rintro ⟨_, quiet⟩
  obtain ⟨answer, answered, status, _⟩ := freed
  obtain rfl := Option.some.inj (quiet.symm.trans answered)
  cases status

end BaseAllocator

end Xdk.Slab
