import Xdk.Lib.Holding
import Xdk.Slab.Span

/-! # No block has two owners

A bit of the bitmap is set while somebody has its block, from the compare-and-swap that
hands the block out to the one that takes it back.  A compare-and-swap replaces a whole word,
but it succeeds only on the word that was read, so it changes the one bit that it is about.

Before the span is laid out nobody gets past the wait, and the thread that lays it out is the
one that has moved `_initialized` from 0.
-/

namespace Xdk.Slab

open Xdk.Lib

/-! ## The layout -/

variable {config : Config}

/-- What is true of every span that `init` has laid out. -/
theorem layout_spec {data : Nat} {h : Header}
    (laidOut : layout config data = some h) :
    0 < config.elemSize ∧ h.bitmapSizeBytes = (bestFit config 0 bytesPerMword).2 ∧
      (bestFit config 0 bytesPerMword).1 - 1 ≤ h.bitmapSizeBytes * bytesPerMword ∧
      ∃ tmp, h.firstBlockAddr = alignFirst config.baseAlignment tmp ∧
        h.numBlocks = wrapSub 32 ((bestFit config 0 bytesPerMword).1 - 1)
          ((h.firstBlockAddr - tmp) / config.elemSize) := by
  simp only [layout] at laidOut
  split at laidOut
  · cases laidOut
  split at laidOut
  · cases laidOut
  rename_i _ enough
  split at laidOut
  · cases laidOut
  rename_i nonzero
  split at laidOut
  · cases laidOut
  cases laidOut
  exact ⟨Nat.pos_of_ne_zero nonzero, rfl, Nat.le_of_not_lt enough, _, rfl, rfl⟩

theorem blockAddr_inj (h : Header) (pos : 0 < config.elemSize) {first second : Nat}
    (same : h.blockAddr config first = h.blockAddr config second) :
    first = second :=
  Nat.eq_of_mul_eq_mul_left pos (Nat.add_left_cancel same)

theorem slot_blockAddr (h : Header) (pos : 0 < config.elemSize) (block : Nat) :
    h.slot config (h.blockAddr config block) = block := by
  rw [Header.slot, Header.blockAddr, Nat.add_sub_cancel_left, Nat.mul_div_cancel_left _ pos]

def Pc.initialises : Pc → Bool
  | .initBody | .initStore => true
  | _ => false

def Pc.frees : Pc → Option Nat
  | .freeTest ptr | .freeAssert ptr _ _ | .freeLoad ptr _ _ | .freeCas ptr _ _ _ => some ptr
  | _ => none

namespace Span

variable {Thread : Type*}

def Allowed (s : Span Thread) : SpanEvent Thread → Prop
  | .spanFree thread ptr => (thread, ptr) ∈ s.held
  | .spanNextFree _ | .malloc _ _ | .thread _ => True

instance [DecidableEq Thread] (s : Span Thread) (event : SpanEvent Thread) :
    Decidable (s.Allowed event) :=
  match event with
  | .spanFree thread ptr => inferInstanceAs (Decidable ((thread, ptr) ∈ s.held))
  | .spanNextFree _ | .malloc _ _ | .thread _ => isTrue trivial

/-! ## The invariant -/

def Ready (s : Span Thread) (h : Header) : Prop := s.initialized = 2 ∧ s.header = some h

def ThreadAt (config : Config) (s : Span Thread) (thread : Thread) : Pc → Prop
  | .loadWord w => ∃ h, s.Ready h ∧ w < h.words
  | .casWord w current => ∃ h, s.Ready h ∧ w < h.words ∧ current ≠ BitVec.allOnes 64 ∧
      lowestZero current + w * bitsPerMword < h.numBlocks
  | .returned (some ptr) => ∃ h, s.Ready h ∧ ∃ block < h.numBlocks, ptr = h.blockAddr config block
  | .freeTest ptr => (thread, ptr) ∈ s.held
  | .freeAssert ptr slot _ | .freeLoad ptr slot _ | .freeCas ptr slot _ _ =>
    (thread, ptr) ∈ s.held ∧ ∃ h, s.Ready h ∧ slot < h.numBlocks ∧ ptr = h.blockAddr config slot
  | .idle | .loadInitialized | .initTest | .initCas | .initBody | .initStore | .wait
  | .returned none | .freed _ => True

def InitAt (s : Span Thread) : Pc → Prop
  | .initBody => s.initialized = 1 ∧ s.header = none ∧ s.inits = 0
  | .initStore => s.initialized = 1 ∧ s.header ≠ none ∧ s.inits = 1
  | _ => True

structure Initialised (config : Config) (s : Span Thread) : Prop where
  bounded : s.initialized ≤ 2
  few : s.inits ≤ 1
  before : s.initialized = 0 → s.header = none ∧ s.inits = 0
  during : ∀ thread, s.InitAt (s.threads thread)
  after : s.initialized = 2 → s.header ≠ none ∧ s.inits = 1
  alone : ∀ first second, (s.threads first).initialises = true →
    (s.threads second).initialises = true → first = second
  laidOut : ∀ h, s.header = some h → ∃ unalignedData, layout config unalignedData = some h

structure Consistent (config : Config) (s : Span Thread) : Prop where
  initialised : Initialised config s
  threads : ∀ thread, s.ThreadAt config thread (s.threads thread)
  bits : ∀ h, s.header = some h → ∀ block, bit s.bitmap block = true ↔
    ∃ thread, (thread, h.blockAddr config block) ∈ s.held
  blocks : ∀ entry ∈ s.held, ∃ h, s.Ready h ∧
    ∃ block < h.numBlocks, entry.2 = h.blockAddr config block
  once : Once s.held

variable {config : Config} {s s' : Span Thread} {thread : Thread}

theorem consistent_init : Consistent config (init : Span Thread) where
  initialised :=
    { bounded := Nat.zero_le 2
      few := Nat.zero_le 1
      before := fun _ => ⟨rfl, rfl⟩
      during := fun _ => trivial
      after := fun two => by cases two
      alone := fun _ _ first => by cases first
      laidOut := fun _ hdr => by cases hdr }
  threads := fun _ => trivial
  bits := fun _ hdr => by cases hdr
  blocks := fun _ mem => by cases mem
  once := .nil

variable {pc : Pc}

/-- What a thread knows stays true as long as its own blocks are left to it. -/
theorem ThreadAt.mono (known : s.ThreadAt config thread pc) (ready : ∀ h, s.Ready h → s'.Ready h)
    (kept : ∀ ptr, (thread, ptr) ∈ s.held → (thread, ptr) ∈ s'.held) :
    s'.ThreadAt config thread pc := by
  cases pc with
  | loadWord w | casWord w cur =>
    obtain ⟨h, isReady, lt⟩ := known
    exact ⟨h, ready h isReady, lt⟩
  | returned b =>
    cases b with
    | none => trivial
    | some ptr =>
      obtain ⟨h, isReady, b⟩ := known
      exact ⟨h, ready h isReady, b⟩
  | freeTest ptr => exact kept ptr known
  | freeAssert ptr slot retries | freeLoad ptr slot retries | freeCas ptr slot retries cur =>
    obtain ⟨mine, h, isReady, b⟩ := known
    exact ⟨kept ptr mine, h, ready h isReady, b⟩
  | idle | loadInitialized | initTest | initCas | initBody | initStore | wait | freed => trivial

theorem initAt_of_outside (outside : pc.initialises = false) : s.InitAt pc := by
  cases pc with
  | _ => trivial

section

variable (initialised : Initialised config s)
include initialised

theorem Initialised.outside (ne : s.initialized ≠ 1) : (s.threads thread).initialises = false := by
  have known := initialised.during thread
  cases pc : s.threads thread with
  | initBody | initStore =>
    rw [pc] at known
    exact absurd known.1 ne
  | _ => rfl

theorem Initialised.done (waited : ¬ s.initialized < 2) : s.initialized = 2 :=
  Nat.le_antisymm initialised.bounded (Nat.le_of_not_lt waited)

/-- Only one thread is in `init`. -/
theorem Initialised.others (inside : (s.threads thread).initialises = true) {o : Thread}
    (ne : o ≠ thread) : (s.threads o).initialises = false := by
  rw [← Bool.not_eq_true]
  exact fun also => ne (initialised.alone o thread also inside)

end

/-- Before everybody may use the span, no block has been handed out. -/
theorem Consistent.held_nil (inv : Consistent config s) (early : s.initialized ≠ 2) :
    s.held = [] := by
  refine List.eq_nil_iff_forall_not_mem.mpr fun e mem => ?_
  obtain ⟨h, ready, _⟩ := inv.blocks e mem
  exact early ready.1

/-! ## The steps -/

variable [DecidableEq Thread]

theorem forall_threads_setPc {P : Thread → Pc → Prop} (known : P thread pc)
    (others : ∀ o ≠ thread, P o (s.threads o)) :
    ∀ o, P o ((s.setPc thread pc).threads o) :=
  (Function.forall_update_iff _ P).mpr ⟨known, others⟩

/-- A thread outside of the initialisation moves on. -/
theorem Initialised.setPc (initialised : Initialised config s) (t : Thread)
    (outside : pc.initialises = false) : Initialised config (s.setPc t pc) := by
  have kept : ∀ {o}, ((s.setPc t pc).threads o).initialises = true →
      (s.threads o).initialises = true := by
    intro o inside
    rwa [threads_setPc_of_ne] at inside
    rintro rfl
    rw [threads_setPc_self, outside] at inside
    cases inside
  exact
    { initialised with
      during := forall_threads_setPc (P := fun _ pc => s.InitAt pc) (initAt_of_outside outside)
        fun o _ => initialised.during o
      alone := fun a b isFirst isSecond =>
        initialised.alone a b (kept isFirst) (kept isSecond) }

section

variable (inv : Consistent config s)
include inv

/-- A thread outside of the initialisation reads something. -/
theorem Consistent.setPc (outside : pc.initialises = false) (known : s.ThreadAt config thread pc) :
    Consistent config (s.setPc thread pc) where
  initialised := inv.initialised.setPc _ outside
  threads := forall_threads_setPc (P := fun o pc => s.ThreadAt config o pc) known
    fun o _ => inv.threads o
  bits := inv.bits
  blocks := inv.blocks
  once := inv.once

/-! ### The initialisation -/

/-- A step of the thread that initialises, or that is about to. -/
theorem Consistent.initStep (pc : Pc) (early : s.initialized ≠ 2)
    (others : ∀ o ≠ thread, (s.threads o).initialises = false)
    (isTrivial : ∀ s : Span Thread, s.ThreadAt config thread pc)
    (threads : s'.threads = (s.setPc thread pc).threads) (held : s'.held = s.held)
    (clear : ∀ h, s'.header = some h → ∀ b, bit s'.bitmap b = false) (bounded : s'.initialized ≤ 2)
    (few : s'.inits ≤ 1) (before : s'.initialized = 0 → s'.header = none ∧ s'.inits = 0)
    (here : s'.InitAt pc) (after : s'.initialized = 2 → s'.header ≠ none ∧ s'.inits = 1)
    (laidOut : ∀ h, s'.header = some h → ∃ data, layout config data = some h) :
    Consistent config s' := by
  have nothing : s'.held = [] := held.trans (inv.held_nil early)
  have outside : ∀ {o}, (s'.threads o).initialises = true → o = thread := by
    intro o inside
    by_contra ne
    rw [threads, threads_setPc_of_ne s pc ne, others o ne] at inside
    cases inside
  refine
    { initialised :=
        { bounded := bounded
          few := few
          before := before
          during := ?_
          after := after
          alone := fun first second isFirst isSecond =>
            (outside isFirst).trans (outside isSecond).symm
          laidOut := laidOut }
      threads := ?_
      bits := fun h hdr b => ?_
      blocks := fun entry mem => ?_
      once := ?_ }
  · rw [threads]
    exact forall_threads_setPc (P := fun _ pc => s'.InitAt pc) here
      fun o ne => initAt_of_outside (others o ne)
  · rw [threads]
    refine forall_threads_setPc (P := fun o pc => s'.ThreadAt config o pc)
      (isTrivial s') fun o _ => ?_
    refine (inv.threads o).mono (fun h ready => absurd ready.1 early) fun ptr mine => ?_
    rwa [held]
  · rw [clear h hdr b, nothing]
    simp
  · rw [nothing] at mem
    cases mem
  · rw [nothing]
    exact .nil

theorem Consistent.initCas (first : s.initialized = 0) :
    Consistent config { s.setPc thread .initBody with initialized := 1 } := by
  obtain ⟨unset, never⟩ := inv.initialised.before first
  have early : s.initialized ≠ 2 := by omega
  refine inv.initStep .initBody early
    (fun other _ => inv.initialised.outside (by omega)) (fun _ => trivial) rfl rfl
    (fun h hdr => ?_) (Nat.le_succ 1) ((Nat.le_of_eq never).trans (Nat.zero_le 1))
    (fun zero => by cases zero) ⟨rfl, unset, never⟩
    (fun two => by cases two) inv.initialised.laidOut
  exact absurd (unset.symm.trans hdr) (Option.some_ne_none h).symm

variable {h : Header}

theorem Consistent.malloc {data : Nat} (pc : s.threads thread = .initBody)
    (laidOut : layout config data = some h) :
    Consistent config { s.setPc thread .initStore with
      header := some h
      bitmap := fun _ => 0
      inits := s.inits + 1 } := by
  have inside : (s.threads thread).initialises = true := by rw [pc]; rfl
  have known := inv.initialised.during thread
  rw [pc] at known
  obtain ⟨one, _, never⟩ := known
  have early : s.initialized ≠ 2 := by omega
  refine inv.initStep .initStore early
    (fun other ne => inv.initialised.others inside ne) (fun _ => trivial)
    rfl rfl (fun _ _ block => ?_) inv.initialised.bounded
    (Nat.succ_le_succ (Nat.le_of_eq never))
    (fun zero => absurd (one.symm.trans zero) (by decide))
    ⟨one, Option.some_ne_none h, by rw [never]⟩ (fun two => absurd two early)
    (fun found isHeader => ⟨data, Option.some.inj isHeader ▸ laidOut⟩)
  simp [bit]

theorem Consistent.initStore (pc : s.threads thread = .initStore) :
    Consistent config { s.setPc thread .wait with initialized := 2 } := by
  have inside : (s.threads thread).initialises = true := by rw [pc]; rfl
  have known := inv.initialised.during thread
  rw [pc] at known
  obtain ⟨one, hdr, once⟩ := known
  have early : s.initialized ≠ 2 := by omega
  have clear : ∀ h, s.header = some h → ∀ b, bit s.bitmap b = false := by
    intro h isHeader b
    rw [← Bool.not_eq_true, inv.bits h isHeader b, inv.held_nil early]
    simp
  exact inv.initStep .wait early
    (fun other ne => inv.initialised.others inside ne) (fun _ => trivial)
    rfl rfl clear (Nat.le_refl 2) (Nat.le_of_eq once) (fun zero => by cases zero) trivial
    (fun _ => ⟨hdr, once⟩) inv.initialised.laidOut

/-! ### The blocks -/

omit [DecidableEq Thread] in
theorem Consistent.elemSize_pos (hdr : s.header = some h) : 0 < config.elemSize := by
  obtain ⟨_, laidOut⟩ := inv.initialised.laidOut h hdr
  exact (layout_spec laidOut).1

variable {w : Nat}

/-- A bit that was clear is set, and its block belongs to the thread that has set it. -/
theorem Consistent.take {block i : Nat} (ready : s.Ready h) (free : bit s.bitmap block = false)
    (inside : block < h.numBlocks) (index_lt : i < 64) (block_eq : block = 64 * w + i) :
    Consistent config { s.setPc thread (.returned (some (h.blockAddr config block))) with
      bitmap := Function.update s.bitmap w (setIn (s.bitmap w) i)
      held := s.held ++ [(thread, h.blockAddr config block)] } := by
  have pos := inv.elemSize_pos ready.2
  have unheld : ∀ o, (o, h.blockAddr config block) ∉ s.held := by
    intro o mem
    rw [← Bool.not_eq_true, inv.bits h ready.2] at free
    exact free ⟨o, mem⟩
  have moved : Initialised config
      (s.setPc thread (.returned (some (h.blockAddr config block)))) :=
    inv.initialised.setPc thread rfl
  refine
    { initialised := { moved with }
      threads := ?_
      bits := fun found hdr number => ?_
      blocks := fun e mem => ?_
      once := ?_ }
  · refine forall_threads_setPc (P := fun o pc => ThreadAt config _ o pc)
      ⟨h, ready, block, inside, rfl⟩ fun o _ => ?_
    exact (inv.threads o).mono (fun _ ready => ready)
      fun ptr mine => List.mem_append_left _ mine
  · obtain rfl : found = h := Option.some.inj (hdr.symm.trans ready.2)
    rw [bit_setIn index_lt, Bool.or_eq_true, inv.bits found hdr, decide_eq_true_iff,
      ← block_eq]
    simp only [List.mem_append, List.mem_singleton, Prod.mk.injEq, exists_or]
    refine or_congr_right ⟨?_, ?_⟩
    · rintro rfl
      exact ⟨thread, rfl, rfl⟩
    · rintro ⟨_, _, same⟩
      exact blockAddr_inj found pos same
  · obtain old | new := List.mem_append.mp mem
    · exact inv.blocks e old
    · obtain rfl := List.mem_singleton.mp new
      exact ⟨h, ready, block, inside, rfl⟩
  · exact inv.once.append unheld

/-- The thread that has a block clears its bit. -/
theorem Consistent.give {slot : Nat} (ready : s.Ready h)
    (mine : (thread, h.blockAddr config slot) ∈ s.held) :
    Consistent config { s.setPc thread (.freed .ok) with
      bitmap := Function.update s.bitmap (slot / 64)
        (clearIn (s.bitmap (slot / 64)) (slot % 64))
      held := s.held.erase (thread, h.blockAddr config slot) } := by
  have pos := inv.elemSize_pos ready.2
  have slot_eq : slot = 64 * (slot / 64) + slot % 64 := by omega
  have moved : Initialised config (s.setPc thread (.freed .ok)) :=
    inv.initialised.setPc thread rfl
  refine
    { initialised := { moved with }
      threads := ?_
      bits := fun found hdr number => ?_
      blocks := fun e mem => inv.blocks e (List.mem_of_mem_erase mem)
      once := inv.once.erase _ }
  · refine forall_threads_setPc (P := fun o pc => ThreadAt config _ o pc) trivial
      fun o ne => ?_
    refine (inv.threads o).mono (fun _ ready => ready) fun ptr isMine => ?_
    refine (List.mem_erase_of_ne ?_).mpr isMine
    rintro same
    exact ne (congrArg Prod.fst same)
  · obtain rfl : found = h := Option.some.inj (hdr.symm.trans ready.2)
    rw [bit_clearIn (Nat.mod_lt _ (by decide)), ← slot_eq, Bool.and_eq_true,
      inv.bits found hdr, Bool.not_eq_true', decide_eq_false_iff_not, ← exists_and_right]
    refine exists_congr fun o => ?_
    rw [inv.once.mem_erase_iff mine]
    refine and_congr_right fun _ => not_congr ⟨?_, fun same => ?_⟩
    · rintro rfl
      rfl
    · exact blockAddr_inj found pos same

end

/-! ### The programs -/

variable {h : Header} {w : Nat}

theorem initialises_scan (h : Header) (w : Nat) : (h.scan w).initialises = false := by
  rw [Header.scan]
  split
  · rfl
  · rfl

omit [DecidableEq Thread] in
theorem threadAt_scan (ready : s.Ready h) (w : Nat) :
    s.ThreadAt config thread (h.scan w) := by
  rw [Header.scan]
  split
  · rename_i lt
    exact ⟨h, ready, lt⟩
  · trivial

section

variable (inv : Consistent config s) (ready : s.Ready h)
include inv ready

theorem Consistent.scan (w : Nat) : Consistent config (s.setPc thread (h.scan w)) :=
  inv.setPc (initialises_scan h w) (threadAt_scan ready w)

theorem Consistent.checkWord (lt : w < h.words) (cur : BitVec 64) :
    Consistent config (s.setPc thread (h.checkWord w cur)) := by
  rw [Header.checkWord]
  split
  · exact inv.scan ready _
  · rename_i notFull
    split
    · exact inv.scan ready _
    · rename_i inside
      exact inv.setPc rfl ⟨h, ready, lt, notFull, Nat.lt_of_not_le inside⟩

theorem Consistent.takeBlock {cur : BitVec 64} (notFull : cur ≠ BitVec.allOnes 64)
    (inside : lowestZero cur + w * bitsPerMword < h.numBlocks)
    (step : s.takeBlock config thread h w cur = some s') : Consistent config s' := by
  simp only [Span.takeBlock] at step
  split at step
  · rename_i same
    split_ifs at step
    subst same
    cases step
    have lt := lowestZero_lt notFull
    have block : lowestZero (s.bitmap w) + w * bitsPerMword =
        64 * w + lowestZero (s.bitmap w) := by
      rw [bitsPerMword]
      omega
    have free : bit s.bitmap (lowestZero (s.bitmap w) + w * bitsPerMword) = false := by
      rw [block, bit, show (64 * w + lowestZero (s.bitmap w)) / 64 = w by omega,
        show (64 * w + lowestZero (s.bitmap w)) % 64 = lowestZero (s.bitmap w) by omega]
      exact getLsbD_lowestZero notFull
    exact inv.take ready free inside lt block
  · cases step
    exact inv.scan ready _

end

variable {ptr : Nat}

section

variable (inv : Consistent config s)
include inv

theorem Consistent.findSlot (ready : s.Ready h) (mine : (thread, ptr) ∈ s.held)
    (step : s.findSlot config thread h ptr = some s') :
    Consistent config s' := by
  simp only [Span.findSlot] at step
  split at step
  · split_ifs at step
    cases step
    obtain ⟨found, isReady, block, inside, isBlock⟩ := inv.blocks _ mine
    obtain rfl : found = h := Option.some.inj (isReady.2.symm.trans ready.2)
    have isBlock : ptr = found.blockAddr config block := isBlock
    have slot : found.slot config ptr = block := by
      rw [isBlock, slot_blockAddr found (inv.elemSize_pos ready.2)]
    rw [slot]
    exact inv.setPc rfl ⟨mine, found, ready, inside, isBlock⟩
  · cases step
    exact inv.setPc rfl trivial

theorem Consistent.giveBlock {slot retries : Nat} {cur : BitVec 64}
    (known : s.ThreadAt config thread (.freeCas ptr slot retries cur)) :
    Consistent config (s.giveBlock thread ptr slot retries cur) := by
  obtain ⟨mine, h, ready, inside, rfl⟩ := known
  rw [Span.giveBlock]
  split
  · rename_i same
    subst same
    exact inv.give ready mine
  · exact inv.setPc rfl ⟨mine, h, ready, inside, rfl⟩

theorem Consistent.access (step : s.access config thread = some s') : Consistent config s' := by
  have known := inv.threads thread
  simp only [Span.access] at step
  generalize pc : s.threads thread = access at step known
  cases access with
  | idle | initBody =>
    cases step
  | loadInitialized | initTest =>
    cases step
    split
    · exact inv.setPc rfl trivial
    · exact inv.setPc rfl trivial
  | initCas =>
    dsimp only at step
    split at step
    · rename_i first
      cases step
      exact inv.initCas first
    · cases step
      exact inv.setPc rfl trivial
  | initStore =>
    cases step
    exact inv.initStore pc
  | wait =>
    dsimp only at step
    split at step
    · cases step
      exact inv
    · rename_i done
      obtain ⟨h, hdr, rfl⟩ := Option.map_eq_some_iff.mp step
      exact inv.scan ⟨inv.initialised.done done, hdr⟩ 0
  | loadWord w =>
    obtain ⟨h, hdr, rfl⟩ := Option.map_eq_some_iff.mp step
    obtain ⟨found, ready, lt⟩ := known
    obtain rfl : found = h := Option.some.inj (ready.2.symm.trans hdr)
    exact inv.checkWord ready lt _
  | casWord w cur =>
    obtain ⟨h, hdr, taken⟩ := Option.bind_eq_some_iff.mp step
    obtain ⟨found, ready, _, notFull, inside⟩ := known
    obtain rfl : found = h := Option.some.inj (ready.2.symm.trans hdr)
    exact inv.takeBlock ready notFull inside taken
  | returned block | freed status =>
    cases step
    exact inv.setPc rfl trivial
  | freeTest ptr =>
    dsimp only at step
    split_ifs at step with done
    obtain ⟨h, hdr, found⟩ := Option.bind_eq_some_iff.mp step
    exact inv.findSlot ⟨inv.initialised.done done, hdr⟩ known found
  | freeAssert ptr slot retries =>
    dsimp only at step
    split_ifs at step
    cases step
    exact inv.setPc rfl known
  | freeLoad ptr slot retries =>
    cases step
    exact inv.setPc rfl known
  | freeCas ptr slot retries cur =>
    cases step
    exact inv.giveBlock known

theorem Consistent.step {ev : SpanEvent Thread} (ok : s.Allowed ev)
    (step : s.step config ev = some s') :
    Consistent config s' := by
  cases ev with
  | spanNextFree thread =>
    simp only [Span.step] at step
    split at step
    · cases step
      exact inv.setPc rfl trivial
    · cases step
  | spanFree thread ptr =>
    simp only [Span.step] at step
    split at step
    · cases step
      exact inv.setPc rfl ok
    · cases step
  | malloc thread unalignedData =>
    simp only [Span.step] at step
    split at step
    · rename_i pc
      obtain ⟨h, laidOut, rfl⟩ := Option.map_eq_some_iff.mp step
      exact inv.malloc pc laidOut
    · cases step
  | thread thread => exact inv.access step

end

theorem consistent_reaches
    (run : Reaches (fun s ev => s.step config ev) Allowed (init : Span Thread) s) :
    Consistent config s :=
  run.invariant (motive := Consistent config) consistent_init
    fun inv ok step => inv.step ok step

/-! ## What a span promises -/

structure ExclusiveSpan (config : Config) (s : Span Thread) : Prop where
  -- the span is laid out once, before any block is handed out
  once : s.inits ≤ 1
  before : ∀ thread ptr, (thread, ptr) ∈ s.held ∨ s.threads thread = .returned (some ptr) →
    s.initialized = 2 ∧ s.inits = 1
  exclusive : ∀ first second ptr, (first, ptr) ∈ s.held → (second, ptr) ∈ s.held → first = second
  addresses : ∀ thread ptr, (thread, ptr) ∈ s.held ∨ s.threads thread = .returned (some ptr) →
    ∃ h, s.header = some h ∧
      ∃ block < h.numBlocks, ptr = h.firstBlockAddr + block * config.elemSize
  -- no access of a call that frees a block changes the bit of another block
  frees : ∀ thread ptr, (s.threads thread).frees = some ptr →
    ∀ s', s.step config (.thread thread) = some s' → ∀ h, s.header = some h →
      ∀ block, h.blockAddr config block ≠ ptr → bit s'.bitmap block = bit s.bitmap block

theorem Consistent.frees {block : Nat} (inv : Consistent config s)
    (freeing : (s.threads thread).frees = some ptr) (step : s.access config thread = some s')
    (hdr : s.header = some h) (ne : h.blockAddr config block ≠ ptr) :
    bit s'.bitmap block = bit s.bitmap block := by
  have known := inv.threads thread
  simp only [Span.access] at step
  generalize pc : s.threads thread = here at step known freeing
  cases here with
  | freeTest ptr =>
    dsimp only at step
    split_ifs at step
    obtain ⟨h, hdr, found⟩ := Option.bind_eq_some_iff.mp step
    simp only [Span.findSlot] at found
    split at found
    · split_ifs at found
      cases found
      rfl
    · cases found
      rfl
  | freeAssert ptr slot retries =>
    dsimp only at step
    split_ifs at step
    cases step
    rfl
  | freeLoad ptr slot retries =>
    cases step
    rfl
  | freeCas ptr' slot retries current =>
    cases step
    cases freeing
    obtain ⟨_, found, ready, _, rfl⟩ := known
    obtain rfl : found = h := Option.some.inj (ready.2.symm.trans hdr)
    rw [Span.giveBlock]
    split
    · rename_i same
      subst same
      have elsewhere : block ≠ 64 * (slot / bitsPerMword) + slot % bitsPerMword := by
        intro same
        rw [bitsPerMword, Nat.div_add_mod] at same
        exact ne (by rw [same])
      have lt : slot % bitsPerMword < 64 := Nat.mod_lt _ (by decide)
      refine (bit_clearIn lt block).trans ?_
      rw [decide_eq_false elsewhere, Bool.not_false, Bool.and_true]
    · rfl
  | _ =>
    cases freeing

/-- In every run, with any number of threads, the span is laid out once, its blocks have one
    owner each, and freeing a block touches no other. -/
theorem span_blocks_exclusive (config : Config) (s : Span Thread)
    (run : Reaches (fun s event => s.step config event) Allowed init s) :
    ExclusiveSpan config s := by
  have consistent := consistent_reaches run
  have block : ∀ thread ptr, (thread, ptr) ∈ s.held ∨ s.threads thread = .returned (some ptr) →
      ∃ h, s.Ready h ∧ ∃ block < h.numBlocks, ptr = h.blockAddr config block := by
    rintro thread ptr (listed | pc)
    · exact consistent.blocks _ listed
    · have known := consistent.threads thread
      rwa [pc] at known
  refine
    { once := consistent.initialised.few
      before := fun thread ptr has => ?_
      exclusive := fun first second ptr isFirst isSecond => ?_
      addresses := fun thread ptr has => ?_
      frees := fun thread ptr freeing s' stepped h header block other =>
        consistent.frees freeing stepped header other }
  · obtain ⟨h, ready, _⟩ := block thread ptr has
    exact ⟨ready.1, (consistent.initialised.after ready.1).2⟩
  · exact congrArg Prod.fst (List.inj_on_of_nodup_map consistent.once isFirst isSecond rfl)
  · obtain ⟨h, ready, block, inside, rfl⟩ := block thread ptr has
    exact ⟨h, ready.2, block, inside, by rw [Header.blockAddr, Nat.mul_comm]⟩

/-- Two threads race to initialise the span; the one that loses goes on to take the second
    block, while the first one frees its block. -/
theorem span_blocks_exclusive_race : ∃ s : Span Bool,
    Reaches (fun s event => s.step smallSpan event) Allowed init s ∧
      s.header = some ⟨3, 16, 32, 3104⟩ ∧ s.held = [(false, 32), (true, 1056)] ∧
      s.threads false = .freeCas 32 0 0 3 ∧ ExclusiveSpan smallSpan s := by
  have executed : ∃ s ∈ execute (fun (s : Span Bool) event => s.step smallSpan event) Allowed
      [.spanNextFree false, .spanNextFree true, .thread false, .thread true, .thread false,
        .thread true, .thread false, .thread true, .malloc false 8, .thread false,
        .thread false, .thread true, .thread false, .thread false, .thread true, .thread true,
        .thread false, .spanFree false 32, .thread false, .thread false, .thread false] init,
      s.header = some ⟨3, 16, 32, 3104⟩ ∧ s.held = [(false, 32), (true, 1056)] ∧
      s.threads false = .freeCas 32 0 0 3 := by
    decide +kernel
  obtain ⟨s, run, header, held, freeing⟩ := exists_reaches_of_execute executed
  exact ⟨s, run, header, held, freeing, span_blocks_exclusive smallSpan s run⟩

end Span

end Xdk.Slab
