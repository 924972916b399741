import Xdk.Slab.Scan

/-! # The base slab allocator

`Base_object_allocator` of `private/__base_slab_allocator.h` asks one span after the other for
a block, and panics when none of them has one.  The constructor initialises the first span,
the others are initialised when they are asked.
-/

namespace Xdk.Slab

open Xdk.Lib Function

def maxSpanCount (config : Config) : Nat := 256 * 2 ^ 20 / config.spanSize

inductive AllocPc where
  | idle
  | inSpan (i : Nat)
  | returned (ptr : Nat)
  | panicked
  deriving DecidableEq, Repr

structure BaseAllocator (Thread : Type*) where
  spans : Nat → Span Thread
  callers : Thread → AllocPc

inductive BaseEvent (Thread : Type*) where
  -- a step in one of the spans
  | span (i : Nat) (event : SpanEvent Thread)
  | alloc (thread : Thread)
  -- `_alloc` goes on when a span has answered
  | answered (thread : Thread)

def Pc.calling : Pc → Bool
  | .idle | .returned _ | .freed _ => false
  | _ => true

namespace BaseAllocator

variable {Thread : Type*} [DecidableEq Thread]

def new (h : Header) : BaseAllocator Thread where
  spans := fun i => if i = 0 then { Span.init with initialized := 2, header := some h, inits := 1 }
    else .init
  callers := fun _ => .idle

def mayStep (a : BaseAllocator Thread) (i : Nat) (thread : Thread) : Bool :=
  match a.callers thread with
  | .idle => true
  | .inSpan j => i = j && ((a.spans i).threads thread).calling
  | .returned _ | .panicked => false

def ask (config : Config) (a : BaseAllocator Thread) (thread : Thread) (i : Nat) :
    Option (BaseAllocator Thread) :=
  ((a.spans i).step config (.spanNextFree thread)).map fun s =>
    { spans := Function.update a.spans i s
      callers := Function.update a.callers thread (.inSpan i) }

def goOn (config : Config) (a : BaseAllocator Thread) (thread : Thread) (i : Nat) :
    Option Nat → Option (BaseAllocator Thread)
  | some ptr => some { a with callers := Function.update a.callers thread (.returned ptr) }
  | none =>
    if i + 1 < maxSpanCount config then a.ask config thread (i + 1)
    else some { a with callers := Function.update a.callers thread .panicked }

def step (config : Config) (a : BaseAllocator Thread) :
    BaseEvent Thread → Option (BaseAllocator Thread)
  | .span i event =>
    if a.mayStep i event.actor then
      ((a.spans i).step config event).map fun s => { a with spans := Function.update a.spans i s }
    else none
  | .alloc thread =>
    match a.callers thread with
    | .idle => a.ask config thread 0
    | _ => none
  | .answered thread =>
    match a.callers thread with
    | .inSpan i =>
      match (a.spans i).threads thread with
      | .returned block =>
        goOn config
          { a with spans := Function.update a.spans i ((a.spans i).setPc thread .idle) } thread i
          block
      | _ => none
    | .returned _ => some { a with callers := Function.update a.callers thread .idle }
    | .idle | .panicked => none

def Allowed (a : BaseAllocator Thread) : BaseEvent Thread → Prop
  | .span i event => (a.spans i).Allowed event
  | .alloc _ | .answered _ => True

/-- In no span does a compare-and-swap of the thread fail or a bit get cleared. -/
def Undisturbed (thread : Thread) (a : BaseAllocator Thread) : BaseEvent Thread → Prop
  | .span i event => (a.spans i).Undisturbed thread event
  | .alloc _ | .answered _ => True

instance (a : BaseAllocator Thread) (event : BaseEvent Thread) : Decidable (a.Allowed event) :=
  match event with
  | .span i event => inferInstanceAs (Decidable ((a.spans i).Allowed event))
  | .alloc _ | .answered _ => isTrue trivial

instance (thread : Thread) (a : BaseAllocator Thread) (event : BaseEvent Thread) :
    Decidable (a.Undisturbed thread event) :=
  match event with
  | .span i event => inferInstanceAs (Decidable ((a.spans i).Undisturbed thread event))
  | .alloc _ | .answered _ => isTrue trivial

/-! ## Every span is consistent -/

section Spans

omit [DecidableEq Thread]

variable {config : Config} {a : BaseAllocator Thread}

theorem consistent_eager {data : Nat} {h : Header}
    (laidOut : layout config data = some h) :
    Span.Consistent config
      ({ Span.init with initialized := 2, header := some h, inits := 1 } : Span Thread) where
  initialised :=
    { bounded := Nat.le_refl 2
      few := Nat.le_refl 1
      before := fun zero => by cases zero
      during := fun _ => trivial
      after := fun _ => ⟨Option.some_ne_none h, rfl⟩
      alone := fun _ _ first => by cases first
      laidOut := fun found header => ⟨data, Option.some.inj header ▸ laidOut⟩ }
  threads := fun _ => trivial
  bits := fun _ _ block => by simp [Span.init, bit]
  blocks := fun _ mem => by cases mem
  once := .nil

/-- What a step of span `i` keeps, every span keeps. -/
theorem update_keeps {i j : Nat} {s : Span Thread} {P : Span Thread → Prop}
    (kept : P (a.spans i) → P s) (holds : P (a.spans j)) : P (update a.spans i s j) := by
  by_cases same : j = i
  · subst same
    rw [update_self]
    exact kept holds
  · rwa [update_of_ne same]

end Spans

variable {config : Config} {a a' : BaseAllocator Thread} {thread : Thread} {i : Nat}

section

variable (inv : ∀ j, (a.spans j).Consistent config)
include inv

theorem consistent_ask (asked : a.ask config thread i = some a') :
    ∀ j, (a'.spans j).Consistent config := by
  obtain ⟨s, step, rfl⟩ := Option.map_eq_some_iff.mp asked
  have ok : (a.spans i).Allowed (.spanNextFree thread) := trivial
  exact fun j => update_keeps (fun before => before.step ok step) (inv j)

/-- What is left when a span has answered and its thread goes on. -/
theorem consistent_answered :
    ∀ j, (update a.spans i ((a.spans i).setPc thread .idle) j).Consistent config :=
  fun j => update_keeps (fun before => before.setPc rfl trivial) (inv j)

theorem consistent_step {ev : BaseEvent Thread} (ok : a.Allowed ev)
    (made : a.step config ev = some a') :
    ∀ j, (a'.spans j).Consistent config := by
  cases ev with
  | span i ev =>
    simp only [step] at made
    split_ifs at made
    obtain ⟨s, moved, rfl⟩ := Option.map_eq_some_iff.mp made
    exact fun j => update_keeps (fun before => before.step ok moved) (inv j)
  | alloc t =>
    simp only [step] at made
    split at made
    · exact consistent_ask inv made
    · cases made
  | answered t =>
    simp only [step] at made
    generalize caller : a.callers t = access at made
    cases access with
    | idle | panicked =>
      cases made
    | returned ptr =>
      cases made
      exact inv
    | inSpan i =>
      dsimp only at made
      split at made
      swap
      · cases made
      rename_i block _
      cases block with
      | some ptr =>
        cases made
        exact consistent_answered inv
      | none =>
        simp only [goOn] at made
        split at made
        · exact consistent_ask (consistent_answered inv) made
        · cases made
          exact consistent_answered inv

end

/-! ## What a call of `_alloc` has seen -/

section Seen

omit [DecidableEq Thread]

def AllocAt (config : Config) (a : BaseAllocator Thread) (thread : Thread) : Prop :=
  match a.callers thread with
  | .inSpan i => (∀ j < i, (a.spans j).Full) ∧ (a.spans i).ScanAt ((a.spans i).threads thread)
  | .panicked => ∀ j < maxSpanCount config, (a.spans j).Full
  | .idle | .returned _ => True

/-- A step that keeps full spans full and what the scan of the thread has seen. -/
theorem AllocAt.mono (known : AllocAt config a thread)
    (caller : a'.callers thread = a.callers thread)
    (full : ∀ j, (a.spans j).Full → (a'.spans j).Full)
    (scan : ∀ j, (a.spans j).ScanAt ((a.spans j).threads thread) →
      (a'.spans j).ScanAt ((a'.spans j).threads thread)) : AllocAt config a' thread := by
  rw [AllocAt] at known ⊢
  rw [caller]
  generalize pc : a.callers thread = access at known
  cases access with
  | idle | returned => trivial
  | inSpan i =>
    exact ⟨fun j lt => full j (known.1 j lt), scan i known.2⟩
  | panicked =>
    exact fun j lt => full j (known j lt)

end Seen

variable {other : Thread}

/-- A span answers some thread, which goes on. -/
theorem AllocAt.idle (known : AllocAt config a thread) (ne : thread ≠ other) :
    AllocAt config
      { a with spans := update a.spans i ((a.spans i).setPc other .idle) } thread := by
  refine known.mono rfl (fun j => update_keeps fun full => full)
    fun j => update_keeps (P := fun s => s.ScanAt (s.threads thread)) fun scanned => ?_
  rw [Span.threads_setPc_of_ne _ _ ne]
  exact scanned

section

variable (inv : ∀ j, (a.spans j).Consistent config)
include inv

theorem AllocAt.ask (known : AllocAt config a thread) (enough : config.BitForEveryBlock)
    (asked : a.ask config other i = some a') (ne : thread ≠ other) : AllocAt config a' thread := by
  obtain ⟨s, step, rfl⟩ := Option.map_eq_some_iff.mp asked
  have undisturbed : (a.spans i).Undisturbed thread (.spanNextFree other) := trivial
  refine known.mono (update_of_ne ne _ _)
    (fun j => update_keeps fun full => full.step (inv i) undisturbed step)
    fun j => update_keeps (P := fun s => s.ScanAt (s.threads thread)) fun scanned => ?_
  exact scanned.step (inv i) enough undisturbed step

/-- The thread itself asks the next span. -/
theorem allocAt_ask (full : ∀ j < i, (a.spans j).Full) (asked : a.ask config thread i = some a') :
    AllocAt config a' thread := by
  obtain ⟨s, step, rfl⟩ := Option.map_eq_some_iff.mp asked
  have undisturbed : (a.spans i).Undisturbed thread (.spanNextFree thread) := trivial
  simp only [AllocAt, update_self]
  refine ⟨fun j lt => ?_, ?_⟩
  · exact update_keeps (fun full => full.step (inv i) undisturbed step) (full j lt)
  · simp only [Span.step] at step
    split at step
    · cases step
      rw [Span.threads_setPc_self]
      trivial
    · cases step

theorem AllocAt.answered (known : AllocAt config a thread) (enough : config.BitForEveryBlock)
    (made : a.step config (.answered other) = some a') : AllocAt config a' thread := by
  simp only [step] at made
  generalize caller : a.callers other = access at made
  cases access with
  | idle | panicked =>
    cases made
  | returned ptr =>
    cases made
    by_cases same : thread = other
    · subst same
      simp [AllocAt]
    · exact known.mono (update_of_ne same _ _) (fun _ full => full)
        fun _ scanned => scanned
  | inSpan i =>
    dsimp only at made
    split at made
    swap
    · cases made
    rename_i block pc
    have idle : ∀ j, (update a.spans i
        ((a.spans i).setPc other .idle) j).Consistent config := consistent_answered inv
    by_cases same : thread = other
    · subst same
      rw [AllocAt, caller] at known
      cases block with
      | some ptr =>
        cases made
        simp [AllocAt]
      | none =>
        dsimp only at known
        rw [pc] at known
        have full : ∀ j < i + 1,
            (update a.spans i ((a.spans i).setPc thread .idle) j).Full := by
          intro j lt
          refine update_keeps (fun full => full) ?_
          obtain before | rfl := Nat.lt_succ_iff_lt_or_eq.mp lt
          · exact known.1 j before
          · exact known.2
        simp only [goOn] at made
        split_ifs at made with last
        · exact allocAt_ask idle full made
        · cases made
          simp only [AllocAt, update_self]
          exact fun j lt => full j (by omega)
    · have kept := known.idle (i := i) same
      cases block with
      | some ptr =>
        cases made
        exact kept.mono (update_of_ne same _ _) (fun _ full => full)
          fun _ scanned => scanned
      | none =>
        simp only [goOn] at made
        split at made
        · exact kept.ask idle enough made same
        · cases made
          exact kept.mono (update_of_ne same _ _) (fun _ full => full)
            fun _ scanned => scanned

theorem AllocAt.step {ev : BaseEvent Thread} (known : AllocAt config a thread)
    (enough : config.BitForEveryBlock) (undisturbed : a.Undisturbed thread ev)
    (step : a.step config ev = some a') : AllocAt config a' thread := by
  cases ev with
  | span i ev =>
    simp only [BaseAllocator.step] at step
    split_ifs at step
    obtain ⟨s, moved, rfl⟩ := Option.map_eq_some_iff.mp step
    refine known.mono rfl
      (fun j => update_keeps fun full => full.step (inv i) undisturbed moved)
      fun j => update_keeps (P := fun s => s.ScanAt (s.threads thread)) fun scanned => ?_
    exact scanned.step (inv i) enough undisturbed moved
  | alloc o =>
    simp only [BaseAllocator.step] at step
    split at step
    · by_cases same : thread = o
      · subst same
        exact allocAt_ask inv (fun j lt => absurd lt (Nat.not_lt_zero _)) step
      · exact known.ask inv enough step same
    · cases step
  | answered o => exact known.answered inv enough step

end

theorem consistent_reaches {data : Nat} {h : Header}
    (laidOut : layout config data = some h)
    (run : Reaches (fun a ev => a.step config ev) Allowed (new h) a) :
    ∀ j, (a.spans j).Consistent config := by
  refine run.invariant (motive := fun a => ∀ j, (a.spans j).Consistent config) (fun j => ?_)
    fun inv ok step => consistent_step inv ok step
  simp only [new]
  split
  · exact consistent_eager laidOut
  · exact Span.consistent_init

end BaseAllocator

/-! ## Coming back empty-handed -/

variable {Thread : Type*} [DecidableEq Thread]

/-- When none of its compare-and-swaps fails and nobody clears a bit meanwhile, a call finds
    no block only if all of them are handed out. -/
theorem exhausted_if_undisturbed (config : Config) (enough : config.BitForEveryBlock) :
    (∀ (thread : Thread) (s₀ s₁ s₂ : Span Thread),
      Reaches (fun s event => s.step config event) Span.Allowed .init s₀ →
      s₀.step config (.spanNextFree thread) = some s₁ →
      Reaches (fun s event => s.step config event)
        (fun s event => s.Allowed event ∧ s.Undisturbed thread event) s₁ s₂ →
      s₂.threads thread = .returned none → s₂.Full) ∧
    ∀ (thread : Thread) (unalignedData : Nat) (h : Header) (a₀ a₁ a₂ : BaseAllocator Thread),
      layout config unalignedData = some h →
      Reaches (fun a event => a.step config event) BaseAllocator.Allowed (.new h) a₀ →
      a₀.step config (.alloc thread) = some a₁ →
      Reaches (fun a event => a.step config event)
        (fun a event => a.Allowed event ∧ a.Undisturbed thread event) a₁ a₂ →
      a₂.callers thread = .panicked → ∀ i < maxSpanCount config, (a₂.spans i).Full := by
  constructor
  · intro thread s₀ s₁ s₂ before begun during empty
    have allowed : s₀.Allowed (.spanNextFree thread) := trivial
    have consistent := Span.consistent_reaches (before.next allowed begun)
    have start : s₁.ScanAt (s₁.threads thread) := by
      simp only [Span.step] at begun
      split at begun
      · cases begun
        rw [Span.threads_setPc_self]
        trivial
      · cases begun
    have scanned := during.invariant
      (motive := fun s => s.Consistent config ∧ s.ScanAt (s.threads thread)) ⟨consistent, start⟩
      fun known allowed stepped => ⟨known.1.step allowed.1 stepped,
        known.2.step known.1 enough allowed.2 stepped⟩
    have seen := scanned.2
    rwa [empty] at seen
  · intro thread unalignedData h a₀ a₁ a₂ laidOut before begun during panicked
    have allowed : a₀.Allowed (.alloc thread) := trivial
    have consistent := BaseAllocator.consistent_reaches laidOut before
    have start : BaseAllocator.AllocAt config a₁ thread := by
      simp only [BaseAllocator.step] at begun
      split at begun
      · exact BaseAllocator.allocAt_ask consistent
          (fun j below => absurd below (Nat.not_lt_zero _)) begun
      · cases begun
    have asked := during.invariant
      (motive := fun a => (∀ j, (a.spans j).Consistent config) ∧
        BaseAllocator.AllocAt config a thread)
      ⟨BaseAllocator.consistent_step consistent allowed begun, start⟩
      fun known allowed stepped => ⟨BaseAllocator.consistent_step known.1 allowed.1 stepped,
        known.2.step known.1 enough allowed.2 stepped⟩
    have seen := asked.2
    rw [BaseAllocator.AllocAt, panicked] at seen
    exact seen

/-- Two spans of three blocks each. -/
def sixBlocks : Config := ⟨2 ^ 27, 8, 2 ^ 25, by decide, eight_power⟩

def accesses (i : Nat) : List (BaseEvent Bool) := List.replicate 4 (.span i (.thread false))

/-- The fourth call finds the first span full and initialises the second. -/
def fourAllocs : List (BaseEvent Bool) :=
  (List.replicate 3 (.alloc false :: accesses 0 ++ [.answered false, .answered false])).flatten ++
    .alloc false :: accesses 0 ++ .answered false :: List.replicate 3 (.span 1 (.thread false)) ++
    .span 1 (.malloc false (2 ^ 30)) :: accesses 1 ++ [.answered false, .answered false]

/-- Calls for a fourth block of a span, and for a seventh block of an allocator. -/
theorem exhausted_if_undisturbed_sixBlocks :
    (∃ s : Span Bool, s.threads false = .returned none ∧ s.bitmap 0 = 7 ∧ s.Full) ∧
      ∃ a : BaseAllocator Bool, a.callers false = .panicked ∧
        ∀ i < 2, (a.spans i).bitmap 0 = 7 ∧ (a.spans i).Full := by
  have main := @exhausted_if_undisturbed Bool _ sixBlocks (bitForEveryBlock_of_le (by decide))
  constructor
  · have executed : ∃ s₀ ∈ execute (fun (s : Span Bool) event => s.step sixBlocks event)
        Span.Allowed
        (.spanNextFree false :: List.replicate 3 (.thread false) ++
          .malloc false 8 :: List.replicate 5 (.thread false) ++ (List.replicate 2
            (.spanNextFree false :: List.replicate 5 (.thread false))).flatten) .init,
        ∃ s₁ ∈ s₀.step sixBlocks (.spanNextFree false),
        ∃ s₂ ∈ execute (fun (s : Span Bool) event => s.step sixBlocks event)
          (fun s event => s.Allowed event ∧ s.Undisturbed false event)
          (List.replicate 4 (.thread false)) s₁,
        s₂.threads false = .returned none ∧ s₂.bitmap 0 = 7 := by
      decide +kernel
    obtain ⟨s₀, before, s₁, begun, s₂, during, empty, bits⟩ := executed
    exact ⟨s₂, empty, bits, main.1 false s₀ s₁ s₂ (execute_reaches before) begun
      (execute_reaches during) empty⟩
  · have laidOut : layout sixBlocks 8 = some ⟨3, 16, 32, 100663328⟩ := by decide +kernel
    have executed : ∃ a₀ ∈ execute (fun (a : BaseAllocator Bool) event => a.step sixBlocks event)
        BaseAllocator.Allowed
        (fourAllocs ++ (List.replicate 2 (.alloc false :: accesses 0 ++
          .answered false :: accesses 1 ++ [.answered false, .answered false])).flatten)
        (.new ⟨3, 16, 32, 100663328⟩),
        ∃ a₁ ∈ a₀.step sixBlocks (.alloc false),
        ∃ a₂ ∈ execute (fun (a : BaseAllocator Bool) event => a.step sixBlocks event)
          (fun a event => a.Allowed event ∧ a.Undisturbed false event)
          (accesses 0 ++ .answered false :: accesses 1 ++ [.answered false]) a₁,
        a₂.callers false = .panicked ∧ ∀ i < 2, (a₂.spans i).bitmap 0 = 7 := by
      decide +kernel
    obtain ⟨a₀, before, a₁, begun, a₂, during, panicked, bits⟩ := executed
    exact ⟨a₂, panicked, fun i below => ⟨bits i below, main.2 false 8 _ a₀ a₁ a₂ laidOut
      (execute_reaches before) begun (execute_reaches during) panicked i below⟩⟩

/-- One thread reads the first word of a span with three blocks, another takes the first
    block; the compare-and-swap of the first thread fails, and the thread returns without a
    block although two blocks were free all the time. -/
theorem null_with_free_blocks : ∃ s₀ s₁ s₂ : Span Bool,
    Reaches (fun s event => s.step smallSpan event) Span.Allowed .init s₀ ∧
      s₀.initialized = 2 ∧ s₀.step smallSpan (.spanNextFree true) = some s₁ ∧
      Reaches (fun s event => s.step smallSpan event)
        (fun s event => s.Allowed event ∧ ¬ s.Full) s₁ s₂ ∧
      ¬ s₂.Full ∧ s₂.threads true = .returned none := by
  have executed : ∃ s₀ ∈ execute (fun (s : Span Bool) event => s.step smallSpan event)
      Span.Allowed
      [.spanNextFree false, .thread false, .thread false, .thread false, .malloc false 8,
        .thread false] .init,
      s₀.initialized = 2 ∧ ∃ s₁ ∈ s₀.step smallSpan (.spanNextFree true),
      ∃ s₂ ∈ execute (fun (s : Span Bool) event => s.step smallSpan event)
        (fun s event => s.Allowed event ∧ ¬ s.Full)
        [.thread true, .thread true, .thread true, .thread false, .thread false, .thread false,
          .thread true, .thread true] s₁,
      ¬ s₂.Full ∧ s₂.threads true = .returned none := by
    decide +kernel
  obtain ⟨s₀, before, ready, s₁, begun, s₂, during, free, empty⟩ := executed
  exact ⟨s₀, s₁, s₂, execute_reaches before, ready, begun, execute_reaches during, free, empty⟩

end Xdk.Slab
