import Mathlib.Init

/-! # Event-driven transition systems

A system is a function `step : State → Event → Option State`: `none` means that
the event cannot happen in that state (the thread is blocked, or an assertion of
the program fails and the run ends there).  A run is restricted by a predicate
`allowed` on the events together with the state they happen in, so "every run
whose steps all meet a condition" is a statement about `Reaches step allowed`.

`Reaches.invariant` is the only induction over runs the development needs:
everything else is a one-step lemma.  `execute` runs a list of events, for
building concrete runs.
-/

namespace Xdk.Lib

variable {State Event : Type*}

/-- `Reaches step allowed start finish`: some run leads from `start` to `finish`, and
    each of its events was allowed in the state it happened in. -/
inductive Reaches (step : State → Event → Option State) (allowed : State → Event → Prop)
    (start : State) : State → Prop where
  | refl : Reaches step allowed start start
  | next {middle finish : State} {event : Event} :
      Reaches step allowed start middle → allowed middle event →
      step middle event = some finish → Reaches step allowed start finish

section Runs

variable {step : State → Event → Option State} {allowed : State → Event → Prop}
  {start finish : State}

/-- The invariant rule: what holds at the start and is preserved by every allowed
    step holds in every state a run reaches. -/
theorem Reaches.invariant {start finish : State} {motive : State → Prop}
    (run : Reaches step allowed start finish) (initial : motive start)
    (preserved : ∀ {before after : State} {ev : Event}, motive before →
      allowed before ev → step before ev = some after → motive after) :
    motive finish := by
  induction run with
  | refl => exact initial
  | next _ permitted made ih =>
    exact preserved ih permitted made

theorem Reaches.trans {middle : State} (a : Reaches step allowed start middle)
    (b : Reaches step allowed middle finish) :
    Reaches step allowed start finish := by
  induction b with
  | refl => exact a
  | next _ permitted made ih => exact .next ih permitted made

theorem Reaches.mono {allowed' : State → Event → Prop} (run : Reaches step allowed start finish)
    (weaker : ∀ {state : State} {ev : Event}, allowed state ev → allowed' state ev) :
    Reaches step allowed' start finish := by
  induction run with
  | refl => exact .refl
  | next _ permitted made ih =>
    exact .next ih (weaker permitted) made

/-- The invariant rule through a simulation: when every step taken in a reachable state
    is, seen through `view`, a step of an abstract system, then what holds of the view at
    the start and is preserved by the abstract steps holds of every view reached. -/
theorem Reaches.invariant_of_simulation {Abstract : Type*} {view : State → Abstract}
    {Simulated : Abstract → Event → Abstract → Prop} {start finish : State}
    {motive : Abstract → Prop} (run : Reaches step allowed start finish)
    (simulated : ∀ {before after : State} {ev : Event}, Reaches step allowed start before →
      step before ev = some after → Simulated (view before) ev (view after))
    (initial : motive (view start))
    (preserved : ∀ {before : State} {ev : Event} {after : Abstract}, motive (view before) →
      allowed before ev → Simulated (view before) ev after → motive after) :
    motive (view finish) := by
  induction run with
  | refl => exact initial
  | next earlier permitted made ih =>
    exact preserved ih permitted (simulated earlier made)

end Runs

/-! ## Concrete runs -/

/-- Run a list of events, stopping at the first one that is not allowed or cannot happen. -/
def execute (step : State → Event → Option State) (allowed : State → Event → Prop)
    [∀ state event, Decidable (allowed state event)] : List Event → State → Option State
  | [], state => some state
  | event :: events, state =>
    if allowed state event then (step state event).bind (execute step allowed events) else none

theorem execute_reaches {step : State → Event → Option State} {ok : State → Event → Prop}
    [∀ state ev, Decidable (ok state ev)] {events : List Event} {start finish : State}
    (executed : execute step ok events start = some finish) :
    Reaches step ok start finish := by
  induction events generalizing start with
  | nil =>
    simp only [execute, Option.some.injEq] at executed
    exact executed ▸ .refl
  | cons ev events ih =>
    simp only [execute] at executed
    split at executed
    · rename_i permitted
      obtain ⟨middle, made, rest⟩ := Option.bind_eq_some_iff.mp executed
      exact (Reaches.next .refl permitted made).trans (ih rest)
    · cases executed

theorem exists_reaches_of_execute {step : State → Event → Option State}
    {ok : State → Event → Prop} [∀ state ev, Decidable (ok state ev)]
    {events : List Event} {start : State} {goal : State → Prop}
    (executed : ∃ finish ∈ execute step ok events start, goal finish) :
    ∃ finish, Reaches step ok start finish ∧ goal finish := by
  obtain ⟨finish, reached, holds⟩ := executed
  exact ⟨finish, execute_reaches reached, holds⟩

end Xdk.Lib
