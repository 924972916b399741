import Mathlib.Data.List.Basic

/-! # Calls that take effect once

Threads call the operations of a shared object, and each call takes effect at one moment while
it runs.  `effects` is the list of these moments, `finished` what the calls of each thread that
are over have done, and `pending` what the call that is running has done already.
-/

namespace Xdk.Lib

variable {Thread Value : Type*} [DecidableEq Thread]

def effectsOf (effects : List (Thread × Value)) (thread : Thread) : List Value :=
  (effects.filter fun effect => effect.1 = thread).map Prod.snd

def Accounted (effects : List (Thread × Value)) (finished pending : Thread → List Value) : Prop :=
  ∀ thread, effectsOf effects thread = finished thread ++ pending thread

variable {effects : List (Thread × Value)} {finished pending : Thread → List Value}
  {thread : Thread}

theorem accounted_nil : Accounted ([] : List (Thread × Value)) (fun _ => []) (fun _ => []) :=
  fun _ => rfl

section

variable (accounted : Accounted effects finished pending)
include accounted

theorem Accounted.quiet {values : List Value} (same : values = pending thread) :
    Accounted effects finished (Function.update pending thread values) := by
  rw [same, Function.update_eq_self]
  exact accounted

theorem Accounted.effect (none : pending thread = []) (value : Value) :
    Accounted (effects ++ [(thread, value)]) finished
      (Function.update pending thread [value]) := by
  intro other
  have before := accounted other
  by_cases same : other = thread
  · subst same
    rw [none, effectsOf] at before
    simp [effectsOf, before]
  · have apart : thread ≠ other := fun equal => same equal.symm
    rw [effectsOf] at before
    simp [effectsOf, before, same, apart]

theorem Accounted.finish {values : List Value} (done : pending thread = values) :
    Accounted effects (Function.update finished thread (finished thread ++ values))
      (Function.update pending thread []) := by
  subst done
  intro o
  by_cases same : o = thread
  · subst same
    rw [accounted, Function.update_self, Function.update_self, List.append_nil]
  · rw [accounted, Function.update_of_ne same, Function.update_of_ne same]

/-- What a call that is over has done is in the list. -/
theorem Accounted.mem_of_finished {v : Value} (mem : v ∈ finished thread) :
    v ∈ effects.map Prod.snd := by
  have listed : v ∈ effectsOf effects thread := by
    rw [accounted]
    exact List.mem_append_left _ mem
  obtain ⟨effect, kept, rfl⟩ := List.mem_map.mp listed
  exact List.mem_map_of_mem (List.mem_of_mem_filter kept)

end

end Xdk.Lib
