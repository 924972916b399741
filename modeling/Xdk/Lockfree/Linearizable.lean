import Xdk.Lib.Effects
import Xdk.Lockfree.Fifo

/-! # The lock-free queue is linearizable

`push` takes effect when its node is linked, `pop` when `_Q_Head` moves, or when it reads the
`_next` of the dummy and finds nothing.  The order of these moments is the order of the
sequential queue.
-/

namespace Xdk.Lockfree

open Xdk.Lib Function

def Pc.linked {Node T : Type*} : Pc Node T → List T
  | .swing _ val _ | .pushed val => [val]
  | _ => []

def Pc.taken {Node T : Type*} : Pc Node T → List T
  | .delete _ res => [res]
  | .popped res => res.toList
  | _ => []

def Pc.SawEmpty {Node T : Type*} : Pc Node T → Prop
  | .popCheck _ _ none | .popped none => True
  | _ => False

namespace Parties

variable {Thread Node T : Type*}

def Empty (s : Parties Thread Node T) : Prop := s.queue.next s.queue.head = none

variable [DecidableEq Thread]

/-! ## What a step does to the calls -/

inductive Effect (s : Parties Thread Node T) (thread : Thread) : Parties Thread Node T → Prop where
  | quiet (pc : Pc Node T) (queue : Queue Node T)
      (linked : pc.linked = (s.threads thread).linked)
      (taken : pc.taken = (s.threads thread).taken)
      (seen : pc.SawEmpty → (s.threads thread).SawEmpty ∨
        ∃ head tail, s.threads thread = .popNext head tail ∧ s.queue.next head = none) :
      Effect s thread { s.setPc thread pc with queue := queue }
  | link (node : Node) (val : T) (tail : Node) (queue : Queue Node T) (nodes : List Node)
      (linked : (s.threads thread).linked = []) (taken : (s.threads thread).taken = []) :
      Effect s thread { s.setPc thread (.swing node val tail) with
        queue := queue, nodes := nodes, pushes := s.pushes ++ [(thread, val)] }
  | take (head : Node) (res : T) (queue : Queue Node T) (nodes : List Node)
      (linked : (s.threads thread).linked = []) (taken : (s.threads thread).taken = []) :
      Effect s thread { s.setPc thread (.delete head res) with
        queue := queue, nodes := nodes, pops := s.pops ++ [(thread, res)] }
  | complete (val : T) (pc : s.threads thread = .pushed val) :
      Effect s thread { s.setPc thread .idle with
        completed := Function.update s.completed thread (s.completed thread ++ [val]) }
  | answer (res : Option T) (pc : s.threads thread = .popped res) :
      Effect s thread { s.setPc thread .idle with
        returned := Function.update s.returned thread (s.returned thread ++ res.toList) }

variable {s s' : Parties Thread Node T} {thread : Thread}

theorem Effect.read {pc pc' : Pc Node T} (queue : Queue Node T) (before : s.threads thread = pc)
    (linked : pc'.linked = pc.linked) (taken : pc'.taken = pc.taken) (seen : ¬ pc'.SawEmpty) :
    Effect s thread { s.setPc thread pc' with queue := queue } := by
  subst before
  exact .quiet pc' queue linked taken fun saw => absurd saw seen

section Step

variable [DecidableEq Node]

theorem effect_of_pushStep (step : s.pushStep thread = some s') : Effect s thread s' := by
  simp only [pushStep] at step
  generalize pc : s.threads thread = access at step
  cases access with
  | setData n val | setNext n val =>
    cases step
    exact .read _ pc rfl rfl id
  | pushTail n val | pushNext n val tail =>
    cases step
    exact .read s.queue pc rfl rfl id
  | pushCheck n val tail next =>
    cases step
    split
    · cases next with
      | none | some next => exact .read s.queue pc rfl rfl id
    · exact .read s.queue pc rfl rfl id
  | link n val tail =>
    dsimp only at step
    split at step
    · cases step
      exact .link n val tail _ _ (by rw [pc]; rfl) (by rw [pc]; rfl)
    · cases step
      exact .read s.queue pc rfl rfl id
  | pushHelp n val tail next =>
    cases step
    exact .read (s.moveTail tail next).queue pc rfl rfl id
  | swing n val tail =>
    cases step
    exact .read (s.moveTail tail n).queue pc rfl rfl id
  | pushed val =>
    cases step
    exact .complete val pc
  | _ =>
    cases step

theorem effect_of_popStep (step : s.popStep thread = some s') : Effect s thread s' := by
  simp only [popStep] at step
  generalize pc : s.threads thread = access at step
  cases access with
  | popHead | popTail head | delete head res =>
    cases step
    exact .read s.queue pc rfl rfl id
  | popNext head tail =>
    cases step
    refine .quiet _ s.queue (by rw [pc]; rfl) (by rw [pc]; rfl) fun saw => .inr ⟨head, tail, pc, ?_⟩
    cases next : s.queue.next head with
    | none => rfl
    | some m =>
      rw [next] at saw
      exact saw.elim
  | popCheck head tail next =>
    cases step
    split
    · split
      · cases next with
        | none =>
          exact .quiet _ s.queue (by rw [pc]; rfl) (by rw [pc]; rfl)
            fun _ => .inl (by rw [pc]; trivial)
        | some next => exact .read s.queue pc rfl rfl id
      · cases next with
        | none | some next => exact .read s.queue pc rfl rfl id
    · exact .read s.queue pc rfl rfl id
  | popHelp tail next =>
    cases step
    exact .read (s.moveTail tail next).queue pc rfl rfl id
  | popData head next =>
    cases step
    split
    · exact .read s.queue pc rfl rfl id
    · exact .read s.queue pc rfl rfl id
  | popCas head next res =>
    dsimp only at step
    split at step
    · cases step
      exact .take head res _ _ (by rw [pc]; rfl) (by rw [pc]; rfl)
    · cases step
      exact .read s.queue pc rfl rfl id
  | popped res =>
    cases step
    exact .answer res pc
  | _ =>
    cases step

theorem effect_of_step {ev : QueueEvent Thread Node T} (made : s.step ev = some s') :
    ∃ thread, Effect s thread s' := by
  cases ev with
  | push thread val | pop thread =>
    simp only [step] at made
    split at made
    · rename_i idle
      cases made
      exact ⟨thread, .read s.queue idle rfl rfl id⟩
    · cases made
  | allocated thread node =>
    simp only [step] at made
    split at made
    · rename_i pc
      cases made
      exact ⟨thread, .read s.queue pc rfl rfl id⟩
    · cases made
  | thread thread =>
    obtain pushed | ⟨_, popped⟩ := Option.or_eq_some_iff.mp made
    · exact ⟨thread, effect_of_pushStep pushed⟩
    · exact ⟨thread, effect_of_popStep popped⟩

end Step

/-! ## The order in which the calls take effect -/

structure Recorded (s : Parties Thread Node T) : Prop where
  pushes : Accounted s.pushes s.completed (Pc.linked ∘ s.threads)
  pops : Accounted s.pops s.returned (Pc.taken ∘ s.threads)

theorem Effect.recorded (effect : Effect s thread s') (recorded : Recorded s) : Recorded s' := by
  obtain ⟨pushes, pops⟩ := recorded
  have linkedOf := fun pc => comp_update Pc.linked s.threads thread pc
  have takenOf := fun pc => comp_update Pc.taken s.threads thread pc
  cases effect with
  | quiet pc queue linked taken _ =>
    exact ⟨linkedOf pc ▸ pushes.quiet linked, takenOf pc ▸ pops.quiet taken⟩
  | link n val tail queue nodes linked taken =>
    exact ⟨linkedOf (.swing n val tail) ▸ pushes.effect linked val,
      takenOf (.swing n val tail) ▸ pops.quiet taken.symm⟩
  | take head res queue nodes linked taken =>
    exact ⟨linkedOf (.delete head res) ▸ pushes.quiet linked.symm,
      takenOf (.delete head res) ▸ pops.effect taken res⟩
  | complete val pc =>
    have linked : (Pc.linked ∘ s.threads) thread = [val] := congrArg Pc.linked pc
    have taken : (Pc.taken ∘ s.threads) thread = [] := congrArg Pc.taken pc
    exact ⟨linkedOf .idle ▸ pushes.finish linked, takenOf .idle ▸ pops.quiet taken.symm⟩
  | answer res pc =>
    have linked : (Pc.linked ∘ s.threads) thread = [] := congrArg Pc.linked pc
    have taken : (Pc.taken ∘ s.threads) thread = res.toList := congrArg Pc.taken pc
    exact ⟨linkedOf .idle ▸ pushes.quiet linked.symm, takenOf .idle ▸ pops.finish taken⟩

/-- What has taken effect stays. -/
theorem Effect.extends (effect : Effect s thread s') :
    s.pushes <+: s'.pushes ∧ s.pops <+: s'.pops := by
  cases effect with
  | link => exact ⟨List.prefix_append .., List.prefix_rfl⟩
  | take => exact ⟨List.prefix_rfl, List.prefix_append ..⟩
  | quiet | complete | answer => exact ⟨List.prefix_rfl, List.prefix_rfl⟩

/-- Only who reads the `_next` of the dummy of an empty queue finds it empty. -/
theorem Effect.sawEmpty {c : Thread} (effect : Effect s thread s') (inv : Consistent s)
    (filled : ¬ s.Empty) (notSeen : ¬ (s.threads c).SawEmpty) :
    ¬ (s'.threads c).SawEmpty := by
  have others : ∀ {pc}, (c = thread → ¬ pc.SawEmpty) →
      ¬ (update s.threads thread pc c).SawEmpty := by
    intro pc own
    by_cases same : c = thread
    · rw [same, update_self]
      exact own same
    · rw [update_of_ne same]
      exact notSeen
  cases effect with
  | quiet pc queue _ _ seen =>
    refine others ?_
    rintro rfl saw
    obtain before | ⟨head, tail, reads, last⟩ := seen saw
    · exact notSeen before
    · have known := inv.threads c
      rw [reads] at known
      obtain ⟨⟨shared, isHead⟩, _⟩ := known
      -- a node that was popped has a successor
      have mem : head ∈ s.nodes := by
        by_contra popped
        exact shared.2 popped last
      rw [isHead mem] at last
      exact filled last
  | link | take | complete | answer => exact others fun _ => id

/-! ## The contract -/

section Contract

variable [DecidableEq Node]

omit [DecidableEq Thread] in
theorem consistent_new (dummy : Node) (next : Node → Option Node) (data : Node → T) :
    Consistent (new dummy next data : Parties Thread Node T) where
  linked := update_self ..
  once := List.nodup_singleton dummy
  head := rfl
  tail := List.mem_singleton_self dummy
  values := rfl
  fresh := exclusive_none
  unlinked := fun _ _ isFresh => nomatch isFresh
  threads := fun _ => trivial

theorem recorded_new (dummy : Node) (next : Node → Option Node) (data : Node → T) :
    Recorded (new dummy next data : Parties Thread Node T) :=
  ⟨accounted_nil, accounted_nil⟩

/-- The queue is a sequential queue: `pushes` and `pops` are what was pushed and popped, and
    what is in it is what was pushed and not popped. -/
structure Linearized (s : Parties Thread Node T) : Prop where
  -- the nodes that can be reached from `_Q_Head`
  reachable : Linked s.queue.next s.nodes
  head : s.nodes.head? = some s.queue.head
  empty : s.Empty ↔ s.nodes.tail = []
  fifo : s.pushes.map Prod.snd = s.pops.map Prod.snd ++ s.nodes.tail.map s.queue.data
  -- each call takes effect once
  pushes : Accounted s.pushes s.completed (Pc.linked ∘ s.threads)
  pops : Accounted s.pops s.returned (Pc.taken ∘ s.threads)
  completed : ∀ thread, ∀ val ∈ s.completed thread,
    (∃ node ∈ s.nodes.tail, s.queue.data node = val) ∨ val ∈ s.pops.map Prod.snd
  assertions : ∀ thread, s.threads thread ≠ .failed

omit [DecidableEq Node] in
theorem Consistent.linearized (inv : Consistent s) (recorded : Recorded s) :
    Linearized s where
  reachable := inv.linked
  head := inv.head
  empty := by
    obtain ⟨rest, nodes⟩ := inv.eq_cons
    have linked := inv.linked
    rw [nodes] at linked ⊢
    constructor
    · intro last
      exact linked.eq_singleton last
    · intro none
      obtain rfl : rest = [] := none
      exact linked
  fifo := inv.values
  pushes := recorded.pushes
  pops := recorded.pops
  completed := fun t val mem => by
    have pushed := recorded.pushes.mem_of_finished mem
    rw [inv.values] at pushed
    obtain popped | waiting := List.mem_append.mp pushed
    · exact .inr popped
    · obtain ⟨n, listed, rfl⟩ := List.mem_map.mp waiting
      exact .inl ⟨n, listed, rfl⟩
  assertions := fun t failed => by
    have known := inv.threads t
    rw [failed] at known
    exact known

/-- In every run, `pop` returns `T()` only if the queue was empty at some moment of the call:
    as long as it is not, no call that was started meanwhile does. -/
theorem lockfree_queue_linearizable (dummy : Node) (next : Node → Option Node) (data : Node → T)
    (s : Parties Thread Node T) (run : Reaches step Allowed (new dummy next data) s) :
    Linearized s ∧
    (∀ later, Reaches step Allowed s later → s.pushes <+: later.pushes ∧ s.pops <+: later.pops) ∧
    ∀ thread called finish, s.step (.pop thread) = some called →
      Reaches step (fun s event => s.Allowed event ∧ ¬ s.Empty) called finish →
      finish.threads thread ≠ .popped none := by
  have consistent : Consistent s :=
    run.invariant (consistent_new dummy next data) fun known allowed stepped =>
      known.step allowed stepped
  have recorded : Recorded s := by
    refine run.invariant (recorded_new dummy next data) fun known _ stepped => ?_
    obtain ⟨_, effect⟩ := effect_of_step stepped
    exact effect.recorded known
  refine ⟨consistent.linearized recorded, fun later rest => ?_,
    fun thread called finish calls segment => ?_⟩
  · refine rest.invariant (motive := fun later =>
      s.pushes <+: later.pushes ∧ s.pops <+: later.pops) ⟨List.prefix_rfl, List.prefix_rfl⟩
      fun known _ stepped => ?_
    obtain ⟨_, effect⟩ := effect_of_step stepped
    exact ⟨known.1.trans effect.extends.1, known.2.trans effect.extends.2⟩
  · have allowed : s.Allowed (.pop thread) := trivial
    have begins : Consistent called := consistent.step allowed calls
    have notSeen : ¬ (called.threads thread).SawEmpty := by
      simp only [step] at calls
      split at calls
      · cases calls
        simp [setPc, Pc.SawEmpty]
      · cases calls
    have never : Consistent finish ∧ ¬ (finish.threads thread).SawEmpty := by
      refine segment.invariant (motive := fun now =>
        Consistent now ∧ ¬ (now.threads thread).SawEmpty) ⟨begins, notSeen⟩
        fun known allowed stepped => ?_
      obtain ⟨_, effect⟩ := effect_of_step stepped
      exact ⟨known.1.step allowed.1 stepped, effect.sawEmpty known.1 allowed.2 known.2⟩
    intro returned
    rw [returned] at never
    exact never.2 trivial

instance [Fintype Thread] (s : Parties Thread Node T) (event : QueueEvent Thread Node T) :
    Decidable (s.Allowed event) :=
  match event with
  | .allocated _ node =>
    inferInstanceAs (Decidable (node ∉ s.nodes ∧ ∀ thread, node ∉ (s.threads thread).pointers))
  | .push _ _ | .pop _ | .thread _ => inferInstanceAs (Decidable True)

/-- One thread has linked the value 5 and not moved the tail yet; the other thread moves it and
    takes the value. -/
theorem lockfree_queue_linearizable_helped : ∃ s : Parties Bool ℕ ℕ,
    Reaches step Allowed (new 0 (fun _ => none) (fun _ => 0)) s ∧
      s.threads false = .swing 1 5 0 ∧ s.threads true = .delete 0 5 ∧ Linearized s := by
  have executed : ∃ s ∈ execute step Allowed
      [.push false 5, .allocated false 1, .thread false, .thread false, .thread false,
        .thread false, .thread false, .thread false,
        .pop true, .thread true, .thread true, .thread true, .thread true, .thread true,
        .thread true, .thread true, .thread true, .thread true, .thread true, .thread true]
      (new 0 (fun _ => none) (fun _ => 0) : Parties Bool ℕ ℕ),
      s.threads false = .swing 1 5 0 ∧ s.threads true = .delete 0 5 := by
    decide +kernel
  obtain ⟨s, run, helped, taken⟩ := exists_reaches_of_execute executed
  exact ⟨s, run, helped, taken, (lockfree_queue_linearizable _ _ _ s run).1⟩

end Contract

end Parties

end Xdk.Lockfree
