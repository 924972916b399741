import Mathlib.Algebra.BigOperators.Group.Finset.Piecewise
import Mathlib.Data.Int.ModEq
import Xdk.FastSlab.Contract

/-! # The number of blocks available

`alloc` and `free` count the blocks of the pool in `__num_avail`.  They do so after they have
given their lock back, with a load and a store of their own, so that a thread may store what it
has computed from a value that is no longer there.

The counter is ahead of the pool by the blocks that have been taken and not been counted yet, and
behind it by those that have been given back.  As long as every store finds the value that was
loaded, that is all.
-/

namespace Xdk.FastSlab

open Xdk.Lib Xdk.Nbb Function

/-- The allocator with its counter; `temps` has what a thread has loaded and not stored yet. -/
structure CountedSlab (Thread : Type*) where
  slab : Allocator Thread
  numAvail : Nat
  temps : Thread → Option Nat

def Pc.recount : Pc → Option (Nat → Nat)
  | .allocated (some _) => some fun temp => wrapSub 32 temp 1
  | .freed .ok => some fun temp => wrap 32 (temp + 1)
  | _ => none

def SlabEvent.actor {Thread : Type*} : SlabEvent Thread → Thread
  | .alloc actor | .free actor _ | .thread actor => actor

namespace CountedSlab

variable {Thread : Type*} [DecidableEq Thread]

def new (built : Built) : CountedSlab Thread :=
  ⟨.new built, wrap 32 built.blocks.length, fun _ => none⟩

/-- The next access of a thread: the counter is loaded and stored between the unlocking and the
    return. -/
def access (built : Built) (s : CountedSlab Thread) (thread : Thread) :
    Option (CountedSlab Thread) :=
  match (s.slab.threads thread).recount, s.temps thread with
  | some _, none => some { s with temps := Function.update s.temps thread (some s.numAvail) }
  | some recount, some temp =>
    (s.slab.step built (.thread thread)).map fun slab =>
      ⟨slab, recount temp, Function.update s.temps thread none⟩
  | none, _ => (s.slab.step built (.thread thread)).map fun slab => { s with slab := slab }

def step (built : Built) (s : CountedSlab Thread) :
    SlabEvent Thread → Option (CountedSlab Thread)
  | .alloc thread => (s.slab.step built (.alloc thread)).map fun slab => { s with slab := slab }
  | .free thread block =>
    (s.slab.step built (.free thread block)).map fun slab => { s with slab := slab }
  | .thread thread => s.access built thread

def Allowed (s : CountedSlab Thread) (event : SlabEvent Thread) : Prop := s.slab.Allowed event

def Quiet (s : CountedSlab Thread) : Prop := ∀ thread, s.slab.threads thread = .idle

/-- A thread that is about to store has loaded the value that is still in the counter. -/
def Fresh (s : CountedSlab Thread) (event : SlabEvent Thread) : Prop :=
  ∀ temp ∈ s.temps event.actor, temp = s.numAvail

end CountedSlab

/-! ## What the counter owes to the pool -/

/-- By how much the call of a thread leaves the counter ahead of the pool. -/
def Pc.owed : Pc → Int
  | .readEnd _ | .unlockCons (some _) | .allocated (some _) => 1
  | .insertEnd | .unlockProd none | .freed .ok => -1
  | _ => 0

def Pc.settles : Pc → Int
  | .allocated (some _) => -1
  | .freed .ok => 1
  | _ => 0

variable {pc : Pc}

theorem Pc.recount_modEq {recount : Nat → Nat} (counts : pc.recount = some recount) (temp : Nat) :
    (recount temp : Int) ≡ temp + pc.settles [ZMOD 2 ^ 32] := by
  simp only [Pc.recount] at counts
  split at counts
  · obtain rfl := Option.some.inj counts
    simp only [wrapSub, Pc.settles, Int.ModEq]
    omega
  · obtain rfl := Option.some.inj counts
    simp only [wrap, Pc.settles, Int.ModEq]
    omega
  · cases counts

theorem Pc.recount_lt {recount : Nat → Nat} (counts : pc.recount = some recount) (temp : Nat) :
    recount temp < 2 ^ 32 := by
  simp only [Pc.recount] at counts
  split at counts
  · obtain rfl := Option.some.inj counts
    exact Nat.mod_lt _ (Nat.two_pow_pos 32)
  · obtain rfl := Option.some.inj counts
    exact Nat.mod_lt _ (Nat.two_pow_pos 32)
  · cases counts

theorem Pc.settles_of_recount (counts : pc.recount = none) : pc.settles = 0 := by
  simp only [Pc.recount] at counts
  split at counts
  · cases counts
  · cases counts
  · simp only [Pc.settles]

namespace Allocator

variable {Thread : Type*} [DecidableEq Thread] {built : Built} {s s' : Allocator Thread}
  {thread : Thread}

theorem pooled_setPc (s : Allocator Thread) (t : Thread) (pc : Pc) :
    (s.setPc t pc).pooled = s.pooled := rfl

/-- The pool and what the counter owes to it change together. -/
theorem owed_of_allocStep (inv : s.Consistent built)
    (step : s.allocStep built thread = some s') :
    ∃ pc, s'.threads = update s.threads thread pc ∧
      (s'.pooled.length : Int) + pc.owed =
        s.pooled.length + (s.threads thread).owed + (s.threads thread).settles := by
  have known := inv.threads thread
  cases allocSteps_of_allocStep step with
  | lock pc free =>
    rw [pc]
    exact ⟨_, rfl, rfl⟩
  | read pc consumed =>
    refine ⟨readNext s.ring, rfl, ?_⟩
    rw [pc]
    simp only [Parties.consume] at consumed
    simp only [pooled, Pc.owed, Pc.settles, readNext]
    cases access : s.ring.consumer with
    | loadUc =>
      rw [access] at consumed
      cases consumed
      cases check : SymmetricNbb.readCheck s.ring.nbb.lastAc s.ring.nbb.uc <;> rfl
    | publish header =>
      rw [access] at consumed
      cases consumed
      have consumer := inv.lapped.consumer
      rw [access] at consumer
      obtain ⟨below, _⟩ := List.getElem?_eq_some_iff.mp consumer.2.2
      simp only [List.length_drop, List.length_append, List.length_singleton]
      omega
    | idle =>
      rw [access] at consumed
      cases consumed
    | begin | loadSlot | remember =>
      rw [access] at consumed
      cases consumed
      rfl
  | readEnd pc consumed =>
    rw [pc] at known ⊢
    obtain ⟨owner, access⟩ := known
    simp only [Parties.consume, access] at consumed
    cases consumed
    exact ⟨_, rfl, rfl⟩
  | @unlock res pc =>
    refine ⟨_, rfl, ?_⟩
    rw [pc]
    cases res <;> rfl
  | @leave res pc =>
    refine ⟨_, rfl, ?_⟩
    rw [pc, pooled_setPc]
    cases res <;> simp only [Pc.owed, Pc.settles] <;> omega

theorem owed_of_freeStep (inv : s.Consistent built)
    (step : s.freeStep built thread = some s') :
    ∃ pc, s'.threads = update s.threads thread pc ∧
      (s'.pooled.length : Int) + pc.owed =
        s.pooled.length + (s.threads thread).owed + (s.threads thread).settles := by
  have known := inv.threads thread
  have behind := inv.lapped.behind
  cases freeSteps_of_freeStep step with
  | null pc | lock pc free =>
    rw [pc]
    exact ⟨_, rfl, rfl⟩
  | test pc =>
    refine ⟨_, rfl, ?_⟩
    rw [pc]
    split <;> rfl
  | @insert ring hdr pc produced =>
    refine ⟨insertNext built.shape s.ring hdr, rfl, ?_⟩
    rw [pc]
    simp only [Parties.produce] at produced
    simp only [pooled, Pc.owed, Pc.settles, insertNext]
    generalize access : s.ring.producer = here at produced
    cases here with
    | loadAc x =>
      cases produced
      cases check : SymmetricNbb.insertCheck built.shape s.ring.nbb.lastUc s.ring.nbb.ac <;> rfl
    | publish x =>
      cases produced
      simp only [List.length_drop, List.length_append, List.length_singleton]
      omega
    | idle =>
      cases produced
    | begin x | storeSlot x | remember =>
      cases produced
      rfl
  | insertEnd pc produced =>
    rw [pc] at known ⊢
    obtain ⟨owner, access⟩ := known
    simp only [Parties.produce, access] at produced
    cases produced
    exact ⟨_, rfl, (Int.add_zero _).symm⟩
  | @unlock rejected pc =>
    refine ⟨_, rfl, ?_⟩
    rw [pc]
    cases rejected with
    | none => exact (Int.add_zero _).symm
    | some hdr => rfl
  | @leave status pc =>
    refine ⟨_, rfl, ?_⟩
    rw [pc, pooled_setPc]
    cases status <;> simp only [Pc.owed, Pc.settles] <;> omega

/-- A call begins in a thread that has none, and owes nothing yet. -/
theorem begins_of_step {ev : SlabEvent Thread} (call : ∀ thread, ev ≠ .thread thread)
    (step : s.step built ev = some s') :
    s.threads ev.actor = .idle ∧ ∃ pc : Pc, pc.owed = 0 ∧ s' = s.setPc ev.actor pc := by
  cases ev with
  | thread thread => exact absurd rfl (call thread)
  | alloc thread | free thread block =>
    simp only [Allocator.step] at step
    split at step
    · rename_i idle
      cases step
      exact ⟨idle, _, rfl, rfl⟩
    · cases step

theorem owed_of_step {ev : SlabEvent Thread} (inv : s.Consistent built)
    (step : s.step built ev = some s') :
    ∃ pc, s'.threads = update s.threads ev.actor pc ∧
      (s'.pooled.length : Int) + pc.owed =
        s.pooled.length + (s.threads ev.actor).owed + (s.threads ev.actor).settles := by
  cases ev with
  | alloc thread | free thread block =>
    obtain ⟨idle, pc, nothing, rfl⟩ := begins_of_step (by simp) step
    refine ⟨pc, rfl, ?_⟩
    rw [idle, nothing]
    rfl
  | thread thread =>
    obtain allocates | ⟨_, frees⟩ := Option.or_eq_some_iff.mp step
    · exact owed_of_allocStep inv allocates
    · exact owed_of_freeStep inv frees

end Allocator

namespace CountedSlab

variable {Thread : Type*} [DecidableEq Thread] {built : Built} {s s' : CountedSlab Thread}
  {event : SlabEvent Thread}

/-! ## The steps -/

/-- A thread loads the counter, it stores the counter and returns, or it does something else. -/
theorem step_cases (made : s.step built event = some s') :
    ((s.slab.threads event.actor).recount ≠ none ∧ s.temps event.actor = none ∧
      s' = { s with temps := update s.temps event.actor (some s.numAvail) }) ∨
    (∃ slab recount temp, s.slab.step built event = some slab ∧
      (s.slab.threads event.actor).recount = some recount ∧ s.temps event.actor = some temp ∧
      s' = ⟨slab, recount temp, update s.temps event.actor none⟩) ∨
    ∃ slab, s.slab.step built event = some slab ∧
      (s.slab.threads event.actor).recount = none ∧ s' = { s with slab := slab } := by
  cases event with
  | alloc thread | free thread block =>
    obtain ⟨slab, moved, rfl⟩ := Option.map_eq_some_iff.mp made
    obtain ⟨idle, -⟩ := Allocator.begins_of_step (by simp) moved
    refine .inr (.inr ⟨slab, moved, ?_, rfl⟩)
    rw [idle]
    rfl
  | thread thread =>
    simp only [step, access] at made
    split at made
    · rename_i counts none
      cases made
      exact .inl ⟨by simp [SlabEvent.actor, counts], none, rfl⟩
    · rename_i recount temp counts loaded
      obtain ⟨slab, moved, rfl⟩ := Option.map_eq_some_iff.mp made
      exact .inr (.inl ⟨slab, recount, temp, moved, counts, loaded, rfl⟩)
    · rename_i none
      obtain ⟨slab, moved, rfl⟩ := Option.map_eq_some_iff.mp made
      exact .inr (.inr ⟨slab, moved, none, rfl⟩)

/-! ## The invariant -/

def TempAt (pc : Pc) (temp : Option Nat) : Prop :=
  ∀ value ∈ temp, pc.recount ≠ none ∧ value < 2 ^ 32

structure Tallied (built : Built) (s : CountedSlab Thread) : Prop where
  consistent : s.slab.Consistent built
  temps : ∀ thread, TempAt (s.slab.threads thread) (s.temps thread)
  fits : s.numAvail < 2 ^ 32

omit [DecidableEq Thread] in
theorem tallied_new {params : Params} (created : create params = some built)
    (small : built.blocks.length < 2 ^ 30) : Tallied built (new built : CountedSlab Thread) where
  consistent := Allocator.consistent_new created small
  temps := fun _ _ loaded => by cases loaded
  fits := Nat.mod_lt _ (Nat.two_pow_pos 32)

theorem Tallied.step (tallied : Tallied built s) (ample : Shape.Ample built.shape)
    (places : built.blocks.length = built.shape.size) (ok : s.Allowed event)
    (step : s.step built event = some s') : Tallied built s' := by
  obtain ⟨counts, _, rfl⟩ | ⟨slab, recount, temp, moved, counts, _, rfl⟩ |
    ⟨slab, moved, none, rfl⟩ := step_cases step
  · refine { tallied with temps := ?_ }
    refine (forall_update_iff s.temps fun t =>
      TempAt (s.slab.threads t)).mpr ⟨?_, fun o _ => tallied.temps o⟩
    rintro _ ⟨⟩
    exact ⟨counts, tallied.fits⟩
  · obtain ⟨pc, threads, _⟩ := Allocator.owed_of_step tallied.consistent moved
    refine ⟨tallied.consistent.step ample places ok moved, ?_, Pc.recount_lt counts temp⟩
    refine (forall_update_iff s.temps fun t =>
      TempAt (slab.threads t)).mpr ⟨nofun, fun o ne => ?_⟩
    rw [threads, update_of_ne ne]
    exact tallied.temps o
  · obtain ⟨pc, threads, _⟩ := Allocator.owed_of_step tallied.consistent moved
    refine ⟨tallied.consistent.step ample places ok moved, ?_, tallied.fits⟩
    simp only [threads]
    refine (forall_update_iff s.slab.threads fun t pc =>
      TempAt pc (s.temps t)).mpr ⟨?_, fun o _ => tallied.temps o⟩
    exact fun v loaded => absurd none (tallied.temps event.actor v loaded).1

section Counter

variable [Fintype Thread]

/-- The counter is ahead of the pool by what the calls in progress have not counted yet, as far as
    32 bits can tell. -/
def Accurate (s : CountedSlab Thread) : Prop :=
  (s.numAvail : Int) ≡
    s.slab.pooled.length + ∑ thread, (s.slab.threads thread).owed [ZMOD 2 ^ 32]

theorem sum_owed_update (threads : Thread → Pc) (t : Thread) (pc : Pc) :
    ∑ o, (update threads t pc o).owed + (threads t).owed =
      ∑ o, (threads o).owed + pc.owed := by
  have moved : (fun o => (update threads t pc o).owed) =
      update (fun o => (threads o).owed) t pc.owed :=
    comp_update Pc.owed threads t pc
  have rest := Finset.add_sum_erase Finset.univ (fun o => (threads o).owed)
    (Finset.mem_univ t)
  rw [moved, Finset.sum_update_of_mem (Finset.mem_univ t), Finset.sdiff_singleton_eq_erase]
  omega

/-- What a step of the allocator adds to the pool and the calls in progress. -/
theorem pooled_add_owed {slab : Allocator Thread} (inv : s.slab.Consistent built)
    (moved : s.slab.step built event = some slab) :
    (slab.pooled.length : Int) + ∑ thread, (slab.threads thread).owed =
      s.slab.pooled.length + ∑ thread, (s.slab.threads thread).owed +
        (s.slab.threads event.actor).settles := by
  obtain ⟨pc, threads, change⟩ := Allocator.owed_of_step inv moved
  have sum := sum_owed_update s.slab.threads event.actor pc
  rw [← threads] at sum
  omega

/-- A step keeps the counter accurate exactly if it does not store what it has computed from a
    value that is no longer there. -/
theorem Accurate.step_iff (accurate : s.Accurate) (tallied : Tallied built s)
    (step : s.step built event = some s') : s'.Accurate ↔ s.Fresh event := by
  have temps := tallied.temps event.actor
  obtain ⟨_, none, rfl⟩ | ⟨slab, recount, temp, moved, counts, loaded, rfl⟩ |
    ⟨slab, moved, none, rfl⟩ := step_cases step
  · refine iff_of_true accurate fun temp loaded => ?_
    rw [none] at loaded
    cases loaded
  · have total := pooled_add_owed tallied.consistent moved
    have stored := Pc.recount_modEq counts temp
    have fits := tallied.fits
    have short := (temps temp loaded).2
    have fresh : s.Fresh event ↔ temp = s.numAvail := by
      rw [Fresh, loaded]
      exact ⟨fun all => all temp rfl, fun same _ found => (Option.some.inj found) ▸ same⟩
    rw [fresh]
    simp only [Accurate, Int.ModEq] at accurate stored ⊢
    omega
  · have total := pooled_add_owed tallied.consistent moved
    rw [Pc.settles_of_recount none, Int.add_zero] at total
    refine iff_of_true ?_ fun temp loaded => absurd none (temps temp loaded).1
    rw [Accurate, total]
    exact accurate

omit [DecidableEq Thread] in
theorem accurate_new (built : Built) : (new built : CountedSlab Thread).Accurate := by
  have idle : ∑ thread : Thread, ((new built).slab.threads thread).owed = 0 :=
    Finset.sum_eq_zero fun _ _ => rfl
  have pool : ((new built : CountedSlab Thread).slab.pooled.length : Int) =
      built.blocks.length := by
    simp [new, Allocator.pooled, Allocator.new]
  rw [Accurate, idle, pool, Int.add_zero]
  simp only [new, wrap, Int.ModEq]
  omega

omit [DecidableEq Thread] in
/-- Between the calls the counter is the number of blocks in the pool, and the others are held. -/
theorem Accurate.numAvail_eq (accurate : s.Accurate) (tallied : Tallied built s)
    (few : built.blocks.length < 2 ^ 32) (quiet : s.Quiet) :
    s.numAvail = s.slab.pooled.length ∧
      s.numAvail + s.slab.held.length = built.blocks.length := by
  have none : ∑ t, (s.slab.threads t).owed = 0 :=
    Finset.sum_eq_zero fun t _ => by
      rw [quiet t]
      rfl
  have total := tallied.consistent.conserved.length_eq
  have held : s.slab.held = s.slab.out := by
    refine List.filter_eq_self.mpr fun e _ => ?_
    simp [quiet e.1, Pc.carries]
  have fits := tallied.fits
  rw [List.length_append, List.length_map] at total
  rw [Accurate, none, Int.add_zero, Int.ModEq] at accurate
  rw [held]
  omega

end Counter

/-- As long as every store finds the value that its thread has loaded, the counter of a pool of
    fewer than 2^29 blocks is the number of blocks in the pool whenever no call is in progress;
    and the first store that finds another value makes the counter wrong. -/
theorem num_avail_accurate [Fintype Thread] {params : Params}
    (created : create params = some built) (small : built.blocks.length < 2 ^ 29)
    (run : Reaches (step built) (fun s event => s.Allowed event ∧ s.Fresh event) (new built) s) :
    (s.Quiet → s.numAvail = s.slab.pooled.length ∧
      s.numAvail + s.slab.held.length = built.blocks.length) ∧
    s.Accurate ∧
    ∀ event s', s.step built event = some s' → (s'.Accurate ↔ s.Fresh event) := by
  obtain ⟨_, shaped, _⟩ := create_stored created (by omega)
  have ample := Shape.create_ample shaped small
  have places := (Shape.create_size shaped).1.symm
  have known : Tallied built s ∧ s.Accurate :=
    run.invariant (motive := fun s => Tallied built s ∧ s.Accurate)
      ⟨tallied_new created (by omega), accurate_new built⟩ fun known allowed stepped =>
      ⟨known.1.step ample places allowed.1 stepped,
        (known.2.step_iff known.1 stepped).mpr allowed.2⟩
  obtain ⟨tallied, accurate⟩ := known
  refine ⟨fun quiet => accurate.numAvail_eq tallied (by omega) quiet, accurate, ?_⟩
  exact fun event s' stepped => accurate.step_iff tallied stepped

instance (s : CountedSlab Thread) (event : SlabEvent Thread) : Decidable (s.Allowed event) :=
  inferInstanceAs (Decidable (s.slab.Allowed event))

instance (s : CountedSlab Thread) (event : SlabEvent Thread) : Decidable (s.Fresh event) :=
  inferInstanceAs (Decidable (∀ temp ∈ s.temps event.actor, temp = s.numAvail))

instance [Fintype Thread] (s : CountedSlab Thread) : Decidable s.Quiet :=
  inferInstanceAs (Decidable (∀ thread, s.slab.threads thread = .idle))

/-- One of the two blocks of a pool is handed out. -/
theorem num_avail_accurate_one : ∃ built, create ⟨4096, 256, 64, 0⟩ = some built ∧
    ∃ s : CountedSlab Bool,
      Reaches (step built) (fun s event => s.Allowed event ∧ s.Fresh event) (new built) s ∧
      s.Quiet ∧ s.slab.held = [(false, 4096)] ∧ s.numAvail = s.slab.pooled.length := by
  have executed : ∃ built ∈ create ⟨4096, 256, 64, 0⟩, built.blocks.length < 2 ^ 29 ∧
      ∃ s ∈ execute (step built) (fun s event => s.Allowed event ∧ s.Fresh event)
        (.alloc false :: List.replicate 9 (.thread false)) (new built : CountedSlab Bool),
      s.Quiet ∧ s.slab.held = [(false, 4096)] := by
    decide +kernel
  obtain ⟨built, created, small, run⟩ := executed
  obtain ⟨s, run, quiet, held⟩ := exists_reaches_of_execute run
  exact ⟨built, created, s, run, quiet, held, ((num_avail_accurate created small run).1 quiet).1⟩

/-- Two threads take the two blocks of a pool.  Both load the 2 before one of them stores its 1,
    and the counter stays at 1. -/
theorem num_avail_lost_update : ∃ built, create ⟨4096, 256, 64, 0⟩ = some built ∧
    ∃ s : CountedSlab Bool, Reaches (step built) Allowed (new built) s ∧ s.Quiet ∧
      s.slab.pooled = [] ∧ s.slab.held = [(false, 4096), (true, 4224)] ∧ s.numAvail = 1 := by
  have executed : ∃ built ∈ create ⟨4096, 256, 64, 0⟩,
      ∃ s ∈ execute (step built) Allowed
        (.alloc false :: List.replicate 8 (.thread false) ++
          .alloc true :: List.replicate 8 (.thread true) ++ [.thread false, .thread true])
        (new built : CountedSlab Bool),
      s.Quiet ∧ s.slab.pooled = [] ∧ s.slab.held = [(false, 4096), (true, 4224)] ∧
        s.numAvail = 1 := by
    decide +kernel
  obtain ⟨built, created, run⟩ := executed
  obtain ⟨s, run, facts⟩ := exists_reaches_of_execute run
  exact ⟨built, created, s, run, facts⟩

end CountedSlab

end Xdk.FastSlab
