import Mathlib.Data.List.Nodup
import Xdk.FastSlab.Constructor
import Xdk.FastSlab.Exclusive

/-! # What the callers of the fast slab allocator may rely on

Below 2^29 blocks, every block has one place at any time, `free` does not panic, and `alloc`
returns `NULL` only when it has found the buffer empty.  With 2^29 blocks or more, the counter
of the producer has begun again at 0 when the constructor is done, and the full buffer looks
empty.
-/

namespace Xdk.FastSlab

open Xdk.Lib Xdk.Nbb Function

def Pc.SawEmpty : Pc → Prop
  | .unlockCons none | .allocated none => True
  | _ => False

namespace Allocator

variable {Thread : Type*} {built : Built} {s s' : Allocator Thread}

section Steps

variable [DecidableEq Thread] {thread : Thread}

/-! ## An empty buffer -/

theorem not_sawEmpty_insertNext (shape : Shape) (ring : Nbb.Parties Nat) (hdr : Nat) :
    ¬ (insertNext shape ring hdr).SawEmpty := by
  simp only [insertNext]
  split
  · split <;> exact id
  · exact id
  · exact id

/-- Only who finds the buffer empty returns nothing. -/
theorem sawEmpty_of_allocStep (step : s.allocStep built thread = some s') :
    ∃ pc, s'.threads = update s.threads thread pc ∧
      (pc.SawEmpty → (s.threads thread).SawEmpty ∨
        s.threads thread = .read ∧ s.ring.consumer = .loadUc ∧
          SymmetricNbb.readCheck s.ring.nbb.lastAc s.ring.nbb.uc ≠ none) := by
  cases allocSteps_of_allocStep step with
  | lock pc free | readEnd pc consumed | leave pc => exact ⟨_, rfl, False.elim⟩
  | read pc consumed =>
    refine ⟨readNext s.ring, rfl, fun saw => .inr ⟨pc, ?_⟩⟩
    simp only [readNext] at saw
    generalize access : s.ring.consumer = here at saw
    cases here with
    | loadUc =>
      refine ⟨rfl, fun passed => ?_⟩
      rw [passed] at saw
      exact saw
    | idle | begin | loadSlot | publish | remember =>
      exact saw.elim
  | @unlock res pc =>
    refine ⟨_, rfl, fun saw => .inl ?_⟩
    rw [pc]
    cases res with
    | none => trivial
    | some block => exact saw

theorem not_sawEmpty_of_freeStep (step : s.freeStep built thread = some s') :
    ∃ pc, s'.threads = update s.threads thread pc ∧ ¬ pc.SawEmpty := by
  cases freeSteps_of_freeStep step with
  | test pc | unlock pc =>
    refine ⟨_, rfl, ?_⟩
    split <;> exact id
  | insert pc produced => exact ⟨_, rfl, not_sawEmpty_insertNext _ _ _⟩
  | null pc | lock pc free | insertEnd pc produced | leave pc => exact ⟨_, rfl, id⟩

theorem sawEmpty_of_step {ev : SlabEvent Thread} (step : s.step built ev = some s') :
    ∃ actor pc, s'.threads = update s.threads actor pc ∧
      (pc.SawEmpty → (s.threads actor).SawEmpty ∨
        s.threads actor = .read ∧ s.ring.consumer = .loadUc ∧
          SymmetricNbb.readCheck s.ring.nbb.lastAc s.ring.nbb.uc ≠ none) := by
  cases ev with
  | alloc thread | free thread block =>
    simp only [Allocator.step] at step
    split at step
    · cases step
      exact ⟨thread, _, rfl, False.elim⟩
    · cases step
  | thread thread =>
    obtain allocates | ⟨_, frees⟩ := Option.or_eq_some_iff.mp step
    · exact ⟨thread, sawEmpty_of_allocStep allocates⟩
    · obtain ⟨pc, threads, notSeen⟩ := not_sawEmpty_of_freeStep frees
      exact ⟨thread, pc, threads, fun saw => absurd saw notSeen⟩

/-- As long as there are blocks in the buffer, a thread does not find it empty. -/
theorem Consistent.notSeen {ev : SlabEvent Thread} {c : Thread}
    (inv : Consistent built s) (ample : Shape.Ample built.shape) (filled : s.pooled ≠ [])
    (notSeen : ¬ (s.threads c).SawEmpty) (step : s.step built ev = some s') :
    ¬ (s'.threads c).SawEmpty := by
  obtain ⟨actor, pc, threads, seen⟩ := sawEmpty_of_step step
  rw [threads]
  by_cases same : c = actor
  · subst same
    rw [update_self]
    intro saw
    obtain before | ⟨_, access, failed⟩ := seen saw
    · exact notSeen before
    · have consumer := inv.lapped.consumer
      rw [access] at consumer
      have some : s.ring.taken.length < s.ring.inserted.length := by
        have len := List.length_pos_of_ne_nil filled
        rw [pooled, List.length_drop] at len
        omega
      exact failed ((inv.lapped.readCheck ample consumer.2).mpr some)
  · rw [update_of_ne same]
    exact notSeen

end Steps

/-! ## The contract -/

/-- Every block that was constructed is in the buffer, on its way or held by one thread. -/
structure BlocksExclusive (built : Built) (s : Allocator Thread) : Prop where
  exactly : (s.pooled ++ s.transit.map Prod.snd ++ s.held.map Prod.snd).Perm built.blocks
  alone : ∀ first second block, (first, block) ∈ s.held → (second, block) ∈ s.held →
    first = second
  carried : ∀ thread block, (s.threads thread).carries = some block → (thread, block) ∈ s.transit
  panics : ∀ thread, s.threads thread ≠ .failed

theorem Consistent.blocksExclusive (inv : Consistent built s)
    (nodup : built.blocks.Nodup) : BlocksExclusive built s where
  exactly := by
    refine List.Perm.trans ?_ inv.conserved
    rw [List.append_assoc, ← List.map_append]
    refine List.Perm.append_left _ (List.Perm.map _ ?_)
    simpa [transit, held] using List.filter_append_perm
      (fun e => (s.threads e.1).carries = some e.2) s.out
  alone := fun first second b isFirst isSecond => by
    have once : (s.out.map Prod.snd).Nodup :=
      (List.nodup_append.mp (inv.conserved.nodup_iff.mpr nodup)).2.1
    have same := List.inj_on_of_nodup_map once (List.mem_of_mem_filter isFirst)
      (List.mem_of_mem_filter isSecond) rfl
    exact congrArg Prod.fst same
  carried := fun t b carries =>
    List.mem_filter.mpr ⟨inv.carried t b carries, decide_eq_true carries⟩
  panics := fun t failed => by
    have known := inv.threads t
    rw [failed] at known
    exact known

theorem consistent_new {params : Params} (created : create params = some built)
    (small : built.blocks.length < 2 ^ 30) : Consistent built (new built : Allocator Thread) := by
  obtain ⟨_, _, stored⟩ := create_stored created small
  have zero : 0 + built.blocks.length = built.blocks.length := Nat.zero_add _
  have uc := stored.uc
  have lastUc := stored.lastUc
  rw [zero] at uc lastUc
  exact
    { lapped :=
        { producer := ⟨uc, lastUc⟩
          consumer := ⟨stored.ac, stored.lastAc⟩
          behind := Nat.zero_le _
          fits := stored.fits.trans (Nat.le_add_left _ _)
          contents := fun position _ inside => by
            have queue : built.blocks =
                window built.shape.size built.nbb.buffer 0 built.blocks.length := stored.queue
            show built.blocks[position]? = some (built.nbb.buffer (position % built.shape.size))
            rw [queue, List.getElem?_eq_getElem (by rwa [length_window]), getElem_window,
              Nat.zero_add] }
      conserved := by simp [pooled, new]
      carried := fun _ => carriesOwn_none rfl
      consumer := fun _ => rfl
      producer := fun _ => rfl
      threads := fun _ => trivial }

variable [DecidableEq Thread]

/-- In every run of any number of threads, also when the counters of the buffer begin again, a
    pool of fewer than 2^29 blocks keeps every block in one place; and as long as there are
    blocks in the buffer, no call of `alloc` that was started meanwhile returns `NULL`. -/
theorem fast_slab_blocks_exclusive {params : Params} (created : create params = some built)
    (small : built.blocks.length < 2 ^ 29) (s : Allocator Thread)
    (run : Reaches (step built) Allowed (new built) s) :
    BlocksExclusive built s ∧
    ∀ thread called finish, s.step built (.alloc thread) = some called →
      Reaches (step built) (fun s event => s.Allowed event ∧ s.pooled ≠ []) called finish →
      finish.threads thread ≠ .allocated none := by
  have below : built.blocks.length < 2 ^ 30 := by omega
  obtain ⟨distinct, shaped, _⟩ := create_stored created below
  have ample := Shape.create_ample shaped small
  have places := (Shape.create_size shaped).1.symm
  have consistent : Consistent built s :=
    run.invariant (consistent_new created below) fun known allowed stepped =>
      known.step ample places allowed stepped
  refine ⟨consistent.blocksExclusive distinct, fun thread called finish calls segment => ?_⟩
  have permitted : s.Allowed (.alloc thread) := trivial
  have begins : Consistent built called := consistent.step ample places permitted calls
  have notSeen : ¬ (called.threads thread).SawEmpty := by
    simp only [step] at calls
    split at calls
    · cases calls
      simp [setPc, Pc.SawEmpty]
    · cases calls
  have never : Consistent built finish ∧ ¬ (finish.threads thread).SawEmpty := by
    refine segment.invariant (motive := fun now =>
      Consistent built now ∧ ¬ (now.threads thread).SawEmpty) ⟨begins, notSeen⟩
      fun known allowed stepped => ?_
    exact ⟨known.1.step ample places allowed.1 stepped,
      known.1.notSeen ample allowed.2 known.2 stepped⟩
  intro returned
  rw [returned] at never
  exact never.2 trivial

instance (s : Allocator Thread) (event : SlabEvent Thread) : Decidable (s.Allowed event) :=
  match event with
  | .free thread (some block) => inferInstanceAs (Decidable ((thread, block) ∈ s.held))
  | .free _ none | .alloc _ | .thread _ => inferInstanceAs (Decidable True)

/-- A pool of two blocks: one thread is giving its block back while the other one is taking the
    second. -/
theorem fast_slab_blocks_exclusive_two : ∃ built, create ⟨4096, 256, 64, 0⟩ = some built ∧
    ∃ s : Allocator Bool, Reaches (step built) Allowed (new built) s ∧
      s.transit = [(false, 4096)] ∧ s.pooled = [4224] ∧ s.ring.consumer = .publish 4224 ∧
      BlocksExclusive built s := by
  have executed : ∃ built ∈ create ⟨4096, 256, 64, 0⟩, built.blocks.length < 2 ^ 29 ∧
      ∃ s ∈ execute (step built) Allowed
        [.alloc false, .thread false, .thread false, .thread false, .thread false, .thread false,
          .thread false, .thread false, .thread false,
          .free false (some 4096), .thread false, .thread false, .thread false, .thread false,
          .alloc true, .thread true, .thread true, .thread true, .thread true]
        (new built : Allocator Bool),
      s.transit = [(false, 4096)] ∧ s.pooled = [4224] ∧ s.ring.consumer = .publish 4224 := by
    decide +kernel
  obtain ⟨built, created, small, run⟩ := executed
  obtain ⟨s, run, transit, pooled, taking⟩ := exists_reaches_of_execute run
  exact ⟨built, created, s, run, transit, pooled, taking,
    (fast_slab_blocks_exclusive created small s run).1⟩

/-! ## A full pool that looks empty -/

/-- From 2^29 blocks on, `_uc` begins again with the last block that the constructor inserts, and
    every call of `alloc` finds the buffer empty. -/
theorem exists_null {params : Params} (created : create params = some built)
    (large : 2 ^ 29 ≤ built.blocks.length) (small : built.blocks.length < 2 ^ 30)
    (t : Thread) :
    ∃ called finish, (new built : Allocator Thread).step built (.alloc t) = some called ∧
      Reaches (step built) (fun s ev => s.Allowed ev ∧ s.pooled = built.blocks)
        called finish ∧
      finish.threads t = .allocated none ∧ finish.pooled = built.blocks := by
  obtain ⟨_, shaped, stored⟩ := create_stored created small
  have once : (2 ^ 32 - 1) / (4 * built.blocks.length) = 1 := by
    rw [Nat.div_eq_iff (by omega)]
    omega
  have half : built.shape.half = built.blocks.length := by
    rw [Shape.create_half shaped small, once, Nat.one_mul]
  have equal : built.nbb.uc = built.nbb.lastAc := by
    have uc : built.nbb.uc = 2 * ((0 + built.blocks.length) % built.shape.half) := stored.uc
    have lastAc : built.nbb.lastAc = 2 * (0 % built.shape.half) := stored.lastAc
    rw [uc, lastAc, half, Nat.zero_add, Nat.mod_self, Nat.zero_mod]
  have check : SymmetricNbb.readCheck built.nbb.lastAc built.nbb.uc = some .empty := if_pos equal
  -- the lock, the test and the return; the pool is not touched
  let start : Allocator Thread := new built
  let called := start.setPc t .lockCons
  let locked : Allocator Thread := { called.setPc t .read with
    ring := { start.ring with consumer := .loadUc }, consLock := some t }
  let tested : Allocator Thread := { locked.setPc t (.unlockCons none) with
    ring := { start.ring with consumer := .idle } }
  let finish : Allocator Thread := { tested.setPc t (.allocated none) with consLock := none }
  have locks : called.step built (.thread t) = some locked := by
    simp only [step, allocStep, called, setPc, update_self]
    rfl
  have tests : locked.step built (.thread t) = some tested := by
    simp only [step, allocStep, locked, setPc, update_self, readNext,
      Parties.consume, start, new, check]
    rfl
  have returns : tested.step built (.thread t) = some finish := by
    simp only [step, allocStep, tested, setPc, update_self]
    rfl
  refine ⟨called, finish, rfl, ?_, update_self .., rfl⟩
  have permitted : ∀ now : Allocator Thread, now.Allowed (.thread t) := fun _ => trivial
  exact .next (.next (.next .refl ⟨permitted _, rfl⟩ locks) ⟨permitted _, rfl⟩ tests)
    ⟨permitted _, rfl⟩ returns

/-- A pool of 2^29 blocks of 64 bytes, with one thread. -/
theorem full_pool_returns_null : ∃ built, create ⟨4096, 2 ^ 36, 64, 0⟩ = some built ∧
    built.blocks.length = 2 ^ 29 ∧ ∃ called finish : Allocator Unit,
      (new built).step built (.alloc ()) = some called ∧
      Reaches (step built) (fun s event => s.Allowed event ∧ s.pooled = built.blocks)
        called finish ∧
      finish.threads () = .allocated none ∧ finish.pooled = built.blocks := by
  obtain ⟨built, created, length⟩ :=
    @exists_create ⟨4096, 2 ^ 36, 64, 0⟩ (2 ^ 29) (by decide) rfl rfl (by decide) (by decide)
  exact ⟨built, created, length, exists_null created (by omega) (by omega) ()⟩

end Allocator

end Xdk.FastSlab
