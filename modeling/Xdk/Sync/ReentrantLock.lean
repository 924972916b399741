import Mathlib.Algebra.Group.Nat.Defs
import Mathlib.Logic.Function.Basic
import Xdk.Lib.Transition

/-! # The reentrant lock

`Reentrant_lock_tmpl<T>` puts an owner and a count of the nested calls on top of a lock `T`.
Threads run `lock` and `unlock` one access at a time; `T` is any correct lock, of which only
the holder is of interest.

A thread that finds itself in `_owner` takes the lock for its own and does not go through
`T`.  While it holds the lock that is right.  But `unlock` gives `T` back and leaves `_owner`
as it is, so a thread that comes back may find itself there when the lock is free, or is
just being taken by another thread.  In runs in which this does not happen, everything is
told by the holder of `T`: it alone is past its call of `T::lock`, it is the owner, and
`_ref_count` is the number of its nested calls.
-/

namespace Xdk.Sync

open Xdk.Lib Function

inductive LockPc where
  | idle
  -- `lock`: the test of `_owner`, `_ref_count++`, and the way through `T`
  | ownerTest
  | countLoad
  | countStore (value : Nat)
  | baseLock
  | ownerStore
  | countAssert
  -- `unlock`: the test of `_owner` and of `_ref_count`, `_ref_count--`, and `T::unlock`
  | ownerCheck
  | countCheck
  | downLoad
  | downStore (value : Nat)
  | baseUnlock
  deriving DecidableEq, Repr

/-- The lock, the thread that holds its base `T`, and the threads.  `depth` counts for each
    thread the calls of `lock` that have returned, less the calls of `unlock` begun. -/
structure ReentrantLock (Thread : Type*) where
  owner : Option Thread
  refCount : Nat
  base : Option Thread
  pc : Thread → LockPc
  depth : Thread → Nat

inductive LockEvent (Thread : Type*) where
  | lock (thread : Thread)
  | unlock (thread : Thread)
  -- the next access
  | access (thread : Thread)
  deriving DecidableEq

def LockPc.Outside : LockPc → Prop
  | .idle | .ownerTest | .baseLock => True
  | _ => False

namespace ReentrantLock

variable {Thread : Type*} [DecidableEq Thread]

def init : ReentrantLock Thread := ⟨none, 0, none, fun _ => .idle, fun _ => 0⟩

def goto (s : ReentrantLock Thread) (thread : Thread) (pc : LockPc) : ReentrantLock Thread :=
  { s with pc := Function.update s.pc thread pc }

def locked (s : ReentrantLock Thread) (thread : Thread) : ReentrantLock Thread :=
  { s.goto thread .idle with depth := Function.update s.depth thread (s.depth thread + 1) }

/-- The next access of a thread; `none` means that it waits for `T`, that its assertion
    fails, or that it is in neither function. -/
def access (s : ReentrantLock Thread) (thread : Thread) : Option (ReentrantLock Thread) :=
  match s.pc thread with
  | .idle => none
  | .ownerTest => some (s.goto thread (if s.owner = some thread then .countLoad else .baseLock))
  | .countLoad => some (s.goto thread (.countStore s.refCount))
  | .countStore value => some { s.locked thread with refCount := (value + 1) % 2 ^ 32 }
  | .baseLock =>
    if s.base = none then some { s.goto thread .ownerStore with base := some thread } else none
  | .ownerStore => some { s.goto thread .countAssert with owner := some thread }
  | .countAssert => if s.refCount = 0 then some (s.locked thread) else none
  -- otherwise `E_INVAL` is returned
  | .ownerCheck => some (s.goto thread (if s.owner = some thread then .countCheck else .idle))
  | .countCheck => some (s.goto thread (if 0 < s.refCount then .downLoad else .baseUnlock))
  | .downLoad => some (s.goto thread (.downStore s.refCount))
  | .downStore value =>
    some { s.goto thread .idle with refCount := (value + (2 ^ 32 - 1)) % 2 ^ 32 }
  | .baseUnlock => some { s.goto thread .idle with base := none }

/-- A thread calls one of the two functions, and `unlock` only as often as `lock` has
    returned; or it makes its next access. -/
def step (s : ReentrantLock Thread) : LockEvent Thread → Option (ReentrantLock Thread)
  | .lock thread => if s.pc thread = .idle then some (s.goto thread .ownerTest) else none
  | .unlock thread =>
    if s.pc thread = .idle ∧ 0 < s.depth thread then
      some { s.goto thread .ownerCheck with
        depth := Function.update s.depth thread (s.depth thread - 1) }
    else none
  | .access thread => s.access thread

def Holds (s : ReentrantLock Thread) (thread : Thread) : Prop := 0 < s.depth thread

def Inside (s : ReentrantLock Thread) (thread : Thread) : Prop := s.pc thread ≠ .idle

/-- A thread that does not hold the lock does not find itself in `_owner`, and the count of
    nested calls does not overflow. -/
def fresh (s : ReentrantLock Thread) : LockEvent Thread → Bool
  | .lock _ | .unlock _ => true
  | .access thread =>
    match s.pc thread with
    | .ownerTest => 0 < s.depth thread || s.owner ≠ some thread
    | .countStore value => value + 1 < 2 ^ 32
    | _ => true

/-! ## The holder of the base lock -/

/-- What is true of the thread that holds the base lock, by its next access. -/
def Possession (owner : Option Thread) (refCount : Nat) (thread : Thread) (depth : Nat) :
    LockPc → Prop
  | .idle | .ownerTest | .countLoad => owner = some thread ∧ depth = refCount + 1
  | .countStore value => owner = some thread ∧ depth = refCount + 1 ∧ value = refCount
  | .baseLock => False
  | .ownerStore => depth = 0 ∧ refCount = 0
  | .countAssert | .baseUnlock => owner = some thread ∧ depth = 0 ∧ refCount = 0
  | .ownerCheck | .countCheck => owner = some thread ∧ depth = refCount
  | .downLoad => owner = some thread ∧ depth = refCount ∧ 0 < refCount
  | .downStore value => owner = some thread ∧ depth = refCount ∧ 0 < refCount ∧ value = refCount

structure Orderly (s : ReentrantLock Thread) : Prop where
  possession : ∀ thread, s.base = some thread →
    Possession s.owner s.refCount thread (s.depth thread) (s.pc thread)
  outside : ∀ thread, s.base ≠ some thread → s.depth thread = 0 ∧ (s.pc thread).Outside
  free : s.base = none → s.refCount = 0
  bound : s.refCount < 2 ^ 32

omit [DecidableEq Thread] in
theorem orderly_init : Orderly (init : ReentrantLock Thread) :=
  ⟨nofun, fun _ _ => ⟨rfl, trivial⟩, fun _ => rfl, Nat.two_pow_pos 32⟩

section Steps

variable {s s' : ReentrantLock Thread} {thread : Thread}

omit [DecidableEq Thread] in
/-- The holder of the base lock acts, and keeps it. -/
theorem Orderly.act (orderly : Orderly s) (base : s.base = some thread)
    (keeps : s'.base = some thread)
    (others : ∀ o ≠ thread, s'.depth o = s.depth o ∧ s'.pc o = s.pc o)
    (possession : Possession s'.owner s'.refCount thread (s'.depth thread) (s'.pc thread))
    (lt : s'.refCount < 2 ^ 32) : Orderly s' := by
  refine ⟨fun holder holds => ?_, fun o notHolder => ?_, fun free => ?_, lt⟩
  · obtain rfl : thread = holder := Option.some.inj (keeps.symm.trans holds)
    exact possession
  · have ne : o ≠ thread := by
      rintro rfl
      exact notHolder keeps
    obtain ⟨depth, pc⟩ := others o ne
    rw [depth, pc]
    exact orderly.outside o fun holds => ne (Option.some.inj (holds.symm.trans base))
  · cases keeps.symm.trans free

section

variable (orderly : Orderly s)
include orderly

/-- Another thread moves, and does not get the base lock. -/
theorem Orderly.move {pc : LockPc} (notHolder : s.base ≠ some thread) (outside : pc.Outside) :
    Orderly (s.goto thread pc) := by
  refine ⟨fun holder holds => ?_, fun o notHolder' => ?_, orderly.free, orderly.bound⟩
  · have ne : holder ≠ thread := by
      rintro rfl
      exact notHolder holds
    simp only [goto, update_of_ne ne]
    exact orderly.possession holder holds
  · by_cases same : o = thread
    · subst same
      simp only [goto, update_self]
      exact ⟨(orderly.outside o notHolder).1, outside⟩
    · simp only [goto, update_of_ne same]
      exact orderly.outside o notHolder'

theorem Orderly.lock (made : s.step (.lock thread) = some s') : Orderly s' := by
  simp only [step] at made
  split at made
  · rename_i idle
    cases made
    by_cases base : s.base = some thread
    · have possession := orderly.possession thread base
      rw [idle] at possession
      refine orderly.act base base (fun other ne => ⟨rfl, ?_⟩) ?_ orderly.bound
      · exact update_of_ne ne _ _
      · simp only [goto, update_self]
        exact possession
    · exact orderly.move base trivial
  · cases made

theorem Orderly.unlock (made : s.step (.unlock thread) = some s') : Orderly s' := by
  simp only [step] at made
  split at made
  · rename_i ok
    obtain ⟨idle, holds⟩ := ok
    cases made
    by_cases base : s.base = some thread
    · have possession := orderly.possession thread base
      rw [idle] at possession
      obtain ⟨o, depth⟩ := possession
      refine orderly.act base base (fun other ne => ?_) ?_ orderly.bound
      · exact ⟨update_of_ne ne _ _, update_of_ne ne _ _⟩
      · simp only [goto, update_self, depth]
        exact ⟨o, rfl⟩
    · have nothing := (orderly.outside thread base).1
      omega
  · cases made

/-- The holder of the base lock goes on to another access. -/
theorem Orderly.goto_act {pc : LockPc} (base : s.base = some thread)
    (possession : Possession s.owner s.refCount thread (s.depth thread) pc) :
    Orderly (s.goto thread pc) := by
  refine orderly.act base base (fun other ne => ⟨rfl, ?_⟩) ?_ orderly.bound
  · exact update_of_ne ne _ _
  · simp only [goto, update_self]
    exact possession

theorem Orderly.access_holder (base : s.base = some thread)
    (fresh : s.fresh (.access thread) = true) (step : s.access thread = some s') : Orderly s' := by
  have possession := orderly.possession thread base
  have lt := orderly.bound
  simp only [ReentrantLock.access] at step
  simp only [ReentrantLock.fresh] at fresh
  generalize pc : s.pc thread = here at step possession fresh
  cases here with
  | idle =>
    cases step
  | ownerTest | ownerCheck =>
    cases step
    rw [if_pos possession.1]
    exact orderly.goto_act base possession
  | countLoad =>
    cases step
    exact orderly.goto_act base ⟨possession.1, possession.2, rfl⟩
  | countStore v =>
    obtain ⟨owner, depth, rfl⟩ := possession
    have small : s.refCount + 1 < 2 ^ 32 := of_decide_eq_true fresh
    dsimp only at step
    rw [Nat.mod_eq_of_lt small] at step
    cases step
    refine orderly.act base base (fun o ne => ?_) ?_ small
    · exact ⟨update_of_ne ne _ _, update_of_ne ne _ _⟩
    · simp only [locked, goto, update_self, depth]
      exact ⟨owner, rfl⟩
  | baseLock =>
    cases possession
  | ownerStore =>
    cases step
    refine orderly.act base base (fun o ne => ⟨rfl, ?_⟩) ?_ lt
    · exact update_of_ne ne _ _
    · simp only [goto, update_self]
      exact ⟨rfl, possession⟩
  | countAssert =>
    obtain ⟨owner, depth, count⟩ := possession
    rw [if_pos count] at step
    cases step
    refine orderly.act base base (fun o ne => ?_) ?_ lt
    · exact ⟨update_of_ne ne _ _, update_of_ne ne _ _⟩
    · simp only [locked, goto, update_self, depth, count]
      exact ⟨owner, rfl⟩
  | countCheck =>
    obtain ⟨owner, depth⟩ := possession
    cases step
    split
    · exact orderly.goto_act base ⟨owner, depth, ‹_›⟩
    · have last : s.refCount = 0 := by omega
      exact orderly.goto_act base ⟨owner, depth.trans last, last⟩
  | downLoad =>
    cases step
    exact orderly.goto_act base ⟨possession.1, possession.2.1, possession.2.2, rfl⟩
  | downStore v =>
    obtain ⟨owner, depth, pos, rfl⟩ := possession
    have down : (s.refCount + (2 ^ 32 - 1)) % 2 ^ 32 = s.refCount - 1 := by omega
    dsimp only at step
    rw [down] at step
    cases step
    refine orderly.act base base (fun o ne => ⟨rfl, ?_⟩) ?_ ?_
    · exact update_of_ne ne _ _
    · simp only [goto, update_self, depth]
      exact ⟨owner, (Nat.sub_add_cancel pos).symm⟩
    · dsimp only
      omega
  | baseUnlock =>
    obtain ⟨owner, depth, count⟩ := possession
    cases step
    refine ⟨nofun, fun o _ => ?_, fun _ => count, lt⟩
    by_cases same : o = thread
    · subst same
      simp only [goto, update_self]
      exact ⟨depth, trivial⟩
    · simp only [goto, update_of_ne same]
      exact orderly.outside o fun holds => same (Option.some.inj (holds.symm.trans base))

theorem Orderly.access_other (notHolder : s.base ≠ some thread)
    (fresh : s.fresh (.access thread) = true) (step : s.access thread = some s') : Orderly s' := by
  obtain ⟨depth, outside⟩ := orderly.outside thread notHolder
  simp only [ReentrantLock.access] at step
  simp only [ReentrantLock.fresh] at fresh
  generalize pc : s.pc thread = access at step fresh outside
  cases access with
  | idle =>
    cases step
  | ownerTest =>
    cases step
    have notOwner : s.owner ≠ some thread := by simpa [depth] using fresh
    rw [if_neg notOwner]
    exact orderly.move notHolder trivial
  | baseLock =>
    dsimp only at step
    split at step
    · rename_i free
      cases step
      refine ⟨fun holder holds => ?_, fun o notHolder' => ?_, nofun, orderly.bound⟩
      · obtain rfl : thread = holder := Option.some.inj holds
        simp only [goto, update_self]
        exact ⟨depth, orderly.free free⟩
      · have ne : o ≠ thread := by
          rintro rfl
          exact notHolder' rfl
        simp only [goto, update_of_ne ne]
        exact orderly.outside o (by simp [free])
    · cases step
  | countLoad | countStore | ownerStore | countAssert | ownerCheck | countCheck | downLoad
  | downStore | baseUnlock =>
    cases outside

end

end Steps

theorem Reaches.orderly {s : ReentrantLock Thread}
    (run : Reaches step (fun s ev => s.fresh ev = true) init s) : Orderly s := by
  refine run.invariant orderly_init ?_
  intro before after ev orderly fresh made
  cases ev with
  | lock t => exact orderly.lock made
  | unlock t => exact orderly.unlock made
  | access t =>
    by_cases base : before.base = some t
    · exact orderly.access_holder base fresh made
    · exact orderly.access_other base fresh made

/-- The contract of the lock in a state: no two threads hold it, whoever holds it has the
    base lock, and whoever has the base lock holds it or is inside `lock` or `unlock`. -/
structure Exclusive (s : ReentrantLock Thread) : Prop where
  exclusion : ∀ first second, s.Holds first → s.Holds second → first = second
  base_of_holds : ∀ thread, s.Holds thread → s.base = some thread
  of_base : ∀ thread, s.base = some thread → s.Holds thread ∨ s.Inside thread

theorem Orderly.exclusive {s : ReentrantLock Thread} (orderly : Orderly s) : Exclusive s := by
  have base_of_holds : ∀ thread, s.Holds thread → s.base = some thread := by
    intro thread holds
    by_contra notHolder
    have nothing := (orderly.outside thread notHolder).1
    rw [Holds, nothing] at holds
    cases holds
  refine ⟨fun a b holds holds' => ?_, base_of_holds, fun thread base => ?_⟩
  · exact Option.some.inj ((base_of_holds a holds).symm.trans (base_of_holds b holds'))
  · by_cases idle : s.pc thread = .idle
    · have possession := orderly.possession thread base
      rw [idle] at possession
      exact .inl (by rw [Holds, possession.2]; exact Nat.succ_pos _)
    · exact .inr idle

/-! ## Steps that are not fresh -/

def Breakable (s : ReentrantLock Thread) : Prop :=
  ∃ s', Reaches step (fun _ _ => True) s s' ∧ ¬ Exclusive s'

section Broken

variable {s s' : ReentrantLock Thread} {thread : Thread}

theorem Breakable.of_step {ev : LockEvent Thread} (step : s.step ev = some s')
    (breakable : s'.Breakable) : s.Breakable := by
  obtain ⟨broken, run, notExclusive⟩ := breakable
  exact ⟨broken, (Reaches.next .refl trivial step).trans run, notExclusive⟩

theorem breakable_of_holds (holds : s.Holds thread) (notBase : s.base ≠ some thread) :
    s.Breakable :=
  ⟨s, .refl, fun exclusive => notBase (exclusive.base_of_holds thread holds)⟩

/-- A thread that takes itself for the owner ends up holding the lock, with the base lock
    or without. -/
theorem breakable_of_countLoad (pc : s.pc thread = .countLoad)
    (notBase : s.base ≠ some thread) : s.Breakable := by
  have load : s.step (.access thread) = some (s.goto thread (.countStore s.refCount)) := by
    simp only [step, access, pc]
  have store : (s.goto thread (.countStore s.refCount)).step (.access thread) =
      some { (s.goto thread (.countStore s.refCount)).locked thread with
        refCount := (s.refCount + 1) % 2 ^ 32 } := by
    simp only [step, access, goto, update_self]
  refine .of_step load (.of_step store (@breakable_of_holds _ _ _ thread ?_ notBase))
  simp [Holds, locked]

/-- A thread whose nested calls are counted as none gives the base lock back too early. -/
theorem breakable_of_ownerCheck (pc : s.pc thread = .ownerCheck)
    (owner : s.owner = some thread) (count : s.refCount = 0) (holds : s.Holds thread) :
    s.Breakable := by
  have check : s.step (.access thread) = some (s.goto thread .countCheck) := by
    simp only [step, access, pc, owner, if_true]
  have zero : (s.goto thread .countCheck).step (.access thread) =
      some ((s.goto thread .countCheck).goto thread .baseUnlock) := by
    simp [step, access, goto, count]
  have release : ((s.goto thread .countCheck).goto thread .baseUnlock).step (.access thread) =
      some { ((s.goto thread .countCheck).goto thread .baseUnlock).goto thread .idle with
        base := none } := by
    simp only [step, access, goto, update_self]
  exact .of_step check (.of_step zero (.of_step release
    (@breakable_of_holds _ _ _ thread holds nofun)))

/-- After a step that is not fresh the contract can be broken. -/
theorem Orderly.breakable (orderly : Orderly s) {ev : LockEvent Thread}
    (notFresh : s.fresh ev = false) (made : s.step ev = some s') : s'.Breakable := by
  cases ev with
  | lock | unlock => cases notFresh
  | access thread =>
    simp only [step, access] at made
    simp only [fresh] at notFresh
    cases pc : s.pc thread with
    | ownerTest =>
      rw [pc] at made notFresh
      obtain ⟨depth, o⟩ : s.depth thread = 0 ∧ s.owner = some thread := by
        simpa using notFresh
      have notBase : s.base ≠ some thread := by
        intro base
        have possession := orderly.possession thread base
        rw [pc] at possession
        obtain ⟨_, nested⟩ := possession
        omega
      rw [if_pos o] at made
      cases made
      exact breakable_of_countLoad (update_self _ _ _) notBase
    | countStore value =>
      rw [pc] at made notFresh
      have base : s.base = some thread := by
        by_contra notBase
        have outside := (orderly.outside thread notBase).2
        rw [pc] at outside
        cases outside
      have possession := orderly.possession thread base
      rw [pc] at possession
      obtain ⟨o, depth, rfl⟩ := possession
      have bound := orderly.bound
      have large : ¬ s.refCount + 1 < 2 ^ 32 := of_decide_eq_false notFresh
      have wrapped : (s.refCount + 1) % 2 ^ 32 = 0 := by
        rw [show s.refCount + 1 = 2 ^ 32 by omega, Nat.mod_self]
      dsimp only at made
      rw [wrapped] at made
      cases made
      -- the next `unlock` takes the count for that of the last call
      have call : step { s.locked thread with refCount := 0 } (.unlock thread) =
          some { goto { s.locked thread with refCount := 0 } thread .ownerCheck with
            depth := update (s.locked thread).depth thread
              ((s.locked thread).depth thread - 1) } := by
        simp [step, locked, goto]
      refine .of_step call (breakable_of_ownerCheck (update_self _ _ _) o rfl ?_)
      simp [Holds, locked, depth]
    | idle | countLoad | baseLock | ownerStore | countAssert | ownerCheck | countCheck
    | downLoad | downStore | baseUnlock =>
      rw [pc] at notFresh
      cases notFresh

end Broken

/-- For any threads, in every run in which no thread finds itself in `_owner` without
    holding the lock and the count of nested calls does not overflow, the lock keeps its
    contract; after the first step that is not such, it can be broken. -/
theorem reentrant_lock_exclusive {s : ReentrantLock Thread}
    (run : Reaches step (fun s event => s.fresh event = true) init s) :
    Exclusive s ∧ ∀ event s', s.fresh event = false → s.step event = some s' → s'.Breakable := by
  have orderly := Reaches.orderly run
  exact ⟨orderly.exclusive, fun _ _ notFresh stepped => orderly.breakable notFresh stepped⟩

/-- One of two threads takes the lock twice. -/
theorem reentrant_lock_exclusive_nested :
    ∃ s : ReentrantLock Bool,
      Reaches step (fun s event => s.fresh event = true) init s ∧ s.depth true = 2 ∧
        Exclusive s := by
  have executed : ∃ s ∈ execute step (fun (s : ReentrantLock Bool) event => s.fresh event = true)
      [.lock true, .access true, .access true, .access true, .access true,
        .lock true, .access true, .access true, .access true] init, s.depth true = 2 := by
    decide +kernel
  obtain ⟨s, run, depth⟩ := exists_reaches_of_execute executed
  exact ⟨s, run, depth, (reentrant_lock_exclusive run).1⟩

/-- A thread that has locked and unlocked comes back, finds itself in `_owner`, and
    increments the count after another thread has taken the lock: both hold it. -/
theorem reentrant_lock_held_by_two :
    ∃ s : ReentrantLock Bool,
      Reaches step (fun _ _ => True) init s ∧ s.Holds true ∧ s.Holds false := by
  have executed : ∃ s ∈ execute step (fun (_ : ReentrantLock Bool) _ => True)
      [.lock true, .access true, .access true, .access true, .access true,
        .unlock true, .access true, .access true, .access true,
        .lock true, .access true,
        .lock false, .access false, .access false, .access false, .access false,
        .access true, .access true] init, 0 < s.depth true ∧ 0 < s.depth false := by
    decide +kernel
  exact exists_reaches_of_execute executed

end ReentrantLock

end Xdk.Sync
