import Xdk.Lib.Holding
import Xdk.Lib.Transition
import Xdk.Lib.Word

/-! # The ticket lock

A thread draws a ticket from `users` and waits until `ticket` comes to it; whoever unlocks lets
`ticket` go on to the next one.  Both counters have sixteen bits and wrap.  `trylock` takes the
ticket that is next to be drawn, if that is also the one being served: it compares and exchanges
both counters at once, as the word `u`.

The tickets that are out, counted without end, are `low .. high - 1`, and each belongs to one
thread (`Ticketed`).  As long as they are fewer than `2 ^ 16`, the counters tell them apart.
-/

namespace Xdk.Sync

open Xdk.Lib Function

inductive TicketPc where
  | idle
  -- `lock`: the fetch-and-add on `users`, and the loop
  | xadd
  | waiting (me : Nat)
  | holding
  -- `trylock`: the load of `users`, and the exchange of `u`
  | tryLoad
  | tryCas (me : Nat)
  -- `unlock`: the load and the store of `s.ticket++`
  | unlockLoad
  | unlockStore (value : Nat)
  deriving DecidableEq, Repr

def TicketPc.Holds : TicketPc → Prop
  | .holding | .unlockLoad | .unlockStore _ => True
  | _ => False

def TicketPc.Contends : TicketPc → Prop
  | .waiting _ | .holding | .unlockLoad | .unlockStore _ => True
  | _ => False

theorem TicketPc.Holds.contends {pc : TicketPc} (holds : pc.Holds) : pc.Contends := by
  cases pc <;> first | exact holds.elim | trivial

/-- The two counters and the threads.  `drawn` lists the threads in the order in which they took
    their tickets, `acquired` in the order in which they got the lock. -/
structure TicketLock (Thread : Type*) where
  ticket : Nat
  users : Nat
  pc : Thread → TicketPc
  drawn : List Thread
  acquired : List Thread

inductive TicketEvent (Thread : Type*) where
  | lock (thread : Thread)
  | trylock (thread : Thread)
  | unlock (thread : Thread)
  -- the next access
  | access (thread : Thread)
  deriving DecidableEq

namespace TicketLock

variable {Thread : Type*}

def init : TicketLock Thread := ⟨0, 0, fun _ => .idle, [], []⟩

def u (s : TicketLock Thread) : Nat := s.users * 2 ^ 16 + s.ticket

section Accesses

variable [DecidableEq Thread]

def goto (s : TicketLock Thread) (thread : Thread) (pc : TicketPc) : TicketLock Thread :=
  { s with pc := Function.update s.pc thread pc }

def access (s : TicketLock Thread) (thread : Thread) : Option (TicketLock Thread) :=
  match s.pc thread with
  | .idle | .holding => none
  | .xadd =>
    some { s.goto thread (.waiting s.users) with
      users := wrap 16 (s.users + 1)
      drawn := s.drawn ++ [thread] }
  | .waiting me =>
    if s.ticket = me then
      some { s.goto thread .holding with acquired := s.acquired ++ [thread] }
    else some s
  | .tryLoad => some (s.goto thread (.tryCas s.users))
  | .tryCas me =>
    let menew := wrap 16 (me + 1)
    let cmp := wrap 32 (me * 2 ^ 16 + me)
    let cmpnew := wrap 32 (menew * 2 ^ 16 + me)
    if s.u = cmp then
      some { s.goto thread .holding with
        users := cmpnew / 2 ^ 16
        ticket := cmpnew % 2 ^ 16
        drawn := s.drawn ++ [thread]
        acquired := s.acquired ++ [thread] }
    -- `E_BUSY`
    else some (s.goto thread .idle)
  | .unlockLoad => some (s.goto thread (.unlockStore s.ticket))
  | .unlockStore value => some { s.goto thread .idle with ticket := wrap 16 (value + 1) }

/-- A thread that is in none of the functions calls one, and `unlock` only if it has the lock; or
    it makes its next access. -/
def step (s : TicketLock Thread) : TicketEvent Thread → Option (TicketLock Thread)
  | .lock thread => if s.pc thread = .idle then some (s.goto thread .xadd) else none
  | .trylock thread => if s.pc thread = .idle then some (s.goto thread .tryLoad) else none
  | .unlock thread => if s.pc thread = .holding then some (s.goto thread .unlockLoad) else none
  | .access thread => s.access thread

def FewContend (s : TicketLock Thread) : Prop :=
  ∃ crowd : Finset Thread, crowd.card < 65536 ∧ ∀ thread, (s.pc thread).Contends → thread ∈ crowd

abbrev Reachable (s : TicketLock Thread) : Prop :=
  Reaches step (fun before event => ∀ after, step before event = some after → FewContend after)
    init s

end Accesses

/-! ## Tickets -/

def Standing (low : Nat) : Option Nat → TicketPc → Prop
  | none, .idle | none, .xadd | none, .tryLoad => True
  | none, .tryCas me => me < 2 ^ 16
  | some number, .waiting me => me = wrap 16 number
  | some number, .holding | some number, .unlockLoad => number = low
  | some number, .unlockStore value => number = low ∧ value = wrap 16 low
  | _, _ => False

structure Orderly (s : TicketLock Thread) (held : Thread → Option Nat) (low high : Nat) :
    Prop where
  ticketed : Ticketed held low high
  close : high < low + 2 ^ 16
  ticket : s.ticket = wrap 16 low
  users : s.users = wrap 16 high
  standing : ∀ thread, Standing low (held thread) (s.pc thread)
  drawn : s.drawn.length = high
  drew : ∀ thread number, held thread = some number → s.drawn[number]? = some thread
  inOrder : s.acquired <+: s.drawn
  free : (∀ thread, ¬ (s.pc thread).Holds) → s.acquired.length = low
  taken : ∀ thread, (s.pc thread).Holds → s.acquired.length = low + 1

theorem orderly_init : Orderly (init : TicketLock Thread) (fun _ => none) 0 0 :=
  ⟨ticketed_none 0, Nat.two_pow_pos 16, rfl, rfl, fun _ => trivial, rfl, nofun, List.nil_prefix,
    fun _ => rfl, nofun⟩

section Standing

variable {low : Nat} {number : Option Nat} {pc : TicketPc}

theorem Standing.eq_some (standing : Standing low number pc) (holds : pc.Holds) :
    number = some low := by
  cases number with
  | none => cases pc <;> first | exact standing.elim | exact holds.elim
  | some ticket =>
    cases pc with
    | holding | unlockLoad => exact congrArg some standing
    | unlockStore => exact congrArg some standing.1
    | idle | xadd | waiting | tryLoad | tryCas => exact holds.elim

theorem Standing.contends_iff (standing : Standing low number pc) :
    pc.Contends ↔ ∃ ticket, number = some ticket := by
  cases number with
  | none =>
    cases pc <;> first | exact standing.elim | exact ⟨False.elim, nofun⟩
  | some ticket =>
    cases pc <;> first | exact standing.elim | exact ⟨fun _ => ⟨ticket, rfl⟩, fun _ => trivial⟩

theorem Standing.eq_none (standing : Standing low number pc) (outside : ¬ pc.Contends) :
    number = none := by
  cases number with
  | none => rfl
  | some ticket => exact absurd (standing.contends_iff.mpr ⟨ticket, rfl⟩) outside

/-- The next ticket is served: nothing changes for those who have not been served yet. -/
theorem Standing.next (standing : Standing low number pc) (unserved : number ≠ some low) :
    Standing (low + 1) number pc := by
  cases number with
  | none => cases pc <;> first | exact standing.elim | exact standing
  | some ticket =>
    cases pc with
    | waiting => exact standing
    | holding | unlockLoad => exact absurd (congrArg some standing) unserved
    | unlockStore => exact absurd (congrArg some standing.1) unserved
    | idle | xadd | tryLoad | tryCas => exact standing.elim

end Standing

section Threads

variable {s s' : TicketLock Thread} {held : Thread → Option Nat} {low high : Nat}
  {thread : Thread} {pc : TicketPc}

theorem Orderly.exclusive (orderly : Orderly s held low high) {first second : Thread}
    (firstHolds : (s.pc first).Holds) (secondHolds : (s.pc second).Holds) : first = second :=
  orderly.ticketed.exclusive first second low ((orderly.standing first).eq_some firstHolds)
    ((orderly.standing second).eq_some secondHolds)

/-- Nobody holds the lock while another thread has the ticket that is served. -/
theorem Orderly.not_holds (orderly : Orderly s held low high) (served : held thread = some low)
    (outside : ¬ (s.pc thread).Holds) (o : Thread) : ¬ (s.pc o).Holds := by
  intro holds
  have same := orderly.ticketed.exclusive o thread low
    ((orderly.standing o).eq_some holds) served
  exact outside (same ▸ holds)

/-- Few threads, few tickets. -/
theorem FewContend.close (few : FewContend s) (ticketed : Ticketed held low high)
    (standing : ∀ t, Standing low (held t) (s.pc t)) : high < low + 2 ^ 16 := by
  obtain ⟨crowd, small, covers⟩ := few
  have bound := ticketed.le_card fun t ticket holds =>
    covers t ((standing t).contends_iff.mpr ⟨ticket, holds⟩)
  omega

variable {me : Nat}

/-- The ticket of a thread that finds its number in `ticket` is the one that is served. -/
theorem Orderly.served (orderly : Orderly s held low high) (pc : s.pc thread = .waiting me)
    (called : s.ticket = me) : held thread = some low := by
  have standing := orderly.standing thread
  rw [pc] at standing
  cases number : held thread with
  | none => exact (number ▸ standing).elim
  | some number' =>
    rw [number] at standing
    obtain ⟨lo, upper⟩ := (orderly.ticketed.between number').mp ⟨thread, number⟩
    have close := orderly.close
    have same : wrap 16 low = wrap 16 number' := by
      rw [← orderly.ticket, called]
      exact standing
    rw [eq_of_wrap_eq lo (by omega) same]

/-- The exchange succeeds only if no ticket is out. -/
theorem Orderly.none_out (orderly : Orderly s held low high) (pc : s.pc thread = .tryCas me)
    (exchanged : s.u = wrap 32 (me * 2 ^ 16 + me)) :
    low = high ∧ s.ticket = me ∧ me < 2 ^ 16 := by
  have small : me < 2 ^ 16 := by
    have standing := orderly.standing thread
    rw [pc] at standing
    cases number : held thread with
    | none => rwa [number] at standing
    | some number => exact (number ▸ standing).elim
  have ticketBound : s.ticket < 2 ^ 16 := orderly.ticket ▸ wrap_lt 16 low
  rw [u, wrap_of_lt (by omega)] at exchanged
  have ticket : s.ticket = me := by omega
  have users : s.users = me := by omega
  have same : wrap 16 low = wrap 16 high := by
    rw [← orderly.ticket, ← orderly.users, ticket, users]
  exact ⟨eq_of_wrap_eq orderly.ticketed.ordered orderly.close same, ticket, small⟩

/-- With no ticket out nobody contends. -/
theorem Orderly.not_contends (orderly : Orderly s held low low) (o : Thread) :
    ¬ (s.pc o).Contends := by
  intro contends
  obtain ⟨ticket, holds⟩ := (orderly.standing o).contends_iff.mp contends
  have inside := (orderly.ticketed.between ticket).mp ⟨o, holds⟩
  omega

/-! ## One access -/

variable [DecidableEq Thread]

theorem standing_update {n : Option Nat} {pcs : Thread → TicketPc}
    (standing : ∀ o, Standing low (held o) (pcs o)) (new : Standing low n pc) :
    ∀ o, Standing low (update held thread n o)
      (update pcs thread pc o) := by
  intro o
  by_cases same : o = thread
  · subst same
    simpa using new
  · simpa [same] using standing o

theorem holds_update (same : (s.pc thread).Holds ↔ pc.Holds) (o : Thread) :
    (update s.pc thread pc o).Holds ↔ (s.pc o).Holds := by
  by_cases isThread : o = thread
  · subst isThread
    rw [update_self, same]
  · rw [update_of_ne isThread]

theorem holds_holding : (update s.pc thread .holding thread).Holds := by
  rw [update_self]
  trivial

section

variable (orderly : Orderly s held low high)
include orderly

/-- A thread goes on without its ticket or its hold of the lock being changed. -/
theorem Orderly.goto (new : Standing low (held thread) pc) (same : (s.pc thread).Holds ↔ pc.Holds) :
    Orderly (s.goto thread pc) held low high :=
  { orderly with
    standing := by
      have standing : ∀ o, Standing low (update held thread (held thread) o)
          (update s.pc thread pc o) := standing_update orderly.standing new
      rwa [update_eq_self] at standing
    free := fun none => orderly.free fun o holds =>
      none o ((holds_update same o).mpr holds)
    taken := fun o holds => orderly.taken o ((holds_update same o).mp holds) }

/-- Who has drawn which ticket, after one more. -/
theorem Orderly.drew_next :
    ∀ other number, update held thread (some high) other = some number →
      (s.drawn ++ [thread])[number]? = some other := by
  intro other number holds
  obtain ⟨rfl, same⟩ | ⟨_, old⟩ := update_eq_some_iff.mp holds
  · rw [← Option.some.inj same, ← orderly.drawn, List.getElem?_concat_length]
  · have drew := orderly.drew other number old
    rw [List.getElem?_append_left (List.getElem?_eq_some_iff.mp drew).1, drew]

theorem Orderly.xadd (pc : s.pc thread = .xadd)
    (few : FewContend (s.goto thread (.waiting s.users))) :
    Orderly { s.goto thread (.waiting s.users) with
      users := wrap 16 (s.users + 1)
      drawn := s.drawn ++ [thread] } (update held thread (some high)) low (high + 1) := by
  have empty : held thread = none :=
    (orderly.standing thread).eq_none (by rw [pc]; exact id)
  have same : (s.pc thread).Holds ↔ (TicketPc.waiting s.users).Holds := by
    rw [pc]
    exact Iff.rfl
  have ticketed := orderly.ticketed.draw empty
  have standing : ∀ o, Standing low (update held thread (some high) o)
      (update s.pc thread (.waiting s.users) o) :=
    standing_update orderly.standing orderly.users
  exact
    { ticketed := ticketed
      close := few.close ticketed standing
      ticket := orderly.ticket
      users := by rw [orderly.users, wrap_wrap_succ]
      standing := standing
      drawn := by rw [List.length_append, orderly.drawn, List.length_singleton]
      drew := orderly.drew_next
      inOrder := orderly.inOrder.trans (List.prefix_append _ _)
      free := fun none => orderly.free fun o holds =>
        none o ((holds_update same o).mpr holds)
      taken := fun o holds => orderly.taken o ((holds_update same o).mp holds) }

theorem Orderly.acquire (pc : s.pc thread = .waiting me) (called : s.ticket = me) :
    Orderly { s.goto thread .holding with acquired := s.acquired ++ [thread] } held low high := by
  have served := orderly.served pc called
  have nobody := orderly.not_holds served (by rw [pc]; exact id)
  have len := orderly.free nobody
  have next : s.acquired ++ [thread] = s.drawn.take (low + 1) := by
    rw [List.take_add_one, orderly.drew thread low served, ← len,
      ← List.prefix_iff_eq_take.mp orderly.inOrder]
    rfl
  have standing : ∀ o, Standing low (update held thread (some low) o)
      (update s.pc thread .holding o) := standing_update orderly.standing rfl
  rw [← served, update_eq_self] at standing
  exact
    { orderly with
      standing := standing
      inOrder := next ▸ List.take_prefix _ _
      free := fun none => (none thread holds_holding).elim
      taken := fun _ _ => by rw [List.length_append, len, List.length_singleton] }

theorem Orderly.tryCas (pc : s.pc thread = .tryCas me)
    (exchanged : s.u = wrap 32 (me * 2 ^ 16 + me)) :
    Orderly { s.goto thread .holding with
      users := wrap 32 (wrap 16 (me + 1) * 2 ^ 16 + me) / 2 ^ 16
      ticket := wrap 32 (wrap 16 (me + 1) * 2 ^ 16 + me) % 2 ^ 16
      drawn := s.drawn ++ [thread]
      acquired := s.acquired ++ [thread] } (update held thread (some high)) low (high + 1) := by
  obtain ⟨rfl, ticket, small⟩ := orderly.none_out pc exchanged
  have nobody : ∀ o, ¬ (s.pc o).Holds := fun o holds =>
    orderly.not_contends o holds.contends
  have empty : held thread = none :=
    (orderly.standing thread).eq_none (orderly.not_contends thread)
  have word : wrap 32 (wrap 16 (me + 1) * 2 ^ 16 + me) = wrap 16 (me + 1) * 2 ^ 16 + me := by
    have := wrap_lt 16 (me + 1)
    exact wrap_of_lt (by omega)
  have hi : (wrap 16 (me + 1) * 2 ^ 16 + me) / 2 ^ 16 = wrap 16 (low + 1) := by
    rw [← wrap_wrap_succ 16 low, ← orderly.ticket, ticket]
    omega
  have lo : (wrap 16 (me + 1) * 2 ^ 16 + me) % 2 ^ 16 = wrap 16 low := by
    rw [← orderly.ticket]
    omega
  have all : s.acquired = s.drawn :=
    orderly.inOrder.eq_of_length ((orderly.free nobody).trans orderly.drawn.symm)
  rw [word, hi, lo]
  exact
    { ticketed := orderly.ticketed.draw empty
      close := by omega
      ticket := rfl
      users := rfl
      standing := standing_update orderly.standing rfl
      drawn := by rw [List.length_append, orderly.drawn, List.length_singleton]
      drew := orderly.drew_next
      inOrder := by rw [all]
      free := fun none => (none thread holds_holding).elim
      taken := fun _ _ => by
        rw [List.length_append, orderly.free nobody, List.length_singleton] }

end

theorem Orderly.unlock {v : Nat} (orderly : Orderly s held low high)
    (pc : s.pc thread = .unlockStore v) :
    Orderly { s.goto thread .idle with ticket := wrap 16 (v + 1) }
      (update held thread none) (low + 1) high := by
  have holds : (s.pc thread).Holds := by
    rw [pc]
    trivial
  have served := (orderly.standing thread).eq_some holds
  have loaded : v = wrap 16 low := by
    have standing := orderly.standing thread
    rw [served, pc] at standing
    exact standing.2
  have ticketed := orderly.ticketed.finish served
  have nobody : ∀ o, ¬ (update s.pc thread .idle o).Holds := by
    intro o otherHolds
    by_cases same : o = thread
    · rw [same, update_self] at otherHolds
      exact otherHolds
    · rw [update_of_ne same] at otherHolds
      exact same (orderly.exclusive otherHolds holds)
  have standing : ∀ o, Standing (low + 1) (update held thread none o)
      (update s.pc thread .idle o) := by
    intro o
    by_cases same : o = thread
    · rw [same, update_self, update_self]
      trivial
    · rw [update_of_ne same, update_of_ne same]
      refine (orderly.standing o).next fun served' => same ?_
      exact orderly.ticketed.exclusive o thread low served' served
  have close := orderly.close
  exact
    { ticketed := ticketed
      close := by omega
      ticket := by rw [loaded, wrap_wrap_succ]
      users := orderly.users
      standing := standing
      drawn := orderly.drawn
      drew := fun o n keeps =>
        orderly.drew o n (orderly.ticketed.exclusive.update_none served keeps).1
      inOrder := orderly.inOrder
      free := fun _ => orderly.taken thread holds
      taken := fun o otherHolds => (nobody o otherHolds).elim }

section

variable (orderly : Orderly s held low high)
include orderly

/-- A thread without a ticket goes on to another place without one. -/
theorem Orderly.goto_outside (outside : ¬ (s.pc thread).Contends) (new : Standing low none pc) :
    Orderly (s.goto thread pc) held low high := by
  have empty := (orderly.standing thread).eq_none outside
  refine orderly.goto (empty ▸ new) ⟨fun holds => (outside holds.contends).elim, fun holds => ?_⟩
  cases new.eq_some holds

theorem Orderly.access (few : FewContend s') (step : s.access thread = some s') :
    ∃ held low high, Orderly s' held low high := by
  simp only [TicketLock.access] at step
  cases pc : s.pc thread <;> rw [pc] at step <;> dsimp only at step
  case idle | holding => cases step
  case xadd =>
    cases step
    exact ⟨_, _, _, orderly.xadd pc few⟩
  case waiting me =>
    split at step <;> cases step
    · rename_i called
      exact ⟨_, _, _, orderly.acquire pc called⟩
    · exact ⟨_, _, _, orderly⟩
  case tryLoad =>
    cases step
    refine ⟨_, _, _, orderly.goto_outside (by rw [pc]; exact id) ?_⟩
    exact orderly.users ▸ wrap_lt 16 high
  case tryCas me =>
    split at step <;> cases step
    · rename_i exchanged
      exact ⟨_, _, _, orderly.tryCas pc exchanged⟩
    · exact ⟨_, _, _, orderly.goto_outside (by rw [pc]; exact id) trivial⟩
  case unlockLoad =>
    cases step
    have served := (orderly.standing thread).eq_some (by rw [pc]; trivial)
    refine ⟨_, _, _, orderly.goto ?_ (by rw [pc]; exact Iff.rfl)⟩
    rw [served]
    exact ⟨rfl, orderly.ticket⟩
  case unlockStore value =>
    cases step
    exact ⟨_, _, _, orderly.unlock pc⟩

/-- Every step keeps the tickets in order, if few contend after it. -/
theorem Orderly.step {ev : TicketEvent Thread} (few : FewContend s') (step : s.step ev = some s') :
    ∃ held low high, Orderly s' held low high := by
  cases ev with
  | lock t | trylock t =>
    simp only [TicketLock.step] at step
    split at step <;> cases step
    rename_i pc
    exact ⟨_, _, _, orderly.goto_outside (by rw [pc]; exact id) trivial⟩
  | unlock t =>
    simp only [TicketLock.step] at step
    split at step <;> cases step
    rename_i pc
    have served := (orderly.standing t).eq_some (by rw [pc]; trivial)
    refine ⟨_, _, _, orderly.goto ?_ (by rw [pc]; exact Iff.rfl)⟩
    rw [served]
    rfl
  | access t => exact orderly.access few step

end

end Threads

/-! ## Every run -/

theorem Reachable.orderly [DecidableEq Thread] {s : TicketLock Thread} (run : Reachable s) :
    ∃ held low high, Orderly s held low high :=
  run.invariant (motive := fun s => ∃ held low high, Orderly s held low high)
    ⟨_, _, _, orderly_init⟩ fun ⟨_, _, _, orderly⟩ few step =>
      orderly.step (few _ step) step

/-- As long as fewer than 65536 threads contend at a time: at most one thread holds the lock; the
    threads get the lock in the order in which they drew their tickets; and `trylock` succeeds
    only if nobody holds the lock or waits for it. -/
theorem ticket_lock_fair [DecidableEq Thread] {s : TicketLock Thread} (run : Reachable s) :
    (∀ first second, (s.pc first).Holds → (s.pc second).Holds → first = second) ∧
      s.acquired <+: s.drawn ∧
      ∀ thread me s', s.pc thread = .tryCas me → s.step (.access thread) = some s' →
        s'.pc thread = .holding → ∀ other, ¬ (s.pc other).Contends := by
  obtain ⟨held, low, high, orderly⟩ := run.orderly
  refine ⟨fun first second => orderly.exclusive, orderly.inOrder, ?_⟩
  intro thread me s' pc stepped succeeded
  simp only [step, access, pc] at stepped
  split at stepped <;> cases stepped
  · rename_i exchanged
    obtain ⟨rfl, _⟩ := orderly.none_out pc exchanged
    exact orderly.not_contends
  · simp [goto] at succeeded

/-- Two threads: the second one draws its ticket while the first has the lock, tries in vain, and
    gets the lock when it is given back. -/
theorem ticket_lock_fair_two :
    ∃ s : TicketLock (Fin 2), Reachable s ∧ s.drawn = [0, 1] ∧ (s.pc 1).Holds ∧
      s.acquired <+: [0, 1] := by
  have few : ∀ s : TicketLock (Fin 2), FewContend s := fun s =>
    ⟨Finset.univ, by decide, fun thread _ => Finset.mem_univ thread⟩
  have executed : ∃ s ∈ execute step (fun _ _ => True)
      [.lock 0, .trylock 1, .access 1, .access 0, .access 0, .access 1, .lock 1, .access 1,
        .access 1, .unlock 0, .access 0, .access 0, .access 1] (init : TicketLock (Fin 2)),
      s.drawn = [0, 1] ∧ s.pc 1 = .holding := by
    decide
  obtain ⟨s, run, drawn, pc⟩ := exists_reaches_of_execute executed
  have run : Reachable s := run.mono fun _ after _ => few after
  obtain ⟨_, inOrder, _⟩ := ticket_lock_fair run
  refine ⟨s, run, drawn, ?_, drawn ▸ inOrder⟩
  rw [pc]
  trivial

/-- Nobody is kept waiting: when the lock is free and some thread waits, the thread that has drawn
    its ticket first, and no other, gets the lock at its next access. -/
theorem ticket_lock_progress [DecidableEq Thread] {s : TicketLock Thread} (run : Reachable s)
    (free : ∀ thread, ¬ (s.pc thread).Holds) {waiter : Thread} {me : Nat}
    (waits : s.pc waiter = .waiting me) :
    ∃ next, s.drawn[s.acquired.length]? = some next ∧
      ∀ thread, (∃ s', s.step (.access thread) = some s' ∧ (s'.pc thread).Holds) ↔
        thread = next := by
  obtain ⟨held, low, high, orderly⟩ := run.orderly
  obtain ⟨number, has⟩ := (orderly.standing waiter).contends_iff.mp (by rw [waits]; trivial)
  have inside := (orderly.ticketed.between number).mp ⟨waiter, has⟩
  obtain ⟨next, served⟩ := (orderly.ticketed.between low).mpr ⟨Nat.le_refl _, by omega⟩
  refine ⟨next, orderly.free free ▸ orderly.drew next low served, fun thread => ⟨?_, ?_⟩⟩
  · rintro ⟨s', stepped, holds⟩
    simp only [step, access] at stepped
    cases pc : s.pc thread <;> rw [pc] at stepped <;> dsimp only at stepped
    case idle | holding => cases stepped
    case unlockLoad | unlockStore => exact (free thread (by rw [pc]; trivial)).elim
    case xadd | tryLoad =>
      cases stepped
      simp [goto, TicketPc.Holds] at holds
    case waiting =>
      split at stepped <;> cases stepped
      · rename_i called
        exact orderly.ticketed.exclusive thread next low (orderly.served pc called) served
      · exact (free thread holds).elim
    case tryCas =>
      split at stepped <;> cases stepped
      · rename_i exchanged
        have := (orderly.none_out pc exchanged).1
        omega
      · simp [goto, TicketPc.Holds] at holds
  · rintro rfl
    have standing := orderly.standing thread
    rw [served] at standing
    cases pc : s.pc thread <;> rw [pc] at standing
    case waiting =>
      have called := orderly.ticket.trans standing.symm
      refine ⟨_, by rw [step, access, pc]; exact if_pos called, holds_holding⟩
    case holding | unlockLoad | unlockStore => exact (free thread (by rw [pc]; trivial)).elim
    all_goals exact standing.elim

/-- The first of two threads has given the lock back and draws another ticket while the second
    waits: it is the turn of the second. -/
theorem ticket_lock_progress_two :
    ∃ s : TicketLock (Fin 2), Reachable s ∧ s.drawn = [0, 1, 0] ∧ s.acquired = [0] ∧
      (∃ s', s.step (.access 1) = some s' ∧ (s'.pc 1).Holds) ∧
      ¬ ∃ s', s.step (.access 0) = some s' ∧ (s'.pc 0).Holds := by
  have executed : ∃ s ∈ execute step (fun _ _ => True)
      [.lock 0, .access 0, .access 0, .lock 1, .access 1, .unlock 0, .access 0, .access 0,
        .lock 0, .access 0] (init : TicketLock (Fin 2)),
      s.drawn = [0, 1, 0] ∧ s.acquired = [0] ∧ s.pc 0 = .waiting 2 ∧ s.pc 1 = .waiting 1 := by
    decide
  obtain ⟨s, run, drawn, acquired, first, second⟩ := exists_reaches_of_execute executed
  have run : Reachable s := run.mono fun _ _ _ =>
    ⟨Finset.univ, by decide, fun thread _ => Finset.mem_univ thread⟩
  have free : ∀ thread, ¬ (s.pc thread).Holds := by
    refine Fin.forall_fin_two.mpr ⟨?_, ?_⟩
    · rw [first]
      exact id
    · rw [second]
      exact id
  obtain ⟨next, turn, gets⟩ := ticket_lock_progress run free second
  obtain rfl : 1 = next := by simpa [drawn, acquired] using turn
  exact ⟨s, run, drawn, acquired, (gets 1).mpr rfl, fun got => absurd ((gets 0).mp got) (by decide)⟩

end TicketLock

end Xdk.Sync
