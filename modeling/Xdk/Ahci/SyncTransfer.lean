import Xdk.Lib.Holding
import Xdk.Lib.Transition

/-! # Synchronous transfers on one port

`sync_fpdma` issues the command in its slot, waits until the port reports a Set Device Bits FIS,
and clears the report.  The report is one bit of `PxIS` for all slots; which of them has completed
is in `PxSACT`, which is not read.

One caller at a time is served well: the bit is set from the completion of its command until it
clears it.  With two callers the bit may be the other's, and clearing it takes it from the other.
-/

namespace Xdk.Ahci

open Xdk.Lib Function

inductive FpdmaPc where
  | idle
  -- the command is built; `WAIT_FOR_NOT_BUSY`
  | prepared (slot : Nat)
  -- the store to `pxsact`
  | ready (slot : Nat)
  -- the store to `pxci`
  | activated (slot : Nat)
  -- `WAIT_FOR_NOT_BUSY`
  | issued (slot : Nat)
  -- `poll_for_port_interrupt(3)`
  | polling (slot : Nat)
  -- `set_pxis(0x8)`
  | seen (slot : Nat)
  -- the command frame is freed
  | cleared (slot : Nat)
  -- `S_OK`
  | returned (slot : Nat)
  deriving DecidableEq, Repr

def FpdmaPc.slot? : FpdmaPc → Option Nat
  | .prepared slot | .ready slot | .activated slot | .issued slot | .polling slot | .seen slot
  | .cleared slot => some slot
  | .idle | .returned _ => none

def FpdmaPc.isReady : FpdmaPc → Bool
  | .ready _ => true
  | _ => false

/-- The thread has begun to issue its command, and has not cleared the bit. -/
def FpdmaPc.InFlight : FpdmaPc → Prop
  | .activated _ | .issued _ | .polling _ | .seen _ => True
  | _ => False

instance (pc : FpdmaPc) : Decidable pc.InFlight :=
  match pc with
  | .activated _ | .issued _ | .polling _ | .seen _ => isTrue trivial
  | .idle | .prepared _ | .ready _ | .cleared _ | .returned _ => isFalse id

/-- The registers of an initialised port: bit 3 of `PxIS`, the bits of `PxSACT` and `PxCI`, and the
    busy bit of `PxTFD`.  `pending` is the device: whose command it works on in a slot; and
    `completed` says of the last call of a thread that its command has been completed. -/
structure Port (Thread : Type*) where
  sdbs : Bool
  pxsact : Nat → Bool
  pxci : Nat → Bool
  busy : Bool
  pending : Nat → Option Thread
  pc : Thread → FpdmaPc
  completed : Thread → Bool

inductive FpdmaEvent (Thread : Type*) where
  | call (thread : Thread) (slot : Nat)
  | access (thread : Thread)
  -- the device: it changes the busy bit, takes a command, or completes one
  | setBusy (busy : Bool)
  | fetch (slot : Nat)
  | complete (slot : Nat)
  deriving DecidableEq

namespace Port

variable {Thread : Type*}

def init : Port Thread :=
  ⟨false, fun _ => false, fun _ => false, false, fun _ => none, fun _ => .idle, fun _ => false⟩

section Accesses

variable [DecidableEq Thread]

def goto (s : Port Thread) (thread : Thread) (pc : FpdmaPc) : Port Thread :=
  { s with pc := Function.update s.pc thread pc }

def access (s : Port Thread) (thread : Thread) : Option (Port Thread) :=
  match s.pc thread with
  | .idle | .returned _ => none
  | .prepared slot => if s.busy then some s else some (s.goto thread (.ready slot))
  | .ready slot =>
    some { s.goto thread (.activated slot) with
      pxsact := Function.update s.pxsact slot true }
  | .activated slot =>
    some { s.goto thread (.issued slot) with
      pxci := Function.update s.pxci slot true
      pending := Function.update s.pending slot (some thread) }
  | .issued slot => if s.busy then some s else some (s.goto thread (.polling slot))
  | .polling slot => if s.sdbs then some (s.goto thread (.seen slot)) else some s
  | .seen slot => some { s.goto thread (.cleared slot) with sdbs := false }
  | .cleared slot => some (s.goto thread (.returned slot))

/-- The device completes a command that it has taken: it clears the bit of the slot and sets the
    bit for all of them. -/
def complete (s : Port Thread) (slot : Nat) : Option (Port Thread) :=
  match s.pending slot with
  | none => none
  | some thread =>
    if s.pxci slot then none
    else some { s with
      sdbs := true
      pxsact := Function.update s.pxsact slot false
      pending := Function.update s.pending slot none
      completed := Function.update s.completed thread true }

def step (s : Port Thread) : FpdmaEvent Thread → Option (Port Thread)
  | .call thread slot =>
    if (s.pc thread).slot? = none then
      some { s.goto thread (.prepared slot) with
        completed := Function.update s.completed thread false }
    else none
  | .access thread => s.access thread
  | .setBusy busy => some { s with busy := busy }
  | .fetch slot =>
    if s.pxci slot then some { s with pxci := Function.update s.pxci slot false } else none
  | .complete slot => s.complete slot

end Accesses

/-- The threads use slots of the port, and at no time two of them the same one. -/
def Distinct (s : Port Thread) : FpdmaEvent Thread → Prop
  | .call thread slot => slot < 32 ∧ ∀ other, other ≠ thread → (s.pc other).slot? ≠ some slot
  | _ => True

def Alone (s : Port Thread) : FpdmaEvent Thread → Prop
  | .access thread =>
    (s.pc thread).isReady = true → ∀ other, other ≠ thread → ¬ (s.pc other).InFlight
  | _ => True

/-- What a caller relies on: success means that its command has completed, and a completed command
    is reported for as long as the caller waits for the report. -/
structure Sound (s : Port Thread) : Prop where
  success : ∀ thread slot, s.pc thread = .returned slot → s.completed thread = true
  report : ∀ thread slot, s.pc thread = .polling slot → s.completed thread = true → s.sdbs = true

/-! ## One caller at a time -/

/-- The device may still work on the command of the thread, and on no other one. -/
def Underway (s : Port Thread) (thread : Thread) (slot : Nat) : Prop :=
  s.sdbs = false ∧ s.completed thread = false ∧
    ∀ other owner, s.pending other = some owner → other = slot ∧ owner = thread

def Reported (s : Port Thread) (thread : Thread) : Prop :=
  s.sdbs = true ∧ s.completed thread = true ∧ ∀ slot, s.pending slot = none

def Progress (s : Port Thread) (thread : Thread) : FpdmaPc → Prop
  | .idle => True
  | .prepared _ | .ready _ => s.completed thread = false
  | .activated _ =>
    s.sdbs = false ∧ s.completed thread = false ∧ ∀ slot, s.pending slot = none
  | .issued slot | .polling slot => s.Underway thread slot ∨ s.Reported thread
  | .seen _ => s.Reported thread
  | .cleared _ | .returned _ => s.completed thread = true

/-- At most one thread is in flight, and between two transfers nothing is left of the first. -/
structure Serial (s : Port Thread) : Prop where
  progress : ∀ thread, s.Progress thread (s.pc thread)
  single : ∀ first second, (s.pc first).InFlight → (s.pc second).InFlight → first = second
  quiet : (∀ thread, ¬ (s.pc thread).InFlight) →
    s.sdbs = false ∧ ∀ slot, s.pending slot = none

theorem serial_init : (init : Port Thread).Serial :=
  ⟨fun _ => trivial, fun _ _ flies => flies.elim, fun _ => ⟨rfl, fun _ => rfl⟩⟩

section Steps

variable {s s' : Port Thread} {thread : Thread} {slot : Nat}

theorem Serial.sound (serial : s.Serial) : s.Sound := by
  constructor
  · intro t slot pc
    have progress := serial.progress t
    rwa [pc] at progress
  · intro t slot pc completed
    have progress := serial.progress t
    rw [pc] at progress
    rcases progress with underway | reported
    · rw [underway.2.1] at completed
      cases completed
    · exact reported.1

theorem Progress.congr {pc : FpdmaPc} (progress : s.Progress thread pc) (bit : s'.sdbs = s.sdbs)
    (pending : s'.pending = s.pending) (same : s'.completed thread = s.completed thread) :
    s'.Progress thread pc := by
  cases pc <;> simp only [Progress, Underway, Reported, bit, pending, same] <;> exact progress

/-- Nothing but its own command matters to a thread outside of a transfer. -/
theorem Progress.of_not_inFlight {pc : FpdmaPc} (progress : s.Progress thread pc)
    (outside : ¬ pc.InFlight) (same : s'.completed thread = s.completed thread) :
    s'.Progress thread pc := by
  cases pc with
  | idle => trivial
  | prepared | ready | cleared | returned => exact same.trans progress
  | activated | issued | polling | seen => exact absurd trivial outside

/-- The only thread in flight goes on, or the device with its command. -/
theorem Serial.advance (serial : s.Serial)
    (only : ∀ o, o ≠ thread → ¬ (s.pc o).InFlight)
    (others : ∀ o, o ≠ thread →
      s'.pc o = s.pc o ∧ s'.completed o = s.completed o)
    (progress : s'.Progress thread (s'.pc thread))
    (done : ¬ (s'.pc thread).InFlight → s'.sdbs = false ∧ ∀ slot, s'.pending slot = none) :
    s'.Serial := by
  have alone : ∀ o, (s'.pc o).InFlight → o = thread := by
    intro o flies
    by_contra ne
    rw [(others o ne).1] at flies
    exact only o ne flies
  refine ⟨fun o => ?_, fun a b flies flies' => ?_, fun nobody => done (nobody thread)⟩
  · by_cases own : o = thread
    · subst own
      exact progress
    · rw [(others o own).1]
      exact (serial.progress o).of_not_inFlight (only o own) (others o own).2
  · rw [alone a flies, alone b flies']

/-- A thread goes on outside of a transfer. -/
theorem Serial.outside (serial : s.Serial) (was : ¬ (s.pc thread).InFlight)
    (stays : ¬ (s'.pc thread).InFlight) (bit : s'.sdbs = s.sdbs)
    (pending : s'.pending = s.pending)
    (others : ∀ o, o ≠ thread →
      s'.pc o = s.pc o ∧ s'.completed o = s.completed o)
    (progress : s'.Progress thread (s'.pc thread)) : s'.Serial := by
  have flies : ∀ o, (s'.pc o).InFlight ↔ (s.pc o).InFlight := by
    intro o
    by_cases own : o = thread
    · subst own
      exact iff_of_false stays was
    · rw [(others o own).1]
  refine ⟨fun o => ?_, ?_, ?_⟩
  · by_cases own : o = thread
    · subst own
      exact progress
    · rw [(others o own).1]
      exact (serial.progress o).congr bit pending (others o own).2
  · intro a b first' second'
    exact serial.single a b ((flies a).mp first') ((flies b).mp second')
  · intro nobody
    rw [bit, pending]
    exact serial.quiet fun o => mt (flies o).mpr (nobody o)

theorem Serial.only (serial : s.Serial) (flies : (s.pc thread).InFlight) :
    ∀ o, o ≠ thread → ¬ (s.pc o).InFlight :=
  fun o ne flies' => ne (serial.single o thread flies' flies)

/-- The device works only on the command of the thread in flight, and that one waits for it. -/
theorem Serial.underway {o : Thread} (serial : s.Serial)
    (pending : s.pending slot = some o) :
    (s.pc o = .issued slot ∨ s.pc o = .polling slot) ∧ s.Underway o slot := by
  have busy : ¬ ∀ slot, s.pending slot = none := by
    intro none
    rw [none slot] at pending
    cases pending
  have someone : ∃ t, (s.pc t).InFlight := by
    by_contra nobody
    exact busy (serial.quiet fun t flies => nobody ⟨t, flies⟩).2
  obtain ⟨t, flies⟩ := someone
  have progress := serial.progress t
  generalize pc : s.pc t = access at flies progress
  cases access with
  | idle | prepared | ready | cleared | returned =>
    exact flies.elim
  | activated | seen =>
    exact absurd progress.2.2 busy
  | issued =>
    rcases progress with underway | reported
    · obtain ⟨rfl, rfl⟩ := underway.2.2 _ _ pending
      exact ⟨.inl pc, underway⟩
    · exact absurd reported.2.2 busy
  | polling =>
    rcases progress with underway | reported
    · obtain ⟨rfl, rfl⟩ := underway.2.2 _ _ pending
      exact ⟨.inr pc, underway⟩
    · exact absurd reported.2.2 busy

section Accesses

variable [DecidableEq Thread]

@[simp] theorem goto_self (s : Port Thread) (t : Thread) (pc : FpdmaPc) :
    (s.goto t pc).pc t = pc := by
  simp [goto]

theorem goto_others (s : Port Thread) (t : Thread) (pc : FpdmaPc) {other : Thread}
    (ne : other ≠ t) : (s.goto t pc).pc other = s.pc other := by
  simp [goto, ne]

section

variable (serial : s.Serial)
include serial

/-- A thread makes an access within its transfer; the other threads keep their place. -/
theorem Serial.goto (only : ∀ o, o ≠ thread → ¬ (s.pc o).InFlight) {pc : FpdmaPc}
    (place : s'.pc = (s.goto thread pc).pc) (completed : s'.completed = s.completed)
    (progress : s'.Progress thread pc)
    (done : ¬ pc.InFlight → s'.sdbs = false ∧ ∀ slot, s'.pending slot = none) : s'.Serial := by
  have own : s'.pc thread = pc := by
    rw [place, goto_self]
  refine serial.advance only (fun o ne => ⟨?_, by rw [completed]⟩) ?_ ?_
  · rw [place, goto_others s thread pc ne]
  · rwa [own]
  · rwa [own]

/-- A thread makes an access outside of a transfer. -/
theorem Serial.goto_outside {pc : FpdmaPc} (was : ¬ (s.pc thread).InFlight) (stays : ¬ pc.InFlight)
    (progress : s.Progress thread pc) : (s.goto thread pc).Serial := by
  have own : (s.goto thread pc).pc thread = pc := goto_self s thread pc
  refine serial.outside was (by rwa [own]) rfl rfl
    (fun other ne => ⟨goto_others s thread pc ne, rfl⟩) ?_
  rw [own]
  exact progress.congr rfl rfl rfl

/-- The store to `pxsact`: nothing is left of an earlier transfer. -/
theorem Serial.activate (pc : s.pc thread = .ready slot)
    (only : ∀ o, o ≠ thread → ¬ (s.pc o).InFlight) (step : s.access thread = some s') :
    s'.Serial := by
  have progress := serial.progress thread
  rw [pc] at progress
  have nobody : ∀ o, ¬ (s.pc o).InFlight := by
    intro o
    by_cases own : o = thread
    · rw [own, pc]
      exact id
    · exact only o own
  obtain ⟨unset, none⟩ := serial.quiet nobody
  simp only [Port.access, pc] at step
  cases step
  exact serial.goto only rfl rfl ⟨unset, progress, none⟩ fun outside => absurd trivial outside

/-- The store to `pxci`: the device has this command and no other one. -/
theorem Serial.issue (pc : s.pc thread = .activated slot) (step : s.access thread = some s') :
    s'.Serial := by
  have progress := serial.progress thread
  rw [pc] at progress
  obtain ⟨unset, waits, none⟩ := progress
  have only := @serial.only _ _ thread (by rw [pc]; trivial)
  simp only [Port.access, pc] at step
  cases step
  refine serial.goto only rfl rfl (.inl ⟨unset, waits, ?_⟩) fun outside => absurd trivial outside
  intro o owner pending
  obtain ⟨same, mine⟩ | ⟨-, earlier⟩ := update_eq_some_iff.mp pending
  · exact ⟨same, (Option.some.inj mine).symm⟩
  · rw [none o] at earlier
    cases earlier

/-- A look at the report: it cannot be an earlier one, since the bit was clear when the command
    was issued. -/
theorem Serial.poll (pc : s.pc thread = .polling slot) (step : s.access thread = some s') :
    s'.Serial := by
  have progress := serial.progress thread
  rw [pc] at progress
  have only := @serial.only _ _ thread (by rw [pc]; trivial)
  simp only [Port.access, pc] at step
  split at step
  next set =>
    cases step
    have reported : s.Reported thread := by
      rcases progress with underway | reported
      · rw [underway.1] at set
        cases set
      · exact reported
    exact serial.goto only rfl rfl reported fun outside => absurd trivial outside
  next =>
    cases step
    exact serial

theorem Serial.access (alone : s.Alone (.access thread)) (step : s.access thread = some s') :
    s'.Serial := by
  have progress := serial.progress thread
  generalize pc : s.pc thread = access at progress
  cases access with
  | ready slot => exact serial.activate pc (alone (by rw [pc]; rfl)) step
  | activated slot => exact serial.issue pc step
  | polling slot => exact serial.poll pc step
  | idle | returned =>
    simp only [Port.access, pc] at step
    cases step
  | prepared slot =>
    simp only [Port.access, pc] at step
    split at step
    · cases step
      exact serial
    · cases step
      exact serial.goto_outside (by rw [pc]; exact id) id progress
  | issued slot =>
    have only := @serial.only _ _ thread (by rw [pc]; trivial)
    simp only [Port.access, pc] at step
    split at step
    · cases step
      exact serial
    · cases step
      exact serial.goto only rfl rfl progress fun outside => absurd trivial outside
  | seen slot =>
    have only := @serial.only _ _ thread (by rw [pc]; trivial)
    simp only [Port.access, pc] at step
    cases step
    exact serial.goto only rfl rfl progress.2.1 fun _ => ⟨rfl, progress.2.2⟩
  | cleared slot =>
    simp only [Port.access, pc] at step
    cases step
    exact serial.goto_outside (by rw [pc]; exact id) id progress

theorem Serial.call (free : (s.pc thread).slot? = none) :
    Serial { s.goto thread (.prepared slot) with
      completed := update s.completed thread false } := by
  have was : ¬ (s.pc thread).InFlight := by
    cases pc : s.pc thread <;> simp [pc, FpdmaPc.slot?, FpdmaPc.InFlight] at free ⊢
  have own : (s.goto thread (.prepared slot)).pc thread = .prepared slot := goto_self _ _ _
  refine serial.outside was ?_ rfl rfl
    (fun other ne => ⟨goto_others s thread _ ne, update_of_ne ne _ _⟩)
    ?_
  · rw [own]
    exact id
  · rw [own]
    exact update_self thread false s.completed

end

theorem Serial.complete (serial : s.Serial) (step : s.complete slot = some s') :
    s'.Serial := by
  simp only [Port.complete] at step
  split at step
  · cases step
  next owner pending =>
  split at step
  · cases step
  cases step
  obtain ⟨pc, underway⟩ := serial.underway pending
  have flies : (s.pc owner).InFlight := by
    rcases pc with pc | pc
    · rw [pc]
      trivial
    · rw [pc]
      trivial
  have emptied : ∀ o, update s.pending slot none o = none := by
    intro o
    by_contra left
    obtain ⟨t, left⟩ := Option.ne_none_iff_exists'.mp left
    obtain ⟨-, none⟩ | ⟨ne, earlier⟩ := update_eq_some_iff.mp left
    · cases none
    · exact ne (underway.2.2 o t earlier).1
  have completed := update_self owner true s.completed
  refine serial.advance (serial.only flies)
    (fun o ne => ⟨rfl, update_of_ne ne _ _⟩) ?_
    fun outside => absurd flies outside
  rcases pc with pc | pc
  · change Progress _ owner (s.pc owner)
    rw [pc]
    exact .inr ⟨rfl, completed, emptied⟩
  · change Progress _ owner (s.pc owner)
    rw [pc]
    exact .inr ⟨rfl, completed, emptied⟩

theorem Serial.step {ev : FpdmaEvent Thread} (serial : s.Serial) (alone : s.Alone ev)
    (step : s.step ev = some s') : s'.Serial := by
  cases ev with
  | call t slot =>
    simp only [Port.step] at step
    split at step
    next free =>
      cases step
      exact serial.call free
    · cases step
  | access t => exact serial.access alone step
  | setBusy busy =>
    cases step
    exact ⟨serial.progress, serial.single, serial.quiet⟩
  | fetch slot =>
    simp only [Port.step] at step
    split_ifs at step
    cases step
    exact ⟨serial.progress, serial.single, serial.quiet⟩
  | complete slot => exact serial.complete step

/-- In a run in which a thread begins to issue its command only while no other one is in flight,
    success means that the command has completed, and no report gets lost. -/
theorem sync_fpdma_completion
    (run : Reaches Port.step (fun s event => s.Distinct event ∧ s.Alone event) init s) :
    s.Sound :=
  Serial.sound (run.invariant serial_init fun serial allowed stepped =>
    serial.step allowed.2 stepped)

end Accesses

end Steps

section Runs

variable [DecidableEq Thread] [Fintype Thread]

instance (s : Port Thread) (event : FpdmaEvent Thread) : Decidable (s.Distinct event) :=
  match event with
  | .call thread slot => inferInstanceAs (Decidable
      (slot < 32 ∧ ∀ other, other ≠ thread → (s.pc other).slot? ≠ some slot))
  | .access _ | .setBusy _ | .fetch _ | .complete _ => isTrue trivial

instance (s : Port Thread) (event : FpdmaEvent Thread) : Decidable (s.Alone event) :=
  match event with
  | .access thread => inferInstanceAs (Decidable ((s.pc thread).isReady = true →
      ∀ other, other ≠ thread → ¬ (s.pc other).InFlight))
  | .call _ _ | .setBusy _ | .fetch _ | .complete _ => isTrue trivial

end Runs

def issueAndPoll (thread : Fin 2) (slot : Nat) : List (FpdmaEvent (Fin 2)) :=
  [.call thread slot, .access thread, .access thread, .access thread, .access thread, .fetch slot]

/-- Two threads make a transfer each, one after the other. -/
theorem sync_fpdma_completion_in_turn :
    ∃ s : Port (Fin 2),
      Reaches Port.step (fun s event => s.Distinct event ∧ s.Alone event) init s ∧
      s.pc 0 = .returned 0 ∧ s.pc 1 = .returned 1 ∧ s.completed 0 = true ∧
      s.completed 1 = true := by
  have executed : ∃ s ∈ execute Port.step (fun s event => s.Distinct event ∧ s.Alone event)
      (issueAndPoll 0 0 ++ [.complete 0, .access 0, .access 0, .access 0] ++
        issueAndPoll 1 1 ++ [.complete 1, .access 1, .access 1, .access 1]) init,
      s.pc 0 = .returned 0 ∧ s.pc 1 = .returned 1 := by
    decide
  obtain ⟨s, run, first, second⟩ := exists_reaches_of_execute executed
  have sound := sync_fpdma_completion run
  exact ⟨s, run, first, second, sound.success 0 0 first, sound.success 1 1 second⟩

/-- Both threads have issued their commands, and the first one completes.  The second thread
    takes the report: it returns `S_OK` while the device works on its command, and the first
    thread goes on polling for a bit that is clear. -/
theorem sync_fpdma_takes_report :
    ∃ s : Port (Fin 2), Reaches Port.step Distinct init s ∧
      s.pc 1 = .returned 1 ∧ s.completed 1 = false ∧ s.pending 1 = some 1 ∧
      s.pc 0 = .polling 0 ∧ s.completed 0 = true ∧ s.sdbs = false := by
  have executed : ∃ s ∈ execute Port.step Distinct
      (issueAndPoll 0 0 ++ issueAndPoll 1 1 ++ [.complete 0, .access 1, .access 1, .access 1])
      (init : Port (Fin 2)),
      s.pc 1 = .returned 1 ∧ s.completed 1 = false ∧ s.pending 1 = some 1 ∧
      s.pc 0 = .polling 0 ∧ s.completed 0 = true ∧ s.sdbs = false := by
    decide
  exact exists_reaches_of_execute executed

end Port

end Xdk.Ahci
