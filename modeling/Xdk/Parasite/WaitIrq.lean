import Mathlib.Logic.Function.Basic
import Xdk.Lib.Transition

/-! # Waiting for a conventional interrupt

`wait_irq` of `pk_class.c` waits until `irq_wait_flag` is set and clears it.  The flag is the
business of `interrupt_handler` in `pk_pci.c`, which stores 0 there as well, and whose call of
`wake_up_interruptible` is commented out.  So the flag is never set: a process that waits comes
back when it gets a signal and at no other time.

`wait_event_interruptible` tests the condition once, puts the process on the queue, and then tests
again before it sleeps and whenever it is woken.  What the macro returns after a signal is ignored
by `wait_irq`, which goes on as after an interrupt.
-/

namespace Xdk.Parasite

open Xdk.Lib Function

def pkMagic : Nat := 0xfeeb1e00

inductive WaitPc where
  | outside
  -- before the first test
  | test
  -- on the queue, about to test again
  | queued
  | asleep
  -- behind the wait, about to clear the flag
  | clear
  deriving DecidableEq, Repr

inductive IrqReturn where
  | handled
  | none
  deriving DecidableEq, Repr

/-- The fields of `pk_device` for conventional interrupts, and the processes.  `unconsumed` is
    history: there has been an interrupt, and no `wait_irq` has cleared the flag since. -/
structure IrqWait (Process : Type*) where
  magic : Nat
  irqWaitFlag : Int
  processes : Process → WaitPc
  signalPending : Process → Bool
  unconsumed : Bool

inductive IrqWaitEvent (Process : Type*) where
  | interrupt
  | waitIrq (process : Process)
  | process (process : Process)
  | signal (process : Process)
  deriving DecidableEq

namespace IrqWait

variable {Process : Type*}

def init : IrqWait Process where
  magic := pkMagic
  irqWaitFlag := 0
  processes := fun _ => .outside
  signalPending := fun _ => false
  unconsumed := false

def interruptHandler (s : IrqWait Process) : IrqReturn × IrqWait Process :=
  if s.magic = pkMagic then (.handled, { s with irqWaitFlag := 0, unconsumed := true })
  else (.none, s)

/-! ## What a process may expect -/

/-- The next run of the handler makes the condition true and wakes the process. -/
def WokenByInterrupt (s : IrqWait Process) (process : Process) : Prop :=
  s.interruptHandler.2.irqWaitFlag ≠ 0 ∧ s.interruptHandler.2.processes process ≠ .asleep

def Looks (s : IrqWait Process) (process : Process) : Prop :=
  s.processes process = .test ∨ s.processes process = .queued

/-! ## Nobody sets the flag -/

/-- The flag is clear, and whoever is behind the wait got there by a signal. -/
structure NeverSet (s : IrqWait Process) : Prop where
  magic : s.magic = pkMagic
  flag : s.irqWaitFlag = 0
  signalled : ∀ process, s.processes process = .clear → s.signalPending process = true

theorem neverSet_init : NeverSet (init : IrqWait Process) := by
  constructor
  · rfl
  · rfl
  · intro process behind
    cases behind

theorem NeverSet.interruptHandler {s : IrqWait Process} (never : NeverSet s) :
    s.interruptHandler = (.handled, { s with irqWaitFlag := 0, unconsumed := true }) := by
  simp [IrqWait.interruptHandler, never.magic]

/-! ## Runs -/

variable [DecidableEq Process]

def setPc (s : IrqWait Process) (process : Process) (pc : WaitPc) : IrqWait Process :=
  { s with processes := Function.update s.processes process pc }

/-- The next access of a process; one that is asleep has none. -/
def access (s : IrqWait Process) (process : Process) : Option (IrqWait Process) :=
  match s.processes process with
  | .outside => none
  | .test => some (s.setPc process (if s.irqWaitFlag ≠ 0 then .clear else .queued))
  | .queued =>
    some (s.setPc process
      (if s.irqWaitFlag ≠ 0 ∨ s.signalPending process = true then .clear else .asleep))
  | .asleep => none
  | .clear =>
    some { s.setPc process .outside with
      irqWaitFlag := 0
      signalPending := Function.update s.signalPending process false
      unconsumed := false }

def signal (s : IrqWait Process) (process : Process) : IrqWait Process :=
  { s with
    signalPending := Function.update s.signalPending process true
    processes := Function.update s.processes process
      (if s.processes process = .asleep then .queued else s.processes process) }

def step (s : IrqWait Process) : IrqWaitEvent Process → Option (IrqWait Process)
  | .interrupt => some s.interruptHandler.2
  | .waitIrq process =>
    match s.processes process with
    | .outside => some (s.setPc process .test)
    | _ => none
  | .process process => s.access process
  | .signal process => some (s.signal process)

abbrev Reachable (s : IrqWait Process) : Prop := Reaches step (fun _ _ => True) init s

variable {s s' : IrqWait Process}

theorem NeverSet.setPc {process : Process} {pc : WaitPc} (never : NeverSet s)
    (signalled : pc = .clear → s.signalPending process = true) : NeverSet (s.setPc process pc) := by
  constructor
  · exact never.magic
  · exact never.flag
  · intro o behind
    by_cases same : o = process
    · subst same
      simp only [IrqWait.setPc, update_self] at behind
      exact signalled behind
    · simp only [IrqWait.setPc, update_of_ne same] at behind
      exact never.signalled o behind

theorem NeverSet.access {process : Process} (never : NeverSet s)
    (step : s.access process = some s') : NeverSet s' := by
  simp only [IrqWait.access] at step
  cases pc : s.processes process with
  | outside | asleep =>
    rw [pc] at step
    cases step
  | test =>
    simp only [pc, never.flag, Option.some.injEq] at step
    subst step
    apply never.setPc
    intro behind
    cases behind
  | queued =>
    simp only [pc, never.flag, Option.some.injEq] at step
    subst step
    apply never.setPc
    intro behind
    by_contra unsignalled
    simp [unsignalled] at behind
  | clear =>
    simp only [pc, Option.some.injEq] at step
    subst step
    constructor
    · exact never.magic
    · rfl
    · intro o behind
      by_cases same : o = process
      · subst same
        simp [IrqWait.setPc] at behind
      · simp only [IrqWait.setPc, update_of_ne same] at behind ⊢
        exact never.signalled o behind

theorem NeverSet.signal (never : NeverSet s) (process : Process) : NeverSet (s.signal process) := by
  constructor
  · exact never.magic
  · exact never.flag
  · intro o behind
    by_cases same : o = process
    · subst same
      simp [IrqWait.signal]
    · simp only [IrqWait.signal, update_of_ne same] at behind ⊢
      exact never.signalled o behind

theorem NeverSet.step {ev : IrqWaitEvent Process} (never : NeverSet s)
    (step : s.step ev = some s') : NeverSet s' := by
  cases ev with
  | interrupt =>
    simp only [IrqWait.step, never.interruptHandler, Option.some.injEq] at step
    subst step
    exact ⟨never.magic, rfl, never.signalled⟩
  | waitIrq process =>
    simp only [IrqWait.step] at step
    split at step
    · cases step
      apply never.setPc
      intro behind
      cases behind
    · cases step
  | process process => exact never.access step
  | signal process =>
    simp only [IrqWait.step, Option.some.injEq] at step
    subst step
    exact never.signal process

theorem Reachable.neverSet (run : Reachable s) : NeverSet s :=
  run.invariant neverSet_init fun never _ step => never.step step

/-- In every run: an interrupt wakes no process that is asleep in `wait_irq`, and a process that
    tests the condition while an interrupt is unconsumed does not find it true.  Only signals end a
    wait. -/
theorem wait_irq_not_woken (run : Reachable s) (process : Process) :
    (s.processes process = .asleep → ¬ s.WokenByInterrupt process) ∧
      (s.unconsumed = true → s.Looks process → ¬ s.irqWaitFlag ≠ 0) ∧
      (s.processes process = .clear → s.signalPending process = true) := by
  have never := run.neverSet
  constructor
  · intro _ woken
    apply woken.1
    rw [never.interruptHandler]
  · constructor
    · intro _ _ set
      exact set never.flag
    · exact never.signalled process

def interruptBetween : List (IrqWaitEvent Bool) :=
  [.waitIrq false, .process false, .process false, .interrupt, .waitIrq true]

/-- One process is asleep while the interrupt is unconsumed, and the other one is about to test. -/
theorem wait_irq_not_woken_two : ∃ s : IrqWait Bool, Reachable s ∧
    s.processes false = .asleep ∧ ¬ s.WokenByInterrupt false ∧
      s.unconsumed = true ∧ s.Looks true ∧ ¬ s.irqWaitFlag ≠ 0 := by
  have executed : ∃ s ∈ execute step (fun _ _ => True) interruptBetween init,
      s.processes false = .asleep ∧ s.unconsumed = true ∧ s.processes true = .test := by
    simp [interruptBetween, execute, step, access, setPc, init, interruptHandler]
  obtain ⟨s, run, asleep, unconsumed, looks⟩ := exists_reaches_of_execute executed
  have missed := wait_irq_not_woken run
  exact ⟨s, run, asleep, (missed false).1 asleep, unconsumed, .inl looks,
    (missed true).2.1 unconsumed (.inl looks)⟩

/-- A process is asleep when the handler runs, and stays asleep with the flag clear; a second
    process that comes afterwards goes to sleep, too. -/
theorem wait_irq_misses_interrupt : ∃ s₀ s₁ s₂ : IrqWait Bool, Reachable s₀ ∧
    s₀.processes false = .asleep ∧ s₀.step .interrupt = some s₁ ∧
      s₁.processes false = .asleep ∧ s₁.irqWaitFlag = 0 ∧
      Reaches step (fun _ event => event ≠ .process false) s₁ s₂ ∧ s₂.unconsumed = true ∧
      s₂.processes true = .asleep := by
  have before : ∃ s₀ ∈ execute step (fun _ _ => True)
      [.waitIrq false, .process false, .process false] init,
      s₀.processes false = .asleep ∧ ∃ s₁ ∈ s₀.step .interrupt,
      s₁.processes false = .asleep ∧ s₁.irqWaitFlag = 0 ∧
      ∃ s₂ ∈ execute step (fun _ event => event ≠ .process false)
        [.waitIrq true, .process true, .process true] s₁,
      s₂.unconsumed = true ∧ s₂.processes true = .asleep := by
    simp [execute, step, access, setPc, init, interruptHandler]
  obtain ⟨s₀, reached, asleep, s₁, interrupted, still, clear, s₂, later, unconsumed, too⟩ := before
  exact ⟨s₀, s₁, s₂, execute_reaches reached, asleep, interrupted, still, clear,
    execute_reaches later, unconsumed, too⟩

end IrqWait

end Xdk.Parasite
