import Mathlib.Logic.Function.Basic
import Xdk.Parasite.Module

/-! # Interrupts of an attached device

A process allocates interrupt vectors for a device, chooses whether a vector is disabled
whenever it fires, and waits for an interrupt by reading the file of the vector below
`/proc/parasite`; a write to that file enables the vector again.

The interrupt part of a device is kept beside the lists of the module and belongs to the
device with the same minor number.  A vector counts how often it has been disabled.
-/

namespace Xdk.Parasite

def irqModeNonmasking : Nat := 1
def irqModeMasking : Nat := 2

def maxMsiVectorsPerDevice : Nat := 32

structure MsixEntry where
  vector : Nat
  entry : Nat
  deriving DecidableEq, Repr

structure InterruptWaitQueue where
  irq : Nat
  signalled : Nat
  deriving DecidableEq, Repr

/-- A handler that `request_threaded_irq` has attached to a vector, for a wait queue. -/
structure Handler where
  vector : Nat
  queue : Nat
  deriving DecidableEq, Repr

/-- The fields of `pk_device` for interrupts, the first vector of the PCI device, and the handlers
    attached for it.  `entryNum` is `msix_entry_num` and `msi_entry_num`, which share their
    place. -/
structure PkIrq where
  irqMode : Nat
  msiSupport : Nat
  entryNum : Nat
  -- no entries if the pointer is null
  msixEntry : List MsixEntry
  msiProcDirEntryNum : Nat
  msiIrqWaitQueue : Nat → InterruptWaitQueue
  pciIrq : Nat
  attached : List Handler

structure Kernel where
  state : State
  irqs : Nat → PkIrq
  irqDepth : Nat → Nat

def Kernel.setIrq (k : Kernel) (minor : Nat) (irq : PkIrq) : Kernel :=
  { k with irqs := Function.update k.irqs minor irq }

@[simp] theorem Kernel.setIrq_self (k : Kernel) (minor : Nat) (irq : PkIrq) :
    (k.setIrq minor irq).irqs minor = irq := by
  simp [Kernel.setIrq]

/-- How a call ends.  `crashed` is a `BUG_ON`, an `ASSERT` or a null pointer. -/
inductive Outcome where
  | done
  | error (errno : Errno)
  | returned (code : Int)
  | crashed
  deriving DecidableEq, Repr

def Outcome.ofExcept : Except Errno Unit → Outcome
  | .ok _ => .done
  | .error errno => .error errno

/-! ## Vectors -/

/-- `enable_irq`, which only warns about a vector that is enabled. -/
def enableIrq (irqDepth : Nat → Nat) (irq : Nat) : Nat → Nat :=
  Function.update irqDepth irq (irqDepth irq - 1)

def disableIrq (irqDepth : Nat → Nat) (irq : Nat) : Nat → Nat :=
  Function.update irqDepth irq (irqDepth irq + 1)

def msiThreadedIrqHandler (irqMode : Nat) (irqDepth : Nat → Nat) (wq : InterruptWaitQueue) :
    (Nat → Nat) × InterruptWaitQueue :=
  (if irqMode = irqModeMasking then disableIrq irqDepth wq.irq else irqDepth,
    { wq with signalled := 1 })

/-! ## Allocation -/

/-- What the kernel answers in a call of `msi_alloc_store`: whether there is memory for
    the entries, the result of `pci_enable_msix` or `pci_enable_msi_block`, the vectors,
    and which of them `request_threaded_irq` accepts. -/
structure MsiAnswers where
  memory : Bool
  enabled : Int
  vectors : Nat → Nat
  pciIrq : Nat
  requested : Nat → Bool

/-- The loop of `setup_msi_handlers` and `setup_msix_handlers`, from a vector on; only the
    second asserts that the vector is not 0. -/
def setupHandlers (asserted : Bool) (requested : Nat → Bool) :
    Nat → List Nat → PkIrq → Outcome × PkIrq
  | _, [], irq => (.done, irq)
  | index, vector :: vectors, irq =>
    if asserted && vector = 0 then (.crashed, irq)
    else
      let wq := { irq.msiIrqWaitQueue index with irq := vector }
      let irq := { irq with msiIrqWaitQueue := Function.update irq.msiIrqWaitQueue index wq }
      if requested index then
        setupHandlers asserted requested (index + 1) vectors { irq with
          msiProcDirEntryNum := irq.msiProcDirEntryNum + 1
          attached := irq.attached ++ [⟨vector, index⟩] }
      else (.error .einval, irq)

def setupMsixHandlers (irq : PkIrq) (answers : MsiAnswers) : Outcome × PkIrq :=
  setupHandlers true answers.requested 0 (irq.msixEntry.map MsixEntry.vector) irq

/-- `setup_msi_handlers`, whose caller asserts that it succeeds. -/
def setupMsiHandlers (irq : PkIrq) (answers : MsiAnswers) : Outcome × PkIrq :=
  let vectors := (List.range irq.entryNum).map fun index => irq.pciIrq + index
  match setupHandlers false answers.requested 0 vectors irq with
  | (.done, irq) => (.done, irq)
  | (_, irq) => (.crashed, irq)

def allocVectors (irq : PkIrq) (numVecs count : Nat) (answers : MsiAnswers) : Outcome × PkIrq :=
  if irq.msiSupport = 2 then
    if !answers.memory then (.crashed, { irq with msixEntry := [] })
    else
      let irq := { irq with
        msixEntry := (List.range numVecs).map fun index => ⟨0, index⟩
        entryNum := numVecs }
      if answers.enabled ≠ 0 then (.returned answers.enabled, irq)
      else
        setupMsixHandlers { irq with
          msixEntry := (List.range numVecs).map fun i => ⟨answers.vectors i, i⟩ } answers
  else if irq.msiSupport = 1 then
    if count > 32 then (.error .einval, irq)
    else
      let irq := { irq with entryNum := numVecs }
      if answers.enabled ≠ 0 then (.returned answers.enabled, irq)
      else setupMsiHandlers { irq with pciIrq := answers.pciIrq } answers
  else (.error .einval, irq)

def msiAllocStore (k : Kernel) (device : Nat) (caller : Caller) (numVecs : Option Nat)
    (count : Nat) (answers : MsiAnswers) : Option (Outcome × Kernel) := do
  let pkdev ← k.state.devices[device]?
  if !k.state.checkAuthority pkdev.pciDev caller then
    return (.error .eperm, k)
  let irq := k.irqs pkdev.minor
  if irq.entryNum > 0 then
    return (.error .eio, k)
  match numVecs with
  | none => return (.error .einval, k)
  | some numVecs =>
    if numVecs > maxMsiVectorsPerDevice || numVecs = 0 then
      return (.error .einval, k)
    let (outcome, irq) := allocVectors irq numVecs count answers
    return (outcome, k.setIrq pkdev.minor irq)

/-! ## The interrupt mode -/

/-- `irq_mode_show`, which parses the buffer it should fill, and checks the mode after it
    has stored it. -/
def irqModeShow (k : Kernel) (device : Nat) (buf : Option Nat) : Option (Outcome × Kernel) := do
  let pkdev ← k.state.devices[device]?
  match buf with
  | none => return (.error .einval, k)
  | some mode =>
    let k := k.setIrq pkdev.minor { k.irqs pkdev.minor with irqMode := mode }
    if mode > 2 || mode = 0 then
      return (.crashed, k)
    return (.done, k)

/-- The loop of `irq_mode_store` over the entries, with `none` for one that is not there. -/
def resetMasking (mode : Nat) : List (Option MsixEntry) → (Nat → Nat) → Bool × (Nat → Nat)
  | [], irqDepth => (true, irqDepth)
  | none :: _, irqDepth => (false, irqDepth)
  | some entry :: entries, irqDepth =>
    if entry.vector = 0 then (false, irqDepth)
    else
      resetMasking mode entries
        (if mode = 1 then enableIrq irqDepth entry.vector else disableIrq irqDepth entry.vector)

def irqModeStore (k : Kernel) (device : Nat) (caller : Caller) (mode : Option Nat) :
    Option (Outcome × Kernel) := do
  let pkdev ← k.state.devices[device]?
  if !k.state.checkAuthority pkdev.pciDev caller then
    return (.error .eperm, k)
  match mode with
  | none => return (.error .einval, k)
  | some mode =>
    let irq := k.irqs pkdev.minor
    let irq := { irq with
      irqMode := if mode = 1 then irqModeNonmasking
        else if mode = 2 then irqModeMasking else irq.irqMode }
    let entries := (List.range irq.entryNum).map fun index => irq.msixEntry[index]?
    let (passed, irqDepth) := resetMasking mode entries k.irqDepth
    return (if passed then .done else .crashed,
      { k.setIrq pkdev.minor irq with irqDepth := irqDepth })

/-! ## The files below `/proc/parasite` -/

/-- `msi_proc_read` on the file of a wait queue.  Without an interrupt the call goes on
    waiting (`none`), unless a signal ends it. -/
def msiProcRead (k : Kernel) (device queue : Nat) (signalPending : Bool) :
    Option (Outcome × Kernel) := do
  let pkdev ← k.state.devices[device]?
  let irq := k.irqs pkdev.minor
  let wq := irq.msiIrqWaitQueue queue
  if wq.signalled ≠ 0 then
    return (.done, k.setIrq pkdev.minor { irq with
      msiIrqWaitQueue := Function.update irq.msiIrqWaitQueue queue { wq with signalled := 0 } })
  else if signalPending then
    return (.done, k)
  else none

def msiProcWrite (k : Kernel) (device queue : Nat) : Option (Outcome × Kernel) := do
  let pkdev ← k.state.devices[device]?
  let irq := k.irqs pkdev.minor
  if irq.irqMode = irqModeMasking then
    return (.done, { k with irqDepth := enableIrq k.irqDepth (irq.msiIrqWaitQueue queue).irq })
  return (.done, k)

end Xdk.Parasite
