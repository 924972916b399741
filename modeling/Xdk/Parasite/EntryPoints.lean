import Xdk.Parasite.Interrupts

/-! # The entry points of a device

Every attached device has its own files, and a process that has not been granted the
device should not be able to change anything about it.  The handlers of the files below
`/sys` ask `check_authority` first, all but `irq_mode_show`; those of the files below
`/proc`, which everyone may open, do not ask at all.
-/

namespace Xdk.Parasite

/-- The calls of the handlers of a device, with what is read from the text and with the
    answers of the kernel. -/
inductive DeviceCall where
  | dmaAllocStore (request : Option AllocRequest) (answers : AllocAnswers)
  | dmaAllocShow
  | dmaFreeStore (request : FreeRequest)
  | msiAllocStore (numVecs : Option Nat) (count : Nat) (answers : MsiAnswers)
  | irqModeShow (buf : Option Nat)
  | irqModeStore (mode : Option Nat)
  | grantAccessStore (physAddr : Option Nat)
  | msiProcRead (queue : Nat) (signalPending : Bool)
  | msiProcWrite (queue : Nat)

def dmaAllocShow (s : State) (device : Nat) (caller : Caller) :
    Option (Except Errno (List PkDmaArea)) := do
  let pkdev ← s.devices[device]?
  if !s.checkAuthority pkdev.pciDev caller then
    return .error .eperm
  return .ok (pkdev.dmaAreas.filter fun area => area.ownerPid = caller.pid)

namespace Kernel

def onState (k : Kernel) (stored : Option (Except Errno Unit × State)) :
    Option (Outcome × Kernel) :=
  stored.map fun (result, s) => (.ofExcept result, { k with state := s })

def call (k : Kernel) (device : Nat) (caller : Caller) : DeviceCall → Option (Outcome × Kernel)
  | .dmaAllocStore request answers =>
    k.onState (Parasite.dmaAllocStore k.state device caller request answers)
  | .dmaAllocShow =>
    (Parasite.dmaAllocShow k.state device caller).map fun shown =>
      (.ofExcept (shown.map fun _ => ()), k)
  | .dmaFreeStore request => k.onState (Parasite.dmaFreeStore k.state device caller request)
  | .msiAllocStore numVecs count answers =>
    Parasite.msiAllocStore k device caller numVecs count answers
  | .irqModeShow buf => Parasite.irqModeShow k device buf
  | .irqModeStore mode => Parasite.irqModeStore k device caller mode
  | .grantAccessStore physAddr =>
    k.onState (Parasite.grantAccessStore k.state device caller physAddr)
  | .msiProcRead queue signalPending => Parasite.msiProcRead k device queue signalPending
  | .msiProcWrite queue => Parasite.msiProcWrite k device queue

/-- What a device consists of: its areas, its interrupt fields with the flags of the wait
    queues, and how often the vector of each queue has been disabled. -/
def view (k : Kernel) (device : Nat) : Option (List PkDmaArea × PkIrq × (Nat → Nat)) :=
  k.state.devices[device]?.map fun pkdev =>
    let irq := k.irqs pkdev.minor
    (pkdev.dmaAreas, irq, fun queue => k.irqDepth (irq.msiIrqWaitQueue queue).irq)

/-- The calls that change nothing when the caller has no authority: all but those of the
    three handlers that do not ask for it, and of these the ones that find nothing to
    change. -/
def Quiet (k : Kernel) (pkdev : PkDevice) : DeviceCall → Prop
  | .irqModeShow (some mode) => mode = (k.irqs pkdev.minor).irqMode
  | .msiProcRead queue _ => ((k.irqs pkdev.minor).msiIrqWaitQueue queue).signalled = 0
  | .msiProcWrite queue =>
    (k.irqs pkdev.minor).irqMode = irqModeMasking →
      k.irqDepth ((k.irqs pkdev.minor).msiIrqWaitQueue queue).irq = 0
  | _ => True

end Kernel

section Unauthorised

variable {k : Kernel} {device : Nat} {pkdev : PkDevice} {caller : Caller}

section

variable (attached : k.state.devices[device]? = some pkdev)
include attached

end

end Unauthorised

end Xdk.Parasite
