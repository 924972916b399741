import Mathlib.Algebra.Group.Nat.Defs
import Xdk.Lib.Transition

/-! # The parasitic kernel module

The module hands PCI devices and DMA memory to user processes.  A process that has been
granted a device allocates blocks of pages for it, gives them back, shares them with
other processes, and maps them into its address space.  The records of the blocks are
kept in one list for each device, and every entry of the module searches these lists.

Each call of a handler is one step.  What the kernel answers to the calls of the module
(`alloc_pages`, `dma_map_page`, and so on) comes with the event.
-/

namespace Xdk.Parasite

open Xdk.Lib

inductive Errno where
  | eperm
  | einval
  | erange
  | enomem
  | eagain
  | eio
  deriving DecidableEq, Repr

abbrev unsignedLong (value : Nat) : Nat := value % 2 ^ 64

def pageSize : Nat := 4096

/-- `MAX_ORDER`, one more than the order of the largest block. -/
def maxOrder : Nat := 11

def maxDevices : Nat := 2 ^ 20

/-- `DMA_AREA_FLAG_SHARED_ALL`, which has no bit set. -/
def dmaAreaFlagSharedAll : Nat := 0x0

/-! ## State -/

structure Caller where
  pid : Nat
  uid : Nat
  deriving DecidableEq, Repr

structure PciDev where
  domain : Nat
  bus : Nat
  slot : Nat
  func : Nat
  deriving DecidableEq, Repr

structure Block where
  page : Nat
  order : Nat
  deriving DecidableEq, Repr

/-- `pk_dma_area`.  `granted` is history and read by no handler: it says that the owner
    has shared the area. -/
structure PkDmaArea where
  page : Nat
  handle : Nat
  dmaDirection : Int
  nodeId : Int
  order : Nat
  physAddr : Nat
  ownerPid : Nat
  flags : Nat
  granted : Bool
  deriving DecidableEq, Repr

structure PkDeviceGrant where
  bus : Nat
  slot : Nat
  func : Nat
  uid : Nat
  deriving DecidableEq, Repr

structure PkDevice where
  minor : Nat
  pciDev : PciDev
  dmaAreas : List PkDmaArea
  deriving DecidableEq, Repr

structure State where
  devices : List PkDevice
  grants : List PkDeviceGrant
  blocks : List Block
  deriving DecidableEq, Repr

namespace State

def init : State := ⟨[], [], []⟩

def areas (s : State) : List PkDmaArea := s.devices.flatMap PkDevice.dmaAreas

end State

/-! ## Authority -/

def isDeviceGranted (grants : List PkDeviceGrant) (bus slot func uid : Nat) : Bool :=
  grants.any fun grant =>
    grant.bus = bus && grant.slot = slot && grant.func = func && grant.uid = uid

def State.checkAuthority (s : State) (pciDev : PciDev) (caller : Caller) : Bool :=
  isDeviceGranted s.grants pciDev.bus pciDev.slot pciDev.func caller.uid

def PkDmaArea.ownedAt (pid addr : Nat) (area : PkDmaArea) : Bool :=
  area.ownerPid = pid && area.physAddr = addr

/-- `get_owned_dma_area`: the first match in the list of the first device that has one. -/
def getOwnedDmaArea (devices : List PkDevice) (pid addr : Nat) : Option PkDmaArea :=
  devices.findSome? fun device => device.dmaAreas.find? (PkDmaArea.ownedAt pid addr)

def updateOwnedDmaArea (pid addr : Nat) (update : PkDmaArea → PkDmaArea)
    (devices : List PkDevice) : List PkDevice :=
  let owned := PkDmaArea.ownedAt pid addr
  devices.modify (devices.findIdx fun device => device.dmaAreas.any owned) fun device =>
    { device with dmaAreas := device.dmaAreas.modify (device.dmaAreas.findIdx owned) update }

/-! ## Allocation -/

/-- The numbers that `dma_alloc_store` reads; a direction that is missing is 0. -/
structure AllocRequest where
  numPages : Nat
  nodeId : Int
  direction : Int
  numPages_lt : numPages < 2 ^ 64
  deriving DecidableEq, Repr

/-- What the kernel answers in a call of `dma_alloc_store`: the result of `clz` on 0, the
    current node, whether there is memory for the record, the block, the DMA handle of
    `dma_map_page`, and what `dma_to_phys` makes of the handle. -/
structure AllocAnswers where
  clzOfZero : Fin 65
  numaNodeId : Int
  record : Bool
  page : Option Nat
  handle : Nat
  physAddr : Nat
  deriving DecidableEq, Repr

/-- `__builtin_clzl`, which is undefined on 0. -/
def builtinClzl (clzOfZero : Fin 65) (value : Nat) : Nat :=
  if value = 0 then clzOfZero else 63 - Nat.log2 value

def allocOrder (clzOfZero : Fin 65) (numPages : Nat) : Nat :=
  let order := 64 - builtinClzl clzOfZero numPages
  if 2 ^ (order - 1) = numPages then order - 1 else order

def newArea (caller : Caller) (request : AllocRequest) (answers : AllocAnswers)
    (order page : Nat) : PkDmaArea where
  page := page
  handle := answers.handle
  dmaDirection := request.direction
  nodeId := if request.nodeId < 0 then answers.numaNodeId else request.nodeId
  order := order
  physAddr := answers.physAddr
  ownerPid := caller.pid
  flags := 0
  granted := false

def State.addArea (s : State) (device : Nat) (area : PkDmaArea) : State :=
  { s with devices := s.devices.modify device fun pkdev =>
      { pkdev with dmaAreas := area :: pkdev.dmaAreas } }

/-- `dma_alloc_store` on the device at an index of the list.  The result `.ok` is `count`,
    here and below.  Without memory for the record the module writes through a null
    pointer: that is `none`. -/
def dmaAllocStore (s : State) (device : Nat) (caller : Caller) (request : Option AllocRequest)
    (answers : AllocAnswers) : Option (Except Errno Unit × State) := do
  let pkdev ← s.devices[device]?
  if !s.checkAuthority pkdev.pciDev caller then
    return (.error .eperm, s)
  match request with
  | none => return (.error .einval, s)
  | some request =>
    let order := allocOrder answers.clzOfZero request.numPages
    if maxOrder ≤ order then
      return (.error .erange, s)
    if !answers.record then
      none
    match answers.page with
    | none => return (.error .enomem, s)
    | some page =>
      let s := { s with blocks := ⟨page, order⟩ :: s.blocks }
      -- the record is freed, the block is not
      if answers.handle = 0 then
        return (.error .enomem, s)
      return (.ok (), s.addArea device (newArea caller request answers order page))

/-! ## Release and sharing -/

inductive FreeRequest where
  | address (physAddr : Nat)
  | all
  | other
  deriving DecidableEq, Repr

def FreeRequest.physAddr : FreeRequest → Nat
  | .address physAddr => physAddr
  | .all => 0
  | .other => 0

def FreeRequest.freeAll : FreeRequest → Bool
  | .address _ => false
  | .all => true
  | .other => false

def freeAreas (pid physAddr : Nat) (freeAll : Bool) : List PkDmaArea → List PkDmaArea
  | [] => []
  | area :: rest =>
    if area.ownerPid ≠ pid then area :: freeAreas pid physAddr freeAll rest
    else if freeAll || area.physAddr = physAddr then
      if freeAll then freeAreas pid physAddr freeAll rest else rest
    else area :: freeAreas pid physAddr freeAll rest

/-- `dma_free_store`, which removes records and frees no page. -/
def dmaFreeStore (s : State) (device : Nat) (caller : Caller) (request : FreeRequest) :
    Option (Except Errno Unit × State) := do
  let pkdev ← s.devices[device]?
  if !s.checkAuthority pkdev.pciDev caller then
    return (.error .eperm, s)
  return (.ok (), { s with devices := s.devices.modify device fun pkdev =>
    { pkdev with
      dmaAreas := freeAreas caller.pid request.physAddr request.freeAll pkdev.dmaAreas } })

/-- `free_dma_memory`, which no other function of the module calls. -/
def freeDmaMemory (s : State) (device : Nat) (caller : Caller) : State :=
  { s with devices := s.devices.modify device fun pkdev =>
      { pkdev with dmaAreas := pkdev.dmaAreas.filter fun area => area.ownerPid ≠ caller.pid } }

def PkDmaArea.share (area : PkDmaArea) : PkDmaArea :=
  { area with flags := area.flags ||| dmaAreaFlagSharedAll, granted := true }

/-- `grant_access_store`.  Authority is checked for the device that is written to, and the
    area is searched in all devices. -/
def grantAccessStore (s : State) (device : Nat) (caller : Caller) (physAddr : Option Nat) :
    Option (Except Errno Unit × State) := do
  let pkdev ← s.devices[device]?
  if !s.checkAuthority pkdev.pciDev caller then
    return (.error .eperm, s)
  match physAddr with
  | none => return (.error .einval, s)
  | some physAddr =>
    match getOwnedDmaArea s.devices caller.pid physAddr with
    | none => return (.error .einval, s)
    | some _ => return (.ok (), { s with
        devices := updateOwnedDmaArea caller.pid physAddr PkDmaArea.share s.devices })

/-! ## Devices -/

def State.grantDeviceStore (s : State) (grant : PkDeviceGrant) : State :=
  { s with grants := grant :: s.grants }

def State.probe (s : State) (caller : Caller) (pciDev : PciDev) (minor : Nat) :
    Except Errno Unit × State :=
  if !s.checkAuthority pciDev caller then (.error .einval, s)
  else (.ok (), { s with devices := ⟨minor, pciDev, []⟩ :: s.devices })

def State.detachStore (s : State) (minor : Nat) : State :=
  { s with devices := s.devices.eraseP fun device => device.minor = minor }

/-! ## Mapping -/

/-- The part of a `vm_area_struct` that `fops_mmap` uses.  The offset is that of a byte
    offset of 64 bits. -/
structure VmArea where
  vmStart : Nat
  vmEnd : Nat
  vmPgoff : Nat
  vmPgoff_lt : vmPgoff < 2 ^ 52
  deriving DecidableEq, Repr

namespace VmArea

def phys (vma : VmArea) : Nat := unsignedLong (vma.vmPgoff * pageSize)

def pages (vma : VmArea) : Nat := (vma.vmEnd - vma.vmStart + (pageSize - 1)) / pageSize

theorem phys_eq (vma : VmArea) : vma.phys = vma.vmPgoff * pageSize := by
  have := vma.vmPgoff_lt
  simp only [phys, unsignedLong, pageSize]
  omega

end VmArea

structure PfnRange where
  first : Nat
  count : Nat
  deriving DecidableEq, Repr

/-- `fops_mmap`; `remapped` says whether `remap_pfn_range` succeeds. -/
def fopsMmap (s : State) (pid : Nat) (vma : VmArea) (remapped : Bool) : Except Errno PfnRange :=
  if vma.vmEnd < vma.vmStart then .error .einval
  else
    match getOwnedDmaArea s.devices pid vma.phys with
    | none => .error .eperm
    | some _ => if remapped then .ok ⟨vma.vmPgoff, vma.pages⟩ else .error .eagain

/-! ## Runs -/

def Block.limit (block : Block) : Nat := block.page + 2 ^ block.order

/-- What can be expected of `alloc_pages`: a block is aligned, of physical memory, and not
    handed out already. -/
def AllocAnswers.honest (answers : AllocAnswers) (blocks : List Block) (order : Nat) : Bool :=
  match answers.page with
  | none => true
  | some page =>
    page % 2 ^ order = 0 && page < 2 ^ 52 &&
      blocks.all fun block => block.limit ≤ page || page + 2 ^ order ≤ block.page

/-- There is no IOMMU in between: what `dma_to_phys` returns for the handle of a block is the
    physical address of the block. -/
def AllocAnswers.Direct (answers : AllocAnswers) : Prop :=
  ∀ page ∈ answers.page, answers.handle ≠ 0 → answers.physAddr = page * pageSize

inductive Event where
  | grantDevice (grant : PkDeviceGrant)
  | attach (caller : Caller) (pciDev : PciDev) (minor : Nat)
  | detach (minor : Nat)
  | dmaAlloc (device : Nat) (caller : Caller) (request : Option AllocRequest)
      (answers : AllocAnswers)
  | dmaFree (device : Nat) (caller : Caller) (request : FreeRequest)
  | freeDmaMemory (device : Nat) (caller : Caller)
  | grantAccess (device : Nat) (caller : Caller) (physAddr : Option Nat)
  deriving DecidableEq

def Event.Direct : Event → Prop
  | .dmaAlloc _ _ _ answers => answers.Direct
  | _ => True

namespace State

def expected (s : State) : Event → Bool
  | .attach _ _ minor => minor < maxDevices && s.devices.all fun device => device.minor ≠ minor
  | .dmaAlloc _ _ (some request) answers =>
    answers.honest s.blocks (allocOrder answers.clzOfZero request.numPages)
  | _ => true

def step (s : State) : Event → Option State
  | .grantDevice grant => some (s.grantDeviceStore grant)
  | .attach caller pciDev minor => some (s.probe caller pciDev minor).2
  | .detach minor => some (s.detachStore minor)
  | .dmaAlloc device caller request answers =>
    (dmaAllocStore s device caller request answers).map Prod.snd
  | .dmaFree device caller request => (dmaFreeStore s device caller request).map Prod.snd
  | .freeDmaMemory device caller => some (freeDmaMemory s device caller)
  | .grantAccess device caller physAddr =>
    (grantAccessStore s device caller physAddr).map Prod.snd

abbrev Reachable : State → Prop := Reaches step (fun s event => s.expected event = true) init

/-- The states that are reached without an IOMMU. -/
abbrev DirectReachable : State → Prop :=
  Reaches step (fun s event => s.expected event = true ∧ event.Direct) init

end State

end Xdk.Parasite
