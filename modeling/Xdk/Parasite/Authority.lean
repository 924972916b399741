import Xdk.Parasite.Module

/-! # Where the grants of devices come from

A user may drive a device if the grant list has an entry with the bus, slot and function
of the device and with the uid of the user.  Root should be needed to make such an entry.
The entries are made by writes to `grant_device`, a file of the module's class, and what
keeps other users away from it is its mode only: `pk_grant_device_store` asks nothing
about its caller, and the mode lets everyone write.

The address in a grant has no PCI domain, so that on a machine with several domains one
grant can be good for several devices.
-/

namespace Xdk.Parasite

/-! ## The files of the class -/

def sIwusr : Nat := 0o200
def sIwgrp : Nat := 0o020
def sIwoth : Nat := 0o002
def sIwugo : Nat := sIwusr ||| sIwgrp ||| sIwoth

/-- A process that is not root.  The files belong to user and group root. -/
structure Writer where
  caller : Caller
  rootGroup : Bool
  nonRoot : caller.uid ≠ 0
  deriving DecidableEq

def Writer.permitted (writer : Writer) (mode : Nat) : Bool :=
  if writer.rootGroup then mode &&& sIwgrp ≠ 0 else mode &&& sIwoth ≠ 0

theorem Writer.permitted_sIwugo (writer : Writer) : writer.permitted sIwugo = true := by
  simp only [Writer.permitted]
  split <;> rfl

/-- A write to a file of the class: what is read from the text, and for `new_id` also the
    answer of `pci_add_dynid` and the devices that are probed with their minor numbers. -/
inductive ClassWrite where
  | grantDevice (fields : Option PkDeviceGrant)
  | newId (fields : Nat) (dynid : Option Errno) (probed : List (PciDev × Nat))
  | detach (minor : Nat)
  deriving DecidableEq

def ClassWrite.mode : ClassWrite → Nat
  | .grantDevice _ => sIwugo
  | .newId _ _ _ => sIwusr ||| sIwoth
  | .detach _ => sIwusr

def State.pkGrantDeviceStore (s : State) : Option PkDeviceGrant → Except Errno Unit × State
  | none => (.error .einval, s)
  | some grant => (.ok (), s.grantDeviceStore grant)

/-- `pk_new_id_store`.  The driver has no table of identifiers to compare with. -/
def State.pkNewIdStore (s : State) (caller : Caller) (fields : Nat) (dynid : Option Errno)
    (probed : List (PciDev × Nat)) : Except Errno Unit × State :=
  if fields < 2 then (.error .einval, s)
  else
    match dynid with
    | some errno => (.error errno, s)
    | none => (.ok (), probed.foldl (fun s found => (s.probe caller found.1 found.2).2) s)

/-- A write of a process, which happens only if the mode of the file permits it. -/
def State.classWrite (s : State) (writer : Writer) (write : ClassWrite) : State :=
  if writer.permitted write.mode then
    match write with
    | .grantDevice fields => (s.pkGrantDeviceStore fields).2
    | .newId fields dynid probed => (s.pkNewIdStore writer.caller fields dynid probed).2
    | .detach minor => s.detachStore minor
  else s

def State.classWrites (s : State) : List (Writer × ClassWrite) → State
  | [] => s
  | (writer, write) :: writes => (s.classWrite writer write).classWrites writes

/-! ## What the writes do to the grants -/

def grantLines : List (Writer × ClassWrite) → List PkDeviceGrant
  | [] => []
  | (_, .grantDevice (some grant)) :: writes => grant :: grantLines writes
  | _ :: writes => grantLines writes

def PkDeviceGrant.names (grant : PkDeviceGrant) (pciDev : PciDev) : Prop :=
  grant.bus = pciDev.bus ∧ grant.slot = pciDev.slot ∧ grant.func = pciDev.func

theorem State.checkAuthority_iff {s : State} {pciDev : PciDev} {c : Caller} :
    s.checkAuthority pciDev c = true ↔
      ∃ grant ∈ s.grants, grant.names pciDev ∧ grant.uid = c.uid := by
  simp only [checkAuthority, isDeviceGranted, List.any_eq_true, Bool.and_eq_true,
    decide_eq_true_eq, PkDeviceGrant.names, and_assoc]

theorem foldl_probe_grants (c : Caller) (probed : List (PciDev × Nat)) (s : State) :
    (probed.foldl (fun s found => (s.probe c found.1 found.2).2) s).grants = s.grants := by
  induction probed generalizing s with
  | nil => rfl
  | cons found probed ih =>
    rw [List.foldl_cons, ih]
    simp only [State.probe]
    split <;> rfl

theorem State.pkNewIdStore_grants (s : State) (c : Caller) (fields : Nat)
    (dynid : Option Errno) (probed : List (PciDev × Nat)) :
    (s.pkNewIdStore c fields dynid probed).2.grants = s.grants := by
  simp only [pkNewIdStore]
  split
  · rfl
  · cases dynid with
    | some errno => rfl
    | none => exact foldl_probe_grants c probed s

/-- Every line counts, whoever has written it. -/
theorem State.mem_classWrites_grants {s : State} {writes : List (Writer × ClassWrite)}
    {grant : PkDeviceGrant} :
    grant ∈ (s.classWrites writes).grants ↔ grant ∈ grantLines writes ∨ grant ∈ s.grants := by
  induction writes generalizing s with
  | nil => simp [classWrites, grantLines]
  | cons e writes ih =>
    obtain ⟨writer, write⟩ := e
    rw [classWrites, ih]
    cases write with
    | grantDevice fields =>
      have permitted : writer.permitted (ClassWrite.grantDevice fields).mode = true :=
        writer.permitted_sIwugo
      rw [classWrite, if_pos permitted]
      cases fields with
      | none => rfl
      | some line =>
        simp only [pkGrantDeviceStore, grantDeviceStore, grantLines, List.mem_cons, or_assoc,
          or_left_comm]
    | newId fields dynid probed =>
      simp only [classWrite, grantLines]
      split
      · rw [pkNewIdStore_grants]
      · rfl
    | detach minor =>
      simp only [classWrite]
      split <;> rfl

/-! ## Only root -/

/-- What the grant list is for: writes of others than root change no answer that
    `check_authority` gives to them, and on a machine with the given devices a grant is
    good for one device. -/
structure RootGrants (machine : List PciDev) (s s' : State) : Prop where
  unchanged : ∀ pkdev ∈ s'.devices, ∀ caller : Caller, caller.uid ≠ 0 →
    s'.checkAuthority pkdev.pciDev caller = s.checkAuthority pkdev.pciDev caller
  single : ∀ grant : PkDeviceGrant, ∀ first ∈ machine, ∀ second ∈ machine,
    (State.grantDeviceStore .init grant).checkAuthority first ⟨0, grant.uid⟩ = true →
    (State.grantDeviceStore .init grant).checkAuthority second ⟨0, grant.uid⟩ = true →
    first = second

theorem State.checkAuthority_uid {s : State} {pciDev : PciDev} {c other : Caller}
    (same : c.uid = other.uid) :
    s.checkAuthority pciDev c = s.checkAuthority pciDev other := by
  rw [checkAuthority, checkAuthority, same]

theorem grantDeviceStore_authorises_iff {grant : PkDeviceGrant} {pciDev : PciDev} :
    (State.grantDeviceStore .init grant).checkAuthority pciDev ⟨0, grant.uid⟩ = true ↔
      grant.names pciDev := by
  rw [State.checkAuthority_iff]
  simp [State.grantDeviceStore, State.init]

/-- For every state and every sequence of writes of processes that are not root: they
    leave the authority of these processes alone and a grant is good for one device
    exactly if no line names an attached device for a user other than root who has not
    been granted it already, and no two devices of the machine agree in bus, slot and
    function. -/
theorem device_grants_from_root_iff (machine : List PciDev) (s : State)
    (writes : List (Writer × ClassWrite)) :
    RootGrants machine s (s.classWrites writes) ↔
      (∀ line ∈ grantLines writes, line.uid ≠ 0 → ∀ pkdev ∈ (s.classWrites writes).devices,
        line.names pkdev.pciDev → s.checkAuthority pkdev.pciDev ⟨0, line.uid⟩ = true) ∧
      ∀ first ∈ machine, ∀ second ∈ machine, first.bus = second.bus → first.slot = second.slot →
        first.func = second.func → first = second := by
  constructor
  · intro contract
    refine ⟨fun line written nonRoot pkdev attached named => ?_,
      fun first firstThere second secondThere bus slot func => ?_⟩
    · rw [← contract.unchanged pkdev attached ⟨0, line.uid⟩ nonRoot, State.checkAuthority_iff]
      exact ⟨line, State.mem_classWrites_grants.mpr (.inl written), named, rfl⟩
    · refine contract.single ⟨first.bus, first.slot, first.func, 0⟩ first firstThere second
        secondThere ?_ ?_
      · exact grantDeviceStore_authorises_iff.mpr ⟨rfl, rfl, rfl⟩
      · exact grantDeviceStore_authorises_iff.mpr ⟨bus, slot, func⟩
  · rintro ⟨harmless, distinct⟩
    refine ⟨fun pkdev attached caller nonRoot => ?_,
      fun grant first firstThere second secondThere goodFirst goodSecond => ?_⟩
    · rw [Bool.eq_iff_iff]
      constructor
      · intro authorised
        obtain ⟨grant, listed, named, owner⟩ := State.checkAuthority_iff.mp authorised
        obtain written | old := State.mem_classWrites_grants.mp listed
        · rw [@State.checkAuthority_uid s pkdev.pciDev caller ⟨0, grant.uid⟩ owner.symm]
          exact harmless grant written (owner ▸ nonRoot) pkdev attached named
        · exact State.checkAuthority_iff.mpr ⟨grant, old, named, owner⟩
      · intro authorised
        obtain ⟨grant, listed, named, owner⟩ := State.checkAuthority_iff.mp authorised
        exact State.checkAuthority_iff.mpr
          ⟨grant, State.mem_classWrites_grants.mpr (.inr listed), named, owner⟩
    · obtain ⟨bus₁, slot₁, func₁⟩ := grantDeviceStore_authorises_iff.mp goodFirst
      obtain ⟨bus₂, slot₂, func₂⟩ := grantDeviceStore_authorises_iff.mp goodSecond
      exact distinct first firstThere second secondThere (bus₁.symm.trans bus₂)
        (slot₁.symm.trans slot₂) (func₁.symm.trans func₂)

/-- User 1001 writes a grant for the device of user 1000, and a grant is good for the
    devices of two domains. -/
theorem device_granted_by_user :
    (∃ (s : State) (writer : Writer) (grant : PkDeviceGrant) (pkdev : PkDevice),
      State.Reachable s ∧ pkdev ∈ s.devices ∧
      s.checkAuthority pkdev.pciDev writer.caller = false ∧
      (s.classWrites [(writer, .grantDevice (some grant))]).checkAuthority pkdev.pciDev
        writer.caller = true) ∧
    ∃ (grant : PkDeviceGrant) (first second : PciDev), first ≠ second ∧
      (State.grantDeviceStore .init grant).checkAuthority first ⟨0, grant.uid⟩ = true ∧
      (State.grantDeviceStore .init grant).checkAuthority second ⟨0, grant.uid⟩ = true := by
  let granted : State := ⟨[], [⟨6, 0, 0, 1000⟩], []⟩
  let attached : State := ⟨[⟨0, ⟨0, 6, 0, 0⟩, []⟩], [⟨6, 0, 0, 1000⟩], []⟩
  have grants : State.init.step (.grantDevice ⟨6, 0, 0, 1000⟩) = some granted := rfl
  have attaches : granted.step (.attach ⟨7, 1000⟩ ⟨0, 6, 0, 0⟩ 0) = some attached := rfl
  refine ⟨⟨attached, ⟨⟨8, 1001⟩, false, by decide⟩, ⟨6, 0, 0, 1001⟩, ⟨0, ⟨0, 6, 0, 0⟩, []⟩,
    .next (.next .refl rfl grants) rfl attaches, List.mem_singleton.mpr rfl, rfl, rfl⟩, ?_⟩
  exact ⟨⟨6, 0, 0, 1000⟩, ⟨0, 6, 0, 0⟩, ⟨1, 6, 0, 0⟩, by decide, rfl, rfl⟩

end Xdk.Parasite
