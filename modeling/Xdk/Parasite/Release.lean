import Xdk.Lib.Numerals
import Xdk.Parasite.Areas

/-! # What a release removes

A process writes an address or a star to the file `dma_page_free`.  The text decides which records
go: `sscanf` reads an address behind `0x`, and a text without one is a request for everything if
it begins with a star.  Any other text leaves the address 0 in its variable, and the loop of
`dma_free_store` looks for that: it finds nothing, because `dma_alloc_store` records no area with
the handle 0, and `dma_to_phys` does not return 0 for another one.
-/

namespace Xdk.Parasite

open Xdk.Lib

/-! ## The text -/

/-- `sscanf(buf, "0x%lx", &phys_addr)`: white space and a second mark may come before the digits,
    and the number is kept as an `unsigned long`. -/
def scanAddress : List Char → Option Nat
  | '0' :: 'x' :: text =>
    let text := text.dropWhile isSpace
    if text.head?.any isHexDigit then
      some (unsignedLong (valueOf 16 ((skipMark text).takeWhile isHexDigit)))
    else none
  | _ => none

def startsWithStar (buf : List Char) : Bool := buf.head? = some '*'

def readFreeRequest (buf : List Char) : FreeRequest :=
  match scanAddress buf with
  | some physAddr => .address physAddr
  | none => if startsWithStar buf then .all else .other

/-- The text that the user library writes for an address. -/
theorem scanAddress_toDigits {address : Nat} {rest : List Char} {c : Char} (ends : Ends c)
    (fits : address < 2 ^ 64) :
    scanAddress ('0' :: 'x' :: (Nat.toDigits 16 address ++ c :: rest)) = some address := by
  have digits : ∀ d ∈ Nat.toDigits 16 address, isHexDigit d = true :=
    fun _ => isHexDigit_of_mem_toDigits (by decide) (by decide)
  have ne : Nat.toDigits 16 address ≠ [] := Nat.toDigits_ne_nil
  obtain ⟨first, others, shape⟩ := List.exists_cons_of_ne_nil ne
  have digit : isHexDigit first = true := digits first (by simp [shape])
  have start : (Nat.toDigits 16 address ++ c :: rest).dropWhile isSpace =
      Nat.toDigits 16 address ++ c :: rest := by
    rw [shape, List.cons_append,
      List.dropWhile_cons_of_neg (by simp [not_isSpace_of_isHexDigit digit])]
  have head : (Nat.toDigits 16 address ++ c :: rest).head?.any isHexDigit = true := by
    rw [shape]
    exact digit
  simp only [scanAddress, start, head, if_true]
  rw [skipMark_digits ne digits (by simpa using ends),
    (takeWhile_digits digits (by simpa using ends.digit)).1,
    valueOf_toDigits (by decide) (by decide), unsignedLong, Nat.mod_eq_of_lt fits]

theorem scanAddress_toDigits_page :
    scanAddress ('0' :: 'x' :: (Nat.toDigits 16 4096 ++ ['\n'])) = some 4096 :=
  scanAddress_toDigits ⟨by decide, by decide, by decide⟩ (by decide)

/-! ## The loop -/

/-- With the star every area of the process goes. -/
theorem freeAreas_all (pid physAddr : Nat) (areas : List PkDmaArea) :
    freeAreas pid physAddr true areas = areas.filter fun area => area.ownerPid ≠ pid := by
  induction areas with
  | nil => rfl
  | cons area rest ih =>
    by_cases own : area.ownerPid = pid
    · simp [freeAreas, own, ih]
    · simp [freeAreas, own, ih]

/-- With an address the first area of the process goes that has it. -/
theorem freeAreas_address (pid physAddr : Nat) (areas : List PkDmaArea) :
    freeAreas pid physAddr false areas = areas.eraseP (PkDmaArea.ownedAt pid physAddr) := by
  induction areas with
  | nil => rfl
  | cons area rest ih =>
    by_cases own : area.ownerPid = pid
    · by_cases found : area.physAddr = physAddr
      · simp [freeAreas, PkDmaArea.ownedAt, own, found]
      · simp [freeAreas, PkDmaArea.ownedAt, found, ih]
    · simp [freeAreas, PkDmaArea.ownedAt, own, ih]

/-! ## Calls -/

inductive DmaCall where
  | alloc (device : Nat) (caller : Caller) (request : Option AllocRequest)
      (answers : AllocAnswers)
  | free (device : Nat) (caller : Caller) (buf : List Char)

def State.dmaCall (s : State) : DmaCall → Option State
  | .alloc device caller request answers =>
    (dmaAllocStore s device caller request answers).map Prod.snd
  | .free device caller buf =>
    (dmaFreeStore s device caller (readFreeRequest buf)).map Prod.snd

/-- `dma_to_phys` returns an address other than 0 for a handle other than 0. -/
def DmaCall.PhysNonzero : DmaCall → Prop
  | .alloc _ _ _ answers => answers.handle ≠ 0 → answers.physAddr ≠ 0
  | .free _ _ _ => True

instance (call : DmaCall) : Decidable call.PhysNonzero := by
  cases call <;> unfold DmaCall.PhysNonzero <;> infer_instance

def State.NoneAtZero (s : State) : Prop := ∀ area ∈ s.areas, area.physAddr ≠ 0

theorem State.NoneAtZero.dmaCall {s s' : State} {call : DmaCall} (nonzero : s.NoneAtZero)
    (answered : call.PhysNonzero) (called : s.dmaCall call = some s') : s'.NoneAtZero := by
  intro area listed
  cases call with
  | alloc d c request answers =>
    obtain ⟨⟨res, s''⟩, stored, rfl⟩ := Option.map_eq_some_iff.mp called
    cases dmaAllocStore_outcome stored with
    | refused early | unmapped numbers page given demand unmapped => exact nonzero area listed
    | recorded numbers page given demand mapped =>
      obtain old | ⟨pkdev, attached, mem⟩ := mem_areas_modify listed
      · exact nonzero area old
      · obtain rfl | old := List.mem_cons.mp mem
        · exact answered mapped
        · exact nonzero area (mem_areas attached old)
  | free d c buf =>
    obtain ⟨⟨res, s''⟩, stored, rfl⟩ := Option.map_eq_some_iff.mp called
    exact nonzero area (mem_areas_dmaFreeStore stored listed)

def remaining (pid : Nat) (buf : List Char) (areas : List PkDmaArea) : List PkDmaArea :=
  match scanAddress buf with
  | some physAddr => areas.eraseP (PkDmaArea.ownedAt pid physAddr)
  | none => if startsWithStar buf then areas.filter fun area => area.ownerPid ≠ pid else areas

theorem freeAreas_request {pid : Nat} {buf : List Char} {areas : List PkDmaArea}
    (nonzero : ∀ area ∈ areas, area.physAddr ≠ 0) :
    freeAreas pid (readFreeRequest buf).physAddr (readFreeRequest buf).freeAll areas =
      remaining pid buf areas := by
  unfold readFreeRequest remaining
  cases scanAddress buf with
  | some physAddr => exact freeAreas_address pid physAddr areas
  | none =>
    dsimp only
    split
    · exact freeAreas_all pid 0 areas
    · refine (freeAreas_address pid 0 areas).trans (List.eraseP_of_forall_not ?_)
      intro area mem owned
      simp only [PkDmaArea.ownedAt, Bool.and_eq_true, decide_eq_true_eq] at owned
      exact nonzero area mem owned.2

theorem remaining_sublist (pid : Nat) (buf : List Char) (areas : List PkDmaArea) :
    (remaining pid buf areas).Sublist areas := by
  unfold remaining
  split
  · exact List.eraseP_sublist
  · split
    · exact List.filter_sublist
    · exact List.Sublist.refl _

/-- The areas of the other processes stay as they are. -/
theorem remaining_others (pid : Nat) (buf : List Char) (areas : List PkDmaArea) :
    (remaining pid buf areas).filter (fun area => area.ownerPid ≠ pid) =
      areas.filter fun area => area.ownerPid ≠ pid := by
  unfold remaining
  split
  · rename_i physAddr _
    obtain same | ⟨area, before, after, _, owned, split, erased⟩ :=
      List.exists_or_eq_self_of_eraseP (PkDmaArea.ownedAt pid physAddr) areas
    · rw [same]
    · simp only [PkDmaArea.ownedAt, Bool.and_eq_true] at owned
      rw [erased, split, List.filter_append, List.filter_append,
        List.filter_cons_of_neg (by simp [owned.1])]
  · split
    · simp
    · rfl

/-- After any calls of any processes in which `dma_to_phys` returns 0 for no handle but 0: a
    release by an authorised process takes exactly the areas that its text names out of the list
    of the device.  Nothing else changes. -/
theorem dma_free_store_removes {start s : State} {device : Nat} {pkdev : PkDevice}
    {caller : Caller} (buf : List Char) (empty : start.areas = [])
    (run : Reaches State.dmaCall (fun _ call => call.PhysNonzero) start s)
    (attached : s.devices[device]? = some pkdev)
    (authorised : s.checkAuthority pkdev.pciDev caller = true) :
    dmaFreeStore s device caller (readFreeRequest buf) = some (.ok (), { s with
        devices := s.devices.set device { pkdev with
          dmaAreas := remaining caller.pid buf pkdev.dmaAreas } }) ∧
      (remaining caller.pid buf pkdev.dmaAreas).Sublist pkdev.dmaAreas ∧
      (remaining caller.pid buf pkdev.dmaAreas).filter (fun area => area.ownerPid ≠ caller.pid) =
        pkdev.dmaAreas.filter fun area => area.ownerPid ≠ caller.pid := by
  have nonzero : s.NoneAtZero := by
    refine run.invariant ?_ fun nonzero answered called => nonzero.dmaCall answered called
    intro area listed
    rw [empty] at listed
    cases listed
  have freed : freeAreas caller.pid (readFreeRequest buf).physAddr (readFreeRequest buf).freeAll
      pkdev.dmaAreas = remaining caller.pid buf pkdev.dmaAreas :=
    freeAreas_request fun area listed =>
      nonzero area (mem_areas (List.mem_of_getElem? attached) listed)
  refine ⟨?_, remaining_sublist _ _ _, remaining_others _ _ _⟩
  rw [dmaFreeStore, attached, ← freed]
  simp only [Option.bind_eq_bind, Option.bind_some, authorised]
  rw [@List.modify_eq_set _ ⟨pkdev⟩, attached]
  rfl

def sharedBetween : State := ⟨[⟨0, ⟨0, 0, 0, 0⟩, []⟩], [⟨0, 0, 0, 0⟩], []⟩

def twoOwners (clzOfZero : Fin 65) : List DmaCall :=
  [.alloc 0 ⟨7, 0⟩ (some ⟨1, 0, 0, by decide⟩) ⟨clzOfZero, 0, true, some 1, 1, 0x1000⟩,
    .alloc 0 ⟨8, 0⟩ (some ⟨1, 0, 0, by decide⟩) ⟨clzOfZero, 0, true, some 2, 2, 0x2000⟩]

/-- The process 7 writes a star, and the area of the process 8 stays. -/
theorem dma_free_store_removes_own :
    ∃ s s' pkdev, Reaches State.dmaCall (fun _ call => call.PhysNonzero) sharedBetween s ∧
      s.devices = [pkdev] ∧ pkdev.dmaAreas.map PkDmaArea.ownerPid = [8, 7] ∧
      dmaFreeStore s 0 ⟨7, 0⟩ (readFreeRequest ['*', '\n']) = some (.ok (), s') ∧
      s'.areas.map PkDmaArea.ownerPid = [8] := by
  have executed : ∃ s ∈ execute State.dmaCall (fun _ call => call.PhysNonzero) (twoOwners 0)
      sharedBetween, ∃ pkdev ∈ s.devices[0]?, s.devices = [pkdev] ∧
        s.checkAuthority pkdev.pciDev ⟨7, 0⟩ = true ∧
        pkdev.dmaAreas.map PkDmaArea.ownerPid = [8, 7] ∧
        (remaining 7 ['*', '\n'] pkdev.dmaAreas).map PkDmaArea.ownerPid = [8] := by
    decide
  obtain ⟨s, run, pkdev, attached, single, authorised, owners, rest⟩ :=
    exists_reaches_of_execute executed
  obtain ⟨freed, _⟩ := dma_free_store_removes ['*', '\n'] rfl run attached authorised
  refine ⟨s, _, pkdev, run, single, owners, freed, ?_⟩
  simp only [State.areas, single, List.set_cons_zero, List.flatMap_singleton, rest]

end Xdk.Parasite
