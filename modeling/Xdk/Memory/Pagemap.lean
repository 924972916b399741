import Xdk.Lib.Word

/-! # Virtual to physical addresses

`virt_to_phys` looks for the range of the address in the memory map of the process, and takes the
frame from the page map.  Neither does it look at the bit that says whether the page is present,
nor does it tell a failed lookup from frame 0.
-/

namespace Xdk.Memory

open Xdk.Lib

structure Range where
  start : Nat
  stop : Nat

structure Pagemap where
  rangeList : List Range
  entry : Nat → BitVec 64

namespace Pagemap

def Mapped (map : Pagemap) (vaddr : Nat) : Prop :=
  ∃ range ∈ map.rangeList, range.start ≤ vaddr ∧ vaddr < range.stop

instance (map : Pagemap) (vaddr : Nat) : Decidable (map.Mapped vaddr) :=
  inferInstanceAs (Decidable (∃ _ ∈ _, _ ∧ _))

def getPageFrameNumber (map : Pagemap) (vaddr : Nat) : Nat :=
  if map.Mapped vaddr then (map.entry (vaddr >>> 12) &&& 0x7fffffffffffff#64).toNat else 0

def virtToPhys (map : Pagemap) (vaddr : Nat) : Nat :=
  wrap 64 (wrap 64 (map.getPageFrameNumber vaddr <<< 12) + vaddr % 4096)

def frame (map : Pagemap) (vaddr : Nat) : Nat := (map.entry (vaddr / 4096)).toNat % 2 ^ 55

def Present (map : Pagemap) (vaddr : Nat) : Prop := (map.entry (vaddr / 4096)).getLsbD 63 = true

instance (map : Pagemap) (vaddr : Nat) : Decidable (map.Present vaddr) :=
  inferInstanceAs (Decidable (_ = _))

/-- The physical address of a page that is present, and 0 for the others. -/
def Translates (map : Pagemap) (vaddr : Nat) : Prop :=
  (map.Mapped vaddr ∧ map.Present vaddr →
    map.virtToPhys vaddr = map.frame vaddr * 4096 + vaddr % 4096) ∧
  (¬ (map.Mapped vaddr ∧ map.Present vaddr) → map.virtToPhys vaddr = 0)

theorem virtToPhys_eq (map : Pagemap) (vaddr : Nat) :
    map.virtToPhys vaddr =
      (if map.Mapped vaddr then map.frame vaddr % 2 ^ 52 * 4096 else 0) + vaddr % 4096 := by
  have mask : (0x7fffffffffffff#64).toNat = 2 ^ 55 - 1 := rfl
  have page : 2 ^ 12 = 4096 := rfl
  rw [virtToPhys, getPageFrameNumber, Nat.shiftRight_eq_div_pow, page]
  split_ifs
  · rw [BitVec.toNat_and, mask, Nat.and_two_pow_sub_one_eq_mod, frame, wrap, wrap]
    omega
  · rw [wrap, wrap]
    omega

/-- It is so exactly if the frame of a page that is present can be addressed, and the address is
    the beginning of a page otherwise, with an entry whose frame is 0 if it is mapped. -/
theorem virt_to_phys_iff (map : Pagemap) (vaddr : Nat) :
    map.Translates vaddr ↔
      if map.Mapped vaddr ∧ map.Present vaddr then map.frame vaddr < 2 ^ 52
      else vaddr % 4096 = 0 ∧ (map.Mapped vaddr → map.frame vaddr % 2 ^ 52 = 0) := by
  rw [Translates, virtToPhys_eq]
  split_ifs <;> grind

/-- An address that is not mapped, and a page that is swapped out. -/
theorem virt_to_phys_bogus :
    virtToPhys ⟨[], fun _ => 0⟩ 5 = 5 ∧ ¬ Translates ⟨[], fun _ => 0⟩ 5 ∧
    virtToPhys ⟨[⟨4096, 8192⟩], fun _ => 0x4000000000000022⟩ 4096 = 0x22000 ∧
      ¬ Translates ⟨[⟨4096, 8192⟩], fun _ => 0x4000000000000022⟩ 4096 := by
  refine ⟨rfl, fun right => ?_, rfl, fun right => ?_⟩
  · exact absurd (right.2 (by decide)) (by decide)
  · exact absurd (right.2 (by decide)) (by decide)

end Pagemap

end Xdk.Memory
