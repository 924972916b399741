import Mathlib.Tactic.SplitIfs
import Xdk.Nvme.Command

/-! # Command identifiers

`_cmdid_counter` is a 16-bit counter that skips the identifier 0.  `alloc_cmdid`
takes the next identifier, the two `next_cmdid` functions only predict: the first
one the next identifier, the second one the last of the next `length`.
-/

namespace Xdk.Nvme

/-- `alloc_cmdid`: the new value of the counter, which is also the identifier. -/
def allocCmdid (counter : Nat) : Nat :=
  let counter := u16 (counter + 1)
  if counter = 0 then u16 (counter + 1) else counter

def nextCmdid (counter : Nat) : Nat :=
  let nextId := u16 (counter + 1)
  if nextId = 0 then 1 else nextId

/-- `next_cmdid(uint16_t length)`, behind its assertion `length < 0xffff`. -/
def nextCmdidAfter (counter length : Nat) : Nat :=
  let nextId := u16 (counter + u16 length)
  if nextId = 0 ∨ nextId < counter then u16 (nextId + 1) else nextId

variable {counter : Nat}

theorem allocCmdid_eq (bound : counter < 65536) :
    allocCmdid counter = if counter = 65535 then 1 else counter + 1 := by
  simp only [allocCmdid, u16]
  split <;> split <;> omega

theorem nextCmdid_eq (bound : counter < 65536) :
    nextCmdid counter = if counter = 65535 then 1 else counter + 1 := by
  simp only [nextCmdid, u16]
  split <;> split <;> omega

theorem allocCmdid_eq_nextCmdid (lt : counter < 65536) :
    allocCmdid counter = nextCmdid counter := by
  rw [allocCmdid_eq lt, nextCmdid_eq lt]

theorem nextCmdidAfter_eq {len : Nat} (bound : counter < 65536) (positive : 0 < len)
    (short : len < 65535) :
    nextCmdidAfter counter len =
      if counter + len < 65536 then counter + len else counter + len - 65535 := by
  simp only [nextCmdidAfter, u16]
  split <;> split <;> omega

theorem nextCmdid_zero : nextCmdid 0 = 1 := rfl

variable {length : Nat}

/-- The range of a batch after `reset_cmdid` begins with 1. -/
theorem nextCmdidAfter_zero (pos : 0 < length) (short : length < 65535) :
    nextCmdidAfter 0 length = length := by
  rw [nextCmdidAfter_eq (by decide) pos short, if_pos (by omega), Nat.zero_add]

theorem allocCmdid_pos (counter : Nat) : 0 < allocCmdid counter := by
  simp only [allocCmdid, u16]
  split <;> omega

theorem allocCmdid_lt (c : Nat) : allocCmdid c < 65536 := by
  simp only [allocCmdid]
  split <;> exact u16_lt _

theorem nextCmdid_pos (counter : Nat) : 0 < nextCmdid counter := by
  simp only [nextCmdid]
  split <;> omega

theorem nextCmdidAfter_lt (c len : Nat) : nextCmdidAfter c len < 65536 := by
  simp only [nextCmdidAfter]
  split <;> exact u16_lt _

/-- The prediction is below the start of the range exactly when the range would
    run past the last identifier; a counter that already stands on the last
    identifier starts again at 1 without looking like a wrap-around. -/
theorem nextCmdidAfter_lt_nextCmdid (lt : counter < 65536) (pos : 0 < length)
    (short : length < 65535) :
    nextCmdidAfter counter length < nextCmdid counter ↔
      counter < 65535 ∧ 65536 ≤ counter + length := by
  rw [nextCmdidAfter_eq lt pos short, nextCmdid_eq lt]
  split <;> split <;> omega

theorem nextCmdidAfter_eq_add (lt : counter < 65536) (pos : 0 < length) (short : length < 65535)
    (whole : nextCmdid counter ≤ nextCmdidAfter counter length) :
    nextCmdidAfter counter length + 1 = nextCmdid counter + length := by
  rw [nextCmdidAfter_eq lt pos short, nextCmdid_eq lt] at whole ⊢
  split_ifs at whole ⊢ <;> omega

end Xdk.Nvme
