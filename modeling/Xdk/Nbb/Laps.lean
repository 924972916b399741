import Xdk.Nbb.Fifo
import Xdk.Nbb.Tracked

/-! # The buffer over many laps

When the items never are more than the places and nobody inserts an item into a full buffer,
the two parties may go on when their counters begin again at 0: below 2^29 places the limit of
the counters is at least four times the size, so that the counters tell an empty buffer from a
full one also when they are not on the same lap.
-/

namespace Xdk.Nbb

open Xdk.Lib

namespace Shape

/-- The constructor accepts every size below 2^30. -/
theorem exists_create {size : Nat} (pos : 0 < size) (small : size < 2 ^ 30) :
    ∃ shape, create size = some shape := by
  have divisor : wrap 32 (4 * size) = 4 * size := wrap_of_lt (by omega)
  have quotient : 0 < (2 ^ 32 - 1) / (4 * size) := Nat.div_pos (by omega) (by omega)
  have factor : 2 ≤ limitFactor size := by
    rw [limitFactor, divisor]
    omega
  exact ⟨_, dif_pos ⟨pos, by omega, by omega, factor⟩⟩

structure Ample (shape : Shape) : Prop extends Aligned shape where
  size_lt_half : shape.size < shape.half

theorem create_ample {size : Nat} {shape : Shape} (created : create size = some shape)
    (small : size < 2 ^ 29) : Ample shape := by
  obtain ⟨rfl, _⟩ := create_size created
  have size_pos := shape.size_pos
  refine ⟨create_aligned created (by omega), ?_⟩
  have half := create_half created (by omega)
  have twice : 2 ≤ (2 ^ 32 - 1) / (4 * shape.size) := by
    rw [Nat.le_div_iff_mul_le (by omega)]
    omega
  have := Nat.mul_le_mul_right shape.size twice
  omega

def counter (shape : Shape) (count : Nat) : Nat := 2 * (count % shape.half)

theorem counter_lt (shape : Shape) (c : Nat) : shape.counter c + 1 < 2 ^ 32 := by
  have below := Nat.mod_lt c shape.half_pos
  have limit := shape.limit_lt
  rw [shape.countLimit_eq] at limit
  simp only [counter]
  omega

theorem advance_counter (shape : Shape) (c : Nat) :
    shape.advance (shape.counter c) = shape.counter (c + 1) :=
  History.advance_eq shape c

theorem slot_counter {shape : Shape} (aligned : Aligned shape) (c : Nat) :
    shape.slot (shape.counter c) = c % shape.size := by
  rw [slot, counter, Nat.mul_div_cancel_left _ Nat.two_pos, Nat.mod_mod_of_dvd c aligned.dvd]

end Shape

namespace Parties

variable {α : Type*}

abbrev Lapped (shape : Shape) (s : Parties α) : Prop := Tracked shape shape.counter True s

theorem counts_counter {shape : Shape} (aligned : Shape.Aligned shape) (count : Nat) :
    Counts shape shape.counter count := ⟨shape.counter_lt count, Shape.slot_counter aligned count⟩

section Steps

variable {shape : Shape} {s s' : Parties α}

section

variable (lapped : Lapped shape s)
include lapped

/-- Seen from the consumer, the producer is ahead by the items in the buffer, on the same lap
    or on the next. -/
theorem Lapped.lap (ample : Shape.Ample shape) :
    s.inserted.length % shape.half + s.taken.length =
        s.taken.length % shape.half + s.inserted.length ∨
      s.inserted.length % shape.half + shape.half + s.taken.length =
        s.taken.length % shape.half + s.inserted.length := by
  have behind := lapped.behind
  have fits := lapped.fits
  have size_lt := ample.size_lt_half
  obtain ⟨c, len⟩ := Nat.exists_eq_add_of_le behind
  rw [len]
  obtain same | next := add_mod_lap s.taken.length shape.half_pos (show c ≤ shape.half by omega)
  · omega
  · omega

/-- There is room, and the tests of the producer find it. -/
theorem Lapped.insertCheck (ample : Shape.Ample shape)
    (last : s.nbb.lastUc = shape.counter s.inserted.length)
    (room : s.inserted.length < s.taken.length + shape.size) :
    SymmetricNbb.insertCheck shape s.nbb.lastUc s.nbb.ac = none := by
  have size_pos := shape.size_pos
  have half_lt := ample.lt
  have size_lt := ample.size_lt_half
  have lap := Lapped.lap lapped ample
  have double : wrap 32 (2 * shape.size) = 2 * shape.size := wrap_of_lt (by omega)
  have odd : wrapSub 32 (2 * shape.size) 1 = 2 * shape.size - 1 :=
    wrapSub_of_le (by omega) (by omega)
  have lt := Nat.mod_lt s.inserted.length shape.half_pos
  have below' := Nat.mod_lt s.taken.length shape.half_pos
  have apart : wrapSub 32 (shape.counter s.inserted.length) s.nbb.ac ≠ 2 * shape.size ∧
      wrapSub 32 (shape.counter s.inserted.length) s.nbb.ac ≠ 2 * shape.size - 1 := by
    have read := Tracked.ac lapped
    simp only [Shape.counter, wrapSub] at read ⊢
    obtain even | ⟨odd, some⟩ := read
    · rw [even]
      omega
    · rw [odd]
      omega
  simp only [SymmetricNbb.insertCheck, double, odd, last]
  rw [if_neg apart.1, if_neg apart.2]

/-- The tests of the consumer tell whether there is an item. -/
theorem Lapped.readCheck (ample : Shape.Ample shape)
    (last : s.nbb.lastAc = shape.counter s.taken.length) :
    SymmetricNbb.readCheck s.nbb.lastAc s.nbb.uc = none ↔ s.taken.length < s.inserted.length := by
  have behind := lapped.behind
  have fits := lapped.fits
  have half_lt := ample.lt
  have size_lt := ample.size_lt_half
  have lap := Lapped.lap lapped ample
  have lt := Nat.mod_lt s.inserted.length shape.half_pos
  have below' := Nat.mod_lt s.taken.length shape.half_pos
  have told : (s.nbb.uc ≠ shape.counter s.taken.length ∧
      wrapSub 32 s.nbb.uc (shape.counter s.taken.length) ≠ 1) ↔
      s.taken.length < s.inserted.length := by
    have read := Tracked.uc lapped
    simp only [Shape.counter, wrapSub] at read ⊢
    omega
  simp only [SymmetricNbb.readCheck]
  split_ifs with empty inserting <;> simp_all

end

section

variable (lapped : Lapped shape s) (ample : Shape.Ample shape)
include lapped ample

theorem Lapped.produce (step : s.produce shape = some s') : Lapped shape s' :=
  Tracked.produce lapped (counts_counter ample.toAligned _)
    (fun _ _ => shape.advance_counter _) (fun unguarded => absurd trivial unguarded) step

theorem Lapped.consume (step : s.consume shape = some s') : Lapped shape s' :=
  Tracked.consume lapped (counts_counter ample.toAligned _)
    (fun _ _ => shape.advance_counter _) (fun last => (Lapped.readCheck lapped ample last).mp) step

end

end Steps

end Parties

end Xdk.Nbb
