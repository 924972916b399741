import Mathlib.Tactic.Ring

/-! # Fields of a packed record

A record in memory is a number of fields at fixed offsets, each a little-endian number of some
bytes.  Writing a field changes its own bytes only, so a record is read back field by field: a
field keeps what was written to it last, as far as it fits.  A word may be divided further into
fields of bits.
-/

namespace Xdk.Lib

abbrev Memory := Nat → UInt8

/-! ## Fields of bytes -/

structure ByteField where
  offset : Nat
  width : Nat
  deriving DecidableEq, Repr

def getBytes (memory : Memory) : Nat → Nat → Nat
  | _, 0 => 0
  | offset, width + 1 => (memory offset).toNat + 256 * getBytes memory (offset + 1) width

namespace ByteField

def read (field : ByteField) (memory : Memory) : Nat := getBytes memory field.offset field.width

def write (field : ByteField) (value : Nat) (memory : Memory) : Memory := fun position =>
  if field.offset ≤ position ∧ position < field.offset + field.width then
    UInt8.ofNat (value / 256 ^ (position - field.offset))
  else memory position

def Apart (first second : ByteField) : Prop :=
  first.offset + first.width ≤ second.offset ∨ second.offset + second.width ≤ first.offset

instance (first second : ByteField) : Decidable (first.Apart second) :=
  inferInstanceAs (Decidable (_ ∨ _))

def Inside (inner outer : ByteField) : Prop :=
  outer.offset ≤ inner.offset ∧ inner.offset + inner.width ≤ outer.offset + outer.width

instance (inner outer : ByteField) : Decidable (inner.Inside outer) :=
  inferInstanceAs (Decidable (_ ∧ _))

end ByteField

variable {field other : ByteField} {value : Nat} {memory : Memory}

theorem getBytes_congr {memory' : Memory} {off width : Nat}
    (same : ∀ p, off ≤ p → p < off + width →
      memory' p = memory p) :
    getBytes memory' off width = getBytes memory off width := by
  induction width generalizing off with
  | zero => rfl
  | succ width ih =>
    have rest : getBytes memory' (off + 1) width = getBytes memory (off + 1) width :=
      ih fun p lower upper => same p (by omega) (by omega)
    rw [getBytes, getBytes, rest, same off le_rfl (by omega)]

theorem getBytes_lt (memory : Memory) (off width : Nat) :
    getBytes memory off width < 256 ^ width := by
  induction width generalizing off with
  | zero => exact Nat.one_pos
  | succ width ih =>
    have more := ih (off + 1)
    have byte := (memory off).toNat_lt
    rw [getBytes]
    omega

theorem getBytes_add (memory : Memory) (off low high : Nat) :
    getBytes memory off (low + high) =
      getBytes memory off low + 256 ^ low * getBytes memory (off + low) high := by
  induction low generalizing off with
  | zero => simp [getBytes]
  | succ low ih =>
    have shift : off + 1 + low = off + (low + 1) := by omega
    rw [Nat.add_right_comm, getBytes, getBytes, ih, shift]
    ring

/-- The bytes of a number, from one of them on, hold what is left of it. -/
theorem getBytes_write {skipped width : Nat} (inside : skipped + width ≤ field.width) :
    getBytes (field.write value memory) (field.offset + skipped) width =
      value / 256 ^ skipped % 256 ^ width := by
  induction width generalizing skipped with
  | zero => simp [getBytes, Nat.mod_one]
  | succ width ih =>
    have first : (field.write value memory (field.offset + skipped)).toNat =
        value / 256 ^ skipped % 256 := by
      rw [ByteField.write, if_pos ⟨by omega, by omega⟩, Nat.add_sub_cancel_left]
      exact UInt8.toNat_ofNat'
    rw [getBytes, first, Nat.add_assoc, ih (by omega), pow_succ,
      ← Nat.div_div_eq_div_mul, pow_succ', Nat.mod_mul]

namespace ByteField

theorem read_write (field : ByteField) (v : Nat) (memory : Memory) :
    field.read (field.write v memory) = v % 256 ^ field.width := by
  have written := @getBytes_write field v memory 0 field.width (by omega)
  rwa [Nat.add_zero, pow_zero, Nat.div_one] at written

theorem read_write_of_apart (apart : other.Apart field) :
    other.read (field.write value memory) = other.read memory := by
  refine getBytes_congr fun position lower upper => if_neg ?_
  rcases apart with before | after
  · omega
  · omega

/-- A field of which the first bytes only are written. -/
theorem read_write_low (off low high v : Nat) (memory : Memory) :
    (⟨off, low + high⟩ : ByteField).read ((⟨off, low⟩ : ByteField).write v memory) =
      v % 256 ^ low + 256 ^ low * (⟨off + low, high⟩ : ByteField).read memory := by
  have first := read_write ⟨off, low⟩ v memory
  have rest : (⟨off + low, high⟩ : ByteField).read
      ((⟨off, low⟩ : ByteField).write v memory) =
      (⟨off + low, high⟩ : ByteField).read memory :=
    read_write_of_apart (.inr le_rfl)
  simp only [read] at first rest ⊢
  rw [getBytes_add, first, rest]

theorem read_write_of_inside (inside : other.Inside field) :
    other.read (field.write 0 memory) = 0 := by
  obtain ⟨skipped, off⟩ := Nat.exists_eq_add_of_le inside.1
  have written := @getBytes_write field 0 memory skipped other.width
    (by have := inside.2; omega)
  rwa [Nat.zero_div, Nat.zero_mod, ← off] at written

end ByteField

/-! ## Fields of bits -/

structure BitField where
  shift : Nat
  width : Nat
  deriving DecidableEq, Repr

namespace BitField

def read (bits : BitField) (word : Nat) : Nat := word / 2 ^ bits.shift % 2 ^ bits.width

def write (bits : BitField) (value word : Nat) : Nat :=
  word % 2 ^ bits.shift + 2 ^ bits.shift * (value % 2 ^ bits.width +
    2 ^ bits.width * (word / 2 ^ (bits.shift + bits.width)))

def Apart (first second : BitField) : Prop :=
  first.shift + first.width ≤ second.shift ∨ second.shift + second.width ≤ first.shift

instance (first second : BitField) : Decidable (first.Apart second) :=
  inferInstanceAs (Decidable (_ ∨ _))

variable {bits above : BitField} {word : Nat}

theorem write_div (bits : BitField) (v word : Nat) :
    bits.write v word / 2 ^ bits.shift =
      v % 2 ^ bits.width + 2 ^ bits.width * (word / 2 ^ (bits.shift + bits.width)) := by
  rw [write, Nat.add_mul_div_left _ _ (Nat.two_pow_pos _),
    Nat.div_eq_of_lt (Nat.mod_lt _ (Nat.two_pow_pos _)), Nat.zero_add]

theorem write_mod (bits : BitField) (v word : Nat) :
    bits.write v word % 2 ^ bits.shift = word % 2 ^ bits.shift := by
  rw [write, Nat.add_mul_mod_self_left, Nat.mod_mod]

theorem write_div_end (bits : BitField) (v word : Nat) :
    bits.write v word / 2 ^ (bits.shift + bits.width) =
      word / 2 ^ (bits.shift + bits.width) := by
  rw [pow_add, ← Nat.div_div_eq_div_mul, write_div,
    Nat.add_mul_div_left _ _ (Nat.two_pow_pos _),
    Nat.div_eq_of_lt (Nat.mod_lt _ (Nat.two_pow_pos _)), Nat.zero_add, pow_add]

theorem read_write (bits : BitField) (v word : Nat) :
    bits.read (bits.write v word) = v % 2 ^ bits.width := by
  rw [read, write_div, Nat.add_mul_mod_self_left, Nat.mod_mod]

/-- A field is in the last bits of the word. -/
theorem read_mod {len : Nat} (inside : bits.shift + bits.width ≤ len) :
    bits.read (word % 2 ^ len) = bits.read word := by
  obtain ⟨rest, rfl⟩ := Nat.exists_eq_add_of_le inside
  rw [read, read, Nat.add_assoc, pow_add, Nat.mod_mul_right_div_self, Nat.mod_mod_of_dvd]
  exact pow_dvd_pow 2 (by omega)

theorem read_write_of_apart (apart : bits.Apart above) :
    bits.read (above.write value word) = bits.read word := by
  rcases apart with le | beyond
  · rw [← read_mod le, write_mod, read_mod le]
  · obtain ⟨rest, shift⟩ := Nat.exists_eq_add_of_le beyond
    rw [read, read, shift, pow_add _ _ rest, ← Nat.div_div_eq_div_mul, write_div_end,
      Nat.div_div_eq_div_mul]

end BitField

namespace ByteField

def readBits (field : ByteField) (bits : BitField) (memory : Memory) : Nat :=
  bits.read (field.read memory)

def writeBits (field : ByteField) (bits : BitField) (value : Nat) (memory : Memory) : Memory :=
  field.write (bits.write value (field.read memory)) memory

variable {bits : BitField}

section

variable (inside : bits.shift + bits.width ≤ 8 * field.width)
include inside

theorem readBits_write : field.readBits bits (field.write value memory) = bits.read value := by
  rw [readBits, read_write, show (256 : Nat) = 2 ^ 8 from rfl, ← pow_mul,
    BitField.read_mod inside]

theorem readBits_writeBits :
    field.readBits bits (field.writeBits bits value memory) = value % 2 ^ bits.width := by
  rw [writeBits, readBits_write inside, BitField.read_write]

theorem readBits_writeBits_of_apart {changed : BitField} (apart : bits.Apart changed) :
    field.readBits bits (field.writeBits changed value memory) = field.readBits bits memory := by
  rw [writeBits, readBits_write inside, BitField.read_write_of_apart apart, readBits]

end

end ByteField

end Xdk.Lib
