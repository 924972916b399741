import Xdk.Lib.Numerals
import Xdk.Lib.Word

/-! # Identifiers of components

A `uuid_t` is printed as groups of hexadecimal digits of fixed width, and read with a `sscanf`
format that has the same widths.
-/

namespace Xdk.Component

open Xdk.Lib

@[ext]
structure Uuid where
  uuid0 : BitVec 32
  uuid1 : BitVec 16
  uuid2 : BitVec 16
  uuid3 : BitVec 16
  uuid4 : Vector (BitVec 8) 6
  deriving DecidableEq

inductive Directive where
  | hex (width : Nat)
  | literal (c : Char)

/-- The values that `sscanf` stores, up to the first directive that fails.  The width counts
    from the first character that is not white space. -/
def sscanf : List Directive → List Char → List Nat
  | [], _ => []
  | .literal c :: format, str => if str.head? = some c then sscanf format str.tail else []
  | .hex width :: format, str =>
    match readHex ((str.dropWhile isSpace).take width) with
    | none => []
    | some (negative, value, rest) =>
      (if negative then wrapSub 64 0 value else value) ::
        sscanf format (rest ++ (str.dropWhile isSpace).drop width)

def format : List Directive :=
  [.hex 8, .literal '-', .hex 4, .literal '-', .hex 4, .literal '-', .hex 4, .literal '-',
    .hex 2, .hex 2, .hex 2, .hex 2, .hex 2, .hex 2]

inductive Status where
  | ok
  | eFail
  deriving DecidableEq

namespace Uuid

def padded (width value : Nat) : List Char := (Nat.toDigits 16 value).leftpad width '0'

def toString (u : Uuid) : List Char :=
  padded 8 u.uuid0.toNat ++ '-' :: (padded 4 u.uuid1.toNat ++ '-' :: (padded 4 u.uuid2.toNat ++
    '-' :: (padded 4 u.uuid3.toNat ++ '-' :: u.uuid4.toList.flatMap fun q => padded 2 q.toNat)))

def fromString (v : Uuid) (str : List Char) : Status × Uuid :=
  match sscanf format str with
  | [p0, p1, p2, p3, q0, q1, q2, q3, q4, q5] =>
    (.ok, ⟨.ofNat 32 p0, .ofNat 16 p1, .ofNat 16 p2, .ofNat 16 p3,
      #v[.ofNat 8 q0, .ofNat 8 q1, .ofNat 8 q2, .ofNat 8 q3, .ofNat 8 q4, .ofNat 8 q5]⟩)
  | _ => (.eFail, v)

def littleEndian (n : Nat) (number : BitVec (8 * n)) : List (BitVec 8) :=
  (List.range n).map fun i => number.extractLsb' (8 * i) 8

/-- The fields lie in memory one after the other, without a gap. -/
def bytes (u : Uuid) : List (BitVec 8) :=
  littleEndian 4 u.uuid0 ++ (littleEndian 2 u.uuid1 ++ (littleEndian 2 u.uuid2 ++
    (littleEndian 2 u.uuid3 ++ u.uuid4.toList)))

def eq (lhs rhs : Uuid) : Bool := lhs.bytes = rhs.bytes

theorem littleEndian_append_inj {n : Nat} {a b : BitVec (8 * n)} {rest rest' : List (BitVec 8)}
    (same : littleEndian n a ++ rest = littleEndian n b ++ rest') : a = b ∧ rest = rest' := by
  obtain ⟨bytes, rest⟩ := List.append_inj same (by simp [littleEndian])
  refine ⟨BitVec.eq_of_getLsbD_eq fun i lt => ?_, rest⟩
  have byte := List.map_inj_left.mp bytes (i / 8) (List.mem_range.mpr (by omega))
  have bit := congrArg (BitVec.getLsbD · (i % 8)) byte
  simpa [Nat.mod_lt, Nat.div_add_mod] using bit

theorem eq_iff (lhs rhs : Uuid) : lhs.eq rhs = true ↔ lhs = rhs := by
  rw [eq, decide_eq_true_iff]
  refine ⟨fun same => ?_, congrArg bytes⟩
  obtain ⟨same0, same⟩ := littleEndian_append_inj same
  obtain ⟨same1, same⟩ := littleEndian_append_inj same
  obtain ⟨same2, same⟩ := littleEndian_append_inj same
  obtain ⟨same3, same⟩ := littleEndian_append_inj same
  exact Uuid.ext same0 same1 same2 same3 (Vector.toList_inj.mp same)

/-- A number is read to the end of its digits. -/
theorem sscanf_padded {width value : Nat} (pos : 0 < width) (lt : value < 16 ^ width)
    (format : List Directive) (rest : List Char) :
    sscanf (.hex width :: format) (padded width value ++ rest) = value :: sscanf format rest := by
  have length : (padded width value).length = width := by
    rw [padded, List.length_leftpad]
    exact max_eq_left ((Nat.length_toDigits_le_iff (by decide) pos).mpr lt)
  have all : ∀ c ∈ padded width value, isHexDigit c = true := fun _ => isHexDigit_of_mem_leftpad
  obtain ⟨first, others, shape⟩ := List.exists_cons_of_length_pos (length ▸ pos)
  have start : (padded width value ++ rest).dropWhile isSpace = padded width value ++ rest := by
    rw [shape]
    simp [not_isSpace_of_isHexDigit (all first (by simp [shape]))]
  have read := @readHex_digits (padded width value) [] (by simp [shape]) all (by simp)
  rw [List.append_nil, padded, valueOf_leftpad, valueOf_toDigits (by decide) (by decide),
    ← padded] at read
  simp only [sscanf, start, List.take_left' length, List.drop_left' length, read]
  rfl

theorem sscanf_literal (c : Char) (format : List Directive) (str : List Char) :
    sscanf (.literal c :: format) (c :: str) = sscanf format str := if_pos rfl

theorem fromString_toString (u v : Uuid) : v.fromString u.toString = (.ok, u) := by
  match u with
  | ⟨p0, p1, p2, p3, ⟨⟨[q0, q1, q2, q3, q4, q5]⟩, rfl⟩⟩ =>
    have word := @sscanf_padded 8 p0.toNat (by decide) p0.isLt
    have half (p : BitVec 16) := @sscanf_padded 4 p.toNat (by decide) p.isLt
    have byte (q : BitVec 8) := @sscanf_padded 2 q.toNat (by decide) q.isLt
    have last : sscanf [.hex 2] (padded 2 q5.toNat) = [q5.toNat] := by
      simpa only [List.append_nil, sscanf] using byte q5 [] []
    simp only [fromString, toString, format, Vector.toList, List.flatMap_cons, List.flatMap_nil,
      List.append_nil, word, half, byte, last, sscanf_literal, BitVec.ofNat_toNat,
      BitVec.setWidth_eq]

/-- The round trip, and texts are equal only for equal identifiers. -/
theorem uuid_round_trip :
    (∀ u v : Uuid, (v.fromString u.toString).1 = .ok ∧ (v.fromString u.toString).2.eq u = true) ∧
      ∀ a b : Uuid, a.toString = b.toString ↔ a.eq b = true := by
  refine ⟨fun u v => ?_, fun a b => ?_⟩
  · rw [fromString_toString, eq_iff]
    exact ⟨rfl, rfl⟩
  · rw [eq_iff]
    refine ⟨fun same => ?_, congrArg toString⟩
    have read := fromString_toString a a
    rw [same, fromString_toString] at read
    exact (Prod.mk.inj read).2.symm

end Uuid

end Xdk.Component
