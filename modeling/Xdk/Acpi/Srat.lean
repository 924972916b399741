import Xdk.Lib.Bytes
import Xdk.Lib.Word

/-! # The System Resource Affinity Table

`SRAT_table::parse` goes from record to record by the length that each one gives, and copies those
of the three kinds it knows.  `srat_get_record` numbers the copies through: first the processors,
then the memory, then the x2APICs.
-/

namespace Xdk.Acpi

open Xdk.Lib

inductive Kind where
  | processor
  | memory
  | x2apic
  deriving DecidableEq

namespace Kind

def type : Kind → UInt8
  | processor => 0
  | memory => 1
  | x2apic => 2

def ofType (type : UInt8) : Option Kind :=
  if type = 0 then some processor else if type = 1 then some memory
  else if type = 2 then some x2apic else none

def size : Kind → Nat
  | processor => 16
  | memory => 40
  | x2apic => 24

end Kind

/-- The counter `_num_x2apic` is never read. -/
structure SratTable where
  numRecords : Nat := 0
  numProcessors : Nat := 0
  numMemory : Nat := 0
  processors : List (List UInt8) := []
  memory : List (List UInt8) := []
  x2apic : List (List UInt8) := []

namespace SratTable

def push (table : SratTable) (res : List UInt8) : Kind → SratTable
  | .processor => { table with
      processors := table.processors ++ [res], numProcessors := table.numProcessors + 1,
      numRecords := table.numRecords + 1 }
  | .memory => { table with
      memory := table.memory ++ [res], numMemory := table.numMemory + 1,
      numRecords := table.numRecords + 1 }
  | .x2apic => { table with
      x2apic := table.x2apic ++ [res], numRecords := table.numRecords + 1 }

/-! ## Parsing -/

/-- How it ends: a failed `assert` ends the program, and a read past the table can do anything. -/
inductive Outcome where
  | parsed (table : SratTable)
  | asserted
  | beyond

/-- The loop in at most so many turns, with `records_length` and what the table has from `res`
    on. -/
def parseFrom : Nat → SratTable → Nat → List UInt8 → Option Outcome
  | 0, _, _, _ => none
  | turns + 1, table, recordsLength, rest =>
    if recordsLength = 0 then some (.parsed table)
    else match rest with
      | [] => some .beyond
      | type :: _ =>
        match Kind.ofType type with
        | none => some .asserted
        | some kind =>
          if kind.size ≤ rest.length then
            let length := (rest.getD 1 0).toNat
            parseFrom turns (table.push (rest.take kind.size) kind)
              (wrapSub 32 recordsLength length) (rest.drop length)
          else some .beyond

def parse (area : List UInt8) (turns : Nat) : Option Outcome := parseFrom turns {} area.length area

/-- Going by the lengths, from structure to structure inside the table, comes to its end or to a
    type that is not known. -/
inductive Sound : List UInt8 → Prop
  | done : Sound []
  | unknown {type : UInt8} {rest : List UInt8} : Kind.ofType type = none → Sound (type :: rest)
  | record {type length : UInt8} {rest : List UInt8} {kind : Kind} :
    Kind.ofType type = some kind → kind.size ≤ (type :: length :: rest).length →
    0 < length.toNat → length.toNat ≤ (type :: length :: rest).length →
    Sound ((type :: length :: rest).drop length.toNat) → Sound (type :: length :: rest)

structure Record where
  kind : Kind
  body : List UInt8
  size : body.length + 2 = kind.size

def Record.bytes (r : Record) : List UInt8 := r.kind.type :: UInt8.ofNat r.kind.size :: r.body

def copies (records : List Record) (kind : Kind) : List Record := records.filter (·.kind = kind)

def ofRecords (records : List Record) : SratTable where
  numRecords := records.length
  numProcessors := (copies records .processor).length
  numMemory := (copies records .memory).length
  processors := (copies records .processor).map Record.bytes
  memory := (copies records .memory).map Record.bytes
  x2apic := (copies records .x2apic).map Record.bytes

def Parses (area : List UInt8) : Prop :=
  (∃ turns outcome, parse area turns = some outcome ∧ outcome ≠ .beyond) ∧
    ∀ records : List Record, area = records.flatMap Record.bytes →
      ∃ turns, parse area turns = some (.parsed (ofRecords records))

variable {rest area : List UInt8} {records : List Record}

theorem parseFrom_record {type length : UInt8} {more : List UInt8} {kind : Kind}
    (read : rest = type :: length :: more) (known : Kind.ofType type = some kind)
    (fits : kind.size ≤ rest.length) (turns : Nat) (table : SratTable) :
    parseFrom (turns + 1) table rest.length rest =
      parseFrom turns (table.push (rest.take kind.size) kind)
        (wrapSub 32 rest.length length.toNat) (rest.drop length.toNat) := by
  subst read
  rw [parseFrom]
  simp only [known, if_pos fits]
  rfl

theorem wrapSub_length {n : Nat} (le : n ≤ rest.length) (lt : rest.length < 2 ^ 32) :
    wrapSub 32 rest.length n = (rest.drop n).length := by
  rw [wrapSub_of_le le lt, List.length_drop]

theorem two_le_size (kind : Kind) : 2 ≤ kind.size := by
  cases kind <;> decide

theorem Sound.of_parseFrom (lt : rest.length < 2 ^ 32) {turns : Nat} {table : SratTable}
    {outcome : Outcome} (ends : parseFrom turns table rest.length rest = some outcome)
    (inside : outcome ≠ .beyond) : Sound rest := by
  induction turns generalizing rest table with
  | zero => cases ends
  | succ turns ih =>
    cases rest with
    | nil => exact .done
    | cons type rest =>
      cases known : Kind.ofType type with
      | none => exact .unknown known
      | some kind =>
        by_cases fits : kind.size ≤ (type :: rest).length
        · cases rest with
          | nil => exact absurd fits (by have := two_le_size kind; simp; omega)
          | cons length rest =>
            rw [parseFrom_record rfl known fits] at ends
            by_cases le : length.toNat ≤ (type :: length :: rest).length
            · rw [wrapSub_length le lt] at ends
              have sound := ih (by rw [List.length_drop]; omega) ends
              by_cases pos : 0 < length.toNat
              · exact .record known fits pos le sound
              · rwa [show length.toNat = 0 by omega, List.drop_zero] at sound
            · -- the length that is left wraps around, and the next record is read past the end
              have left : wrapSub 32 (type :: length :: rest).length length.toNat ≠ 0 := by
                rw [wrapSub]
                have pos : 0 < (type :: length :: rest).length := Nat.succ_pos _
                omega
              rw [List.drop_eq_nil_of_le (by omega)] at ends
              cases turns with
              | zero => cases ends
              | succ turns =>
                rw [parseFrom, if_neg left] at ends
                exact absurd (Option.some.inj ends).symm inside
        · rw [parseFrom] at ends
          simp only [known, if_neg fits] at ends
          exact absurd (Option.some.inj ends).symm inside

theorem Sound.exists_parseFrom (sound : Sound rest) (lt : rest.length < 2 ^ 32)
    (table : SratTable) :
    ∃ turns outcome, parseFrom turns table rest.length rest = some outcome ∧
      outcome ≠ .beyond := by
  induction sound generalizing table with
  | done => exact ⟨1, .parsed table, rfl, nofun⟩
  | unknown type => exact ⟨1, .asserted, by simp [parseFrom, type], nofun⟩
  | record known fits _ le _ ih =>
    obtain ⟨turns, outcome, ends, inside⟩ := ih (by rw [List.length_drop]; omega) (table.push _ _)
    refine ⟨turns + 1, outcome, ?_, inside⟩
    rw [parseFrom_record rfl known fits, wrapSub_length le lt, ends]

@[simp]
theorem ofType_type (kind : Kind) : Kind.ofType kind.type = some kind := by
  cases kind <;> rfl

theorem length_bytes (r : Record) : r.bytes.length = r.kind.size := by
  simp [Record.bytes, ← r.size]

theorem push_ofRecords (records : List Record) (r : Record) :
    (ofRecords records).push r.bytes r.kind = ofRecords (records ++ [r]) := by
  cases kind : r.kind <;> simp [push, ofRecords, copies, kind]

/-- A well-formed table takes one turn for each record. -/
theorem parseFrom_bytes (turns : Nat) (before : List Record)
    (lt : (records.flatMap Record.bytes).length < 2 ^ 32) :
    parseFrom turns (ofRecords before) (records.flatMap Record.bytes).length
      (records.flatMap Record.bytes) =
    if records.length < turns then some (.parsed (ofRecords (before ++ records))) else none := by
  induction turns generalizing records before with
  | zero => rfl
  | succ turns ih =>
    cases records with
    | nil => simp [parseFrom]
    | cons r records =>
      have fits := length_bytes r
      have length : (UInt8.ofNat r.kind.size).toNat = r.kind.size := by cases r.kind <;> rfl
      rw [List.flatMap_cons, List.length_append] at lt
      have le : r.kind.size ≤ (r.bytes ++ records.flatMap Record.bytes).length := by
        rw [List.length_append]
        omega
      have read : r.bytes ++ records.flatMap Record.bytes = r.kind.type ::
        UInt8.ofNat r.kind.size :: (r.body ++ records.flatMap Record.bytes) := rfl
      rw [List.flatMap_cons, parseFrom_record read (ofType_type r.kind) le, length,
        List.take_left' fits, List.drop_left' fits, push_ofRecords,
        wrapSub_of_le le (by rw [List.length_append]; omega), List.length_append, fits,
        Nat.add_sub_cancel_left, ih _ (by omega)]
      simp

theorem parse_bytes (lt : (records.flatMap Record.bytes).length < 2 ^ 32 - 48) (turns : Nat) :
    parse (records.flatMap Record.bytes) turns =
      if records.length < turns then some (.parsed (ofRecords records)) else none :=
  parseFrom_bytes turns [] (by omega)

/-- A table, of less than 2^32 bytes with its header, is parsed as it should be exactly if going by
    its lengths is sound. -/
theorem srat_parse_iff (lt : area.length < 2 ^ 32 - 48) : Parses area ↔ Sound area := by
  constructor
  · rintro ⟨⟨turns, outcome, ends, inside⟩, -⟩
    exact .of_parseFrom (by omega) ends inside
  · intro sound
    refine ⟨sound.exists_parseFrom (by omega) _, ?_⟩
    rintro records rfl
    exact ⟨records.length + 1, by rw [parse_bytes lt, if_pos (Nat.lt_succ_self _)]⟩

theorem srat_parse_iff_processor : Parses (0 :: 16 :: List.replicate 14 1) := by
  refine (srat_parse_iff (by decide)).mpr ?_
  have known : Kind.ofType 0 = some .processor := rfl
  exact .record known (by decide) (by decide) (by decide) .done

/-- A record that gives its length as 0 is copied again and again. -/
theorem srat_parse_endless :
    (∀ turns, parse (List.replicate 16 0) turns = none) ∧ ¬ Parses (List.replicate 16 0) := by
  have never (turns : Nat) (table : SratTable) :
      parseFrom turns table 16 (List.replicate 16 0) = none := by
    induction turns generalizing table with
    | zero => rfl
    | succ turns ih => exact ih _
  refine ⟨fun turns => never turns _, ?_⟩
  rintro ⟨⟨turns, outcome, ends, -⟩, -⟩
  cases (never turns {}).symm.trans ends

/-! ## Access -/

inductive Content where
  | empty
  | processor (proximity apic flags : Nat)
  | memory (proximity base size flags : Nat)
  | x2apic (proximity x2apicId flags : Nat)

structure Info where
  type : UInt8
  content : Content

inductive Status where
  | ok
  | outOfBounds

def field (res : List UInt8) (offset width : Nat) : Nat := getBytes (res.getD · 0) offset width

def content (res : List UInt8) : Kind → Content
  | .processor =>
    .processor (field res 2 1 ||| field res 9 1 <<< 8 ||| field res 10 1 <<< 16 |||
      field res 11 1 <<< 24) (field res 3 1) (field res 4 4)
  | .memory =>
    .memory (field res 2 4) (field res 8 4 ||| field res 12 4 <<< 32)
      (field res 16 4 ||| field res 20 4 <<< 32) (field res 28 4)
  | .x2apic => .x2apic (field res 4 4) (field res 8 4) (field res 12 4)

/-- `none` where a vector is read past its end. -/
def sratGetRecord (table : SratTable) (idx : Nat) (info : Info) : Option (Status × Info) :=
  if table.numRecords < idx then some (.outOfBounds, info)
  else if idx < table.numProcessors then
    table.processors[idx]?.map fun res =>
      (.ok, { type := res.getD 0 0, content := content res .processor })
  else if idx < table.numProcessors + table.numMemory then
    table.memory[idx - table.numProcessors]?.map fun res =>
      (.ok, { type := res.getD 0 0, content := content res .memory })
  else
    table.x2apic[idx - table.numProcessors - table.numMemory]?.map fun res =>
      (.ok, { info with content := content res .x2apic })

def ordered (records : List Record) : List Record :=
  copies records .processor ++ copies records .memory ++ copies records .x2apic

structure Gets (table : SratTable) (records : List Record) (idx : Nat) (info : Info) : Prop where
  outside : (∃ info', table.sratGetRecord idx info = some (.outOfBounds, info')) ↔
    table.numRecords ≤ idx
  inside : ∀ r, (ordered records)[idx]? = some r →
    table.sratGetRecord idx info = some (.ok, ⟨r.kind.type, content r.bytes r.kind⟩)

theorem length_ordered (records : List Record) : (ordered records).length = records.length := by
  induction records with
  | nil => rfl
  | cons r records ih =>
    simp only [ordered, copies, List.length_append] at ih ⊢
    cases kind : r.kind <;> simp [kind] <;> omega

theorem kind_of_mem_copies {kind : Kind} {r : Record} (mem : r ∈ copies records kind) :
    r.kind = kind := by
  simpa using (List.mem_filter.mp mem).2

/-- The type is not filled in for an x2APIC. -/
theorem sratGetRecord_ofRecords {idx : Nat} (le : idx ≤ records.length) (info : Info) :
    (ofRecords records).sratGetRecord idx info = (ordered records)[idx]?.map fun r =>
      (.ok, ⟨if r.kind = .x2apic then info.type else r.kind.type, content r.bytes r.kind⟩) := by
  simp only [sratGetRecord, ofRecords, ordered, if_neg (Nat.not_lt.mpr le), List.getElem?_map,
    Option.map_map]
  split_ifs with processor memory
  · rw [List.getElem?_append_left (by rw [List.length_append]; omega),
      List.getElem?_append_left processor]
    refine Option.map_congr fun r found => ?_
    simp [kind_of_mem_copies (List.mem_of_getElem? found), Record.bytes]
  · rw [List.getElem?_append_left (by rwa [List.length_append]),
      List.getElem?_append_right (Nat.le_of_not_lt processor)]
    refine Option.map_congr fun r found => ?_
    simp [kind_of_mem_copies (List.mem_of_getElem? found), Record.bytes]
  · rw [List.getElem?_append_right (by rw [List.length_append]; omega), List.length_append,
      ← Nat.sub_sub]
    refine Option.map_congr fun r found => ?_
    simp [kind_of_mem_copies (List.mem_of_getElem? found)]

/-- An access is right exactly if the index is not the number of records, and for an x2APIC if the
    caller has set the type. -/
theorem srat_record_iff {turns idx : Nat} {table : SratTable} {info : Info}
    (lt : (records.flatMap Record.bytes).length < 2 ^ 32 - 48)
    (parsed : parse (records.flatMap Record.bytes) turns = some (.parsed table)) :
    Gets table records idx info ↔ idx ≠ records.length ∧
      ∀ r, (ordered records)[idx]? = some r → r.kind = .x2apic → info.type = 2 := by
  rw [parse_bytes lt] at parsed
  split_ifs at parsed
  cases parsed
  have length := length_ordered records
  obtain lt | rfl | gt := Nat.lt_trichotomy idx records.length
  · have found := List.getElem?_eq_getElem (l := ordered records) (length ▸ lt)
    have got := sratGetRecord_ofRecords lt.le info
    rw [found, Option.map_some] at got
    constructor
    · intro gets
      refine ⟨lt.ne, fun r at_idx x2apic => ?_⟩
      have same := got.symm.trans (gets.inside r at_idx)
      obtain rfl := Option.some.inj (found.symm.trans at_idx)
      simpa [x2apic, Kind.type] using same
    · rintro ⟨-, typed⟩
      refine ⟨iff_of_false ?_ (Nat.not_le.mpr lt), fun r at_idx => ?_⟩
      · rintro ⟨info', outside⟩
        cases got.symm.trans outside
      · obtain rfl := Option.some.inj (found.symm.trans at_idx)
        rw [got]
        split_ifs with x2apic
        · rw [typed _ found x2apic, x2apic]
          rfl
        · rfl
  · refine iff_of_false (fun gets => ?_) fun right => right.1 rfl
    obtain ⟨info', got⟩ := gets.outside.mpr le_rfl
    rw [sratGetRecord_ofRecords le_rfl, List.getElem?_eq_none length.le] at got
    cases got
  · have none : (ordered records)[idx]? = none := List.getElem?_eq_none (by omega)
    have got : (ofRecords records).sratGetRecord idx info = some (.outOfBounds, info) := if_pos gt
    refine iff_of_true ⟨iff_of_true ⟨info, got⟩ gt.le, ?_⟩ ⟨by omega, ?_⟩ <;> simp [none]

/-- The first of two records. -/
theorem srat_record_iff_first :
    let r : Record := ⟨.memory, List.replicate 38 0, rfl⟩
    Gets (ofRecords [r, r]) [r, r] 0 ⟨7, .empty⟩ := by
  intro r
  have small : ([r, r].flatMap Record.bytes).length < 2 ^ 32 - 48 := by decide
  refine (srat_record_iff small (parse_bytes small 3)).mpr ⟨by decide, fun r found => ?_⟩
  cases found
  nofun

/-- An index one past the last record is taken for one of an x2APIC, and the type of an x2APIC
    is left as it was. -/
theorem srat_record_wrong :
    let r : Record := ⟨.x2apic, List.replicate 22 0, rfl⟩
    ((ofRecords []).sratGetRecord 0 ⟨0, .empty⟩ = none ∧ ¬ Gets (ofRecords []) [] 0 ⟨0, .empty⟩) ∧
      (ofRecords [r]).sratGetRecord 0 ⟨0, .empty⟩ = some (.ok, ⟨0, .x2apic 0 0 0⟩) := by
  refine ⟨⟨rfl, fun gets => ?_⟩, rfl⟩
  obtain ⟨info', got⟩ := gets.outside.mpr le_rfl
  cases got

end SratTable

end Xdk.Acpi
