import Mathlib.Data.Nat.Bitwise
import Xdk.Lib.Ring
import Xdk.X540.MultiSend

/-! # Packets in the transmit ring

The packets in the ring are laid out one after the other.  This module says where their reports
are, what is in the entries of the software ring, and what the stores of a packet do to the
descriptors.
-/

namespace Xdk.X540

open Xdk.Lib Function

/-! ## Sizes -/

def ExoMbuf.size (pkt : ExoMbuf) : Nat := pkt.nbSegment + 1

@[simp] theorem descriptors_nil : descriptors [] = 0 := rfl

@[simp] theorem descriptors_cons (pkt : ExoMbuf) (pkts : List ExoMbuf) :
    descriptors (pkt :: pkts) = pkt.size + descriptors pkts := by
  simp [descriptors, ExoMbuf.size]

@[simp] theorem descriptors_append (front back : List ExoMbuf) :
    descriptors (front ++ back) = descriptors front + descriptors back := by
  simp [descriptors]

theorem ExoMbuf.Consistent.size_bounds {pkt : ExoMbuf} (inv : pkt.Consistent) :
    2 ≤ pkt.size ∧ pkt.size ≤ 4 := by
  rw [ExoMbuf.size, inv]
  split <;> split <;> decide

/-- The number of descriptors has sixteen bits. -/
theorem ExoMbuf.Consistent.counted {pkt : ExoMbuf} (inv : pkt.Consistent) :
    wrap 16 (pkt.nbSegment + 1) = pkt.size := by
  have sizes := inv.size_bounds
  exact wrap_of_lt (Nat.lt_of_le_of_lt sizes.2 (by decide))

/-! ## Reports -/

/-- The last descriptors of the packets on which a report is asked for, when `since` descriptors
    have been used since the last one. -/
def reports (thresh : Nat) : Nat → Nat → List ExoMbuf → List Nat
  | _, _, [] => []
  | since, start, pkt :: pkts =>
    if thresh ≤ since + pkt.size then
      (start + pkt.size - 1) :: reports thresh 0 (start + pkt.size) pkts
    else reports thresh (since + pkt.size) (start + pkt.size) pkts

def unreported (thresh : Nat) : Nat → List ExoMbuf → Nat
  | since, [] => since
  | since, pkt :: pkts =>
    unreported thresh (if thresh ≤ since + pkt.size then 0 else since + pkt.size) pkts

variable {thresh since start : Nat} {pkt : ExoMbuf} {pkts front back : List ExoMbuf}

theorem reports_append : reports thresh since start (front ++ back) =
    reports thresh since start front ++
      reports thresh (unreported thresh since front) (start + descriptors front) back := by
  induction front generalizing since start with
  | nil => rfl
  | cons pkt front ih =>
    simp only [List.cons_append, reports, unreported]
    split <;> simp [ih, Nat.add_assoc]

theorem unreported_append : unreported thresh since (front ++ back) =
    unreported thresh (unreported thresh since front) back := by
  induction front generalizing since with
  | nil => rfl
  | cons pkt front ih =>
    simp only [List.cons_append, unreported, ih]

theorem unreported_lt (lt : since < thresh) : unreported thresh since pkts < thresh := by
  induction pkts generalizing since with
  | nil => exact lt
  | cons pkt pkts ih =>
    apply ih
    split <;> omega

theorem mem_reports {n : Nat} (sizes : ∀ pkt ∈ pkts, 0 < pkt.size)
    (member : n ∈ reports thresh since start pkts) :
    start ≤ n ∧ n < start + descriptors pkts := by
  induction pkts generalizing since start with
  | nil => cases member
  | cons pkt pkts ih =>
    have positive := sizes pkt List.mem_cons_self
    have later := fun since start => @ih since start fun pkt member =>
      sizes pkt (List.mem_cons_of_mem _ member)
    simp only [reports] at member
    rw [descriptors_cons]
    split at member
    · obtain rfl | member := List.mem_cons.mp member
      · omega
      · have := later _ _ member
        omega
    · have := later _ _ member
      omega

/-- The first report is on the packet that has the descriptor where `thresh` is reached. -/
theorem first_report (lt : since < thresh) (enough : thresh ≤ since + descriptors pkts) :
    ∃ front pkt back, pkts = front ++ pkt :: back ∧ since + descriptors front < thresh ∧
      thresh ≤ since + descriptors front + pkt.size ∧
      unreported thresh since pkts = unreported thresh 0 back ∧
      reports thresh since start pkts = (start + descriptors front + pkt.size - 1) ::
        reports thresh 0 (start + descriptors front + pkt.size) back := by
  induction pkts generalizing since start with
  | nil => exact absurd enough (by simpa using lt)
  | cons pkt pkts ih =>
    simp only [reports, unreported]
    rw [descriptors_cons] at enough
    split
    · rename_i reached
      exact ⟨[], pkt, pkts, rfl, lt, reached, rfl, rfl⟩
    · rename_i short
      obtain ⟨front, reported, back, rfl, before, reached, count, list⟩ :=
        @ih (since + pkt.size) (start + pkt.size) (by omega) (by omega)
      refine ⟨pkt :: front, reported, back, rfl, ?_, ?_, count, ?_⟩
      · rw [descriptors_cons]
        omega
      · rw [descriptors_cons]
        omega
      · rw [list, descriptors_cons, ← Nat.add_assoc]

/-! ## Entries -/

/-- The entry of a descriptor of a packet: the packet itself is kept with its second one. -/
def entryOf (ringSize start : Nat) (pkt : ExoMbuf) (offset : Nat) : TxEntry :=
  ⟨if offset = 1 then pkt else .zero, (start + offset + 1) % ringSize,
    (start + pkt.size - 1) % ringSize⟩

def freeEntry (ringSize number : Nat) : TxEntry :=
  ⟨.zero, (number + 1) % ringSize, number % ringSize⟩

def Laid (ringSize : Nat) (swRing : Nat → TxEntry) : Nat → List ExoMbuf → Prop
  | _, [] => True
  | start, pkt :: pkts =>
    (∀ offset < pkt.size,
      swRing ((start + offset) % ringSize) = entryOf ringSize start pkt offset) ∧
      Laid ringSize swRing (start + pkt.size) pkts

variable {ringSize : Nat} {swRing changed : Nat → TxEntry}

theorem Laid.frame (laid : Laid ringSize swRing start pkts)
    (same : ∀ n, start ≤ n → n < start + descriptors pkts →
      changed (n % ringSize) = swRing (n % ringSize)) :
    Laid ringSize changed start pkts := by
  induction pkts generalizing start with
  | nil => trivial
  | cons pkt pkts ih =>
    rw [descriptors_cons] at same
    refine ⟨fun off bound => ?_, ih laid.2 fun n lower upper => ?_⟩
    · rw [same _ (Nat.le_add_right _ _) (by omega)]
      exact laid.1 off bound
    · exact same n (by omega) (by omega)

theorem laid_append : Laid ringSize swRing start (front ++ back) ↔
    Laid ringSize swRing start front ∧ Laid ringSize swRing (start + descriptors front) back := by
  induction front generalizing start with
  | nil => simp [Laid]
  | cons pkt front ih =>
    simp only [List.cons_append, Laid, ih, descriptors_cons, Nat.add_assoc,
      and_assoc]

/-- The buffers in the entries of one packet. -/
theorem entryOf_buffers (large : 2 ≤ pkt.size) :
    ((List.range pkt.size).flatMap fun off =>
      (entryOf ringSize start pkt off).txBuf.buffers) = pkt.buffers := by
  have none : ExoMbuf.zero.buffers = [] := rfl
  obtain ⟨rest, size⟩ := Nat.exists_eq_add_of_le' large
  rw [size, List.range_succ_eq_map, List.range_succ_eq_map]
  simp [entryOf, none]

/-- The buffers in the entries of the packets. -/
theorem Laid.buffers (laid : Laid ringSize swRing start pkts) (sizes : ∀ pkt ∈ pkts, 2 ≤ pkt.size) :
    ((List.range (descriptors pkts)).flatMap fun off =>
      (swRing ((start + off) % ringSize)).txBuf.buffers) = pkts.flatMap ExoMbuf.buffers := by
  induction pkts generalizing start with
  | nil => rfl
  | cons pkt pkts ih =>
    have head : ((List.range pkt.size).flatMap fun off =>
        (swRing ((start + off) % ringSize)).txBuf.buffers) = pkt.buffers := by
      rw [← entryOf_buffers (sizes pkt List.mem_cons_self)]
      refine List.flatMap_congr fun off mem => ?_
      rw [laid.1 off (List.mem_range.mp mem)]
    have tail := ih laid.2 fun pkt mem =>
      sizes pkt (List.mem_cons_of_mem _ mem)
    rw [descriptors_cons, List.range_add, List.flatMap_append, head, List.flatMap_map,
      List.flatMap_cons, ← tail]
    simp only [Nat.add_assoc]

/-! ## The loop over the descriptors of a packet -/

def Chained (ringSize : Nat) (swRing : Nat → TxEntry) (start count : Nat) : Prop :=
  ∀ offset < count, (swRing ((start + offset) % ringSize)).nextId = (start + offset + 1) % ringSize

theorem Chained.head {c : Nat} (chained : Chained ringSize swRing start (c + 1)) :
    (swRing (start % ringSize)).nextId = (start + 1) % ringSize := chained 0 (Nat.succ_pos _)

theorem Chained.tail {count txLast : Nat} (chained : Chained ringSize swRing start (count + 1)) :
    Chained ringSize (update swRing (start % ringSize)
      ((swRing (start % ringSize)).setLast txLast)) (start + 1) count := by
  intro off lt
  have next := chained (off + 1) (Nat.succ_lt_succ lt)
  rw [show start + 1 + off = start + (off + 1) by omega, update_apply]
  split
  · rename_i same
    rw [← same]
    exact next
  · exact next

variable {txLast : Nat} {writes : List DescWrite}

section

variable (chained : Chained ringSize swRing start writes.length)
include chained

/-- The stores go to the descriptors in order. -/
theorem layout_stores :
    (TxRing.layout txLast writes swRing (start % ringSize)).2 =
      (writes.mapIdx fun off write => ((start + off) % ringSize, write),
        (start + writes.length) % ringSize) := by
  induction writes generalizing swRing start with
  | nil => rfl
  | cons write writes ih =>
    simp only [TxRing.layout, chained.head, ih chained.tail, List.mapIdx_cons,
      List.length_cons, Nat.add_zero, Nat.add_assoc, Nat.add_comm 1]

theorem layout_outside {index : Nat}
    (outside : ∀ off < writes.length, (start + off) % ringSize ≠ index) :
    (TxRing.layout txLast writes swRing (start % ringSize)).1 index = swRing index := by
  induction writes generalizing swRing start with
  | nil => rfl
  | cons write writes ih =>
    have first : start % ringSize ≠ index := outside 0 (Nat.succ_pos _)
    simp only [TxRing.layout, chained.head]
    rw [ih chained.tail, update_of_ne first.symm]
    intro off lt
    rw [show start + 1 + off = start + (off + 1) by omega]
    exact outside (off + 1) (Nat.succ_lt_succ lt)

theorem layout_inside (fits : writes.length ≤ ringSize) {off : Nat} (inside : off < writes.length) :
    (TxRing.layout txLast writes swRing (start % ringSize)).1 ((start + off) % ringSize) =
      (swRing ((start + off) % ringSize)).setLast txLast := by
  induction writes generalizing swRing start off with
  | nil => cases inside
  | cons write writes ih =>
    rw [List.length_cons] at fits inside
    simp only [TxRing.layout, chained.head]
    cases off with
    | zero =>
      rw [layout_outside chained.tail, Nat.add_zero, update_self]
      intro other bound
      exact cell_ne_of_turn (show start ≤ start + 1 + other by omega) (by omega) (Nat.le_refl _)
        (by omega) (by omega)
    | succ off =>
      have other : (start + (off + 1)) % ringSize ≠ start % ringSize :=
        cell_ne_of_turn (Nat.le_add_right _ _) (by omega) (Nat.le_refl _) (by omega) (by omega)
      rw [show start + (off + 1) = start + 1 + off by omega] at other ⊢
      rw [ih chained.tail (by omega) (by omega), update_of_ne other]

end

/-! ## Stores -/

def applyAll (stores : List (Nat × DescWrite)) (desc : Nat → AdvDesc) : Nat → AdvDesc :=
  stores.foldl (fun desc store =>
    Function.update desc store.1 (store.2.apply (desc store.1))) desc

variable {stores : List (Nat × DescWrite)} {desc : Nat → AdvDesc} {index : Nat}

@[simp] theorem applyAll_cons (store : Nat × DescWrite) :
    applyAll (store :: stores) desc =
      applyAll stores (update desc store.1 (store.2.apply (desc store.1))) := rfl

theorem applyAll_append (a b : List (Nat × DescWrite)) :
    applyAll (a ++ b) desc = applyAll b (applyAll a desc) :=
  List.foldl_append

theorem applyAll_outside (outside : ∀ store ∈ stores, store.1 ≠ index) :
    applyAll stores desc index = desc index := by
  induction stores generalizing desc with
  | nil => rfl
  | cons store stores ih =>
    rw [applyAll_cons, ih fun store mem =>
      outside store (List.mem_cons_of_mem _ mem)]
    exact update_of_ne (outside store List.mem_cons_self).symm _ _

theorem applyAll_update (outside : ∀ store ∈ stores, store.1 ≠ index) (value : AdvDesc) :
    applyAll stores (update desc index value) =
      update (applyAll stores desc) index value := by
  induction stores generalizing desc with
  | nil => rfl
  | cons store stores ih =>
    have ne := outside store List.mem_cons_self
    rw [applyAll_cons, applyAll_cons, ← ih fun store mem =>
      outside store (List.mem_cons_of_mem _ mem), update_of_ne ne,
      update_comm ne.symm]

/-- A store that asks for no report and leaves no report behind that was not there. -/
def DescWrite.Plain (write : DescWrite) : Prop :=
  ∀ desc : AdvDesc, ¬ (write.apply desc).Rs ∧ ((write.apply desc).Dd → desc.Dd)

theorem applyAll_plain_dd (plain : ∀ store ∈ stores, store.2.Plain)
    (done : (applyAll stores desc index).Dd) : (desc index).Dd := by
  induction stores generalizing desc with
  | nil => exact done
  | cons store stores ih =>
    rw [applyAll_cons] at done
    have before := ih (fun store mem =>
      plain store (List.mem_cons_of_mem _ mem)) done
    rw [update_apply] at before
    split at before
    · rename_i same
      exact same ▸ (plain store List.mem_cons_self _).2 before
    · exact before

theorem applyAll_plain_rs (plain : ∀ store ∈ stores, store.2.Plain)
    (inside : index ∈ stores.map Prod.fst) : ¬ (applyAll stores desc index).Rs := by
  induction stores generalizing desc with
  | nil => cases inside
  | cons store stores ih =>
    have later := fun store mem => plain store (List.mem_cons_of_mem _ mem)
    by_cases again : index ∈ stores.map Prod.fst
    · exact ih later again
    · have first : index = store.1 := (List.mem_cons.mp inside).resolve_right again
      rw [applyAll_cons, applyAll_outside, first, update_self]
      · exact (plain store List.mem_cons_self _).1
      · intro other mem same
        exact again (same ▸ List.mem_map_of_mem mem)

/-! ## The stores of a packet -/

theorem mask_ne_zero {word mask : UInt32} {bit : Nat} (single : mask.toNat = 2 ^ bit) :
    word &&& mask ≠ 0 ↔ word.toNat.testBit bit = true := by
  rw [Ne, ← UInt32.toNat_inj, UInt32.toNat_and, single, Nat.and_two_pow]
  cases word.toNat.testBit bit <;> simp

theorem AdvDesc.rs_iff (desc : AdvDesc) : desc.Rs ↔ desc.cmdTypeLen.toNat.testBit 27 = true :=
  mask_ne_zero rfl

theorem AdvDesc.dd_iff (desc : AdvDesc) : desc.Dd ↔ desc.olinfoStatus.toNat.testBit 0 = true :=
  mask_ne_zero rfl

theorem AdvDesc.process_rs (desc : AdvDesc) : desc.process.Rs ↔ desc.Rs := by
  unfold AdvDesc.process
  split <;> rfl

theorem AdvDesc.process_dd (desc : AdvDesc) (done : desc.process.Dd) : desc.Dd ∨ desc.Rs := by
  unfold AdvDesc.process at done
  split at done
  · rename_i report
    exact .inr report
  · exact .inl done

theorem apply_setRs_rs (desc : AdvDesc) : (DescWrite.setRs.apply desc).Rs := by
  have set : (0x08000000 : UInt32).toNat.testBit 27 = true := by decide
  simp only [AdvDesc.rs_iff, DescWrite.apply, UInt32.toNat_or, Nat.testBit_or, set, Bool.or_true]

theorem apply_resetStatus_dd (desc : AdvDesc) : ¬ (DescWrite.resetStatus.apply desc).Dd :=
  not_not_intro (show (0 : UInt32) &&& 1 = 0 by decide)

variable {cmd : UInt32}

/-- The length stays below the bit of a report. -/
theorem len_or_rs (len : UInt16) (clear : cmd.toNat.testBit 27 = false) :
    (len.toUInt32 ||| cmd).toNat.testBit 27 = false := by
  have small := len.toNat_lt
  rw [UInt32.toNat_or, Nat.testBit_or, clear, UInt16.toNat_toUInt32,
    Nat.testBit_lt_two_pow (by omega), Bool.or_false]

theorem firstDescCmd_rs : firstDescCmd.toNat.testBit 27 = false := by decide

theorem lastDescCmd_rs : lastDescCmd.toNat.testBit 27 = false := by decide

theorem plain_context : DescWrite.context.Plain := by
  intro desc
  constructor
  · change ¬ ((0x00000400 ||| 0x00200000 ||| 0x20000000 : UInt32) &&& 0x08000000 ≠ 0)
    decide
  · intro done
    exact absurd done (apply_resetStatus_dd desc)

theorem plain_first {a : Nat} {len : UInt16} {pktLen : UInt32}
    (clear : cmd.toNat.testBit 27 = false) : (DescWrite.first a len cmd pktLen).Plain := by
  intro desc
  constructor
  · rw [AdvDesc.rs_iff, DescWrite.apply, len_or_rs len clear]
    exact Bool.false_ne_true
  · intro done
    rw [AdvDesc.dd_iff, DescWrite.apply] at done
    simp [firstDescStatus] at done

theorem plain_more {a : Nat} {len : UInt16} (clear : cmd.toNat.testBit 27 = false) :
    (DescWrite.more a len cmd).Plain := by
  intro desc
  constructor
  · rw [AdvDesc.rs_iff, DescWrite.apply, len_or_rs len clear]
    exact Bool.false_ne_true
  · exact id

/-- The stores of a packet with the right number of segments. -/
theorem ExoMbuf.Consistent.dataWrites (inv : pkt.Consistent) :
    ∃ writes, pkt.dataWrites = some writes ∧ writes.length = pkt.nbSegment ∧
      ∀ write ∈ writes, write.Plain := by
  have first := @firstDescCmd_rs
  have last := @lastDescCmd_rs
  rw [ExoMbuf.Consistent] at inv
  by_cases zero : pkt.segLen 0 = 0 <;> by_cases one : pkt.segLen 1 = 0 <;>
    simp [ExoMbuf.dataWrites, inv, zero, one, plain_first, plain_more, first, last]

end Xdk.X540
