import Xdk.Lib.Blocks
import Xdk.Lib.Ring
import Xdk.X540.Send

/-! # Safety of simple transmit

The descriptors that have ever been used are numbered in the order of the packets; descriptor
number `q` is at index `q % N`.  The numbers below `reclaimed`, `processed`, `handed`, `stored` and
`accepted.length` follow one another, and the last is less than a turn ahead of the first.  What
is pending brings `stored` to `accepted.length` and then hands all of it over.
-/

namespace Xdk.X540

open Xdk.Lib Function

structure TxConfig.Proper (config : TxConfig) : Prop where
  positive : 0 < config.txRsThresh
  nonempty : 0 < config.nbTxDesc
  divides : config.txRsThresh ∣ config.nbTxDesc
  fits : config.nbTxDesc + config.txRsThresh ≤ 2 ^ 16
  thresh : config.txFreeThresh ≤ config.txRsThresh

theorem TxConfig.Proper.le {config : TxConfig} (proper : config.Proper) :
    config.txRsThresh ≤ config.nbTxDesc := Nat.le_of_dvd proper.nonempty proper.divides

/-- The ring is a single block, or has at least two. -/
theorem TxConfig.Proper.single_or_more {config : TxConfig} (proper : config.Proper) :
    config.nbTxDesc = config.txRsThresh ∨ 2 * config.txRsThresh ≤ config.nbTxDesc := by
  have pos := proper.nonempty
  obtain ⟨blocks, size⟩ := proper.divides
  rw [size] at pos ⊢
  have some : 0 < blocks := Nat.pos_of_mul_pos_left pos
  obtain rfl | more := Nat.eq_or_lt_of_le some
  · exact .inl (Nat.mul_one _)
  · rw [Nat.mul_comm 2]
    exact .inr (Nat.mul_le_mul_left _ more)

/-- The last descriptor of the ring ends a block. -/
theorem TxConfig.Proper.dvd_last {config : TxConfig} (proper : config.Proper) :
    config.txRsThresh ∣ config.nbTxDesc - 1 + 1 := by
  rw [Nat.sub_add_cancel proper.nonempty]
  exact proper.divides

/-! ## What is pending -/

/-- The stores from descriptor number `stored` on: the packets in order, a request for a report on
    the last descriptor of each block before the tail is written, the tail at the end. -/
def Planned (config : TxConfig) (accepted : List ExoMbuf) (handed : Nat) : Nat → List Store → Prop
  | stored, [] => stored = accepted.length ∧ handed = stored
  | stored, .fill pos pkt :: rest =>
    pos = stored % config.nbTxDesc ∧ accepted[stored]? = some pkt ∧
      (config.txRsThresh ∣ stored + 1 → .setRs pos ∈ rest) ∧
      Planned config accepted handed (stored + 1) rest
  | stored, .setRs pos :: rest =>
    (∃ number, handed ≤ number ∧ number < stored ∧ pos = number % config.nbTxDesc) ∧
      Planned config accepted handed stored rest
  | stored, .tail value :: rest =>
    rest = [] ∧ stored = accepted.length ∧ value = stored % config.nbTxDesc

variable {config : TxConfig} {accepted pkts : List ExoMbuf} {handed stored : Nat}
  {rest : List Store}

theorem Planned.stored_le (planned : Planned config accepted handed stored rest) :
    stored ≤ accepted.length := by
  induction rest generalizing stored with
  | nil => exact Nat.le_of_eq planned.1
  | cons store rest ih =>
    cases store with
    | fill pos pkt => exact Nat.le_of_succ_le (ih planned.2.2.2)
    | setRs pos => exact ih planned.2
    | tail value => exact Nat.le_of_eq planned.2.1

/-- A report is only asked for on a descriptor that has not been handed over. -/
theorem Planned.setRs_number (planned : Planned config accepted handed stored rest) {pos : Nat}
    (member : .setRs pos ∈ rest) :
    ∃ n, handed ≤ n ∧ n < accepted.length ∧ pos = n % config.nbTxDesc := by
  induction rest generalizing stored with
  | nil => cases member
  | cons store rest ih =>
    cases store with
    | fill o pkt =>
      exact ih planned.2.2.2 (List.mem_of_ne_of_mem (by simp) member)
    | setRs o =>
      obtain ⟨⟨n, lo, hi, place⟩, later⟩ := planned
      obtain same | member := List.mem_cons.mp member
      · cases same
        exact ⟨n, lo, Nat.lt_of_lt_of_le hi later.stored_le, place⟩
      · exact ih later member
    | tail value =>
      obtain ⟨rfl, -, -⟩ := planned
      simp at member

theorem planned_fills {pos : Nat} (place : ∀ i < pkts.length,
      (stored + i) % config.nbTxDesc = pos + i)
    (content : ∀ i < pkts.length, accepted[stored + i]? = pkts[i]?)
    (marks : ∀ i < pkts.length, config.txRsThresh ∣ stored + i + 1 →
      .setRs (pos + i) ∈ rest)
    (later : Planned config accepted handed (stored + pkts.length) rest) :
    Planned config accepted handed stored (TxRing.fills pos pkts ++ rest) := by
  induction pkts generalizing stored pos with
  | nil => exact later
  | cons pkt pkts ih =>
    have start := place 0 (Nat.succ_pos _)
    refine ⟨start.symm, by simpa using content 0 (Nat.succ_pos _), ?_, ?_⟩
    · intro ends
      exact List.mem_append_right _ (marks 0 (Nat.succ_pos _) ends)
    · refine ih ?_ ?_ ?_ ?_
      · intro i lt
        rw [Nat.add_assoc, Nat.add_comm 1, place _ (Nat.succ_lt_succ lt)]
        omega
      · intro i lt
        have next := content (i + 1) (Nat.succ_lt_succ lt)
        rwa [List.getElem?_cons_succ, ← Nat.add_assoc, Nat.add_right_comm] at next
      · intro i lt ends
        have next := marks (i + 1) (Nat.succ_lt_succ lt)
        rw [show stored + 1 + i = stored + (i + 1) by omega] at ends
        rw [show pos + 1 + i = pos + (i + 1) by omega]
        exact next ends
      · rwa [List.length_cons, ← Nat.add_assoc, Nat.add_right_comm] at later

/-! ## The cursors of the tail -/

namespace TxRing

/-- The next report is asked for at the end of the block of the tail. -/
structure Aligned (config : TxConfig) (ring : TxRing) : Prop where
  nbTxDesc : ring.nbTxDesc = config.nbTxDesc
  txRsThresh : ring.txRsThresh = config.txRsThresh
  txFreeThresh : ring.txFreeThresh = config.txFreeThresh
  bound : ring.txTail < config.nbTxDesc
  nextRs : ring.txNextRs = blockEnd config.txRsThresh ring.txTail

variable {ring : TxRing}

theorem wrap_thresh (proper : config.Proper) :
    wrap 16 (config.txRsThresh - 1) = blockEnd config.txRsThresh 0 := by
  have fits := proper.fits
  rw [wrap_of_lt (by omega)]
  simp [blockEnd]

/-- How many packets go to the top of the ring. -/
theorem wrap_top (proper : config.Proper) (ring : TxRing) :
    wrap 16 (config.nbTxDesc - ring.txTail) = config.nbTxDesc - ring.txTail := by
  have fits := proper.fits
  have positive := proper.positive
  exact wrap_of_lt (by omega)

@[simp] theorem fillAround_nbTxFree (ring : TxRing) (pkts : List ExoMbuf) :
    (ring.fillAround pkts).1.nbTxFree = ring.nbTxFree := by
  rw [fillAround]
  split <;> rfl

@[simp] theorem fillAround_txNextDd (ring : TxRing) (pkts : List ExoMbuf) :
    (ring.fillAround pkts).1.txNextDd = ring.txNextDd := by
  rw [fillAround]
  split <;> rfl

section

variable (aligned : ring.Aligned config) (proper : config.Proper)
include aligned proper

/-- The tail after `c` more descriptors, and the end of its block. -/
theorem Aligned.advance {c : Nat}
    (inside : ring.txTail + c ≤ config.nbTxDesc) (burst : c ≤ config.txRsThresh) :
    (if ring.txNextRs < ring.txTail + c then
        if config.nbTxDesc ≤ ring.txNextRs + config.txRsThresh then
          blockEnd config.txRsThresh 0
        else ring.txNextRs + config.txRsThresh
      else ring.txNextRs) =
      blockEnd config.txRsThresh ((ring.txTail + c) % config.nbTxDesc) := by
  have pos := proper.positive
  rw [aligned.nextRs]
  obtain inner | full := Nat.lt_or_eq_of_le inside
  · rw [Nat.mod_eq_of_lt inner]
    split
    · rename_i marks
      have next := blockEnd_lt_of_dvd pos proper.divides inner
      rw [blockEnd_add_of_lt pos marks burst] at next ⊢
      rw [if_neg (Nat.not_le_of_lt next)]
    · rename_i within
      rw [blockEnd_add_of_le (Nat.le_of_not_lt within)]
  · have bound := aligned.bound
    have whole : config.nbTxDesc - 1 = blockEnd config.txRsThresh ring.txTail :=
      eq_blockEnd (by omega) (by omega) proper.dvd_last
    rw [full, Nat.mod_self, if_pos (by omega), if_pos (by omega)]

theorem fillBottom_aligned
    (inside : ring.txTail + pkts.length ≤ config.nbTxDesc)
    (burst : pkts.length ≤ config.txRsThresh) :
    (ring.fillBottom pkts).1.Aligned config ∧
      (ring.fillBottom pkts).1.txTail = (ring.txTail + pkts.length) % config.nbTxDesc := by
  have fits := proper.fits
  have pos := proper.positive
  have last : ring.txNextRs < config.nbTxDesc :=
    aligned.nextRs ▸ blockEnd_lt_of_dvd pos proper.divides aligned.bound
  have tailFits : wrap 16 (ring.txTail + pkts.length) = ring.txTail + pkts.length :=
    wrap_of_lt (by omega)
  have nextFits : wrap 16 (ring.txNextRs + config.txRsThresh) =
      ring.txNextRs + config.txRsThresh := wrap_of_lt (by omega)
  simp only [fillBottom, txFillHwRing, aligned.nbTxDesc, aligned.txRsThresh, tailFits, nextFits,
    reset_eq_mod inside, wrap_thresh proper]
  refine ⟨⟨rfl, rfl, aligned.txFreeThresh, Nat.mod_lt _ proper.nonempty, ?_⟩, trivial⟩
  exact aligned.advance proper inside burst

/-- The only end of a block among the next descriptors is the next report. -/
theorem Aligned.eq_nextRs
    {n off : Nat} (place : n % config.nbTxDesc = ring.txTail + off)
    (close : off < config.txRsThresh) (ends : config.txRsThresh ∣ n + 1) :
    ring.txTail + off = ring.txNextRs := by
  rw [← dvd_succ_mod_iff proper.divides, place] at ends
  rw [aligned.nextRs]
  exact eq_blockEnd (by omega) (by omega) ends

theorem planned_bottom
    (inside : ring.txTail + pkts.length ≤ config.nbTxDesc)
    (burst : pkts.length ≤ config.txRsThresh)
    (place : ring.txTail = stored % config.nbTxDesc)
    (content : ∀ index < pkts.length, accepted[stored + index]? = pkts[index]?)
    (whole : stored + pkts.length = accepted.length) (ahead : handed ≤ stored) :
    Planned config accepted handed stored (ring.fillBottom pkts).2 := by
  have fits := proper.fits
  have pos := proper.positive
  have tailFits : wrap 16 (ring.txTail + pkts.length) = ring.txTail + pkts.length :=
    wrap_of_lt (by omega)
  have lower : ring.txTail ≤ ring.txNextRs := aligned.nextRs ▸ le_blockEnd pos
  have places : ∀ index < pkts.length,
      (stored + index) % config.nbTxDesc = ring.txTail + index := by
    intro index lt
    rw [← Nat.mod_add_mod, ← place, Nat.mod_eq_of_lt (by omega)]
  have final : (ring.txTail + pkts.length) % config.nbTxDesc =
      (stored + pkts.length) % config.nbTxDesc := by
    rw [place, Nat.mod_add_mod]
  simp only [fillBottom, aligned.nbTxDesc, tailFits, reset_eq_mod inside, final,
    List.append_assoc]
  refine planned_fills places content ?_ ?_
  · intro index lt ends
    have marked := aligned.eq_nextRs proper (places index lt) (by omega) ends
    rw [marked, if_pos (by omega)]
    exact List.mem_append_left _ List.mem_cons_self
  · split
    · refine ⟨⟨stored + (ring.txNextRs - ring.txTail), by omega, by omega, ?_⟩, rfl, whole, rfl⟩
      rw [places _ (by omega)]
      omega
    · exact ⟨rfl, whole, rfl⟩

/-- When the packets go beyond the end of the ring, the next report is at its last descriptor. -/
theorem Aligned.nextRs_of_wrap
    {c : Nat} (wraps : config.nbTxDesc < ring.txTail + c)
    (burst : c ≤ config.txRsThresh) : ring.txNextRs = config.nbTxDesc - 1 := by
  have bound := aligned.bound
  rw [aligned.nextRs]
  exact (eq_blockEnd (by omega) (by omega) proper.dvd_last).symm

theorem fillTop_aligned :
    (ring.fillTop pkts).1.Aligned config := by
  refine ⟨aligned.nbTxDesc, aligned.txRsThresh, aligned.txFreeThresh, proper.nonempty, ?_⟩
  simp only [fillTop, aligned.txRsThresh]
  exact wrap_thresh proper

/-- The cursors after the packets of one call. -/
theorem fillAround_aligned
    (burst : pkts.length ≤ config.txRsThresh) :
    (ring.fillAround pkts).1.Aligned config ∧
      (ring.fillAround pkts).1.txTail = (ring.txTail + pkts.length) % config.nbTxDesc := by
  have bound := aligned.bound
  have le := proper.le
  rw [fillAround, aligned.nbTxDesc, wrap_top proper ring]
  split_ifs with wraps
  · have rest : (pkts.drop (config.nbTxDesc - ring.txTail)).length =
        ring.txTail + pkts.length - config.nbTxDesc := by
      rw [List.length_drop]
      omega
    obtain ⟨kept, tail⟩ := fillBottom_aligned (fillTop_aligned aligned proper) proper
      (show 0 + (pkts.drop (config.nbTxDesc - ring.txTail)).length ≤ _ by omega) (by omega)
    refine ⟨kept, tail.trans ?_⟩
    rw [rest, Nat.mod_eq_sub_mod (Nat.le_of_lt wraps)]
    exact congrArg (· % config.nbTxDesc) (Nat.zero_add _)
  · exact fillBottom_aligned aligned proper (Nat.le_of_not_lt wraps) burst

theorem planned_fillAround
    (burst : pkts.length ≤ config.txRsThresh)
    (place : ring.txTail = accepted.length % config.nbTxDesc) :
    Planned config (accepted ++ pkts) accepted.length accepted.length
      (ring.fillAround pkts).2 := by
  have lt := aligned.bound
  have le := proper.le
  have content : ∀ index, (accepted ++ pkts)[accepted.length + index]? = pkts[index]? := by
    intro index
    rw [List.getElem?_append_right (Nat.le_add_right _ _), Nat.add_sub_cancel_left]
  rw [fillAround, aligned.nbTxDesc, wrap_top proper ring]
  split_ifs with wraps
  · have last := aligned.nextRs_of_wrap proper wraps burst
    have places : ∀ index < config.nbTxDesc - ring.txTail,
        (accepted.length + index) % config.nbTxDesc = ring.txTail + index := by
      intro index inside
      rw [← Nat.mod_add_mod, ← place, Nat.mod_eq_of_lt (by omega)]
    have origin : (accepted.length + (config.nbTxDesc - ring.txTail)) % config.nbTxDesc = 0 := by
      rw [← Nat.mod_add_mod, ← place, Nat.add_sub_cancel' (Nat.le_of_lt lt), Nat.mod_self]
    have taken : (pkts.take (config.nbTxDesc - ring.txTail)).length =
        config.nbTxDesc - ring.txTail := by
      rw [List.length_take]
      omega
    have dropped : (pkts.drop (config.nbTxDesc - ring.txTail)).length =
        ring.txTail + pkts.length - config.nbTxDesc := by
      rw [List.length_drop]
      omega
    change Planned _ _ _ _ ((fills ring.txTail _ ++ [.setRs ring.txNextRs]) ++ _)
    rw [List.append_assoc]
    refine planned_fills ?_ ?_ ?_ ?_
    · rw [taken]
      exact places
    · intro index inside
      rw [taken] at inside
      rw [content, List.getElem?_take_of_lt inside]
    · intro index inside ends
      -- the end of the ring is the only end of a block at its top
      rw [taken] at inside
      rw [aligned.eq_nextRs proper (places index inside) (by omega) ends]
      exact List.mem_cons_self
    · rw [taken]
      refine ⟨⟨accepted.length + (config.nbTxDesc - ring.txTail - 1), by omega, by omega, ?_⟩, ?_⟩
      · rw [places _ (by omega)]
        omega
      · refine planned_bottom (fillTop_aligned aligned proper) proper
          (show 0 + _ ≤ _ by omega) (by omega) origin.symm ?_ ?_ (Nat.le_add_right _ _)
        · intro index inside
          rw [Nat.add_assoc, content, List.getElem?_drop]
        · rw [List.length_append]
          omega
  · refine planned_bottom aligned proper (Nat.le_of_not_lt wraps) burst place
      (fun index _ => content index) ?_ (Nat.le_refl _)
    rw [List.length_append]

end

end TxRing

open TxRing

/-! ## The invariant -/

structure TxDesc.Holds (desc : TxDesc) (pkt : ExoMbuf) : Prop where
  address : desc.address = pkt.physAddr
  length : desc.length = pkt.len
  waiting : ¬ desc.Dd

theorem TxDesc.holds_ofPacket (pkt : ExoMbuf) : (ofPacket pkt).Holds pkt where
  address := rfl
  length := rfl
  waiting := by simp [Dd, ofPacket]

namespace SimpleTx

/-- What is in the descriptors that have been filled and not processed, and in those that have
    never been filled. -/
structure Descriptors (config : TxConfig) (tx : SimpleTx) : Prop where
  content : ∀ number, tx.processed ≤ number → number < tx.stored →
    ∃ pkt, tx.accepted[number]? = some pkt ∧ (tx.desc (number % config.nbTxDesc)).Holds pkt
  report : ∀ number, tx.processed ≤ number → number < tx.stored →
    config.txRsThresh ∣ number + 1 → (tx.desc (number % config.nbTxDesc)).Rs ∨
      .setRs (number % config.nbTxDesc) ∈ tx.pending
  fresh : ∀ index, tx.stored ≤ index → index < config.nbTxDesc → ¬ (tx.desc index).Dd

structure Safe (config : TxConfig) (tx : SimpleTx) : Prop where
  aligned : tx.ring.Aligned config
  tail : tx.ring.txTail = tx.accepted.length % config.nbTxDesc
  planned : Planned config tx.accepted tx.handed tx.stored tx.pending
  reclaimed : tx.reclaimed ≤ tx.processed
  processed : tx.processed ≤ tx.handed
  handed : tx.handed ≤ tx.stored
  free : tx.ring.nbTxFree + tx.accepted.length + 1 = config.nbTxDesc + tx.reclaimed
  blocks : config.txRsThresh ∣ tx.reclaimed
  nextDd : tx.ring.txNextDd = tx.reclaimed % config.nbTxDesc + (config.txRsThresh - 1)
  laps : tx.reclaimed = 0 ∨ 2 * config.txRsThresh ≤ config.nbTxDesc
  tdt : tx.tdt = tx.handed % config.nbTxDesc
  tdh : tx.tdh = tx.processed % config.nbTxDesc
  descriptors : tx.Descriptors config
  seen : tx.seen = (tx.accepted.take tx.processed).map fun pkt => (pkt.physAddr, pkt.len)

variable {tx after : SimpleTx}

theorem start_safe (proper : config.Proper) : (start config).Safe config := by
  have fits := proper.fits
  have pos := proper.nonempty
  have size : wrap 16 (config.nbTxDesc - 1) = config.nbTxDesc - 1 := wrap_of_lt (by omega)
  have first := wrap_thresh proper
  refine ⟨⟨rfl, rfl, rfl, pos, first⟩, ?_, ⟨rfl, rfl⟩, Nat.le_refl _, Nat.le_refl _,
    Nat.le_refl _, ?_, Nat.dvd_zero _, ?_, .inl rfl, ?_, ?_, ⟨?_, ?_, ?_⟩, rfl⟩
  · exact (Nat.zero_mod _).symm
  · simp only [start, configureTx, List.length_nil]
    omega
  · simpa [start, configureTx, blockEnd] using first
  · exact (Nat.zero_mod _).symm
  · exact (Nat.zero_mod _).symm
  · intro n _ above
    exact absurd above (Nat.not_lt_zero _)
  · intro n _ above
    exact absurd above (Nat.not_lt_zero _)
  · intro index _ _
    simp [start, TxDesc.zero, TxDesc.Dd]

section

variable (safe : tx.Safe config)
include safe

/-- The numbers between `processed` and `stored` are less than a turn apart. -/
theorem Safe.turn : tx.accepted.length < tx.processed + config.nbTxDesc := by
  have := safe.free
  have := safe.reclaimed
  omega

theorem Safe.stored_le : tx.stored ≤ tx.accepted.length :=
  safe.planned.stored_le

theorem Safe.stored_eq (idle : tx.pending = []) : tx.stored = tx.accepted.length := by
  have planned := safe.planned
  rw [idle] at planned
  exact planned.1

theorem Safe.reclaimed_le : tx.reclaimed ≤ tx.accepted.length := by
  calc tx.reclaimed ≤ tx.processed := safe.reclaimed
    _ ≤ tx.handed := safe.processed
    _ ≤ tx.stored := safe.handed
    _ ≤ tx.accepted.length := safe.stored_le

/-! ## Reclaiming -/

section

variable (proper : config.Proper)
include proper

/-- A block that `tx_free_bufs` finds done has been filled and processed. -/
theorem Safe.reclaims (idle : tx.pending = []) (reclaims : tx.ring.Reclaims tx.desc) :
    tx.reclaimed + config.txRsThresh ≤ tx.processed := by
  obtain ⟨low, done⟩ := reclaims
  have positive := proper.positive
  have thresh := proper.thresh
  have free := safe.free
  have stored := safe.stored_eq idle
  have place : (tx.reclaimed + (config.txRsThresh - 1)) % config.nbTxDesc = tx.ring.txNextDd := by
    rw [safe.nextDd]
    exact block_mod proper.divides safe.blocks proper.nonempty (by omega)
  rw [safe.aligned.txFreeThresh] at low
  obtain filled | missing := Nat.lt_or_ge tx.accepted.length (tx.reclaimed + config.txRsThresh)
  · -- fewer descriptors are in use than a block has: the ring is a single block, never filled
    have whole : config.nbTxDesc = config.txRsThresh := by
      obtain single | more := proper.single_or_more
      · exact single
      · omega
    have none := safe.laps.resolve_right (by omega)
    rw [Nat.mod_eq_of_lt (by omega)] at place
    exact absurd (place ▸ done) (safe.descriptors.fresh _ (by omega) (by omega))
  · by_contra behind
    obtain ⟨pkt, -, holds⟩ := safe.descriptors.content (tx.reclaimed + (config.txRsThresh - 1))
      (by omega) (by omega)
    rw [place] at holds
    exact holds.waiting done

theorem Safe.reclaim (idle : tx.pending = []) :
    tx.reclaim.Safe config ∧ tx.reclaim.pending = [] := by
  rw [SimpleTx.reclaim]
  split
  · rename_i reclaims
    have done := safe.reclaims proper idle reclaims
    have free := safe.free
    have fits := proper.fits
    have positive := proper.positive
    have processed := safe.processed
    have handed := safe.handed
    have stored := safe.stored_le
    have inside := block_le_of_dvd proper.divides safe.blocks proper.nonempty
    have blocks : config.txRsThresh ∣ tx.reclaimed + config.txRsThresh :=
      Nat.dvd_add safe.blocks (Nat.dvd_refl _)
    have freeFits : wrap 16 (tx.ring.nbTxFree + config.txRsThresh) =
        tx.ring.nbTxFree + config.txRsThresh := wrap_of_lt (by omega)
    have nextFits : wrap 16 (tx.ring.txNextDd + config.txRsThresh) =
        tx.ring.txNextDd + config.txRsThresh := by
      rw [safe.nextDd]
      exact wrap_of_lt (by omega)
    have two : 2 * config.txRsThresh ≤ config.nbTxDesc := by
      obtain single | more := proper.single_or_more
      · -- a whole block is in use, and one descriptor of the ring is not
        omega
      · exact more
    refine ⟨{ safe with
      aligned := { safe.aligned with }
      reclaimed := ?_
      free := ?_
      blocks := ?_
      nextDd := ?_
      laps := .inr two
      descriptors := { safe.descriptors with } }, idle⟩
    · simpa only [safe.aligned.txRsThresh] using done
    · simp only [txFreeBufs, safe.aligned.txRsThresh]
      omega
    · simpa only [safe.aligned.txRsThresh] using blocks
    · simp only [txFreeBufs, safe.aligned.txRsThresh, safe.aligned.nbTxDesc, nextFits]
      have next := block_le_of_dvd proper.divides blocks proper.nonempty
      rw [safe.nextDd]
      obtain last | earlier := Nat.eq_or_lt_of_le inside
      · rw [if_pos (by omega), ← Nat.mod_add_mod, last, wrap_thresh proper]
        simp [blockEnd]
      · rw [← Nat.mod_add_mod, Nat.mod_eq_of_lt earlier] at next ⊢
        rw [if_neg (by omega)]
        omega
  · exact ⟨safe, idle⟩

/-! ## Accepting -/

/-- The packets that there are descriptors for, and the ring after they have been counted. -/
theorem Safe.accept_cases (pkts : List ExoMbuf) :
    tx.accept pkts = tx ∨ ∃ now : List ExoMbuf,
      now.length = min tx.ring.nbTxFree pkts.length ∧
      TxRing.Aligned config { tx.ring with
        nbTxFree := wrapSub 16 tx.ring.nbTxFree now.length
        nbTxUsed := wrap 16 (tx.ring.nbTxUsed + now.length) } ∧
      tx.accept pkts = { tx with
        ring := (tx.ring.transmit now).1
        pending := (tx.ring.transmit now).2
        accepted := tx.accepted ++ now } := by
  have free := safe.free
  have fits := proper.fits
  have within := safe.reclaimed_le
  have count : wrap 16 (min tx.ring.nbTxFree pkts.length) = min tx.ring.nbTxFree pkts.length :=
    wrap_of_lt (by omega)
  rw [SimpleTx.accept, count]
  split
  · exact .inl rfl
  · refine .inr ⟨pkts.take (min tx.ring.nbTxFree pkts.length), ?_, { safe.aligned with }, rfl⟩
    rw [List.length_take]
    omega

theorem Safe.accept (idle : tx.pending = []) (burst : pkts.length ≤ config.txRsThresh) :
    (tx.accept pkts).Safe config := by
  have free := safe.free
  have fits := proper.fits
  have planned := safe.planned
  rw [idle] at planned
  obtain ⟨stored, handed⟩ := planned
  obtain same | ⟨now, taken, charged, accepts⟩ := safe.accept_cases proper pkts
  · rw [same]
    exact safe
  · rw [accepts]
    obtain ⟨aligned, tail⟩ := fillAround_aligned charged proper
      (show now.length ≤ config.txRsThresh by omega)
    have planned := planned_fillAround charged proper
      (show now.length ≤ config.txRsThresh by omega) safe.tail
    have left : wrapSub 16 tx.ring.nbTxFree now.length = tx.ring.nbTxFree - now.length :=
      wrapSub_of_le (by omega) (by have := safe.reclaimed; have := safe.processed; omega)
    have history : ∀ number < tx.accepted.length,
        (tx.accepted ++ now)[number]? = tx.accepted[number]? :=
      fun number bound => List.getElem?_append_left bound
    refine { safe with
      aligned := aligned
      tail := tail.trans ?_
      planned := ?_
      free := ?_
      nextDd := ?_
      descriptors := ⟨?_, ?_, safe.descriptors.fresh⟩
      seen := ?_ }
    · simp only [safe.tail, Nat.mod_add_mod, List.length_append]
    · simp only [handed, stored]
      exact planned
    · simp only [transmit, fillAround_nbTxFree, List.length_append]
      omega
    · simp only [transmit, fillAround_txNextDd, safe.nextDd]
    · intro number lo hi
      obtain ⟨pkt, mem, holds⟩ := safe.descriptors.content number lo hi
      exact ⟨pkt, (history number (stored ▸ hi)).trans mem, holds⟩
    · intro number lo hi ends
      have done := safe.descriptors.report number lo hi ends
      rw [idle] at done
      exact .inl (done.resolve_right (List.not_mem_nil))
    · have within : tx.processed ≤ tx.accepted.length := by
        have := safe.processed
        omega
      rw [List.take_append_of_le_length within]
      exact safe.seen

end

/-! ## Stores and the hardware -/

/-- The next descriptor to be filled is the first one after those in use. -/
theorem Safe.apart {pos : Nat} {pkt : ExoMbuf} (next : tx.pending = .fill pos pkt :: rest) :
    ∀ n, tx.processed ≤ n → n < tx.stored → n % config.nbTxDesc ≠ pos := by
  intro n lo hi
  have turn := safe.turn
  have planned := safe.planned
  rw [next] at planned
  have room := planned.2.2.2.stored_le
  rw [planned.1]
  exact cell_ne_of_turn lo (by omega) (by omega) (by omega) (Nat.ne_of_lt hi)

theorem Safe.fill {pos : Nat} {pkt : ExoMbuf} (next : tx.pending = .fill pos pkt :: rest) :
    ({ tx with pending := rest }.perform (.fill pos pkt)).Safe config := by
  have apart := safe.apart next
  have planned := safe.planned
  rw [next] at planned
  obtain ⟨place, listed, marks, later⟩ := planned
  refine { safe with
    planned := later
    handed := Nat.le_succ_of_le safe.handed
    descriptors := ⟨?_, ?_, ?_⟩ }
  · intro n lo hi
    obtain rfl | earlier := Nat.eq_or_lt_of_le (Nat.le_of_lt_succ hi)
    · refine ⟨pkt, listed, ?_⟩
      simp only [perform, ← place, update_self]
      exact TxDesc.holds_ofPacket pkt
    · obtain ⟨old, found, holds⟩ := safe.descriptors.content n lo earlier
      refine ⟨old, found, ?_⟩
      simp only [perform, update_of_ne (apart n lo earlier)]
      exact holds
  · intro n lo hi ends
    obtain rfl | earlier := Nat.eq_or_lt_of_le (Nat.le_of_lt_succ hi)
    · exact .inr (place ▸ marks ends)
    · simp only [perform, update_of_ne (apart n lo earlier)]
      have known := safe.descriptors.report n lo earlier ends
      rw [next, List.mem_cons] at known
      exact known.imp_right fun mem => mem.resolve_left (by simp)
  · intro i lo hi
    have lt := Nat.mod_le tx.stored config.nbTxDesc
    have ne : i ≠ pos := by
      rw [place]
      exact Nat.ne_of_gt (Nat.lt_of_le_of_lt lt lo)
    simp only [perform, update_of_ne ne]
    exact safe.descriptors.fresh i (Nat.le_of_succ_le lo) hi

end

theorem TxDesc.rs_setRs {desc : TxDesc} : desc.setRs.Rs := by
  simp only [TxDesc.setRs]
  intro clear
  have bits := congrArg (fun word : UInt8 => word.toBitVec.getLsbD 3) clear
  simp at bits

section

variable (safe : tx.Safe config)
include safe

theorem Safe.setRs {pos : Nat} (next : tx.pending = .setRs pos :: rest) :
    ({ tx with pending := rest }.perform (.setRs pos)).Safe config := by
  have planned := safe.planned
  rw [next] at planned
  refine { safe with
    planned := planned.2
    descriptors := ⟨?_, ?_, ?_⟩ }
  · intro n lo hi
    obtain ⟨pkt, listed, holds⟩ := safe.descriptors.content n lo hi
    refine ⟨pkt, listed, ?_⟩
    simp only [perform, update_apply]
    split
    · rename_i same
      rw [same] at holds
      exact { holds with }
    · exact holds
  · intro n lo hi ends
    simp only [perform, update_apply]
    split
    · exact .inl TxDesc.rs_setRs
    · rename_i ne
      have known := safe.descriptors.report n lo hi ends
      rw [next, List.mem_cons] at known
      exact known.imp_right fun mem => mem.resolve_left (by simpa using ne)
  · intro i lo hi
    simp only [perform, update_apply]
    split
    · rename_i same
      exact same ▸ safe.descriptors.fresh i lo hi
    · exact safe.descriptors.fresh i lo hi

theorem Safe.storeTail {v : Nat} (next : tx.pending = .tail v :: rest) :
    ({ tx with pending := rest }.perform (.tail v)).Safe config := by
  have planned := safe.planned
  rw [next] at planned
  obtain ⟨rfl, whole, written⟩ := planned
  refine { safe with
    planned := ⟨whole, rfl⟩
    processed := Nat.le_trans safe.processed safe.handed
    handed := Nat.le_refl _
    tdt := written
    descriptors := { safe.descriptors with report := ?_ } }
  intro n lo hi ends
  have known := safe.descriptors.report n lo hi ends
  rw [next] at known
  exact .inl (known.resolve_right (by simp))

theorem Safe.process (made : step tx .process = some after) : after.Safe config := by
  simp only [step] at made
  split_ifs at made with work
  cases made
  have turn := safe.turn
  have handed := safe.handed
  have stored := safe.stored_le
  have behind : tx.processed < tx.handed := by
    refine Nat.lt_of_le_of_ne safe.processed fun level => work ?_
    rw [safe.tdh, safe.tdt, level]
  have apart : ∀ n, tx.processed + 1 ≤ n → n < tx.stored →
      n % config.nbTxDesc ≠ tx.tdh := by
    intro n lo hi
    rw [safe.tdh]
    exact cell_ne_of_turn (Nat.le_of_succ_le lo) (by omega) (Nat.le_refl _) (by omega)
      (Nat.ne_of_gt lo)
  refine { safe with
    reclaimed := Nat.le_succ_of_le safe.reclaimed
    processed := behind
    tdh := ?_
    descriptors := ⟨?_, ?_, ?_⟩
    seen := ?_ }
  · simp only [safe.tdh, safe.aligned.nbTxDesc, Nat.mod_add_mod]
  · intro n lo hi
    simp only [update_of_ne (apart n lo hi)]
    exact safe.descriptors.content n (Nat.le_of_succ_le lo) hi
  · intro n lo hi
    simp only [update_of_ne (apart n lo hi)]
    exact safe.descriptors.report n (Nat.le_of_succ_le lo) hi
  · intro i lo hi
    have below := Nat.mod_le tx.processed config.nbTxDesc
    have ne : i ≠ tx.tdh := by
      rw [safe.tdh]
      simp only at lo
      omega
    simp only [update_of_ne ne]
    exact safe.descriptors.fresh i lo hi
  · obtain ⟨pkt, listed, holds⟩ := safe.descriptors.content tx.processed (Nat.le_refl _)
      (by omega)
    rw [← safe.tdh] at holds
    simp only [safe.seen, List.take_add_one, listed, holds.address, holds.length,
      Option.toList_some, List.map_append, List.map_cons, List.map_nil]

theorem Safe.step (proper : config.Proper) (burst : config.txRsThresh = ixgbeTxMaxBurst)
    {ev : Event} (ok : tx.Burst ev) (made : step tx ev = some after) : after.Safe config := by
  cases ev with
  | send pkts =>
    simp only [SimpleTx.step] at made
    split at made
    · rename_i idle
      cases made
      obtain ⟨reclaimed, still⟩ := safe.reclaim proper idle
      exact reclaimed.accept proper still (burst ▸ ok)
    · cases made
  | store =>
    simp only [SimpleTx.step] at made
    split at made
    · cases made
    · rename_i store rest next
      cases made
      cases store with
      | fill pos pkt => exact safe.fill next
      | setRs pos => exact safe.setRs next
      | tail value => exact safe.storeTail next
  | process => exact safe.process made

end

/-! ## Simple transmit -/

/-- What simple transmit keeps up.  A descriptor is not filled again before the hardware has
    processed it; the free descriptors are those of the ring but one that are not in use; a
    descriptor at the end of a block is reported on when it is handed over; and the hardware
    finds the accepted packets in order. -/
structure Orderly (config : TxConfig) (tx : SimpleTx) : Prop where
  refill : ∀ pos pkt rest, tx.pending = .fill pos pkt :: rest →
    ∀ number, tx.processed ≤ number → number < tx.stored → number % config.nbTxDesc ≠ pos
  filled : tx.pending = [] → tx.stored = tx.accepted.length
  free : tx.ring.nbTxFree = config.nbTxDesc - 1 - (tx.accepted.length - tx.reclaimed)
  tdt : tx.tdt = tx.handed % config.nbTxDesc
  report : ∀ number, tx.processed ≤ number → number < tx.handed →
    config.txRsThresh ∣ number % config.nbTxDesc + 1 → (tx.desc (number % config.nbTxDesc)).Rs
  seen : tx.seen = (tx.accepted.take tx.processed).map fun pkt => (pkt.physAddr, pkt.len)

theorem Safe.orderly (safe : tx.Safe config) (proper : config.Proper) : tx.Orderly config where
  refill _ _ _ next := safe.apart next
  filled := safe.stored_eq
  free := by
    have free := safe.free
    have stored := safe.stored_le
    have handed := safe.handed
    have processed := safe.processed
    have reclaimed := safe.reclaimed
    omega
  tdt := safe.tdt
  report n lo upper ends := by
    have turn := safe.turn
    have handed := safe.handed
    rw [dvd_succ_mod_iff proper.divides] at ends
    refine (safe.descriptors.report n lo (by omega) ends).resolve_right fun mem => ?_
    obtain ⟨o, later, bound, same⟩ := safe.planned.setRs_number mem
    have equal := position_eq_of_close (show n ≤ o by omega) (by omega) same
    omega
  seen := safe.seen

theorem simple_transmit_orderly (bits : config.nbTxDesc < 2 ^ 16)
    (multiple : config.txRsThresh ∣ config.nbTxDesc)
    (blocks : 2 * config.txRsThresh ≤ config.nbTxDesc)
    (thresh : config.txFreeThresh ≤ config.txRsThresh)
    (burst : config.txRsThresh = ixgbeTxMaxBurst)
    (reached : Reaches step Burst (start config) tx) : tx.Orderly config := by
  have positive : 0 < config.txRsThresh := burst ▸ by decide
  have fits : config.nbTxDesc + config.txRsThresh ≤ 2 ^ 16 := by
    obtain ⟨count, size⟩ := multiple
    rw [burst, ixgbeTxMaxBurst] at size ⊢
    omega
  have proper : config.Proper := ⟨positive, by omega, multiple, fits, thresh⟩
  have safe := reached.invariant (motive := Safe config) (start_safe proper)
    fun safe allowed stepped => safe.step proper burst allowed stepped
  exact safe.orderly proper

/-- Two bursts on a ring of two blocks: the second call reclaims the first block, and the tail
    comes round while the hardware is in the middle of the second. -/
theorem simple_transmit_orderly_two :
    ∃ tx, Reaches step Burst (start ⟨128, 64, 64⟩) tx ∧ tx.accepted.length = 128 ∧
      tx.processed = 74 ∧ tx.reclaimed = 64 ∧ tx.tdt = 0 ∧ tx.Orderly ⟨128, 64, 64⟩ := by
  let pkts (len : UInt16) : List ExoMbuf :=
    (List.range 64).map fun i => { ExoMbuf.zero with physAddr := 2048 * i, len := len }
  have executed : ∃ tx ∈ execute step Burst
      (.send (pkts 60) :: List.replicate 66 .store ++ List.replicate 64 .process ++
        .send (pkts 90) :: List.replicate 66 .store ++ List.replicate 10 .process)
      (start ⟨128, 64, 64⟩),
      tx.accepted.length = 128 ∧ tx.processed = 74 ∧ tx.reclaimed = 64 ∧ tx.tdt = 0 := by
    decide +kernel
  obtain ⟨tx, reached, accepted, processed, reclaimed, tdt⟩ := exists_reaches_of_execute executed
  exact ⟨tx, reached, accepted, processed, reclaimed, tdt,
    simple_transmit_orderly (by decide) (by decide) (by decide) (by decide) rfl reached⟩

end SimpleTx

end Xdk.X540
