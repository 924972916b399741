import Xdk.X540.SendSafety

/-! # Buffers released by simple transmit

`tx_free_bufs` reclaims a block of `tx_rs_thresh` descriptors and is meant to free the buffers of
its packets.  Its loop starts at the first entry of the block but ends at `tx_rs_thresh`, which is
the end of the first block only.
-/

namespace Xdk.X540

open Xdk.Lib

namespace TxRing

/-- The entries of the block that is reclaimed: `tx_next_dd - tx_rs_thresh + 1 .. tx_next_dd`. -/
def blockIndices (ring : TxRing) : List Nat :=
  List.range' (ring.txNextDd - (ring.txRsThresh - 1)) ring.txRsThresh

def blockBufs (ring : TxRing) : List Nat :=
  (ring.blockIndices.filter fun index => (ring.swRing index).txBuf.Frees).map fun index =>
    (ring.swRing index).txBuf.virtAddr

/-- The block is the first one, or nothing in it is to be freed. -/
def FreesBlock (ring : TxRing) : Prop :=
  ring.txNextDd = ring.txRsThresh - 1 ∨
    ∀ index ∈ ring.blockIndices, ¬ (ring.swRing index).txBuf.Frees

instance (ring : TxRing) : Decidable ring.FreesBlock := inferInstanceAs (Decidable (_ ∨ _))

/-- The loop frees the buffers of the block just in these cases. -/
theorem txFreeBufs_eq_iff {ring : TxRing} (positive : 0 < ring.txRsThresh)
    (small : ring.txNextDd < 2 ^ 32) (ends : ring.txRsThresh ∣ ring.txNextDd + 1) :
    ring.txFreeBufs.2 = ring.blockBufs ↔ ring.FreesBlock := by
  obtain ⟨blocks, size⟩ := ends
  have some : 0 < blocks := by
    by_contra none
    rw [Nat.eq_zero_of_not_pos none] at size
    omega
  have least : ring.txRsThresh ≤ ring.txNextDd + 1 := size ▸ Nat.le_mul_of_pos_right _ some
  have first : wrapSub 32 ring.txNextDd (ring.txRsThresh - 1) =
      ring.txNextDd - (ring.txRsThresh - 1) := wrapSub_of_le (by omega) small
  obtain one | more := Nat.lt_or_ge blocks 2
  · have origin : ring.txNextDd = ring.txRsThresh - 1 := by
      rw [show blocks = 1 by omega] at size
      omega
    have indices : ring.freeIndices = ring.blockIndices := by
      rw [freeIndices, blockIndices, first, origin, Nat.sub_self, Nat.sub_zero]
    refine iff_of_true ?_ (.inl origin)
    rw [txFreeBufs, blockBufs, indices]
  · -- a later block, where the loop ends before it begins
    have beyond := Nat.mul_le_mul_left ring.txRsThresh more
    have ne : ring.txNextDd ≠ ring.txRsThresh - 1 := by omega
    have none : ring.txRsThresh - (ring.txNextDd - (ring.txRsThresh - 1)) = 0 := by omega
    have nothing : ring.txFreeBufs.2 = [] := by
      simp [txFreeBufs, freeIndices, first, none]
    rw [nothing, FreesBlock, eq_comm, blockBufs, List.map_eq_nil_iff, List.filter_eq_nil_iff]
    simp only [ne, false_or, decide_eq_true_eq]

/-! ## The entries -/

variable {config : TxConfig} {ring : TxRing} {pkts : List ExoMbuf}

theorem txFillHwRing_new {off : Nat} (lt : off < pkts.length) :
    ((ring.txFillHwRing pkts).1.swRing (ring.txTail + off)).txBuf =
      pkts.getD off .zero := by
  simp [txFillHwRing, lt]

theorem txFillHwRing_old {index : Nat}
    (outside : ¬ (ring.txTail ≤ index ∧ index < ring.txTail + pkts.length)) :
    (ring.txFillHwRing pkts).1.swRing index = ring.swRing index := by
  simp only [txFillHwRing, if_neg outside]

theorem fillAround_new (aligned : ring.Aligned config) (proper : config.Proper)
    (fits : pkts.length ≤ config.nbTxDesc) {off : Nat} (lt : off < pkts.length) :
    ((ring.fillAround pkts).1.swRing ((ring.txTail + off) % config.nbTxDesc)).txBuf =
      pkts.getD off .zero := by
  have tail := aligned.bound
  rw [fillAround, aligned.nbTxDesc, wrap_top proper ring]
  split
  · rename_i wraps
    have dropped : (pkts.drop (config.nbTxDesc - ring.txTail)).length =
        pkts.length - (config.nbTxDesc - ring.txTail) := List.length_drop
    obtain top | bottom := Nat.lt_or_ge off (config.nbTxDesc - ring.txTail)
    · rw [Nat.mod_eq_of_lt (by omega)]
      refine (congrArg TxEntry.txBuf (txFillHwRing_old fun inside => ?_)).trans ?_
      · have hi := inside.2
        change ring.txTail + off < 0 + _ at hi
        omega
      · refine (txFillHwRing_new (by rw [List.length_take]; omega)).trans ?_
        rw [List.getD_eq_getElem?_getD, List.getElem?_take_of_lt top, List.getD_eq_getElem?_getD]
    · rw [show ring.txTail + off = off - (config.nbTxDesc - ring.txTail) +
          config.nbTxDesc by omega, Nat.add_mod_right, Nat.mod_eq_of_lt (by omega)]
      have found := @txFillHwRing_new
        (ring.fillTop (pkts.take (config.nbTxDesc - ring.txTail))).1
        (pkts.drop (config.nbTxDesc - ring.txTail)) (off - (config.nbTxDesc - ring.txTail))
        (by omega)
      change ((txFillHwRing _ _).1.swRing (0 + _)).txBuf = _ at found
      rw [Nat.zero_add] at found
      refine found.trans ?_
      rw [List.getD_eq_getElem?_getD, List.getElem?_drop, Nat.add_sub_cancel' bottom,
        List.getD_eq_getElem?_getD]
  · rw [Nat.mod_eq_of_lt (by omega)]
    exact txFillHwRing_new lt

theorem fillAround_old (aligned : ring.Aligned config) (proper : config.Proper) {index : Nat}
    (inside : index < config.nbTxDesc)
    (outside : ∀ off < pkts.length, (ring.txTail + off) % config.nbTxDesc ≠ index) :
    (ring.fillAround pkts).1.swRing index = ring.swRing index := by
  have tail := aligned.bound
  have above : ¬ (ring.txTail ≤ index ∧ index < ring.txTail + pkts.length) := by
    rintro ⟨lo, hi⟩
    refine outside (index - ring.txTail) (by omega) ?_
    rw [Nat.add_sub_cancel' lo, Nat.mod_eq_of_lt inside]
  rw [fillAround, aligned.nbTxDesc, wrap_top proper ring]
  split
  · rename_i wraps
    refine (txFillHwRing_old fun bottom => ?_).trans (txFillHwRing_old fun top => above ?_)
    · have hi := bottom.2
      change index < 0 + (pkts.drop (config.nbTxDesc - ring.txTail)).length at hi
      rw [List.length_drop] at hi
      refine outside (index + (config.nbTxDesc - ring.txTail)) (by omega) ?_
      rw [show ring.txTail + (index + (config.nbTxDesc - ring.txTail)) =
        index + config.nbTxDesc by omega, Nat.add_mod_right, Nat.mod_eq_of_lt inside]
    · rw [List.length_take] at top
      omega
  · exact txFillHwRing_old above

end TxRing

namespace SimpleTx

/-- The condition on the calls: the block that a call reclaims is one whose buffers the loop
    frees. -/
def FreesAll (tx : SimpleTx) : Event → Prop
  | .send pkts =>
    pkts.length ≤ ixgbeTxMaxBurst ∧ (tx.ring.Reclaims tx.desc → tx.ring.FreesBlock)
  | _ => True

instance (tx : SimpleTx) : (event : Event) → Decidable (tx.FreesAll event)
  | .send _ =>
    @instDecidableAnd _ _ inferInstance (@instDecidableForall _ _ inferInstance inferInstance)
  | .store => inferInstanceAs (Decidable True)
  | .process => inferInstanceAs (Decidable True)

def bufs (pkts : List ExoMbuf) : List Nat :=
  (pkts.filter fun pkt => pkt.Frees).map ExoMbuf.virtAddr

/-- The entries in use are the packets accepted last, and the buffers of the others have been
    freed. -/
structure Released (config : TxConfig) (tx : SimpleTx) : Prop where
  entries : ∀ number, tx.reclaimed ≤ number → number < tx.accepted.length →
    tx.accepted[number]? = some (tx.ring.swRing (number % config.nbTxDesc)).txBuf
  freed : tx.freed = bufs (tx.accepted.take tx.reclaimed)

variable {config : TxConfig} {tx after : SimpleTx} {pkts : List ExoMbuf}

section

variable (safe : tx.Safe config) (proper : config.Proper)
include safe proper

/-- The buffers of the block are those of the packets that were accepted first of those in use. -/
theorem Released.blockBufs (released : tx.Released config)
    (filled : tx.reclaimed + config.txRsThresh ≤ tx.accepted.length) :
    tx.ring.blockBufs = bufs ((tx.accepted.drop tx.reclaimed).take config.txRsThresh) := by
  have first : tx.ring.txNextDd - (config.txRsThresh - 1) = tx.reclaimed % config.nbTxDesc := by
    rw [safe.nextDd, Nat.add_sub_cancel]
  have packets : tx.ring.blockIndices.map (fun i => (tx.ring.swRing i).txBuf) =
      (tx.accepted.drop tx.reclaimed).take config.txRsThresh := by
    refine List.ext_getElem? fun off => ?_
    rw [TxRing.blockIndices, safe.aligned.txRsThresh, first, List.getElem?_map]
    obtain inside | outside := Nat.lt_or_ge off config.txRsThresh
    · rw [List.getElem?_range' inside, List.getElem?_take_of_lt inside, List.getElem?_drop,
        released.entries _ (Nat.le_add_right _ _) (by omega),
        block_mod proper.divides safe.blocks proper.nonempty inside, Nat.one_mul, Option.map_some]
    · rw [List.getElem?_eq_none (by simpa using outside),
        List.getElem?_eq_none (by rw [List.length_take]; omega), Option.map_none]
  rw [bufs, ← packets, List.filter_map, List.map_map]
  rfl

/-- The descriptor that is tested is the last of its block. -/
theorem Safe.nextDd_block :
    tx.ring.txNextDd < 2 ^ 32 ∧ config.txRsThresh ∣ tx.ring.txNextDd + 1 := by
  have fits := proper.fits
  have pos := proper.positive
  have inside := block_le_of_dvd proper.divides safe.blocks proper.nonempty
  rw [safe.nextDd]
  refine ⟨by omega, ?_⟩
  rw [Nat.add_assoc, Nat.sub_add_cancel pos]
  exact Nat.dvd_add ((Nat.dvd_mod_iff proper.divides).mpr safe.blocks) (Nat.dvd_refl _)

theorem Released.reclaim (released : tx.Released config) (idle : tx.pending = [])
    (frees : tx.ring.Reclaims tx.desc → tx.ring.FreesBlock) : tx.reclaim.Released config := by
  rw [SimpleTx.reclaim]
  split
  · rename_i reclaims
    have done := safe.reclaims proper idle reclaims
    have processed := safe.processed
    have handed := safe.handed
    have stored := safe.stored_le
    have turn := safe.free
    have pos := proper.positive
    obtain ⟨small, ends⟩ := safe.nextDd_block proper
    have exact := (TxRing.txFreeBufs_eq_iff (safe.aligned.txRsThresh ▸ pos) small
      (safe.aligned.txRsThresh ▸ ends)).mpr (frees reclaims)
    refine ⟨?_, ?_⟩
    · intro n lo hi
      rw [safe.aligned.txRsThresh] at lo
      change tx.reclaimed + config.txRsThresh ≤ n at lo
      change n < tx.accepted.length at hi
      rw [released.entries n (by omega) hi]
      have kept : n % config.nbTxDesc ∉ tx.ring.freeIndices := by
        intro mem
        have first : wrapSub 32 tx.ring.txNextDd (config.txRsThresh - 1) =
            tx.reclaimed % config.nbTxDesc := by
          rw [wrapSub_of_le (by rw [safe.nextDd]; omega) small, safe.nextDd, Nat.add_sub_cancel]
        rw [TxRing.freeIndices, safe.aligned.txRsThresh, first, List.mem_range'_1] at mem
        have place := @block_mod _ _ _ (n % config.nbTxDesc - tx.reclaimed % config.nbTxDesc)
          proper.divides safe.blocks proper.nonempty (by omega)
        rw [Nat.add_sub_cancel' mem.1] at place
        exact cell_ne_of_turn (Nat.le_add_right _ _) (by omega)
          (show tx.reclaimed ≤ n by omega) (by omega) (by omega) place
      simp only [TxRing.txFreeBufs, if_neg kept]
    · simp only [exact, safe.aligned.txRsThresh, List.take_add, released.freed,
        released.blockBufs safe proper (by omega), bufs, List.filter_append, List.map_append]
  · exact released

theorem Released.accept (released : tx.Released config) : (tx.accept pkts).Released config := by
  have free := safe.free
  have within := safe.reclaimed_le
  obtain same | ⟨now, taken, charged, accepts⟩ := safe.accept_cases proper pkts
  · rw [same]
    exact released
  · rw [accepts]
    have place : ∀ off, (tx.ring.txTail + off) % config.nbTxDesc =
        (tx.accepted.length + off) % config.nbTxDesc := by
      intro off
      rw [safe.tail, Nat.mod_add_mod]
    refine ⟨?_, ?_⟩
    · intro n lo hi
      simp only [List.length_append] at hi
      obtain earlier | new := Nat.lt_or_ge n tx.accepted.length
      · have apart : ∀ off < now.length, (tx.ring.txTail + off) % config.nbTxDesc ≠
            n % config.nbTxDesc := by
          intro off bound
          rw [place]
          exact cell_ne_of_turn (Nat.le_add_right_of_le within) (by omega) lo (by omega)
            (by omega)
        have kept := TxRing.fillAround_old charged proper (Nat.mod_lt n proper.nonempty) apart
        rw [List.getElem?_append_left earlier, released.entries n lo earlier]
        exact congrArg (fun e : TxEntry => some e.txBuf) kept.symm
      · have written := TxRing.fillAround_new charged proper (by omega)
          (show n - tx.accepted.length < now.length by omega)
        rw [place, Nat.add_sub_cancel' new] at written
        rw [List.getElem?_append_right new]
        refine Eq.trans ?_ (congrArg some written.symm)
        rw [List.getD_eq_getElem _ _ (by omega), List.getElem?_eq_getElem (by omega)]
    · simp only [List.take_append_of_le_length within]
      exact released.freed

theorem Released.step (released : tx.Released config) {ev : Event} (ok : tx.FreesAll ev)
    (made : step tx ev = some after) : after.Released config := by
  cases ev with
  | send pkts =>
    simp only [SimpleTx.step] at made
    split at made
    · rename_i idle
      cases made
      exact (released.reclaim safe proper idle ok.2).accept
        (safe.reclaim proper idle).1 proper
    · cases made
  | store =>
    simp only [SimpleTx.step] at made
    split at made
    · cases made
    · rename_i store rest next
      cases made
      cases store <;> exact { released with }
  | process =>
    simp only [SimpleTx.step] at made
    split_ifs at made
    cases made
    exact { released with }

end

/-- In a run in which each block that is reclaimed is the first of the ring or has nothing to
    free, the buffers of the packets that have left the ring have been freed, in their order, and
    a packet leaves the ring before its entry is used again.  The next block to be reclaimed will
    be released just if it meets the condition too. -/
theorem buffers_released (bits : config.nbTxDesc < 2 ^ 16) (nonempty : 0 < config.nbTxDesc)
    (multiple : config.txRsThresh ∣ config.nbTxDesc)
    (thresh : config.txFreeThresh ≤ config.txRsThresh)
    (burst : config.txRsThresh = ixgbeTxMaxBurst)
    (reached : Reaches step FreesAll (start config) tx) :
    tx.freed = bufs (tx.accepted.take tx.reclaimed) ∧
      (∀ number, number + config.nbTxDesc < tx.accepted.length → number < tx.reclaimed) ∧
      (tx.ring.txFreeBufs.2 = tx.ring.blockBufs ↔ tx.ring.FreesBlock) := by
  have positive : 0 < config.txRsThresh := burst ▸ by decide
  have fits : config.nbTxDesc + config.txRsThresh ≤ 2 ^ 16 := by
    obtain ⟨count, size⟩ := multiple
    rw [burst, ixgbeTxMaxBurst] at size ⊢
    omega
  have proper : config.Proper := ⟨positive, nonempty, multiple, fits, thresh⟩
  have both : tx.Safe config ∧ tx.Released config := by
    refine reached.invariant (motive := fun tx => tx.Safe config ∧ tx.Released config)
      ⟨start_safe proper, ⟨fun number _ above => absurd above (Nat.not_lt_zero _), rfl⟩⟩ ?_
    intro before after event known allowed stepped
    have limited : before.Burst event := by
      cases event with
      | send pkts => exact allowed.1
      | _ => trivial
    exact ⟨known.1.step proper burst limited stepped, known.2.step known.1 proper allowed stepped⟩
  obtain ⟨safe, released⟩ := both
  refine ⟨released.freed, fun number reused => ?_, ?_⟩
  · have := safe.free
    omega
  · obtain ⟨small, ends⟩ := safe.nextDd_block proper
    exact TxRing.txFreeBufs_eq_iff (safe.aligned.txRsThresh ▸ positive) small
      (safe.aligned.txRsThresh ▸ ends)

def burstEvents : List Event :=
  .send (List.replicate 64 { ExoMbuf.zero with virtAddr := 4096, flag := 1 }) ::
    (List.replicate 66 .store ++ List.replicate 64 .process)

/-- On a ring of two blocks, the first burst is freed when the next packet is sent. -/
theorem buffers_released_first :
    ∃ tx, Reaches step FreesAll (start ⟨128, 64, 64⟩) tx ∧ tx.reclaimed = 64 ∧
      tx.freed.length = 64 ∧ tx.freed = bufs (tx.accepted.take tx.reclaimed) := by
  have executed : ∃ tx ∈ execute step FreesAll (burstEvents ++ [.send [.zero]])
      (start ⟨128, 64, 64⟩), tx.reclaimed = 64 ∧ tx.freed.length = 64 := by
    decide +kernel
  obtain ⟨tx, reached, reclaimed, freed⟩ := exists_reaches_of_execute executed
  exact ⟨tx, reached, reclaimed, freed,
    (buffers_released (by decide) (by decide) (by decide) (by decide) rfl reached).1⟩

/-- After the second burst the next call reclaims the second block and frees nothing of it. -/
theorem buffers_not_released :
    ∃ tx, Reaches step Burst (start ⟨128, 64, 64⟩) tx ∧ tx.pending.length = 0 ∧
      tx.ring.Reclaims tx.desc ∧ tx.ring.txFreeBufs.2 = [] ∧
      tx.ring.blockBufs = List.replicate 64 4096 := by
  have executed : ∃ tx ∈ execute step Burst (burstEvents ++ burstEvents) (start ⟨128, 64, 64⟩),
      tx.pending.length = 0 ∧ tx.ring.Reclaims tx.desc ∧ tx.ring.txFreeBufs.2 = [] ∧
        tx.ring.blockBufs = List.replicate 64 4096 := by
    decide +kernel
  exact exists_reaches_of_execute executed

end SimpleTx

end Xdk.X540
