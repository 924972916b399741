import Xdk.X540.MultiLayout

/-! # The ring in multi-segment transmit

The descriptors that have ever been used are numbered as in simple transmit.  The outstanding
packets are laid out in the ring from number `cleaned` on.  The first report among them is on the
packet with number `cleaned + tx_rs_thresh - 1`, and that is where `xmit_cleanup` looks.
-/

namespace Xdk.X540

open Xdk.Lib

/-- A configuration in which the indices of multi-segment transmit do not wrap around. -/
structure TxConfig.Roomy (config : TxConfig) : Prop where
  thresh : 4 ≤ config.txRsThresh
  room : 2 * config.txRsThresh ≤ config.nbTxDesc
  fits : config.nbTxDesc + config.txRsThresh ≤ 2 ^ 16

variable {config : TxConfig} {cleaned : Nat} {outstanding : List ExoMbuf} {pkt : ExoMbuf}

namespace TxRing

structure Holds (config : TxConfig) (cleaned : Nat) (outstanding : List ExoMbuf) (ring : TxRing) :
    Prop where
  nbTxDesc : ring.nbTxDesc = config.nbTxDesc
  txRsThresh : ring.txRsThresh = config.txRsThresh
  consistent : ∀ pkt ∈ outstanding, pkt.Consistent
  free : ring.nbTxFree + descriptors outstanding + 1 = config.nbTxDesc
  used : ring.nbTxUsed = unreported config.txRsThresh 0 outstanding
  last : ring.lastDescCleaned = (cleaned + (config.nbTxDesc - 1)) % config.nbTxDesc
  laid : Laid config.nbTxDesc ring.swRing cleaned outstanding
  unused : ∀ number, cleaned + descriptors outstanding ≤ number →
    number < cleaned + config.nbTxDesc →
    ring.swRing (number % config.nbTxDesc) = freeEntry config.nbTxDesc number

variable {ring : TxRing}

theorem configureTx_holds (roomy : config.Roomy) : (configureTx config).Holds config 0 [] := by
  have thresh := roomy.thresh
  have room := roomy.room
  have fits := roomy.fits
  have size : wrap 16 (config.nbTxDesc - 1) = config.nbTxDesc - 1 := wrap_of_lt (by omega)
  refine ⟨rfl, rfl, ?_, ?_, rfl, ?_, trivial, ?_⟩
  · intro pkt mem
    cases mem
  · simp only [configureTx, descriptors_nil]
    omega
  · rw [Nat.zero_add, Nat.mod_eq_of_lt (by omega)]
    exact size
  · intro number _ upper
    simp only [configureTx, freeEntry, Nat.mod_add_mod]

theorem ringIndex_eq (size : ring.nbTxDesc = config.nbTxDesc) {v : Nat} (fits : v < 2 ^ 16)
    (near : v < 2 * config.nbTxDesc) : ring.ringIndex v = v % config.nbTxDesc := by
  rw [ringIndex, size, wrap_of_lt fits]
  split
  · rename_i beyond
    rw [wrap_of_lt (by omega), Nat.mod_eq_sub_mod beyond, Nat.mod_eq_of_lt (by omega)]
  · exact (Nat.mod_eq_of_lt (by omega)).symm

/-! ## A packet -/

section

variable (holds : ring.Holds config cleaned outstanding)
include holds

theorem Holds.chained {count : Nat} (room : descriptors outstanding + count ≤ config.nbTxDesc) :
    Chained config.nbTxDesc ring.swRing (cleaned + descriptors outstanding) count := by
  intro offset bound
  rw [holds.unused _ (Nat.le_add_right _ _) (by omega)]
  rfl

def storePacket (swRing : Nat → TxEntry) (index : Nat) (pkt : ExoMbuf) : Nat → TxEntry :=
  Function.update swRing index { swRing index with txBuf := pkt }

theorem Holds.stored_chained {count i : Nat}
    (room : descriptors outstanding + count ≤ config.nbTxDesc) :
    Chained config.nbTxDesc (storePacket ring.swRing i pkt)
      (cleaned + descriptors outstanding) count := by
  intro off lt
  have next := holds.chained room off lt
  rw [storePacket, Function.update_apply]
  split
  · rename_i same
    rw [← next, same]
  · exact next

theorem Holds.stored_entry (large : 2 ≤ pkt.size)
    (room : descriptors outstanding + pkt.size ≤ config.nbTxDesc) {offset : Nat}
    (inside : offset < pkt.size) :
    (storePacket ring.swRing ((cleaned + descriptors outstanding + 1) % config.nbTxDesc) pkt
      ((cleaned + descriptors outstanding + offset) % config.nbTxDesc)).setLast
        ((cleaned + descriptors outstanding + pkt.size - 1) % config.nbTxDesc) =
      entryOf config.nbTxDesc (cleaned + descriptors outstanding) pkt offset := by
  have empty := holds.unused (cleaned + descriptors outstanding + offset) (Nat.le_add_right _ _)
    (by omega)
  rw [storePacket, Function.update_apply]
  split_ifs with same
  · have b : cleaned + descriptors outstanding + offset =
        cleaned + descriptors outstanding + 1 := by
      by_contra ne
      exact cell_ne_of_turn (Nat.le_add_right _ _) (by omega) (Nat.le_add_right _ _) (by omega)
        ne same
    obtain rfl : offset = 1 := Nat.add_left_cancel b
    rw [empty]
    rfl
  · have a : offset ≠ 1 := by
      rintro rfl
      exact same rfl
    rw [empty, entryOf, if_neg a]
    rfl

/-- The index of the last descriptor of a packet. -/
theorem Holds.last_index (roomy : config.Roomy) (inv : pkt.Consistent) (start : Nat) :
    ring.ringIndex (start % config.nbTxDesc + pkt.size - 1) =
      (start + pkt.size - 1) % config.nbTxDesc := by
  have sizes := inv.size_bounds
  have thresh := roomy.thresh
  have room := roomy.room
  have fits := roomy.fits
  have below : start % config.nbTxDesc < config.nbTxDesc := Nat.mod_lt _ (by omega)
  rw [ringIndex_eq holds.nbTxDesc (by omega) (by omega), Nat.add_sub_assoc (by omega),
    Nat.mod_add_mod, Nat.add_sub_assoc (by omega)]

end

def packetStores (config : TxConfig) (outstanding : List ExoMbuf) (start : Nat) (pkt : ExoMbuf)
    (writes : List DescWrite) : List (Nat × DescWrite) :=
  ((DescWrite.context :: writes).mapIdx fun offset write =>
      ((start + offset) % config.nbTxDesc, write)) ++
    (if config.txRsThresh ≤ unreported config.txRsThresh 0 outstanding + pkt.size then
      [((start + pkt.size - 1) % config.nbTxDesc, .setRs)] else [])

theorem packet_last (start ringSize i : Nat) (writes : List DescWrite) :
    ((((DescWrite.context :: writes).mapIdx fun off write =>
      ((start + off) % ringSize, write)).getLast?).map Prod.fst).getD i =
      (start + writes.length) % ringSize := by
  rw [List.getLast?_eq_getElem?, List.length_mapIdx, List.getElem?_mapIdx,
    List.getElem?_eq_getElem (Nat.lt_succ_self _)]
  rfl

section

variable (holds : ring.Holds config cleaned outstanding) (roomy : config.Roomy)
include holds roomy

theorem Holds.sendPacket_eq (inv : pkt.Consistent) (enough : pkt.size ≤ ring.nbTxFree)
    {writes : List DescWrite} (len : writes.length = pkt.nbSegment) {start : Nat}
    (place : start = cleaned + descriptors outstanding) :
    ring.sendPacket (start % config.nbTxDesc) pkt writes =
      ({ ring with
          swRing := (layout ((start + pkt.size - 1) % config.nbTxDesc) (.context :: writes)
            (storePacket ring.swRing ((start + 1) % config.nbTxDesc) pkt)
            (start % config.nbTxDesc)).1
          nbTxUsed := unreported config.txRsThresh 0 (outstanding ++ [pkt])
          nbTxFree := ring.nbTxFree - pkt.size },
        packetStores config outstanding start pkt writes,
        (start + pkt.size) % config.nbTxDesc) := by
  subst place
  have fits := roomy.fits
  have thresh := roomy.thresh
  have free := holds.free
  have size : pkt.size = writes.length + 1 := congrArg (· + 1) len.symm
  have below : unreported config.txRsThresh 0 outstanding < config.txRsThresh :=
    unreported_lt (by omega)
  have usedFits : wrap 16 (ring.nbTxUsed + pkt.size) =
      unreported config.txRsThresh 0 outstanding + pkt.size := by
    rw [holds.used]
    exact wrap_of_lt (by omega)
  have freeFits : wrapSub 16 ring.nbTxFree pkt.size = ring.nbTxFree - pkt.size :=
    wrapSub_of_le enough (by omega)
  have room : descriptors outstanding + (writes.length + 1) ≤ config.nbTxDesc := by omega
  have second := (holds.chained room).head
  have chained := fun i => @Holds.stored_chained _ _ _ pkt _ holds _ i room
  have stores := fun i txLast =>
    @layout_stores _ _ _ txLast (.context :: writes) (chained i)
  have ended : cleaned + descriptors outstanding + pkt.size - 1 =
      cleaned + descriptors outstanding + writes.length := by omega
  simp only [storePacket] at stores
  simp only [sendPacket, inv.counted, usedFits, freeFits, holds.last_index roomy inv,
    second, holds.txRsThresh, storePacket, packetStores, stores, packet_last, ended,
    unreported_append, unreported]
  rw [List.length_cons, ← size]

theorem Holds.sendPacket (inv : pkt.Consistent) (enough : pkt.size ≤ ring.nbTxFree)
    {writes : List DescWrite} (len : writes.length = pkt.nbSegment) {start : Nat}
    (place : start = cleaned + descriptors outstanding) :
    (ring.sendPacket (start % config.nbTxDesc) pkt writes).1.Holds config cleaned
        (outstanding ++ [pkt]) := by
  rw [holds.sendPacket_eq roomy inv enough len place]
  subst place
  have sizes := inv.size_bounds
  have free := holds.free
  have total : (DescWrite.context :: writes).length = pkt.size := congrArg (· + 1) len
  have room : descriptors outstanding + (DescWrite.context :: writes).length ≤ config.nbTxDesc := by
    omega
  have chained := @Holds.stored_chained _ _ _ pkt _ holds _
    ((cleaned + descriptors outstanding + 1) % config.nbTxDesc) room
  have outside : ∀ n, cleaned ≤ n → n < cleaned + config.nbTxDesc →
      (n < cleaned + descriptors outstanding ∨
        cleaned + descriptors outstanding + pkt.size ≤ n) →
      (layout ((cleaned + descriptors outstanding + pkt.size - 1) % config.nbTxDesc)
        (.context :: writes) (storePacket ring.swRing
          ((cleaned + descriptors outstanding + 1) % config.nbTxDesc) pkt)
        ((cleaned + descriptors outstanding) % config.nbTxDesc)).1 (n % config.nbTxDesc) =
        ring.swRing (n % config.nbTxDesc) := by
    intro n lo hi apart
    rw [layout_outside chained, storePacket, Function.update_of_ne]
    · exact cell_ne_of_turn lo hi (by omega) (by omega) (by omega)
    · intro off lt
      exact cell_ne_of_turn (by omega) (by omega) lo hi (by omega)
  refine ⟨holds.nbTxDesc, holds.txRsThresh, ?_, ?_, rfl, holds.last, ?_, ?_⟩
  · intro o member
    obtain member | member := List.mem_append.mp member
    · exact holds.consistent o member
    · rw [List.mem_singleton.mp member]
      exact inv
  · simp only [descriptors_append, descriptors_cons, descriptors_nil]
    omega
  · rw [laid_append]
    refine ⟨holds.laid.frame fun n lo hi =>
      outside n lo (by omega) (.inl hi), fun off inside => ?_, trivial⟩
    exact (layout_inside chained (by omega) (total ▸ inside)).trans
      (holds.stored_entry sizes.1 (by omega) inside)
  · intro n lo hi
    rw [descriptors_append, descriptors_cons] at lo
    exact (outside n (by omega) hi (.inr (by omega))).trans
      (holds.unused n (by omega) hi)

/-! ## Cleaning -/

structure Reported (config : TxConfig) (cleaned : Nat) (front back : List ExoMbuf) : Prop where
  enough : config.txRsThresh ≤ descriptors front
  fits : descriptors front < config.nbTxDesc
  unreported : unreported config.txRsThresh 0 (front ++ back) =
    unreported config.txRsThresh 0 back
  reports : reports config.txRsThresh 0 cleaned (front ++ back) =
    (cleaned + descriptors front - 1) ::
      reports config.txRsThresh 0 (cleaned + descriptors front) back

/-- The descriptor that is tested is not in use, or ends the packet of the first report. -/
theorem Holds.descToCleanTo :
    descriptors outstanding < config.txRsThresh ∧
        ring.descToCleanTo = (cleaned + config.txRsThresh - 1) % config.nbTxDesc ∨
      ∃ front back, outstanding = front ++ back ∧ Reported config cleaned front back ∧
        ring.descToCleanTo = (cleaned + descriptors front - 1) % config.nbTxDesc := by
  have thresh := roomy.thresh
  have room := roomy.room
  have fits := roomy.fits
  have below : ring.lastDescCleaned < config.nbTxDesc := holds.last ▸ Nat.mod_lt _ (by omega)
  have tested : ring.ringIndex (ring.lastDescCleaned + ring.txRsThresh) =
      (cleaned + config.txRsThresh - 1) % config.nbTxDesc := by
    rw [holds.txRsThresh, ringIndex_eq holds.nbTxDesc (by omega) (by omega), holds.last,
      Nat.mod_add_mod, show cleaned + (config.nbTxDesc - 1) + config.txRsThresh =
        cleaned + config.txRsThresh - 1 + config.nbTxDesc by omega, Nat.add_mod_right]
  rw [TxRing.descToCleanTo, tested]
  obtain few | enough := Nat.lt_or_ge (descriptors outstanding) config.txRsThresh
  · left
    rw [holds.unused _ (by omega) (by omega)]
    exact ⟨few, rfl⟩
  · right
    obtain ⟨front, pkt, back, rfl, before, reached, count, list⟩ :=
      @first_report _ 0 cleaned outstanding (show 0 < config.txRsThresh by omega) (by omega)
    have size : descriptors (front ++ [pkt]) = descriptors front + pkt.size := by
      rw [descriptors_append, descriptors_cons, descriptors_nil, Nat.add_zero]
    have sizes := (holds.consistent pkt
      (List.mem_append_right _ List.mem_cons_self)).size_bounds
    have laid := holds.laid
    rw [laid_append] at laid
    have entry := laid.2.1 (config.txRsThresh - 1 - descriptors front) (by omega)
    rw [show cleaned + descriptors front + (config.txRsThresh - 1 - descriptors front) =
      cleaned + config.txRsThresh - 1 by omega] at entry
    refine ⟨front ++ [pkt], back, List.append_cons _ _ _, ⟨by omega, by omega, ?_, ?_⟩, ?_⟩
    · rw [← List.append_cons]
      exact count
    · rw [← List.append_cons, list, size, ← Nat.add_assoc]
    · rw [entry, size, ← Nat.add_assoc]
      rfl

end

variable {count : Nat}

section

variable (holds : ring.Holds config cleaned outstanding)
include holds

/-- The last descriptor to be cleaned, counted from the last one that was. -/
theorem Holds.target_eq (positive : 0 < count) (nonempty : 0 < config.nbTxDesc)
    (target : ring.descToCleanTo = (cleaned + count - 1) % config.nbTxDesc) :
    ring.descToCleanTo = (ring.lastDescCleaned + count) % config.nbTxDesc := by
  rw [target, holds.last, Nat.mod_add_mod, show cleaned + (config.nbTxDesc - 1) + count =
    cleaned + count - 1 + config.nbTxDesc by omega, Nat.add_mod_right]

theorem Holds.cleanIndices_eq (pos : 0 < count) (fits : count < config.nbTxDesc)
    (target : ring.descToCleanTo = (cleaned + count - 1) % config.nbTxDesc) :
    ring.cleanIndices = (List.range count).map fun off =>
      (cleaned + off) % config.nbTxDesc := by
  have lt : ring.lastDescCleaned < config.nbTxDesc := holds.last ▸ Nat.mod_lt _ (by omega)
  rw [cleanIndices, holds.target_eq pos (by omega) target, holds.nbTxDesc, walk_eq lt fits]
  refine List.map_congr_left fun off _ => ?_
  rw [holds.last, Nat.add_assoc, Nat.mod_add_mod, show cleaned + (config.nbTxDesc - 1) +
    (1 + off) = cleaned + off + config.nbTxDesc by omega, Nat.add_mod_right]

theorem Holds.nbTxToClean_eq (roomy : config.Roomy) (pos : 0 < count)
    (fits : count < config.nbTxDesc)
    (target : ring.descToCleanTo = (cleaned + count - 1) % config.nbTxDesc) :
    ring.nbTxToClean = count := by
  have lt : ring.lastDescCleaned < config.nbTxDesc := holds.last ▸ Nat.mod_lt _ (by omega)
  have small := roomy.fits
  have len := walk_length lt fits
  rw [nbTxToClean, holds.target_eq pos (by omega) target, holds.nbTxDesc, ← apply_ite, len]
  exact wrap_of_lt (by omega)

end

variable {front back : List ExoMbuf}

section

variable (holds : ring.Holds config cleaned (front ++ back))
  (target : ring.descToCleanTo = (cleaned + descriptors front - 1) % config.nbTxDesc)
include holds target

theorem Holds.cleanBuffers_eq (pos : 0 < descriptors front)
    (fits : descriptors front < config.nbTxDesc) :
    (ring.cleanIndices.flatMap fun i => (ring.swRing i).txBuf.buffers) =
      front.flatMap ExoMbuf.buffers := by
  have laid := holds.laid
  rw [laid_append] at laid
  rw [holds.cleanIndices_eq pos fits target, List.flatMap_map]
  exact laid.1.buffers fun pkt mem =>
    (holds.consistent pkt (List.mem_append_left _ mem)).size_bounds.1

/-- The ring after the packets up to the report have been cleaned. -/
theorem Holds.xmitCleanup (roomy : config.Roomy) (reported : Reported config cleaned front back) :
    ring.xmitCleanup.Holds config (cleaned + descriptors front) back := by
  have free := holds.free
  have small := roomy.fits
  have thresh := roomy.thresh
  have pos : 0 < descriptors front := Nat.lt_of_lt_of_le (by omega) reported.enough
  have fits := reported.fits
  have laid := holds.laid
  rw [laid_append] at laid
  rw [descriptors_append] at free
  have indices := holds.cleanIndices_eq pos fits target
  have kept : ∀ n, cleaned + descriptors front ≤ n →
      n < cleaned + config.nbTxDesc →
      ring.xmitCleanup.swRing (n % config.nbTxDesc) =
        ring.swRing (n % config.nbTxDesc) := by
    intro n lo hi
    refine if_neg fun mem => ?_
    rw [indices] at mem
    obtain ⟨offset, lt, clash⟩ := List.mem_map.mp mem
    rw [List.mem_range] at lt
    exact cell_ne_of_turn (Nat.le_add_right _ _) (by omega) (by omega) hi (by omega) clash
  refine ⟨holds.nbTxDesc, holds.txRsThresh, ?_, ?_, holds.used.trans reported.unreported, ?_, ?_,
    ?_⟩
  · intro pkt mem
    exact holds.consistent pkt (List.mem_append_right _ mem)
  · have counted : wrap 16 (ring.nbTxFree + ring.nbTxToClean) =
        ring.nbTxFree + descriptors front := by
      rw [holds.nbTxToClean_eq roomy pos fits target]
      exact wrap_of_lt (by omega)
    change wrap 16 (ring.nbTxFree + ring.nbTxToClean) + descriptors back + 1 = _
    omega
  · refine target.trans ?_
    rw [show cleaned + descriptors front + (config.nbTxDesc - 1) =
      cleaned + descriptors front - 1 + config.nbTxDesc by omega, Nat.add_mod_right]
  · exact laid.2.frame fun n lo hi => kept n lo (by omega)
  · intro n lo hi
    obtain inside | wrapped := Nat.lt_or_ge n (cleaned + config.nbTxDesc)
    · rw [kept n (by omega) inside]
      refine holds.unused n ?_ inside
      rw [descriptors_append]
      omega
    · have mem : n % config.nbTxDesc ∈ ring.cleanIndices := by
        rw [indices]
        refine List.mem_map.mpr ⟨n - config.nbTxDesc - cleaned,
          List.mem_range.mpr (by omega), ?_⟩
        rw [show cleaned + (n - config.nbTxDesc - cleaned) = n - config.nbTxDesc by omega,
          ← Nat.mod_eq_sub_mod (by omega)]
      refine (if_pos mem).trans ?_
      rw [freeEntry, holds.nbTxDesc, Nat.mod_add_mod]

end

end TxRing

end Xdk.X540
