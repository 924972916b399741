import Xdk.X540.MultiRing

/-! # Safety of multi-segment transmit

The packets sent are those that are gone, whose descriptors have been cleaned and whose buffers
have been freed, and the outstanding ones, which the ring holds.  What the hardware will find in
the descriptors is what is there once the pending stores have happened.
-/

namespace Xdk.X540

open Xdk.Lib Function

variable {config : TxConfig} {cleaned processed : Nat} {outstanding front back : List ExoMbuf}
  {pkt : ExoMbuf} {desc : Nat → AdvDesc}

/-! ## Reports in the descriptors -/

/-- The descriptors with the report bit are those of the reports, and only they are done. -/
structure Marks (config : TxConfig) (cleaned processed : Nat) (outstanding : List ExoMbuf)
    (desc : Nat → AdvDesc) : Prop where
  report : ∀ number, cleaned ≤ number → number < cleaned + descriptors outstanding →
    ((desc (number % config.nbTxDesc)).Rs ↔
      number ∈ reports config.txRsThresh 0 cleaned outstanding)
  done : ∀ index, (desc index).Dd →
    ∃ number ∈ reports config.txRsThresh 0 cleaned outstanding, number < processed ∧
      index = number % config.nbTxDesc

/-- A descriptor of the turn that begins with those in use is done only if it is in use and has
    been processed. -/
theorem Marks.done_at {n : Nat} (marks : Marks config cleaned processed outstanding desc)
    (sizes : ∀ pkt ∈ outstanding, 0 < pkt.size)
    (turn : descriptors outstanding ≤ config.nbTxDesc) (lo : cleaned ≤ n)
    (hi : n < cleaned + config.nbTxDesc)
    (done : (desc (n % config.nbTxDesc)).Dd) :
    n < cleaned + descriptors outstanding ∧ n < processed := by
  obtain ⟨reported, mem, earlier, place⟩ := marks.done _ done
  have inside := mem_reports sizes mem
  have same : n = reported := by
    by_contra ne
    exact cell_ne_of_turn lo hi inside.1 (by omega) ne place
  exact same ▸ ⟨inside.2, earlier⟩

theorem reports_snoc (thresh start : Nat) (pkts : List ExoMbuf) (pkt : ExoMbuf) :
    reports thresh 0 start (pkts ++ [pkt]) = reports thresh 0 start pkts ++
      (if thresh ≤ unreported thresh 0 pkts + pkt.size then
        [start + descriptors pkts + pkt.size - 1] else []) := by
  rw [reports_append]
  simp only [reports]

/-- The hardware processes the next descriptor. -/
theorem Marks.process (marks : Marks config cleaned processed outstanding desc)
    (lo : cleaned ≤ processed) (hi : processed < cleaned + descriptors outstanding) :
    Marks config cleaned (processed + 1) outstanding
      (update desc (processed % config.nbTxDesc)
        (desc (processed % config.nbTxDesc)).process) := by
  constructor
  · intro n above lt
    rw [← marks.report n above lt, update_apply]
    split
    · rename_i same
      rw [AdvDesc.process_rs, same]
    · rfl
  · intro index done
    rw [update_apply] at done
    split at done
    · rename_i same
      obtain before | report := AdvDesc.process_dd _ done
      · obtain ⟨n, mem, earlier, place⟩ := marks.done _ before
        exact ⟨n, mem, by omega, same.trans place⟩
      · exact ⟨processed, (marks.report processed lo hi).mp report, by omega, same⟩
    · obtain ⟨n, mem, earlier, place⟩ := marks.done _ done
      exact ⟨n, mem, by omega, place⟩

/-- The status of the first report is reset, and what is before it is forgotten. -/
theorem Marks.cleanup (marks : Marks config cleaned processed (front ++ back) desc)
    (reported : TxRing.Reported config cleaned front back) (positive : 0 < descriptors front)
    {target : Nat} (place : target = (cleaned + descriptors front - 1) % config.nbTxDesc) :
    Marks config (cleaned + descriptors front) processed back
      (update desc target (DescWrite.resetStatus.apply (desc target))) := by
  subst place
  have old := marks.report
  rw [reported.reports, descriptors_append] at old
  constructor
  · intro n above below
    have later : n ≠ cleaned + descriptors front - 1 := by omega
    have kept := old n (by omega) (by omega)
    rw [List.mem_cons, or_iff_right later] at kept
    rw [← kept, update_apply]
    split
    · rename_i same
      rw [same]
      rfl
    · rfl
  · intro index done
    rw [update_apply] at done
    split at done
    · exact absurd done (apply_resetStatus_dd _)
    · rename_i ne
      obtain ⟨n, member, earlier, same⟩ := marks.done _ done
      rw [reported.reports, List.mem_cons] at member
      obtain rfl | member := member
      · exact absurd same ne
      · exact ⟨n, member, earlier, same⟩

/-! ## The stores of a packet -/

section Packet

variable {start : Nat} {writes : List DescWrite}

theorem mem_packet_stores {ringSize : Nat} {store : Nat × DescWrite} :
    store ∈ (writes.mapIdx fun off write => ((start + off) % ringSize, write)) ↔
      ∃ off write, writes[off]? = some write ∧
        ((start + off) % ringSize, write) = store := by
  rw [List.mem_iff_getElem?]
  simp only [List.getElem?_mapIdx, Option.map_eq_some_iff]

/-- The descriptors with those of a packet, before a report is asked for. -/
theorem Marks.fill (marks : Marks config cleaned processed outstanding desc)
    (plain : ∀ write ∈ writes, write.Plain)
    (sizes : ∀ pkt ∈ outstanding, 0 < pkt.size)
    (room : descriptors outstanding + writes.length ≤ config.nbTxDesc)
    (place : start = cleaned + descriptors outstanding) {filled : Nat → AdvDesc}
    (stored : filled = applyAll (writes.mapIdx fun off write =>
      ((start + off) % config.nbTxDesc, write)) desc) :
    (∀ n, cleaned ≤ n → n < start + writes.length →
      ((filled (n % config.nbTxDesc)).Rs ↔
        n ∈ reports config.txRsThresh 0 cleaned outstanding)) ∧
      ∀ i, (filled i).Dd → (desc i).Dd := by
  have all : ∀ store ∈ writes.mapIdx fun off write =>
      ((start + off) % config.nbTxDesc, write), store.2.Plain := by
    intro store mem
    obtain ⟨off, write, found, rfl⟩ := mem_packet_stores.mp mem
    exact plain _ (List.mem_of_getElem? found)
  subst place stored
  refine ⟨fun n lo upper => ?_, fun i => applyAll_plain_dd all⟩
  obtain before | inside := Nat.lt_or_ge n (cleaned + descriptors outstanding)
  · rw [applyAll_outside]
    · exact marks.report n lo before
    · intro store mem
      obtain ⟨off, write, found, rfl⟩ := mem_packet_stores.mp mem
      have lt := (List.getElem?_eq_some_iff.mp found).1
      exact cell_ne_of_turn (by omega) (by omega) lo (by omega) (by omega)
  · refine iff_of_false (applyAll_plain_rs all ?_) fun mem => ?_
    · obtain ⟨off, rfl⟩ := Nat.exists_eq_add_of_le inside
      have lt : off < writes.length := by omega
      exact List.mem_map_of_mem (f := Prod.fst)
        (mem_packet_stores.mpr ⟨off, writes[off], List.getElem?_eq_getElem lt, rfl⟩)
    · have := mem_reports sizes mem
      omega

/-- The descriptors with those of a packet. -/
theorem Marks.send (marks : Marks config cleaned processed outstanding desc)
    (plain : ∀ write ∈ writes, write.Plain)
    (sizes : ∀ pkt ∈ outstanding, 0 < pkt.size) (large : 0 < pkt.size)
    (len : writes.length + 1 = pkt.size)
    (room : descriptors outstanding + pkt.size ≤ config.nbTxDesc)
    (place : start = cleaned + descriptors outstanding) :
    Marks config cleaned processed (outstanding ++ [pkt])
      (applyAll (TxRing.packetStores config outstanding start pkt writes) desc) := by
  have total : (DescWrite.context :: writes).length = pkt.size := len
  have allPlain : ∀ write ∈ DescWrite.context :: writes, write.Plain :=
    List.forall_mem_cons.mpr ⟨plain_context, plain⟩
  obtain ⟨filledRs, filledDd⟩ := marks.fill allPlain sizes (by omega) place rfl
  rw [TxRing.packetStores, applyAll_append]
  generalize applyAll _ desc = filled at filledRs filledDd ⊢
  have list := reports_snoc config.txRsThresh cleaned outstanding pkt
  rw [← place] at list
  have older : ∀ i, (filled i).Dd →
      ∃ n ∈ reports config.txRsThresh 0 cleaned (outstanding ++ [pkt]),
        n < processed ∧ i = n % config.nbTxDesc := by
    intro i done
    obtain ⟨n, mem, earlier, same⟩ := marks.done _ (filledDd i done)
    exact ⟨n, list ▸ List.mem_append_left _ mem, earlier, same⟩
  have count : descriptors (outstanding ++ [pkt]) = descriptors outstanding + pkt.size := by
    rw [descriptors_append, descriptors_cons, descriptors_nil, Nat.add_zero]
  constructor
  · intro n lo hi
    have before := filledRs n lo (by omega)
    rw [list]
    split
    · rw [List.mem_append, List.mem_singleton, ← before]
      by_cases last : n = start + pkt.size - 1
      · subst last
        refine iff_of_true ?_ (.inr rfl)
        change (update filled _ _ _).Rs
        rw [update_self]
        exact apply_setRs_rs _
      · rw [or_iff_left last]
        change (update filled _ _ _).Rs ↔ _
        rw [update_of_ne]
        exact cell_ne_of_turn lo (by omega) (by omega) (by omega) last
    · rw [List.append_nil]
      exact before
  · intro i done
    refine older i ?_
    split at done
    · change (update filled _ _ _).Dd at done
      rw [update_apply] at done
      split_ifs at done with same
      · rw [same]
        exact done
      · exact done
    · exact done

/-- The stores are to the descriptors of the packet. -/
theorem mem_packetStores {store : Nat × DescWrite} (len : writes.length + 1 = pkt.size)
    (member : store ∈ TxRing.packetStores config outstanding start pkt writes) :
    ∃ n, start ≤ n ∧ n < start + pkt.size ∧
      store.1 = n % config.nbTxDesc := by
  obtain member | member := List.mem_append.mp member
  · obtain ⟨off, write, found, rfl⟩ := mem_packet_stores.mp member
    have lt := (List.getElem?_eq_some_iff.mp found).1
    rw [List.length_cons] at lt
    exact ⟨start + off, by omega, by omega, rfl⟩
  · split at member
    · cases List.mem_singleton.mp member
      exact ⟨start + pkt.size - 1, by omega, by omega, rfl⟩
    · cases member

end Packet

/-! ## The invariant -/

namespace MultiTx

def PhaseSafe (config : TxConfig) (tx : MultiTx) : Prop :=
  match tx.phase with
  | .idle => tx.handed = descriptors tx.sent ∧ tx.pending = []
  | .loop left nbTx txId =>
    txId = descriptors tx.sent % config.nbTxDesc ∧ (∀ pkt ∈ left, pkt.Consistent) ∧
      (nbTx = 0 → tx.handed = descriptors tx.sent) ∧ tx.handed + nbTx ≤ descriptors tx.sent

structure Safe (config : TxConfig) (gone outstanding : List ExoMbuf) (tx : MultiTx) : Prop where
  ring : tx.ring.Holds config tx.cleaned outstanding
  sent : tx.sent = gone ++ outstanding
  cleaned : tx.cleaned = descriptors gone
  freed : tx.freed = gone.flatMap ExoMbuf.buffers
  reclaimed : tx.cleaned ≤ tx.processed
  processed : tx.processed ≤ tx.handed
  handed : tx.handed ≤ descriptors tx.sent
  filled : tx.filled ≤ descriptors tx.sent
  tail : tx.ring.txTail = tx.handed % config.nbTxDesc
  phase : tx.PhaseSafe config
  pending : ∀ store ∈ tx.pending, ∃ number, tx.handed ≤ number ∧ tx.filled ≤ number ∧
    number < tx.cleaned + config.nbTxDesc ∧ store.1 = number % config.nbTxDesc
  tdt : tx.tdt = tx.handed % config.nbTxDesc
  tdh : tx.tdh = tx.processed % config.nbTxDesc
  marks : Marks config tx.cleaned tx.processed outstanding (applyAll tx.pending tx.desc)

variable {gone : List ExoMbuf} {tx after : MultiTx}

theorem start_safe (roomy : config.Roomy) : (start config).Safe config [] [] := by
  refine ⟨TxRing.configureTx_holds roomy, rfl, rfl, rfl, Nat.le_refl _, Nat.le_refl _,
    Nat.le_refl _, Nat.le_refl _, (Nat.zero_mod _).symm, ⟨rfl, rfl⟩, ?_, (Nat.zero_mod _).symm,
    (Nat.zero_mod _).symm, ?_, ?_⟩
  · intro store mem
    cases mem
  · intro number _ above
    exact absurd above (Nat.not_lt_zero _)
  · intro index done
    exact absurd done (apply_resetStatus_dd .zero)

section

variable (safe : tx.Safe config gone outstanding)
include safe

theorem Safe.used :
    descriptors tx.sent = tx.cleaned + descriptors outstanding := by
  rw [safe.sent, descriptors_append, safe.cleaned]

theorem Safe.turn :
    descriptors tx.sent < tx.cleaned + config.nbTxDesc := by
  have := safe.used
  have := safe.ring.free
  omega

theorem Safe.sizes : ∀ pkt ∈ outstanding, 0 < pkt.size :=
  fun pkt mem => Nat.lt_of_lt_of_le Nat.zero_lt_two
    (safe.ring.consistent pkt mem).size_bounds.1

end

/-! ## Stores and the hardware -/

section

variable (safe : tx.Safe config gone outstanding)
include safe

theorem Safe.store (made : tx.step .store = some after) : after.Safe config gone outstanding := by
  simp only [step] at made
  split at made
  · cases made
  rename_i index write rest pending
  cases made
  have phase := safe.phase
  have marks := safe.marks
  have stores := safe.pending
  rw [pending] at marks stores
  refine { safe with phase := ?_, pending := ?_, marks := marks }
  · unfold PhaseSafe at phase ⊢
    cases atPhase : tx.phase with
    | idle =>
      rw [atPhase, pending] at phase
      cases phase.2
    | loop left nbTx txId =>
      rw [atPhase] at phase
      exact phase
  · intro store mem
    exact stores store (List.mem_cons_of_mem _ mem)

/-- The pending stores do not touch what the hardware has not processed. -/
theorem Safe.untouched {store : Nat × DescWrite} (mem : store ∈ tx.pending) {n : Nat}
    (lower : tx.processed ≤ n) (upper : n < tx.filled ∨ n < tx.handed) :
    store.1 ≠ n % config.nbTxDesc := by
  obtain ⟨o, handed, filled, turn, place⟩ := safe.pending store mem
  have := safe.reclaimed
  rw [place]
  exact cell_ne_of_turn (show tx.cleaned ≤ o by omega) turn (by omega) (by omega) (by omega)

theorem Safe.process (made : tx.step .process = some after) :
    after.Safe config gone outstanding := by
  simp only [step] at made
  split_ifs at made with waiting
  cases made
  have used := safe.used
  have reclaimed := safe.reclaimed
  have handed := safe.handed
  have behind : tx.processed < tx.handed := by
    refine Nat.lt_of_le_of_ne safe.processed fun same => waiting ?_
    rw [safe.tdh, safe.tdt, same]
  have outside : ∀ store ∈ tx.pending, store.1 ≠ tx.tdh := by
    intro store mem
    rw [safe.tdh]
    exact safe.untouched mem (Nat.le_refl _) (.inr behind)
  have marks := safe.marks.process reclaimed (by omega)
  refine { safe with
    reclaimed := Nat.le_succ_of_le reclaimed, processed := behind, tdh := ?_, marks := ?_ }
  · change (tx.tdh + 1) % tx.ring.nbTxDesc = (tx.processed + 1) % config.nbTxDesc
    rw [safe.tdh, safe.ring.nbTxDesc, Nat.mod_add_mod]
  · change Marks _ _ _ _ (applyAll tx.pending (update tx.desc tx.tdh _))
    have same : applyAll tx.pending tx.desc tx.tdh = tx.desc tx.tdh := applyAll_outside outside
    rw [applyAll_update outside, ← same]
    rw [← safe.tdh] at marks
    exact marks

end

/-! ## Cleaning -/

/-- The descriptor that `xmit_cleanup` tests. -/
theorem Safe.tested (safe : tx.Safe config gone outstanding) (roomy : config.Roomy)
    (stored : tx.pending = []) :
    ∃ n, tx.cleaned ≤ n ∧ n < tx.cleaned + config.nbTxDesc ∧
      tx.ring.descToCleanTo = n % config.nbTxDesc ∧
      (n < descriptors tx.sent ∧ (tx.desc tx.ring.descToCleanTo).Rs ∨
        descriptors tx.sent ≤ n ∧ ¬ (tx.desc tx.ring.descToCleanTo).Dd) := by
  have used := safe.used
  have turn := safe.turn
  have thresh := roomy.thresh
  have room := roomy.room
  have marks := safe.marks
  rw [stored] at marks
  obtain ⟨few, target⟩ | ⟨front, back, rfl, reported, target⟩ := safe.ring.descToCleanTo roomy
  · refine ⟨tx.cleaned + config.txRsThresh - 1, by omega, by omega, target, .inr ⟨by omega, ?_⟩⟩
    intro done
    rw [target] at done
    have inUse := (marks.done_at safe.sizes (by omega) (by omega) (by omega) done).1
    omega
  · have enough := reported.enough
    rw [descriptors_append] at used
    refine ⟨tx.cleaned + descriptors front - 1, by omega, by omega, target, .inl ⟨by omega, ?_⟩⟩
    rw [target]
    refine (marks.report _ (by omega) ?_).mpr ?_
    · rw [descriptors_append]
      omega
    · rw [reported.reports]
      exact List.mem_cons_self

def Ahead (config : TxConfig) (tx : MultiTx) : Prop :=
  ∀ store ∈ tx.pending, ∃ number, descriptors tx.sent ≤ number ∧
    number < tx.cleaned + config.nbTxDesc ∧ store.1 = number % config.nbTxDesc

variable {left : List ExoMbuf} {nbTx txId : Nat}

theorem Safe.cleanup (safe : tx.Safe config gone outstanding) (roomy : config.Roomy)
    (stored : tx.pending = []) (looping : tx.phase = .loop left nbTx txId)
    (cleans : tx.cleanup = some after) :
    ∃ front back, after.Safe config (gone ++ front) back ∧ after.phase = .loop left nbTx txId ∧
      after.Ahead config ∧ config.txRsThresh ≤ after.ring.nbTxFree := by
  have thresh := roomy.thresh
  have room := roomy.room
  have turn := safe.turn
  have used := safe.used
  have marks := safe.marks
  rw [stored] at marks
  simp only [MultiTx.cleanup] at cleans
  split_ifs at cleans with done
  cases cleans
  obtain ⟨few, target⟩ | ⟨front, back, rfl, reported, target⟩ := safe.ring.descToCleanTo roomy
  · rw [target] at done
    have inUse := (marks.done_at safe.sizes (by omega) (by omega) (by omega) done).1
    omega
  · have enough := reported.enough
    have fits := reported.fits
    have pos : 0 < descriptors front := by omega
    have ring := safe.ring.xmitCleanup target roomy reported
    have inv := safe.ring.nbTxToClean_eq roomy pos fits target
    have buffers := safe.ring.cleanBuffers_eq target pos fits
    have reset := marks.cleanup reported pos target
    -- the first report is done, and it ends what is cleaned
    have reaches : tx.cleaned + descriptors front ≤ tx.processed := by
      rw [target] at done
      have earlier := (marks.done_at safe.sizes (by omega) (by omega) (by omega) done).2
      omega
    rw [descriptors_append] at used
    have phase := safe.phase
    have free := ring.free
    have processed := safe.processed
    have handed := safe.handed
    have filled := safe.filled
    -- its slot is not used again before a turn has passed
    have slot : tx.ring.descToCleanTo =
        (tx.cleaned + descriptors front - 1 + config.nbTxDesc) % config.nbTxDesc := by
      rw [target, Nat.add_mod_right]
    have beyond : descriptors tx.sent ≤
        tx.cleaned + descriptors front - 1 + config.nbTxDesc := by omega
    have within : tx.cleaned + descriptors front - 1 + config.nbTxDesc <
        tx.cleaned + descriptors front + config.nbTxDesc := by omega
    rw [inv, buffers, stored]
    refine ⟨front, back, ⟨ring, ?_, ?_, ?_, reaches, processed, handed, filled, safe.tail, ?_, ?_,
      safe.tdt, safe.tdh, reset⟩, looping, ?_, ?_⟩
    · rw [List.append_assoc]
      exact safe.sent
    · rw [descriptors_append, ← safe.cleaned]
    · rw [List.flatMap_append, ← safe.freed]
    · unfold PhaseSafe at phase ⊢
      simpa only [looping] using phase
    · intro store mem
      cases List.mem_singleton.mp mem
      exact ⟨_, Nat.le_trans handed beyond, Nat.le_trans filled beyond, within, slot⟩
    · intro store mem
      cases List.mem_singleton.mp mem
      exact ⟨_, beyond, within, slot⟩
    · change config.txRsThresh ≤ tx.ring.xmitCleanup.nbTxFree
      omega

/-! ## Sending -/

section

variable (safe : tx.Safe config gone outstanding)
include safe

theorem Safe.sendPacket (roomy : config.Roomy) (looping : tx.phase = .loop (pkt :: left) nbTx txId)
    (ahead : tx.Ahead config) (sends : tx.sendPacket pkt left nbTx txId = some after) :
    after.Safe config gone (outstanding ++ [pkt]) := by
  have phase := safe.phase
  unfold PhaseSafe at phase
  rw [looping] at phase
  obtain ⟨place, inv, first, behind⟩ := phase
  have pktConsistent := inv pkt List.mem_cons_self
  have sizes := pktConsistent.size_bounds
  obtain ⟨writes, found, len, plain⟩ := pktConsistent.dataWrites
  have used := safe.used
  have free := safe.ring.free
  simp only [MultiTx.sendPacket, pktConsistent.counted, found, Option.map_some] at sends
  split_ifs at sends with enough
  cases sends
  have ring := safe.ring.sendPacket roomy pktConsistent enough len used
  have value := safe.ring.sendPacket_eq roomy pktConsistent enough len used
  have marks :=
    safe.marks.send plain safe.sizes (by omega) (congrArg (· + 1) len) (by omega) used
  rw [← place] at ring value
  have stores := congrArg (fun res => res.2.1) value
  have next := congrArg (fun res => res.2.2) value
  have tail := congrArg (fun res => res.1.txTail) value
  have grown : descriptors (tx.sent ++ [pkt]) = descriptors tx.sent + pkt.size := by
    rw [descriptors_append, descriptors_cons, descriptors_nil, Nat.add_zero]
  have handed := safe.handed
  have room : descriptors tx.sent + pkt.size ≤ tx.cleaned + config.nbTxDesc := by omega
  rw [stores, next]
  refine ⟨ring, ?_, safe.cleaned, safe.freed, safe.reclaimed, safe.processed, ?_, ?_,
    tail.trans safe.tail, ⟨?_, ?_, ?_, ?_⟩, ?_, safe.tdt, safe.tdh, ?_⟩
  · rw [safe.sent, List.append_assoc]
  · change tx.handed ≤ descriptors (tx.sent ++ [pkt])
    omega
  · change descriptors tx.sent ≤ descriptors (tx.sent ++ [pkt])
    omega
  · rw [grown]
  · intro o member
    exact inv o (List.mem_cons_of_mem _ member)
  · intro zero
    exact absurd zero (Nat.succ_ne_zero _)
  · change tx.handed + (nbTx + 1) ≤ descriptors (tx.sent ++ [pkt])
    omega
  · intro store member
    obtain member | member := List.mem_append.mp member
    · obtain ⟨n, lo, hi, same⟩ := ahead store member
      exact ⟨n, Nat.le_trans handed lo, lo, hi, same⟩
    · obtain ⟨n, lo, hi, same⟩ := mem_packetStores (congrArg (· + 1) len) member
      exact ⟨n, Nat.le_trans handed lo, lo, Nat.lt_of_lt_of_le hi room, same⟩
  · rw [applyAll_append]
    exact marks

theorem Safe.endOfTx (stored : tx.pending = []) (looping : tx.phase = .loop left nbTx txId) :
    (tx.endOfTx txId).Safe config gone outstanding := by
  have phase := safe.phase
  unfold PhaseSafe at phase
  rw [looping] at phase
  refine { safe with
    ring := { safe.ring with }
    processed := Nat.le_trans safe.processed safe.handed
    handed := Nat.le_refl _
    tail := phase.1
    phase := ⟨rfl, stored⟩
    pending := ?_
    tdt := phase.1 }
  intro store mem
  rw [show (tx.endOfTx txId).pending = [] from stored] at mem
  cases mem

section

variable (roomy : config.Roomy)
include roomy

theorem Safe.call {pkts : List ExoMbuf} (inv : ∀ pkt ∈ pkts, pkt.Consistent)
    (made : tx.step (.call pkts) = some after) :
    ∃ gone outstanding, after.Safe config gone outstanding := by
  simp only [step] at made
  split at made
  swap
  · cases made
  rename_i idle
  have phase := safe.phase
  unfold PhaseSafe at phase
  rw [idle] at phase
  obtain ⟨handed, stored⟩ := phase
  have started : ({ tx with
      phase := .loop pkts 0 tx.ring.txTail, filled := descriptors tx.sent } : MultiTx).Safe
      config gone outstanding := by
    refine { safe with
      filled := Nat.le_refl _
      phase := ⟨?_, inv, fun _ => handed, safe.handed⟩
      pending := ?_ }
    · rw [← handed]
      exact safe.tail
    · intro store mem
      rw [stored] at mem
      cases mem
  split at made
  · cases made
    cases cleans : MultiTx.cleanup { tx with
        phase := .loop pkts 0 tx.ring.txTail, filled := descriptors tx.sent } with
    | none => exact ⟨gone, outstanding, started⟩
    | some cleaned =>
      obtain ⟨front, back, safe, -⟩ := started.cleanup roomy stored rfl cleans
      exact ⟨gone ++ front, back, safe⟩
  · cases made
    exact ⟨gone, outstanding, started⟩

theorem Safe.next (made : tx.step .next = some after) :
    ∃ gone outstanding, after.Safe config gone outstanding := by
  simp only [step] at made
  split at made
  · rename_i nbTx txId looping stored
    cases made
    exact ⟨gone, outstanding, safe.endOfTx stored looping⟩
  · rename_i pkt left nbTx txId looping stored
    have ahead : tx.Ahead config := by
      intro store mem
      rw [stored] at mem
      cases mem
    split at made
    · split at made
      · cases made
        refine ⟨gone, outstanding, ?_⟩
        split_ifs with zero
        · have phase := safe.phase
          unfold PhaseSafe at phase
          rw [looping] at phase
          exact { safe with phase := ⟨phase.2.2.1 zero, stored⟩ }
        · exact safe.endOfTx stored looping
      · rename_i cleans
        obtain ⟨front, back, cleaned, still, ahead, -⟩ := safe.cleanup roomy stored looping cleans
        exact ⟨_, _, cleaned.sendPacket roomy still ahead made⟩
    · exact ⟨_, _, safe.sendPacket roomy looping ahead made⟩
  · cases made

theorem Safe.step {ev : Event} (inv : tx.Consistent ev) (step : tx.step ev = some after) :
    ∃ gone outstanding, after.Safe config gone outstanding := by
  cases ev with
  | call pkts => exact safe.call roomy inv step
  | next => exact safe.next roomy step
  | store => exact ⟨gone, outstanding, safe.store step⟩
  | process => exact ⟨gone, outstanding, safe.process step⟩

/-- The assertions of the loop do not fail. -/
theorem Safe.next_ne_none (stored : tx.pending = []) (looping : tx.phase = .loop left nbTx txId) :
    tx.step .next ≠ none := by
  have phase := safe.phase
  have thresh := roomy.thresh
  unfold PhaseSafe at phase
  rw [looping] at phase
  cases left with
  | nil => simp [MultiTx.step, looping, stored]
  | cons pkt left =>
    have inv := phase.2.1 pkt List.mem_cons_self
    have sizes := inv.size_bounds
    obtain ⟨writes, found, -⟩ := inv.dataWrites
    simp only [MultiTx.step, looping, stored, MultiTx.sendPacket, inv.counted, found]
    split
    · split
      · exact Option.some_ne_none _
      · -- what has been cleaned is enough for the packet
        rename_i cleans
        obtain ⟨-, -, -, -, -, enough⟩ := safe.cleanup roomy stored looping cleans
        rw [if_pos (by omega)]
        exact Option.some_ne_none _
    · rw [if_pos (by omega)]
      exact Option.some_ne_none _

end

end

/-! ## Whole runs -/

structure Orderly (config : TxConfig) (tx : MultiTx) : Prop where
  /-- No store is to a descriptor that the hardware has yet to process. -/
  untouched : ∀ store ∈ tx.pending, ∀ number, tx.processed ≤ number →
    (number < tx.filled ∨ number < tx.handed) → store.1 ≠ number % config.nbTxDesc
  /-- The descriptors that are not free are those used since the last one cleaned. -/
  free : tx.cleaned ≤ descriptors tx.sent ∧
    tx.ring.nbTxFree + (descriptors tx.sent - tx.cleaned) = config.nbTxDesc - 1 ∧
    tx.ring.lastDescCleaned = (tx.cleaned + (config.nbTxDesc - 1)) % config.nbTxDesc
  /-- A test is made at a report, or at a descriptor that is not in use and not done. -/
  tested : tx.pending = [] → ∃ number, tx.cleaned ≤ number ∧
    number < tx.cleaned + config.nbTxDesc ∧
    tx.ring.descToCleanTo = number % config.nbTxDesc ∧
    (number < descriptors tx.sent ∧ (tx.desc tx.ring.descToCleanTo).Rs ∨
      descriptors tx.sent ≤ number ∧ ¬ (tx.desc tx.ring.descToCleanTo).Dd)
  /-- The buffers freed are those of the packets cleaned, each of which has been transmitted. -/
  freed : ∃ count, tx.freed = (tx.sent.take count).flatMap ExoMbuf.buffers ∧
    tx.cleaned = descriptors (tx.sent.take count) ∧ tx.cleaned ≤ tx.processed

theorem Safe.orderly (safe : tx.Safe config gone outstanding) (roomy : config.Roomy) :
    tx.Orderly config where
  untouched _ member _ lower upper := safe.untouched member lower upper
  free := by
    have used := safe.used
    have free := safe.ring.free
    exact ⟨by omega, by omega, safe.ring.last⟩
  tested := safe.tested roomy
  freed := by
    refine ⟨gone.length, ?_, ?_, safe.reclaimed⟩
    · rw [safe.sent, List.take_left, safe.freed]
    · rw [safe.sent, List.take_left, safe.cleaned]

theorem multi_transmit_orderly (thresh : 4 ≤ config.txRsThresh)
    (room : 2 * config.txRsThresh ≤ config.nbTxDesc)
    (fits : config.nbTxDesc + config.txRsThresh ≤ 2 ^ 16)
    (reached : Reaches step Consistent (start config) tx) : tx.Orderly config := by
  have roomy : config.Roomy := ⟨thresh, room, fits⟩
  have known : ∃ gone outstanding, tx.Safe config gone outstanding := by
    refine reached.invariant
      (motive := fun tx => ∃ gone outstanding, tx.Safe config gone outstanding)
      ⟨[], [], start_safe roomy⟩ ?_
    rintro before after event ⟨gone, outstanding, safe⟩ consistent stepped
    exact safe.step roomy consistent stepped
  obtain ⟨gone, outstanding, safe⟩ := known
  exact safe.orderly roomy

def smallPacket : ExoMbuf :=
  { ExoMbuf.zero with virtAddr := 4096, len := 60, flag := 1, nbSegment := 1 }

/-- One call with `count` such packets; each asks for two stores, and some for a report. -/
def smallCall (count : Nat) (report : Nat → Bool) : List Event :=
  .call (List.replicate count smallPacket) ::
    ((List.range count).flatMap fun index =>
      .next :: List.replicate (if report index then 3 else 2) .store) ++ [.next]

/-- On a ring of eight descriptors, two packets are sent, processed, and cleaned by the next
    call. -/
theorem multi_transmit_orderly_once :
    ∃ tx, Reaches step Consistent (start ⟨8, 4, 4⟩) tx ∧ tx.freed = [(4096, 0), (4096, 0)] ∧
      tx.cleaned = 4 ∧ tx.Orderly ⟨8, 4, 4⟩ := by
  have executed : ∃ tx ∈ execute step Consistent
      (smallCall 2 (· == 1) ++ List.replicate 4 .process ++ [.call []]) (start ⟨8, 4, 4⟩),
      tx.freed = [(4096, 0), (4096, 0)] ∧ tx.cleaned = 4 := by
    decide +kernel
  obtain ⟨tx, reached, freed, cleaned⟩ := exists_reaches_of_execute executed
  exact ⟨tx, reached, freed, cleaned,
    multi_transmit_orderly (by decide) (by decide) (by decide) reached⟩

/-- No assertion of `multi_send` fails: the loop always goes on. -/
theorem multi_send_goes_on (roomy : config.Roomy)
    (reached : Reaches step Consistent (start config) tx) (stored : tx.pending = [])
    (looping : tx.phase = .loop left nbTx txId) : tx.step .next ≠ none := by
  obtain ⟨gone, outstanding, safe⟩ := reached.invariant
    (motive := fun tx => ∃ gone outstanding, tx.Safe config gone outstanding)
    ⟨[], [], start_safe roomy⟩ fun known consistent stepped => by
      obtain ⟨gone, outstanding, safe⟩ := known
      exact safe.step roomy consistent stepped
  exact safe.next_ne_none roomy stored looping

theorem multi_send_goes_on_once :
    ∃ tx, Reaches step Consistent (start ⟨8, 4, 4⟩) tx ∧ tx.step .next ≠ none := by
  have made : step (start ⟨8, 4, 4⟩) (.call [smallPacket]) = some _ := rfl
  have reached := Reaches.next .refl (by decide : Consistent _ (.call [smallPacket])) made
  exact ⟨_, reached, multi_send_goes_on (by constructor <;> decide) reached rfl rfl⟩

/-- On a ring of 65528 descriptors, of which sixteen are used, the report is on the last of them,
    but the index to be tested wraps around at 65536. -/
theorem multi_transmit_wrong_test :
    ∃ tx, Reaches step Consistent (start ⟨65528, 16, 16⟩) tx ∧ (tx.desc 15).Rs ∧
      tx.ring.descToCleanTo = 7 ∧ ¬ (tx.desc 7).Rs ∧ ¬ tx.Orderly ⟨65528, 16, 16⟩ := by
  have executed : ∃ tx ∈ execute step Consistent (smallCall 8 (· == 7)) (start ⟨65528, 16, 16⟩),
      tx.pending.length = 0 ∧ descriptors tx.sent = 16 ∧ tx.cleaned = 0 ∧ (tx.desc 15).Rs ∧
        tx.ring.descToCleanTo = 7 ∧ ¬ (tx.desc 7).Rs := by
    decide +kernel
  obtain ⟨tx, reached, stored, used, cleaned, report, target, plain⟩ :=
    exists_reaches_of_execute executed
  refine ⟨tx, reached, report, target, plain, fun orderly => ?_⟩
  obtain ⟨number, -, upper, place, ⟨-, set⟩ | ⟨unused, -⟩⟩ :=
    orderly.tested (List.eq_nil_of_length_eq_zero stored)
  · exact plain (target ▸ set)
  · rw [target] at place
    change number < tx.cleaned + 65528 at upper
    change 7 = number % 65528 at place
    omega

end MultiTx

end Xdk.X540
