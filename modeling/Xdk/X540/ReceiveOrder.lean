import Xdk.Lib.Ring
import Xdk.X540.Receive

/-! # Order of the receive ring

The packets received are numbered; the descriptor of packet `q` is at index `q % N`.  The handler
has set the tail register to give back all packets below `base`, has reset the descriptors of those
below `done` and has delivered those below `delivered.length`, which is one more than `done`
between a call of `receive_packet` and the end of the reset.  The hardware has filled those below
`received.length` and may go on to `base + N - 1`.
-/

namespace Xdk.X540

open Xdk.Lib Function

/-! ## Statuses read backwards -/

/-- The statuses from packet `start` on, read last to first: those that are set come first, and
    their packets have arrived. -/
def Backwards (received start : Nat) (seen : List Nat) : Prop :=
  ∃ set clear, seen = List.replicate set 1 ++ List.replicate clear 0 ∧
    (0 < set → start + set ≤ received)

variable {received start : Nat} {seen : List Nat}

/-- A packet before one that has arrived has arrived. -/
theorem Backwards.read (backwards : Backwards received (start + 1) seen) :
    Backwards received start ((if start < received then 1 else 0) :: seen) := by
  obtain ⟨set, clear, rfl, arrived⟩ := backwards
  split
  · refine ⟨set + 1, clear, rfl, fun _ => ?_⟩
    rcases Nat.eq_zero_or_pos set with rfl | positive
    · omega
    · have := arrived positive
      omega
  · rename_i missing
    obtain rfl : set = 0 := by
      by_contra positive
      omega
    exact ⟨0, clear + 1, rfl, fun positive => absurd positive (Nat.lt_irrefl _)⟩

theorem Backwards.mono {later : Nat} (backwards : Backwards received start seen)
    (grown : received ≤ later) : Backwards later start seen := by
  obtain ⟨set, clear, shape, arrived⟩ := backwards
  exact ⟨set, clear, shape, fun pos => Nat.le_trans (arrived pos) grown⟩

/-- The number of statuses that are set. -/
theorem Backwards.sum_le (backwards : Backwards received start seen) :
    seen.sum ≤ seen.length ∧ (0 < seen.sum → start + seen.sum ≤ received) := by
  obtain ⟨set, clear, rfl, arrived⟩ := backwards
  simpa using arrived

/-! ## Phases -/

structure RxGroup (ringSize base done received nbRx i rxdp j nbDd : Nat) : Prop where
  place : rxdp = (base + i) % ringSize
  done : done = base + i + j
  count : nbRx = i + nbDd
  arrived : base + i + nbDd ≤ received

def RxPhase.Safe (ringSize base done delivered received : Nat) : RxPhase → Prop
  | .idle | .check => delivered = done ∧ done = base
  | .scan nbRx i rxdp seen =>
    delivered = done ∧ RxGroup ringSize base done received nbRx i rxdp 0 0 ∧ base < received ∧
      seen.length < lookAhead ∧ Backwards received (done + (lookAhead - seen.length)) seen
  | .receive nbRx i rxdp j nbDd =>
    delivered = done ∧ RxGroup ringSize base done received nbRx i rxdp j nbDd ∧ j < nbDd
  | .reset nbRx i rxdp j nbDd _ | .store nbRx i rxdp j nbDd =>
    delivered = done + 1 ∧ RxGroup ringSize base done received nbRx i rxdp j nbDd ∧ j < nbDd
  | .tail nbRx => delivered = done ∧ done = base + nbRx ∧ 0 < nbRx

variable {ringSize base done delivered nbRx i rxdp j nbDd : Nat} {config : RxConfig}

/-- The descriptor that is handled. -/
theorem RxGroup.index (group : RxGroup ringSize base done received nbRx i rxdp j nbDd) :
    (rxdp + j) % ringSize = done % ringSize := by
  rw [group.place, Nat.mod_add_mod, group.done]

theorem RxGroup.arrive (group : RxGroup ringSize base done received nbRx i rxdp j nbDd) :
    RxGroup ringSize base done (received + 1) nbRx i rxdp j nbDd :=
  { group with arrived := Nat.le_succ_of_le group.arrived }

/-- The hardware may fill a descriptor at any time. -/
theorem RxPhase.Safe.arrive {phase : RxPhase}
    (safe : phase.Safe ringSize base done delivered received) :
    phase.Safe ringSize base done delivered (received + 1) := by
  cases phase with
  | idle => exact safe
  | check => exact safe
  | tail nbRx => exact safe
  | scan nbRx i rxdp seen =>
    obtain ⟨same, group, some, short, backwards⟩ := safe
    exact ⟨same, group.arrive, Nat.lt_succ_of_lt some, short, backwards.mono (Nat.le_succ _)⟩
  | receive nbRx i rxdp j nbDd | reset nbRx i rxdp j nbDd newPkt | store nbRx i rxdp j nbDd =>
    obtain ⟨same, group, inside⟩ := safe
    exact ⟨same, group.arrive, inside⟩

theorem RxPhase.Safe.allocates {phase : RxPhase}
    (safe : phase.Safe ringSize base done delivered received) (newPkt : phase.allocates = true) :
    delivered = done + 1 := by
  cases phase with
  | reset nbRx i rxdp j nbDd newPkt => exact safe.1
  | _ => cases newPkt

theorem afterPacket_safe
    (group : RxGroup config.numRxDescriptors base done received nbRx i rxdp j nbDd)
    (handled : j ≤ nbDd) (some : 0 < nbRx) :
    (RxQueue.afterPacket config nbRx i rxdp j nbDd).Safe config.numRxDescriptors base done done
      received := by
  obtain ⟨place, position, count, arrived⟩ := group
  unfold RxQueue.afterPacket
  split
  · rename_i more
    exact ⟨rfl, ⟨place, position, count, arrived⟩, more⟩
  · obtain rfl : j = nbDd := by omega
    split
    · exact ⟨rfl, by omega, some⟩
    · rename_i full
      split
      · refine ⟨rfl, ⟨?_, by omega, by omega, by omega⟩, by omega, by decide, 0, 0, rfl,
          fun pos => absurd pos (Nat.lt_irrefl _)⟩
        rw [place, Nat.mod_add_mod, Nat.add_assoc]
      · exact ⟨rfl, by omega, some⟩

/-! ## The invariant -/

theorem RxDesc.dd_address (a lo : Nat) : (RxDesc.mk lo a).dd = a % 2 := by
  exact Nat.mod_mod_of_dvd a (by decide)

namespace RxQueue

/-- The buffers in the ring are at different even addresses.  The stack has none of them, apart
    from the one that is about to be replaced. -/
structure Buffers (config : RxConfig) (done : Nat) (rx : RxQueue) : Prop where
  address : ∀ index, (rx.rxBuf index).physAddr = config.getPhysAddr (rx.rxBuf index).virtAddr
  even : ∀ index < config.numRxDescriptors, (rx.rxBuf index).physAddr % 2 = 0
  distinct : ∀ first < config.numRxDescriptors, ∀ second < config.numRxDescriptors,
    (rx.rxBuf first).physAddr = (rx.rxBuf second).physAddr → first = second
  kept : ∀ buffer ∈ rx.kept, ∀ index < config.numRxDescriptors,
    (rx.rxBuf index).physAddr = config.getPhysAddr buffer →
    rx.phase.allocates = true ∧ index = done % config.numRxDescriptors

def Filled (config : RxConfig) (rx : RxQueue) (number : Nat) : Prop :=
  (rx.desc (number % config.numRxDescriptors)).dd = 1 ∧
    rx.received[number]? = some ((rx.rxBuf (number % config.numRxDescriptors)).physAddr,
      (rx.desc (number % config.numRxDescriptors)).length)

def Empty (config : RxConfig) (rx : RxQueue) (number : Nat) : Prop :=
  rx.desc (number % config.numRxDescriptors) =
    ⟨(rx.rxBuf (number % config.numRxDescriptors)).physAddr,
      (rx.rxBuf (number % config.numRxDescriptors)).physAddr⟩

structure Safe (config : RxConfig) (base done : Nat) (rx : RxQueue) : Prop where
  tail : rx.rxTail = base % config.numRxDescriptors
  rdt : rx.rdt = (base + (config.numRxDescriptors - 1)) % config.numRxDescriptors
  rdh : rx.rdh = rx.received.length % config.numRxDescriptors
  base_le : base ≤ done
  done_le : done ≤ rx.delivered.length
  delivered_le : rx.delivered.length ≤ rx.received.length
  turn : rx.received.length ≤ base + (config.numRxDescriptors - 1)
  calls : (rx.delivered.map fun call => (config.getPhysAddr call.1, call.2)) =
    rx.received.take rx.delivered.length
  filled : ∀ number, rx.delivered.length ≤ number → number < rx.received.length →
    rx.Filled config number
  empty : ∀ number, rx.received.length ≤ number → number < done + config.numRxDescriptors →
    rx.Empty config number
  buffers : rx.Buffers config done
  phase : rx.phase.Safe config.numRxDescriptors base done rx.delivered.length rx.received.length
  header : (∃ nbRx i rxdp j nbDd, rx.phase = .store nbRx i rxdp j nbDd) →
    (rx.desc (done % config.numRxDescriptors)).hdrAddr =
      (rx.rxBuf (done % config.numRxDescriptors)).physAddr

variable {rx after : RxQueue}

theorem start_safe {buf : Nat → Nat}
    (even : ∀ i < config.numRxDescriptors, config.getPhysAddr (buf i) % 2 = 0)
    (inj : ∀ a < config.numRxDescriptors, ∀ b < config.numRxDescriptors,
      config.getPhysAddr (buf a) = config.getPhysAddr (buf b) → a = b)
    (nonempty : 0 < config.numRxDescriptors) :
    (RxQueue.start config buf).Safe config 0 0 where
  tail := (Nat.zero_mod _).symm
  rdt := by
    rw [Nat.zero_add, Nat.mod_eq_of_lt (by omega)]
    rfl
  rdh := (Nat.zero_mod _).symm
  base_le := Nat.le_refl _
  done_le := Nat.le_refl _
  delivered_le := Nat.le_refl _
  turn := Nat.zero_le _
  calls := rfl
  filled _ _ above := absurd above (Nat.not_lt_zero _)
  empty _ _ _ := rfl
  buffers := ⟨fun _ => rfl, even, inj, fun _ mem => by cases mem⟩
  phase := ⟨rfl, rfl⟩
  header := by
    rintro ⟨_, _, _, _, _, storing⟩
    cases storing

/-- The status of a descriptor that is not being reset. -/
theorem Safe.dd_eq (safe : rx.Safe config base done) (pos : 0 < config.numRxDescriptors)
    {n : Nat} (lo : rx.delivered.length ≤ n)
    (hi : n < done + config.numRxDescriptors) :
    (rx.desc (n % config.numRxDescriptors)).dd =
      if n < rx.received.length then 1 else 0 := by
  split_ifs with arrived
  · exact (safe.filled n lo arrived).1
  · rw [safe.empty n (Nat.le_of_not_lt arrived) hi, RxDesc.dd_address]
    exact safe.buffers.even _ (Nat.mod_lt _ pos)

/-! ## Reading statuses -/

/-- As long as no buffer is about to be replaced, the stack has none of those in the ring. -/
theorem Buffers.apart (buffers : rx.Buffers config done) (quiet : rx.phase.allocates = false)
    {buffer : Nat} (mem : buffer ∈ rx.kept) (inside : i < config.numRxDescriptors) :
    (rx.rxBuf i).physAddr ≠ config.getPhysAddr buffer := by
  intro same
  have allocates := (buffers.kept buffer mem i inside same).1
  rw [quiet] at allocates
  cases allocates

/-- A change of phase only, to a phase in which no descriptor is being reset. -/
theorem Safe.goto (safe : rx.Safe config base done) {phase : RxPhase}
    (known : phase.Safe config.numRxDescriptors base done rx.delivered.length rx.received.length)
    (before : rx.phase.allocates = false)
    (next : ∀ nbRx i rxdp j nbDd, phase ≠ .store nbRx i rxdp j nbDd) :
    ({ rx with phase := phase } : RxQueue).Safe config base done := by
  refine { safe with buffers := { safe.buffers with kept := ?_ }, phase := known, header := ?_ }
  · intro buffer mem index inside same
    exact absurd same (safe.buffers.apart before mem inside)
  · rintro ⟨_, _, _, _, _, storing⟩
    exact absurd storing (next _ _ _ _ _)

/-- After a status or a packet the handler neither ends nor is in the middle of a reset. -/
theorem afterPacket_goes_on (config : RxConfig) (nbRx i rxdp j nbDd : Nat) :
    afterPacket config nbRx i rxdp j nbDd ≠ .idle ∧ ∀ nbRx' i' rxdp' j' nbDd',
      afterPacket config nbRx i rxdp j nbDd ≠ .store nbRx' i' rxdp' j' nbDd' := by
  unfold afterPacket
  split
  · exact ⟨nofun, nofun⟩
  · split
    · exact ⟨nofun, nofun⟩
    · split <;> exact ⟨nofun, nofun⟩

theorem scanStatus_goes_on (config : RxConfig) (rx : RxQueue) (nbRx i rxdp : Nat)
    (seen : List Nat) :
    rx.scanStatus config nbRx i rxdp seen ≠ .idle ∧ ∀ nbRx' i' rxdp' j' nbDd',
      rx.scanStatus config nbRx i rxdp seen ≠ .store nbRx' i' rxdp' j' nbDd' := by
  unfold scanStatus
  dsimp only
  split
  · exact ⟨nofun, nofun⟩
  · exact afterPacket_goes_on _ _ _ _ _ _

section

variable (safe : rx.Safe config base done)
include safe

theorem Safe.interrupt (made : rx.step config .interrupt = some after) :
    after.Safe config base done := by
  simp only [step] at made
  split at made
  · rename_i idle
    cases made
    have phase := safe.phase
    rw [idle] at phase
    exact safe.goto phase (by rw [idle]; rfl) nofun
  · cases made

/-- The handler ends when it has found that all packets are delivered. -/
theorem Safe.check (pos : 0 < config.numRxDescriptors) (checking : rx.phase = .check) :
    (rx.desc rx.rxTail).dd = if rx.delivered.length < rx.received.length then 1 else 0 := by
  have phase := safe.phase
  rw [checking] at phase
  obtain ⟨same, rfl⟩ := phase
  rw [safe.tail, safe.dd_eq pos (Nat.le_of_eq same) (by omega), same]

theorem Safe.scanStatus (large : lookAhead ≤ config.numRxDescriptors) {nbRx i rxdp : Nat}
    {seen : List Nat}
    (known : (RxPhase.scan nbRx i rxdp seen).Safe config.numRxDescriptors base done
      rx.delivered.length rx.received.length) :
    (rx.scanStatus config nbRx i rxdp seen).Safe config.numRxDescriptors base done
      rx.delivered.length rx.received.length := by
  obtain ⟨same, group, some, short, backwards⟩ := known
  have place := group.place
  have position := group.done
  have index : (rxdp + (lookAhead - 1 - seen.length)) % config.numRxDescriptors =
      (done + (lookAhead - 1 - seen.length)) % config.numRxDescriptors := by
    rw [place, Nat.mod_add_mod, position, Nat.add_zero]
  have status := safe.dd_eq (by omega) (show rx.delivered.length ≤
    done + (lookAhead - 1 - seen.length) by omega) (by omega)
  have next : Backwards rx.received.length (done + (lookAhead - 1 - seen.length))
      ((rx.desc ((rxdp + (lookAhead - 1 - seen.length)) % config.numRxDescriptors)).dd ::
        seen) := by
    rw [index, status]
    apply Backwards.read
    rwa [show done + (lookAhead - 1 - seen.length) + 1 = done + (lookAhead - seen.length) by omega]
  rw [RxQueue.scanStatus]
  split_ifs with more
  · rw [List.length_cons] at more
    refine ⟨same, group, some, more, ?_⟩
    rwa [List.length_cons,
      show lookAhead - (seen.length + 1) = lookAhead - 1 - seen.length by omega]
  · rw [List.length_cons] at more
    have bounds := next.sum_le
    -- in the first group the packet that was found by the check is still there
    have found : i = 0 → 0 < ((rx.desc ((rxdp + (lookAhead - 1 - seen.length)) %
        config.numRxDescriptors)).dd :: seen).sum := by
      intro first
      rw [index, status, if_pos (by omega), List.sum_cons]
      omega
    generalize (_ :: seen).sum = nbDd at bounds found ⊢
    have count := group.count
    have arrived := group.arrived
    rw [same]
    refine afterPacket_safe ⟨place, position, by omega, ?_⟩ (Nat.zero_le _) (by omega)
    rcases Nat.eq_zero_or_pos nbDd with rfl | positive
    · exact arrived
    · have := bounds.2 positive
      omega

theorem Safe.read (large : lookAhead ≤ config.numRxDescriptors)
    (made : rx.step config .read = some after) : after.Safe config base done := by
  have pos : 0 < config.numRxDescriptors := Nat.lt_of_lt_of_le (by decide) large
  have phase := safe.phase
  simp only [step] at made
  split at made
  · rename_i checking
    have status := safe.check pos checking
    rw [checking] at phase
    have quiet : rx.phase.allocates = false := by rw [checking]; rfl
    split at made
    · rename_i ready
      cases made
      have arrived : rx.delivered.length < rx.received.length := by
        by_contra missing
        rw [status, if_neg missing] at ready
        cases ready
      obtain ⟨same, rfl⟩ := phase
      refine safe.goto ⟨same, ⟨safe.tail, rfl, rfl, by omega⟩, by omega, by decide, 0, 0, rfl, ?_⟩
        quiet nofun
      exact fun lt => absurd lt (Nat.lt_irrefl _)
    · cases made
      exact safe.goto phase quiet nofun
  · rename_i nbRx i rxdp seen scanning
    cases made
    rw [scanning] at phase
    exact safe.goto (safe.scanStatus large phase) (by rw [scanning]; rfl)
      (scanStatus_goes_on _ _ _ _ _ _).2
  · cases made

/-! ## Handling a packet -/

theorem Safe.receive {answer : PktStatus} (pos : 0 < config.numRxDescriptors)
    (made : rx.step config (.receive answer) = some after) : after.Safe config base done := by
  simp only [step] at made
  split at made
  swap
  · cases made
  rename_i nbRx i rxdp j nbDd receiving
  have phase := safe.phase
  rw [receiving] at phase
  obtain ⟨same, group, inside⟩ := phase
  have position := group.done
  have arrived := group.arrived
  have quiet : rx.phase.allocates = false := by
    rw [receiving]
    rfl
  rw [group.index] at made
  cases made
  have behind : done < rx.received.length := by omega
  obtain ⟨ready, packet⟩ := safe.filled done (Nat.le_of_eq same) behind
  have longer : (rx.delivered ++ [((rx.rxBuf (done % config.numRxDescriptors)).virtAddr,
      (rx.desc (done % config.numRxDescriptors)).length)]).length = done + 1 := by
    rw [List.length_append, same, List.length_singleton]
  refine { safe with
    done_le := ?_, delivered_le := ?_, calls := ?_, filled := ?_
    buffers := { safe.buffers with kept := ?_ }
    phase := ⟨longer, group, inside⟩, header := ?_ }
  · rw [longer]
    exact Nat.le_succ done
  · rw [longer]
    exact behind
  · have calls := safe.calls
    rw [same] at calls
    rw [longer, List.map_append, calls, List.take_add_one, packet,
      safe.buffers.address (done % config.numRxDescriptors)]
    rfl
  · intro n lo hi
    rw [longer] at lo
    exact safe.filled n (by omega) hi
  · intro buf member o lt equal
    have old : buf ∉ rx.kept := fun member => safe.buffers.apart quiet member lt equal
    split at member
    · rename_i keeps
      obtain rfl | member := List.mem_cons.mp member
      · refine ⟨keeps, safe.buffers.distinct o lt _ (Nat.mod_lt _ pos) ?_⟩
        rw [safe.buffers.address (done % config.numRxDescriptors)]
        exact equal
      · exact absurd member old
    · exact absurd member old
  · rintro ⟨_, _, _, _, _, storing⟩
    cases storing

end

structure Fits (config : RxConfig) (rx : RxQueue) (index : Nat) (buf : RxBuf) : Prop where
  address : buf.physAddr = config.getPhysAddr buf.virtAddr
  even : buf.physAddr % 2 = 0
  distinct : ∀ other < config.numRxDescriptors, other ≠ index →
    (rx.rxBuf other).physAddr ≠ buf.physAddr
  kept : ∀ buffer ∈ rx.kept, buf.physAddr ≠ config.getPhysAddr buffer

/-- The old buffer unless it is kept, or a fresh one. -/
theorem Buffers.fits (buffers : rx.Buffers config done) (nonempty : 0 < config.numRxDescriptors)
    {newPkt : Bool} {fresh : Nat} (phase : rx.phase.allocates = newPkt)
    (ok : rx.Environment config (.reset fresh)) :
    rx.Fits config (done % config.numRxDescriptors)
      (if newPkt then ⟨fresh, config.getPhysAddr fresh⟩
        else rx.rxBuf (done % config.numRxDescriptors)) := by
  have lt : done % config.numRxDescriptors < config.numRxDescriptors := Nat.mod_lt _ nonempty
  cases newPkt with
  | true =>
    obtain ⟨even, ring, kept⟩ := ok phase
    exact ⟨rfl, even, fun o lt _ => ring o lt,
      fun buf mem => (kept buf mem).symm⟩
  | false =>
    refine ⟨buffers.address _, buffers.even _ lt, fun o inside ne equal => ?_,
      fun buf mem equal => ?_⟩
    · exact ne (buffers.distinct o inside _ lt equal)
    · exact buffers.apart phase mem lt equal

theorem Buffers.replace {phase : RxPhase} {buf : RxBuf} {desc : Nat → RxDesc}
    (buffers : rx.Buffers config done)
    (fits : rx.Fits config (done % config.numRxDescriptors) buf) :
    ({ rx with
      rxBuf := update rx.rxBuf (done % config.numRxDescriptors) buf
      desc := desc
      phase := phase } : RxQueue).Buffers config done := by
  refine ⟨fun i => ?_, fun i bound => ?_, fun a bound b bound' equal => ?_,
    fun buffer mem i bound equal => ?_⟩
  all_goals simp only [update_apply] at *
  · split
    · exact fits.address
    · exact buffers.address i
  · split
    · exact fits.even
    · exact buffers.even i bound
  · split at equal <;> split at equal
    · rename_i left right
      rw [left, right]
    · rename_i left right
      exact absurd equal.symm (fits.distinct b bound' right)
    · rename_i left right
      exact absurd equal (fits.distinct a bound left)
    · exact buffers.distinct a bound b bound' equal
  · split at equal
    · exact absurd equal (fits.kept buffer mem)
    · rename_i ne
      exact absurd (buffers.kept buffer mem i bound equal).2 ne

theorem Safe.received_lt (safe : rx.Safe config base done)
    (nonempty : 0 < config.numRxDescriptors) :
    rx.received.length < done + config.numRxDescriptors := by
  have := safe.turn
  have := safe.base_le
  omega

/-- The descriptor that is being reset is neither filled nor empty. -/
theorem handled_apart {n : Nat} (handled : rx.delivered.length = done + 1)
    (lower : rx.delivered.length ≤ n) (hi : n < done + config.numRxDescriptors) :
    n % config.numRxDescriptors ≠ done % config.numRxDescriptors :=
  cell_ne_of_turn (by omega) hi (Nat.le_refl _) (by omega) (by omega)

theorem Safe.reset {fresh : Nat} (safe : rx.Safe config base done)
    (pos : 0 < config.numRxDescriptors) (ok : rx.Environment config (.reset fresh))
    (made : rx.step config (.reset fresh) = some after) : after.Safe config base done := by
  simp only [step] at made
  split at made
  swap
  · cases made
  rename_i nbRx i rxdp j nbDd newPkt resetting
  have phase := safe.phase
  rw [resetting] at phase
  obtain ⟨same, group, inside⟩ := phase
  have arrived := safe.delivered_le
  have allocates : rx.phase.allocates = newPkt := by
    rw [resetting]
    rfl
  rw [group.index] at made
  cases made
  have last := safe.received_lt pos
  refine { safe with
    filled := ?_, empty := ?_
    buffers := safe.buffers.replace (safe.buffers.fits pos allocates ok)
    phase := ⟨same, group, inside⟩, header := ?_ }
  · intro n lo hi
    have filled := safe.filled n lo hi
    have apart := handled_apart same lo (Nat.lt_trans hi last)
    simp only [Filled, resetRxDesc, update_of_ne apart]
    exact filled
  · intro n lo hi
    have empty := safe.empty n lo hi
    have apart := handled_apart same (Nat.le_trans arrived lo) hi
    simp only [Empty, resetRxDesc, update_of_ne apart]
    exact empty
  · intro _
    simp only [resetRxDesc, update_self]

theorem Safe.store (safe : rx.Safe config base done)
    (pos : 0 < config.numRxDescriptors)
    (made : rx.step config .store = some after) : after.Safe config base (done + 1) := by
  simp only [step] at made
  split at made
  swap
  · cases made
  rename_i nbRx i rxdp j nbDd storing
  have phase := safe.phase
  rw [storing] at phase
  obtain ⟨same, group, inside⟩ := phase
  have place := group.place
  have position := group.done
  have count := group.count
  have above := safe.base_le
  have arrived := safe.delivered_le
  have header := safe.header ⟨_, _, _, _, _, storing⟩
  have quiet : rx.phase.allocates = false := by
    rw [storing]
    rfl
  rw [group.index] at made
  cases made
  have last := safe.received_lt pos
  have next := @afterPacket_safe rx.received.length base (done + 1) nbRx i rxdp (j + 1) nbDd
    config ⟨place, by omega, count, group.arrived⟩ inside (by omega)
  refine { safe with
    base_le := Nat.le_succ_of_le above, done_le := Nat.le_of_eq same.symm
    filled := ?_, empty := ?_, buffers := { safe.buffers with kept := ?_ }
    phase := ?_, header := ?_ }
  · intro n lo hi
    have filled := safe.filled n lo hi
    have apart := handled_apart same lo (Nat.lt_trans hi last)
    simp only [Filled, update_of_ne apart]
    exact filled
  · intro n lo hi
    rcases Nat.lt_or_ge n (done + config.numRxDescriptors) with before | reached
    · have empty := safe.empty n lo before
      have apart := handled_apart same (Nat.le_trans arrived lo) before
      simp only [Empty, update_of_ne apart]
      exact empty
    · have turn : n % config.numRxDescriptors = done % config.numRxDescriptors := by
        rw [show n = done + config.numRxDescriptors by omega, Nat.add_mod_right]
      simp only [Empty, turn, update_self, header]
  · intro buffer mem index lt equal
    exact absurd equal (safe.buffers.apart quiet mem lt)
  · rw [same]
    exact next
  · rintro ⟨_, _, _, _, _, storing⟩
    exact absurd storing ((afterPacket_goes_on _ _ _ _ _ _).2 _ _ _ _ _)

/-! ## Giving descriptors back, and filling them -/

section

variable (safe : rx.Safe config base done)
include safe

theorem Safe.tailStep (pos : 0 < config.numRxDescriptors) (fits : config.numRxDescriptors < 2 ^ 16)
    (made : rx.step config .tail = some after) :
    after.Safe config done done := by
  simp only [step] at made
  split at made
  swap
  · cases made
  rename_i nbRx ending
  have phase := safe.phase
  rw [ending] at phase
  obtain ⟨same, position, least⟩ := phase
  have quiet : rx.phase.allocates = false := by
    rw [ending]
    rfl
  have turn := safe.turn
  have arrived := safe.delivered_le
  have below := Nat.mod_lt base pos
  have total : wrap 32 (rx.rxTail + nbRx) = base % config.numRxDescriptors + nbRx := by
    rw [safe.tail]
    exact wrap_of_lt (by omega)
  have place : (base % config.numRxDescriptors + nbRx) % config.numRxDescriptors =
      done % config.numRxDescriptors := by
    rw [Nat.mod_add_mod, position]
  have small : wrap 16 (done % config.numRxDescriptors) = done % config.numRxDescriptors :=
    wrap_of_lt (Nat.lt_trans (Nat.mod_lt _ pos) fits)
  have register : wrapSub 32 (base % config.numRxDescriptors + nbRx) 1 % config.numRxDescriptors =
      (done + (config.numRxDescriptors - 1)) % config.numRxDescriptors := by
    rw [wrapSub_of_le (by omega) (by omega), Nat.add_sub_assoc least, Nat.mod_add_mod,
      show done + (config.numRxDescriptors - 1) =
        base + (nbRx - 1) + config.numRxDescriptors by omega, Nat.add_mod_right]
  rw [total, place, small, register] at made
  cases made
  refine { safe with
    tail := rfl, rdt := rfl, base_le := Nat.le_refl _, turn := ?_
    buffers := { safe.buffers with kept := ?_ }, phase := ⟨same, rfl⟩, header := ?_ }
  · exact Nat.le_trans turn (Nat.add_le_add_right safe.base_le _)
  · intro buffer mem index lt equal
    exact absurd equal (safe.buffers.apart quiet mem lt)
  · rintro ⟨_, _, _, _, _, storing⟩
    cases storing

theorem Safe.fill {lo hi : Nat} (nonempty : 0 < config.numRxDescriptors)
    (ready : (RxDesc.mk lo hi).dd = 1) (made : rx.step config (.fill lo hi) = some after) :
    after.Safe config base done := by
  simp only [step] at made
  split_ifs at made with owned
  have last := safe.received_lt nonempty
  have room : rx.received.length < base + (config.numRxDescriptors - 1) := by
    refine Nat.lt_of_le_of_ne safe.turn fun full => owned ?_
    rw [safe.rdh, safe.rdt, full]
  have empty := safe.empty rx.received.length (Nat.le_refl _) last
  rw [safe.rdh, empty] at made
  cases made
  have handled := safe.done_le
  have arrived := safe.delivered_le
  have phase := safe.phase.arrive
  have apart : ∀ n, done ≤ n → n < done + config.numRxDescriptors →
      n ≠ rx.received.length → n % config.numRxDescriptors ≠
        rx.received.length % config.numRxDescriptors :=
    fun n lo hi => cell_ne_of_turn lo hi (by omega) last
  have longer : (rx.received ++ [((rx.rxBuf (rx.received.length %
      config.numRxDescriptors)).physAddr, (RxDesc.mk lo hi).length)]).length =
      rx.received.length + 1 := List.length_append
  refine { safe with
    rdh := ?_, delivered_le := ?_, turn := ?_, calls := ?_, filled := ?_, empty := ?_
    buffers := { safe.buffers with }, phase := ?_, header := ?_ }
  · rw [longer, Nat.mod_add_mod]
  · rw [longer]
    exact Nat.le_succ_of_le arrived
  · rw [longer]
    exact room
  · rw [List.take_append_of_le_length arrived]
    exact safe.calls
  · intro n lo hi
    rw [longer] at hi
    rcases Nat.lt_succ_iff_lt_or_eq.mp hi with before | rfl
    · have filled := safe.filled n lo before
      have ne := apart n (Nat.le_trans handled lo) (Nat.lt_trans before last)
        (Nat.ne_of_lt before)
      simp only [Filled, update_of_ne ne, List.getElem?_append_left before]
      exact filled
    · simp only [Filled, update_self, List.getElem?_concat_length]
      exact ⟨ready, trivial⟩
  · intro n lo hi
    rw [longer] at lo
    have empty := safe.empty n (Nat.le_of_succ_le lo) hi
    have ne := apart n (by omega) hi (by omega)
    simp only [Empty, update_of_ne ne]
    exact empty
  · rw [longer]
    exact phase
  · rintro ⟨nbRx, i, rxdp, j, nbDd, storing⟩
    have known := safe.phase
    rw [storing] at known
    have same := known.1
    have ne := apart done (Nat.le_refl _) (by omega) (by omega)
    simp only [update_of_ne ne]
    exact safe.header ⟨nbRx, i, rxdp, j, nbDd, storing⟩

theorem Safe.free {buf : Nat} (made : rx.step config (.free buf) = some after) :
    after.Safe config base done := by
  cases made
  refine { safe with buffers := { safe.buffers with kept := ?_ } }
  intro o mem
  exact safe.buffers.kept o (List.mem_of_mem_erase mem)

theorem Safe.step {ev : Event} (large : lookAhead ≤ config.numRxDescriptors)
    (fits : config.numRxDescriptors < 2 ^ 16) (ok : rx.Environment config ev)
    (step : rx.step config ev = some after) :
    ∃ base done, after.Safe config base done := by
  have pos : 0 < config.numRxDescriptors := Nat.lt_of_lt_of_le (by decide) large
  cases ev with
  | interrupt => exact ⟨base, done, safe.interrupt step⟩
  | read => exact ⟨base, done, safe.read large step⟩
  | receive answer => exact ⟨base, done, safe.receive pos step⟩
  | reset fresh => exact ⟨base, done, safe.reset pos ok step⟩
  | store => exact ⟨base, done + 1, safe.store pos step⟩
  | tail => exact ⟨done, done, safe.tailStep pos fits step⟩
  | fill lower upper => exact ⟨base, done, safe.fill pos ok step⟩
  | free buffer => exact ⟨base, done, safe.free step⟩

end

/-! ## Whole runs -/

structure InOrder (config : RxConfig) (rx : RxQueue) : Prop where
  /-- The calls of `receive_packet` are for the packets received, in their order. -/
  calls : rx.delivered.length ≤ rx.received.length ∧
    (rx.delivered.map fun call => (config.getPhysAddr call.1, call.2)) =
      rx.received.take rx.delivered.length
  /-- The handler ends only when there has been a call for each packet. -/
  complete : ∀ after, rx.step config .read = some after → after.phase = .idle →
    after.delivered.length = after.received.length
  /-- The descriptor that is handled has been filled with the next packet. -/
  handled : ∀ nbRx i rxdp j nbDd, rx.phase = .receive nbRx i rxdp j nbDd →
    rx.delivered.length < rx.received.length ∧
      (rxdp + j) % config.numRxDescriptors = rx.delivered.length % config.numRxDescriptors ∧
      (rx.desc ((rxdp + j) % config.numRxDescriptors)).dd = 1
  /-- The hardware has no buffer that the stack has kept. -/
  kept : ∀ buffer ∈ rx.kept, ∀ index, rx.Owned config index →
    (rx.desc index).pktAddr ≠ config.getPhysAddr buffer ∧
      (rx.desc index).hdrAddr ≠ config.getPhysAddr buffer

/-- The descriptors of the hardware are empty ones. -/
theorem Safe.owned (safe : rx.Safe config base done) (nonempty : 0 < config.numRxDescriptors)
    (owned : rx.Owned config i) :
    ∃ n, rx.received.length ≤ n ∧ n < base + (config.numRxDescriptors - 1) ∧
      i = n % config.numRxDescriptors := by
  obtain ⟨off, lt, rfl⟩ := owned
  have above := safe.base_le
  have handled := safe.done_le
  have arrived := safe.delivered_le
  obtain ⟨room, whole⟩ := Nat.exists_eq_add_of_le safe.turn
  rw [safe.rdt, safe.rdh, whole, mod_distance _ (by omega)] at lt
  refine ⟨rx.received.length + off, by omega, by omega, ?_⟩
  rw [safe.rdh, Nat.mod_add_mod]

theorem Safe.inOrder (safe : rx.Safe config base done)
    (large : lookAhead ≤ config.numRxDescriptors) : rx.InOrder config := by
  have nonempty : 0 < config.numRxDescriptors := Nat.lt_of_lt_of_le (by decide) large
  have above := safe.base_le
  refine ⟨⟨safe.delivered_le, safe.calls⟩, ?_, ?_, ?_⟩
  · intro after step ended
    simp only [RxQueue.step] at step
    split at step
    · rename_i checking
      have status := safe.check nonempty checking
      split_ifs at step with missing
      · cases step
        cases ended
      · cases step
        rw [status] at missing
        have arrived := safe.delivered_le
        by_contra ne
        exact missing (if_pos (Nat.lt_of_le_of_ne arrived ne))
    · cases step
      exact absurd ended (scanStatus_goes_on _ _ _ _ _ _).1
    · cases step
  · intro nbRx i rxdp j nbDd receiving
    have phase := safe.phase
    rw [receiving] at phase
    obtain ⟨same, group, inside⟩ := phase
    have arrived := group.arrived
    have position := group.done
    have index : (rxdp + j) % config.numRxDescriptors =
        rx.delivered.length % config.numRxDescriptors := by
      rw [same, group.index]
    have behind : rx.delivered.length < rx.received.length := by omega
    refine ⟨behind, index, ?_⟩
    rw [index]
    exact (safe.filled _ (Nat.le_refl _) behind).1
  · intro buf mem index owned
    obtain ⟨n, lo, upper, rfl⟩ := safe.owned nonempty owned
    have apart : (rx.rxBuf (n % config.numRxDescriptors)).physAddr ≠ config.getPhysAddr buf := by
      intro equal
      obtain ⟨allocates, place⟩ := safe.buffers.kept buf mem _ (Nat.mod_lt _ nonempty) equal
      exact handled_apart (safe.phase.allocates allocates)
        (Nat.le_trans safe.delivered_le lo) (by omega) place
    rw [safe.empty n lo (by omega)]
    exact ⟨apart, apart⟩

theorem receive_in_order {buffer : Nat → Nat} (large : 64 ≤ config.numRxDescriptors)
    (fits : config.numRxDescriptors < 2 ^ 16)
    (even : ∀ index < config.numRxDescriptors, config.getPhysAddr (buffer index) % 2 = 0)
    (distinct : ∀ first < config.numRxDescriptors, ∀ second < config.numRxDescriptors,
      config.getPhysAddr (buffer first) = config.getPhysAddr (buffer second) → first = second)
    (reached :
      Reaches (RxQueue.step config) (Environment config) (RxQueue.start config buffer) rx) :
    rx.InOrder config := by
  have ahead : lookAhead ≤ config.numRxDescriptors := Nat.le_trans (by decide) large
  have known : ∃ base done, rx.Safe config base done := by
    refine reached.invariant (motive := fun rx => ∃ base done, rx.Safe config base done)
      ⟨0, 0, start_safe even distinct (by omega)⟩ ?_
    rintro before after event ⟨base, done, safe⟩ allowed stepped
    exact safe.step ahead fits allowed stepped
  obtain ⟨base, done, safe⟩ := known
  exact safe.inOrder ahead

/-- Three packets arrive, the last of them while the second is handled; the stack keeps the first
    and the last, and the handler ends when it finds no other. -/
theorem receive_in_order_three :
    ∃ rx, Reaches (RxQueue.step ⟨64, fun virt => 2 * virt⟩) (Environment ⟨64, fun virt => 2 * virt⟩)
        (RxQueue.start ⟨64, fun virt => 2 * virt⟩ id) rx ∧
      rx.delivered = [(0, 60), (1, 70), (2, 80)] ∧ rx.kept = [2, 0] ∧ rx.phase = .idle ∧
      rx.InOrder ⟨64, fun virt => 2 * virt⟩ := by
  have executed : ∃ rx ∈ execute (RxQueue.step ⟨64, fun virt => 2 * virt⟩)
      (Environment ⟨64, fun virt => 2 * virt⟩)
      ([.fill 0 (60 * 2 ^ 32 + 3), .fill 0 (70 * 2 ^ 32 + 3), .interrupt] ++
        List.replicate 9 .read ++ [.receive .keepThisPacket, .reset 1000, .store,
          .receive .reuseThisPacket, .fill 0 (80 * 2 ^ 32 + 3), .reset 0, .store, .tail] ++
        List.replicate 9 .read ++ [.receive .keepThisPacket, .reset 1001, .store, .tail, .read])
      (RxQueue.start ⟨64, fun virt => 2 * virt⟩ id),
      rx.delivered = [(0, 60), (1, 70), (2, 80)] ∧ rx.kept = [2, 0] ∧ rx.phase = .idle := by
    decide +kernel
  obtain ⟨rx, reached, delivered, kept, ended⟩ := exists_reaches_of_execute executed
  refine ⟨rx, reached, delivered, kept, ended, ?_⟩
  refine receive_in_order (by decide) (by decide) ?_ ?_ reached
  · intro index _
    exact Nat.mul_mod_right 2 index
  · intro first _ second _ same
    exact Nat.eq_of_mul_eq_mul_left Nat.zero_lt_two same

end RxQueue

end Xdk.X540
