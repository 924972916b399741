import Mathlib.Data.List.GetD
import Xdk.E1000.Receive
import Xdk.Lib.Ring

/-! # Order of the receive path

Two things apart the handler does what it should: if every frame fits into one descriptor, and the
hardware fills only descriptors that are clear, the channel gets each frame for this host once
and in order.

The descriptors filled are numbered; number `q` is at index `q % 1024`.  The handler has reset
those below `done`, and is at the one with the number `base`.
-/

namespace Xdk.E1000

open Xdk.Lib Function

/-- Every frame comes in one descriptor, which is clear before, and is long enough for the tests
    of the handler (an Ethernet frame has at least 60 bytes). -/
def Receiver.Gentle (s : Receiver) : RxEvent → Prop
  | .receive chunk =>
    chunk.endOfPacket = true ∧ 42 ≤ chunk.bytes.length ∧ (s.rxDesc s.rdh).status &&& 1 = 0
  | _ => True

instance (s : Receiver) (event : RxEvent) : Decidable (s.Gentle event) :=
  match event with
  | .receive _ => inferInstanceAs (Decidable (_ ∧ _))
  | .interrupt | .access | .cause _ => isTrue trivial

/-! ## The tests -/

/-- The handler looks at the first 42 bytes. -/
theorem accepts_congr {config : RxConfig} {first second : Nat → UInt8}
    (same : ∀ pos < 42, first pos = second pos) :
    accepts config first = accepts config second := by
  have target : ((List.range' 38 4).all fun pos => (first pos).toUInt32 == config.ip (pos - 38)) =
      (List.range' 38 4).all fun pos => (second pos).toUInt32 == config.ip (pos - 38) := by
    simp [List.range', same]
  have destination : ∀ test : Nat → UInt8 → Bool,
      ((List.range 6).all fun pos => test pos (first pos)) =
        (List.range 6).all fun pos => test pos (second pos) := by
    simp [List.range, List.range.loop, same]
  rw [accepts, accepts, isArp, isArp, sentToMe, sentToMe, target, same 12 (by decide),
    same 13 (by decide), destination fun _ byte => byte == 0xFF,
    destination fun pos byte => config.mac pos == byte]

/-! ## Phases -/

def RxPhase.Place (base done delivered received : Nat) : RxPhase → Prop
  | .idle | .readStatus | .panicked => delivered = base ∧ done = base
  | .test status => (delivered = base ∧ done = base) ∧ (status &&& 1 ≠ 0 → base < received)
  | .checkErrors | .readLength | .deliver _ => (delivered = base ∧ done = base) ∧ base < received
  | .reset => delivered = base + 1 ∧ done = base ∧ base < received
  | .writeTail | .advance => delivered = base + 1 ∧ done = base + 1

def RxPhase.isDeliver : RxPhase → Bool
  | .deliver _ => true
  | _ => false

variable {phase : RxPhase}

theorem RxPhase.ne_deliver (ne : phase.isDeliver = false) (pktlen : UInt16) :
    phase ≠ .deliver pktlen := by
  rintro rfl
  cases ne

theorem RxPhase.Place.arrive {base done delivered received : Nat}
    (place : phase.Place base done delivered received) :
    phase.Place base done delivered (received + 1) := by
  cases phase with
  | idle | readStatus | panicked | writeTail | advance => exact place
  | test => exact ⟨place.1, fun set => Nat.lt_succ_of_lt (place.2 set)⟩
  | checkErrors | readLength | deliver => exact ⟨place.1, Nat.lt_succ_of_lt place.2⟩
  | reset => exact ⟨place.1, place.2.1, Nat.lt_succ_of_lt place.2.2⟩

theorem RxPhase.Place.looked {base done delivered received : Nat}
    (place : phase.Place base done delivered received) (lower : done ≤ received) :
    delivered ≤ received := by
  cases phase <;> simp only [RxPhase.Place] at place <;> omega

theorem resetRxDesc_clear (config : RxConfig) (i : Nat) :
    (resetRxDesc config i).status &&& 1 = 0 :=
  show (0 : UInt8) &&& 1 = 0 by decide

theorem Chunk.status_set (c : Chunk) : c.status &&& 1 ≠ 0 := by
  rw [Chunk.status]
  split <;> decide

theorem Chunk.copy_inside (c : Chunk) (a : Nat) (memory : Nat → UInt8) {pos : Nat}
    (inside : pos < c.bytes.length) :
    c.copy a memory (a + pos) = c.bytes.getD pos 0 := by
  rw [Chunk.copy, if_pos ⟨by omega, by omega⟩, Nat.add_sub_cancel_left]

theorem Chunk.copy_outside (c : Chunk) {a place : Nat} (memory : Nat → UInt8)
    (outside : place < a ∨ a + c.bytes.length ≤ place) :
    c.copy a memory place = memory place :=
  if_neg (by omega)

namespace Receiver

/-! ## Descriptors -/

structure Holds (config : RxConfig) (s : Receiver) (index : Nat) (chunk : Chunk) : Prop where
  status : (s.rxDesc (index % numRxDescriptors)).status = chunk.status
  length : (s.rxDesc (index % numRxDescriptors)).length = UInt16.ofNat chunk.bytes.length
  bytes : ∀ pos < chunk.bytes.length,
    s.rxPkt (config.pktP + index % numRxDescriptors * pktMaxSize + pos) = chunk.bytes.getD pos 0

/-- The descriptors from `done` on hold what has been received, and the others are clear. -/
structure Descriptors (config : RxConfig) (s : Receiver) (done : Nat) : Prop where
  head : s.rdh = s.received.length % numRxDescriptors
  lower : done ≤ s.received.length
  upper : s.received.length ≤ done + numRxDescriptors
  frames : ∀ chunk ∈ s.received, chunk.endOfPacket = true ∧ 42 ≤ chunk.bytes.length ∧
    chunk.bytes.length ≤ pktMaxSize
  address : ∀ index < numRxDescriptors,
    (s.rxDesc index).address = config.pktP + index * pktMaxSize
  holds : ∀ index chunk, done ≤ index → s.received[index]? = some chunk →
    s.Holds config index chunk
  clear : ∀ index, s.received.length ≤ index → index < done + numRxDescriptors →
    (s.rxDesc (index % numRxDescriptors)).status &&& 1 = 0

/-- What the channel has got, by the descriptors that the handler has looked at. -/
structure History (config : RxConfig) (s : Receiver) : Prop where
  order : s.produced.Pairwise fun first second => first.1 < second.1
  below : ∀ entry ∈ s.produced, entry.1 < s.delivered
  origin : ∀ entry ∈ s.produced, ∃ chunk, s.received[entry.1]? = some chunk ∧
    entry.2 = chunk.bytes
  kept : ∀ index < s.delivered, ∀ chunk, s.received[index]? = some chunk →
    accepts config (chunk.bytes.getD · 0) = true → index ∈ s.produced.map Prod.fst

structure Ordered (config : RxConfig) (s : Receiver) (base done : Nat) : Prop where
  pos : s.rxBufPos = base % numRxDescriptors
  place : s.phase.Place base done s.delivered s.received.length
  pktlen : ∀ pktlen, s.phase = .deliver pktlen → ∀ chunk, s.received[base]? = some chunk →
    pktlen = UInt16.ofNat chunk.bytes.length
  descriptors : s.Descriptors config done
  history : s.History config

variable {config : RxConfig} {isUp : Bool} {s s' : Receiver} {base done : Nat}

theorem ordered_init : (rxInit config isUp).Ordered config 0 0 where
  pos := rfl
  place := ⟨rfl, rfl⟩
  pktlen := by simp [rxInit]
  descriptors :=
    { head := rfl
      lower := le_rfl
      upper := Nat.zero_le _
      frames := by simp [rxInit]
      address := fun _ _ => rfl
      holds := by simp [rxInit]
      clear := fun _ _ _ => resetRxDesc_clear _ _ }
  history := ⟨.nil, by simp [rxInit], by simp [rxInit], by simp [rxInit]⟩

/-- A descriptor that is not clear has been filled. -/
theorem Descriptors.filled (descriptors : s.Descriptors config done)
    (set : (s.rxDesc (done % numRxDescriptors)).status &&& 1 ≠ 0) : done < s.received.length := by
  by_contra missing
  have positive : 0 < numRxDescriptors := by decide
  exact set (descriptors.clear done (by omega) (by omega))

/-- The hardware may fill a descriptor that is clear. -/
theorem Descriptors.room (descriptors : s.Descriptors config done)
    (clear : (s.rxDesc s.rdh).status &&& 1 = 0) : s.received.length < done + numRxDescriptors := by
  by_contra full
  have turn : s.received.length = done + numRxDescriptors := by
    have := descriptors.upper
    omega
  have positive : 0 < numRxDescriptors := by decide
  obtain ⟨chunk, first⟩ : ∃ chunk, s.received[done]? = some chunk :=
    ⟨_, List.getElem?_eq_getElem (by omega)⟩
  have holds := descriptors.holds done chunk le_rfl first
  rw [descriptors.head, turn, Nat.add_mod_right, holds.status] at clear
  exact chunk.status_set clear

variable {i : Nat} {chunk : Chunk}

section

variable (holds : s.Holds config i chunk) (pos : s.rxBufPos = i % numRxDescriptors)
include holds pos

/-- The packet that the handler looks at. -/
theorem Holds.pkt {byte : Nat} (inside : byte < chunk.bytes.length) :
    s.pkt config byte = chunk.bytes.getD byte 0 := by
  rw [Receiver.pkt, pos]
  exact holds.bytes byte inside

theorem Holds.item (small : chunk.bytes.length ≤ pktMaxSize) :
    (List.range (UInt16.ofNat chunk.bytes.length).toNat).map (s.pkt config) = chunk.bytes := by
  have len : (UInt16.ofNat chunk.bytes.length).toNat = chunk.bytes.length :=
    UInt16.toNat_ofNat_of_lt' (Nat.lt_of_le_of_lt small (by decide))
  rw [len]
  refine List.ext_getElem (by simp) fun byte _ inside => ?_
  rw [List.getElem_map, List.getElem_range, holds.pkt pos inside, List.getD_eq_getElem _ _ inside]

end

theorem Holds.congr {i : Nat} {chunk : Chunk} (holds : s.Holds config i chunk)
    (desc : s'.rxDesc (i % numRxDescriptors) = s.rxDesc (i % numRxDescriptors))
    (bytes : ∀ pos < chunk.bytes.length,
      s'.rxPkt (config.pktP + i % numRxDescriptors * pktMaxSize + pos) =
        s.rxPkt (config.pktP + i % numRxDescriptors * pktMaxSize + pos)) :
    s'.Holds config i chunk := by
  refine ⟨?_, ?_, fun pos inside => (bytes pos inside).trans (holds.bytes pos inside)⟩
  · rw [desc, holds.status]
  · rw [desc, holds.length]

section

variable (descriptors : s.Descriptors config done)
include descriptors

theorem Descriptors.congr (desc : s'.rxDesc = s.rxDesc) (memory : s'.rxPkt = s.rxPkt)
    (head : s'.rdh = s.rdh) (received : s'.received = s.received) :
    s'.Descriptors config done := by
  obtain ⟨head', lo, hi, frames, address, holds, clear⟩ := descriptors
  rw [← received] at head' lo hi frames holds clear
  rw [← desc] at address clear
  refine ⟨head.trans head', lo, hi, frames, address, fun i c atLeast mem => ?_,
    clear⟩
  exact (holds i c atLeast mem).congr (by rw [desc]) fun _ _ => by rw [memory]

theorem Descriptors.reset (arrived : done < s.received.length)
    (pos : s.rxBufPos = done % numRxDescriptors) (phase : RxPhase) :
    Descriptors config { s with
      rxDesc := update s.rxDesc s.rxBufPos (resetRxDesc config s.rxBufPos)
      phase := phase } (done + 1) := by
  have upper := descriptors.upper
  refine ⟨descriptors.head, arrived, by change s.received.length ≤ _; omega, descriptors.frames,
    ?_, ?_, ?_⟩
  · intro i inside
    change (update s.rxDesc s.rxBufPos (resetRxDesc config s.rxBufPos) i).address = _
    by_cases own : i = s.rxBufPos
    · rw [own, update_self]
      rfl
    · rw [update_of_ne own]
      exact descriptors.address i inside
  · intro i c later mem
    have inside : i < s.received.length := (List.getElem?_eq_some_iff.mp mem).1
    have ne : i % numRxDescriptors ≠ s.rxBufPos := by
      rw [pos]
      exact cell_ne_of_turn (Nat.le_of_succ_le later) (by omega) le_rfl
        (Nat.lt_add_of_pos_right (by decide)) (by omega)
    exact (descriptors.holds i c (by omega) mem).congr (update_of_ne ne _ _)
      fun _ _ => rfl
  · intro i lo bound
    change (update s.rxDesc s.rxBufPos (resetRxDesc config s.rxBufPos)
      (i % numRxDescriptors)).status &&& 1 = 0
    by_cases own : i % numRxDescriptors = s.rxBufPos
    · rw [own, update_self]
      exact resetRxDesc_clear _ _
    · rw [update_of_ne own]
      refine descriptors.clear i lo ?_
      by_contra turn
      have last : i = done + numRxDescriptors := by omega
      rw [last, Nat.add_mod_right, ← pos] at own
      exact own rfl

/-- A number of the same turn has another descriptor. -/
theorem Descriptors.elsewhere (free : (s.rxDesc s.rdh).status &&& 1 = 0) (atLeast : done ≤ i)
    (lt : i < done + numRxDescriptors) (ne : i ≠ s.received.length) :
    i % numRxDescriptors ≠ s.rdh := by
  rw [descriptors.head]
  exact cell_ne_of_turn atLeast lt descriptors.lower (descriptors.room free) ne

end

/-- What is in the other descriptors and their buffers stays. -/
theorem Holds.receive {other : Chunk} (holds : s.Holds config i other)
    (target : (s.rxDesc s.rdh).address = config.pktP + s.rdh * pktMaxSize)
    (apart : i % numRxDescriptors ≠ s.rdh) (small : other.bytes.length ≤ pktMaxSize)
    (step : s.receive chunk = some s') : s'.Holds config i other := by
  simp only [Receiver.receive] at step
  split at step
  swap
  · cases step
  next owned =>
  cases step
  refine holds.congr (update_of_ne apart _ _) fun pos inside => ?_
  refine chunk.copy_outside _ ?_
  rw [target]
  have fits := owned.2
  simp only [pktMaxSize] at fits small ⊢
  omega

/-- The hardware fills the next descriptor. -/
theorem Descriptors.receive (descriptors : s.Descriptors config done)
    (gentle : s.Gentle (.receive chunk)) (step : s.receive chunk = some s') :
    s'.Descriptors config done := by
  obtain ⟨whole, long, free⟩ := gentle
  have room := descriptors.room free
  have lower := descriptors.lower
  have target : (s.rxDesc s.rdh).address = config.pktP + s.rdh * pktMaxSize := by
    refine descriptors.address s.rdh ?_
    rw [descriptors.head]
    exact Nat.mod_lt _ (by decide)
  have others : ∀ i other, done ≤ i → s.received[i]? = some other →
      s'.Holds config i other := by
    intro i other atLeast mem
    have inside := (List.getElem?_eq_some_iff.mp mem).1
    exact (descriptors.holds i other atLeast mem).receive target
      (descriptors.elsewhere free atLeast (by omega) (by omega))
      (descriptors.frames other (List.mem_of_getElem? mem)).2.2 step
  simp only [Receiver.receive] at step
  split at step
  swap
  · cases step
  next owned =>
  cases step
  refine ⟨?_, ?_, ?_, ?_, ?_, ?_, ?_⟩
  · simp only [List.length_append, List.length_singleton, descriptors.head, Nat.mod_add_mod]
  · simp only [List.length_append]
    omega
  · simp only [List.length_append, List.length_singleton]
    omega
  · intro other mem
    rcases List.mem_append.mp mem with old | new
    · exact descriptors.frames other old
    · obtain rfl := List.mem_singleton.mp new
      exact ⟨whole, long, owned.2⟩
  · intro i inside
    change (update s.rxDesc s.rdh _ i).address = _
    by_cases own : i = s.rdh
    · subst own
      rw [update_self]
      exact target
    · rw [update_of_ne own]
      exact descriptors.address i inside
  · intro i other atLeast mem
    rcases Nat.lt_trichotomy i s.received.length with old | rfl | beyond
    · rw [List.getElem?_append_left old] at mem
      exact others i other atLeast mem
    · rw [List.getElem?_concat_length] at mem
      cases mem
      have own : update s.rxDesc s.rdh (chunk.writeBack (s.rxDesc s.rdh))
          (s.received.length % numRxDescriptors) = chunk.writeBack (s.rxDesc s.rdh) := by
        rw [← descriptors.head, update_self]
      refine ⟨congrArg RxDesc.status own, congrArg RxDesc.length own, fun pos inside => ?_⟩
      rw [← descriptors.head, ← target]
      exact chunk.copy_inside _ _ inside
    · rw [List.getElem?_eq_none (by simp; omega)] at mem
      cases mem
  · intro i atLeast lt
    simp only [List.length_append, List.length_singleton] at atLeast
    change (update s.rxDesc s.rdh _ _).status &&& 1 = 0
    rw [update_of_ne (descriptors.elsewhere free (by omega) lt (by omega))]
    exact descriptors.clear i (by omega) lt

/-! ## The channel -/

theorem History.receive (history : s.History config) (looked : s.delivered ≤ s.received.length)
    (received : s'.received = s.received ++ [chunk]) (delivered : s'.delivered = s.delivered)
    (produced : s'.produced = s.produced) :
    s'.History config := by
  refine ⟨by rw [produced]; exact history.order, ?_, ?_, ?_⟩
  · rw [produced, delivered]
    exact history.below
  · intro e mem
    rw [produced] at mem
    obtain ⟨o, found, bytes⟩ := history.origin e mem
    have inside := (List.getElem?_eq_some_iff.mp found).1
    exact ⟨o, by rw [received, List.getElem?_append_left inside, found], bytes⟩
  · intro i lt o found accepted
    rw [delivered] at lt
    rw [received, List.getElem?_append_left (by omega)] at found
    rw [produced]
    exact history.kept i lt o found accepted

/-- The handler looks at the next packet and hands it on if it is meant for this host. -/
theorem History.deliver {c : Chunk} {pkt : Nat → UInt8} (history : s.History config)
    (next : s.received[s.delivered]? = some c)
    (same : accepts config pkt = accepts config (c.bytes.getD · 0))
    (received : s'.received = s.received) (delivered : s'.delivered = s.delivered + 1)
    (produced : s'.produced =
      if accepts config pkt then s.produced ++ [(s.delivered, c.bytes)] else s.produced) :
    s'.History config := by
  have added : ∀ e ∈ s'.produced, e ∈ s.produced ∨ e = (s.delivered, c.bytes) := by
    intro e mem
    rw [produced] at mem
    split at mem
    · rcases List.mem_append.mp mem with old | new
      · exact .inl old
      · exact .inr (List.mem_singleton.mp new)
    · exact .inl mem
  have kept : ∀ e ∈ s.produced, e ∈ s'.produced := by
    intro e mem
    rw [produced]
    split
    · exact List.mem_append_left _ mem
    · exact mem
  refine ⟨?_, ?_, ?_, ?_⟩
  · rw [produced]
    split
    · refine List.pairwise_append.mpr ⟨history.order, List.pairwise_singleton _ _, ?_⟩
      intro a old second new
      obtain rfl := List.mem_singleton.mp new
      exact history.below a old
    · exact history.order
  · intro e mem
    rw [delivered]
    rcases added e mem with old | rfl
    · exact Nat.lt_succ_of_lt (history.below e old)
    · exact Nat.lt_succ_self _
  · intro e mem
    rw [received]
    rcases added e mem with old | rfl
    · exact history.origin e old
    · exact ⟨c, next, rfl⟩
  · intro i lt o found accepted
    rw [received] at found
    rw [delivered] at lt
    rcases Nat.lt_succ_iff_lt_or_eq.mp lt with earlier | rfl
    · obtain ⟨e, mem, n⟩ :=
        List.mem_map.mp (history.kept i earlier o found accepted)
      exact List.mem_map.mpr ⟨e, kept e mem, n⟩
    · rw [next] at found
      cases found
      rw [produced, same, if_pos accepted]
      simp

/-! ## Steps -/

def ring (s : Receiver) :
    (Nat → RxDesc) × (Nat → UInt8) × Nat × Nat × List Chunk × Nat × List (Nat × List UInt8) :=
  (s.rxDesc, s.rxPkt, s.rxBufPos, s.rdh, s.received, s.delivered, s.produced)

section

variable (ordered : s.Ordered config base done)
include ordered

section

variable (same : s'.ring = s.ring) (place : s'.phase.Place base done s.delivered s.received.length)
include same place

theorem Ordered.goto
    (pktlen : ∀ pktlen, s'.phase = .deliver pktlen → ∀ c, s.received[base]? = some c →
      pktlen = UInt16.ofNat c.bytes.length) :
    s'.Ordered config base done := by
  cases s'
  obtain ⟨rfl, rfl, rfl, rfl, rfl, rfl, rfl⟩ := same
  exact ⟨ordered.pos, place, pktlen, ordered.descriptors.congr rfl rfl rfl rfl,
    { ordered.history with }⟩

/-- The same, unless the handler has just read the length of a packet. -/
theorem Ordered.goto_other (ne : s'.phase.isDeliver = false) : s'.Ordered config base done :=
  ordered.goto same place fun pktlen phase => absurd phase (RxPhase.ne_deliver ne pktlen)

end

theorem Ordered.interrupt (idle : s.phase = .idle) : s.interrupt.Ordered config base done := by
  have place := ordered.place
  rw [idle] at place
  simp only [Receiver.interrupt]
  split
  · exact ordered.goto_other rfl place rfl
  · split
    · exact ordered.goto rfl ordered.place ordered.pktlen
    · exact ordered.goto rfl ordered.place ordered.pktlen

theorem Ordered.receive (gentle : s.Gentle (.receive chunk)) (step : s.receive chunk = some s') :
    s'.Ordered config base done := by
  have descriptors := ordered.descriptors.receive gentle step
  simp only [Receiver.receive] at step
  split at step
  swap
  · cases step
  cases step
  refine ⟨ordered.pos, ?_, fun pktlen phase o found => ?_, descriptors,
    ordered.history.receive (ordered.place.looked ordered.descriptors.lower) rfl rfl rfl⟩
  · simp only [List.length_append]
    exact ordered.place.arrive
  · have place := ordered.place
    rw [show s.phase = .deliver pktlen from phase] at place
    rw [List.getElem?_append_left place.2] at found
    exact ordered.pktlen pktlen phase o found

/-- The handler looks at a packet: what is in the buffer is the frame of the descriptor. -/
theorem Ordered.deliver {pktlen : UInt16} (phase : s.phase = .deliver pktlen)
    (step : s.access config = some s') : s'.Ordered config base done := by
  have place := ordered.place
  rw [phase] at place
  obtain ⟨⟨looked, reset⟩, arrived⟩ := place
  obtain ⟨chunk, found⟩ : ∃ chunk, s.received[base]? = some chunk :=
    ⟨_, List.getElem?_eq_getElem arrived⟩
  have holds := ordered.descriptors.holds base chunk (Nat.le_of_eq reset) found
  obtain ⟨-, long, small⟩ := ordered.descriptors.frames chunk (List.mem_of_getElem? found)
  have item := holds.item ordered.pos small
  rw [← ordered.pktlen pktlen phase chunk found] at item
  simp only [Receiver.access, phase, item] at step
  cases step
  refine ⟨ordered.pos, ⟨congrArg (· + 1) looked, reset, arrived⟩,
    fun pktlen phase => absurd phase (RxPhase.ne_deliver rfl pktlen),
    ordered.descriptors.congr rfl rfl rfl rfl, ?_⟩
  exact ordered.history.deliver (by rw [looked]; exact found)
    (accepts_congr fun byte inside => holds.pkt ordered.pos (by omega)) rfl rfl rfl

theorem Ordered.reset (phase : s.phase = .reset) (step : s.access config = some s') :
    s'.Ordered config base (done + 1) := by
  have place := ordered.place
  rw [phase] at place
  obtain ⟨looked, reset, arrived⟩ := place
  subst reset
  simp only [Receiver.access, phase] at step
  cases step
  exact ⟨ordered.pos, ⟨looked, rfl⟩,
    fun pktlen phase => absurd phase (RxPhase.ne_deliver rfl pktlen),
    ordered.descriptors.reset arrived ordered.pos .writeTail, { ordered.history with }⟩

theorem Ordered.advance (phase : s.phase = .advance) (step : s.access config = some s') :
    s'.Ordered config (base + 1) done := by
  have place := ordered.place
  rw [phase] at place
  simp only [Receiver.access, phase] at step
  cases step
  refine ⟨?_, place, fun pktlen phase => absurd phase (RxPhase.ne_deliver rfl pktlen),
    ordered.descriptors.congr rfl rfl rfl rfl, { ordered.history with }⟩
  rw [ordered.pos, Nat.mod_add_mod]

theorem Ordered.access (step : s.access config = some s') :
    ∃ base done, s'.Ordered config base done := by
  have place := ordered.place
  generalize phase : s.phase = access at place
  cases access with
  | deliver pktlen => exact ⟨base, done, ordered.deliver phase step⟩
  | reset => exact ⟨base, done + 1, ordered.reset phase step⟩
  | advance => exact ⟨base + 1, done, ordered.advance phase step⟩
  | idle | panicked =>
    simp only [Receiver.access, phase] at step
    cases step
  | readStatus =>
    simp only [Receiver.access, phase] at step
    cases step
    refine ⟨base, done, ordered.goto_other rfl ⟨place, fun set => ?_⟩ rfl⟩
    rw [ordered.pos, ← place.2] at set
    rw [← place.2]
    exact ordered.descriptors.filled set
  | test status =>
    simp only [Receiver.access, phase] at step
    split at step
    · cases step
      exact ⟨base, done, ordered.goto_other rfl place.1 rfl⟩
    next set =>
    split at step
    · cases step
      exact ⟨base, done, ordered.goto_other rfl place.1 rfl⟩
    · cases step
      exact ⟨base, done, ordered.goto_other rfl ⟨place.1, place.2 set⟩ rfl⟩
  | checkErrors =>
    simp only [Receiver.access, phase] at step
    split at step
    · cases step
      exact ⟨base, done, ordered.goto_other rfl place.1 rfl⟩
    · cases step
      exact ⟨base, done, ordered.goto_other rfl place rfl⟩
  | readLength =>
    simp only [Receiver.access, phase] at step
    cases step
    refine ⟨base, done, ordered.goto rfl place ?_⟩
    intro pktlen same c found
    cases same
    rw [ordered.pos]
    exact (ordered.descriptors.holds base c (Nat.le_of_eq place.1.2) found).length
  | writeTail =>
    simp only [Receiver.access, phase] at step
    cases step
    exact ⟨base, done, ordered.goto_other rfl place rfl⟩

theorem Ordered.step {ev : RxEvent} (gentle : s.Gentle ev) (step : s.step config ev = some s') :
    ∃ base done, s'.Ordered config base done := by
  cases ev with
  | interrupt =>
    simp only [Receiver.step] at step
    split at step
    next idle =>
      cases step
      exact ⟨base, done, ordered.interrupt idle⟩
    · cases step
  | access => exact ordered.access step
  | receive chunk => exact ⟨base, done, ordered.receive gentle step⟩
  | cause bits =>
    cases step
    exact ⟨base, done, ordered.goto rfl ordered.place ordered.pktlen⟩

end

/-- The channel gets the frames for this host, each once and in order. -/
theorem delivers_of_gentle
    (run : Reaches (step config) Gentle (rxInit config isUp) s) : s.Delivers config := by
  obtain ⟨base, done, ordered⟩ : ∃ base done, s.Ordered config base done :=
    run.invariant (motive := fun s => ∃ base done, s.Ordered config base done)
      ⟨0, 0, ordered_init⟩ fun ⟨_, _, ordered⟩ gentle made => ordered.step gentle made
  refine ⟨ordered.history.order, fun e mem => ?_, fun i lt c found _ =>
    ordered.history.kept i lt c found⟩
  obtain ⟨c, found, bytes⟩ := ordered.history.origin e mem
  exact ⟨c, found, (ordered.descriptors.frames c (List.mem_of_getElem? found)).1, bytes⟩

/-- A frame that fills its buffer. -/
theorem delivers_of_gentle_one :
    ∃ s, Reaches (step quietHost) Gentle (rxInit quietHost true) s ∧
      s.produced.map Prod.fst = [0] ∧ s.Delivers quietHost := by
  have executed : ∃ s ∈ execute (step quietHost) Gentle
      (.receive { firstPart with endOfPacket := true } :: oneDescriptor) (rxInit quietHost true),
      s.produced.map Prod.fst = [0] := by
    decide +kernel
  obtain ⟨s, run, produced⟩ := exists_reaches_of_execute executed
  exact ⟨s, run, produced, delivers_of_gentle run⟩

end Receiver

end Xdk.E1000
