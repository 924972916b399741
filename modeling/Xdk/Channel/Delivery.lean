import Xdk.Channel.Circbuffer
import Xdk.Lib.Holding

/-! # Every item is delivered once

A position of the channel is occupied from the moment the producer counts it in `_head`
until the consumer that has claimed it has marked its slot.  The slot of an occupied
position has its item, and since that item is not the dummy address, the producer stays away
from the slot.  So occupied positions never share a slot: a consumer that is late with its
mark erases nothing but its own item, and no more than `SIZE` items are stored.
-/

namespace Xdk.Channel

open Xdk.Lib Function Circbuffer

def ConsumerPc.claims : ConsumerPc → Option Nat
  | .loadSlot temp | .markSlot temp _ => some temp
  | _ => none

section Ownership

variable {Consumer : Type*}

def Occupied (ring : Circbuffer) (claims : Consumer → Option Nat) (position : Nat) : Prop :=
  ring.tail ≤ position ∧ position < ring.head ∨ ∃ consumer, claims consumer = some position

structure Owned (size : Size) (ring : Circbuffer) (accepted : List Nat)
    (returned : List (Consumer × Nat × Nat)) (claims : Consumer → Option Nat) : Prop where
  head : ring.head = accepted.length
  limit : accepted.length < 2 ^ 32
  behind : ring.tail ≤ ring.head
  items : ∀ item ∈ accepted, item ≠ dummyAddr
  content : ∀ position, Occupied ring claims position →
    accepted[position]? = some (ring.buffer (Circbuffer.slot size position))
  apart : ∀ first second, Occupied ring claims first → Occupied ring claims second →
    Circbuffer.slot size first = Circbuffer.slot size second → first = second
  alone : Exclusive claims
  -- a position below `_tail` is claimed or has been returned, and not both
  passed : ∀ position, position < ring.tail ↔
    (∃ consumer, claims consumer = some position) ∨ position ∈ returned.map fun entry => entry.2.1
  finished : ∀ consumer position, claims consumer = some position →
    position ∉ returned.map fun entry => entry.2.1
  once : (returned.map fun entry => entry.2.1).Nodup
  got : ∀ entry ∈ returned, accepted[entry.2.1]? = some entry.2.2

variable {size : Size} {ring : Circbuffer} {accepted : List Nat}
  {returned : List (Consumer × Nat × Nat)} {claims : Consumer → Option Nat}

theorem owned_init (size : Size) : Owned size .init [] [] fun _ : Consumer => none := by
  have nothing : ∀ position, ¬ Occupied .init (fun _ : Consumer => none) position := by
    rintro position (⟨_, below⟩ | ⟨_, claimed⟩)
    · exact absurd below (Nat.not_lt_zero _)
    · cases claimed
  have initial : (init.head = 0 ∧ init.tail = 0) := ⟨rfl, rfl⟩
  constructor <;> simp [nothing, initial, exclusive_none]

/-! ### Claiming and giving back -/

theorem Owned.claim_tail (owned : Owned size ring accepted returned claims)
    (stored : ring.tail < ring.head) : (ring.claim ring.tail).tail = ring.tail + 1 := by
  have limit := owned.limit
  have head := owned.head
  exact wrap_of_lt (by omega)

section Claims

variable [DecidableEq Consumer] {consumer : Consumer} {position : Nat}

section

variable (owned : Owned size ring accepted returned claims)
include owned

/-- The position that is claimed was stored. -/
theorem Owned.occupied_claim (stored : ring.tail < ring.head)
    (occupied : Occupied (ring.claim ring.tail)
      (update claims consumer (some ring.tail)) position) :
    Occupied ring claims position := by
  obtain ⟨lo, hi⟩ | ⟨c, claimed⟩ := occupied
  · rw [owned.claim_tail stored] at lo
    exact .inl ⟨by omega, hi⟩
  · obtain ⟨_, same⟩ | ⟨_, old⟩ := update_eq_some_iff.mp claimed
    · obtain rfl := Option.some.inj same
      exact .inl ⟨Nat.le_refl _, stored⟩
    · exact .inr ⟨c, old⟩

/-- A consumer claims the oldest item. -/
theorem Owned.claim (free : claims consumer = none) (stored : ring.tail < ring.head) :
    Owned size (ring.claim ring.tail) accepted returned
      (update claims consumer (some ring.tail)) := by
  have moved := owned.claim_tail stored
  have unclaimed : ∀ c, claims c ≠ some ring.tail := fun c old =>
    absurd ((owned.passed _).mpr (.inl ⟨c, old⟩)) (Nat.lt_irrefl _)
  refine
    { owned with
      behind := by rw [moved]; exact stored
      content := fun p isOccupied =>
        owned.content p (owned.occupied_claim stored isOccupied)
      apart := fun a b isFirst isSecond =>
        owned.apart a b (owned.occupied_claim stored isFirst)
          (owned.occupied_claim stored isSecond)
      alone := owned.alone.take unclaimed
      passed := fun p => ?_
      finished := fun c p isClaimed => ?_ }
  · rw [moved, exists_update_some_iff free, Nat.lt_succ_iff_lt_or_eq, owned.passed]
    tauto
  · rw [update_eq_some_iff] at isClaimed
    obtain ⟨rfl, same⟩ | ⟨_, old⟩ := isClaimed
    · intro wasReturned
      have lt := (owned.passed p).mpr (.inr wasReturned)
      rw [← Option.some.inj same] at lt
      exact absurd lt (Nat.lt_irrefl _)
    · exact owned.finished c p old

/-- The position that is given back is no longer occupied. -/
theorem Owned.occupied_mark (claimed : claims consumer = some position) {other : Nat}
    (occupied : Occupied (ring.markSlot size position) (update claims consumer none) other) :
    Occupied ring claims other ∧ other ≠ position := by
  obtain ⟨lo, hi⟩ | ⟨c, isClaim⟩ := occupied
  · have below := (owned.passed position).mpr (.inl ⟨consumer, claimed⟩)
    have lo : ring.tail ≤ other := lo
    exact ⟨.inl ⟨lo, hi⟩, by omega⟩
  · obtain ⟨old, ne⟩ := owned.alone.update_none claimed isClaim
    exact ⟨.inr ⟨c, old⟩, ne⟩

/-- A consumer gives its slot back. -/
theorem Owned.mark {x : Nat} (claimed : claims consumer = some position)
    (got : accepted[position]? = some x) :
    Owned size (ring.markSlot size position) accepted (returned ++ [(consumer, position, x)])
      (update claims consumer none) := by
  have occupied : ∀ {o}, Occupied (ring.markSlot size position)
      (update claims consumer none) o →
        Occupied ring claims o ∧ o ≠ position := owned.occupied_mark claimed
  have mine : Occupied ring claims position := .inr ⟨consumer, claimed⟩
  have positions : (returned ++ [(consumer, position, x)]).map (fun e => e.2.1) =
      (returned.map fun e => e.2.1) ++ [position] := by simp
  refine
    { owned with
      content := fun o isOccupied => ?_
      apart := fun a b isFirst isSecond =>
        owned.apart a b (occupied isFirst).1 (occupied isSecond).1
      alone := owned.alone.give claimed
      passed := fun o => ?_
      finished := fun c o isClaim => ?_
      once := ?_
      got := fun e mem => ?_ }
  · obtain ⟨old, ne⟩ := occupied isOccupied
    have elsewhere : slot size o ≠ slot size position :=
      fun same => ne (owned.apart o position old mine same)
    rw [owned.content o old]
    simp only [markSlot, update_of_ne elsewhere]
  · rw [positions, List.mem_append, List.mem_singleton]
    refine (owned.passed o).trans ?_
    rw [owned.alone.exists_update_none_iff claimed]
    by_cases same : o = position
    · subst same
      exact iff_of_true (.inl ⟨consumer, claimed⟩) (.inr (.inr rfl))
    · simp [same]
  · obtain ⟨old, ne⟩ := owned.alone.update_none claimed isClaim
    rw [positions, List.mem_append, List.mem_singleton]
    rintro (wasReturned | same)
    · exact owned.finished c o old wasReturned
    · exact ne same
  · rw [positions, List.nodup_append]
    refine ⟨owned.once, by simp, fun a wasReturned b isLast => ?_⟩
    obtain rfl := List.mem_singleton.mp isLast
    rintro rfl
    exact owned.finished consumer a claimed wasReturned
  · rw [List.mem_append, List.mem_singleton] at mem
    obtain old | rfl := mem
    · exact owned.got e old
    · exact got

end

end Claims

/-! ### Producing -/

def NextFree (size : Size) (ring : Circbuffer) (claims : Consumer → Option Nat) : Prop :=
  ∀ position, Occupied ring claims position →
    Circbuffer.slot size position ≠ Circbuffer.slot size ring.head

section

variable (owned : Owned size ring accepted returned claims)
include owned

/-- The mark says that the slot is free. -/
theorem Owned.nextFree (marked : ring.buffer (Circbuffer.slot size ring.head) = dummyAddr) :
    NextFree size ring claims := by
  intro p occupied same
  have content := owned.content p occupied
  rw [same, marked] at content
  exact owned.items dummyAddr (List.mem_of_getElem? content) rfl

theorem Owned.store (free : NextFree size ring claims) (x : Nat) :
    Owned size (ring.storeSlot size x) accepted returned claims := by
  refine { owned with content := fun p occupied => ?_ }
  simp only [storeSlot, update_of_ne (free p occupied)]
  exact owned.content p occupied

/-- The item in the next slot becomes the last one accepted. -/
theorem Owned.addHead {item : Nat} (free : NextFree size ring claims)
    (content : ring.buffer (Circbuffer.slot size ring.head) = item) (genuine : item ≠ dummyAddr)
    (limit : accepted.length + 1 < 2 ^ 32) :
    Owned size ring.addHead (accepted ++ [item]) returned claims := by
  have head := owned.head
  have moved : ring.addHead.head = ring.head + 1 := wrap_of_lt (by omega)
  have occupied : ∀ {position}, Occupied ring.addHead claims position →
      Occupied ring claims position ∨ position = ring.head := by
    rintro position (⟨lo, upper⟩ | claimed)
    · rw [moved] at upper
      by_cases last : position = ring.head
      · exact .inr last
      · exact .inl (.inl ⟨lo, by omega⟩)
    · exact .inl (.inr claimed)
  have old : ∀ {position value : Nat}, accepted[position]? = some value →
      (accepted ++ [item])[position]? = some value := by
    intro position value present
    obtain ⟨inside, _⟩ := List.getElem?_eq_some_iff.mp present
    rw [List.getElem?_append_left inside]
    exact present
  refine
    { owned with
      head := by rw [moved, List.length_append, head]; rfl
      limit := by rw [List.length_append]; exact limit
      behind := by rw [moved]; exact Nat.le_succ_of_le owned.behind
      items := fun value mem => ?_
      content := fun position isOccupied => ?_
      apart := fun a b isFirst isSecond same => ?_
      got := fun e mem => old (owned.got e mem) }
  · rw [List.mem_append, List.mem_singleton] at mem
    obtain mem | rfl := mem
    · exact owned.items value mem
    · exact genuine
  · obtain before | rfl := occupied isOccupied
    · exact old (owned.content position before)
    · rw [Circbuffer.addHead, content, head]
      exact List.getElem?_concat_length
  · obtain beforeFirst | rfl := occupied isFirst <;> obtain beforeSecond | rfl := occupied isSecond
    · exact owned.apart a b beforeFirst beforeSecond same
    · exact absurd same (free a beforeFirst)
    · exact absurd same.symm (free b beforeSecond)
    · rfl

end

end Ownership

/-! ## The parties -/

namespace Parties

variable {Consumer : Type*}

/-- No item is the dummy address, and fewer than 2^32 items are accepted. -/
def Allowed (s : Parties Consumer) : ChannelEvent Consumer → Prop
  | .produce item => item ≠ dummyAddr
  | .producer =>
    match s.producer with
    | .addHead _ => s.accepted.length + 1 < 2 ^ 32
    | _ => True
  | .consume _ | .consumer _ => True

instance (s : Parties Consumer) (event : ChannelEvent Consumer) : Decidable (s.Allowed event) :=
  match event with
  | .produce item => inferInstanceAs (Decidable (item ≠ dummyAddr))
  | .producer =>
    match pc : s.producer with
    | .addHead _ =>
      decidable_of_iff (s.accepted.length + 1 < 2 ^ 32) (by simp only [Allowed, pc])
    | .idle | .loadHead _ | .loadTail _ _ | .checkSlot _ | .storeSlot _ | .done _ =>
      isTrue (by simp only [Allowed, pc])
  | .consume _ | .consumer _ => isTrue trivial

def claims (s : Parties Consumer) (consumer : Consumer) : Option Nat :=
  (s.consumers consumer).claims

def ConsumerAt (ring : Circbuffer) (accepted : List Nat) : ConsumerPc → Prop
  | .loadHead temp => temp ≤ ring.tail
  | .cas temp => temp < ring.head
  | .markSlot temp item => accepted[temp]? = some item
  | .idle | .loadTail | .loadSlot _ | .done _ => True

def ProducerAt (size : Size) (ring : Circbuffer) (claims : Consumer → Option Nat) :
    ProducerPc → Prop
  | .loadHead item | .loadTail item _ | .checkSlot item => item ≠ dummyAddr
  | .storeSlot item => item ≠ dummyAddr ∧ NextFree size ring claims
  | .addHead item => item ≠ dummyAddr ∧ NextFree size ring claims ∧
      ring.buffer (Circbuffer.slot size ring.head) = item
  | .idle | .done _ => True

structure Consistent (size : Size) (s : Parties Consumer) : Prop where
  owned : Owned size s.ring s.accepted s.returned s.claims
  consumers : ∀ consumer, ConsumerAt s.ring s.accepted (s.consumers consumer)
  producer : ProducerAt size s.ring s.claims s.producer

section Steps

variable {size : Size} {s s' : Parties Consumer}

theorem consistent_init (size : Size) : Consistent size (init : Parties Consumer) :=
  ⟨owned_init size, fun _ => trivial, trivial⟩

theorem ConsumerAt.mono {ring ring' : Circbuffer} {accepted accepted' : List Nat} {pc : ConsumerPc}
    (known : ConsumerAt ring accepted pc) (tail : ring.tail ≤ ring'.tail)
    (head : ring.head ≤ ring'.head) (more : accepted <+: accepted') :
    ConsumerAt ring' accepted' pc := by
  cases pc with
  | loadHead temp => exact Nat.le_trans known tail
  | cas temp => exact Nat.lt_of_lt_of_le known head
  | markSlot temp item =>
    obtain ⟨inside, same⟩ := List.getElem?_eq_some_iff.mp known
    obtain ⟨rest, rfl⟩ := more
    rw [ConsumerAt, List.getElem?_append_left inside]
    exact known
  | idle | loadTail | loadSlot | done => trivial

/-- What the producer knows stays true while consumers claim items and give slots back. -/
theorem ProducerAt.mono {ring ring' : Circbuffer} {claims claims' : Consumer → Option Nat}
    {pc : ProducerPc} (known : ProducerAt size ring claims pc) (head : ring'.head = ring.head)
    (fewer : ∀ p, Occupied ring' claims' p → Occupied ring claims p)
    (content : NextFree size ring claims →
      ring'.buffer (Circbuffer.slot size ring.head) =
        ring.buffer (Circbuffer.slot size ring.head)) :
    ProducerAt size ring' claims' pc := by
  have free : NextFree size ring claims → NextFree size ring' claims' := by
    intro free p occupied
    rw [head]
    exact free p (fewer p occupied)
  cases pc with
  | loadHead x | loadTail x _ | checkSlot x => exact known
  | storeSlot x => exact ⟨known.1, free known.2⟩
  | addHead x =>
    refine ⟨known.1, free known.2.1, ?_⟩
    rw [head, content known.2.1]
    exact known.2.2
  | idle | done => trivial

theorem Consistent.produceStep (inv : Consistent size s) (ok : s.Allowed .producer)
    (step : s.produceStep size = some s') : Consistent size s' := by
  have known := inv.producer
  have owned := inv.owned
  simp only [Allowed] at ok
  simp only [Parties.produceStep] at step
  generalize pc : s.producer = access at step known ok
  cases access with
  | idle =>
    cases step
  | loadHead x =>
    cases step
    exact { inv with producer := known }
  | loadTail x head =>
    cases step
    refine { inv with producer := ?_ }
    split
    · trivial
    · exact known
  | checkSlot x =>
    cases step
    refine { inv with producer := ?_ }
    split
    · rename_i marked
      exact ⟨known, owned.nextFree marked⟩
    · trivial
  | storeSlot x =>
    cases step
    obtain ⟨genuine, free⟩ := known
    refine ⟨owned.store free x, inv.consumers, genuine, free, ?_⟩
    simp only [storeSlot, update_self]
  | addHead x =>
    cases step
    obtain ⟨genuine, free, content⟩ := known
    have next := owned.addHead free content genuine ok
    refine ⟨next, fun c => ?_, trivial⟩
    refine (inv.consumers c).mono (Nat.le_refl _) ?_ (List.prefix_append _ _)
    rw [next.head, owned.head, List.length_append]
    exact Nat.le_add_right _ _
  | done status =>
    cases step
    exact { inv with producer := trivial }

variable [DecidableEq Consumer]

theorem claims_setPc (s : Parties Consumer) (c : Consumer) (pc : ConsumerPc) :
    (s.setPc c pc).claims = update s.claims c pc.claims :=
  comp_update ConsumerPc.claims s.consumers c pc

variable {consumer : Consumer}

/-- A step of a consumer that neither claims nor gives back. -/
theorem Consistent.setPc {pc : ConsumerPc} (inv : Consistent size s)
    (same : pc.claims = s.claims consumer) (known : ConsumerAt s.ring s.accepted pc) :
    Consistent size (s.setPc consumer pc) := by
  have claims : (s.setPc consumer pc).claims = s.claims := by
    rw [claims_setPc, same, update_eq_self]
  refine ⟨?_, ?_, ?_⟩
  · rw [claims]
    exact inv.owned
  · exact (forall_update_iff _ fun _ pc => ConsumerAt s.ring s.accepted pc).mpr
      ⟨known, fun c _ => inv.consumers c⟩
  · rw [claims]
    exact inv.producer

theorem Consistent.claim (inv : Consistent size s) (pc : s.consumers consumer = .cas s.ring.tail) :
    Consistent size
      { s.setPc consumer (.loadSlot s.ring.tail) with ring := s.ring.claim s.ring.tail } := by
  have stored : s.ring.tail < s.ring.head := by
    have known := inv.consumers consumer
    rwa [pc] at known
  have free : s.claims consumer = none := by rw [claims, pc]; rfl
  have owned := inv.owned
  have moved := owned.claim_tail stored
  have claims := claims_setPc s consumer (.loadSlot s.ring.tail)
  refine ⟨?_, fun c => ?_, ?_⟩
  · exact claims ▸ owned.claim free stored
  · have known : ∀ c, ConsumerAt s.ring s.accepted
        ((s.setPc consumer (.loadSlot s.ring.tail)).consumers c) :=
      (forall_update_iff _ fun _ pc => ConsumerAt s.ring s.accepted pc).mpr
        ⟨trivial, fun c _ => inv.consumers c⟩
    refine (known c).mono ?_ (Nat.le_refl _) (List.prefix_refl _)
    dsimp only
    omega
  · refine inv.producer.mono rfl (fun position occupied => ?_) fun _ => rfl
    exact owned.occupied_claim stored (claims ▸ occupied)

theorem Consistent.mark {position item : Nat} (inv : Consistent size s)
    (pc : s.consumers consumer = .markSlot position item) :
    Consistent size { s.setPc consumer (.done .ok) with
      ring := s.ring.markSlot size position
      returned := s.returned ++ [(consumer, position, item)] } := by
  have got : s.accepted[position]? = some item := by
    have known := inv.consumers consumer
    rwa [pc] at known
  have claimed : s.claims consumer = some position := by rw [claims, pc]; rfl
  have owned := inv.owned
  have claims := claims_setPc s consumer (.done .ok)
  refine ⟨?_, fun c => ?_, ?_⟩
  · exact claims ▸ owned.mark claimed got
  · have known : ∀ c, ConsumerAt s.ring s.accepted ((s.setPc consumer (.done .ok)).consumers c) :=
      (forall_update_iff _ fun _ pc => ConsumerAt s.ring s.accepted pc).mpr
        ⟨trivial, fun c _ => inv.consumers c⟩
    exact known c
  · refine inv.producer.mono rfl (fun other occupied => ?_) fun free => ?_
    · exact (owned.occupied_mark claimed (claims ▸ occupied)).1
    · have elsewhere := free position (.inr ⟨consumer, claimed⟩)
      simp only [markSlot, update_of_ne elsewhere.symm]

theorem Consistent.consumeStep (inv : Consistent size s)
    (step : s.consumeStep size consumer = some s') : Consistent size s' := by
  have known := inv.consumers consumer
  have owned := inv.owned
  have limit := owned.limit
  have head := owned.head
  have behind := owned.behind
  simp only [Parties.consumeStep] at step
  generalize pc : s.consumers consumer = access at step known
  cases access with
  | idle =>
    cases step
  | loadTail =>
    cases step
    exact inv.setPc (by rw [claims, pc]; rfl) (wrap_le _ _)
  | loadHead temp =>
    cases step
    have known : temp ≤ s.ring.tail := known
    split
    · exact inv.setPc (by rw [claims, pc]; rfl) trivial
    · rename_i notEmpty
      refine inv.setPc (by rw [claims, pc]; rfl) ?_
      rw [seesEmpty, decide_eq_true_iff,
        wrapSub_of_le (by omega) (by omega)] at notEmpty
      simp only [ConsumerAt]
      omega
  | cas temp =>
    dsimp only at step
    split at step
    · rename_i same
      subst same
      cases step
      exact inv.claim pc
    · cases step
      exact inv.setPc (by rw [claims, pc]; rfl) trivial
  | loadSlot temp =>
    cases step
    have claimed : s.claims consumer = some temp := by rw [claims, pc]; rfl
    exact inv.setPc claimed.symm (owned.content temp (.inr ⟨consumer, claimed⟩))
  | markSlot temp item =>
    cases step
    exact inv.mark pc
  | done status =>
    cases step
    exact inv.setPc (by rw [claims, pc]; rfl) trivial

theorem Consistent.step {ev : ChannelEvent Consumer} (inv : Consistent size s)
    (ok : s.Allowed ev) (step : s.step size ev = some s') : Consistent size s' := by
  cases ev with
  | produce item =>
    simp only [Parties.step] at step
    split at step
    · cases step
      refine { inv with producer := ?_ }
      split
      · trivial
      · exact ok
    · cases step
  | producer => exact inv.produceStep ok step
  | consume consumer =>
    simp only [Parties.step] at step
    split at step
    · rename_i idle
      cases step
      exact inv.setPc (by rw [claims, idle]; rfl) trivial
    · cases step
  | consumer consumer => exact inv.consumeStep step

theorem consistent_reaches
    (run : Reaches (fun s ev => s.step size ev) Allowed (init : Parties Consumer) s) :
    Consistent size s :=
  run.invariant (motive := Consistent size) (consistent_init size)
    fun inv ok step => inv.step ok step

end Steps

/-! ## What the channel promises -/

/-- How often calls of `consume` have returned the item that was accepted as number `k`. -/
def timesReturned (s : Parties Consumer) (k : Nat) : Nat :=
  (s.returned.map fun entry => entry.2.1).count k

/-- Every item that was accepted is stored, on its way to one consumer or was returned
    once. -/
structure Delivered (size : Size) (s : Parties Consumer) : Prop where
  stored : ∀ k, s.ring.tail ≤ k → k < s.accepted.length →
    s.accepted[k]? = some (s.ring.buffer (Circbuffer.slot size k))
  once : ∀ k, k < s.accepted.length →
    (s.ring.tail ≤ k ∧ s.timesReturned k = 0 ∧ ¬ ∃ consumer, s.claims consumer = some k) ∨
    (k < s.ring.tail ∧ s.timesReturned k = 0 ∧ ∃! consumer, s.claims consumer = some k) ∨
    (k < s.ring.tail ∧ s.timesReturned k = 1 ∧ ¬ ∃ consumer, s.claims consumer = some k)
  -- whoever moves `_tail` from `k` to `k + 1` has item number `k`
  moved : ∀ consumer k, s.consumers consumer = .cas k → s.ring.tail = k →
    k < s.accepted.length ∧ (s.ring.claim k).tail = k + 1
  copied : ∀ consumer k, s.consumers consumer = .loadSlot k →
    s.accepted[k]? = some (s.ring.buffer (Circbuffer.slot size k))
  got : ∀ consumer k item, s.consumers consumer = .markSlot k item → s.accepted[k]? = some item
  result : ∀ entry ∈ s.returned, s.accepted[entry.2.1]? = some entry.2.2
  -- a mark that is still to come leaves every stored item alone, and the one being written
  late : ∀ consumer k item, s.consumers consumer = .markSlot k item →
    (∀ other, s.ring.tail ≤ other → other < s.accepted.length →
      ((s.ring.markSlot size k).buffer (Circbuffer.slot size other) =
        s.ring.buffer (Circbuffer.slot size other))) ∧
    ∀ newest, s.producer = .addHead newest →
      (s.ring.markSlot size k).buffer (Circbuffer.slot size s.ring.head) = newest
  bounded : s.ring.head = s.accepted.length ∧ s.ring.tail ≤ s.ring.head ∧
    s.ring.head - s.ring.tail ≤ size.items

section Contract

variable {size : Size} {s : Parties Consumer}

/-- Two stored positions that are `SIZE` apart would share a slot. -/
theorem Consistent.stored_le (inv : Consistent size s) :
    s.ring.head - s.ring.tail ≤ size.items := by
  by_contra more
  have owned := inv.owned
  have pos := size.pos
  have same := owned.apart s.ring.tail (s.ring.tail + size.items)
    (.inl ⟨Nat.le_refl _, by omega⟩) (.inl ⟨by omega, by omega⟩)
    (by simp only [slot, Nat.add_mod_right])
  omega

theorem Consistent.once (inv : Consistent size s) (k : Nat) :
    (s.ring.tail ≤ k ∧ s.timesReturned k = 0 ∧ ¬ ∃ consumer, s.claims consumer = some k) ∨
    (k < s.ring.tail ∧ s.timesReturned k = 0 ∧ ∃! consumer, s.claims consumer = some k) ∨
    (k < s.ring.tail ∧ s.timesReturned k = 1 ∧ ¬ ∃ consumer, s.claims consumer = some k) := by
  have owned := inv.owned
  have passed := owned.passed k
  rw [Parties.timesReturned, owned.once.count]
  by_cases lt : k < s.ring.tail
  · obtain ⟨consumer, claimed⟩ | returned := passed.mp lt
    · refine .inr (.inl ⟨lt, if_neg (owned.finished consumer k claimed), consumer, claimed, ?_⟩)
      exact fun o isClaim => owned.alone o consumer k isClaim claimed
    · refine .inr (.inr ⟨lt, if_pos returned, ?_⟩)
      rintro ⟨consumer, claimed⟩
      exact owned.finished consumer k claimed returned
  · refine .inl ⟨Nat.le_of_not_lt lt, if_neg ?_, ?_⟩
    · exact fun returned => lt (passed.mpr (.inr returned))
    · exact fun claimed => lt (passed.mpr (.inl claimed))

/-- The mark of a consumer erases its own item only. -/
theorem Consistent.late {c : Consumer} {k x : Nat} (inv : Consistent size s)
    (pc : s.consumers c = .markSlot k x) :
    (∀ o, s.ring.tail ≤ o → o < s.accepted.length →
      ((s.ring.markSlot size k).buffer (Circbuffer.slot size o) =
        s.ring.buffer (Circbuffer.slot size o))) ∧
    ∀ newest, s.producer = .addHead newest →
      (s.ring.markSlot size k).buffer (Circbuffer.slot size s.ring.head) = newest := by
  have owned := inv.owned
  have claimed : s.claims c = some k := by rw [claims, pc]; rfl
  have below := (owned.passed k).mpr (.inl ⟨c, claimed⟩)
  constructor
  · intro o lo hi
    have elsewhere : slot size o ≠ slot size k := by
      intro same
      have := owned.apart o k (.inl ⟨lo, owned.head ▸ hi⟩) (.inr ⟨c, claimed⟩) same
      omega
    simp only [markSlot, update_of_ne elsewhere]
  · intro newest writing
    have known := inv.producer
    rw [writing] at known
    obtain ⟨_, free, content⟩ := known
    have elsewhere := free k (.inr ⟨c, claimed⟩)
    simp only [markSlot, update_of_ne elsewhere.symm]
    exact content

variable [DecidableEq Consumer]

/-- Every run with fewer than 2^32 items, none of them the dummy address, keeps the promise
    of the channel. -/
theorem spmc_circular_buffer_delivers (size : Size) (s : Parties Consumer)
    (run : Reaches (fun s event => s.step size event) Allowed init s) : Delivered size s := by
  have consistent := consistent_reaches run
  have owned := consistent.owned
  have head := owned.head
  refine
    { stored := fun k lower upper => owned.content k (.inl ⟨lower, by omega⟩)
      once := fun k _ => consistent.once k
      moved := ?_
      copied := ?_
      got := ?_
      result := owned.got
      late := fun consumer k item pc => consistent.late pc
      bounded := ⟨head, owned.behind, consistent.stored_le⟩ }
  · rintro consumer k pc rfl
    have known := consistent.consumers consumer
    rw [pc] at known
    exact ⟨head ▸ known, owned.claim_tail known⟩
  · intro consumer k pc
    refine owned.content k (.inr ⟨consumer, ?_⟩)
    rw [claims, pc]
    rfl
  · intro consumer k item pc
    have known := consistent.consumers consumer
    rwa [pc] at known

/-- The first consumer has claimed item 3 and is late with its mark; the second one has
    returned item 5 in the meantime, and item 7 has been accepted. -/
theorem spmc_circular_buffer_delivers_late : ∃ s : Parties Bool,
    Reaches (fun s event => s.step fourSlots event) Allowed init s ∧
      s.consumers false = .markSlot 0 3 ∧ s.returned = [(true, 1, 5)] ∧
      s.accepted = [3, 5, 7] ∧ Delivered fourSlots s := by
  have executed : ∃ s ∈ execute (fun (s : Parties Bool) event => s.step fourSlots event) Allowed
      [.produce 3, .producer, .producer, .producer, .producer, .producer, .producer,
        .consume false, .consumer false, .consumer false, .consumer false, .consumer false,
        .produce 5, .producer, .producer, .producer, .producer, .producer, .producer,
        .consume true, .consumer true, .consumer true, .consumer true, .consumer true,
        .consumer true, .produce 7, .producer, .producer, .producer, .producer, .producer] init,
      s.consumers false = .markSlot 0 3 ∧ s.returned = [(true, 1, 5)] ∧
      s.accepted = [3, 5, 7] := by
    decide +kernel
  obtain ⟨s, run, late, returned, accepted⟩ := exists_reaches_of_execute executed
  exact ⟨s, run, late, returned, accepted, spmc_circular_buffer_delivers _ s run⟩

end Contract

end Parties

end Xdk.Channel
