import Xdk.FastSlab.Allocator
import Xdk.Nbb.Laps

/-! # Every block has one place

A block is in the buffer or with one thread.  The thread that has the lock of an end runs the
program of that end, so the two programs in the buffer are those of one consumer and one
producer.  A thread that inserts a block has it in its hands, and there are only as many blocks
as places: there always is room, whatever laps the counters are on.
-/

namespace Xdk.FastSlab

open Xdk.Lib Xdk.Nbb

/-- The block that a call of a thread carries to or from the buffer. -/
def Pc.carries : Pc → Option Nat
  | .readEnd header | .lockProd header | .insert header => some header
  | .unlockCons block | .allocated block | .free block | .unlockProd block => block
  | _ => none

namespace Allocator

variable {Thread : Type*}

def pooled (s : Allocator Thread) : List Nat := s.ring.inserted.drop s.ring.taken.length

/-- The blocks on the way between the buffer and the caller of a function. -/
def transit (s : Allocator Thread) : List (Thread × Nat) :=
  s.out.filter fun entry => (s.threads entry.1).carries = some entry.2

def held (s : Allocator Thread) : List (Thread × Nat) :=
  s.out.filter fun entry => ¬ (s.threads entry.1).carries = some entry.2

def Allowed (s : Allocator Thread) : SlabEvent Thread → Prop
  | .free thread (some block) => (thread, block) ∈ s.held
  | .free _ none | .alloc _ | .thread _ => True

/-! ## The invariant -/

def CarriesOwn (out : List (Thread × Nat)) (thread : Thread) (pc : Pc) : Prop :=
  ∀ block, pc.carries = some block → (thread, block) ∈ out

/-- What a thread knows of the locks and of the program it runs, by its next access. -/
def ThreadAt (s : Allocator Thread) (thread : Thread) : Pc → Prop
  | .read => s.consLock = some thread ∧ s.ring.consumer ≠ .idle ∧ s.ring.consumer ≠ .remember
  | .readEnd _ => s.consLock = some thread ∧ s.ring.consumer = .remember
  | .unlockCons _ => s.consLock = some thread ∧ s.ring.consumer = .idle
  | .insert header => s.prodLock = some thread ∧
      (s.ring.producer = .loadAc header ∨ s.ring.producer = .begin header ∨
        s.ring.producer = .storeSlot header ∨ s.ring.producer = .publish header)
  | .insertEnd => s.prodLock = some thread ∧ s.ring.producer = .remember
  | .unlockProd rejected => s.prodLock = some thread ∧ s.ring.producer = .idle ∧ rejected = none
  | .failed => False
  | .idle | .lockCons | .allocated _ | .free _ | .lockProd _ | .freed _ => True

structure Consistent (built : Built) (s : Allocator Thread) : Prop where
  lapped : Parties.Lapped built.shape s.ring
  conserved : (s.pooled ++ s.out.map Prod.snd).Perm built.blocks
  carried : ∀ thread, CarriesOwn s.out thread (s.threads thread)
  consumer : s.consLock = none → s.ring.consumer = .idle
  producer : s.prodLock = none → s.ring.producer = .idle
  threads : ∀ thread, s.ThreadAt thread (s.threads thread)

variable {built : Built} {s s' : Allocator Thread} {thread : Thread}

theorem ThreadAt.mono {t : Thread} {pc : Pc} (known : s.ThreadAt t pc)
    (cons : s.consLock = some t →
      s'.consLock = some t ∧ s'.ring.consumer = s.ring.consumer)
    (prod : s.prodLock = some t →
      s'.prodLock = some t ∧ s'.ring.producer = s.ring.producer) :
    s'.ThreadAt t pc := by
  cases pc with
  | read | readEnd | unlockCons =>
    obtain ⟨owner, same⟩ := cons known.1
    simp only [ThreadAt, owner, same, true_and]
    exact known.2
  | insert | insertEnd | unlockProd =>
    obtain ⟨owner, same⟩ := prod known.1
    simp only [ThreadAt, owner, same, true_and]
    exact known.2
  | failed => exact known
  | idle | lockCons | allocated | free | lockProd | freed => trivial

/-- As long as a thread has a block, there is room in the buffer. -/
theorem Consistent.room {b : Nat} (inv : Consistent built s)
    (places : built.blocks.length = built.shape.size) (mine : (thread, b) ∈ s.out) :
    s.ring.inserted.length < s.ring.taken.length + built.shape.size := by
  have total := inv.conserved.length_eq
  have some := List.length_pos_of_mem mine
  rw [List.length_append, List.length_map, pooled, List.length_drop] at total
  omega

theorem carriesOwn_none {out : List (Thread × Nat)} {pc : Pc} (none : pc.carries = none) :
    CarriesOwn out thread pc := by
  intro block some
  rw [none] at some
  cases some

/-- The item of the consumer leaves the buffer. -/
theorem Consistent.conserved_publishRead {hdr : Nat} (inv : Consistent built s)
    (publishes : s.ring.consumer = .publish hdr) :
    (s.ring.inserted.drop (s.ring.taken ++ [hdr]).length ++
      (s.out ++ [(thread, hdr)]).map Prod.snd).Perm built.blocks := by
  have consumer := inv.lapped.consumer
  rw [publishes] at consumer
  obtain ⟨_, _, first⟩ := consumer
  have pooled : s.pooled = hdr :: s.ring.inserted.drop (s.ring.taken ++ [hdr]).length := by
    rw [Allocator.pooled, List.drop_eq_getElem?_toList_append, first, List.length_append]
    rfl
  have conserved := inv.conserved
  rw [pooled] at conserved
  refine List.Perm.trans ?_ conserved
  rw [List.map_append, ← List.append_assoc]
  exact List.perm_append_singleton _ _

section Steps

variable [DecidableEq Thread] {thread : Thread}

/-! ### What a step can be -/

inductive AllocSteps (built : Built) (s : Allocator Thread) (thread : Thread) :
    Allocator Thread → Prop where
  | lock (pc : s.threads thread = .lockCons) (free : s.consLock = none) :
      AllocSteps built s thread { s.setPc thread .read with
        ring := { s.ring with consumer := .loadUc }
        consLock := some thread }
  | read {ring : Nbb.Parties Nat} (pc : s.threads thread = .read)
      (consumed : s.ring.consume built.shape = some ring) :
      AllocSteps built s thread { s.setPc thread (readNext s.ring) with
        ring := ring
        out := match s.ring.consumer with
          | .publish header => s.out ++ [(thread, header)]
          | _ => s.out }
  | readEnd {ring : Nbb.Parties Nat} {header : Nat} (pc : s.threads thread = .readEnd header)
      (consumed : s.ring.consume built.shape = some ring) :
      AllocSteps built s thread { s.setPc thread (.unlockCons (some header)) with ring := ring }
  | unlock {result : Option Nat} (pc : s.threads thread = .unlockCons result) :
      AllocSteps built s thread { s.setPc thread (.allocated result) with consLock := none }
  | leave {result : Option Nat} (pc : s.threads thread = .allocated result) :
      AllocSteps built s thread (s.setPc thread .idle)

theorem allocSteps_of_allocStep (step : s.allocStep built thread = some s') :
    AllocSteps built s thread s' := by
  simp only [Allocator.allocStep] at step
  generalize pc : s.threads thread = here at step
  cases here with
  | lockCons =>
    generalize lock : s.consLock = access at step
    cases access with
    | some owner =>
      cases step
    | none =>
      cases step
      exact .lock pc lock
  | read =>
    obtain ⟨ring, consumed, rfl⟩ := Option.map_eq_some_iff.mp step
    exact .read pc consumed
  | readEnd header =>
    obtain ⟨ring, consumed, rfl⟩ := Option.map_eq_some_iff.mp step
    exact .readEnd pc consumed
  | unlockCons res =>
    cases step
    exact .unlock pc
  | allocated res =>
    cases step
    exact .leave pc
  | _ =>
    cases step

inductive FreeSteps (built : Built) (s : Allocator Thread) (thread : Thread) :
    Allocator Thread → Prop where
  | null (pc : s.threads thread = .free none) :
      FreeSteps built s thread (s.setPc thread (.freed .badParam))
  | test {header : Nat} (pc : s.threads thread = .free (some header)) :
      FreeSteps built s thread (s.setPc thread
        (if header ∈ built.blocks then .lockProd header else .freed .badParam))
  | lock {header : Nat} (pc : s.threads thread = .lockProd header) (free : s.prodLock = none) :
      FreeSteps built s thread { s.setPc thread (.insert header) with
        ring := { s.ring with producer := .loadAc header }
        prodLock := some thread }
  | insert {ring : Nbb.Parties Nat} {header : Nat} (pc : s.threads thread = .insert header)
      (produced : s.ring.produce built.shape = some ring) :
      FreeSteps built s thread { s.setPc thread (insertNext built.shape s.ring header) with
        ring := ring
        out := match s.ring.producer with
          | .publish _ => s.out.erase (thread, header)
          | _ => s.out }
  | insertEnd {ring : Nbb.Parties Nat} (pc : s.threads thread = .insertEnd)
      (produced : s.ring.produce built.shape = some ring) :
      FreeSteps built s thread { s.setPc thread (.unlockProd none) with ring := ring }
  | unlock {rejected : Option Nat} (pc : s.threads thread = .unlockProd rejected) :
      FreeSteps built s thread
        { s.setPc thread (if rejected.isSome then .failed else .freed .ok) with prodLock := none }
  | leave {status : Status} (pc : s.threads thread = .freed status) :
      FreeSteps built s thread (s.setPc thread .idle)

theorem freeSteps_of_freeStep (step : s.freeStep built thread = some s') :
    FreeSteps built s thread s' := by
  simp only [Allocator.freeStep] at step
  generalize pc : s.threads thread = here at step
  cases here with
  | free b =>
    cases b with
    | none =>
      cases step
      exact .null pc
    | some hdr =>
      cases step
      exact .test pc
  | lockProd hdr =>
    generalize lock : s.prodLock = access at step
    cases access with
    | some owner =>
      cases step
    | none =>
      cases step
      exact .lock pc lock
  | insert hdr =>
    obtain ⟨ring, produced, rfl⟩ := Option.map_eq_some_iff.mp step
    exact .insert pc produced
  | insertEnd =>
    obtain ⟨ring, produced, rfl⟩ := Option.map_eq_some_iff.mp step
    exact .insertEnd pc produced
  | unlockProd rejected =>
    cases step
    exact .unlock pc
  | freed status =>
    cases step
    exact .leave pc
  | _ =>
    cases step

variable {pc : Pc}

theorem forall_threads_setPc {P : Thread → Pc → Prop} (known : P thread pc)
    (others : ∀ o ≠ thread, P o (s.threads o)) :
    ∀ o, P o ((s.setPc thread pc).threads o) :=
  (Function.forall_update_iff _ P).mpr ⟨known, others⟩

section

variable (inv : Consistent built s)
include inv

/-- A thread does something of its own. -/
theorem Consistent.setPc (carried : CarriesOwn s.out thread pc) (known : s.ThreadAt thread pc) :
    Consistent built (s.setPc thread pc) :=
  { inv with
    carried := forall_threads_setPc (P := CarriesOwn s.out) carried
      fun o _ => inv.carried o
    threads := forall_threads_setPc (known.mono (⟨·, rfl⟩) (⟨·, rfl⟩))
      fun o _ => (inv.threads o).mono (⟨·, rfl⟩) (⟨·, rfl⟩) }

variable {ring : Nbb.Parties Nat}

/-- A thread that has the consumer lock, or takes it when it is free, does something. -/
theorem Consistent.consumerMoves {consLock : Option Thread} {out : List (Thread × Nat)}
    (free : s.consLock = none ∨ s.consLock = some thread) (lapped : Parties.Lapped built.shape ring)
    (same : ring.producer = s.ring.producer) (idle : consLock = none → ring.consumer = .idle)
    (conserved : (ring.inserted.drop ring.taken.length ++ out.map Prod.snd).Perm built.blocks)
    (more : s.out ⊆ out) (carried : CarriesOwn out thread pc)
    (known : { s.setPc thread pc with ring, consLock, out }.ThreadAt thread pc) :
    Consistent built { s.setPc thread pc with ring, consLock, out } where
  lapped := lapped
  conserved := conserved
  carried := forall_threads_setPc (P := CarriesOwn out) carried fun o _ b held =>
    more (inv.carried o b held)
  consumer := idle
  producer := fun free => same.trans (inv.producer free)
  threads := forall_threads_setPc known fun o ne =>
    (inv.threads o).mono
      (fun owner => by
        obtain unlocked | mine := free
        · rw [unlocked] at owner
          cases owner
        · exact absurd (Option.some.inj (owner.symm.trans mine)) ne)
      fun owner => ⟨owner, same⟩

/-- A thread that has the producer lock, or takes it when it is free, does something. -/
theorem Consistent.producerMoves {prodLock : Option Thread} {out : List (Thread × Nat)}
    (free : s.prodLock = none ∨ s.prodLock = some thread) (lapped : Parties.Lapped built.shape ring)
    (same : ring.consumer = s.ring.consumer) (idle : prodLock = none → ring.producer = .idle)
    (conserved : (ring.inserted.drop ring.taken.length ++ out.map Prod.snd).Perm built.blocks)
    (others : ∀ o ≠ thread, ∀ b, (o, b) ∈ s.out → (o, b) ∈ out) (carried : CarriesOwn out thread pc)
    (known : { s.setPc thread pc with ring, prodLock, out }.ThreadAt thread pc) :
    Consistent built { s.setPc thread pc with ring, prodLock, out } where
  lapped := lapped
  conserved := conserved
  carried := forall_threads_setPc (P := CarriesOwn out) carried fun o ne b held =>
    others o ne b (inv.carried o b held)
  consumer := fun free => same.trans (inv.consumer free)
  producer := idle
  threads := forall_threads_setPc known fun o ne =>
    (inv.threads o).mono (fun owner => ⟨owner, same⟩)
      fun owner => by
        obtain unlocked | mine := free
        · rw [unlocked] at owner
          cases owner
        · exact absurd (Option.some.inj (owner.symm.trans mine)) ne

/-! ### `alloc` -/

theorem Consistent.read (ample : Shape.Ample built.shape) (pc : s.threads thread = .read)
    (consumed : s.ring.consume built.shape = some ring) :
    Consistent built { s.setPc thread (readNext s.ring) with
      ring := ring
      out := match s.ring.consumer with
        | .publish hdr => s.out ++ [(thread, hdr)]
        | _ => s.out } := by
  have lapped := inv.lapped.consume ample consumed
  have known := inv.threads thread
  rw [pc] at known
  obtain ⟨owner, running, unfinished⟩ := known
  have locked : ∀ {P : Prop}, s.consLock = none → P := by
    intro P free
    rw [owner] at free
    cases free
  simp only [Parties.consume] at consumed
  generalize access : s.ring.consumer = now at consumed
  cases now with
  | idle => exact absurd access running
  | remember => exact absurd access unfinished
  | loadUc =>
    cases consumed
    simp only [readNext, access]
    generalize check : SymmetricNbb.readCheck s.ring.nbb.lastAc s.ring.nbb.uc = here at lapped
    cases here with
    | some status =>
      exact inv.consumerMoves (.inr owner) lapped rfl (fun _ => rfl) inv.conserved
        (List.Subset.refl _) (carriesOwn_none rfl) ⟨owner, rfl⟩
    | none =>
      exact inv.consumerMoves (.inr owner) lapped rfl locked inv.conserved
        (List.Subset.refl _) (carriesOwn_none rfl) ⟨owner, by simp, by simp⟩
  | begin | loadSlot =>
    cases consumed
    simp only [readNext, access]
    exact inv.consumerMoves (.inr owner) lapped rfl locked inv.conserved
      (List.Subset.refl _) (carriesOwn_none rfl) ⟨owner, by simp, by simp⟩
  | publish hdr =>
    cases consumed
    simp only [readNext, access]
    refine inv.consumerMoves (.inr owner) lapped rfl locked
      (inv.conserved_publishRead access) (List.subset_append_left _ _) ?_ ⟨owner, rfl⟩
    rintro block same
    obtain rfl := Option.some.inj same
    exact List.mem_append_right _ (List.mem_singleton_self _)

theorem Consistent.allocStep (ample : Shape.Ample built.shape)
    (step : s.allocStep built thread = some s') : Consistent built s' := by
  have known := inv.threads thread
  have carried := inv.carried thread
  cases allocSteps_of_allocStep step with
  | lock pc free =>
    exact inv.consumerMoves (.inl free)
      (inv.lapped.readItem (inv.consumer free)) rfl nofun inv.conserved
      (List.Subset.refl _) (carriesOwn_none rfl) ⟨rfl, by simp, by simp⟩
  | read pc consumed => exact inv.read ample pc consumed
  | readEnd pc consumed =>
    rw [pc] at known carried
    obtain ⟨o, access⟩ := known
    have lapped := inv.lapped.consume ample consumed
    simp only [Parties.consume, access] at consumed
    cases consumed
    exact inv.consumerMoves (.inr o) lapped rfl (fun _ => rfl) inv.conserved
      (List.Subset.refl _) carried ⟨o, rfl⟩
  | unlock pc =>
    rw [pc] at known carried
    exact inv.consumerMoves (.inr known.1) inv.lapped rfl (fun _ => known.2)
      inv.conserved (List.Subset.refl _) carried trivial
  | leave pc => exact inv.setPc (carriesOwn_none rfl) trivial

/-! ### `free` -/

/-- The item of the producer is in the buffer. -/
theorem Consistent.conserved_publishInsert {hdr : Nat} (mine : (thread, hdr) ∈ s.out) :
    ((s.ring.inserted ++ [hdr]).drop s.ring.taken.length ++
      (s.out.erase (thread, hdr)).map Prod.snd).Perm built.blocks := by
  refine List.Perm.trans ?_ inv.conserved
  have moved : (hdr :: (s.out.erase (thread, hdr)).map Prod.snd).Perm
      (s.out.map Prod.snd) := ((List.perm_cons_erase mine).map Prod.snd).symm
  rw [List.drop_append_of_le_length inv.lapped.behind, List.append_assoc]
  exact moved.append_left _

theorem Consistent.insert {hdr : Nat} {ring : Nbb.Parties Nat} (ample : Shape.Ample built.shape)
    (pc : s.threads thread = .insert hdr) (produced : s.ring.produce built.shape = some ring) :
    Consistent built { s.setPc thread (insertNext built.shape s.ring hdr) with
      ring := ring
      out := match s.ring.producer with
        | .publish _ => s.out.erase (thread, hdr)
        | _ => s.out } := by
  have lapped := inv.lapped.produce ample produced
  have producer := inv.lapped.producer
  have known := inv.threads thread
  have carried := inv.carried thread
  rw [pc] at known carried
  obtain ⟨owner, access⟩ := known
  have locked : ∀ {P : Prop}, s.prodLock = none → P := by
    intro P free
    rw [owner] at free
    cases free
  simp only [Parties.produce] at produced
  obtain access | access | access | access := access
  · rw [access] at produced producer
    cases produced
    have passed := inv.lapped.insertCheck ample producer.2.1 (producer.2.2 trivial)
    simp only [insertNext, access, passed]
    rw [passed] at lapped
    exact inv.producerMoves (.inr owner) lapped rfl locked inv.conserved
      (fun _ _ _ mem => mem) carried ⟨owner, .inr (.inl rfl)⟩
  · rw [access] at produced
    cases produced
    simp only [insertNext, access]
    exact inv.producerMoves (.inr owner) lapped rfl locked inv.conserved
      (fun _ _ _ mem => mem) carried ⟨owner, .inr (.inr (.inl rfl))⟩
  · rw [access] at produced
    cases produced
    simp only [insertNext, access]
    exact inv.producerMoves (.inr owner) lapped rfl locked inv.conserved
      (fun _ _ _ mem => mem) carried ⟨owner, .inr (.inr (.inr rfl))⟩
  · rw [access] at produced
    cases produced
    simp only [insertNext, access]
    refine inv.producerMoves (.inr owner) lapped rfl locked
      (inv.conserved_publishInsert (carried hdr rfl))
      (fun other ne block mem => ?_) (carriesOwn_none rfl) ⟨owner, rfl⟩
    refine (List.mem_erase_of_ne ?_).mpr mem
    rintro ⟨⟩
    exact ne rfl

section

variable (ample : Shape.Ample built.shape) (places : built.blocks.length = built.shape.size)
include ample places

theorem Consistent.freeStep (step : s.freeStep built thread = some s') : Consistent built s' := by
  have known := inv.threads thread
  have carried := inv.carried thread
  cases freeSteps_of_freeStep step with
  | null pc | leave pc => exact inv.setPc (carriesOwn_none rfl) trivial
  | test pc =>
    rw [pc] at carried
    split
    · exact inv.setPc carried trivial
    · exact inv.setPc (carriesOwn_none rfl) trivial
  | @lock hdr pc free =>
    rw [pc] at carried
    have room := inv.room places (carried hdr rfl)
    exact inv.producerMoves (.inl free)
      (inv.lapped.insertItem (inv.producer free) (fun _ => room) hdr) rfl nofun
      inv.conserved (fun _ _ _ mem => mem) carried ⟨rfl, .inl rfl⟩
  | insert pc produced => exact inv.insert ample pc produced
  | insertEnd pc produced =>
    rw [pc] at known
    obtain ⟨o, access⟩ := known
    have lapped := inv.lapped.produce ample produced
    simp only [Parties.produce, access] at produced
    cases produced
    exact inv.producerMoves (.inr o) lapped rfl (fun _ => rfl) inv.conserved
      (fun _ _ _ mem => mem) (carriesOwn_none rfl) ⟨o, rfl, rfl⟩
  | unlock pc =>
    rw [pc] at known
    obtain ⟨o, idle, rfl⟩ := known
    exact inv.producerMoves (.inr o) inv.lapped rfl (fun _ => idle)
      inv.conserved (fun _ _ _ mem => mem) (carriesOwn_none rfl) trivial

theorem Consistent.step {ev : SlabEvent Thread} (ok : s.Allowed ev)
    (step : s.step built ev = some s') : Consistent built s' := by
  cases ev with
  | alloc thread =>
    simp only [Allocator.step] at step
    split at step
    · cases step
      exact inv.setPc (carriesOwn_none rfl) trivial
    · cases step
  | free thread b =>
    simp only [Allocator.step] at step
    split at step
    · cases step
      refine inv.setPc (fun header given => ?_) trivial
      obtain rfl : b = some header := given
      exact List.mem_of_mem_filter ok
    · cases step
  | thread thread =>
    obtain allocates | ⟨_, frees⟩ := Option.or_eq_some_iff.mp step
    · exact inv.allocStep ample allocates
    · exact inv.freeStep ample places frees

end

end

end Steps

end Allocator

end Xdk.FastSlab
