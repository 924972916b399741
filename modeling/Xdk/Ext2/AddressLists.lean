import Mathlib.Data.List.Perm.Subperm
import Xdk.Lib.Chain

/-! # Lists of block addresses

A `Block_address_list` has the addresses of one block of addresses and is linked into a `List`
through its own pointer.  A `Block_address_collective` is such a `List` with a count.

`append` walks through the collective that it is given while it inserts the elements into its
own list.  But to insert an element is to clear its pointer to the next one: the walk ends after
the first element, and the others are lost.
-/

namespace Xdk.Ext2

open Xdk.Lib Function

/-- The lists made so far, by their number, and the pointers to the next one. -/
structure Heap where
  lists : List (List Nat)
  next : Nat → Option Nat

namespace Heap

def empty : Heap := ⟨[], fun _ => none⟩

def alloc (heap : Heap) (addresses : List Nat) : Nat × Heap :=
  (heap.lists.length,
    ⟨heap.lists ++ [addresses], Function.update heap.next heap.lists.length none⟩)

/-- The elements from a pointer on; there are no more than there are lists. -/
def elementsFrom (heap : Heap) : Nat → Option Nat → List Nat
  | 0, _ | _, none => []
  | fuel + 1, some element => element :: heap.elementsFrom fuel (heap.next element)

end Heap

/-- `ends` are the pointers `_head` and `_tail`, which are both null or both not. -/
structure Collective where
  ends : Option (Nat × Nat)
  listCount : Nat

namespace Collective

def empty : Collective := ⟨none, 0⟩

def head (collective : Collective) : Option Nat := collective.ends.map Prod.fst

def insert (heap : Heap) (collective : Collective) (element : Nat) : Heap × Collective :=
  let cleared := Function.update heap.next element none
  match collective.ends with
  | none =>
    (⟨heap.lists, cleared⟩, ⟨some (element, element), collective.listCount + 1⟩)
  | some (head, tail) =>
    (⟨heap.lists, Function.update cleared tail (some element)⟩,
      ⟨some (head, element), collective.listCount + 1⟩)

def appendFrom : Nat → Heap → Collective → Option Nat → Heap × Collective
  | 0, heap, collective, _ | _, heap, collective, none => (heap, collective)
  | fuel + 1, heap, collective, some element =>
    let inserted := collective.insert heap element
    appendFrom fuel inserted.1 inserted.2 (inserted.1.next element)

def append (heap : Heap) (collective other : Collective) : Heap × Collective :=
  appendFrom heap.lists.length heap collective other.head

def addressLists (heap : Heap) (collective : Collective) : List (List Nat) :=
  (heap.elementsFrom heap.lists.length collective.head).map (heap.lists.getD · [])

end Collective

/-! ## What is reached -/

structure Frame (bound : Nat) (before after : Heap) : Prop where
  next : ∀ element < bound, after.next element = before.next element
  lists : before.lists <+: after.lists

theorem Frame.refl (bound : Nat) (heap : Heap) : Frame bound heap heap :=
  ⟨fun _ _ => rfl, List.prefix_rfl⟩

variable {bound : Nat}

theorem Frame.trans {a b third : Heap} (left : Frame bound a b) (right : Frame bound b third) :
    Frame bound a third :=
  ⟨fun x lt => (right.next x lt).trans (left.next x lt),
    left.lists.trans right.lists⟩

theorem Frame.getD {x : Nat} {before after : Heap} (frame : Frame bound before after)
    (known : x < before.lists.length) :
    after.lists.getD x [] = before.lists.getD x [] := by
  obtain ⟨more, same⟩ := frame.lists
  rw [← same, List.getD_eq_getElem?_getD, List.getElem?_append_left known,
    List.getD_eq_getElem?_getD]

theorem frame_alloc (heap : Heap) (addresses : List Nat) (below : bound ≤ heap.lists.length) :
    Frame bound heap (heap.alloc addresses).2 :=
  ⟨fun _ small => update_of_ne (by omega) _ _, List.prefix_append ..⟩

def endsOf : List Nat → Option (Nat × Nat)
  | [] => none
  | first :: rest => some (first, rest.getLastD first)

theorem endsOf_append (first last : Nat) (rest : List Nat) :
    endsOf (first :: rest ++ [last]) = some (first, last) := by
  simp [endsOf]

theorem endsOf_eq_some {elements : List Nat} {head tail : Nat}
    (ends : endsOf elements = some (head, tail)) :
    ∃ before, elements = before ++ [tail] ∧ (before ++ [tail]).head? = some head := by
  cases elements with
  | nil => cases ends
  | cons first rest =>
    cases ends
    obtain rfl | ⟨before, last, rfl⟩ := rest.eq_nil_or_concat
    · exact ⟨[], rfl, rfl⟩
    · exact ⟨head :: before, by simp, rfl⟩

structure Reached (heap : Heap) (collective : Collective) (elements : List Nat)
    (addresses : List (List Nat)) : Prop where
  ends : collective.ends = endsOf elements
  linked : elements ≠ [] → Linked heap.next elements
  once : elements.Nodup
  known : ∀ element ∈ elements, element < heap.lists.length
  count : collective.listCount = elements.length
  addresses : elements.map (heap.lists.getD · []) = addresses

theorem reached_empty (heap : Heap) : Reached heap .empty [] [] :=
  ⟨rfl, fun some => absurd rfl some, List.nodup_nil, nofun, rfl, rfl⟩

section Reached

variable {heap after : Heap} {collective : Collective} {elements : List Nat}
  {addresses : List (List Nat)}

theorem Reached.frame {bound : Nat} (reached : Reached heap collective elements addresses)
    (frame : Frame bound heap after) (lt : ∀ x ∈ elements, x < bound) :
    Reached after collective elements addresses where
  ends := reached.ends
  linked := fun some =>
    (reached.linked some).congr fun x mem => frame.next x (lt x mem)
  once := reached.once
  known := fun x mem =>
    Nat.lt_of_lt_of_le (reached.known x mem) frame.lists.length_le
  count := reached.count
  addresses := by
    rw [← reached.addresses]
    exact List.map_congr_left fun x mem => frame.getD (reached.known x mem)

/-- The walk through the pointers finds the chain. -/
theorem elementsFrom_of_linked {fuel a : Nat} {rest : List Nat}
    (linked : Linked heap.next (a :: rest)) (enough : (a :: rest).length ≤ fuel) :
    heap.elementsFrom fuel (some a) = a :: rest := by
  induction rest generalizing fuel a with
  | nil =>
    obtain ⟨fuel, rfl⟩ := Nat.exists_eq_add_of_lt enough
    have last : heap.next a = none := linked
    cases fuel <;> simp [Heap.elementsFrom, last]
  | cons second rest ih =>
    obtain ⟨fuel, rfl⟩ := Nat.exists_eq_add_of_lt enough
    rw [Heap.elementsFrom, linked.1, ih linked.2 (by omega)]

theorem Reached.addressLists (reached : Reached heap collective elements addresses) :
    collective.addressLists heap = addresses := by
  have short : elements.length ≤ heap.lists.length := by
    have inside : elements ⊆ List.range heap.lists.length := fun x mem =>
      List.mem_range.mpr (reached.known x mem)
    simpa using (List.subperm_of_subset reached.once inside).length_le
  have walk : heap.elementsFrom heap.lists.length collective.head = elements := by
    rw [Collective.head, reached.ends]
    cases elements with
    | nil => cases heap.lists.length <;> rfl
    | cons first rest =>
      have linked := reached.linked (List.cons_ne_nil first rest)
      exact elementsFrom_of_linked linked short
  rw [Collective.addressLists, walk, reached.addresses]

/-- Nothing below `bound` changes when the new element and the old last one are not below. -/
theorem Reached.frame_insert {bound element : Nat}
    (reached : Reached heap collective elements addresses)
    (above : ∀ old ∈ elements, bound ≤ old) (new : bound ≤ element) :
    Frame bound heap (collective.insert heap element).1 := by
  refine ⟨fun o small => ?_, ?_⟩
  · have notNew : o ≠ element := by omega
    rw [Collective.insert, reached.ends]
    split
    · exact update_of_ne notNew _ _
    · rename_i head tail isEnds
      obtain ⟨before, rfl, _⟩ := endsOf_eq_some isEnds
      have notTail : o ≠ tail := by
        have := above tail (by simp)
        omega
      exact (update_of_ne notTail _ _).trans (update_of_ne notNew _ _)
  · rw [Collective.insert]
    split <;> exact List.prefix_rfl

theorem Collective.lists_insert (heap : Heap) (collective : Collective) (x : Nat) :
    (collective.insert heap x).1.lists = heap.lists := by
  rw [Collective.insert]
  split <;> rfl

section

variable (reached : Reached heap collective elements addresses)
include reached

/-- The pointer of the element that was inserted is null. -/
theorem Reached.next_insert {x : Nat} (absent : x ∉ elements) :
    (collective.insert heap x).1.next x = none := by
  rw [Collective.insert, reached.ends]
  split
  · exact update_self ..
  · rename_i head tail isEnds
    obtain ⟨before, rfl, _⟩ := endsOf_eq_some isEnds
    have ne : x ≠ tail := by
      rintro rfl
      exact absent (by simp)
    exact (update_of_ne ne _ _).trans (update_self ..)

theorem Reached.insert {element : Nat} (absent : element ∉ elements)
    (known : element < heap.lists.length) :
    Reached (collective.insert heap element).1 (collective.insert heap element).2
      (elements ++ [element]) (addresses ++ [heap.lists.getD element []]) := by
  have lists := Collective.lists_insert heap collective element
  have ends := reached.ends
  refine
    { ends := ?_
      linked := fun _ => ?_
      once := ?_
      known := fun o mem => ?_
      count := ?_
      addresses := ?_ }
  · cases elements with
    | nil =>
      rw [Collective.insert, ends]
      rfl
    | cons first rest =>
      rw [Collective.insert, ends, endsOf_append]
      rfl
  · rw [Collective.insert, ends]
    split
    · rename_i none
      have empty : elements = [] := by
        cases elements with
        | nil => rfl
        | cons => cases none
      subst empty
      exact update_self ..
    · rename_i head tail isEnds
      obtain ⟨before, rfl, _⟩ := endsOf_eq_some isEnds
      have linked := (reached.linked (by simp)).update_of_not_mem absent none
      exact linked.append reached.once absent (update_self ..)
  · refine List.nodup_append.mpr ⟨reached.once, by simp, fun old mem o new => ?_⟩
    obtain rfl := List.mem_singleton.mp new
    rintro rfl
    exact absent mem
  · rw [lists]
    obtain old | new := List.mem_append.mp mem
    · exact reached.known o old
    · exact List.mem_singleton.mp new ▸ known
  · rw [List.length_append, ← reached.count, Collective.insert]
    split <;> rfl
  · rw [lists, List.map_append, reached.addresses]
    rfl

/-- Of the other collective, only the first element is appended. -/
theorem Reached.append {o : Collective} {first : Nat} {rest : List Nat}
    {otherAddresses : List (List Nat)}
    (otherReached : Reached heap o (first :: rest) otherAddresses) (absent : first ∉ elements) :
    Reached (collective.append heap o).1 (collective.append heap o).2
      (elements ++ [first]) (addresses ++ [heap.lists.getD first []]) := by
  have known := otherReached.known first (List.mem_cons_self ..)
  have appended : collective.append heap o = collective.insert heap first := by
    have start : o.head = some first := by
      rw [Collective.head, otherReached.ends]
      rfl
    obtain ⟨fuel, enough⟩ := Nat.exists_eq_add_of_lt known
    rw [Collective.append, start, enough, Collective.appendFrom, reached.next_insert absent]
    cases fuel <;> cases first <;> rfl
  rw [appended]
  exact reached.insert absent known

end

theorem Collective.append_empty {o : Collective} (collective : Collective)
    (none : o.ends = none) : collective.append heap o = (heap, collective) := by
  rw [Collective.append, Collective.head, none]
  cases heap.lists.length <;> rfl

end Reached

end Xdk.Ext2
