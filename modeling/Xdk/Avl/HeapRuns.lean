import Xdk.Avl.Reuse

/-! # Runs of the calls in memory

A node is inserted as its constructor leaves it, be it new or removed before.  Then any run of
calls in memory is a run of calls on the tree, and no call fails.
-/

namespace Xdk.Avl

open Xdk.Lib NodeHeap

theorem AvlTree.height_le_length {α : Type} (t : AvlTree α) : t.height ≤ t.inorder.length := by
  induction t with
  | null => exact Nat.le_refl 0
  | node n bf left right ihLeft ihRight =>
    simp only [AvlTree.height, AvlTree.inorder, List.length_append, List.length_cons]
    omega

structure Objects (α : Type) where
  heap : NodeHeap α
  members : List α

namespace Objects

variable {α : Type} {κ : Type*} [DecidableEq α] [LinearOrder κ] (key : α → κ) (depth : Nat)

def init (memory : NodeHeap α) : Objects α := ⟨memory.write .root none, []⟩

def construct (heap : NodeHeap α) (n : α) : NodeHeap α :=
  ((heap.setBf n 0).write (.subtree n .left) none).write (.subtree n .right) none

def step (s : Objects α) : AvlEvent α → Option (Objects α)
  | .insertNode n => ((construct s.heap n).insertNode key depth n).map (⟨·, n :: s.members⟩)
  | .removeNode n => (s.heap.removeNode key depth n).map (⟨·, s.members.erase n⟩)

/-- The calls that are allowed on the tree, where the bound on their depth is no limit. -/
def Allowed (s : Objects α) (event : AvlEvent α) : Prop :=
  s.members.length < depth ∧ History.Allowed key ⟨.null, s.members⟩ event

instance (s : Objects α) (event : AvlEvent α) : Decidable (Allowed key depth s event) :=
  inferInstanceAs (Decidable (_ ∧ _))

/-- The memory holds the tree that a run of calls on the tree leads to. -/
structure Follows (s : Objects α) (h : History α) : Prop where
  run : Reaches (History.step key) (History.Allowed key) History.init h
  members : h.members = s.members
  holds : s.heap.Holds (s.heap.pointer .root) h.tree

variable {key depth} {s : Objects α} {h : History α} {n : α}

theorem Follows.deep (follows : Follows key s h) (enough : s.members.length < depth) :
    h.tree.height < depth := by
  have le := h.tree.height_le_length
  rw [(History.Reachable.good follows.run).members.length_eq, follows.members] at le
  omega

theorem Follows.insertNode (follows : Follows key s h)
    (allowed : Allowed key depth s (.insertNode n)) :
    ∃ s' h', s.step key depth (.insertNode n) = some s' ∧ Follows key s' h' := by
  have deep := follows.deep allowed.1
  obtain ⟨run, members, holds⟩ := follows
  have good := History.Reachable.good run
  have fresh : ∀ m ∈ h.tree.inorder, key m ≠ key n := fun m mem =>
    allowed.2 m (members ▸ good.members.mem_iff.mp mem)
  have new : n ∉ h.tree.inorder := fun mem => fresh n mem rfl
  obtain ⟨grown, change, -, -, inserted, -⟩ :=
    AvlTree.insert_returned n good.balanced good.sorted fresh
  have constructed : (construct s.heap n).Holds ((construct s.heap n).pointer .root) h.tree := by
    have root : (construct s.heap n).pointer .root = s.heap.pointer .root := by simp [construct]
    rw [root]
    refine holds.of_same fun m mem => ?_
    have other : m ≠ n := ne_of_mem_of_not_mem mem new
    simp [construct, other]
  obtain ⟨after, called, linked⟩ := insert_follows constructed
    (List.nodup_cons.mpr ⟨new, good.sorted.nodup⟩) trivial deep
    (by simpa [construct] using inserted)
  have made : History.step key h (.insertNode n) = some ⟨grown, n :: h.members⟩ := by
    simp [History.step, AvlTree.insertNode, inserted]
  refine ⟨⟨after, n :: s.members⟩, _, ?_, .next run ?_ made, by rw [members], ?_⟩
  · simp [step, NodeHeap.insertNode, called]
  · exact fun m mem => allowed.2 m (members ▸ mem)
  · refine ⟨linked.covers, fun last mem => ?_⟩
    obtain null | ⟨dir, kept⟩ := linked.only last mem
    · exact null
    · cases dir <;> simp [kept, construct]

theorem Follows.removeNode (follows : Follows key s h)
    (allowed : Allowed key depth s (.removeNode n)) :
    ∃ s' h', s.step key depth (.removeNode n) = some s' ∧ Follows key s' h' := by
  have deep := follows.deep allowed.1
  obtain ⟨run, members, holds⟩ := follows
  have good := History.Reachable.good run
  have present : n ∈ h.members := members ▸ allowed.2
  obtain ⟨shrunk, change, -, -, removed, -⟩ :=
    AvlTree.remove_returned good.balanced good.sorted (good.members.mem_iff.mpr present)
  obtain ⟨after, called, res⟩ := remove_follows holds good.sorted.nodup trivial deep removed
  have made : History.step key h (.removeNode n) = some ⟨shrunk, h.members.erase n⟩ := by
    simp [History.step, AvlTree.removeNode, removed]
  refine ⟨⟨after, s.members.erase n⟩, _, ?_, .next run ?_ made, by rw [members], res.holds⟩
  · simp [step, NodeHeap.removeNode, called]
  · exact present

theorem Follows.step {ev : AvlEvent α} (follows : Follows key s h)
    (allowed : Allowed key depth s ev) :
    ∃ s' h', s.step key depth ev = some s' ∧ Follows key s' h' := by
  cases ev with
  | insertNode n => exact follows.insertNode allowed
  | removeNode n => exact follows.removeNode allowed

end Objects

end Xdk.Avl
