import Xdk.Avl.HeapCalls

/-! # Inserting a removed node again

`remove_node` does not clear the node that it takes out, and `insert_node` links a node in with
the pointers that it has.  So a node can be used again only if it had no subtree when it was
removed: otherwise it still points into the tree, below the place where it is then put.
-/

namespace Xdk.Avl

/-! ## The insertion succeeds whatever the balance factor of the node -/

namespace AvlTree

variable {α : Type} {κ : Type*}

def Leans : AvlTree α → Prop
  | .null => False
  | .node _ bf left right => bf = -1 ∧ left ≠ .null ∨ bf = 1 ∧ right ≠ .null

/-- A node that is too heavy on one side, where its child leans, is rebalanced. -/
theorem rebalance_leans (dir : Dir) (root : α) {near : AvlTree α} (leans : near.Leans)
    (far : AvlTree α) :
    ∃ t, rebalance (link dir root (dir.cmp.value + dir.cmp.value * 1) near far) =
      some (heightChange, t) := by
  cases near with
  | null => exact leans.elim
  | node other bf left right =>
    obtain ⟨rfl, present⟩ | ⟨rfl, present⟩ := leans
    · cases left with
      | null => exact absurd rfl present
      | node middle middleBf _ _ => cases dir <;> exact ⟨_, rfl⟩
    · cases right with
      | null => exact absurd rfl present
      | node middle middleBf _ _ => cases dir <;> exact ⟨_, rfl⟩

theorem afterIncrease_leans {dir : Dir} (root : α) {bf change : Int} {near : AvlTree α}
    (far : AvlTree α) (lower : -1 ≤ bf) (upper : bf ≤ 1)
    (grown : change = 0 ∨ change = 1 ∧ near ≠ .null ∧ (bf = dir.cmp.value → near.Leans)) :
    ∃ t change', afterIncrease (dir.cmp.value * change)
        (link dir root (bf + dir.cmp.value * change) near far) = some (t, change') ∧
      (change' = 0 ∨ change' = 1 ∧ t.Leans) := by
  obtain rfl | ⟨rfl, present, leans⟩ := grown
  · cases dir <;> exact ⟨_, _, rfl, .inl rfl⟩
  · have sides : bf = -dir.cmp.value ∨ bf = 0 ∨ bf = dir.cmp.value := by
      cases dir <;> simp only [Dir.cmp, Cmp.value] <;> omega
    obtain rfl | rfl | rfl := sides
    · cases dir <;> exact ⟨_, _, rfl, .inl rfl⟩
    · cases dir with
      | left => exact ⟨_, _, rfl, .inr ⟨rfl, .inl ⟨rfl, present⟩⟩⟩
      | right => exact ⟨_, _, rfl, .inr ⟨rfl, .inr ⟨rfl, present⟩⟩⟩
    · obtain ⟨t, rebalanced⟩ := rebalance_leans dir root (leans rfl) far
      have heavy : dir.cmp.value * 1 ≠ 0 ∧ dir.cmp.value + dir.cmp.value * 1 ≠ 0 := by
        cases dir <;> decide
      have factor : (link dir root (dir.cmp.value + dir.cmp.value * 1) near far).balanceFactor =
          some (dir.cmp.value + dir.cmp.value * 1) := by
        cases dir <;> rfl
      refine ⟨t, 1 - heightChange, ?_, .inl rfl⟩
      simp only [afterIncrease, factor, Option.bind_eq_bind, Option.bind_some, if_pos heavy,
        rebalanced]
      rfl

/-- The tree has its height still, or it has grown and leans, unless there was none before. -/
def Grew (tree grown : AvlTree α) (change : Int) : Prop :=
  change = 0 ∨ change = 1 ∧ grown ≠ .null ∧ (tree ≠ .null → grown.Leans)

variable [LinearOrder κ] {key : α → κ} {n : α} {own : Int}

/-- One side has grown, and it was there if the node leant to it. -/
theorem insertAs_side {dir : Dir} {root : α} {bf change : Int} {near near' far : AvlTree α}
    (lo : -1 ≤ bf) (hi : bf ≤ 1) (compared : compare key root n = dir.cmp)
    (inserted : insertAs key n own near = some (near', change)) (grew : Grew near near' change)
    (towards : bf = dir.cmp.value → near ≠ .null) :
    ∃ grown change, insertAs key n own (link dir root bf near far) = some (grown, change) ∧
      Grew (link dir root bf near far) grown change := by
  have leant : change = 0 ∨ change = 1 ∧ near' ≠ .null ∧ (bf = dir.cmp.value → near'.Leans) := by
    obtain same | ⟨one, present, leans⟩ := grew
    · exact .inl same
    · exact .inr ⟨one, present, fun equal => leans (towards equal)⟩
  obtain ⟨grown, change', finished, res⟩ := afterIncrease_leans root far lo hi leant
  refine ⟨grown, change', ?_, ?_⟩
  · rw [insertAs_link compared, inserted]
    exact finished
  · obtain same | ⟨one, leans⟩ := res
    · exact .inl same
    · refine .inr ⟨one, ?_, fun _ => leans⟩
      rintro rfl
      exact leans

/-- The balance factor of the new node is read in a double rotation only, after which the
    height is as before. -/
theorem insertAs_some (own : Int) {t : AvlTree α} (balanced : t.Balanced)
    (fresh : ∀ m ∈ t.inorder, key m ≠ key n) :
    ∃ grown change, insertAs key n own t = some (grown, change) ∧ Grew t grown change := by
  induction t with
  | null =>
    refine ⟨_, _, rfl, .inr ⟨rfl, ?_, fun present => absurd rfl present⟩⟩
    intro null
    cases null
  | node root bf left right ihLeft ihRight =>
    obtain ⟨leftBalanced, rightBalanced, factor, lo, hi⟩ := balanced
    simp only [inorder, List.mem_append, List.mem_cons] at fresh
    obtain lowerKey | sameKey | higherKey := lt_trichotomy (key n) (key root)
    · obtain ⟨left', change, inserted, grew⟩ :=
        ihLeft leftBalanced fun m mem => fresh m (.inl mem)
      refine @insertAs_side _ _ _ key n own .left root bf _ left left' right lo hi
        (compare_min lowerKey) inserted grew ?_
      rintro heavy rfl
      simp only [Dir.cmp, Cmp.value, height] at heavy factor
      omega
    · exact absurd sameKey.symm (fresh root (.inr (.inl rfl)))
    · obtain ⟨right', change, inserted, grew⟩ :=
        ihRight rightBalanced fun m mem => fresh m (.inr (.inr mem))
      refine @insertAs_side _ _ _ key n own .right root bf _ right right' left lo hi
        (compare_max higherKey) inserted grew ?_
      rintro heavy rfl
      simp only [Dir.cmp, Cmp.value, height] at heavy factor
      omega

theorem Sorted.nodup {nodes : List α} (sorted : Sorted key nodes) : nodes.Nodup :=
  sorted.imp fun lt same => lt.ne (congrArg key same)

end AvlTree

namespace NodeHeap

variable {α : Type} {κ : Type*}

/-! ## Two trees at one place -/

/-- What is held is larger than a tree that is covered and does not end there. -/
theorem Holds.length {heap : NodeHeap α} {ptr : Option α} {full t : AvlTree α}
    (holds : heap.Holds ptr full) (covers : heap.Covers ptr t) :
    t.inorder.length ≤ full.inorder.length ∧
      ((∃ last ∈ heap.ends ptr t, last ≠ none) →
        t.inorder.length < full.inorder.length) := by
  induction t generalizing ptr full with
  | null =>
    refine ⟨Nat.zero_le _, ?_⟩
    rintro ⟨last, listed, linked⟩
    rw [NodeHeap.ends, List.mem_singleton] at listed
    cases full with
    | null => exact absurd (holds.ends ptr (List.mem_singleton_self _)) (listed ▸ linked)
    | node n bf left right =>
      simp only [AvlTree.inorder, List.length_append, List.length_cons, List.length_nil]
      omega
  | node n bf left right ihLeft ihRight =>
    obtain ⟨rfl, -, coversLeft, coversRight⟩ := covers
    cases full with
    | null => cases holds.ends _ (List.mem_singleton_self _)
    | node m mBf fullLeft fullRight =>
      obtain ⟨same, -, holdsLeft, holdsRight⟩ := holds_node.mp holds
      cases same
      have left := ihLeft holdsLeft coversLeft
      have right := ihRight holdsRight coversRight
      simp only [AvlTree.inorder, List.length_append, List.length_cons]
      refine ⟨by have := left.1; have := right.1; omega, ?_⟩
      rintro ⟨last, listed, linked⟩
      obtain inLeft | inRight := List.mem_append.mp listed
      · have := left.2 ⟨last, inLeft, linked⟩
        omega
      · have := right.2 ⟨last, inRight, linked⟩
        omega

/-- A node without subtrees is balanced. -/
theorem bf_of_leaf {heap : NodeHeap α} {ptr : Option α} {t : AvlTree α} {n : α}
    (holds : heap.Holds ptr t) (balanced : t.Balanced) (present : n ∈ t.inorder)
    (leaf : ∀ dir, heap.pointer (.subtree n dir) = none) : heap.bf n = 0 := by
  induction t generalizing ptr with
  | null => cases present
  | node root bf left right ihLeft ihRight =>
    obtain ⟨-, factor, holdsLeft, holdsRight⟩ := holds_node.mp holds
    obtain ⟨leftBalanced, rightBalanced, difference, -, -⟩ := balanced
    obtain inLeft | rfl | inRight := by
      simpa only [AvlTree.inorder, List.mem_append, List.mem_cons] using present
    · exact ihLeft holdsLeft leftBalanced inLeft
    · have noLeft := AvlTree.isNull_iff.mp (holdsLeft.pointer_eq_none.mp (leaf _))
      have noRight := AvlTree.isNull_iff.mp (holdsRight.pointer_eq_none.mp (leaf _))
      rw [factor, difference, noLeft, noRight]
      rfl
    · exact ihRight holdsRight rightBalanced inRight

/-! ## Removing and inserting -/

section Reuse

variable [DecidableEq α] [LinearOrder κ] (key : α → κ)

structure IsAvl (heap : NodeHeap α) (tree : AvlTree α) : Prop where
  holds : heap.Holds (heap.pointer .root) tree
  balanced : tree.Balanced
  sorted : AvlTree.Sorted key tree.inorder

/-- `remove_node` and then `insert_node` of the same node, with calls of sufficient depth,
    leave a valid tree of the same nodes. -/
def Reusable (heap : NodeHeap α) (tree : AvlTree α) (n : α) : Prop :=
  ∃ bound, ∀ depth, bound ≤ depth → ∃ removed after tree',
    removeNode key depth n heap = some removed ∧ insertNode key depth n removed = some after ∧
      after.IsAvl key tree' ∧ ∀ m, m ∈ tree'.inorder ↔ m ∈ tree.inorder

variable {key} {heap : NodeHeap α} {tree : AvlTree α} {n : α}

/-- What `remove_node` leaves of a valid tree. -/
theorem IsAvl.removeNode (valid : heap.IsAvl key tree) (present : n ∈ tree.inorder) :
    ∃ shrunk, shrunk.Balanced ∧ AvlTree.Sorted key shrunk.inorder ∧
      (∀ m ∈ shrunk.inorder, key m ≠ key n) ∧
      ∀ depth, tree.height < depth → ∃ removed, removeNode key depth n heap = some removed ∧
        heap.Removed removed .root n tree shrunk := by
  obtain ⟨shrunk, change, front, back, removed, nodes, returned⟩ :=
    AvlTree.remove_returned valid.balanced valid.sorted present
  have sorted := valid.sorted
  rw [nodes] at sorted
  obtain ⟨-, -, lt, above⟩ := AvlTree.sorted_node.mp sorted
  refine ⟨shrunk, returned.balanced, ?_, ?_, ?_⟩
  · rw [returned.nodes]
    exact sorted.sublist ((List.sublist_cons_self n back).append_left front)
  · intro m mem
    rw [returned.nodes] at mem
    obtain inFront | inBack := List.mem_append.mp mem
    · exact (lt m inFront).ne
    · exact (above m inBack).ne'
  · intro depth enough
    obtain ⟨after, removedHeap, res⟩ :=
      remove_follows valid.holds valid.sorted.nodup trivial enough removed
    exact ⟨after, by rw [NodeHeap.removeNode, removedHeap]; rfl, res⟩

/-- A leaf is, when it has been removed, as it was constructed. -/
theorem reusable_of_leaf (valid : heap.IsAvl key tree) (present : n ∈ tree.inorder)
    (leaf : ∀ dir, heap.pointer (.subtree n dir) = none) : heap.Reusable key tree n := by
  obtain ⟨shrunk, balanced, sorted, fresh, removes⟩ := valid.removeNode present
  obtain ⟨grown, change, front, back, inserted, nodes, before, behind, returned⟩ :=
    AvlTree.insert_returned n balanced sorted fresh
  refine ⟨tree.height + shrunk.height + 1, fun depth enough => ?_⟩
  obtain ⟨removed, removedNode, res⟩ := removes depth (by omega)
  have own : removed.bf n = 0 := by
    rw [res.bf]
    exact bf_of_leaf valid.holds valid.balanced present leaf
  have cleared : ∀ dir, removed.pointer (.subtree n dir) = none
    | .left => res.left.trans (leaf .left)
    | .right => (res.right (.inl (leaf .left))).trans (leaf .right)
  rw [AvlTree.insert, ← own] at inserted
  have deep : shrunk.height < depth := by omega
  obtain ⟨after, insertedHeap, linked⟩ := insert_follows res.holds
    (res.nodes.nodup_iff.mp valid.sorted.nodup) trivial deep inserted
  refine ⟨removed, after, grown, removedNode, ?_, ⟨⟨linked.covers, ?_⟩, returned.balanced, ?_⟩, ?_⟩
  · rw [insertNode, insertedHeap]
    rfl
  · intro last mem
    obtain null | ⟨dir, stale⟩ := linked.only last mem
    · exact null
    · rw [stale, cleared dir]
  · rw [nodes] at sorted
    obtain ⟨frontSorted, backSorted, -⟩ := List.pairwise_append.mp sorted
    rw [returned.nodes]
    exact AvlTree.sorted_node.mpr ⟨frontSorted, backSorted, before, behind⟩
  · intro m
    rw [linked.nodes.mem_iff, res.nodes.mem_iff]

/-- A node with a subtree keeps a pointer, which then leads back into the tree. -/
theorem leaf_of_reusable (valid : heap.IsAvl key tree) (present : n ∈ tree.inorder)
    (reusable : heap.Reusable key tree n) (dir : Dir) :
    heap.pointer (.subtree n dir) = none := by
  obtain ⟨bound, reuses⟩ := reusable
  obtain ⟨shrunk, balanced, sorted, fresh, removes⟩ := valid.removeNode present
  let depth := bound + tree.height + shrunk.height + 1
  obtain ⟨removed, removedNode, res⟩ := removes depth (by omega)
  obtain ⟨grown, change, inserted, -⟩ :=
    AvlTree.insertAs_some (removed.bf n) balanced fresh
  have deep : shrunk.height < depth := by omega
  obtain ⟨after, insertedHeap, linked⟩ := insert_follows res.holds
    (res.nodes.nodup_iff.mp valid.sorted.nodup) trivial deep inserted
  obtain ⟨removed', after', tree', removedAgain, insertedAgain, validAfter, sameNodes⟩ :=
    reuses depth (by omega)
  cases removedNode.symm.trans removedAgain
  rw [insertNode, insertedHeap] at insertedAgain
  cases insertedAgain
  -- the new tree would have to have more nodes than there are
  have length : grown.inorder.length = tree'.inorder.length := by
    have permutation : tree'.inorder.Perm tree.inorder :=
      (List.perm_ext_iff_of_nodup validAfter.sorted.nodup valid.sorted.nodup).mpr sameNodes
    rw [linked.nodes.length_eq, ← res.nodes.length_eq, permutation.length_eq]
  have cleared : ∀ side, removed.pointer (.subtree n side) = none := by
    intro side
    by_contra kept
    have larger := (validAfter.holds.length linked.covers).2 ⟨_, linked.kept side, kept⟩
    omega
  have leftNull : heap.pointer (.subtree n .left) = none := res.left.symm.trans (cleared .left)
  cases dir with
  | left => exact leftNull
  | right => exact (res.right (.inl leftNull)).symm.trans (cleared .right)

/-- A node can be removed and inserted again exactly if it is a leaf. -/
theorem reusable_iff_leaf (valid : heap.IsAvl key tree) (present : n ∈ tree.inorder) :
    heap.Reusable key tree n ↔ ∀ dir, heap.pointer (.subtree n dir) = none :=
  ⟨leaf_of_reusable valid present, reusable_of_leaf valid present⟩

def twoNodes : NodeHeap Nat where
  pointer slot := if slot = .root then some 1 else if slot = .subtree 1 .right then some 2 else none
  bf n := if n = 1 then 1 else 0

theorem twoNodes_isAvl : twoNodes.IsAvl id (.node 1 1 .null (.node 2 0 .null .null)) := by
  refine ⟨⟨?_, ?_⟩, ?_, ?_⟩
  · exact ⟨rfl, rfl, trivial, rfl, rfl, trivial, trivial⟩
  · decide
  · simp [AvlTree.Balanced, AvlTree.height]
  · simp [AvlTree.Sorted, AvlTree.inorder]

/-- The second of two nodes can be used again. -/
theorem reusable_iff_leaf_second :
    twoNodes.Reusable id (.node 1 1 .null (.node 2 0 .null .null)) 2 := by
  apply (reusable_iff_leaf twoNodes_isAvl (by decide)).mpr
  intro dir
  cases dir <;> rfl

/-- The first of two nodes keeps its right pointer.  It is inserted below the second one, to
    which it points: the two nodes form a cycle. -/
theorem first_not_reusable :
    twoNodes.IsAvl id (.node 1 1 .null (.node 2 0 .null .null)) ∧
      (∀ depth, ∃ removed after, removeNode id (depth + 2) 1 twoNodes = some removed ∧
        insertNode id (depth + 2) 1 removed = some after ∧ after.pointer .root = some 2 ∧
        after.pointer (.subtree 2 .left) = some 1 ∧ after.pointer (.subtree 1 .right) = some 2) ∧
      ¬ twoNodes.Reusable id (.node 1 1 .null (.node 2 0 .null .null)) 1 := by
  refine ⟨twoNodes_isAvl, ?_, ?_⟩
  · intro depth
    exact ⟨_, _, rfl, rfl, rfl, rfl, rfl⟩
  · rintro ⟨bound, reuses⟩
    obtain ⟨removed, after, tree, removedNode, insertedNode, valid, sameNodes⟩ :=
      reuses (bound + 2) (by omega)
    cases removedNode
    have covers : after.Covers (after.pointer .root) (.node 2 (-1) (.node 1 1 .null .null) .null) ∧
        some 2 ∈ after.ends (after.pointer .root) (.node 2 (-1) (.node 1 1 .null .null) .null) := by
      cases insertedNode
      exact ⟨⟨rfl, rfl, ⟨rfl, rfl, trivial, trivial⟩, trivial⟩, by decide⟩
    have larger := (valid.holds.length covers.1).2 ⟨some 2, covers.2, by decide⟩
    have permutation : tree.inorder.Perm [1, 2] :=
      (List.perm_ext_iff_of_nodup valid.sorted.nodup (by decide)).mpr sameNodes
    rw [permutation.length_eq] at larger
    exact absurd larger (by decide)

end Reuse

end NodeHeap

end Xdk.Avl
