import Xdk.Avl.HeapRotations

/-! # Insertion and removal in memory

`insert` and `remove` in memory follow the functions on the tree that stands there.  The node
that is inserted is linked in as it is, with the balance factor and the pointers that it has;
the node that is removed keeps its own, except that its right pointer is moved along while
its successor is taken out.
-/

namespace Xdk.Avl

namespace AvlTree

variable {α : Type} {κ : Type*} [LinearOrder κ] {key : α → κ}

theorem insertAs_link {n root : α} {own bf : Int} {dir : Dir} {near far : AvlTree α}
    (compared : compare key root n = dir.cmp) :
    insertAs key n own (link dir root bf near far) = (do
      let (near, change) ← insertAs key n own near
      let increase := dir.cmp.value * change
      afterIncrease increase (link dir root (bf + increase) near far)) := by
  cases dir <;> simp only [link, insertAs, compared, Dir.cmp]

theorem remove_link {n root : α} {bf : Int} {dir : Dir} {cmp : Cmp} {near far : AvlTree α}
    (compared : compareWith key root ((link dir root bf near far).subtree .left)
      ((link dir root bf near far).subtree .right) n cmp = dir.cmp) :
    remove key n cmp (link dir root bf near far) = (do
      let (ret, near, change) ← remove key n cmp near
      let ret ← ret
      let decrease := dir.cmp.value * change
      let (tree, change) ← afterDecrease decrease (link dir root (bf - decrease) near far)
      return (some ret, tree, change)) := by
  cases dir <;> simp only [link, subtree, Dir.cmp] at compared ⊢ <;> simp only [remove, compared]

end AvlTree

namespace NodeHeap

variable {α : Type} [DecidableEq α]

/-! ## A node whose balance factor changes -/

section Moves

variable {heap : NodeHeap α} {slot : Slot α} {moved : AvlTree α}
  {root : α} {bf : Int} {left right : AvlTree α} {change : Int}

variable (covers : heap.Covers (heap.pointer slot) (.node root bf left right))
  (nodup : (AvlTree.node root bf left right).inorder.Nodup)
include covers nodup

theorem setBf_moved (newBf : Int) :
    heap.Moved (heap.setBf root newBf) slot (.node root bf left right)
      (.node root newBf left right) := by
  obtain ⟨here, -, coversLeft, coversRight⟩ := covers
  have among : root ∈ (AvlTree.node root bf left right).inorder := by simp [AvlTree.inorder]
  obtain ⟨⟨offLeft, offRight⟩, -⟩ := nodup_node.mp nodup
  have same : ∀ part : AvlTree α, root ∉ part.inorder →
      heap.Same (heap.setBf root newBf) part.inorder := by
    intro part without m mem
    exact ⟨by simp [show m ≠ root from fun same => without (same ▸ mem)], fun _ => rfl⟩
  refine ⟨⟨here, by simp, ?_, ?_⟩, ?_, rfl, fun _ _ _ => rfl, ?_⟩
  · exact coversLeft.of_same (same left offLeft)
  · exact coversRight.of_same (same right offRight)
  · simp only [ends, setBf_pointer]
    rw [ends_of_same (same left offLeft), ends_of_same (same right offRight)]
  · intro m unlisted
    simp [show m ≠ root from fun same => unlisted (same ▸ among)]

theorem afterIncrease_moved {increase : Int}
    (off : slot.Off (AvlTree.node root bf left right).inorder)
    (increased : AvlTree.afterIncrease increase (.node root (bf + increase) left right) =
      some (moved, change)) :
    ∃ after, heap.afterIncrease increase slot = some (after, change) ∧
      heap.Moved after slot (.node root bf left right) moved := by
  have changed := setBf_moved covers nodup (bf + increase)
  have here := covers.1
  have factor := covers.2.1
  simp only [AvlTree.afterIncrease, AvlTree.balanceFactor, Option.bind_eq_bind,
    Option.bind_some] at increased
  simp only [afterIncrease, here, factor, Option.bind_eq_bind, Option.bind_some, setBf_bf, if_true]
  split_ifs at increased ⊢ with heavy
  · obtain ⟨⟨lowered, rebalancedTree⟩, rebalanced, returned⟩ := Option.bind_eq_some_iff.mp increased
    cases returned
    obtain ⟨after, rebalancedHeap, res⟩ := changed.rebalance nodup off rebalanced
    exact ⟨after, by rw [rebalancedHeap]; rfl, res⟩
  · cases increased
    exact ⟨_, rfl, changed⟩

theorem afterDecrease_moved {decrease : Int}
    (off : slot.Off (AvlTree.node root bf left right).inorder)
    (decreased : AvlTree.afterDecrease decrease (.node root (bf - decrease) left right) =
      some (moved, change)) :
    ∃ after, heap.afterDecrease decrease slot = some (after, change) ∧
      heap.Moved after slot (.node root bf left right) moved := by
  have changed := setBf_moved covers nodup (bf - decrease)
  have here := covers.1
  have factor := covers.2.1
  simp only [AvlTree.afterDecrease, AvlTree.balanceFactor, Option.bind_eq_bind,
    Option.bind_some] at decreased
  simp only [afterDecrease, here, factor, Option.bind_eq_bind, Option.bind_some, setBf_bf, if_true]
  split_ifs at decreased ⊢ with shorter heavy
  · obtain ⟨⟨lowered, rebalancedTree⟩, rebalanced, returned⟩ := Option.bind_eq_some_iff.mp decreased
    cases returned
    obtain ⟨after, rebalancedHeap, res⟩ := changed.rebalance nodup off rebalanced
    exact ⟨after, by rw [rebalancedHeap]; rfl, res⟩
  · cases decreased
    exact ⟨_, rfl, changed⟩
  · cases decreased
    exact ⟨_, rfl, changed⟩

end Moves

/-! ## Below a node -/

section Below

omit [DecidableEq α]

variable {heap next : NodeHeap α} {slot : Slot α} {dir : Dir} {root : α} {bf : Int}
  {near near' far : AvlTree α} {nodes : List α}

/-- A node more below is a node more in the tree. -/
theorem perm_link {n : α} (nodes : near'.inorder.Perm (n :: near.inorder)) :
    (AvlTree.link dir root bf near' far).inorder.Perm
      (n :: (AvlTree.link dir root bf near far).inorder) := by
  calc (AvlTree.link dir root bf near' far).inorder
    List.Perm _ (root :: (near'.inorder ++ far.inorder)) := inorder_link_perm
    List.Perm _ (root :: (n :: near.inorder ++ far.inorder)) := (nodes.append_right _).cons root
    List.Perm _ (n :: root :: (near.inorder ++ far.inorder)) := .swap ..
    List.Perm _ (n :: (AvlTree.link dir root bf near far).inorder) :=
      inorder_link_perm.symm.cons n

/-- A subtree is replaced, and the rest of the tree stands as before. -/
theorem Covers.replace (covers : heap.Covers (heap.pointer slot) (.link dir root bf near far))
    (confined : heap.Confined next (.subtree root dir) nodes) (off : slot.Off (root :: nodes))
    (apart : root ∉ nodes) (farApart : ∀ m ∈ far.inorder, m ≠ root ∧ m ∉ nodes)
    (replaced : next.Covers (next.pointer (.subtree root dir)) near') :
    next.Covers (next.pointer slot) (.link dir root bf near' far) ∧
      next.ends (next.pointer slot) (.link dir root bf near' far) =
        sides dir (next.ends (next.pointer (.subtree root dir)) near')
          (heap.ends (heap.pointer (.subtree root dir.opposite)) far) := by
  obtain ⟨here, factor, -, coversFar⟩ := covers_link.mp covers
  have slotSame : next.pointer slot = heap.pointer slot :=
    confined.pointer slot (off.ne List.mem_cons_self dir) (off.mono (by simp +contextual))
  have otherSame : next.pointer (.subtree root dir.opposite) =
      heap.pointer (.subtree root dir.opposite) := by
    apply confined.pointer
    · simp [opposite_ne]
    · exact apart
  have same : heap.Same next far.inorder := by
    apply confined.same
    · exact fun mem => (farApart root mem).1 rfl
    · exact fun m mem => (farApart m mem).2
  constructor
  · rw [covers_link, slotSame, otherSame]
    exact ⟨here, (confined.bf root apart).trans factor, replaced, coversFar.of_same same⟩
  · rw [ends_link, otherSame, ends_of_same same]

end Below

/-! ## Insertion -/

section Inserted

omit [DecidableEq α]

variable {heap next after : NodeHeap α} {slot : Slot α} {n root : α} {bf : Int} {dir : Dir}
  {tree grown near near' far : AvlTree α}

structure Inserted (heap after : NodeHeap α) (slot : Slot α) (n : α) (tree grown : AvlTree α) :
    Prop where
  covers : after.Covers (after.pointer slot) grown
  nodes : grown.inorder.Perm (n :: tree.inorder)
  kept : ∀ dir, heap.pointer (.subtree n dir) ∈ after.ends (after.pointer slot) grown
  only : ∀ last ∈ after.ends (after.pointer slot) grown,
    last = none ∨ ∃ dir, last = heap.pointer (.subtree n dir)
  confined : heap.Confined after slot (n :: tree.inorder)

theorem Inserted.moved {tree : AvlTree α} (inserted : heap.Inserted next slot n tree near)
    (moved : next.Moved after slot near grown) : heap.Inserted after slot n tree grown := by
  refine ⟨moved.covers, ?_, ?_, ?_, ?_⟩
  · rw [moved.nodes]
    exact inserted.nodes
  · rw [moved.ends]
    exact inserted.kept
  · rw [moved.ends]
    exact inserted.only
  · exact inserted.confined.trans
      (moved.confined.mono fun m mem => inserted.nodes.mem_iff.mp mem)

/-- Into the subtree on one side, and so into the tree. -/
theorem Inserted.into (holds : heap.Holds (heap.pointer slot) (.link dir root bf near far))
    (nodup : (n :: (AvlTree.link dir root bf near far).inorder).Nodup)
    (off : slot.Off (n :: (AvlTree.link dir root bf near far).inorder))
    (inserted : heap.Inserted next (.subtree root dir) n near near') :
    heap.Inserted next slot n (.link dir root bf near far) (.link dir root bf near' far) := by
  obtain ⟨fresh, linked⟩ := List.nodup_cons.mp nodup
  obtain ⟨⟨offNear, offFar⟩, -, -, apart⟩ := nodup_link.mp linked
  simp only [mem_inorder_link, not_or] at fresh
  have rootApart : root ∉ n :: near.inorder := by
    simp [Ne.symm fresh.1, offNear]
  have farApart : ∀ m ∈ far.inorder, m ≠ root ∧ m ∉ n :: near.inorder := by
    intro m mem
    refine ⟨fun same => offFar (same ▸ mem), ?_⟩
    rintro (_ | ⟨_, inNear⟩)
    · exact fresh.2.2 mem
    · exact apart m inNear mem
  obtain ⟨covers, ends⟩ := holds.covers.replace inserted.confined
    (off.mono (by simp +contextual [mem_inorder_link])) rootApart farApart inserted.covers
  refine ⟨covers, ?_, ?_, ?_, ?_⟩
  · exact perm_link inserted.nodes
  · intro side
    rw [ends, mem_sides]
    exact .inl (inserted.kept side)
  · intro last mem
    rw [ends, mem_sides] at mem
    obtain inNear | inFar := mem
    · exact inserted.only last inNear
    · apply Or.inl
      apply holds.ends
      rw [ends_link, mem_sides]
      exact .inr inFar
  · exact inserted.confined.widen (by simp +contextual [mem_inorder_link])
      (by simp [mem_inorder_link]) slot

end Inserted

section Insertion

variable {κ : Type*} [LinearOrder κ] {key : α → κ} {heap : NodeHeap α} {slot : Slot α}
  {n root : α} {bf change : Int} {dir : Dir} {tree grown near far : AvlTree α} {depth : Nat}

theorem insert_null (holds : heap.Holds (heap.pointer slot) .null) (off : slot.Off [n]) :
    insert key n (depth + 1) slot heap = some (heap.write slot (some n), heightChange) ∧
      heap.Inserted (heap.write slot (some n)) slot n .null
        (.node n (heap.bf n) .null .null) := by
  have here : heap.pointer slot = none := holds.ends _ (List.mem_singleton_self _)
  have apart := off.ne (List.mem_singleton_self n)
  refine ⟨by rw [insert, here], ⟨?_, rfl, trivial, trivial⟩, .refl _, ?_, ?_, ?_, ?_⟩
  · simp
  · intro dir
    cases dir <;> simp [ends, (apart _).symm]
  · intro last mem
    obtain rfl | rfl : last = heap.pointer (.subtree n .left) ∨
        last = heap.pointer (.subtree n .right) := by
      simpa [ends, (apart _).symm] using mem
    · exact .inr ⟨.left, rfl⟩
    · exact .inr ⟨.right, rfl⟩
  · intro other unlike _
    simp [unlike]
  · exact fun _ _ => rfl

/-- `insert` on one side of a node, where it follows the tree below. -/
theorem insert_side (dir : Dir) (compared : AvlTree.compare key root n = dir.cmp)
    (holds : heap.Holds (heap.pointer slot) (.link dir root bf near far))
    (nodup : (n :: (AvlTree.link dir root bf near far).inorder).Nodup)
    (off : slot.Off (n :: (AvlTree.link dir root bf near far).inorder))
    (lt : ∀ near' change, AvlTree.insertAs key n (heap.bf n) near = some (near', change) →
      ∃ next, insert key n depth (.subtree root dir) heap = some (next, change) ∧
        heap.Inserted next (.subtree root dir) n near near')
    (inserted : AvlTree.insertAs key n (heap.bf n) (.link dir root bf near far) =
      some (grown, change)) :
    ∃ after, insert key n (depth + 1) slot heap = some (after, change) ∧
      heap.Inserted after slot n (.link dir root bf near far) grown := by
  rw [AvlTree.insertAs_link compared] at inserted
  obtain ⟨⟨near', nearChange⟩, insertedNear, finished⟩ := Option.bind_eq_some_iff.mp inserted
  obtain ⟨next, insertedBelow, into⟩ := lt near' nearChange insertedNear
  have res := into.into holds nodup off
  have here := (covers_link.mp holds.covers).1
  have linked := res.nodes.nodup_iff.mpr nodup
  have linkedOff := off.mono fun m mem => res.nodes.mem_iff.mp mem
  obtain ⟨after, increased, moved⟩ : ∃ after,
      next.afterIncrease (dir.cmp.value * nearChange) slot = some (after, change) ∧
      next.Moved after slot (.link dir root bf near' far) grown := by
    cases dir <;> exact afterIncrease_moved res.covers linked linkedOff finished
  refine ⟨after, ?_, res.moved moved⟩
  rw [insert, here]
  cases dir <;>
    simp only [Dir.cmp] at compared increased <;> simp [compared, insertedBelow, increased]

/-- `insert` follows the insertion into the tree, of the node with what is stored in it. -/
theorem insert_follows (holds : heap.Holds (heap.pointer slot) tree)
    (nodup : (n :: tree.inorder).Nodup) (off : slot.Off (n :: tree.inorder))
    (enough : tree.height < depth)
    (inserted : AvlTree.insertAs key n (heap.bf n) tree = some (grown, change)) :
    ∃ after, insert key n depth slot heap = some (after, change) ∧
      heap.Inserted after slot n tree grown := by
  induction tree generalizing slot depth grown change with
  | null =>
    obtain ⟨depth, rfl⟩ := Nat.exists_eq_add_one_of_ne_zero (Nat.ne_of_gt enough)
    cases inserted
    exact ⟨_, insert_null holds off⟩
  | node root bf left right ihLeft ihRight =>
    simp only [AvlTree.height] at enough
    obtain ⟨depth, rfl⟩ := Nat.exists_eq_add_one_of_ne_zero (Nat.ne_zero_of_lt enough)
    -- on each side the node is new, and the place is not in one of the nodes there
    have side : ∀ dir near far, AvlTree.node root bf left right = .link dir root bf near far →
        heap.Holds (heap.pointer (.subtree root dir)) near ∧ (n :: near.inorder).Nodup ∧
          (Slot.subtree root dir).Off (n :: near.inorder) := by
      rintro dir near far same
      rw [same] at holds nodup
      obtain ⟨fresh, linked⟩ := List.nodup_cons.mp nodup
      obtain ⟨⟨offNear, -⟩, distinctNear, -⟩ := nodup_link.mp linked
      simp only [mem_inorder_link, not_or] at fresh
      refine ⟨(holds_link.mp holds).2.2.1, List.nodup_cons.mpr ⟨fresh.2.1, distinctNear⟩, ?_⟩
      simp [Slot.Off, Ne.symm fresh.1, offNear]
    cases compared : AvlTree.compare key root n with
    | eq => simp [AvlTree.insertAs, compared] at inserted
    | min =>
      apply insert_side .left compared holds nodup off _ inserted
      intro left' change insertedLeft
      obtain ⟨holdsLeft, distinctLeft, offLeft⟩ := side .left left right rfl
      exact ihLeft holdsLeft distinctLeft offLeft (by omega) insertedLeft
    | max =>
      apply insert_side .right compared holds nodup off _ inserted
      intro right' change insertedRight
      obtain ⟨holdsRight, distinctRight, offRight⟩ := side .right right left rfl
      exact ihRight holdsRight distinctRight offRight (by omega) insertedRight

end Insertion

/-! ## Removal -/

section Removed

omit [DecidableEq α]

variable {heap next after : NodeHeap α} {slot : Slot α} {ret root : α} {bf : Int} {dir : Dir}
  {tree shrunk near near' far : AvlTree α}

/-- The node has been taken out, and keeps its left pointer; if one of its pointers was null it
    keeps both. -/
structure Removed (heap after : NodeHeap α) (slot : Slot α) (ret : α) (tree shrunk : AvlTree α) :
    Prop where
  holds : after.Holds (after.pointer slot) shrunk
  nodes : tree.inorder.Perm (ret :: shrunk.inorder)
  bf : after.bf ret = heap.bf ret
  left : after.pointer (.subtree ret .left) = heap.pointer (.subtree ret .left)
  right : heap.pointer (.subtree ret .left) = none ∨ heap.pointer (.subtree ret .right) = none →
    after.pointer (.subtree ret .right) = heap.pointer (.subtree ret .right)
  confined : heap.Confined after slot tree.inorder

theorem Removed.moved {tree : AvlTree α} (removed : heap.Removed next slot ret tree near)
    (nodup : tree.inorder.Nodup) (off : slot.Off tree.inorder)
    (moved : next.Moved after slot near shrunk) : heap.Removed after slot ret tree shrunk := by
  have mem : ret ∈ tree.inorder := removed.nodes.mem_iff.mpr List.mem_cons_self
  have gone : ret ∉ near.inorder := (List.nodup_cons.mp (removed.nodes.nodup_iff.mp nodup)).1
  have same : ∀ dir, after.pointer (.subtree ret dir) = next.pointer (.subtree ret dir) :=
    fun dir => moved.confined.pointer _ (off.ne mem dir).symm gone
  refine ⟨⟨moved.covers, ?_⟩, ?_, ?_, ?_, ?_, ?_⟩
  · rw [moved.ends]
    exact removed.holds.ends
  · rw [moved.nodes]
    exact removed.nodes
  · exact (moved.confined.bf ret gone).trans removed.bf
  · rw [same, removed.left]
  · rw [same]
    exact removed.right
  · refine removed.confined.trans (moved.confined.mono fun m inNear => ?_)
    exact removed.nodes.mem_iff.mpr (List.mem_cons_of_mem ret inNear)

/-- Out of the subtree on one side, and so out of the tree. -/
theorem Removed.outOf (holds : heap.Holds (heap.pointer slot) (.link dir root bf near far))
    (nodup : (AvlTree.link dir root bf near far).inorder.Nodup)
    (off : slot.Off (AvlTree.link dir root bf near far).inorder)
    (removed : heap.Removed next (.subtree root dir) ret near near') :
    heap.Removed next slot ret (.link dir root bf near far) (.link dir root bf near' far) := by
  obtain ⟨⟨offNear, offFar⟩, -, -, apart⟩ := nodup_link.mp nodup
  have farApart : ∀ m ∈ far.inorder, m ≠ root ∧ m ∉ near.inorder := fun m mem =>
    ⟨fun same => offFar (same ▸ mem), fun inNear => apart m inNear mem⟩
  obtain ⟨covers, ends⟩ := holds.covers.replace removed.confined
    (off.mono (by simp +contextual [mem_inorder_link])) offNear farApart removed.holds.covers
  refine ⟨⟨covers, ?_⟩, ?_, removed.bf, removed.left, removed.right, ?_⟩
  · intro last mem
    rw [ends, mem_sides] at mem
    obtain inNear | inFar := mem
    · exact removed.holds.ends last inNear
    · exact (holds_link.mp holds).2.2.2.ends last inFar
  · exact perm_link removed.nodes
  · exact removed.confined.widen (by simp +contextual [mem_inorder_link])
      (by simp [mem_inorder_link]) slot

theorem Holds.pointer_eq_none {ptr : Option α} (holds : heap.Holds ptr tree) :
    ptr = none ↔ tree.isNull = true := by
  cases tree with
  | null => simp [AvlTree.isNull, holds.ends ptr (List.mem_singleton_self _)]
  | node n bf left right => simp [AvlTree.isNull, holds.covers.1]

theorem compareWith_follows {κ : Type*} [LinearOrder κ] {key : α → κ} {n : α} {cmp : Cmp}
    {left right : AvlTree α}
    (holds : heap.Holds (heap.pointer slot) (.node root bf left right)) :
    heap.compareWith key root n cmp = AvlTree.compareWith key root left right n cmp := by
  obtain ⟨-, -, holdsLeft, holdsRight⟩ := holds_node.mp holds
  cases cmp with
  | eq => rfl
  | min => simp only [compareWith, AvlTree.compareWith, holdsLeft.pointer_eq_none]
  | max => simp only [compareWith, AvlTree.compareWith, holdsRight.pointer_eq_none]

end Removed

section Removal

variable {κ : Type*} [LinearOrder κ] {key : α → κ} {heap next : NodeHeap α} {slot : Slot α}
  {n root ret successor : α} {bf change : Int} {dir : Dir} {cmp : Cmp}
  {tree shrunk near far left right right' part : AvlTree α} {depth : Nat}

/-- One of the subtrees is taken for the tree. -/
theorem write_removed {ptr : Option α} (holds : heap.Holds ptr part)
    (nodes : tree.inorder.Perm (ret :: part.inorder)) (off : slot.Off tree.inorder) :
    heap.Removed (heap.write slot ptr) slot ret tree part := by
  have among : ∀ m ∈ part.inorder, m ∈ tree.inorder := fun m mem =>
    nodes.mem_iff.mpr (List.mem_cons_of_mem ret mem)
  have apart := off.ne (nodes.mem_iff.mpr List.mem_cons_self)
  have confined : heap.Confined (heap.write slot ptr) slot [] :=
    ⟨fun other unlike _ => by simp [unlike], fun _ _ => rfl⟩
  have same : heap.Same (heap.write slot ptr) part.inorder :=
    confined.same (off.mono among) fun _ _ => List.not_mem_nil
  refine ⟨?_, nodes, rfl, ?_, fun _ => ?_, confined.mono (by simp)⟩
  · rw [write_pointer, if_pos rfl]
    exact holds.of_same same
  · simp [(apart _).symm]
  · simp [(apart _).symm]

theorem putSuccessor_stores (heap : NodeHeap α) (off : slot.Off [ret, successor]) :
    (heap.putSuccessor slot ret successor).pointer slot = some successor ∧
      (∀ dir, (heap.putSuccessor slot ret successor).pointer (.subtree successor dir) =
        heap.pointer (.subtree ret dir)) ∧
      (heap.putSuccessor slot ret successor).bf successor = heap.bf ret ∧
      heap.Confined (heap.putSuccessor slot ret successor) slot [successor] := by
  have slotRet := off.ne (n := ret) (by simp)
  have slotSuccessor := off.ne (n := successor) (by simp)
  refine ⟨?_, ?_, ?_, ?_, ?_⟩
  · simp [putSuccessor, slotSuccessor]
  · intro dir
    cases dir <;> simp [putSuccessor, (slotRet _).symm]
  · simp [putSuccessor]
  · intro other notSlot away
    have notSuccessor := away.ne (List.mem_singleton_self successor)
    simp [putSuccessor, notSlot, notSuccessor]
  · intro m unlisted
    simp [putSuccessor, List.mem_singleton.not.mp unlisted]

section

variable (holds : heap.Holds (heap.pointer slot) (.node root bf left right))
  (nodup : (AvlTree.node root bf left right).inorder.Nodup)
  (off : slot.Off (AvlTree.node root bf left right).inorder)
include holds nodup off

/-- The successor, taken out of the right subtree, is put in the place of the node. -/
theorem putSuccessor_removed (leftPresent : left.isNull = false)
    (rightPresent : right.isNull = false)
    (removed : heap.Removed next (.subtree root .right) successor right right') :
    heap.Removed (next.putSuccessor slot root successor) slot root (.node root bf left right)
      (.node successor bf left right') := by
  obtain ⟨-, factor, holdsLeft, holdsRight⟩ := holds_node.mp holds
  obtain ⟨⟨offLeft, offRight⟩, -, distinctRight, apart⟩ := nodup_node.mp nodup
  have inRight : successor ∈ right.inorder := removed.nodes.mem_iff.mpr List.mem_cons_self
  have gone := (List.nodup_cons.mp (removed.nodes.nodup_iff.mp distinctRight)).1
  have unlike : root ≠ successor := fun same => offRight (same ▸ inRight)
  have slotRoot := off.ne (n := root) (by simp [AvlTree.inorder])
  obtain ⟨here, links, newBf, stored⟩ := putSuccessor_stores next
    (show slot.Off [root, successor] from off.mono (by simp [AvlTree.inorder, inRight]))
  have rootLeft : next.pointer (.subtree root .left) = heap.pointer (.subtree root .left) :=
    removed.confined.pointer _ (by simp) offRight
  have rootBf : next.bf root = heap.bf root := removed.confined.bf root offRight
  have sameLeft : heap.Same next left.inorder := removed.confined.same offLeft apart
  have keptLeft : next.Same (next.putSuccessor slot root successor) left.inorder := by
    apply stored.same (off.mono (by simp +contextual [AvlTree.inorder]))
    intro m inLeft listed
    exact apart m inLeft (List.mem_singleton.mp listed ▸ inRight)
  have keptRight : next.Same (next.putSuccessor slot root successor) right'.inorder := by
    apply stored.same (off.mono (by simp +contextual [AvlTree.inorder, removed.nodes.mem_iff]))
    intro m inRest listed
    exact gone (List.mem_singleton.mp listed ▸ inRest)
  refine ⟨holds_node.mpr ⟨here, ?_, ?_, ?_⟩, ?_, ?_, ?_, ?_, ?_⟩
  · rw [newBf, rootBf, factor]
  · rw [links, rootLeft]
    exact (holdsLeft.of_same sameLeft).of_same keptLeft
  · rw [links]
    exact removed.holds.of_same keptRight
  · exact List.perm_middle.trans ((removed.nodes.append_left left.inorder).cons root)
  · rw [stored.bf root (by simpa using unlike), rootBf]
  · rw [stored.pointer _ (slotRoot _).symm (by simpa [Slot.Off] using unlike), rootLeft]
  · rintro (leftNull | rightNull)
    · simp [holdsLeft.pointer_eq_none.mp leftNull] at leftPresent
    · have := holdsRight.pointer_eq_none.mp rightNull
      simp [this] at rightPresent
  · apply Confined.trans
    · exact removed.confined.widen (by simp +contextual [AvlTree.inorder])
        (by simp [AvlTree.inorder]) slot
    · exact stored.mono (by simp [AvlTree.inorder, inRight])

/-- The node at the place is removed. -/
theorem remove_here (found : heap.compareWith key root n cmp = .eq)
    (treeFound : AvlTree.compareWith key root left right n cmp = .eq)
    (below : ∀ successor right' change,
      AvlTree.remove key n .min right = some (some successor, right', change) →
      ∃ next, remove key n depth (.subtree root .right) .min heap =
          some (some successor, next, change) ∧
        heap.Removed next (.subtree root .right) successor right right')
    (removed : AvlTree.remove key n cmp (.node root bf left right) =
      some (some ret, shrunk, change)) :
    ∃ after, remove key n (depth + 1) slot cmp heap = some (some ret, after, change) ∧
      heap.Removed after slot ret (.node root bf left right) shrunk := by
  obtain ⟨here, -, holdsLeft, holdsRight⟩ := holds_node.mp holds
  rw [AvlTree.remove, treeFound] at removed
  rw [remove, here]
  simp only [found]
  cases left with
  | null =>
    have noLeft := holdsLeft.pointer_eq_none.mpr rfl
    cases right with
    | null =>
      have noRight := holdsRight.pointer_eq_none.mpr rfl
      simp only [noLeft, noRight] at holdsRight ⊢
      cases removed
      exact ⟨_, rfl, write_removed holdsRight (.refl _) off⟩
    | node successor _ _ _ =>
      have toRight := holdsRight.covers.1
      simp only [noLeft, toRight] at holdsRight ⊢
      cases removed
      exact ⟨_, rfl, write_removed holdsRight (.refl _) off⟩
  | node before _ _ _ =>
    have toLeft := holdsLeft.covers.1
    cases right with
    | null =>
      have noRight := holdsRight.pointer_eq_none.mpr rfl
      simp only [toLeft, noRight] at holdsLeft ⊢
      cases removed
      exact ⟨_, rfl, write_removed holdsLeft (List.perm_append_singleton ..) off⟩
    | node next _ _ _ =>
      have toRight := holdsRight.covers.1
      simp only [toLeft, toRight]
      obtain ⟨⟨taken, right', decrease⟩, removedMin, found⟩ := Option.bind_eq_some_iff.mp removed
      obtain ⟨successor, rfl, rest⟩ := Option.bind_eq_some_iff.mp found
      obtain ⟨⟨finished, finishedChange⟩, decreased, returned⟩ := Option.bind_eq_some_iff.mp rest
      cases returned
      obtain ⟨next, removedBelow, below⟩ := below _ _ _ removedMin
      have res := putSuccessor_removed holds nodup off rfl rfl below
      have distinctAfter := (List.nodup_cons.mp (res.nodes.nodup_iff.mp nodup)).2
      have offAfter := off.mono fun m mem =>
        res.nodes.mem_iff.mpr (List.mem_cons_of_mem root mem)
      obtain ⟨after, decreasedHeap, moved⟩ :=
        afterDecrease_moved res.holds.covers distinctAfter offAfter decreased
      refine ⟨after, ?_, res.moved nodup off moved⟩
      simp [removedBelow, decreasedHeap]

end

/-- `remove` on one side of a node, where it follows the tree below. -/
theorem remove_side (dir : Dir) (compared : heap.compareWith key root n cmp = dir.cmp)
    (treeCompared : AvlTree.compareWith key root
      ((AvlTree.link dir root bf near far).subtree .left)
      ((AvlTree.link dir root bf near far).subtree .right) n cmp = dir.cmp)
    (holds : heap.Holds (heap.pointer slot) (.link dir root bf near far))
    (nodup : (AvlTree.link dir root bf near far).inorder.Nodup)
    (off : slot.Off (AvlTree.link dir root bf near far).inorder)
    (below : ∀ near' change, AvlTree.remove key n cmp near = some (some ret, near', change) →
      ∃ next, remove key n depth (.subtree root dir) cmp heap = some (some ret, next, change) ∧
        heap.Removed next (.subtree root dir) ret near near')
    (removed : AvlTree.remove key n cmp (.link dir root bf near far) =
      some (some ret, shrunk, change)) :
    ∃ after, remove key n (depth + 1) slot cmp heap = some (some ret, after, change) ∧
      heap.Removed after slot ret (.link dir root bf near far) shrunk := by
  rw [AvlTree.remove_link treeCompared] at removed
  obtain ⟨⟨taken, near', nearChange⟩, removedNear, found⟩ := Option.bind_eq_some_iff.mp removed
  obtain ⟨_, rfl, rest⟩ := Option.bind_eq_some_iff.mp found
  obtain ⟨⟨finished, finishedChange⟩, decreased, returned⟩ := Option.bind_eq_some_iff.mp rest
  cases returned
  obtain ⟨next, removedBelow, below⟩ := below _ _ removedNear
  have res := below.outOf holds nodup off
  have here := (covers_link.mp holds.covers).1
  have distinctAfter := (List.nodup_cons.mp (res.nodes.nodup_iff.mp nodup)).2
  have offAfter := off.mono fun m mem =>
    res.nodes.mem_iff.mpr (List.mem_cons_of_mem ret mem)
  obtain ⟨after, decreasedHeap, moved⟩ : ∃ after,
      next.afterDecrease (dir.cmp.value * nearChange) slot = some (after, change) ∧
      next.Moved after slot (.link dir root bf near' far) shrunk := by
    cases dir <;> exact afterDecrease_moved res.holds.covers distinctAfter offAfter decreased
  refine ⟨after, ?_, res.moved nodup off moved⟩
  rw [remove, here]
  cases dir <;>
    simp only [Dir.cmp] at compared decreasedHeap <;> simp [compared, removedBelow, decreasedHeap]

/-- `remove` follows the removal from the tree. -/
theorem remove_follows (holds : heap.Holds (heap.pointer slot) tree)
    (nodup : tree.inorder.Nodup) (off : slot.Off tree.inorder) (enough : tree.height < depth)
    (removed : AvlTree.remove key n cmp tree = some (some ret, shrunk, change)) :
    ∃ after, remove key n depth slot cmp heap = some (some ret, after, change) ∧
      heap.Removed after slot ret tree shrunk := by
  induction tree generalizing slot depth cmp ret shrunk change with
  | null => cases removed
  | node root bf left right ihLeft ihRight =>
    simp only [AvlTree.height] at enough
    obtain ⟨depth, rfl⟩ := Nat.exists_eq_add_one_of_ne_zero (Nat.ne_zero_of_lt enough)
    obtain ⟨-, -, holdsLeft, holdsRight⟩ := holds_node.mp holds
    obtain ⟨⟨offLeft, offRight⟩, distinctLeft, distinctRight, -⟩ :=
      nodup_node.mp nodup
    have compared : heap.compareWith key root n cmp =
        AvlTree.compareWith key root left right n cmp := compareWith_follows holds
    generalize treeCompared : AvlTree.compareWith key root left right n cmp = access at compared
    cases access with
    | eq =>
      apply remove_here holds nodup off compared treeCompared _ removed
      intro successor right' change removedMin
      exact ihRight holdsRight distinctRight offRight (by omega) removedMin
    | min =>
      apply remove_side .left compared treeCompared holds nodup off _ removed
      intro left' change removedLeft
      exact ihLeft holdsLeft distinctLeft offLeft (by omega) removedLeft
    | max =>
      apply remove_side .right compared treeCompared holds nodup off _ removed
      intro right' change removedRight
      exact ihRight holdsRight distinctRight offRight (by omega) removedRight

end Removal

end NodeHeap

end Xdk.Avl
