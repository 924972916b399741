import Xdk.Avl.NodeHeap

/-! # The rotations in memory

A rotation in memory follows the rotation of the tree that stands there.  It changes nothing
but the nodes of the tree and the place of its root, and what is behind the ends of the tree
stays there, in the same order.
-/

namespace Xdk.Avl.NodeHeap

variable {α : Type} [DecidableEq α]

section Frames

omit [DecidableEq α]

structure Confined (heap after : NodeHeap α) (slot : Slot α) (nodes : List α) : Prop where
  pointer : ∀ other : Slot α, other ≠ slot → other.Off nodes →
    after.pointer other = heap.pointer other
  bf : ∀ m, m ∉ nodes → after.bf m = heap.bf m

variable {heap next after : NodeHeap α} {slot : Slot α} {nodes more : List α}

theorem Confined.refl (heap : NodeHeap α) (slot : Slot α) (nodes : List α) :
    heap.Confined heap slot nodes :=
  ⟨fun _ _ _ => rfl, fun _ _ => rfl⟩

theorem Confined.mono (confined : heap.Confined after slot nodes)
    (among : ∀ m ∈ nodes, m ∈ more) : heap.Confined after slot more :=
  ⟨fun o apart off => confined.pointer o apart (off.mono among),
    fun m unlisted => confined.bf m fun mem => unlisted (among m mem)⟩

theorem Confined.trans (a : heap.Confined next slot nodes)
    (b : next.Confined after slot nodes) : heap.Confined after slot nodes :=
  ⟨fun o apart off => (b.pointer o apart off).trans (a.pointer o apart off),
    fun m unlisted => (b.bf m unlisted).trans (a.bf m unlisted)⟩

/-- What happened at a place in a node is confined to that node. -/
theorem Confined.widen {n : α} {dir : Dir} (confined : heap.Confined after (.subtree n dir) nodes)
    (among : ∀ m ∈ nodes, m ∈ more) (mem : n ∈ more) (slot : Slot α) :
    heap.Confined after slot more := by
  refine ⟨fun o _ off => ?_, (confined.mono among).bf⟩
  exact (confined.mono among).pointer o (off.ne mem dir) off

/-- The other nodes are the same. -/
theorem Confined.same (confined : heap.Confined after slot nodes) (off : slot.Off more)
    (apart : ∀ m ∈ more, m ∉ nodes) : heap.Same after more := by
  intro m mem
  refine ⟨confined.bf m (apart m mem), fun dir => ?_⟩
  exact confined.pointer _ (off.ne mem dir).symm (apart m mem)

/-- What is confined to the first nodes of a tree leaves the other ones as they were. -/
theorem Confined.same_rest {t : AvlTree α} {first rest : List α}
    (confined : heap.Confined after slot first) (nodup : t.inorder.Nodup)
    (off : slot.Off t.inorder) (split : t.inorder.Perm (first ++ rest)) :
    heap.Same after rest := by
  apply confined.same
  · exact off.mono fun m mem => split.mem_iff.mpr (List.mem_append_right first mem)
  · intro m inRest inFirst
    exact (List.nodup_append'.mp (split.nodup_iff.mp nodup)).2.2 inFirst inRest

structure Moved (heap after : NodeHeap α) (slot : Slot α) (tree moved : AvlTree α) : Prop where
  covers : after.Covers (after.pointer slot) moved
  ends : after.ends (after.pointer slot) moved = heap.ends (heap.pointer slot) tree
  nodes : moved.inorder = tree.inorder
  confined : heap.Confined after slot tree.inorder

theorem Moved.trans {t moved last : AvlTree α} (a : heap.Moved next slot t moved)
    (b : next.Moved after slot moved last) : heap.Moved after slot t last := by
  have confined := b.confined
  rw [a.nodes] at confined
  exact ⟨b.covers, b.ends.trans a.ends, b.nodes.trans a.nodes,
    a.confined.trans confined⟩

end Frames

theorem opposite_ne (dir : Dir) : dir.opposite ≠ dir := by cases dir <;> decide

/-! ## What a rotation needs -/

section Shapes

omit [DecidableEq α]

theorem rotateOnce_some {t moved : AvlTree α} {dir : Dir} {change : Int}
    (rotated : t.rotateOnce dir = some (change, moved)) :
    ∃ oldRoot oldBf near o bf inner outer,
      t = .link dir oldRoot oldBf near (.link dir o bf inner outer) ∧
      change = (if bf = 0 then heightNochange else heightChange) ∧
      moved = .link dir o (bf + dir.cmp.value)
        (.link dir oldRoot (-(bf + dir.cmp.value)) near inner) outer := by
  cases t with
  | null => cases dir <;> cases rotated
  | node oldRoot oldBf left right =>
    cases dir with
    | left =>
      cases right with
      | null => cases rotated
      | node o bf inner outer =>
        cases rotated
        exact ⟨_, _, _, _, bf, _, _, rfl, rfl, rfl⟩
    | right =>
      cases left with
      | null => cases rotated
      | node o bf outer inner =>
        cases rotated
        exact ⟨_, _, _, _, bf, _, _, rfl, rfl, rfl⟩

theorem rotateTwice_some {t moved : AvlTree α} {dir : Dir} {change : Int}
    (rotated : t.rotateTwice dir = some (change, moved)) :
    ∃ oldRoot oldBf near o otherBf middle bf inner outer far,
      t = .link dir oldRoot oldBf near
        (.link dir o otherBf (.link dir middle bf inner outer) far) ∧
      change = heightChange ∧
      moved = .link dir middle 0 (.link dir oldRoot (AvlTree.newBfs dir bf).1 near inner)
        (.link dir o (AvlTree.newBfs dir bf).2 outer far) := by
  cases t with
  | null => cases dir <;> cases rotated
  | node oldRoot oldBf left right =>
    cases dir with
    | left =>
      cases right with
      | null => cases rotated
      | node o otherBf between far =>
        cases between with
        | null => cases rotated
        | node middle bf inner outer =>
          cases rotated
          exact ⟨_, _, _, _, _, _, bf, _, _, _, rfl, rfl, rfl⟩
    | right =>
      cases left with
      | null => cases rotated
      | node o otherBf far between =>
        cases between with
        | null => cases rotated
        | node middle bf outer inner =>
          cases rotated
          exact ⟨_, _, _, _, _, _, bf, _, _, _, rfl, rfl, rfl⟩

end Shapes

/-! ## The rotations -/

section Rotations

variable {heap : NodeHeap α} {slot : Slot α} {dir : Dir} {oldRoot other middle : α}

structure RotatedOnce (heap after : NodeHeap α) (slot : Slot α) (dir : Dir) (oldRoot other : α) :
    Prop where
  root : after.pointer slot = some other
  near : after.pointer (.subtree oldRoot dir) = heap.pointer (.subtree oldRoot dir)
  inner : after.pointer (.subtree oldRoot dir.opposite) = heap.pointer (.subtree other dir)
  lowered : after.pointer (.subtree other dir) = some oldRoot
  outer : after.pointer (.subtree other dir.opposite) =
    heap.pointer (.subtree other dir.opposite)
  oldBf : after.bf oldRoot = -(heap.bf other + dir.cmp.value)
  otherBf : after.bf other = heap.bf other + dir.cmp.value
  confined : heap.Confined after slot [oldRoot, other]

theorem rotateOnce_stores (here : heap.pointer slot = some oldRoot)
    (there : heap.pointer (.subtree oldRoot dir.opposite) = some other) (apart : oldRoot ≠ other)
    (off : slot.Off [oldRoot, other]) :
    ∃ after, heap.rotateOnce slot dir =
        some (if heap.bf other = 0 then heightNochange else heightChange, after) ∧
      heap.RotatedOnce after slot dir oldRoot other := by
  have slotOld := off.ne (n := oldRoot) (by simp)
  have slotOther := off.ne (n := other) (by simp)
  have turned := opposite_ne dir
  refine ⟨_, by
    simp only [rotateOnce, here, there, Option.bind_eq_bind, Option.bind_some]
    rfl, ?_, ?_, ?_, ?_, ?_, ?_, ?_, ?_, ?_⟩
  · simp [relinkOnce, slotOld, slotOther]
  · simp [relinkOnce, (slotOld _).symm, apart, turned.symm]
  · simp [relinkOnce, (slotOther _).symm, apart]
  · simp [relinkOnce]
  · simp [relinkOnce, (slotOther _).symm, apart.symm, turned]
  · cases dir <;> simp [relinkOnce, Dir.cmp, Cmp.value, Int.sub_eq_add_neg]
  · cases dir <;> simp [relinkOnce, Dir.cmp, Cmp.value, Int.sub_eq_add_neg, apart.symm]
  · intro place unlike away
    have placeOld := away.ne (n := oldRoot) (by simp)
    have placeOther := away.ne (n := other) (by simp)
    simp [relinkOnce, unlike, placeOld, placeOther]
  · intro m unlisted
    simp only [List.mem_cons, not_or] at unlisted
    simp [relinkOnce, unlisted]

theorem setBf_comm (heap : NodeHeap α) {n m : α} (apart : n ≠ m) (bf bf' : Int) :
    (heap.setBf n bf).setBf m bf' = (heap.setBf m bf').setBf n bf := by
  simp only [setBf, Function.update_comm apart]

structure RotatedTwice (heap after : NodeHeap α) (slot : Slot α) (dir : Dir)
    (oldRoot other middle : α) : Prop where
  root : after.pointer slot = some middle
  near : after.pointer (.subtree oldRoot dir) = heap.pointer (.subtree oldRoot dir)
  inner : after.pointer (.subtree oldRoot dir.opposite) = heap.pointer (.subtree middle dir)
  lowered : after.pointer (.subtree middle dir) = some oldRoot
  outer : after.pointer (.subtree other dir) = heap.pointer (.subtree middle dir.opposite)
  raised : after.pointer (.subtree middle dir.opposite) = some other
  far : after.pointer (.subtree other dir.opposite) = heap.pointer (.subtree other dir.opposite)
  oldBf : after.bf oldRoot = (AvlTree.newBfs dir (heap.bf middle)).1
  otherBf : after.bf other = (AvlTree.newBfs dir (heap.bf middle)).2
  middleBf : after.bf middle = 0
  confined : heap.Confined after slot [oldRoot, other, middle]

theorem rotateTwice_stores (here : heap.pointer slot = some oldRoot)
    (there : heap.pointer (.subtree oldRoot dir.opposite) = some other)
    (between : heap.pointer (.subtree other dir) = some middle)
    (nodup : [oldRoot, other, middle].Nodup) (off : slot.Off [oldRoot, other, middle]) :
    ∃ after, heap.rotateTwice slot dir = some (heightChange, after) ∧
      heap.RotatedTwice after slot dir oldRoot other middle := by
  have slotOld := off.ne (n := oldRoot) (by simp)
  have slotOther := off.ne (n := other) (by simp)
  have slotMiddle := off.ne (n := middle) (by simp)
  have turned := opposite_ne dir
  simp only [List.nodup_cons, List.mem_cons, List.not_mem_nil, not_or, not_false_eq_true,
    List.nodup_nil, and_true] at nodup
  obtain ⟨⟨oldOther, oldMiddle⟩, otherMiddle⟩ := nodup
  let linked := heap.relinkTwice slot dir oldRoot other middle
  have lowered : linked.pointer (.subtree middle dir) = some oldRoot := by
    simp [linked, relinkTwice, Ne.symm otherMiddle, turned.symm]
  have raised : linked.pointer (.subtree middle dir.opposite) = some other := by
    simp [linked, relinkTwice]
  let after := ((linked.setBf oldRoot (AvlTree.newBfs dir (heap.bf middle)).1).setBf other
    (AvlTree.newBfs dir (heap.bf middle)).2).setBf middle 0
  have rotated : heap.rotateTwice slot dir = some (heightChange, after) := by
    simp only [rotateTwice, here, there, between, Option.bind_eq_bind, Option.bind_some]
    cases dir with
    | left =>
      simp only [Dir.opposite, linked] at raised lowered
      simp only [lowered, raised, setBf_pointer, setBf_bf, Ne.symm oldMiddle,
        Option.bind_some]
      rfl
    | right =>
      simp only [Dir.opposite, linked] at raised lowered
      simp only [lowered, raised, setBf_pointer, setBf_bf, Ne.symm otherMiddle,
        Option.bind_some]
      rw [setBf_comm _ (Ne.symm oldOther)]
      rfl
  refine ⟨after, rotated, ?_, ?_, ?_, ?_, ?_, ?_, ?_, ?_, ?_, ?_, ?_, ?_⟩
  · simp [after, linked, relinkTwice, slotOld, slotOther, slotMiddle]
  · simp [after, linked, relinkTwice, (slotOld _).symm, oldOther, oldMiddle, turned.symm]
  · simp [after, linked, relinkTwice, (slotMiddle _).symm, oldOther, oldMiddle]
  · exact lowered
  · simp [after, linked, relinkTwice, (slotMiddle _).symm, otherMiddle, Ne.symm oldMiddle, turned]
  · exact raised
  · simp [after, linked, relinkTwice, (slotOther _).symm, otherMiddle, Ne.symm oldOther, turned]
  · simp [after, oldOther, oldMiddle]
  · simp [after, otherMiddle]
  · simp [after]
  · intro place unlike away
    have placeOld := away.ne (n := oldRoot) (by simp)
    have placeOther := away.ne (n := other) (by simp)
    have placeMiddle := away.ne (n := middle) (by simp)
    simp [after, linked, relinkTwice, unlike, placeOld, placeOther, placeMiddle]
  · intro m unlisted
    simp only [List.mem_cons, not_or] at unlisted
    simp [after, linked, relinkTwice, unlisted]

variable {tree moved : AvlTree α} {change : Int}

section

variable (covers : heap.Covers (heap.pointer slot) tree) (nodup : tree.inorder.Nodup)
  (off : slot.Off tree.inorder)
include covers nodup off

theorem rotateOnce_moved (rotated : tree.rotateOnce dir = some (change, moved)) :
    ∃ after, heap.rotateOnce slot dir = some (change, after) ∧
      heap.Moved after slot tree moved := by
  obtain ⟨oldRoot, oldBf, near, other, bf, inner, outer, rfl, rfl, rfl⟩ := rotateOnce_some rotated
  obtain ⟨here, -, coversNear, there, rfl, coversInner, coversOuter⟩ := by
    simpa only [covers_link] using covers
  have split : (AvlTree.link dir oldRoot oldBf near
      (.link dir other (heap.bf other) inner outer)).inorder.Perm
      ([oldRoot, other] ++ (near.inorder ++ inner.inorder ++ outer.inorder)) := by
    rw [List.perm_iff_count]
    cases dir <;> simp [AvlTree.link, AvlTree.inorder, List.count_cons] <;> omega
  have among := fun m mem => split.mem_iff.mpr (List.mem_append_left (a := m) _ mem)
  have pair := (List.nodup_append'.mp (split.nodup_iff.mp nodup)).1
  obtain ⟨after, rotation, stored⟩ :=
    rotateOnce_stores here there (by simpa using pair) (off.mono among)
  have same := stored.confined.same_rest nodup off split
  have sameNear : heap.Same after near.inorder := same.mono (by simp +contextual)
  have sameInner : heap.Same after inner.inorder := same.mono (by simp +contextual)
  have sameOuter : heap.Same after outer.inorder := same.mono (by simp +contextual)
  refine ⟨after, rotation, ?_, ?_, ?_, stored.confined.mono among⟩
  · simp only [covers_link, stored.root, stored.lowered, stored.near, stored.inner, stored.outer,
      stored.oldBf, stored.otherBf, true_and]
    exact ⟨⟨coversNear.of_same sameNear, coversInner.of_same sameInner⟩,
      coversOuter.of_same sameOuter⟩
  · simp only [ends_link, stored.near, stored.inner, stored.outer]
    rw [ends_of_same sameNear, ends_of_same sameInner, ends_of_same sameOuter, sides_assoc]
  · cases dir <;> simp [AvlTree.link, AvlTree.inorder]

theorem rotateTwice_moved (rotated : tree.rotateTwice dir = some (change, moved)) :
    ∃ after, heap.rotateTwice slot dir = some (change, after) ∧
      heap.Moved after slot tree moved := by
  obtain ⟨oldRoot, oldBf, near, other, otherBf, middle, bf, inner, outer, far, rfl, rfl, rfl⟩ :=
    rotateTwice_some rotated
  obtain ⟨here, -, coversNear, there, -, ⟨between, rfl, coversInner, coversOuter⟩, coversFar⟩ := by
    simpa only [covers_link] using covers
  have split : (AvlTree.link dir oldRoot oldBf near (.link dir other otherBf
      (.link dir middle (heap.bf middle) inner outer) far)).inorder.Perm
      ([oldRoot, other, middle] ++
        (near.inorder ++ inner.inorder ++ outer.inorder ++ far.inorder)) := by
    rw [List.perm_iff_count]
    cases dir <;> simp [AvlTree.link, AvlTree.inorder, List.count_cons] <;> omega
  have among := fun m mem => split.mem_iff.mpr (List.mem_append_left (a := m) _ mem)
  have triple := (List.nodup_append'.mp (split.nodup_iff.mp nodup)).1
  obtain ⟨after, rotation, stored⟩ :=
    rotateTwice_stores here there between triple (off.mono among)
  have same := stored.confined.same_rest nodup off split
  have sameNear : heap.Same after near.inorder := same.mono (by simp +contextual)
  have sameInner : heap.Same after inner.inorder := same.mono (by simp +contextual)
  have sameOuter : heap.Same after outer.inorder := same.mono (by simp +contextual)
  have sameFar : heap.Same after far.inorder := same.mono (by simp +contextual)
  refine ⟨after, rotation, ?_, ?_, ?_, stored.confined.mono among⟩
  · simp only [covers_link, stored.root, stored.lowered, stored.raised, stored.near, stored.inner,
      stored.outer, stored.far, stored.oldBf, stored.otherBf, stored.middleBf, true_and]
    exact ⟨⟨coversNear.of_same sameNear, coversInner.of_same sameInner⟩,
      coversOuter.of_same sameOuter, coversFar.of_same sameFar⟩
  · simp only [ends_link, stored.near, stored.inner, stored.outer, stored.far]
    rw [ends_of_same sameNear, ends_of_same sameInner, ends_of_same sameOuter,
      ends_of_same sameFar, sides_assoc, sides_assoc]
  · cases dir <;> simp [AvlTree.link, AvlTree.inorder]

theorem turn_moved {twice : Prop} [Decidable twice]
    (rotated : (if twice then tree.rotateTwice dir else tree.rotateOnce dir) =
      some (change, moved)) :
    ∃ after, (if twice then heap.rotateTwice slot dir else heap.rotateOnce slot dir) =
        some (change, after) ∧ heap.Moved after slot tree moved := by
  split at rotated
  next inside =>
    rw [if_pos inside]
    exact rotateTwice_moved covers nodup off rotated
  next outside =>
    rw [if_neg outside]
    exact rotateOnce_moved covers nodup off rotated

theorem rebalance_moved (rebalanced : tree.rebalance = some (change, moved)) :
    ∃ after, heap.rebalance slot = some (change, after) ∧ heap.Moved after slot tree moved := by
  cases tree with
  | null => cases rebalanced
  | node root bf left right =>
    have whole := covers
    obtain ⟨here, factor, coversLeft, coversRight⟩ := covers
    simp only [AvlTree.rebalance, AvlTree.balanceFactor, Option.bind_eq_bind,
      Option.bind_some] at rebalanced
    simp only [rebalance, here, factor, Option.bind_eq_bind, Option.bind_some]
    split at rebalanced
    next tooLow =>
      rw [if_pos tooLow]
      cases left with
      | null => cases rebalanced
      | node o otherBf _ _ =>
        simp only [coversLeft.1, coversLeft.2.1, Option.bind_some] at rebalanced ⊢
        exact turn_moved whole nodup off rebalanced
    next notLow =>
      rw [if_neg notLow]
      split at rebalanced
      next tooHigh =>
        rw [if_pos tooHigh]
        cases right with
        | null => cases rebalanced
        | node o otherBf _ _ =>
          simp only [coversRight.1, coversRight.2.1, Option.bind_some] at rebalanced ⊢
          exact turn_moved whole nodup off rebalanced
      next notHigh =>
        rw [if_neg notHigh]
        cases rebalanced
        exact ⟨heap, rfl, whole, rfl, rfl, .refl heap slot _⟩

end

/-- `rebalance` after a change of the tree. -/
theorem Moved.rebalance {next : NodeHeap α} {tree between : AvlTree α}
    (changed : heap.Moved next slot tree between) (nodup : tree.inorder.Nodup)
    (off : slot.Off tree.inorder) (rebalanced : between.rebalance = some (change, moved)) :
    ∃ after, next.rebalance slot = some (change, after) ∧ heap.Moved after slot tree moved := by
  rw [← changed.nodes] at nodup off
  obtain ⟨after, rebalancedHeap, res⟩ :=
    rebalance_moved changed.covers nodup off rebalanced
  exact ⟨after, rebalancedHeap, changed.trans res⟩

end Rotations

end Xdk.Avl.NodeHeap
