import Mathlib.Data.List.Perm.Basic
import Xdk.Avl.Tree
import Xdk.Lib.Transition

/-! # The tree stays ordered and balanced

A subtree is good if every balance factor in it is the difference of the heights and at
most one.  `insert` and `remove` are proved for every good subtree: they do not fail, they
leave a good subtree, `change` is what has happened to the height, and the list of the
nodes in order has gained or lost the one node.  All that the callers on the way to the
root need to know about the subtree below is in that.
-/

namespace Xdk.Avl

open Xdk.Lib Cmp

def Dir.cmp : Dir → Cmp
  | .left => .min
  | .right => .max

namespace AvlTree

variable {α : Type} {κ : Type*}

def Balanced : AvlTree α → Prop
  | .null => True
  | .node _ bf left right =>
    left.Balanced ∧ right.Balanced ∧ bf = right.height - left.height ∧ -1 ≤ bf ∧ bf ≤ 1

theorem isNull_iff {t : AvlTree α} : t.isNull = true ↔ t = .null := by
  cases t <;> simp [isNull]

/-! ## Rotations -/

def newBfs (dir : Dir) (bf : Int) : Int × Int :=
  match dir with
  | .left => (-max bf 0, -min bf 0)
  | .right => (-min bf 0, -max bf 0)

section Rotations

variable {other middle : α} {otherBf middleBf : Int} {near inner outer : AvlTree α}

/-- What becomes of a node with these subtrees: a balanced tree of the same nodes, which is
    lower by `changed`. -/
structure Settled (n : α) (left right : AvlTree α) (changed : Int) (tree : AvlTree α) : Prop where
  balanced : tree.Balanced
  nodes : tree.inorder = left.inorder ++ n :: right.inorder
  cases : changed = heightNochange ∨ changed = heightChange
  lower : (tree.height : Int) + changed = 1 + max left.height right.height

theorem height_link (dir : Dir) (n : α) (bf : Int) (near far : AvlTree α) :
    (link dir n bf near far).height = 1 + max near.height far.height := by
  cases dir with
  | left => rfl
  | right =>
    rw [Nat.max_comm]
    rfl

theorem exists_link (dir : Dir) (n : α) (bf : Int) (left right : AvlTree α) :
    ∃ near far, node n bf left right = link dir n bf near far := by
  cases dir <;> exact ⟨_, _, rfl⟩

theorem balanced_link {dir : Dir} {n : α} {bf : Int} {far : AvlTree α} :
    (link dir n bf near far).Balanced ↔ near.Balanced ∧ far.Balanced ∧
      bf = dir.cmp.value * (near.height - far.height) ∧ -1 ≤ bf ∧ bf ≤ 1 := by
  cases dir with
  | left => simp only [link, Balanced, Dir.cmp, value, Int.neg_one_mul, Int.neg_sub]
  | right =>
    simp only [link, Balanced, Dir.cmp, value, Int.one_mul]
    rw [and_left_comm]

variable {n : α} {bf changed : Int} {left right far tree : AvlTree α} {dir : Dir}

theorem Settled.of_link (shape : node n bf left right = link dir n bf near far)
    (balanced : tree.Balanced) (nodes : tree.inorder = (link dir n bf near far).inorder)
    (cases : changed = heightNochange ∨ changed = heightChange)
    (lower : (tree.height : Int) + changed = 1 + max near.height far.height) :
    Settled n left right changed tree := by
  have height := height_link dir n bf near far
  rw [← shape] at nodes height
  simp only [AvlTree.height] at height
  exact ⟨balanced, nodes, cases, by omega⟩

/-- The far side is too high, and not because of its inner subtree. -/
theorem rotateOnce_settled
    (shape : node n bf left right = link dir n bf near (link dir other otherBf inner outer))
    (nearBalanced : near.Balanced) (otherBalanced : (link dir other otherBf inner outer).Balanced)
    (high : (link dir other otherBf inner outer).height = near.height + 2)
    (outside : otherBf ≠ dir.cmp.value) :
    ∃ changed tree, rotateOnce (.node n bf left right) dir = some (changed, tree) ∧
      Settled n left right changed tree := by
  obtain ⟨innerBalanced, outerBalanced, factor, lo, upper⟩ := balanced_link.mp otherBalanced
  have rotated : rotateOnce (.node n bf left right) dir =
      some (if otherBf = 0 then heightNochange else heightChange,
        link dir other (otherBf + dir.cmp.value)
          (link dir n (-(otherBf + dir.cmp.value)) near inner) outer) := by
    rw [shape]
    cases dir <;> rfl
  rw [height_link] at high
  refine ⟨_, _, rotated, .of_link shape (balanced_link.mpr
    ⟨balanced_link.mpr ⟨nearBalanced, innerBalanced, ?lowered⟩, outerBalanced, ?root⟩)
    ?nodes ?cases ?lo⟩
  case nodes => cases dir <;> simp [link, inorder]
  case lowered => cases dir <;> simp only [Dir.cmp, value] at factor outside ⊢ <;> omega
  all_goals
    simp only [height_link, heightNochange, heightChange]
    cases dir <;> simp only [Dir.cmp, value] at factor outside ⊢ <;> omega

/-- The far side is too high because of its inner subtree, whose root comes up. -/
theorem rotateTwice_settled {innerNear innerFar : AvlTree α}
    (shape : node n bf left right = link dir n bf near
      (link dir other dir.cmp.value (link dir middle middleBf innerNear innerFar) outer))
    (nearBalanced : near.Balanced)
    (otherBalanced : (link dir other dir.cmp.value
      (link dir middle middleBf innerNear innerFar) outer).Balanced)
    (high : (link dir other dir.cmp.value
      (link dir middle middleBf innerNear innerFar) outer).height = near.height + 2) :
    ∃ changed tree, rotateTwice (.node n bf left right) dir = some (changed, tree) ∧
      Settled n left right changed tree := by
  obtain ⟨middleBalanced, outerBalanced, factor, -, -⟩ := balanced_link.mp otherBalanced
  obtain ⟨innerNearBalanced, innerFarBalanced, middleFactor, lo, upper⟩ :=
    balanced_link.mp middleBalanced
  have rotated : rotateTwice (.node n bf left right) dir =
      some (heightChange, link dir middle 0 (link dir n (newBfs dir middleBf).1 near innerNear)
        (link dir other (newBfs dir middleBf).2 innerFar outer)) := by
    rw [shape]
    cases dir <;> rfl
  simp only [height_link] at high factor
  refine ⟨_, _, rotated, .of_link shape (balanced_link.mpr
    ⟨balanced_link.mpr ⟨nearBalanced, innerNearBalanced, ?lowered⟩,
      balanced_link.mpr ⟨innerFarBalanced, outerBalanced, ?raised⟩, ?root⟩)
    ?nodes (.inr rfl) ?lo⟩
  case nodes => cases dir <;> simp [link, inorder]
  case root =>
    simp only [height_link]
    cases dir <;> simp only [Dir.cmp, value] at factor middleFactor ⊢ <;> omega
  case lo =>
    simp only [height_link, heightChange]
    cases dir <;> simp only [Dir.cmp, value] at factor middleFactor ⊢ <;> omega
  all_goals
    cases dir <;> simp only [newBfs, Dir.cmp, value] at factor middleFactor ⊢ <;> omega

end Rotations

/-! ## The end of a call -/

section Rebalance

variable {n : α} {bf : Int} {left right near far : AvlTree α} {dir : Dir}

/-- `rebalance` of a node whose far side is too high by two. -/
theorem rebalance_high (shape : node n bf left right = link dir n bf near far)
    (nearBalanced : near.Balanced) (farBalanced : far.Balanced)
    (factor : bf = dir.cmp.value * (near.height - far.height))
    (high : far.height = near.height + 2) :
    ∃ changed tree, rebalance (.node n bf left right) = some (changed, tree) ∧
      Settled n left right changed tree := by
  cases far with
  | null => cases high
  | node o otherBf otherLeft otherRight =>
    obtain ⟨inner, outer, otherShape⟩ := exists_link dir o otherBf otherLeft otherRight
    rw [otherShape] at shape farBalanced high factor
    obtain rfl : bf = -2 * dir.cmp.value := by
      rw [factor, high]
      cases dir <;> simp only [Dir.cmp] <;> omega
    have rebalances : rebalance (.node n (-2 * dir.cmp.value) left right) =
        if otherBf = dir.cmp.value then rotateTwice (.node n (-2 * dir.cmp.value) left right) dir
        else rotateOnce (.node n (-2 * dir.cmp.value) left right) dir := by
      rw [shape]
      cases dir <;> rfl
    rw [rebalances]
    split
    next heavy =>
      subst heavy
      cases inner with
      | null =>
        -- the inner side is the higher one, so it is not empty
        have factor := (balanced_link.mp farBalanced).2.2.1
        cases dir <;> simp only [Dir.cmp, value, height] at factor <;> omega
      | node middle middleBf middleLeft middleRight =>
        obtain ⟨innerNear, innerFar, middleShape⟩ :=
          exists_link dir middle middleBf middleLeft middleRight
        rw [middleShape] at shape farBalanced high
        exact rotateTwice_settled shape nearBalanced farBalanced high
    next notHeavy => exact rotateOnce_settled shape nearBalanced farBalanced high notHeavy

/-- `rebalance` leaves a balanced tree alone, and takes care of a difference of two. -/
theorem rebalance_settled (leftBalanced : left.Balanced) (rightBalanced : right.Balanced)
    (factor : bf = right.height - left.height) (lower : -2 ≤ bf) (upper : bf ≤ 2) :
    ∃ changed tree, rebalance (.node n bf left right) = some (changed, tree) ∧
      Settled n left right changed tree ∧
      (-1 ≤ bf → bf ≤ 1 → changed = heightNochange) := by
  by_cases leftHigh : bf = -2
  · obtain ⟨changed, tree, rebalanced, settled⟩ :=
      @rebalance_high _ n bf left right right left .right rfl rightBalanced leftBalanced
        (by simp only [Dir.cmp, value]; omega) (by omega)
    exact ⟨changed, tree, rebalanced, settled, fun _ => by omega⟩
  · by_cases rightHigh : bf = 2
    · obtain ⟨changed, tree, rebalanced, settled⟩ :=
        @rebalance_high _ n bf left right left right .left rfl leftBalanced rightBalanced
          (by simp only [Dir.cmp, value]; omega) (by omega)
      exact ⟨changed, tree, rebalanced, settled, fun _ => by omega⟩
    · have notLow : ¬ bf < leftHeavy := by
        simp only [leftHeavy]
        omega
      have notHigh : ¬ bf > rightHeavy := by
        simp only [rightHeavy]
        omega
      have rebalances : rebalance (.node n bf left right) =
          some (heightNochange, .node n bf left right) := by
        simp [rebalance, balanceFactor, notLow, notHigh]
      refine ⟨_, _, rebalances, ⟨?_, rfl, .inl rfl, ?_⟩, fun _ _ => rfl⟩
      · exact ⟨leftBalanced, rightBalanced, factor, by omega, by omega⟩
      · simp only [height, heightNochange]
        omega

/-- What a call leaves: a balanced tree of these nodes and of this height, and a `change`
    that is 0 or 1. -/
structure Returned (nodes : List α) (height : Int) (tree : AvlTree α) (change : Int) : Prop where
  balanced : tree.Balanced
  nodes : tree.inorder = nodes
  cases : change = heightNochange ∨ change = heightChange
  height : (tree.height : Int) = height

theorem balanceFactor_link (dir : Dir) (n : α) (bf : Int) (near far : AvlTree α) :
    (link dir n bf near far).balanceFactor = some bf := by
  cases dir <;> rfl

theorem rebalance_link (n : α) (nearBalanced : near.Balanced) (farBalanced : far.Balanced)
    (factor : bf = dir.cmp.value * (near.height - far.height)) (lower : -2 ≤ bf) (upper : bf ≤ 2) :
    ∃ changed tree, rebalance (link dir n bf near far) = some (changed, tree) ∧
      tree.Balanced ∧ tree.inorder = (link dir n bf near far).inorder ∧
      (changed = heightNochange ∨ changed = heightChange) ∧
      (tree.height : Int) + changed = 1 + max near.height far.height ∧
      (-1 ≤ bf → bf ≤ 1 → changed = heightNochange) := by
  cases dir with
  | left =>
    obtain ⟨changed, tree, rebalanced, settled, kept⟩ := rebalance_settled (n := n) nearBalanced
      farBalanced (by simp only [Dir.cmp, value] at factor; omega) lower upper
    exact ⟨changed, tree, rebalanced, settled.balanced, settled.nodes, settled.cases,
      settled.lower, kept⟩
  | right =>
    obtain ⟨changed, tree, rebalanced, settled, kept⟩ := rebalance_settled (n := n) farBalanced
      nearBalanced (by simp only [Dir.cmp, value] at factor; omega) lower upper
    exact ⟨changed, tree, rebalanced, settled.balanced, settled.nodes, settled.cases,
      by rw [max_comm]; exact settled.lower, kept⟩

variable {near' : AvlTree α} {nodes : List α} {change : Int}

/-- The end of `insert`, where the near subtree may have become higher. -/
theorem afterIncrease_returned (dir : Dir) (balanced : (link dir n bf near far).Balanced)
    (grown : Returned nodes (near.height + change) near' change) :
    ∃ tree change', afterIncrease (dir.cmp.value * change)
        (link dir n (bf + dir.cmp.value * change) near' far) = some (tree, change') ∧
      Returned (link dir n bf near' far).inorder ((link dir n bf near far).height + change')
        tree change' := by
  obtain ⟨nearBalanced, farBalanced, factor, lower, upper⟩ := balanced_link.mp balanced
  have cases := grown.cases
  have height := grown.height
  simp only [heightNochange, heightChange] at cases
  obtain ⟨factor', least, most⟩ : bf + dir.cmp.value * change =
      dir.cmp.value * (near'.height - far.height) ∧ -2 ≤ bf + dir.cmp.value * change ∧
      bf + dir.cmp.value * change ≤ 2 := by
    cases dir <;> simp only [Dir.cmp, value] at factor ⊢ <;> omega
  rw [height_link]
  by_cases unchanged : dir.cmp.value * change ≠ 0 ∧ bf + dir.cmp.value * change ≠ 0
  · obtain ⟨changed, tree, rebalanced, balanced, nodes, cases', lower', kept⟩ :=
      rebalance_link n grown.balanced farBalanced factor' least most
    simp only [heightNochange, heightChange] at cases' kept
    refine ⟨tree, 1 - changed, ?_, balanced, nodes.trans (by cases dir <;> rfl), ?_, ?_⟩
    · simp only [afterIncrease, balanceFactor_link, Option.bind_eq_bind, Option.bind_some,
        if_pos unchanged, rebalanced]
      rfl
    · simp only [heightNochange, heightChange]
      omega
    · by_cases even : -1 ≤ bf + dir.cmp.value * change ∧ bf + dir.cmp.value * change ≤ 1
      · have := kept even.1 even.2
        cases dir <;> simp only [Dir.cmp, value] at * <;> omega
      · cases dir <;> simp only [Dir.cmp, value] at * <;> omega
  · refine ⟨link dir n (bf + dir.cmp.value * change) near' far, heightNochange, ?_,
      balanced_link.mpr ⟨grown.balanced, farBalanced, factor', ?_⟩, by cases dir <;> rfl,
      .inl rfl, ?_⟩
    · simp only [afterIncrease, balanceFactor_link, Option.bind_eq_bind, Option.bind_some,
        if_neg unchanged]
      rfl
    · cases dir <;> simp only [Dir.cmp, value] at * <;> omega
    · rw [height_link]
      cases dir <;> simp only [Dir.cmp, value, heightNochange] at * <;> omega

/-- The end of `remove`, where the near subtree may have become lower. -/
theorem afterDecrease_returned (dir : Dir) (balanced : (link dir n bf near far).Balanced)
    (shrunk : Returned nodes (near.height - change) near' change) :
    ∃ tree change', afterDecrease (dir.cmp.value * change)
        (link dir n (bf - dir.cmp.value * change) near' far) = some (tree, change') ∧
      Returned (link dir n bf near' far).inorder ((link dir n bf near far).height - change')
        tree change' := by
  obtain ⟨nearBalanced, farBalanced, factor, lower, upper⟩ := balanced_link.mp balanced
  have cases := shrunk.cases
  have height := shrunk.height
  simp only [heightNochange, heightChange] at cases
  obtain ⟨factor', least, most⟩ : bf - dir.cmp.value * change =
      dir.cmp.value * (near'.height - far.height) ∧ -2 ≤ bf - dir.cmp.value * change ∧
      bf - dir.cmp.value * change ≤ 2 := by
    cases dir <;> simp only [Dir.cmp, value] at factor ⊢ <;> omega
  rw [height_link]
  by_cases uneven : dir.cmp.value * change ≠ 0 ∧ bf - dir.cmp.value * change ≠ 0
  · obtain ⟨changed, tree, rebalanced, balanced, nodes, cases', lower', kept⟩ :=
      rebalance_link n shrunk.balanced farBalanced factor' least most
    simp only [heightNochange, heightChange] at cases' kept
    refine ⟨tree, changed, ?_, balanced, nodes.trans (by cases dir <;> rfl), cases', ?_⟩
    · simp only [afterDecrease, balanceFactor_link, Option.bind_eq_bind, Option.bind_some,
        if_pos uneven.1, if_pos uneven.2, rebalanced]
      rfl
    · by_cases even : -1 ≤ bf - dir.cmp.value * change ∧ bf - dir.cmp.value * change ≤ 1
      · have := kept even.1 even.2
        cases dir <;> simp only [Dir.cmp, value] at * <;> omega
      · cases dir <;> simp only [Dir.cmp, value] at * <;> omega
  · refine ⟨link dir n (bf - dir.cmp.value * change) near' far, change, ?_, balanced_link.mpr
      ⟨shrunk.balanced, farBalanced, factor', ?_⟩, by cases dir <;> rfl, cases, ?_⟩
    · have nonzero : dir.cmp.value ≠ 0 := by cases dir <;> decide
      obtain rfl | rfl := cases <;>
        simp_all [afterDecrease, balanceFactor_link, heightNochange, heightChange]
    · cases dir <;> simp only [Dir.cmp, value] at * <;> omega
    · rw [height_link]
      cases dir <;> simp only [Dir.cmp, value] at * <;> omega

end Rebalance

/-! ## Insertion -/

section Insertion

variable [LinearOrder κ] {key : α → κ}

def Sorted (key : α → κ) (nodes : List α) : Prop := nodes.Pairwise fun a b => key a < key b

variable {n : α}

theorem sorted_node {left right : List α} :
    Sorted key (left ++ n :: right) ↔
      Sorted key left ∧ Sorted key right ∧ (∀ m ∈ left, key m < key n) ∧
        (∀ m ∈ right, key n < key m) := by
  simp only [Sorted, List.pairwise_append, List.pairwise_cons, List.mem_cons]
  constructor
  · rintro ⟨left, ⟨above, right⟩, across⟩
    exact ⟨left, right, fun m inLeft => across m inLeft n (.inl rfl), above⟩
  · rintro ⟨left, right, lt, above⟩
    refine ⟨left, ⟨above, right⟩, fun a inLeft b => ?_⟩
    rintro (rfl | inRight)
    · exact lt a inLeft
    · exact (lt a inLeft).trans (above b inRight)

variable {this : α}

theorem compare_min (lo : key n < key this) : compare key this n = .min := by
  simp [compare, higher, lo]

theorem compare_max (above : key this < key n) : compare key this n = .max := by
  simp [compare, higher, above, above.le.not_gt]

theorem compare_eq (same : key this = key n) : compare key this n = .eq := by
  simp [compare, higher, same]

/-- `insert` puts a node whose key is new where it belongs, and `change` says whether the
    subtree has become higher. -/
theorem insert_returned (n : α) {t : AvlTree α} (balanced : t.Balanced)
    (sorted : Sorted key t.inorder) (fresh : ∀ m ∈ t.inorder, key m ≠ key n) :
    ∃ after change front back, insert key n t = some (after, change) ∧
      t.inorder = front ++ back ∧ (∀ m ∈ front, key m < key n) ∧
      (∀ m ∈ back, key n < key m) ∧
      Returned (front ++ n :: back) (t.height + change) after change := by
  induction t with
  | null =>
    refine ⟨_, _, [], [], rfl, rfl, fun _ mem => absurd mem List.not_mem_nil,
      fun _ mem => absurd mem List.not_mem_nil, ?_, rfl, .inr rfl, rfl⟩
    exact ⟨trivial, trivial, rfl, by decide, by decide⟩
  | node root bf left right ihLeft ihRight =>
    simp only [inorder, List.mem_append, List.mem_cons] at sorted fresh
    obtain ⟨leftSorted, rightSorted, lt, above⟩ := sorted_node.mp sorted
    obtain lowerKey | sameKey | higherKey := lt_trichotomy (key n) (key root)
    · obtain ⟨left', change, front, back, inserted, nodes, before, behind, returned⟩ :=
        ihLeft balanced.1 leftSorted fun m mem => fresh m (.inl mem)
      obtain ⟨t, change', finished, res⟩ := afterIncrease_returned .left balanced returned
      refine ⟨t, change', front, back ++ root :: right.inorder, ?_, ?_, before, ?_,
        res.balanced, ?_, res.cases, res.height⟩
      · simp only [insertAs, compare_min lowerKey, inserted]
        exact finished
      · simp [inorder, nodes]
      · intro m mem
        obtain inBack | rfl | inRight := by simpa using mem
        · exact behind m inBack
        · exact lowerKey
        · exact lowerKey.trans (above m inRight)
      · simp [res.nodes, link, inorder, returned.nodes]
    · exact absurd sameKey.symm (fresh root (.inr (.inl rfl)))
    · obtain ⟨right', change, front, back, inserted, nodes, before, behind, returned⟩ :=
        ihRight balanced.2.1 rightSorted fun m mem => fresh m (.inr (.inr mem))
      obtain ⟨t, change', finished, res⟩ := afterIncrease_returned .right balanced returned
      refine ⟨t, change', left.inorder ++ root :: front, back, ?_, ?_, ?_, behind,
        res.balanced, ?_, res.cases, res.height⟩
      · simp only [insertAs, compare_max higherKey, inserted]
        exact finished
      · simp [inorder, nodes]
      · intro m mem
        obtain inLeft | rfl | inFront := by simpa using mem
        · exact (lt m inLeft).trans higherKey
        · exact higherKey
        · exact before m inFront
      · simp [res.nodes, link, inorder, returned.nodes]

end Insertion

/-! ## Removal -/

section Removal

variable [LinearOrder κ] {key : α → κ} {n root : α} {bf : Int} {left right : AvlTree α}

/-- `remove` in a node whose near subtree has lost a node. -/
theorem remove_node {ret : α} {change : Int} {near near' far : AvlTree α} {cmp : Cmp} (dir : Dir)
    {nodes : List α} (balanced : (link dir root bf near far).Balanced)
    (goes : compareWith key root ((link dir root bf near far).subtree .left)
      ((link dir root bf near far).subtree .right) n cmp = dir.cmp)
    (removed : remove key n cmp near = some (some ret, near', change))
    (returned : Returned nodes (near.height - change) near' change) :
    ∃ tree change', remove key n cmp (link dir root bf near far) =
        some (some ret, tree, change') ∧
      Returned (link dir root bf near' far).inorder ((link dir root bf near far).height - change')
        tree change' := by
  obtain ⟨tree, change', finished, res⟩ := afterDecrease_returned dir balanced returned
  refine ⟨tree, change', ?_, res⟩
  cases dir <;>
    simp only [link, subtree, Dir.cmp] at goes finished ⊢ <;>
    simp only [remove, goes, removed, Option.bind_eq_bind, Option.bind_some, finished] <;> rfl

/-- With `.min` the first node is removed. -/
theorem remove_min_returned (key : α → κ) (n : α) {tree : AvlTree α} (balanced : tree.Balanced)
    (present : tree ≠ .null) :
    ∃ first after change nodes, remove key n .min tree = some (some first, after, change) ∧
      tree.inorder = first :: nodes ∧ Returned nodes (tree.height - change) after change := by
  induction tree with
  | null => exact absurd rfl present
  | node root bf left right ihLeft _ =>
    cases left with
    | null =>
      obtain ⟨_, rightBalanced, factor, lower, upper⟩ := balanced
      refine ⟨root, right, heightChange, right.inorder, ?_, rfl, rightBalanced, rfl, .inr rfl, ?_⟩
      · cases right <;> rfl
      · simp only [AvlTree.height, heightChange]
        omega
    | node leftRoot leftBf leftLeft leftRight =>
      obtain ⟨first, left', change, nodes, removed, listed, returned⟩ :=
        ihLeft balanced.1 (fun same => by cases same)
      obtain ⟨tree, change', finished, res⟩ :=
        remove_node .left balanced rfl removed returned
      refine ⟨first, tree, change', _, finished, ?_, res⟩
      rw [inorder, listed, link, inorder, returned.nodes]
      rfl

/-- The node itself is removed, and its successor takes its place. -/
theorem remove_root_returned (balanced : (node root bf left right).Balanced)
    (found : compare key root n = .eq) :
    ∃ tree change, remove key n .eq (.node root bf left right) = some (some root, tree, change) ∧
      Returned (left.inorder ++ right.inorder) ((node root bf left right).height - change)
        tree change := by
  have ⟨leftBalanced, rightBalanced, factor, lower, upper⟩ := balanced
  by_cases leftNull : left = .null
  · subst leftNull
    refine ⟨right, heightChange, ?_, rightBalanced, rfl, .inr rfl, ?_⟩
    · rw [remove, compareWith, found]
      cases right <;> rfl
    · simp only [AvlTree.height, heightChange]
      omega
  · by_cases rightNull : right = .null
    · subst rightNull
      refine ⟨left, heightChange, ?_, leftBalanced, by simp [inorder], .inr rfl, ?_⟩
      · rw [remove, compareWith, found]
        cases left with
        | null => exact absurd rfl leftNull
        | node _ _ _ _ => rfl
      · simp only [AvlTree.height, heightChange]
        omega
    · obtain ⟨successor, right', decrease, nodes, removed, listed, returned⟩ :=
        remove_min_returned key n rightBalanced rightNull
      obtain ⟨tree, change, finished, res⟩ := afterDecrease_returned .right
        (n := successor) (show (node successor bf left right).Balanced from balanced) returned
      refine ⟨tree, change, ?_, res.balanced, ?_, res.cases, res.height⟩
      · rw [← isNull_iff] at leftNull rightNull
        rw [remove, compareWith, found]
        simp only [leftNull, rightNull,
          removed, Option.bind_eq_bind, Option.bind_some]
        simp only [Dir.cmp, value, Int.one_mul, link] at finished
        rw [finished]
        rfl
      · simp [res.nodes, link, inorder, returned.nodes, listed]

/-- `remove` takes out a node of the tree, and `change` says whether the subtree has become
    lower. -/
theorem remove_returned {t : AvlTree α} (balanced : t.Balanced)
    (sorted : Sorted key t.inorder) (present : n ∈ t.inorder) :
    ∃ after change front back, remove key n .eq t = some (some n, after, change) ∧
      t.inorder = front ++ n :: back ∧
      Returned (front ++ back) (t.height - change) after change := by
  induction t with
  | null => exact absurd present List.not_mem_nil
  | node root bf left right ihLeft ihRight =>
    obtain ⟨leftSorted, rightSorted, lt, above⟩ := sorted_node.mp sorted
    obtain inLeft | rfl | inRight := by
      simpa only [inorder, List.mem_append, List.mem_cons] using present
    · obtain ⟨left', change, front, back, removed, nodes, returned⟩ :=
        ihLeft balanced.1 leftSorted inLeft
      have goesLeft : compareWith key root left right n .eq = .min := compare_min (lt n inLeft)
      obtain ⟨t, change', finished, res⟩ :=
        remove_node .left balanced goesLeft removed returned
      refine ⟨t, change', front, back ++ root :: right.inorder, finished, ?_, ?_⟩
      · simp [inorder, nodes]
      · simpa [link, inorder, returned.nodes] using res
    · have found : compare key n n = .eq := compare_eq rfl
      obtain ⟨t, change, finished, res⟩ := remove_root_returned balanced found
      exact ⟨t, change, left.inorder, right.inorder, finished, rfl, res⟩
    · obtain ⟨right', change, front, back, removed, nodes, returned⟩ :=
        ihRight balanced.2.1 rightSorted inRight
      have goesRight : compareWith key root left right n .eq = .max := compare_max (above n inRight)
      obtain ⟨t, change', finished, res⟩ :=
        remove_node .right balanced goesRight removed returned
      refine ⟨t, change', left.inorder ++ root :: front, back, finished, ?_, ?_⟩
      · simp [inorder, nodes]
      · simpa [link, inorder, returned.nodes] using res

end Removal

/-! ## Every sequence of calls -/

inductive Within : AvlTree α → AvlTree α → Prop where
  | refl (tree : AvlTree α) : Within tree tree
  | left {tree left right : AvlTree α} {n : α} {bf : Int} :
      Within tree left → Within tree (.node n bf left right)
  | right {tree left right : AvlTree α} {n : α} {bf : Int} :
      Within tree right → Within tree (.node n bf left right)

theorem Within.good [LinearOrder κ] {key : α → κ} {sub t : AvlTree α} (within : Within sub t)
    (balanced : t.Balanced) (sorted : Sorted key t.inorder) :
    sub.Balanced ∧ Sorted key sub.inorder := by
  induction within with
  | refl => exact ⟨balanced, sorted⟩
  | left _ ih =>
    exact ih balanced.1 (sorted_node.mp sorted).1
  | right _ ih =>
    exact ih balanced.2.1 (sorted_node.mp sorted).2.1

end AvlTree

structure History (α : Type) where
  tree : AvlTree α
  members : List α

inductive AvlEvent (α : Type) where
  | insertNode (n : α)
  | removeNode (n : α)

namespace History

open AvlTree

variable {α : Type} {κ : Type*} [DecidableEq α] [LinearOrder κ] (key : α → κ)

def init : History α := ⟨.null, []⟩

def step (h : History α) : AvlEvent α → Option (History α)
  | .insertNode n => (h.tree.insertNode key n).map fun tree => ⟨tree, n :: h.members⟩
  | .removeNode n => (h.tree.removeNode key n).map fun tree => ⟨tree, h.members.erase n⟩

/-- A new node has a new key, and only nodes of the tree are removed. -/
def Allowed (h : History α) : AvlEvent α → Prop
  | .insertNode n => ∀ m ∈ h.members, key m ≠ key n
  | .removeNode n => n ∈ h.members

instance (h : History α) (event : AvlEvent α) : Decidable (Allowed key h event) :=
  match event with
  | .insertNode n => inferInstanceAs (Decidable (∀ m ∈ h.members, key m ≠ key n))
  | .removeNode n => inferInstanceAs (Decidable (n ∈ h.members))

/-- What the tree is: the set of its members in order, balanced, and honest about the
    height of every subtree in which a node is inserted or removed. -/
structure BalancedSet (h : History α) : Prop where
  sorted : Sorted key h.tree.inorder
  members : h.tree.inorder.Perm h.members
  balanced : h.tree.Balanced
  insertion : ∀ sub, Within sub h.tree → ∀ n, (∀ m ∈ sub.inorder, key m ≠ key n) →
    ∃ after change, insert key n sub = some (after, change) ∧
      (change = 0 ∨ change = 1) ∧ (change = 1 ↔ after.height ≠ sub.height)
  removal : ∀ sub, Within sub h.tree → ∀ n ∈ sub.inorder,
    ∃ after change, remove key n .eq sub = some (some n, after, change) ∧
      (change = 0 ∨ change = 1) ∧ (change = 1 ↔ after.height ≠ sub.height)
  removalMin : ∀ sub, Within sub h.tree → sub ≠ .null → ∀ n,
    ∃ first after change, remove key n .min sub = some (some first, after, change) ∧
      sub.inorder.head? = some first ∧
      (change = 0 ∨ change = 1) ∧ (change = 1 ↔ after.height ≠ sub.height)

variable {key}

structure Good (key : α → κ) (h : History α) : Prop where
  sorted : Sorted key h.tree.inorder
  members : h.tree.inorder.Perm h.members
  balanced : h.tree.Balanced

theorem Good.step {h h' : History α} {ev : AvlEvent α} (good : Good key h)
    (ok : Allowed key h ev) (made : step key h ev = some h') : Good key h' := by
  cases ev with
  | insertNode n =>
    obtain ⟨t, change, front, back, inserted, nodes, before, behind, returned⟩ :=
      insert_returned n good.balanced good.sorted fun m mem =>
        ok m (good.members.mem_iff.mp mem)
    have sorted := good.sorted
    have members := good.members
    simp only [History.step, insertNode, inserted, Option.map_some, Option.some.injEq] at made
    subst made
    rw [nodes] at sorted members
    obtain ⟨frontSorted, backSorted, _⟩ := List.pairwise_append.mp sorted
    refine ⟨?_, ?_, returned.balanced⟩
    · rw [returned.nodes]
      exact sorted_node.mpr ⟨frontSorted, backSorted, before, behind⟩
    · rw [returned.nodes]
      exact List.perm_middle.trans (members.cons n)
  | removeNode n =>
    obtain ⟨t, change, front, back, removed, nodes, returned⟩ :=
      remove_returned good.balanced good.sorted (good.members.mem_iff.mpr ok)
    have sorted := good.sorted
    have members := good.members
    simp only [History.step, removeNode, removed, Option.map_some, Option.some.injEq] at made
    subst made
    rw [nodes] at sorted members
    refine ⟨?_, ?_, returned.balanced⟩
    · rw [returned.nodes]
      exact sorted.sublist ((List.sublist_cons_self n back).append_left front)
    · rw [returned.nodes]
      have erased := (List.perm_middle.symm.trans members).erase n
      simpa using erased

theorem Reachable.good {h : History α} (run : Reaches (step key) (Allowed key) init h) :
    Good key h := by
  refine run.invariant ⟨.nil, .refl _, trivial⟩ ?_
  intro before after event good ok made
  exact good.step ok made

/-- For every sequence of insertions of nodes with new keys and of removals of nodes of the
    tree, the tree is the balanced and ordered set of the nodes inserted and not removed,
    no call fails, and `change` is 1 exactly where a subtree has got another height. -/
theorem avl_tree_balanced_set {h : History α} (run : Reaches (step key) (Allowed key) init h) :
    BalancedSet key h := by
  have good := Reachable.good run
  refine ⟨good.sorted, good.members, good.balanced, ?_, ?_, ?_⟩
  · intro sub within n fresh
    obtain ⟨balanced, sorted⟩ := within.good good.balanced good.sorted
    obtain ⟨after, change, _, _, inserted, _, _, _, returned⟩ :=
      insert_returned n balanced sorted fresh
    have height := returned.height
    have cases : change = 0 ∨ change = 1 := returned.cases
    exact ⟨after, change, inserted, cases, by omega⟩
  · intro sub within n present
    obtain ⟨balanced, sorted⟩ := within.good good.balanced good.sorted
    obtain ⟨after, change, _, _, removed, _, returned⟩ := remove_returned balanced sorted present
    have height := returned.height
    have cases : change = 0 ∨ change = 1 := returned.cases
    exact ⟨after, change, removed, cases, by omega⟩
  · intro sub within present n
    obtain ⟨balanced, _⟩ := within.good good.balanced good.sorted
    obtain ⟨first, after, change, nodes, removed, listed, returned⟩ :=
      remove_min_returned key n balanced present
    have height := returned.height
    have cases : change = 0 ∨ change = 1 := returned.cases
    exact ⟨first, after, change, removed, by rw [listed]; rfl, cases, by omega⟩

/-- Five insertions with a double rotation, and the removal of the root, whose successor
    takes its place. -/
theorem avl_tree_balanced_set_five :
    ∃ h : History Nat, Reaches (step id) (Allowed id) init h ∧ h.tree.inorder = [1, 2, 4, 5] ∧
      BalancedSet id h := by
  have executed : ∃ h ∈ execute (step id) (Allowed id)
      [.insertNode 5, .insertNode 1, .insertNode 3, .insertNode 4, .insertNode 2, .removeNode 3]
      (init : History Nat), h.tree.inorder = [1, 2, 4, 5] := by
    decide
  obtain ⟨h, run, nodes⟩ := exists_reaches_of_execute executed
  exact ⟨h, run, nodes, avl_tree_balanced_set run⟩

end History

end Xdk.Avl
