import Mathlib.Algebra.Order.Ring.Int
import Xdk.Avl.Balance

/-! # What the validator sees

`validate` goes through all nodes and compares each of them with its two children.  A child on
the wrong side is noticed.  A child with the same key is not, and neither is a node that is on
the right side of its parent and on the wrong side of a node further up.
-/

namespace Xdk.Avl.AvlTree

variable {α : Type} {κ : Type*}

/-! ## The validator -/

def toShort (value : Int) : Int := value.bmod (2 ^ 16)

def leftImbalance (bal : Int) : Bool := bal < leftHeavy

def rightImbalance (bal : Int) : Bool := bal > rightHeavy

def top : AvlTree α → Option α
  | .null => none
  | .node n _ _ _ => some n

def descendants : AvlTree α → List α
  | .null => []
  | .node _ _ left right => left.inorder ++ right.inorder

section Validation

variable [LinearOrder κ] (key : α → κ)

/-- `validate` of a pointer to the root, which may be null. -/
def validate : AvlTree α → Bool
  | .null => true
  | .node this bf left right =>
    let diff : Int := right.height - left.height
    left.validate && right.validate &&
      !(leftImbalance (toShort diff) || rightImbalance (toShort diff)) &&
      decide (diff = bf) &&
      !(left.top.any fun child => compare key child this = .min) &&
      !(right.top.any fun child => compare key child this = .max)

/-! ## Defects -/

def ShortFactors : AvlTree α → Prop
  | .null => True
  | .node _ bf left right =>
    left.ShortFactors ∧ right.ShortFactors ∧ -2 ^ 15 ≤ bf ∧ bf < 2 ^ 15

def Each (holds : α → Int → AvlTree α → AvlTree α → Prop) : AvlTree α → Prop
  | .null => True
  | .node n bf left right => left.Each holds ∧ right.Each holds ∧ holds n bf left right

/-- A node with nothing that `validate` looks for: the balance factor is right, and no child is
    on the wrong side. -/
structure Fair (n : α) (bf : Int) (left right : AvlTree α) : Prop where
  factor : bf = right.height - left.height
  lower : -1 ≤ bf
  upper : bf ≤ 1
  leftChild : ∀ child ∈ left.top, higher key child n = false
  rightChild : ∀ child ∈ right.top, higher key n child = false

/-- A node with nothing that `validate` misses: no child has the same key, and all nodes below
    the children are on their sides. -/
structure Clear (n : α) (_bf : Int) (left right : AvlTree α) : Prop where
  leftChild : ∀ child ∈ left.top, key child ≠ key n
  rightChild : ∀ child ∈ right.top, key child ≠ key n
  belowLeft : ∀ m ∈ left.descendants, higher key n m = true
  belowRight : ∀ m ∈ right.descendants, higher key m n = true

variable {key} {tree : AvlTree α}

theorem mem_inorder_iff {m : α} :
    m ∈ tree.inorder ↔ m ∈ tree.top ∨ m ∈ tree.descendants := by
  cases tree with
  | null => simp [inorder, top, descendants]
  | node n bf left right =>
    simp only [inorder, top, descendants, List.mem_append, List.mem_cons, Option.mem_some_iff]
    tauto

variable {n : α}

theorem compare_eq_min_iff {this : α} :
    compare key this n = .min ↔ higher key this n = true := by
  simp only [compare]
  split
  next lo => simp [lo]
  next notLower =>
    split <;> simp [notLower]

theorem compare_eq_max_iff {this : α} :
    compare key this n = .max ↔ higher key n this = true := by
  simp only [compare]
  split
  next lo =>
    have above : ¬ key this < key n := (of_decide_eq_true lo).le.not_gt
    simp [higher, above]
  next notLower =>
    split <;> simp_all

/-- The difference of the heights loses nothing as an argument where it is the balance factor. -/
theorem toShort_of_short {bf : Int} (low : -2 ^ 15 ≤ bf) (high : bf < 2 ^ 15) :
    toShort bf = bf := by
  apply Int.bmod_eq_of_le <;> omega

theorem not_imbalance_iff {bal : Int} :
    (!(leftImbalance bal || rightImbalance bal)) = true ↔ -1 ≤ bal ∧ bal ≤ 1 := by
  simp only [leftImbalance, rightImbalance, Bool.not_eq_true', Bool.or_eq_false_iff,
    decide_eq_false_iff_not]
  simp only [leftHeavy, rightHeavy]
  omega

theorem not_any_iff {wrong : α → Bool} :
    (!tree.top.any wrong) = true ↔ ∀ child ∈ tree.top, wrong child = false := by
  cases tree with
  | null => simp [top]
  | node n bf left right => simp [top]

/-- `validate` reports success exactly if every node is as it looks for. -/
theorem validate_iff (short : tree.ShortFactors) :
    validate key tree = true ↔ tree.Each (Fair key) := by
  induction tree with
  | null => simp [validate, Each]
  | node this bf left right ihLeft ihRight =>
    obtain ⟨shortLeft, shortRight, low, high⟩ := short
    simp only [validate, Bool.and_eq_true, ihLeft shortLeft,
      ihRight shortRight, decide_eq_true_eq, not_any_iff, decide_eq_false_iff_not,
      compare_eq_min_iff, compare_eq_max_iff, Bool.not_eq_true, not_imbalance_iff]
    constructor
    · rintro ⟨⟨⟨⟨⟨fairLeft, fairRight⟩, even⟩, factor⟩, leftChild⟩, rightChild⟩
      rw [factor, toShort_of_short low high] at even
      exact ⟨fairLeft, fairRight, factor.symm, even.1, even.2, leftChild, rightChild⟩
    · rintro ⟨fairLeft, fairRight, fair⟩
      rw [← fair.factor, toShort_of_short low high]
      exact ⟨⟨⟨⟨⟨fairLeft, fairRight⟩, fair.lower, fair.upper⟩, rfl⟩, fair.leftChild⟩,
        fair.rightChild⟩

/-! ## Validity of the whole tree -/

theorem lower_iff {left : AvlTree α} :
    (∀ m ∈ left.inorder, key m < key n) ↔
      (∀ child ∈ left.top, higher key child n = false) ∧
      (∀ child ∈ left.top, key child ≠ key n) ∧
      ∀ m ∈ left.descendants, higher key n m = true := by
  simp only [mem_inorder_iff, higher, decide_eq_true_eq, decide_eq_false_iff_not, not_lt]
  constructor
  · intro lo
    exact ⟨fun child isChild => (lo child (.inl isChild)).le,
      fun child isChild => (lo child (.inl isChild)).ne, fun m mem => lo m (.inr mem)⟩
  · rintro ⟨notAbove, unlike, lo⟩ m (isChild | mem)
    · exact lt_of_le_of_ne (notAbove m isChild) (unlike m isChild)
    · exact lo m mem

theorem above_iff {right : AvlTree α} :
    (∀ m ∈ right.inorder, key n < key m) ↔
      (∀ child ∈ right.top, higher key n child = false) ∧
      (∀ child ∈ right.top, key child ≠ key n) ∧
      ∀ m ∈ right.descendants, higher key m n = true := by
  simp only [mem_inorder_iff, higher, decide_eq_true_eq, decide_eq_false_iff_not, not_lt]
  constructor
  · intro above
    exact ⟨fun child isChild => (above child (.inl isChild)).le,
      fun child isChild => (above child (.inl isChild)).ne', fun m mem => above m (.inr mem)⟩
  · rintro ⟨notLower, unlike, above⟩ m (isChild | mem)
    · exact lt_of_le_of_ne (notLower m isChild) (unlike m isChild).symm
    · exact above m mem

/-- A tree is valid if no node has a defect, of those that are noticed and of the others. -/
theorem valid_iff :
    tree.Balanced ∧ Sorted key tree.inorder ↔ tree.Each (Fair key) ∧ tree.Each (Clear key) := by
  induction tree with
  | null => simp [Balanced, Each, Sorted, inorder]
  | node this bf left right ihLeft ihRight =>
    simp only [inorder, sorted_node, lower_iff, above_iff]
    constructor
    · rintro ⟨⟨leftBalanced, rightBalanced, factor, lo, hi⟩, leftSorted, rightSorted,
        ⟨notAbove, unlikeLeft, lowerThan⟩, notLower, unlikeRight, above⟩
      obtain ⟨fairLeft, clearLeft⟩ := ihLeft.mp ⟨leftBalanced, leftSorted⟩
      obtain ⟨fairRight, clearRight⟩ := ihRight.mp ⟨rightBalanced, rightSorted⟩
      exact ⟨⟨fairLeft, fairRight, factor, lo, hi, notAbove, notLower⟩,
        clearLeft, clearRight, unlikeLeft, unlikeRight, lowerThan, above⟩
    · rintro ⟨⟨fairLeft, fairRight, fair⟩, clearLeft, clearRight, clear⟩
      obtain ⟨leftBalanced, leftSorted⟩ := ihLeft.mpr ⟨fairLeft, clearLeft⟩
      obtain ⟨rightBalanced, rightSorted⟩ := ihRight.mpr ⟨fairRight, clearRight⟩
      exact ⟨⟨leftBalanced, rightBalanced, fair.factor, fair.lower, fair.upper⟩, leftSorted,
        rightSorted, ⟨fair.leftChild, clear.leftChild, clear.belowLeft⟩, fair.rightChild,
        clear.rightChild, clear.belowRight⟩

/-- `validate` is right about a tree if there is a defect in it that it looks for, or none of
    those that it misses. -/
theorem validate_right_iff {tree : AvlTree α} (short : tree.ShortFactors) :
    (validate key tree = true ↔ tree.Balanced ∧ Sorted key tree.inorder) ↔
      ¬ tree.Each (Fair key) ∨ tree.Each (Clear key) := by
  rw [validate_iff short, valid_iff]
  tauto

/-- Three nodes in order. -/
theorem validate_right_iff_three :
    validate id (.node 2 0 (.node 1 0 .null .null) (.node 3 0 .null .null)) = true ↔
      (AvlTree.node 2 0 (.node 1 0 .null .null) (.node 3 0 .null .null)).Balanced ∧
        Sorted id (AvlTree.node 2 0 (.node 1 0 .null .null) (.node 3 0 .null .null)).inorder := by
  apply (validate_right_iff (by simp [ShortFactors])).mpr
  right
  simp only [Each, true_and]
  refine ⟨⟨?_, ?_, ?_, ?_⟩, ⟨?_, ?_, ?_, ?_⟩, ?_, ?_, ?_, ?_⟩ <;> simp [top, descendants, inorder]

/-- A node 9 that is above its parent 3 and in the left subtree of 5; and two nodes with the
    same key. -/
theorem validate_misses :
    let wrongSide : AvlTree Nat :=
      .node 5 (-1) (.node 3 1 .null (.node 9 0 .null .null)) (.node 7 0 .null .null)
    let sameKey : AvlTree Nat := .node 4 1 .null (.node 4 0 .null .null)
    validate id wrongSide = true ∧ ¬ Sorted id wrongSide.inorder ∧
      validate id sameKey = true ∧ ¬ Sorted id sameKey.inorder := by
  simp only [Sorted]
  decide

end Validation

end Xdk.Avl.AvlTree
