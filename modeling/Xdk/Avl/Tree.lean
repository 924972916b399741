import Mathlib.Order.Lattice

/-! # The AVL tree

`AVL_node` links its nodes into a search tree that is balanced by the balance factors of
the nodes.  The functions take the root by reference and may put another node in its
place; here they return the tree that is then at that place.  A node is its identity and
the balance factor, and `higher` compares the keys of two nodes.

`insert` and `remove` tell their caller by `change` whether the subtree has become higher
or lower by one.  A `panic`, or a null pointer that is followed, is `none`.
-/

namespace Xdk.Avl

inductive Cmp where
  | min
  | eq
  | max
  deriving DecidableEq, Repr

def Cmp.value : Cmp → Int
  | .min => -1
  | .eq => 0
  | .max => 1

inductive Dir where
  | left
  | right
  deriving DecidableEq, Repr

def Dir.opposite : Dir → Dir
  | .left => .right
  | .right => .left

def leftHeavy : Int := -1
def rightHeavy : Int := 1

def heightNochange : Int := 0
def heightChange : Int := 1

inductive AvlTree (α : Type) where
  | null
  | node (n : α) (bf : Int) (left right : AvlTree α)
  deriving DecidableEq, Repr

namespace AvlTree

variable {α : Type} {κ : Type*}

def height : AvlTree α → Nat
  | .null => 0
  | .node _ _ left right => 1 + max left.height right.height

def isNull : AvlTree α → Bool
  | .null => true
  | .node _ _ _ _ => false

def inorder : AvlTree α → List α
  | .null => []
  | .node n _ left right => left.inorder ++ n :: right.inorder

def subtree : AvlTree α → Dir → AvlTree α
  | .null, _ => .null
  | .node _ _ left _, .left => left
  | .node _ _ _ right, .right => right

/-- The node with a subtree on the given side and one on the other. -/
def link (dir : Dir) (n : α) (bf : Int) (near far : AvlTree α) : AvlTree α :=
  match dir with
  | .left => .node n bf near far
  | .right => .node n bf far near

/-! ## Rotations -/

def rotateOnce (root : AvlTree α) (dir : Dir) : Option (Int × AvlTree α) :=
  match root, root.subtree dir.opposite with
  | .node oldRoot _ _ _, .node other bf left right =>
    let newBf := match dir with
      | .left => bf - 1
      | .right => bf + 1
    let lowered := link dir oldRoot (-newBf) (root.subtree dir)
      ((AvlTree.node other bf left right).subtree dir)
    some (if bf = 0 then heightNochange else heightChange,
      link dir other newBf lowered ((AvlTree.node other bf left right).subtree dir.opposite))
  | _, _ => none

def rotateTwice (root : AvlTree α) (dir : Dir) : Option (Int × AvlTree α) :=
  match root, root.subtree dir.opposite, (root.subtree dir.opposite).subtree dir with
  | .node oldRoot _ _ _, .node other _ _ _, .node middle bf left right =>
    let inner := AvlTree.node middle bf left right
    let leftBf := -max bf 0
    let rightBf := -min bf 0
    let (oldBf, otherBf) := match dir with
      | .left => (leftBf, rightBf)
      | .right => (rightBf, leftBf)
    some (heightChange,
      link dir middle 0
        (link dir oldRoot oldBf (root.subtree dir) (inner.subtree dir))
        (link dir other otherBf (inner.subtree dir.opposite)
          ((root.subtree dir.opposite).subtree dir.opposite)))
  | _, _, _ => none

def balanceFactor : AvlTree α → Option Int
  | .null => none
  | .node _ bf _ _ => some bf

def rebalance (root : AvlTree α) : Option (Int × AvlTree α) := do
  let bf ← root.balanceFactor
  if bf < leftHeavy then
    let other ← (root.subtree .left).balanceFactor
    if other = rightHeavy then root.rotateTwice .right else root.rotateOnce .right
  else if bf > rightHeavy then
    let other ← (root.subtree .right).balanceFactor
    if other = leftHeavy then root.rotateTwice .left else root.rotateOnce .left
  else
    return (heightNochange, root)

/-! ## Insertion and removal -/

section Ordered

variable [LinearOrder κ] (key : α → κ)

/-- `higher`, which the class of the nodes provides: the node has the higher key. -/
def higher (this n : α) : Bool := key n < key this

def compare (this n : α) : Cmp :=
  if higher key this n then .min else if higher key n this then .max else .eq

def compareWith (this : α) (left right : AvlTree α) (n : α) : Cmp → Cmp
  | .eq => compare key this n
  | .min => if left.isNull then .eq else .min
  | .max => if right.isNull then .eq else .max

def afterIncrease (increase : Int) (root : AvlTree α) : Option (AvlTree α × Int) := do
  let bf ← root.balanceFactor
  if increase ≠ 0 ∧ bf ≠ 0 then
    let (changed, root) ← root.rebalance
    return (root, 1 - changed)
  else
    return (root, heightNochange)

/-- The insertion of a node whose `balanceFactor` is `own`; the code does not set it. -/
def insertAs (n : α) (own : Int) : AvlTree α → Option (AvlTree α × Int)
  | .null => some (.node n own .null .null, heightChange)
  | .node root bf left right =>
    match compare key root n with
    | .min => do
      let (left, change) ← insertAs n own left
      let increase := Cmp.min.value * change
      afterIncrease increase (.node root (bf + increase) left right)
    | .max => do
      let (right, change) ← insertAs n own right
      let increase := Cmp.max.value * change
      afterIncrease increase (.node root (bf + increase) left right)
    | .eq => none

/-- `insert` of a node that has just been constructed. -/
abbrev insert (n : α) (root : AvlTree α) : Option (AvlTree α × Int) := insertAs key n 0 root

def afterDecrease (decrease : Int) (root : AvlTree α) : Option (AvlTree α × Int) := do
  let bf ← root.balanceFactor
  if decrease ≠ 0 then
    if bf ≠ 0 then
      let (changed, root) ← root.rebalance
      return (root, changed)
    else
      return (root, heightChange)
  else
    return (root, heightNochange)

/-- `remove`: the node removed, which is missing where there is nothing to remove, the
    tree and `change`.  With `.min` it removes the first node, whatever `n` is. -/
def remove (n : α) (cmp : Cmp) : AvlTree α → Option (Option α × AvlTree α × Int)
  | .null => some (none, .null, heightNochange)
  | .node root bf left right =>
    match compareWith key root left right n cmp with
    | .min => do
      let (ret, left, change) ← remove n cmp left
      let ret ← ret
      let decrease := Cmp.min.value * change
      let (tree, change) ← afterDecrease decrease (.node root (bf - decrease) left right)
      return (some ret, tree, change)
    | .max => do
      let (ret, right, change) ← remove n cmp right
      let ret ← ret
      let decrease := Cmp.max.value * change
      let (tree, change) ← afterDecrease decrease (.node root (bf - decrease) left right)
      return (some ret, tree, change)
    | .eq =>
      if left.isNull && right.isNull then some (some root, .null, heightChange)
      else if left.isNull || right.isNull then
        some (some root, if right.isNull then left else right, heightChange)
      else do
        -- the successor takes the place of the node
        let (successor, right, decrease) ← remove n .min right
        let successor ← successor
        let (tree, change) ← afterDecrease decrease (.node successor (bf - decrease) left right)
        return (some root, tree, change)

/-! ## The tree and its operations -/

def insertNode (root : AvlTree α) (n : α) : Option (AvlTree α) :=
  (insert key n root).map Prod.fst

def removeNode (root : AvlTree α) (n : α) : Option (AvlTree α) :=
  (remove key n .eq root).map fun removed => removed.2.1

end Ordered

end AvlTree

end Xdk.Avl
