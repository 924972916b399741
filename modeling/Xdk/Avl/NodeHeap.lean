import Mathlib.Data.List.Nodup
import Xdk.Avl.Balance

/-! # The nodes of the AVL tree in memory

The functions on the tree follow pointers and store into the nodes, and a node that has
been removed keeps what was last stored in it.  Here they are on the memory: the pointers,
each at its place, and the balance factor of each node.  A reference to a pointer is the
place where the pointer is.

A tree stands in memory where its nodes are linked as it says.  At the ends of the tree there
are further pointers, which are null unless something was left there.
-/

namespace Xdk.Avl

/-- A place for a pointer: the root of the tree, or `subtree[dir]` of a node. -/
inductive Slot (α : Type) where
  | root
  | subtree (n : α) (dir : Dir)
  deriving DecidableEq

namespace Slot

variable {α : Type}

def Off (nodes : List α) : Slot α → Prop
  | .root => True
  | .subtree n _ => n ∉ nodes

theorem Off.mono {slot : Slot α} {nodes fewer : List α} (off : slot.Off nodes)
    (among : ∀ m ∈ fewer, m ∈ nodes) : slot.Off fewer := by
  cases slot with
  | root => trivial
  | subtree n dir => exact fun mem => off (among n mem)

theorem Off.ne {slot : Slot α} {nodes : List α} (off : slot.Off nodes) {n : α}
    (mem : n ∈ nodes) (dir : Dir) : slot ≠ .subtree n dir := by
  rintro rfl
  exact off mem

end Slot

structure NodeHeap (α : Type) where
  pointer : Slot α → Option α
  bf : α → Int

namespace NodeHeap

variable {α : Type} {κ : Type*} [DecidableEq α]

def write (heap : NodeHeap α) (slot : Slot α) (pointer : Option α) : NodeHeap α :=
  { heap with pointer := Function.update heap.pointer slot pointer }

def setBf (heap : NodeHeap α) (n : α) (bf : Int) : NodeHeap α :=
  { heap with bf := Function.update heap.bf n bf }

@[simp]
theorem write_pointer (heap : NodeHeap α) (slot other : Slot α) (ptr : Option α) :
    (heap.write slot ptr).pointer other =
      if other = slot then ptr else heap.pointer other :=
  Function.update_apply ..

@[simp]
theorem write_bf (heap : NodeHeap α) (slot : Slot α) (ptr : Option α) :
    (heap.write slot ptr).bf = heap.bf := rfl

@[simp]
theorem setBf_pointer (heap : NodeHeap α) (n : α) (bf : Int) :
    (heap.setBf n bf).pointer = heap.pointer := rfl

@[simp]
theorem setBf_bf (heap : NodeHeap α) (n m : α) (bf : Int) :
    (heap.setBf n bf).bf m = if m = n then bf else heap.bf m :=
  Function.update_apply ..

/-! ## The functions -/

/-- The stores of `rotate_once` into the pointers.  After the first one `root` is `other`. -/
def relinkOnce (heap : NodeHeap α) (slot : Slot α) (dir : Dir) (oldRoot other : α) :
    NodeHeap α :=
  let heap := heap.write slot (some other)
  let heap := heap.write (.subtree oldRoot dir.opposite) (heap.pointer (.subtree other dir))
  heap.write (.subtree other dir) (some oldRoot)

def rotateOnce (heap : NodeHeap α) (slot : Slot α) (dir : Dir) : Option (Int × NodeHeap α) := do
  let oldRoot ← heap.pointer slot
  let other ← heap.pointer (.subtree oldRoot dir.opposite)
  let change := if heap.bf other = 0 then heightNochange else heightChange
  let heap := heap.relinkOnce slot dir oldRoot other
  let newBf := match dir with
    | .left => heap.bf other - 1
    | .right => heap.bf other + 1
  return (change, (heap.setBf other newBf).setBf oldRoot (-newBf))

/-- The stores of `rotate_twice` into the pointers.  After the first one `root` is `middle`. -/
def relinkTwice (heap : NodeHeap α) (slot : Slot α) (dir : Dir) (oldRoot other middle : α) :
    NodeHeap α :=
  let heap := heap.write slot (some middle)
  let heap := heap.write (.subtree oldRoot dir.opposite) (heap.pointer (.subtree middle dir))
  let heap := heap.write (.subtree middle dir) (some oldRoot)
  let heap := heap.write (.subtree other dir) (heap.pointer (.subtree middle dir.opposite))
  heap.write (.subtree middle dir.opposite) (some other)

def rotateTwice (heap : NodeHeap α) (slot : Slot α) (dir : Dir) : Option (Int × NodeHeap α) := do
  let oldRoot ← heap.pointer slot
  let other ← heap.pointer (.subtree oldRoot dir.opposite)
  let middle ← heap.pointer (.subtree other dir)
  let heap := heap.relinkTwice slot dir oldRoot other middle
  let left ← heap.pointer (.subtree middle .left)
  let heap := heap.setBf left (-max (heap.bf middle) 0)
  let right ← heap.pointer (.subtree middle .right)
  let heap := heap.setBf right (-min (heap.bf middle) 0)
  return (heightChange, heap.setBf middle 0)

def rebalance (heap : NodeHeap α) (slot : Slot α) : Option (Int × NodeHeap α) := do
  let root ← heap.pointer slot
  if heap.bf root < leftHeavy then
    let left ← heap.pointer (.subtree root .left)
    if heap.bf left = rightHeavy then heap.rotateTwice slot .right else heap.rotateOnce slot .right
  else if heap.bf root > rightHeavy then
    let right ← heap.pointer (.subtree root .right)
    if heap.bf right = leftHeavy then heap.rotateTwice slot .left else heap.rotateOnce slot .left
  else
    return (heightNochange, heap)

def afterIncrease (heap : NodeHeap α) (increase : Int) (slot : Slot α) :
    Option (NodeHeap α × Int) := do
  let root ← heap.pointer slot
  let heap := heap.setBf root (heap.bf root + increase)
  if increase ≠ 0 ∧ heap.bf root ≠ 0 then
    let (changed, heap) ← heap.rebalance slot
    return (heap, 1 - changed)
  else
    return (heap, heightNochange)

def afterDecrease (heap : NodeHeap α) (decrease : Int) (slot : Slot α) :
    Option (NodeHeap α × Int) := do
  let root ← heap.pointer slot
  let heap := heap.setBf root (heap.bf root - decrease)
  if decrease ≠ 0 then
    if heap.bf root ≠ 0 then
      let (changed, heap) ← heap.rebalance slot
      return (heap, changed)
    else
      return (heap, heightChange)
  else
    return (heap, heightNochange)

section Calls

variable [LinearOrder κ] (key : α → κ)

def insert (n : α) : Nat → Slot α → NodeHeap α → Option (NodeHeap α × Int)
  | 0, _, _ => none
  | depth + 1, slot, heap =>
    match heap.pointer slot with
    | none => some (heap.write slot (some n), heightChange)
    | some root =>
      let result := AvlTree.compare key root n
      let dir := if result = .min then Dir.left else Dir.right
      if result ≠ .eq then do
        let (heap, change) ← insert n depth (.subtree root dir) heap
        heap.afterIncrease (result.value * change) slot
      else
        none

def compareWith (heap : NodeHeap α) (this n : α) : Cmp → Cmp
  | .eq => AvlTree.compare key this n
  | .min => if heap.pointer (.subtree this .left) = none then .eq else .min
  | .max => if heap.pointer (.subtree this .right) = none then .eq else .max

/-- The stores of `remove` that put the successor in the place of the node removed, which
    keeps what it has. -/
def putSuccessor (heap : NodeHeap α) (slot : Slot α) (ret successor : α) : NodeHeap α :=
  let heap := heap.write slot (some successor)
  let heap := heap.write (.subtree successor .left) (heap.pointer (.subtree ret .left))
  let heap := heap.write (.subtree successor .right) (heap.pointer (.subtree ret .right))
  heap.setBf successor (heap.bf ret)

def remove (n : α) : Nat → Slot α → Cmp → NodeHeap α → Option (Option α × NodeHeap α × Int)
  | 0, _, _, _ => none
  | depth + 1, slot, cmp, heap =>
    match heap.pointer slot with
    | none => some (none, heap, heightNochange)
    | some root =>
      let result := heap.compareWith key root n cmp
      let dir := if result = .min then Dir.left else Dir.right
      if result ≠ .eq then do
        let (ret, heap, change) ← remove n depth (.subtree root dir) cmp heap
        let ret ← ret
        let (heap, change) ← heap.afterDecrease (result.value * change) slot
        return (some ret, heap, change)
      else
        match heap.pointer (.subtree root .left), heap.pointer (.subtree root .right) with
        | none, none => some (some root, heap.write slot none, heightChange)
        | none, some right => some (some root, heap.write slot (some right), heightChange)
        | some left, none => some (some root, heap.write slot (some left), heightChange)
        | some _, some _ => do
          let (successor, heap, decrease) ← remove n depth (.subtree root .right) .min heap
          let successor ← successor
          let heap := heap.putSuccessor slot root successor
          let (heap, change) ← heap.afterDecrease decrease slot
          return (some root, heap, change)

def insertNode (depth : Nat) (n : α) (heap : NodeHeap α) : Option (NodeHeap α) :=
  (insert key n depth .root heap).map Prod.fst

def removeNode (depth : Nat) (n : α) (heap : NodeHeap α) : Option (NodeHeap α) :=
  (remove key n depth .root .eq heap).map fun removed => removed.2.1

end Calls

/-! ## Trees in memory -/

section Trees

omit [DecidableEq α]

/-- The nodes of the tree are linked as it says; what is behind its ends is left open. -/
def Covers (heap : NodeHeap α) : Option α → AvlTree α → Prop
  | _, .null => True
  | pointer, .node n bf left right =>
    pointer = some n ∧ heap.bf n = bf ∧
      heap.Covers (heap.pointer (.subtree n .left)) left ∧
      heap.Covers (heap.pointer (.subtree n .right)) right

def ends (heap : NodeHeap α) : Option α → AvlTree α → List (Option α)
  | pointer, .null => [pointer]
  | _, .node n _ left right =>
    heap.ends (heap.pointer (.subtree n .left)) left ++
      heap.ends (heap.pointer (.subtree n .right)) right

structure Holds (heap : NodeHeap α) (pointer : Option α) (tree : AvlTree α) : Prop where
  covers : heap.Covers pointer tree
  ends : ∀ last ∈ heap.ends pointer tree, last = none

def Same (heap after : NodeHeap α) (nodes : List α) : Prop :=
  ∀ n ∈ nodes, after.bf n = heap.bf n ∧
    ∀ dir, after.pointer (.subtree n dir) = heap.pointer (.subtree n dir)

variable {after : NodeHeap α}

theorem Same.mono {heap : NodeHeap α} {nodes fewer : List α} (same : heap.Same after nodes)
    (among : ∀ m ∈ fewer, m ∈ nodes) : heap.Same after fewer :=
  fun n mem => same n (among n mem)

variable {tree : AvlTree α}

theorem Covers.of_same {heap : NodeHeap α} {ptr : Option α} (covers : heap.Covers ptr tree)
    (same : heap.Same after tree.inorder) :
    after.Covers ptr tree := by
  induction tree generalizing ptr with
  | null => trivial
  | node n bf left right ihLeft ihRight =>
    obtain ⟨here, factor, inLeft, inRight⟩ := covers
    have self := same n (by simp [AvlTree.inorder])
    refine ⟨here, self.1.trans factor, ?_, ?_⟩
    · rw [self.2]
      exact ihLeft inLeft (same.mono (by simp +contextual [AvlTree.inorder]))
    · rw [self.2]
      exact ihRight inRight (same.mono (by simp +contextual [AvlTree.inorder]))

theorem ends_of_same {heap : NodeHeap α} (same : heap.Same after tree.inorder) (ptr : Option α) :
    after.ends ptr tree = heap.ends ptr tree := by
  induction tree generalizing ptr with
  | null => rfl
  | node n bf left right ihLeft ihRight =>
    have self := same n (by simp [AvlTree.inorder])
    simp only [ends, self.2]
    rw [ihLeft (same.mono (by simp +contextual [AvlTree.inorder])),
      ihRight (same.mono (by simp +contextual [AvlTree.inorder]))]

theorem Holds.of_same {heap : NodeHeap α} {ptr : Option α} (holds : heap.Holds ptr tree)
    (same : heap.Same after tree.inorder) :
    after.Holds ptr tree := by
  refine ⟨holds.covers.of_same same, ?_⟩
  rw [ends_of_same same]
  exact holds.ends

/-! ## A node by its two sides -/

/-- What is on one side, and what is on the other, from left to right. -/
def sides {β : Type} (dir : Dir) (near far : List β) : List β :=
  match dir with
  | .left => near ++ far
  | .right => far ++ near

@[simp]
theorem mem_sides {β : Type} {dir : Dir} {near far : List β} {b : β} :
    b ∈ sides dir near far ↔ b ∈ near ∨ b ∈ far := by
  cases dir <;> simp [sides, or_comm]

theorem sides_assoc {β : Type} (dir : Dir) (near inner far : List β) :
    sides dir (sides dir near inner) far = sides dir near (sides dir inner far) := by
  cases dir <;> simp [sides]

variable {heap : NodeHeap α} {pointer : Option α} {dir : Dir} {n : α} {bf : Int}
  {near far : AvlTree α}

theorem covers_link :
    heap.Covers pointer (.link dir n bf near far) ↔ pointer = some n ∧ heap.bf n = bf ∧
      heap.Covers (heap.pointer (.subtree n dir)) near ∧
      heap.Covers (heap.pointer (.subtree n dir.opposite)) far := by
  cases dir with
  | left => rfl
  | right =>
    simp only [AvlTree.link, Covers, Dir.opposite]
    rw [and_comm (a := heap.Covers (heap.pointer (.subtree n .left)) far)]

theorem ends_link :
    heap.ends pointer (.link dir n bf near far) =
      sides dir (heap.ends (heap.pointer (.subtree n dir)) near)
        (heap.ends (heap.pointer (.subtree n dir.opposite)) far) := by
  cases dir <;> rfl

theorem holds_link :
    heap.Holds pointer (.link dir n bf near far) ↔ pointer = some n ∧ heap.bf n = bf ∧
      heap.Holds (heap.pointer (.subtree n dir)) near ∧
      heap.Holds (heap.pointer (.subtree n dir.opposite)) far := by
  constructor
  · rintro ⟨covers, ends⟩
    obtain ⟨here, factor, coversNear, coversFar⟩ := covers_link.mp covers
    simp only [ends_link, mem_sides] at ends
    exact ⟨here, factor, ⟨coversNear, fun last mem => ends last (.inl mem)⟩,
      coversFar, fun last mem => ends last (.inr mem)⟩
  · rintro ⟨here, factor, holdsNear, holdsFar⟩
    refine ⟨covers_link.mpr ⟨here, factor, holdsNear.covers, holdsFar.covers⟩, ?_⟩
    intro last mem
    rw [ends_link, mem_sides] at mem
    exact mem.elim (holdsNear.ends last) (holdsFar.ends last)

theorem holds_node {left right : AvlTree α} :
    heap.Holds pointer (.node n bf left right) ↔ pointer = some n ∧ heap.bf n = bf ∧
      heap.Holds (heap.pointer (.subtree n .left)) left ∧
      heap.Holds (heap.pointer (.subtree n .right)) right :=
  @holds_link _ _ _ .left ..

theorem inorder_link_perm :
    (AvlTree.link dir n bf near far).inorder.Perm (n :: (near.inorder ++ far.inorder)) := by
  cases dir with
  | left => exact List.perm_middle
  | right => exact List.perm_middle.trans (List.perm_append_comm.cons n)

theorem mem_inorder_link {m : α} :
    m ∈ (AvlTree.link dir n bf near far).inorder ↔
      m = n ∨ m ∈ near.inorder ∨ m ∈ far.inorder := by
  rw [inorder_link_perm.mem_iff, List.mem_cons, List.mem_append]

theorem nodup_link :
    (AvlTree.link dir n bf near far).inorder.Nodup ↔
      (n ∉ near.inorder ∧ n ∉ far.inorder) ∧ near.inorder.Nodup ∧ far.inorder.Nodup ∧
        ∀ m ∈ near.inorder, m ∉ far.inorder := by
  rw [inorder_link_perm.nodup_iff, List.nodup_cons, List.nodup_append', List.mem_append, not_or]
  rfl

theorem nodup_node {left right : AvlTree α} :
    (AvlTree.node n bf left right).inorder.Nodup ↔
      (n ∉ left.inorder ∧ n ∉ right.inorder) ∧ left.inorder.Nodup ∧ right.inorder.Nodup ∧
        ∀ m ∈ left.inorder, m ∉ right.inorder :=
  @nodup_link _ .left ..

end Trees

end NodeHeap

end Xdk.Avl
