import Mathlib.Logic.Function.Basic
import Xdk.Lib.Transition

/-! # The lock-free queue

`Lockfree::Queue` of `exo/lockfree_queue.h` is the queue of Michael and Scott: a linked list
with a dummy node at its head.  `push` links its node behind the last one with a
compare-and-swap on that node's `_next` and moves `_Q_Tail` afterwards; whoever finds
`_Q_Tail` behind moves it.  `pop` reads the value of the node behind the dummy and makes that
node the new dummy with a compare-and-swap on `_Q_Head`.

A step is one access to shared memory.  A node that was popped is deleted, and its memory may
come back from the allocator as a new node.
-/

namespace Xdk.Lockfree

/-- The shared memory: the two ends of the queue and the fields of the nodes. -/
structure Queue (Node T : Type*) where
  head : Node
  tail : Node
  next : Node → Option Node
  data : Node → T

/-- The next access of a thread, with the local variables that are still used. -/
inductive Pc (Node T : Type*) where
  | idle
  -- `push`
  | alloc (val : T)
  | setData (node : Node) (val : T)
  | setNext (node : Node) (val : T)
  | pushTail (node : Node) (val : T)
  | pushNext (node : Node) (val : T) (tail : Node)
  | pushCheck (node : Node) (val : T) (tail : Node) (next : Option Node)
  | link (node : Node) (val : T) (tail : Node)
  | pushHelp (node : Node) (val : T) (tail next : Node)
  | swing (node : Node) (val : T) (tail : Node)
  | pushed (val : T)
  -- `pop`
  | popHead
  | popTail (head : Node)
  | popNext (head tail : Node)
  | popCheck (head tail : Node) (next : Option Node)
  | popHelp (tail next : Node)
  | popData (head next : Node)
  | popCas (head next : Node) (res : T)
  | delete (head : Node) (res : T)
  -- the value, or nothing where the code returns `T()`
  | popped (res : Option T)
  -- an assertion has failed
  | failed
  deriving DecidableEq

/-- The queue and the threads that use it.  `nodes` has the dummy and the nodes behind it,
    `pushes` who has linked which value and `pops` who has taken which value, in the order in
    which this happened.  `completed` and `returned` have the values of the calls of `push`
    that are over and the values that `pop` has returned, for each thread. -/
structure Parties (Thread Node T : Type*) where
  queue : Queue Node T
  threads : Thread → Pc Node T
  nodes : List Node
  pushes : List (Thread × T)
  pops : List (Thread × T)
  completed : Thread → List T
  returned : Thread → List T

inductive QueueEvent (Thread Node T : Type*) where
  | push (thread : Thread) (val : T)
  | pop (thread : Thread)
  -- the allocator returns a node
  | allocated (thread : Thread) (node : Node)
  | thread (thread : Thread)

namespace Parties

variable {Thread Node T : Type*} [DecidableEq Thread] [DecidableEq Node]

def new (dummy : Node) (next : Node → Option Node) (data : Node → T) : Parties Thread Node T :=
  ⟨⟨dummy, dummy, Function.update next dummy none, data⟩, fun _ => .idle, [dummy], [], [],
    fun _ => [], fun _ => []⟩

def setPc (s : Parties Thread Node T) (thread : Thread) (pc : Pc Node T) : Parties Thread Node T :=
  { s with threads := Function.update s.threads thread pc }

def moveTail (s : Parties Thread Node T) (tail next : Node) : Parties Thread Node T :=
  { s with queue := { s.queue with tail := if s.queue.tail = tail then next else s.queue.tail } }

def pushStep (s : Parties Thread Node T) (thread : Thread) : Option (Parties Thread Node T) :=
  match s.threads thread with
  | .setData node val =>
    some { s.setPc thread (.setNext node val) with
      queue := { s.queue with data := Function.update s.queue.data node val } }
  | .setNext node val =>
    some { s.setPc thread (.pushTail node val) with
      queue := { s.queue with next := Function.update s.queue.next node none } }
  | .pushTail node val => some (s.setPc thread (.pushNext node val s.queue.tail))
  | .pushNext node val tail =>
    some (s.setPc thread (.pushCheck node val tail (s.queue.next tail)))
  | .pushCheck node val tail next =>
    some (s.setPc thread (if s.queue.tail = tail then
      match next with
      | none => .link node val tail
      | some next => .pushHelp node val tail next
    else .pushTail node val))
  | .link node val tail =>
    if s.queue.next tail = none then
      some { s.setPc thread (.swing node val tail) with
        queue := { s.queue with next := Function.update s.queue.next tail (some node) }
        nodes := s.nodes ++ [node]
        pushes := s.pushes ++ [(thread, val)] }
    else some (s.setPc thread (.pushTail node val))
  | .pushHelp node val tail next => some ((s.moveTail tail next).setPc thread (.pushTail node val))
  | .swing node val tail => some ((s.moveTail tail node).setPc thread (.pushed val))
  | .pushed val =>
    some { s.setPc thread .idle with
      completed := Function.update s.completed thread (s.completed thread ++ [val]) }
  | _ => none

def popStep (s : Parties Thread Node T) (thread : Thread) : Option (Parties Thread Node T) :=
  match s.threads thread with
  | .popHead => some (s.setPc thread (.popTail s.queue.head))
  | .popTail head => some (s.setPc thread (.popNext head s.queue.tail))
  | .popNext head tail => some (s.setPc thread (.popCheck head tail (s.queue.next head)))
  | .popCheck head tail next =>
    some (s.setPc thread (if s.queue.head = head then
      if head = tail then
        match next with
        | none => .popped none
        | some next => .popHelp tail next
      else
        match next with
        | none => .failed
        | some next => .popData head next
    else .popHead))
  | .popHelp tail next => some ((s.moveTail tail next).setPc thread .popHead)
  | .popData head next =>
    some (s.setPc thread (if head = next then .failed
      else .popCas head next (s.queue.data next)))
  | .popCas head next res =>
    if s.queue.head = head then
      some { s.setPc thread (.delete head res) with
        queue := { s.queue with head := next }
        nodes := s.nodes.tail
        pops := s.pops ++ [(thread, res)] }
    else some (s.setPc thread .popHead)
  | .delete _ res => some (s.setPc thread (.popped (some res)))
  | .popped res =>
    some { s.setPc thread .idle with
      returned := Function.update s.returned thread (s.returned thread ++ res.toList) }
  | _ => none

def step (s : Parties Thread Node T) :
    QueueEvent Thread Node T → Option (Parties Thread Node T)
  | .push thread val =>
    match s.threads thread with
    | .idle => some (s.setPc thread (.alloc val))
    | _ => none
  | .pop thread =>
    match s.threads thread with
    | .idle => some (s.setPc thread .popHead)
    | _ => none
  | .allocated thread node =>
    match s.threads thread with
    | .alloc val => some (s.setPc thread (.setData node val))
    | _ => none
  | .thread thread => (s.pushStep thread).or (s.popStep thread)

end Parties

end Xdk.Lockfree
