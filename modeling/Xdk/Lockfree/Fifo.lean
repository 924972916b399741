import Xdk.Lib.Chain
import Xdk.Lib.Holding
import Xdk.Lockfree.Queue

/-! # The lock-free queue is a queue

Three kinds of nodes exist at any time: the nodes of the queue, the nodes that a thread is
about to push and has to itself, and the nodes that were popped.  A node that was popped keeps
its `_next` as long as a thread has a pointer to it, and this `_next` is not `NULL`; so a
pointer that somebody has is never mistaken for the end of the queue.

A node that is the head of the queue stays the head until it is popped and never comes back
while the thread that has seen it as the head has its pointer.  When `_Q_Tail` was found
elsewhere in between, it is ahead for as long.
-/

namespace Xdk.Lockfree

open Xdk.Lib Function

def Pc.fresh {Node T : Type*} : Pc Node T → Option Node
  | .setData node _ | .setNext node _ | .pushTail node _ | .pushNext node _ _
  | .pushCheck node _ _ _ | .link node _ _ | .pushHelp node _ _ _ => some node
  | _ => none

def Pc.pointers {Node T : Type*} : Pc Node T → List Node
  | .setData node _ | .setNext node _ | .pushTail node _ => [node]
  | .pushNext node _ tail | .link node _ tail => [node, tail]
  | .pushCheck node _ tail next => [node, tail] ++ next.toList
  | .pushHelp node _ tail next => [node, tail, next]
  | .swing node _ tail => [node, tail]
  | .popTail head => [head]
  | .popNext head tail => [head, tail]
  | .popCheck head tail next => [head, tail] ++ next.toList
  | .popHelp tail next => [tail, next]
  | .popData head next | .popCas head next _ => [head, next]
  | .delete head _ => [head]
  | .idle | .alloc _ | .pushed _ | .popHead | .popped _ | .failed => []

theorem Pc.fresh_mem_pointers {Node T : Type*} {pc : Pc Node T} {n : Node}
    (fresh : pc.fresh = some n) : n ∈ pc.pointers := by
  cases pc <;> simp_all [Pc.fresh, Pc.pointers]

namespace Parties

variable {Thread Node T : Type*}

/-- The memory of a node is not used again while the node is in the queue or a thread has a
    pointer to it. -/
def Allowed (s : Parties Thread Node T) : QueueEvent Thread Node T → Prop
  | .allocated _ node => node ∉ s.nodes ∧ ∀ thread, node ∉ (s.threads thread).pointers
  | .push _ _ | .pop _ | .thread _ => True

def fresh (s : Parties Thread Node T) (thread : Thread) : Option Node := (s.threads thread).fresh

/-! ## What the threads know -/

def Shared (s : Parties Thread Node T) (node : Node) : Prop :=
  (∀ thread, s.fresh thread ≠ some node) ∧ (node ∉ s.nodes → s.queue.next node ≠ none)

def HeadAt (s : Parties Thread Node T) (node : Node) : Prop :=
  s.Shared node ∧ (node ∈ s.nodes → node = s.queue.head)

def Ahead (s : Parties Thread Node T) (node : Node) : Prop :=
  s.queue.head = node → s.queue.tail ≠ node

def Ready (s : Parties Thread Node T) (node : Node) (val : T) : Prop :=
  s.queue.data node = val ∧ s.queue.next node = none

def ThreadAt (s : Parties Thread Node T) : Pc Node T → Prop
  | .setNext node val => s.queue.data node = val
  | .pushTail node val => s.Ready node val
  | .pushNext node val tail | .link node val tail => s.Ready node val ∧ s.Shared tail
  | .pushCheck node val tail next => s.Ready node val ∧ s.Shared tail ∧
      (tail ∈ s.nodes → ∀ m, next = some m → s.queue.next tail = some m)
  | .pushHelp node val tail next => s.Ready node val ∧ s.Shared tail ∧
      s.queue.next tail = some next
  | .swing node _ tail => s.Shared tail ∧ s.queue.next tail = some node
  | .popTail head => s.HeadAt head
  | .popNext head tail => s.HeadAt head ∧
      (head ≠ tail → s.queue.next head ≠ none ∧ s.Ahead head)
  | .popCheck head tail next => s.HeadAt head ∧
      (head ∈ s.nodes → ∀ m, next = some m → s.queue.next head = some m) ∧
      (head ≠ tail → next ≠ none ∧ s.Ahead head)
  | .popHelp tail next => s.Shared tail ∧ s.queue.next tail = some next
  | .popData head next => s.HeadAt head ∧ s.queue.next head = some next ∧ s.Ahead head ∧
      s.Shared next ∧ head ≠ next
  | .popCas head next res => s.HeadAt head ∧ s.queue.next head = some next ∧ s.Ahead head ∧
      s.Shared next ∧ s.queue.data next = res
  | .failed => False
  | .idle | .alloc _ | .setData _ _ | .pushed _ | .popHead | .delete _ _ | .popped _ => True

structure Consistent (s : Parties Thread Node T) : Prop where
  linked : Linked s.queue.next s.nodes
  once : s.nodes.Nodup
  head : s.nodes.head? = some s.queue.head
  tail : s.queue.tail ∈ s.nodes
  values : s.pushes.map Prod.snd =
    s.pops.map Prod.snd ++ s.nodes.tail.map s.queue.data
  fresh : Exclusive s.fresh
  unlinked : ∀ thread node, s.fresh thread = some node → node ∉ s.nodes
  threads : ∀ thread, s.ThreadAt (s.threads thread)

/-- What a step of one thread leaves to the others.  `Held` are the nodes that the other
    thread has pointers to. -/
structure Keeps (Held : Node → Prop) (s s' : Parties Thread Node T) : Prop where
  shared : ∀ node, Held node → s.Shared node → s'.Shared node
  next : ∀ node m, s.Shared node → s.queue.next node = some m → s'.queue.next node = some m
  member : ∀ node, s.Shared node → node ∈ s'.nodes → node ∈ s.nodes
  data : ∀ node, s.Shared node → s'.queue.data node = s.queue.data node
  headAt : ∀ node, s.HeadAt node → node ∈ s'.nodes → node = s'.queue.head
  ahead : ∀ node, s.HeadAt node → s.Ahead node → s'.Ahead node

variable {s s' : Parties Thread Node T} {pc : Pc Node T}

theorem ThreadAt.mono {pc : Pc Node T} (known : s.ThreadAt pc)
    (keeps : Keeps (fun node => node ∈ pc.pointers) s s')
    (own : ∀ node, pc.fresh = some node → s'.queue.data node = s.queue.data node ∧
      s'.queue.next node = s.queue.next node) : s'.ThreadAt pc := by
  have ready : ∀ {node val}, pc.fresh = some node → s.Ready node val → s'.Ready node val := by
    rintro node val isFresh ⟨data, next⟩
    obtain ⟨sameData, sameNext⟩ := own node isFresh
    exact ⟨sameData.trans data, sameNext.trans next⟩
  have headAt : ∀ {node}, node ∈ pc.pointers → s.HeadAt node → s'.HeadAt node :=
    fun held isHead => ⟨keeps.shared _ held isHead.1, keeps.headAt _ isHead⟩
  have stays : ∀ {node}, s.Shared node → s.queue.next node ≠ none → s'.queue.next node ≠ none := by
    intro node shared some
    obtain ⟨m, ptr⟩ := Option.ne_none_iff_exists'.mp some
    rw [keeps.next _ m shared ptr]
    exact Option.some_ne_none m
  cases pc with
  | setNext node val => exact (own node rfl).1.trans known
  | pushTail node val => exact ready rfl known
  | pushNext node val tail | link node val tail =>
    exact ⟨ready rfl known.1, keeps.shared tail (by simp [Pc.pointers]) known.2⟩
  | pushCheck node val tail next =>
    obtain ⟨isReady, shared, seen⟩ := known
    refine ⟨ready rfl isReady, keeps.shared tail (by simp [Pc.pointers]) shared, ?_⟩
    intro mem m same
    exact keeps.next tail m shared (seen (keeps.member tail shared mem) m same)
  | pushHelp node val tail next =>
    obtain ⟨isReady, shared, ptr⟩ := known
    exact ⟨ready rfl isReady, keeps.shared tail (by simp [Pc.pointers]) shared,
      keeps.next tail next shared ptr⟩
  | swing node val tail =>
    exact ⟨keeps.shared tail (by simp [Pc.pointers]) known.1, keeps.next tail node known.1 known.2⟩
  | popTail head => exact headAt (by simp [Pc.pointers]) known
  | popNext head tail =>
    obtain ⟨isHead, later⟩ := known
    refine ⟨headAt (by simp [Pc.pointers]) isHead, fun ne => ?_⟩
    exact ⟨stays isHead.1 (later ne).1, keeps.ahead head isHead (later ne).2⟩
  | popCheck head tail next =>
    obtain ⟨isHead, seen, later⟩ := known
    refine ⟨headAt (by simp [Pc.pointers]) isHead, ?_, fun ne => ?_⟩
    · intro mem m same
      exact keeps.next head m isHead.1 (seen (keeps.member head isHead.1 mem) m same)
    · exact ⟨(later ne).1, keeps.ahead head isHead (later ne).2⟩
  | popHelp tail next =>
    exact ⟨keeps.shared tail (by simp [Pc.pointers]) known.1, keeps.next tail next known.1 known.2⟩
  | popData head next =>
    obtain ⟨isHead, ptr, ahead, shared, ne⟩ := known
    exact ⟨headAt (by simp [Pc.pointers]) isHead, keeps.next head next isHead.1 ptr,
      keeps.ahead head isHead ahead, keeps.shared next (by simp [Pc.pointers]) shared, ne⟩
  | popCas head next res =>
    obtain ⟨isHead, ptr, ahead, shared, v⟩ := known
    exact ⟨headAt (by simp [Pc.pointers]) isHead, keeps.next head next isHead.1 ptr,
      keeps.ahead head isHead ahead, keeps.shared next (by simp [Pc.pointers]) shared,
      (keeps.data next shared).trans v⟩
  | failed => exact known
  | idle | alloc | setData | pushed | popHead | delete | popped => trivial

/-! ## The moves -/

section

variable (inv : Consistent s)
include inv

theorem Consistent.eq_cons : ∃ rest, s.nodes = s.queue.head :: rest := by
  have head := inv.head
  generalize nodes : s.nodes = access at head
  cases access with
  | nil =>
    cases head
  | cons first rest =>
    obtain rfl := Option.some.inj head
    exact ⟨rest, rfl⟩

variable {node : Node}

theorem Consistent.shared_of_mem (mem : node ∈ s.nodes) : s.Shared node :=
  ⟨fun t isFresh => inv.unlinked t node isFresh mem,
    fun absent => absurd mem absent⟩

theorem Consistent.headAt_head : s.HeadAt s.queue.head := by
  obtain ⟨rest, nodes⟩ := inv.eq_cons
  refine ⟨inv.shared_of_mem ?_, fun _ => rfl⟩
  rw [nodes]
  exact List.mem_cons_self ..

/-- Where the tail is not the head, the head has a successor. -/
theorem Consistent.next_ne_none {head : Node} (isHead : s.HeadAt head) (ne : head ≠ s.queue.tail) :
    s.queue.next head ≠ none := by
  by_cases mem : head ∈ s.nodes
  · intro last
    obtain rfl := isHead.2 mem
    obtain ⟨rest, nodes⟩ := inv.eq_cons
    have linked := inv.linked
    have isTail := inv.tail
    rw [nodes] at linked isTail
    rw [linked.eq_singleton last, List.mem_singleton] at isTail
    exact ne isTail.symm
  · exact isHead.1.2 mem

variable {next : Node}

/-- The head and the node behind it. -/
theorem Consistent.successor (ptr : s.queue.next s.queue.head = some next) :
    s.Shared next ∧ s.queue.head ≠ next := by
  obtain ⟨rest, nodes⟩ := inv.eq_cons
  have linked := inv.linked
  have once := inv.once
  rw [nodes] at linked once
  have later : next ∈ rest := linked.next_mem_tail (List.mem_cons_self ..) ptr
  refine ⟨inv.shared_of_mem ?_, ?_⟩
  · rw [nodes]
    exact List.mem_cons_of_mem _ later
  · rintro rfl
    exact (List.nodup_cons.mp once).1 later

end

variable [DecidableEq Thread] {thread : Thread}

theorem fresh_setPc (s : Parties Thread Node T) (t : Thread) (pc : Pc Node T) :
    (s.setPc t pc).fresh = update s.fresh t pc.fresh :=
  comp_update Pc.fresh s.threads t pc

theorem forall_threads_setPc {P : Pc Node T → Prop} (known : P pc)
    (others : ∀ o ≠ thread, P (s.threads o)) :
    ∀ o, P ((s.setPc thread pc).threads o) :=
  (forall_update_iff _ fun _ => P).mpr ⟨known, others⟩

section

variable (inv : Consistent s)
include inv

/-- A thread reads something. -/
theorem Consistent.setPc (same : pc.fresh = s.fresh thread) (known : s.ThreadAt pc) :
    Consistent (s.setPc thread pc) := by
  have fresh : (s.setPc thread pc).fresh = s.fresh := by
    rw [fresh_setPc, same, update_eq_self]
  have shared : ∀ node, (s.setPc thread pc).Shared node ↔ s.Shared node := by
    intro node
    rw [Shared, fresh]
    rfl
  have keeps : ∀ Held, Keeps Held s (s.setPc thread pc) := fun Held =>
    { shared := fun node _ isShared => (shared node).mpr isShared
      next := fun _ _ _ ptr => ptr
      member := fun _ _ member => member
      data := fun _ _ => rfl
      headAt := fun _ isHead => isHead.2
      ahead := fun _ _ ahead => ahead }
  exact
    { inv with
      fresh := by rw [fresh]; exact inv.fresh
      unlinked := by rw [fresh]; exact inv.unlinked
      threads := forall_threads_setPc
        (known.mono (keeps _) fun _ _ => ⟨rfl, rfl⟩)
        fun o _ => (inv.threads o).mono (keeps _) fun _ _ => ⟨rfl, rfl⟩ }

variable {node next : Node} {val : T}

/-- The allocator returns a node that nobody knows. -/
theorem Consistent.allocated (absent : node ∉ s.nodes)
    (unknown : ∀ o, node ∉ (s.threads o).pointers) :
    Consistent (s.setPc thread (.setData node val)) := by
  have unused : ∀ o, s.fresh o ≠ some node := fun o isFresh =>
    unknown o (Pc.fresh_mem_pointers isFresh)
  have fresh := fresh_setPc s thread (.setData node val)
  have keeps : ∀ o, Keeps (fun p => p ∈ (s.threads o).pointers) s
      (s.setPc thread (.setData node val)) := fun o =>
    { shared := fun p held isShared => by
        refine ⟨fun owner isFresh => ?_, isShared.2⟩
        rw [fresh] at isFresh
        obtain ⟨_, same⟩ | ⟨_, old⟩ := update_eq_some_iff.mp isFresh
        · obtain rfl := Option.some.inj same
          exact unknown o held
        · exact isShared.1 owner old
      next := fun _ _ _ ptr => ptr
      member := fun _ _ member => member
      data := fun _ _ => rfl
      headAt := fun _ isHead => isHead.2
      ahead := fun _ _ ahead => ahead }
  refine
    { inv with
      fresh := ?_
      unlinked := fun owner p isFresh => ?_
      threads := forall_threads_setPc trivial fun o _ =>
        (inv.threads o).mono (keeps o) fun _ _ => ⟨rfl, rfl⟩ }
  · rw [fresh]
    exact inv.fresh.take unused
  · rw [fresh] at isFresh
    obtain ⟨_, same⟩ | ⟨_, old⟩ := update_eq_some_iff.mp isFresh
    · obtain rfl := Option.some.inj same
      exact absent
    · exact inv.unlinked owner p old

/-! ### Writing to a node of one's own -/

/-- A write to the node that a thread has not linked yet: nobody else sees it. -/
theorem Consistent.write {node : Node} {pc : Pc Node T} {next : Node → Option Node}
    {data : Node → T} (own : s.fresh thread = some node) (same : pc.fresh = some node)
    (sameNext : ∀ other ≠ node, next other = s.queue.next other)
    (sameData : ∀ other ≠ node, data other = s.queue.data other) (linked : Linked next s.nodes)
    (known : { s.setPc thread pc with
      queue := { s.queue with next := next, data := data } }.ThreadAt pc) :
    Consistent { s.setPc thread pc with
      queue := { s.queue with next := next, data := data } } := by
  have isFresh : (s.setPc thread pc).fresh = s.fresh := by
    rw [fresh_setPc, same, ← own, update_eq_self]
  have other : ∀ {p}, s.Shared p → p ≠ node := by
    rintro p shared rfl
    exact shared.1 thread own
  have keeps : ∀ Held, Keeps Held s { s.setPc thread pc with
      queue := { s.queue with next := next, data := data } } := fun Held =>
    { shared := fun p _ shared => by
        refine ⟨fun o own => shared.1 o (isFresh ▸ own), fun absent => ?_⟩
        exact ne_of_eq_of_ne (sameNext p (other shared)) (shared.2 absent)
      next := fun p m shared ptr => (sameNext p (other shared)).trans ptr
      member := fun _ _ member => member
      data := fun p shared => sameData p (other shared)
      headAt := fun _ isHead => isHead.2
      ahead := fun _ _ ahead => ahead }
  refine
    { linked := linked
      once := inv.once
      head := inv.head
      tail := inv.tail
      values := ?_
      fresh := isFresh ▸ inv.fresh
      unlinked := isFresh ▸ inv.unlinked
      threads := forall_threads_setPc known fun o ne => ?_ }
  · refine inv.values.trans (congrArg _ (List.map_congr_left fun p member => ?_))
    refine (sameData p ?_).symm
    rintro rfl
    exact inv.unlinked thread p own (List.mem_of_mem_tail member)
  · refine (inv.threads o).mono (keeps _) fun p owned => ?_
    have elsewhere : p ≠ node := by
      rintro rfl
      exact ne (inv.fresh o thread p owned own)
    exact ⟨sameData p elsewhere, sameNext p elsewhere⟩

variable [DecidableEq Node]

theorem Consistent.setData (pc : s.threads thread = .setData node val) :
    Consistent { s.setPc thread (.setNext node val) with
      queue := { s.queue with data := update s.queue.data node val } } := by
  have own : s.fresh thread = some node := by
    rw [Parties.fresh, pc]
    rfl
  exact inv.write own rfl (fun _ _ => rfl)
    (fun other ne => update_of_ne ne _ _) inv.linked
    (update_self _ _ _)

theorem Consistent.setNext (pc : s.threads thread = .setNext node val) :
    Consistent { s.setPc thread (.pushTail node val) with
      queue := { s.queue with next := update s.queue.next node none } } := by
  have own : s.fresh thread = some node := by
    rw [Parties.fresh, pc]
    rfl
  have known := inv.threads thread
  rw [pc] at known
  exact inv.write own rfl (fun other ne => update_of_ne ne _ _)
    (fun _ _ => rfl)
    (inv.linked.update_of_not_mem (inv.unlinked thread node own) none)
    ⟨known, update_self _ _ _⟩

/-! ### The compare-and-swaps -/

/-- A node is linked behind the last one. -/
theorem Consistent.link {tail : Node} (pc : s.threads thread = .link node val tail)
    (last : s.queue.next tail = none) :
    Consistent { s.setPc thread (.swing node val tail) with
      queue := { s.queue with next := update s.queue.next tail (some node) }
      nodes := s.nodes ++ [node]
      pushes := s.pushes ++ [(thread, val)] } := by
  have own : s.fresh thread = some node := by
    rw [Parties.fresh, pc]
    rfl
  have known := inv.threads thread
  rw [pc] at known
  obtain ⟨⟨value, ends⟩, sharedTail⟩ := known
  have absent := inv.unlinked thread node own
  have member : tail ∈ s.nodes := by
    by_contra popped
    exact sharedTail.2 popped last
  have isFresh := fresh_setPc s thread (.swing node val tail)
  have unowned : ∀ {o p}, (s.setPc thread (.swing node val tail)).fresh o = some p →
      s.fresh o = some p ∧ p ≠ node := by
    intro o p owned
    rw [isFresh] at owned
    exact inv.fresh.update_none own owned
  have keeps : ∀ Held, Keeps Held s { s.setPc thread (.swing node val tail) with
      queue := { s.queue with next := update s.queue.next tail (some node) }
      nodes := s.nodes ++ [node]
      pushes := s.pushes ++ [(thread, val)] } := fun Held =>
    { shared := fun p _ shared => by
        refine ⟨fun o owned => shared.1 o (unowned owned).1, fun outside => ?_⟩
        have popped : p ∉ s.nodes := fun old => outside (List.mem_append_left _ old)
        have ne : p ≠ tail := by
          rintro rfl
          exact popped member
        exact ne_of_eq_of_ne (update_of_ne ne _ _) (shared.2 popped)
      next := fun p m _ ptr => by
        refine (update_of_ne ?_ _ _).trans ptr
        rintro rfl
        rw [last] at ptr
        cases ptr
      member := fun p shared mem => by
        obtain old | new := List.mem_append.mp mem
        · exact old
        · obtain rfl := List.mem_singleton.mp new
          exact absurd own (shared.1 thread)
      data := fun _ _ => rfl
      headAt := fun p isHead mem => by
        obtain old | new := List.mem_append.mp mem
        · exact isHead.2 old
        · obtain rfl := List.mem_singleton.mp new
          exact absurd own (isHead.1.1 thread)
      ahead := fun _ _ ahead => ahead }
  obtain ⟨rest, nodes⟩ := inv.eq_cons
  obtain ⟨before, shape⟩ := inv.linked.eq_append_of_none member last
  refine
    { linked := ?_
      once := ?_
      head := ?_
      tail := List.mem_append_left _ inv.tail
      values := ?_
      fresh := ?_
      unlinked := fun o p owned mem => ?_
      threads := forall_threads_setPc ⟨?_, update_self _ _ _⟩ fun o ne => ?_ }
  · have linked := inv.linked
    have once := inv.once
    rw [shape] at linked once absent
    rw [shape]
    exact linked.append once absent ends
  · refine List.nodup_append.mpr ⟨inv.once, by simp, fun p mem q new => ?_⟩
    obtain rfl := List.mem_singleton.mp new
    rintro rfl
    exact absent mem
  · show (s.nodes ++ [node]).head? = _
    rw [nodes]
    rfl
  · have values := inv.values
    show (s.pushes ++ [(thread, val)]).map Prod.snd =
      s.pops.map Prod.snd ++ (s.nodes ++ [node]).tail.map s.queue.data
    rw [nodes] at values ⊢
    rw [List.map_append, values, List.cons_append, List.tail_cons, List.tail_cons, List.map_append,
      List.append_assoc, List.map_singleton, List.map_singleton, value]
  · exact isFresh ▸ inv.fresh.give own
  · obtain ⟨owned, ne⟩ := unowned owned
    obtain old | new := List.mem_append.mp mem
    · exact inv.unlinked o p owned old
    · exact ne (List.mem_singleton.mp new)
  · exact (keeps fun _ => True).shared tail trivial sharedTail
  · refine (inv.threads o).mono (keeps _) fun p owned => ⟨rfl, ?_⟩
    refine update_of_ne ?_ _ _
    rintro rfl
    exact inv.unlinked o p owned member

omit [DecidableEq Thread] in
/-- A compare-and-swap moves the tail to the node behind it. -/
theorem Consistent.moveTail {tail next : Node} (ptr : s.queue.next tail = some next) :
    Consistent (s.moveTail tail next) := by
  obtain ⟨rest, nodes⟩ := inv.eq_cons
  have linked := inv.linked
  have once := inv.once
  rw [nodes] at linked once
  have later : s.queue.tail = tail → next ∈ rest := by
    intro cur
    have member := inv.tail
    rw [nodes, cur] at member
    exact linked.next_mem_tail member ptr
  refine
    { inv with
      tail := ?_
      threads := fun o => (inv.threads o).mono
        { shared := fun _ _ shared => shared
          next := fun _ _ _ ptr => ptr
          member := fun _ _ member => member
          data := fun _ _ => rfl
          headAt := fun _ isHead => isHead.2
          ahead := fun p _ ahead isHead => ?_ } fun _ _ => ⟨rfl, rfl⟩ }
  · show (if s.queue.tail = tail then next else s.queue.tail) ∈ s.nodes
    split
    · rename_i cur
      rw [nodes]
      exact List.mem_cons_of_mem _ (later cur)
    · exact inv.tail
  · show (if s.queue.tail = tail then next else s.queue.tail) ≠ p
    split
    · rename_i cur
      rintro rfl
      have isHead : s.queue.head = next := isHead
      rw [isHead] at once
      exact (List.nodup_cons.mp once).1 (later cur)
    · exact ahead isHead

/-- The node behind the dummy becomes the dummy. -/
theorem Consistent.popCas {head : Node} {res : T} (pc : s.threads thread = .popCas head next res)
    (cur : s.queue.head = head) :
    Consistent { s.setPc thread (.delete head res) with
      queue := { s.queue with head := next }
      nodes := s.nodes.tail
      pops := s.pops ++ [(thread, res)] } := by
  have known := inv.threads thread
  rw [pc] at known
  obtain ⟨_, ptr, ahead, _, value⟩ := known
  subst cur
  obtain ⟨rest, nodes⟩ := inv.eq_cons
  have linked := inv.linked
  have once := inv.once
  have isTail := inv.tail
  have values := inv.values
  rw [nodes] at linked once isTail values
  obtain ⟨later, rfl, linkedRest⟩ := linked.second ptr
  obtain ⟨absent, onceRest⟩ := List.nodup_cons.mp once
  have isFresh : (s.setPc thread (.delete s.queue.head res)).fresh = s.fresh := by
    rw [fresh_setPc, show (Pc.delete s.queue.head res).fresh = s.fresh thread by
      rw [Parties.fresh, pc]; rfl, update_eq_self]
  have popped : s.nodes.tail = next :: later := by rw [nodes, List.tail_cons]
  have smaller : ∀ {p}, p ∈ s.nodes.tail → p ∈ s.nodes := fun mem => List.mem_of_mem_tail mem
  have keeps : ∀ Held, Keeps Held s { s.setPc thread (.delete s.queue.head res) with
      queue := { s.queue with head := next }
      nodes := s.nodes.tail
      pops := s.pops ++ [(thread, res)] } := fun Held =>
    { shared := fun p _ shared => by
        refine ⟨fun o owned => shared.1 o (isFresh ▸ owned), fun outside => ?_⟩
        by_cases isHead : p = s.queue.head
        · subst isHead
          exact ne_of_eq_of_ne ptr (Option.some_ne_none next)
        · refine shared.2 fun old => outside ?_
          rw [nodes] at old
          exact popped ▸ (List.mem_cons.mp old).resolve_left isHead
      next := fun _ _ _ ptr => ptr
      member := fun _ _ mem => smaller mem
      data := fun _ _ => rfl
      headAt := fun p isHead mem => by
        have same := isHead.2 (smaller mem)
        have mem : p ∈ next :: later := popped ▸ mem
        exact absurd (same ▸ mem) absent
      ahead := fun p isHead _ same => by
        have mem : p ∈ next :: later := by
          obtain rfl : next = p := same
          exact List.mem_cons_self ..
        have isOld := isHead.2 (smaller (popped ▸ mem))
        exact absurd (isOld ▸ mem) absent }
  refine
    { linked := ?_
      once := ?_
      head := ?_
      tail := ?_
      values := ?_
      fresh := isFresh ▸ inv.fresh
      unlinked := fun o p owned mem =>
        inv.unlinked o p (isFresh ▸ owned) (smaller mem)
      threads := forall_threads_setPc trivial fun o _ =>
        (inv.threads o).mono (keeps _) fun _ _ => ⟨rfl, rfl⟩ }
  · exact popped ▸ linkedRest
  · exact popped ▸ onceRest
  · show s.nodes.tail.head? = some next
    rw [popped]
    rfl
  · show s.queue.tail ∈ s.nodes.tail
    rw [popped]
    exact (List.mem_cons.mp isTail).resolve_left (ahead rfl)
  · show s.pushes.map Prod.snd =
      (s.pops ++ [(thread, res)]).map Prod.snd ++ s.nodes.tail.tail.map s.queue.data
    rw [popped, values, List.tail_cons, List.map_append, List.append_assoc,
      List.map_cons, value]
    rfl

/-! ## The programs -/

theorem Consistent.pushStep (step : s.pushStep thread = some s') : Consistent s' := by
  have known := inv.threads thread
  have isFresh : s.fresh thread = (s.threads thread).fresh := rfl
  simp only [Parties.pushStep] at step
  generalize pc : s.threads thread = access at step known isFresh
  cases access with
  | setData n val =>
    cases step
    exact inv.setData pc
  | setNext n val =>
    cases step
    exact inv.setNext pc
  | pushTail n val =>
    cases step
    exact inv.setPc isFresh.symm ⟨known, inv.shared_of_mem inv.tail⟩
  | pushNext n val tail =>
    cases step
    exact inv.setPc isFresh.symm ⟨known.1, known.2, fun _ m same => same⟩
  | pushCheck n val tail next =>
    cases step
    obtain ⟨ready, shared, seen⟩ := known
    split
    · rename_i cur
      cases next with
      | none => exact inv.setPc isFresh.symm ⟨ready, shared⟩
      | some next =>
        have mem : tail ∈ s.nodes := cur ▸ inv.tail
        exact inv.setPc isFresh.symm ⟨ready, shared, seen mem next rfl⟩
    · exact inv.setPc isFresh.symm ready
  | link n val tail =>
    dsimp only at step
    split at step
    · rename_i last
      cases step
      exact inv.link pc last
    · cases step
      exact inv.setPc isFresh.symm known.1
  | pushHelp n val tail next =>
    cases step
    obtain ⟨ready, _, ptr⟩ := known
    exact (inv.moveTail ptr).setPc isFresh.symm ready
  | swing n val tail =>
    cases step
    exact (inv.moveTail known.2).setPc isFresh.symm trivial
  | pushed val =>
    cases step
    have moved : Consistent (s.setPc thread .idle) := inv.setPc isFresh.symm trivial
    exact { moved with }
  | _ =>
    cases step

theorem Consistent.popStep (step : s.popStep thread = some s') : Consistent s' := by
  have known := inv.threads thread
  have isFresh : s.fresh thread = (s.threads thread).fresh := rfl
  simp only [Parties.popStep] at step
  generalize pc : s.threads thread = access at step isFresh known
  cases access with
  | popHead =>
    cases step
    exact inv.setPc isFresh.symm inv.headAt_head
  | popTail head =>
    cases step
    refine inv.setPc isFresh.symm ⟨known, fun ne => ?_⟩
    exact ⟨inv.next_ne_none known ne, fun _ => ne.symm⟩
  | popNext head tail =>
    cases step
    exact inv.setPc isFresh.symm ⟨known.1, fun _ m same => same, known.2⟩
  | popCheck head tail next =>
    cases step
    obtain ⟨isHead, seen, later⟩ := known
    split
    · rename_i cur
      have mem : head ∈ s.nodes := by
        obtain ⟨rest, nodes⟩ := inv.eq_cons
        rw [nodes, cur]
        exact List.mem_cons_self ..
      split_ifs with same
      · cases next with
        | none => exact inv.setPc isFresh.symm trivial
        | some next =>
          exact inv.setPc isFresh.symm
            ⟨same ▸ isHead.1, same ▸ seen mem next rfl⟩
      · obtain ⟨some, ahead⟩ := later same
        cases next with
        | none => exact absurd rfl some
        | some next =>
          have ptr := seen mem next rfl
          subst cur
          obtain ⟨shared, apart⟩ := inv.successor ptr
          exact inv.setPc isFresh.symm ⟨isHead, ptr, ahead, shared, apart⟩
    · exact inv.setPc isFresh.symm trivial
  | popHelp tail next =>
    cases step
    exact (inv.moveTail known.2).setPc isFresh.symm trivial
  | popData head next =>
    cases step
    obtain ⟨isHead, ptr, ahead, shared, ne⟩ := known
    rw [if_neg ne]
    exact inv.setPc isFresh.symm ⟨isHead, ptr, ahead, shared, rfl⟩
  | popCas head next res =>
    dsimp only at step
    split at step
    · rename_i cur
      cases step
      exact inv.popCas pc cur
    · cases step
      exact inv.setPc isFresh.symm trivial
  | delete head res =>
    cases step
    exact inv.setPc isFresh.symm trivial
  | popped res =>
    cases step
    have moved : Consistent (s.setPc thread .idle) := inv.setPc isFresh.symm trivial
    exact { moved with }
  | _ =>
    cases step

theorem Consistent.step {ev : QueueEvent Thread Node T} (ok : s.Allowed ev)
    (step : s.step ev = some s') : Consistent s' := by
  cases ev with
  | push thread val | pop thread =>
    simp only [Parties.step] at step
    split at step
    · rename_i idle
      cases step
      exact inv.setPc (by rw [Parties.fresh, idle]; rfl) trivial
    · cases step
  | allocated thread node =>
    simp only [Parties.step] at step
    split at step
    · cases step
      exact inv.allocated ok.1 ok.2
    · cases step
  | thread thread =>
    obtain pushed | ⟨_, popped⟩ := Option.or_eq_some_iff.mp step
    · exact inv.pushStep pushed
    · exact inv.popStep popped

end

end Parties

end Xdk.Lockfree
