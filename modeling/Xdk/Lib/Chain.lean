import Mathlib.Logic.Function.Basic

/-! # Linked lists in a memory

A memory of nodes has a pointer to the next node for every node, or none.  `Linked next chain`
says that the nodes of `chain` are linked one to the next and that the last one has no
successor.  The lemmas say what the two ends of a queue do: a node is appended behind the
last one, and the first one is given up.
-/

namespace Xdk.Lib

variable {Node : Type*} {next : Node → Option Node} {chain : List Node} {node other : Node}

def Linked (next : Node → Option Node) : List Node → Prop
  | [] => False
  | [last] => next last = none
  | first :: second :: rest => next first = some second ∧ Linked next (second :: rest)

theorem Linked.next_mem {node : Node} (linked : Linked next chain) (mem : node ∈ chain)
    (ptr : next node = some other) : other ∈ chain := by
  induction chain with
  | nil => cases mem
  | cons first rest ih =>
    cases rest with
    | nil =>
      obtain rfl := List.mem_singleton.mp mem
      rw [linked] at ptr
      cases ptr
    | cons second rest =>
      obtain ⟨link, linked⟩ := linked
      obtain rfl | later := List.mem_cons.mp mem
      · obtain rfl := Option.some.inj (link.symm.trans ptr)
        exact List.mem_cons_of_mem _ (List.mem_cons_self ..)
      · exact List.mem_cons_of_mem _ (ih linked later)

/-- Only the last node has no successor. -/
theorem Linked.eq_append_of_none (linked : Linked next chain) (mem : node ∈ chain)
    (last : next node = none) : ∃ before, chain = before ++ [node] := by
  induction chain with
  | nil => cases mem
  | cons a rest ih =>
    cases rest with
    | nil =>
      obtain rfl := List.mem_singleton.mp mem
      exact ⟨[], rfl⟩
    | cons second rest =>
      obtain ⟨link, linked⟩ := linked
      obtain rfl | later := List.mem_cons.mp mem
      · rw [link] at last
        cases last
      · obtain ⟨before, same⟩ := ih linked later
        exact ⟨a :: before, by rw [same, List.cons_append]⟩

variable {a : Node} {rest : List Node}

section

variable (linked : Linked next (a :: rest))
include linked

/-- The first node is nobody's successor. -/
theorem Linked.next_mem_tail {node : Node} (mem : node ∈ a :: rest)
    (ptr : next node = some other) : other ∈ rest := by
  cases rest with
  | nil =>
    obtain rfl := List.mem_singleton.mp mem
    rw [linked] at ptr
    cases ptr
  | cons second rest =>
    obtain ⟨link, linked⟩ := linked
    obtain rfl | later := List.mem_cons.mp mem
    · obtain rfl := Option.some.inj (link.symm.trans ptr)
      exact List.mem_cons_self ..
    · exact linked.next_mem later ptr

theorem Linked.second {b : Node} (link : next a = some b) :
    ∃ later, rest = b :: later ∧ Linked next rest := by
  cases rest with
  | nil =>
    rw [linked] at link
    cases link
  | cons found rest =>
    obtain rfl := Option.some.inj (linked.1.symm.trans link)
    exact ⟨rest, rfl, linked.2⟩

theorem Linked.eq_singleton (alone : next a = none) : rest = [] := by
  cases rest with
  | nil => rfl
  | cons second rest =>
    rw [linked.1] at alone
    cases alone

end

/-- Only the pointers of the nodes matter. -/
theorem Linked.congr {next' : Node → Option Node} (linked : Linked next chain)
    (same : ∀ n ∈ chain, next' n = next n) : Linked next' chain := by
  induction chain with
  | nil => exact linked
  | cons a rest ih =>
    have atFirst := same a (List.mem_cons_self ..)
    cases rest with
    | nil => exact atFirst.trans linked
    | cons second rest =>
      exact ⟨atFirst.trans linked.1, ih linked.2
        fun n later => same n (List.mem_cons_of_mem _ later)⟩

section Update

variable [DecidableEq Node]

theorem Linked.update_of_not_mem {node : Node} (linked : Linked next chain)
    (absent : node ∉ chain) (v : Option Node) : Linked (Function.update next node v) chain := by
  refine linked.congr fun other mem => Function.update_of_ne ?_ _ _
  rintro rfl
  exact absent mem

/-- A new node behind the last one. -/
theorem Linked.append {before : List Node} {last : Node}
    (linked : Linked next (before ++ [last])) (once : (before ++ [last]).Nodup)
    (fresh : node ∉ before ++ [last]) (ends : next node = none) :
    Linked (Function.update next last (some node)) (before ++ [last] ++ [node]) := by
  induction before with
  | nil =>
    have ne : node ≠ last := by
      rintro rfl
      exact fresh (by simp)
    refine ⟨Function.update_self _ _ _, ?_⟩
    rw [Linked, Function.update_of_ne ne]
    exact ends
  | cons a rest ih =>
    obtain ⟨notLater, onceLater⟩ := List.nodup_cons.mp once
    have ne : a ≠ last := by
      rintro rfl
      exact notLater (by simp)
    have freshLater : node ∉ rest ++ [last] := fun mem => fresh (List.mem_cons_of_mem _ mem)
    cases rest with
    | nil | cons second rest =>
      refine ⟨?_, ih linked.2 onceLater freshLater⟩
      rw [Function.update_of_ne ne]
      exact linked.1

end Update

end Xdk.Lib
