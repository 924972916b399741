import Mathlib.Order.Lattice

/-! # Ascending chains of intervals

`Ascending lo hi floor xs ceiling` says that the closed intervals
`[lo x, hi x]` of the list `xs` are non-empty, lie one after the other without
touching, and all fall in the half-open range `(floor, ceiling]`.
-/

namespace Xdk.Lib

variable {α β : Type*} [LinearOrder β] {lo hi : α → β}

def Ascending (lo hi : α → β) : β → List α → β → Prop
  | floor, [], ceiling => floor ≤ ceiling
  | floor, x :: xs, ceiling => floor < lo x ∧ lo x ≤ hi x ∧ Ascending lo hi (hi x) xs ceiling

def Apart (lo hi : α → β) (x y : α) : Prop := hi x < lo y ∨ hi y < lo x

variable {x : α}

theorem Apart.not_both {y : α} (apart : Apart lo hi x y) {point : β}
    (a : lo x ≤ point ∧ point ≤ hi x) (b : lo y ≤ point ∧ point ≤ hi y) : False := by
  rcases apart with before | after
  · exact absurd (lt_of_le_of_lt a.2 (lt_of_lt_of_le before b.1)) (lt_irrefl _)
  · exact absurd (lt_of_le_of_lt b.2 (lt_of_lt_of_le after a.1)) (lt_irrefl _)

variable {xs : List α} {floor ceiling : β}

section

variable (chain : Ascending lo hi floor xs ceiling)
include chain

theorem Ascending.floor_le : floor ≤ ceiling := by
  induction xs generalizing floor with
  | nil => exact chain
  | cons x xs ih =>
    obtain ⟨above, proper, rest⟩ := chain
    exact le_trans (le_of_lt above) (le_trans proper (ih rest))

theorem Ascending.raise {higher : β} (le : ceiling ≤ higher) :
    Ascending lo hi floor xs higher := by
  induction xs generalizing floor with
  | nil => exact le_trans chain le
  | cons x xs ih =>
    exact ⟨chain.1, chain.2.1, ih chain.2.2⟩

theorem Ascending.mem (mem : x ∈ xs) :
    floor < lo x ∧ lo x ≤ hi x ∧ hi x ≤ ceiling := by
  induction xs generalizing floor with
  | nil => cases mem
  | cons y xs ih =>
    obtain ⟨above, proper, rest⟩ := chain
    cases mem with
    | head => exact ⟨above, proper, rest.floor_le⟩
    | tail _ mem =>
      obtain ⟨aboveHead, properTail, le⟩ := ih rest mem
      exact ⟨lt_trans (lt_of_lt_of_le above proper) aboveHead, properTail, le⟩

theorem Ascending.snoc (above : ceiling < lo x) (proper : lo x ≤ hi x) :
    Ascending lo hi floor (xs ++ [x]) (hi x) := by
  induction xs generalizing floor with
  | nil => exact ⟨lt_of_le_of_lt chain above, proper, le_refl _⟩
  | cons y xs ih =>
    exact ⟨chain.1, chain.2.1, ih chain.2.2⟩

theorem Ascending.pairwise_apart :
    xs.Pairwise (Apart lo hi) := by
  induction xs generalizing floor with
  | nil => exact .nil
  | cons x xs ih =>
    refine List.Pairwise.cons (fun y mem => ?_) (ih chain.2.2)
    exact .inl (chain.2.2.mem mem).1

end

end Xdk.Lib
