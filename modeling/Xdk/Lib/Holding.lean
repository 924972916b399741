import Mathlib.Order.Interval.Finset.Nat

/-! # Who holds what

`held holder` is what a holder has taken and not yet given back.  A resource is held by at
most one holder, as long as a holder takes only what nobody has.  Positions that are handed
out in their order and given back in the same order are the special case of tickets: the
positions between two counters are held, each by one holder.  Where a holder may have several
resources, who has what is a list of pairs.
-/

namespace Xdk.Lib

variable {Holder Resource : Type*} {held : Holder → Option Resource}

def Exclusive (held : Holder → Option Resource) : Prop :=
  ∀ first second resource, held first = some resource → held second = some resource →
    first = second

theorem exclusive_none : Exclusive (fun _ : Holder => (none : Option Resource)) := by
  intro _ _ _ held
  cases held

section Update

variable [DecidableEq Holder] {holder : Holder} {resource : Resource}

theorem update_eq_some_iff {v : Option Resource} {o : Holder} :
    Function.update held holder v o = some resource ↔
      o = holder ∧ v = some resource ∨ o ≠ holder ∧ held o = some resource := by
  by_cases same : o = holder
  · subst same
    simp
  · simp [same]

/-- A holder that had nothing takes a resource. -/
theorem exists_update_some_iff (empty : held holder = none) {taken : Resource} :
    (∃ o, Function.update held holder (some resource) o = some taken) ↔
      (∃ o, held o = some taken) ∨ taken = resource := by
  constructor
  · rintro ⟨o, holds⟩
    obtain ⟨_, same⟩ | ⟨_, old⟩ := update_eq_some_iff.mp holds
    · exact .inr (Option.some.inj same).symm
    · exact .inl ⟨o, old⟩
  · rintro (⟨o, old⟩ | rfl)
    · refine ⟨o, update_eq_some_iff.mpr (.inr ⟨?_, old⟩)⟩
      rintro rfl
      rw [empty] at old
      cases old
    · exact ⟨holder, update_eq_some_iff.mpr (.inl ⟨rfl, rfl⟩)⟩

section

variable (exclusive : Exclusive held)
include exclusive

theorem Exclusive.take (free : ∀ o, held o ≠ some resource) :
    Exclusive (Function.update held holder (some resource)) := by
  intro a b shared isFirst isSecond
  obtain ⟨rfl, same⟩ | ⟨_, old⟩ := update_eq_some_iff.mp isFirst
  · obtain ⟨rfl, _⟩ | ⟨_, alsoOld⟩ := update_eq_some_iff.mp isSecond
    · rfl
    · exact absurd (same ▸ alsoOld) (free b)
  · obtain ⟨rfl, same⟩ | ⟨_, alsoOld⟩ := update_eq_some_iff.mp isSecond
    · exact absurd (same ▸ old) (free a)
    · exact exclusive a b shared old alsoOld

section

variable (holds : held holder = some resource)
include holds

/-- After a holder has given its resource back, the others have other resources. -/
theorem Exclusive.update_none {o : Holder} {kept : Resource}
    (keeps : Function.update held holder none o = some kept) :
    held o = some kept ∧ kept ≠ resource := by
  obtain ⟨_, none⟩ | ⟨ne, old⟩ := update_eq_some_iff.mp keeps
  · cases none
  · refine ⟨old, ?_⟩
    rintro rfl
    exact ne (exclusive o holder _ old holds)

theorem Exclusive.give : Exclusive (Function.update held holder none) := by
  intro a b shared isFirst isSecond
  exact exclusive a b shared (exclusive.update_none holds isFirst).1
    (exclusive.update_none holds isSecond).1

theorem Exclusive.exists_update_none_iff {kept : Resource} :
    (∃ o, Function.update held holder none o = some kept) ↔
      (∃ o, held o = some kept) ∧ kept ≠ resource := by
  constructor
  · rintro ⟨o, keeps⟩
    obtain ⟨old, ne⟩ := exclusive.update_none holds keeps
    exact ⟨⟨o, old⟩, ne⟩
  · rintro ⟨⟨o, old⟩, ne⟩
    refine ⟨o, update_eq_some_iff.mpr (.inr ⟨?_, old⟩)⟩
    rintro rfl
    exact ne (Option.some.inj (old.symm.trans holds))

end

end

end Update

/-! ## Tickets -/

/-- The tickets from `low` to `high` are held, each by one holder, and no others. -/
structure Ticketed (held : Holder → Option Nat) (low high : Nat) : Prop where
  exclusive : Exclusive held
  ordered : low ≤ high
  between : ∀ ticket, (∃ holder, held holder = some ticket) ↔ low ≤ ticket ∧ ticket < high

theorem ticketed_none (start : Nat) : Ticketed (fun _ : Holder => none) start start := by
  refine ⟨exclusive_none, Nat.le_refl _, fun ticket => ⟨?_, fun inside => by omega⟩⟩
  rintro ⟨_, held⟩
  cases held

section Tickets

variable [DecidableEq Holder] {held : Holder → Option Nat} {low high : Nat} {holder : Holder}

theorem Ticketed.draw (ticketed : Ticketed held low high) (empty : held holder = none) :
    Ticketed (Function.update held holder (some high)) low (high + 1) := by
  have ordered := ticketed.ordered
  have unused : ∀ o, held o ≠ some high := by
    intro o holds
    have := (ticketed.between high).mp ⟨o, holds⟩
    omega
  refine ⟨ticketed.exclusive.take unused, by omega, fun ticket => ?_⟩
  rw [exists_update_some_iff empty, ticketed.between]
  omega

/-- The holder of the first ticket is done. -/
theorem Ticketed.finish (ticketed : Ticketed held low high) (holds : held holder = some low) :
    Ticketed (Function.update held holder none) (low + 1) high := by
  have first := (ticketed.between low).mp ⟨holder, holds⟩
  refine ⟨ticketed.exclusive.give holds, first.2, fun ticket => ?_⟩
  rw [ticketed.exclusive.exists_update_none_iff holds, ticketed.between]
  omega

end Tickets

/-- There are as many holders as tickets. -/
theorem Ticketed.le_card {held : Holder → Option Nat} {low high : Nat} {crowd : Finset Holder}
    (ticketed : Ticketed held low high)
    (covers : ∀ holder ticket, held holder = some ticket → holder ∈ crowd) :
    high - low ≤ crowd.card := by
  have all : Finset.Ico low high ⊆ crowd.image fun holder => (held holder).getD 0 := by
    intro ticket inside
    obtain ⟨holder, holds⟩ := (ticketed.between ticket).mpr (Finset.mem_Ico.mp inside)
    refine Finset.mem_image.mpr ⟨holder, covers holder ticket holds, ?_⟩
    rw [holds]
    rfl
  calc high - low = (Finset.Ico low high).card := (Nat.card_Ico low high).symm
    _ ≤ (crowd.image fun holder => (held holder).getD 0).card := Finset.card_le_card all
    _ ≤ crowd.card := Finset.card_image_le

/-! ## Lists of holdings -/

section Lists

variable {holdings : List (Holder × Resource)} {holder : Holder} {resource : Resource}

def Once (holdings : List (Holder × Resource)) : Prop := (holdings.map Prod.snd).Nodup

theorem Once.append (once : Once holdings) (free : ∀ o, (o, resource) ∉ holdings) :
    Once (holdings ++ [(holder, resource)]) := by
  rw [Once, List.map_append, List.nodup_append]
  refine ⟨once, by simp, fun first listed second isLast => ?_⟩
  obtain ⟨⟨o, taken⟩, mem, rfl⟩ := List.mem_map.mp listed
  obtain rfl := List.mem_singleton.mp isLast
  rintro rfl
  exact free o mem

variable [DecidableEq Holder] [DecidableEq Resource]

theorem Once.erase (once : Once holdings) (e : Holder × Resource) :
    Once (holdings.erase e) :=
  List.Nodup.sublist (List.erase_sublist.map _) once

/-- With the entry of a holder, the resource is gone from the list. -/
theorem Once.mem_erase_iff (once : Once holdings) (mine : (holder, resource) ∈ holdings)
    {e : Holder × Resource} :
    e ∈ holdings.erase (holder, resource) ↔ e ∈ holdings ∧ e.2 ≠ resource := by
  rw [(List.Nodup.of_map _ once).mem_erase_iff, and_comm]
  refine and_congr_right fun mem => not_congr ⟨?_, fun same => ?_⟩
  · rintro rfl
    rfl
  · exact List.inj_on_of_nodup_map once mem mine same

end Lists

end Xdk.Lib
