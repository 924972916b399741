import Xdk.Lib.Intervals
import Xdk.Nvme.BatchProgress

/-! # The ranges in flight are disjoint

The identifiers are handed out in laps through `1 .. 65535`.  Either the ranges in
flight ascend from `_last_available_cmdid` to the counter, or the younger ones have
started a new lap and stay below it.  `is_available` keeps the two apart, with one
exception: until the first batch is retired `_last_available_cmdid` is 0, and a new lap
that starts then finds every range available.
-/

namespace Xdk.Nvme

open Xdk.Lib

/-- The last identifier taken, where a range claimed counts as taken up to its start. -/
def Phase.claimed (counter : Nat) : Phase → Nat
  | .claiming first _ _ | .granted first _ _ => first - 1
  | .issuing _ (some final) | .submitting _ _ _ (some final) => final
  | _ => counter

def Phase.reserved (counter : Nat) : Phase → Nat
  | .granted _ final _ => final
  | phase => phase.claimed counter

abbrev Chain (floor : Nat) (ranges : List (Nat × Nat)) (ceiling : Nat) : Prop :=
  Ascending Prod.fst Prod.snd floor ranges ceiling

namespace Ledger

inductive Arranged (l : Ledger) : Prop where
  -- all in one lap
  | straight (chain : Chain l.last l.ranges (l.phase.claimed l.counter))
  -- the younger ranges are in the next lap
  | wrapped (older younger : List (Nat × Nat)) (split : l.ranges = older ++ younger)
      (upper : Chain l.last older 65535) (lower : Chain 0 younger (l.phase.claimed l.counter))
      (below : l.phase.reserved l.counter < l.last)
  -- a new lap is about to start and no batch has ever been retired
  | startup (chain : Chain 0 l.ranges 65535) (fresh : l.last = 0) (final : Nat)
      (requests : List IoRequest) (waiting : l.phase = .claiming 1 final requests)

/-- Where a new lap starts while no batch was ever retired, no range is in flight. -/
def Orderly (l : Ledger) : Prop :=
  ∀ final requests, l.phase = .claiming 1 final requests → l.last = 0 → l.ranges = []

variable {l : Ledger}

theorem Arranged.pairwise_apart (proper : l.Proper) (arranged : l.Arranged) :
    l.ranges.Pairwise (Apart Prod.fst Prod.snd) := by
  cases arranged with
  | straight chain | startup chain => exact chain.pairwise_apart
  | wrapped older younger split hi lo below =>
    rw [split, List.pairwise_append]
    refine ⟨hi.pairwise_apart, lo.pairwise_apart, fun a old second young => .inr ?_⟩
    have claimedLe : l.phase.claimed l.counter ≤ l.phase.reserved l.counter := by
      have phase := proper.phase
      cases pc : l.phase with
      | granted a final requests =>
        rw [pc] at phase
        have := phase.ordered
        simp only [Phase.claimed, Phase.reserved]
        omega
      | _ => exact Nat.le_refl _
    have := (hi.mem old).1
    have := (lo.mem young).2.2
    omega

theorem Arranged.of_same {l' : Ledger} (arranged : l.Arranged) (ranges : l'.ranges = l.ranges)
    (last : l'.last = l.last) (claimed : l'.phase.claimed l'.counter = l.phase.claimed l.counter)
    (reserved : l'.phase.reserved l'.counter = l.phase.reserved l.counter)
    (waiting : ∀ final reqs, l.phase = .claiming 1 final reqs → l'.phase = .claiming 1 final reqs) :
    l'.Arranged := by
  cases arranged with
  | straight chain => exact .straight (by rwa [ranges, last, claimed])
  | wrapped older younger split upper lower below =>
    exact .wrapped older younger (by rw [ranges, split]) (by rwa [last]) (by rwa [claimed])
      (by rwa [last, reserved])
  | startup chain fresh final reqs waits =>
    exact .startup (by rwa [ranges]) (by rw [last, fresh]) final reqs (waiting _ _ waits)

variable {final : Nat} {reqs : List IoRequest}

theorem Arranged.restart (chain : Chain l.last l.ranges 65535)
    (waiting : l.phase = .claiming 1 final reqs) :
    l.Arranged := by
  by_cases fresh : l.last = 0
  · exact .startup (fresh ▸ chain) fresh final reqs waiting
  · have claimed : l.phase.claimed l.counter = 0 := by rw [waiting]; rfl
    refine .wrapped l.ranges [] (by simp) chain ?_ ?_
    · rw [claimed]
      exact Nat.le_refl 0
    · rw [waiting]
      exact Nat.pos_of_ne_zero fresh

section

variable (arranged : l.Arranged)
include arranged

theorem Arranged.beginRange (proper : l.Proper) (rest : l.phase = .rest) :
    Arranged { l with phase := .claiming (nextCmdid l.counter) final reqs } := by
  have bound := proper.counter_lt
  have first := nextCmdid_eq bound
  cases arranged with
  | startup _ _ _ _ waiting => rw [rest] at waiting; cases waiting
  | straight chain =>
    rw [rest] at chain
    by_cases atEnd : l.counter = 65535
    · rw [if_pos atEnd] at first
      rw [first]
      exact .restart (chain.raise (Nat.le_of_eq atEnd)) rfl
    · rw [if_neg atEnd] at first
      rw [first]
      exact .straight chain
  | wrapped older younger split hi lo lt =>
    rw [rest] at lo lt
    have lastLe := hi.floor_le
    simp only [Phase.reserved, Phase.claimed] at lt
    rw [if_neg (by omega)] at first
    rw [first]
    exact .wrapped older younger split hi lo lt

/-- `can_reset_cmdid` does not hold while the younger ranges are in the next lap. -/
theorem Arranged.reset {requests' : List IoRequest} (proper : l.Proper)
    (pc : l.phase = .resetting reqs) (retired : l.last ≤ l.counter) :
    Arranged { l with counter := 0, phase := .claiming (nextCmdid 0) final requests' } := by
  have bound := proper.counter_lt
  cases arranged with
  | startup _ _ _ _ waiting => rw [pc] at waiting; cases waiting
  | straight chain =>
    rw [pc] at chain
    have raised : Chain l.last l.ranges 65535 := chain.raise (Nat.le_of_lt_succ bound)
    exact .restart raised rfl
  | wrapped _ _ _ _ _ lt =>
    rw [pc] at lt
    simp only [Phase.reserved, Phase.claimed] at lt
    omega

theorem Arranged.grant {first : Nat} (orderly : l.Orderly)
    (pc : l.phase = .claiming first final reqs)
    (free : first < l.last ∧ final < l.last ∨ l.last < first ∧ l.last < final) :
    Arranged { l with phase := .granted first final reqs } := by
  cases arranged with
  | straight chain =>
    rw [pc] at chain
    exact .straight chain
  | wrapped older younger split hi lo lt =>
    rw [pc] at lo lt
    refine .wrapped older younger split hi lo ?_
    -- the range starts below `last`, so it is available only when it ends there too
    simp only [Phase.reserved, Phase.claimed] at lt ⊢
    omega
  | startup _ fresh final' requests' waiting =>
    have nothing := orderly final' requests' waiting fresh
    rw [pc] at waiting
    cases waiting
    -- nothing is in flight, so the new lap is the only one
    have empty : Chain l.last l.ranges 0 := by
      rw [nothing, fresh]
      exact Nat.le_refl 0
    exact .straight empty

theorem Arranged.push {first len : Nat} {todo : List Op} (proper : l.Proper)
    (pc : l.phase = .granted first final reqs) :
    Arranged { l with
      batches := l.batches ++ [System.batchInfo first final len]
      phase := .issuing todo (some final) } := by
  have claim := proper.phase
  rw [pc] at claim
  have ordered : (first, final).1 ≤ (first, final).2 := claim.ordered
  have pos : 0 < first := claim.first_eq ▸ nextCmdid_pos _
  have above : first - 1 < (first, final).1 := Nat.sub_one_lt_of_lt pos
  cases arranged with
  | startup _ _ _ _ waiting => rw [pc] at waiting; cases waiting
  | straight chain =>
    rw [pc] at chain
    refine .straight ?_
    rw [ranges_push]
    exact chain.snoc above ordered
  | wrapped older younger split hi lo lt =>
    rw [pc] at lo lt
    refine .wrapped older (younger ++ [(first, final)]) ?_ hi (lo.snoc above ordered) lt
    rw [ranges_push, split, List.append_assoc]

end

theorem Arranged.retire {l : Ledger} {b : BatchInfo} (arranged : l.Arranged)
    (pc : l.thread = .leaving b) :
    Arranged { l with last := b.endCmdid, thread := .retiring } := by
  have head := ranges_retire pc
  cases arranged with
  | straight chain =>
    rw [head] at chain
    exact .straight chain.2.2
  | startup chain fresh final requests waiting =>
    rw [head] at chain
    exact .restart chain.2.2 waiting
  | wrapped older younger split hi lo lt =>
    cases older with
    | nil =>
      rw [List.nil_append, head] at split
      rw [← split] at lo
      exact .straight lo.2.2
    | cons oldest older =>
      rw [head, List.cons_append, List.cons.injEq] at split
      obtain ⟨rfl, rest⟩ := split
      obtain ⟨above, ordered, hi⟩ := hi
      refine .wrapped older younger rest hi lo (Nat.lt_trans lt ?_)
      exact Nat.lt_of_lt_of_le above ordered

theorem Arranged.step {l' : Ledger} {ev : Event} (arranged : l.Arranged) (proper : l.Proper)
    (reached : l.phase.Reached l.counter l.tip) (noSingle : ∀ op, ev ≠ .call (.single op))
    (orderly : ev = .producer → l.Orderly) (step : Step l ev l') : l'.Arranged := by
  have phase := proper.phase
  cases step with
  | stutter => exact arranged
  | beginSingle => exact absurd rfl (noSingle _)
  | beginRange rest => exact arranged.beginRange proper rest
  | reset pc retired => exact arranged.reset proper pc retired
  | grant pc free => exact arranged.grant (orderly rfl) pc free
  | push pc => exact arranged.push proper pc
  | complete quiet =>
    exact arranged.of_same (ranges_thread (by rw [quiet]; rfl) rfl) rfl rfl rfl fun _ _ => id
  | ignore pc | popEnd pc =>
    exact arranged.of_same (ranges_thread (by rw [pc]; rfl) rfl) rfl rfl rfl fun _ _ => id
  | count pc held _ _ counts =>
    exact arranged.of_same (ranges_count proper pc held counts) rfl rfl rfl fun _ _ => id
  | pop pc held => exact arranged.of_same (ranges_pop pc held) rfl rfl rfl fun _ _ => id
  | retire pc => exact arranged.retire pc
  | beginWrap rest =>
    exact arranged.of_same rfl rfl (by rw [rest]; rfl) (by rw [rest]; rfl) (by simp [rest])
  | alloc pc | submit pc =>
    rw [pc] at reached
    obtain rfl : _ = some l.tip := reached
    exact arranged.of_same rfl rfl (by rw [pc]; rfl) (by rw [pc]; rfl) (by simp [pc])
  | finish pc =>
    rw [pc] at reached phase
    obtain rfl : _ = some l.tip := reached
    have counter : l.counter = l.tip := phase
    exact arranged.of_same rfl rfl (by rw [pc]; exact counter) (by rw [pc]; exact counter)
      (by simp [pc])

end Ledger

end Xdk.Nvme
