import Mathlib.Data.List.TakeWhile
import Xdk.Nvme.BatchManager

/-! # One call of `update`

`update` without the producer in between: the record of a command is counted, and when the
oldest batch has become complete the pop loop takes the complete batches from the front of the
ring, storing the last identifier of each.
-/

namespace Xdk.Nvme

open Xdk.Lib

namespace BatchManager

def push (manager : BatchManager) (item : BatchInfo) : Option BatchManager :=
  (manager.buffer.push item).map fun buffer => { manager with buffer := buffer }

/-- The pop loop over the `steps` indices from `idx`, and the records it has popped. -/
def popLoop (manager : BatchManager) : (steps idx : Nat) → Option (BatchManager × List BatchInfo)
  | 0, _ => some (manager, [])
  | steps + 1, idx =>
    if (manager.buffer.array (idx % batchInfoBufferSize)).isComplete then
      match manager.buffer.pop with
      | none => none
      | some (bi, buffer) =>
        (popLoop ⟨buffer, bi.endCmdid⟩ steps (idx + 1)).map fun (manager, popped) =>
          (manager, bi :: popped)
    else some (manager, [])

/-- What a call of `update` has done: the object whose `action` was called and the records that
    have left the ring. -/
structure Updated where
  manager : BatchManager
  notified : Option Notify
  popped : List BatchInfo

def update (manager : BatchManager) (cmdid : Nat) : Option Updated := do
  let counted ← manager.updateSingleIteration cmdid
  match counted.popFrom with
  | none => return ⟨counted.manager, counted.notified, []⟩
  | some (idx, tail) =>
    let (manager, popped) ← counted.manager.popLoop (tail - idx) idx
    return ⟨manager, counted.notified, popped⟩

/-- The last identifier of the last of the records, or else the value before. -/
def lastCmdid (before : Nat) (popped : List BatchInfo) : Nat :=
  (popped.getLast?.map BatchInfo.endCmdid).getD before

theorem lastCmdid_cons (before : Nat) (b : BatchInfo) (popped : List BatchInfo) :
    lastCmdid before (b :: popped) = lastCmdid b.endCmdid popped := by
  cases popped with
  | nil => rfl
  | cons next rest => simp [lastCmdid, List.getLast?_cons]

theorem lastCmdid_append (before : Nat) (first second : List BatchInfo) :
    lastCmdid before (first ++ second) = lastCmdid (lastCmdid before first) second := by
  induction first generalizing before with
  | nil => rfl
  | cons batch first ih =>
    rw [List.cons_append, lastCmdid_cons, ih, lastCmdid_cons]

variable {mgr : BatchManager}

/-- The loop pops the complete batches at the front of the queue, and no others. -/
theorem popLoop_spec {steps idx : Nat} (counts : mgr.buffer.count = steps)
    (atHead : idx % batchInfoBufferSize = mgr.buffer.head) :
    ∃ manager', mgr.popLoop steps idx =
        some (manager', mgr.batches.takeWhile BatchInfo.isComplete) ∧
      manager'.batches = mgr.batches.dropWhile BatchInfo.isComplete ∧
      manager'.lastAvailableCmdid = lastCmdid mgr.lastAvailableCmdid
        (mgr.batches.takeWhile BatchInfo.isComplete) := by
  induction steps generalizing mgr idx with
  | zero =>
    have empty : mgr.batches = [] :=
      List.eq_nil_of_length_eq_zero ((RingBuffer.length_contents _).trans counts)
    exact ⟨mgr, by simp [popLoop, empty], by simp [empty], by simp [empty, lastCmdid]⟩
  | succ steps ih =>
    have ne : mgr.buffer.head ≠ mgr.buffer.tail := by
      rw [ne_eq, ← RingBuffer.count_eq_zero_iff]
      omega
    have popped : mgr.buffer.pop = some (mgr.buffer.array mgr.buffer.head,
        { mgr.buffer with head := RingBuffer.increment mgr.buffer.head }) :=
      if_neg ne
    have queue : mgr.batches = _ := RingBuffer.contents_pop popped
    rw [popLoop, atHead, popped, queue]
    by_cases complete : (mgr.buffer.array mgr.buffer.head).isComplete = true
    · have rest := RingBuffer.count_popped _ ne
      have next : (idx + 1) % batchInfoBufferSize = RingBuffer.increment mgr.buffer.head := by
        rw [RingBuffer.increment_val, ← atHead, Nat.mod_add_mod]
      obtain ⟨manager', loop, batches, last⟩ := @ih
        ⟨{ mgr.buffer with head := RingBuffer.increment mgr.buffer.head },
          (mgr.buffer.array mgr.buffer.head).endCmdid⟩ (idx + 1)
        (Nat.succ.inj (rest.symm.trans counts)) next
      refine ⟨manager', ?_, ?_, ?_⟩
      · rw [if_pos complete, List.takeWhile_cons_of_pos complete]
        simp only [loop]
        rfl
      · rw [List.dropWhile_cons_of_pos complete]
        exact batches
      · rw [List.takeWhile_cons_of_pos complete, lastCmdid_cons]
        exact last
    · exact ⟨mgr, by rw [if_neg complete, List.takeWhile_cons_of_neg complete],
        by rw [List.dropWhile_cons_of_neg complete]; exact queue,
        by rw [List.takeWhile_cons_of_neg complete]; rfl⟩

/-- An update gets to its pop loop when no record is upside down and every record with the
    identifier can be counted. -/
theorem updateSingleIteration_isSome {cmdid : Nat}
    (proper : ∀ b ∈ mgr.batches, b.startCmdid ≤ b.endCmdid)
    (countable : ∀ b ∈ mgr.batches, b.Covers cmdid → b.countUp.isSome) :
    ∃ counted, mgr.updateSingleIteration cmdid = some counted := by
  have terminates : ∃ result, search mgr.buffer.array cmdid
      (mgr.buffer.endIndex - mgr.buffer.head) mgr.buffer.head = some result :=
    search_isSome proper
  obtain ⟨result, searched⟩ := terminates
  simp only [updateSingleIteration, searched]
  cases result with
  | none => exact ⟨_, rfl⟩
  | some found =>
    obtain ⟨off, bound, position, covered, _⟩ := search_some searched
    have inside : off < mgr.buffer.contents.length := by
      rwa [RingBuffer.length_contents]
    have sameBatch := RingBuffer.getElem_contents mgr.buffer off inside
    rw [← position] at sameBatch
    have counts := countable _ (List.getElem_mem inside) (sameBatch ▸ covered)
    rw [sameBatch] at counts
    obtain ⟨batch', counts⟩ := Option.isSome_iff_exists.mp counts
    dsimp only
    rw [counts]
    dsimp only
    split <;> exact ⟨_, rfl⟩

/-- What `update` does to the queue when the oldest batch was not complete: it counts the record
    of the command, calls `action` if that completes the batch, and takes off the front what is
    complete. -/
theorem update_spec {cmdid : Nat} {before after : List BatchInfo} {b batch' : BatchInfo}
    (queue : mgr.batches = before ++ b :: after)
    (proper : ∀ b ∈ mgr.batches, b.startCmdid ≤ b.endCmdid)
    (earlier : ∀ b ∈ before, ¬ b.Covers cmdid)
    (later : ∀ b ∈ after, ¬ b.Covers cmdid) (covers : b.Covers cmdid)
    (counts : b.countUp = some batch')
    (waiting : ∀ oldest ∈ before.head?, oldest.isComplete = false) :
    ∃ updated, mgr.update cmdid = some updated ∧
      updated.notified = (if batch'.isComplete then batch'.notify else none) ∧
      updated.popped = (before ++ batch' :: after).takeWhile BatchInfo.isComplete ∧
      updated.manager.batches = (before ++ batch' :: after).dropWhile BatchInfo.isComplete ∧
      updated.manager.lastAvailableCmdid =
        lastCmdid mgr.lastAvailableCmdid updated.popped := by
  have countable : ∀ found ∈ mgr.batches, found.Covers cmdid → found.countUp.isSome := by
    intro found mem found_covers
    rw [queue, List.mem_append, List.mem_cons] at mem
    obtain isBefore | rfl | isAfter := mem
    · exact absurd found_covers (earlier found isBefore)
    · rw [counts]
      rfl
    · exact absurd found_covers (later found isAfter)
  obtain ⟨inv, counting⟩ := updateSingleIteration_isSome proper countable
  obtain ⟨uncovered, _⟩ | ⟨before', found, after', found', split, _, found_covers, found_counts,
    written, last, head, tail, notified, popFrom⟩ := updateSingleIteration_cases counting
  · exact absurd covers (uncovered b (by simp [queue]))
  obtain ⟨rfl, rfl, rfl⟩ := (List.append_cons_inj_of_notMem
    (fun mem => earlier _ mem found_covers)
    (fun mem => later _ mem found_covers)).mp (queue.symm.trans split)
  obtain rfl := Option.some.inj (counts.symm.trans found_counts)
  by_cases pops : batch'.isComplete = true ∧ before = []
  · obtain ⟨complete, rfl⟩ := pops
    have steps : inv.manager.buffer.count =
        mgr.buffer.endIndex - mgr.buffer.head := by
      rw [RingBuffer.count, RingBuffer.endIndex, head, tail]
      rfl
    have atHead : mgr.buffer.head.val % batchInfoBufferSize = inv.manager.buffer.head := by
      rw [head, Nat.mod_eq_of_lt mgr.buffer.head.isLt]
    obtain ⟨manager', loop, batches, lastStored⟩ := popLoop_spec steps atHead
    rw [if_pos ⟨complete, rfl⟩] at popFrom
    rw [written] at loop batches lastStored
    refine ⟨⟨manager', inv.notified, ([] ++ batch' :: after).takeWhile BatchInfo.isComplete⟩,
      ?_, notified, rfl, batches, ?_⟩
    · simp only [update, counting, popFrom, Option.bind_eq_bind, Option.bind_some, loop]
      rfl
    · rw [lastStored, last]
  · rw [if_neg pops] at popFrom
    have front : ∃ oldest rest, before ++ batch' :: after = oldest :: rest ∧
        ¬ oldest.isComplete = true := by
      cases before with
      | nil => exact ⟨batch', after, rfl, fun complete => pops ⟨complete, rfl⟩⟩
      | cons oldest rest =>
        refine ⟨oldest, rest ++ batch' :: after, rfl, ?_⟩
        rw [waiting oldest rfl]
        exact Bool.false_ne_true
    obtain ⟨oldest, rest, shape, incomplete⟩ := front
    rw [shape, List.takeWhile_cons_of_neg incomplete, List.dropWhile_cons_of_neg incomplete,
      ← shape]
    refine ⟨⟨inv.manager, inv.notified, []⟩, ?_, notified, rfl, written, last⟩
    simp only [update, counting, popFrom, Option.bind_eq_bind, Option.bind_some]
    rfl

end BatchManager

end Xdk.Nvme
