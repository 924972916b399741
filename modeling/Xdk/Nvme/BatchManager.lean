import Xdk.Nvme.Command
import Xdk.Nvme.RingBuffer

/-! # The batch manager

`NVME_batch_manager` keeps one record for every batch of commands that has been
pushed and not yet retired.  The completion thread looks a finished command up by
its identifier (`_update_single_iteration`), counts it, and when the oldest batch
is complete retires the complete batches at the head of the ring, storing the last
identifier of each in `_last_available_cmdid` (`_process_update_batch_info`).

An assertion that fails ends the program; the functions return `none` there.  The
pop loop is not part of `updateSingleIteration`: it writes `_head` and
`_last_available_cmdid`, which the producer reads, so it is a sequence of steps of
its own.
-/

namespace Xdk.Nvme

open Xdk.Lib

abbrev batchInfoBufferSize : Nat := 256

/-- The two classes derived from `Notify`: a `Notify_Async`, whose `action` only
    writes to the log, and a `Notify_Sync`, named here by the semaphore it posts. -/
inductive Notify where
  | async (id : Nat) (freeNotifyObj : Bool)
  | sync (sem : Nat)
  deriving DecidableEq, Repr

/-- `batch_info_t`; a null `notify` pointer is `none`. -/
structure BatchInfo where
  startCmdid : Nat
  endCmdid : Nat
  total : Nat
  counter : Nat
  notify : Option Notify
  ready : Bool
  complete : Bool
  deriving DecidableEq, Repr

namespace BatchInfo

def zeroed : BatchInfo := ⟨0, 0, 0, 0, none, false, false⟩

def Covers (batch : BatchInfo) (cmdid : Nat) : Prop :=
  batch.startCmdid ≤ cmdid ∧ cmdid ≤ batch.endCmdid

instance (batch : BatchInfo) (cmdid : Nat) : Decidable (batch.Covers cmdid) :=
  inferInstanceAs (Decidable (_ ∧ _))

def range (batch : BatchInfo) : Nat × Nat := (batch.startCmdid, batch.endCmdid)

theorem covers_iff_of_range {a b : BatchInfo} (same : a.range = b.range)
    (cmdid : Nat) : a.Covers cmdid ↔ b.Covers cmdid := by
  simp only [range, Prod.mk.injEq] at same
  rw [Covers, Covers, same.1, same.2]

def isComplete (batch : BatchInfo) : Bool := batch.ready && batch.counter == batch.total

def countUp (batch : BatchInfo) : Option BatchInfo :=
  let batch := { batch with counter := u16 (batch.counter + 1) }
  if batch.counter ≤ batch.total then
    if batch.isComplete then
      if batch.complete = false then some { batch with complete := true } else none
    else some batch
  else none

theorem countUp_eq {b inv : BatchInfo} (counts : b.countUp = some inv) :
    inv = { b with counter := u16 (b.counter + 1), complete := inv.complete } ∧
      inv.counter ≤ inv.total := by
  simp only [countUp] at counts
  split at counts
  · rename_i inBounds
    split at counts
    · split_ifs at counts
      cases counts
      exact ⟨rfl, inBounds⟩
    · cases counts
      exact ⟨rfl, inBounds⟩
  · cases counts

theorem range_countUp {b inv : BatchInfo} (counts : b.countUp = some inv) :
    inv.range = b.range := by
  rw [(countUp_eq counts).1]
  rfl

end BatchInfo

structure BatchManager where
  buffer : RingBuffer BatchInfo batchInfoBufferSize
  lastAvailableCmdid : Nat

namespace BatchManager

def init : BatchManager := ⟨⟨fun _ => .zeroed, 0, 0⟩, 0⟩

def isAvailable (manager : BatchManager) (cmdidStart cmdidEnd : Nat) : Prop :=
  cmdidStart < manager.lastAvailableCmdid ∧ cmdidEnd < manager.lastAvailableCmdid ∨
    manager.lastAvailableCmdid < cmdidStart ∧ manager.lastAvailableCmdid < cmdidEnd

instance (manager : BatchManager) (cmdidStart cmdidEnd : Nat) :
    Decidable (manager.isAvailable cmdidStart cmdidEnd) :=
  inferInstanceAs (Decidable (_ ∨ _))

def canResetCmdid (manager : BatchManager) (cmdidCounter : Nat) : Prop :=
  manager.lastAvailableCmdid ≤ cmdidCounter

instance (manager : BatchManager) (cmdidCounter : Nat) :
    Decidable (manager.canResetCmdid cmdidCounter) :=
  inferInstanceAs (Decidable (_ ≤ _))

/-- The loop of `_update_single_iteration` over the `steps` indices from `idx`: the
    array index of the first record whose range has the identifier, if there is one. -/
def search (array : Nat → BatchInfo) (cmdid : Nat) : (steps idx : Nat) → Option (Option Nat)
  | 0, _ => some none
  | steps + 1, idx =>
    let idx2 := idx % batchInfoBufferSize
    if (array idx2).startCmdid ≤ (array idx2).endCmdid then
      if (array idx2).Covers cmdid then some (some idx2) else search array cmdid steps (idx + 1)
    else none

structure Counted where
  manager : BatchManager
  -- the object whose `action` was called
  notified : Option Notify
  -- the bounds `idx` and `tail` of the pop loop, when it is entered
  popFrom : Option (Nat × Nat)

/-- `_update_single_iteration` and `_process_update_batch_info` up to the pop loop.
    The tail is read once; a command outside every range is ignored. -/
def updateSingleIteration (manager : BatchManager) (cmdid : Nat) : Option Counted :=
  let head := manager.buffer.head.val
  let tail := manager.buffer.endIndex
  match search manager.buffer.array cmdid (tail - head) head with
  | none => none
  | some none => some ⟨manager, none, none⟩
  | some (some idx) =>
    match (manager.buffer.array idx).countUp with
    | none => none
    | some counted =>
      let manager := { manager with buffer := manager.buffer.set idx counted }
      if counted.isComplete then
        some ⟨manager, counted.notify, if idx = head then some (head, tail) else none⟩
      else some ⟨manager, none, none⟩

/-! ## The search, on the queue -/

variable {array : Nat → BatchInfo} {cmdid steps idx : Nat}

theorem search_none (missed : search array cmdid steps idx = some none) :
    ∀ b ∈ window batchInfoBufferSize array idx steps, ¬ b.Covers cmdid := by
  induction steps generalizing idx with
  | zero => simp
  | succ steps ih =>
    rw [window_cons]
    simp only [search] at missed
    split at missed
    · split_ifs at missed with uncovered
      · cases missed
      · intro b mem
        cases mem with
        | head => exact uncovered
        | tail _ mem => exact ih missed b mem
    · cases missed

theorem search_some {found : Nat} (hit : search array cmdid steps idx = some (some found)) :
    ∃ off < steps, found = (idx + off) % batchInfoBufferSize ∧
      (array found).Covers cmdid ∧
      ∀ b ∈ window batchInfoBufferSize array idx off, ¬ b.Covers cmdid := by
  induction steps generalizing idx with
  | zero => cases hit
  | succ steps ih =>
    simp only [search] at hit
    split at hit
    swap
    · cases hit
    split at hit
    · rename_i covered
      cases hit
      exact ⟨0, by omega, rfl, covered, by simp⟩
    · rename_i uncovered
      obtain ⟨off, bound, position, covered, before⟩ := ih hit
      refine ⟨off + 1, by omega, by rw [position]; congr 1; omega, covered, ?_⟩
      rw [window_cons]
      intro b mem
      cases mem with
      | head => exact uncovered
      | tail _ mem => exact before b mem

theorem search_isSome {array : Nat → BatchInfo} {cmdid steps idx : Nat}
    (proper : ∀ b ∈ window batchInfoBufferSize array idx steps,
      b.startCmdid ≤ b.endCmdid) :
    ∃ result, search array cmdid steps idx = some result := by
  induction steps generalizing idx with
  | zero => exact ⟨none, rfl⟩
  | succ steps ih =>
    rw [window_cons] at proper
    simp only [search, proper _ (.head _), if_true]
    split
    · exact ⟨_, rfl⟩
    · exact ih fun b mem => proper b (.tail _ mem)

def batches (manager : BatchManager) : List BatchInfo := manager.buffer.contents

theorem updateSingleIteration_of_uncovered {mgr : BatchManager}
    (proper : ∀ b ∈ mgr.batches, b.startCmdid ≤ b.endCmdid)
    (uncovered : ∀ b ∈ mgr.batches, ¬ b.Covers cmdid) :
    mgr.updateSingleIteration cmdid = some ⟨mgr, none, none⟩ := by
  have terminates : ∃ result, search mgr.buffer.array cmdid
      (mgr.buffer.endIndex - mgr.buffer.head) mgr.buffer.head = some result :=
    search_isSome proper
  obtain ⟨result, searched⟩ := terminates
  cases result with
  | none => simp only [updateSingleIteration, searched]
  | some found =>
    obtain ⟨off, bound, position, covered, _⟩ := search_some searched
    have inside : off < mgr.buffer.contents.length := by
      rwa [RingBuffer.length_contents]
    have sameBatch := RingBuffer.getElem_contents mgr.buffer off inside
    rw [← position] at sameBatch
    exact absurd (sameBatch ▸ covered) (uncovered _ (List.getElem_mem inside))

/-- What an update that gets to its pop loop has done to the queue: nothing, when no
    batch has the identifier; else it has counted the first batch that does, and it
    enters the pop loop when that batch is complete and the oldest one. -/
theorem updateSingleIteration_cases {mgr : BatchManager} {inv : Counted}
    (updated : mgr.updateSingleIteration cmdid = some inv) :
    ((∀ batch ∈ mgr.batches, ¬ batch.Covers cmdid) ∧ inv = ⟨mgr, none, none⟩) ∨
    ∃ before batch after batch', mgr.batches = before ++ batch :: after ∧
      (∀ earlier ∈ before, ¬ earlier.Covers cmdid) ∧ batch.Covers cmdid ∧
      batch.countUp = some batch' ∧
      inv.manager.batches = before ++ batch' :: after ∧
      inv.manager.lastAvailableCmdid = mgr.lastAvailableCmdid ∧
      inv.manager.buffer.head = mgr.buffer.head ∧
      inv.manager.buffer.tail = mgr.buffer.tail ∧
      inv.notified = (if batch'.isComplete then batch'.notify else none) ∧
      inv.popFrom = if batch'.isComplete = true ∧ before = [] then
        some (mgr.buffer.head.val, mgr.buffer.endIndex) else none := by
  simp only [updateSingleIteration] at updated
  split at updated
  · cases updated
  · rename_i missed
    cases updated
    exact .inl ⟨search_none missed, rfl⟩
  · rename_i found hit
    obtain ⟨off, lt, position, covered, earlier⟩ := search_some hit
    have inside : off < mgr.batches.length := by
      rw [batches, RingBuffer.length_contents]
      exact lt
    have sameBatch : mgr.batches[off] = mgr.buffer.array found := by
      rw [position]
      exact RingBuffer.getElem_contents mgr.buffer off inside
    -- the head of the ring is the position of the oldest batch only
    have atHead : found = mgr.buffer.head.val ↔ mgr.batches.take off = [] := by
      rw [position, RingBuffer.index_eq_head_iff _ lt, List.take_eq_nil_iff,
        or_iff_left (List.ne_nil_of_length_pos (Nat.zero_lt_of_lt inside))]
    -- the batches before it were looked at and passed over
    have earlierTake : ∀ batch ∈ mgr.batches.take off, ¬ batch.Covers cmdid := by
      rwa [batches, RingBuffer.take_contents _ (Nat.le_of_lt lt)]
    split at updated
    · cases updated
    rename_i batch' counts
    refine .inr ⟨mgr.batches.take off, mgr.batches[off],
      mgr.batches.drop (off + 1), batch', ?_, earlierTake, sameBatch ▸ covered,
      sameBatch ▸ counts, ?_⟩
    · rw [List.getElem_cons_drop, List.take_append_drop]
    have written : (mgr.buffer.set found batch').contents =
        mgr.batches.take off ++ batch' :: mgr.batches.drop (off + 1) := by
      rw [position, RingBuffer.contents_set _ _ lt, List.set_eq_take_append_cons_drop,
        if_pos (by rwa [RingBuffer.length_contents])]
      rfl
    split at updated
    · rename_i complete
      cases updated
      refine ⟨written, rfl, rfl, rfl, ?_, ?_⟩
      · simp [complete]
      · simp [complete, atHead]
    · rename_i incomplete
      cases updated
      refine ⟨written, rfl, rfl, rfl, ?_, ?_⟩ <;> simp [incomplete]

end BatchManager

end Xdk.Nvme
