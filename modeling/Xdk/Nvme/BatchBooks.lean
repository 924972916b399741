import Mathlib.Data.List.Nodup
import Mathlib.Data.List.Perm.Subperm
import Xdk.Lib.Transition
import Xdk.Nvme.BatchUpdate

/-! # The bookkeeping of the batch manager

Batches are pushed, and the identifiers of their commands are reported in any order, each once.
`Entry` keeps for every batch pushed what has been reported of it.  The records of the ring, and
those that have left it, are then told by the entries (`Kept.records`): a record is the batch as
it was pushed, with the number of its identifiers that have been reported.
-/

namespace Xdk.Nvme

open Xdk.Lib

structure BatchInfo.Fresh (batch : BatchInfo) : Prop where
  ordered : batch.startCmdid ≤ batch.endCmdid
  total : batch.total = batch.endCmdid - batch.startCmdid + 1
  bound : batch.total < 65536
  counter : batch.counter = 0
  ready : batch.ready = true
  complete : batch.complete = false

def BatchInfo.Apart (first second : BatchInfo) : Prop :=
  first.endCmdid < second.startCmdid ∨ second.endCmdid < first.startCmdid

instance (batch : BatchInfo) : Decidable batch.Fresh :=
  decidable_of_iff (batch.startCmdid ≤ batch.endCmdid ∧
    batch.total = batch.endCmdid - batch.startCmdid + 1 ∧ batch.total < 65536 ∧
    batch.counter = 0 ∧ batch.ready = true ∧ batch.complete = false)
    ⟨fun ⟨ordered, total, bound, counter, ready, complete⟩ =>
        ⟨ordered, total, bound, counter, ready, complete⟩,
      fun ⟨ordered, total, bound, counter, ready, complete⟩ =>
        ⟨ordered, total, bound, counter, ready, complete⟩⟩

instance (first second : BatchInfo) : Decidable (first.Apart second) :=
  inferInstanceAs (Decidable (_ ∨ _))

/-- A batch as it was pushed, the identifiers reported so far, and the objects whose `action` was
    called in the course of that. -/
structure Entry where
  batch : BatchInfo
  reported : List Nat
  actions : List Notify

def Entry.report (entry : Entry) (cmdid : Nat) (notified : Option Notify) : Entry :=
  { entry with
    reported := entry.reported ++ [cmdid]
    actions := entry.actions ++ notified.toList }

/-- `entries` are all batches in the order in which they were pushed, `left` the records that have
    left the ring. -/
structure Books where
  manager : BatchManager
  entries : List Entry
  left : List BatchInfo

inductive BookEvent where
  | push (batch : BatchInfo)
  -- an identifier of the batch with the given number
  | report (serial cmdid : Nat)

namespace Books

def init : Books := ⟨.init, [], []⟩

def step (s : Books) : BookEvent → Option Books
  | .push batch =>
    match s.manager.push batch with
    -- the result `false`: nothing has been pushed
    | none => some s
    | some manager => some { s with
        manager := manager
        entries := s.entries ++ [⟨batch, [], []⟩] }
  | .report serial cmdid => do
    let updated ← s.manager.update cmdid
    return {
      manager := updated.manager
      entries := s.entries.modify serial fun entry => entry.report cmdid updated.notified
      left := s.left ++ updated.popped }

/-- Batches are pushed with ranges apart from those in the ring, and each identifier of a batch is
    reported once. -/
def Permitted (s : Books) : BookEvent → Prop
  | .push batch => batch.Fresh ∧ ∀ other ∈ s.manager.batches, other.Apart batch
  | .report serial cmdid =>
    ∃ entry ∈ s.entries[serial]?, entry.batch.Covers cmdid ∧ cmdid ∉ entry.reported

instance (s : Books) (event : BookEvent) : Decidable (s.Permitted event) :=
  match event with
  | .push _ => inferInstanceAs (Decidable (_ ∧ _))
  | .report serial cmdid =>
    decidable_of_iff ((s.entries[serial]?.any fun entry =>
      entry.batch.Covers cmdid ∧ cmdid ∉ entry.reported) = true) (by
        simp [Permitted, Option.any_eq_true])

abbrev Reachable (s : Books) : Prop := Reaches step Permitted init s

end Books

/-! ## Entries and records -/

theorem BatchInfo.Apart.not_covers {a b : BatchInfo} {cmdid : Nat}
    (apart : a.Apart b) (covers : a.Covers cmdid) : ¬ b.Covers cmdid := by
  simp only [BatchInfo.Apart, BatchInfo.Covers] at *
  omega

/-- A record has room for all identifiers of its range. -/
theorem BatchInfo.Fresh.length_le {b : BatchInfo} {ids : List Nat} (fresh : b.Fresh)
    (once : ids.Nodup) (inside : ∀ cmdid ∈ ids, b.Covers cmdid) :
    ids.length ≤ b.total := by
  have subset : ids ⊆ List.range' b.startCmdid b.total := by
    intro cmdid mem
    obtain ⟨lower, upper⟩ := inside cmdid mem
    have total := fresh.total
    rw [List.mem_range'_1]
    omega
  have fits := (once.subperm subset).length_le
  rwa [List.length_range'] at fits

namespace Entry

def Finished (entry : Entry) : Prop := entry.reported.length = entry.batch.total

instance (entry : Entry) : Decidable entry.Finished := inferInstanceAs (Decidable (_ = _))

def record (entry : Entry) : BatchInfo :=
  { entry.batch with
    counter := entry.reported.length
    complete := entry.Finished }

structure Sound (entry : Entry) : Prop where
  fresh : entry.batch.Fresh
  once : entry.reported.Nodup
  inside : ∀ cmdid ∈ entry.reported, entry.batch.Covers cmdid
  actions : entry.actions = if entry.Finished then entry.batch.notify.toList else []

variable {entry : Entry} {batch : BatchInfo} {cmdid : Nat}

theorem unfinished_new (fresh : batch.Fresh) : ¬ Finished ⟨batch, [], []⟩ := by
  have total := fresh.total
  simp only [Finished, List.length_nil]
  omega

theorem record_new (fresh : batch.Fresh) : record ⟨batch, [], []⟩ = batch := by
  have unfinished := unfinished_new fresh
  obtain ⟨startCmdid, endCmdid, total, counter, notify, ready, complete⟩ := batch
  obtain rfl : counter = 0 := fresh.counter
  obtain rfl : complete = false := fresh.complete
  simp [record, unfinished]

theorem sound_new (fresh : batch.Fresh) : Sound ⟨batch, [], []⟩ :=
  ⟨fresh, .nil, nofun, by rw [if_neg (unfinished_new fresh)]⟩

theorem isComplete_record (fresh : entry.batch.Fresh) :
    entry.record.isComplete = true ↔ entry.Finished := by
  simp [record, BatchInfo.isComplete, fresh.ready, Finished]

theorem isComplete_new (fresh : batch.Fresh) : batch.isComplete = false := by
  have unfinished := mt (isComplete_record fresh).mp (unfinished_new fresh)
  rw [record_new fresh] at unfinished
  exact Bool.eq_false_of_not_eq_true unfinished

section Report

variable (sound : entry.Sound) (covers : entry.batch.Covers cmdid)
  (fresh : cmdid ∉ entry.reported)

include sound covers fresh

theorem Sound.report_once : (entry.reported ++ [cmdid]).Nodup := by
  refine List.nodup_append.mpr ⟨sound.once, List.nodup_singleton cmdid, ?_⟩
  intro first mem second same
  rw [List.mem_singleton.mp same]
  rintro rfl
  exact fresh mem

omit fresh in
theorem Sound.report_inside : ∀ reported ∈ entry.reported ++ [cmdid],
    entry.batch.Covers reported := by
  intro reported mem
  obtain old | new := List.mem_append.mp mem
  · exact sound.inside reported old
  · rwa [List.mem_singleton.mp new]

theorem Sound.report_le : entry.reported.length + 1 ≤ entry.batch.total := by
  have fits := sound.fresh.length_le (sound.report_once covers fresh) (sound.report_inside covers)
  rwa [List.length_append] at fits

theorem Sound.unfinished : ¬ entry.Finished :=
  Nat.ne_of_lt (sound.report_le covers fresh)

/-- Counting the record is reporting the identifier. -/
theorem Sound.countUp_record (notified : Option Notify) :
    entry.record.countUp = some (entry.report cmdid notified).record := by
  have fits := sound.report_le covers fresh
  have unfinished := sound.unfinished covers fresh
  have bound := sound.fresh.bound
  have narrow : u16 (entry.reported.length + 1) = entry.reported.length + 1 :=
    u16_of_lt (by omega)
  simp only [BatchInfo.countUp, record, narrow, if_pos fits, BatchInfo.isComplete, unfinished]
  by_cases last : entry.reported.length + 1 = entry.batch.total
  · simp [report, Finished, last, sound.fresh.ready]
  · simp [report, Finished, last, sound.fresh.ready]

theorem Sound.report_sound {notified : Option Notify}
    (notifies : notified = if (entry.report cmdid notified).Finished then entry.batch.notify
      else none) : (entry.report cmdid notified).Sound := by
  have none_before : entry.actions = [] := by
    rw [sound.actions, if_neg (sound.unfinished covers fresh)]
  have called : (entry.report cmdid notified).actions = notified.toList := by
    simp [report, none_before]
  refine ⟨sound.fresh, sound.report_once covers fresh, sound.report_inside covers, ?_⟩
  rw [called]
  split_ifs with finished
  · rw [if_pos finished] at notifies
    rw [notifies]
    rfl
  · rw [if_neg finished] at notifies
    rw [notifies]
    rfl

end Report

end Entry

/-! ## One call -/

namespace Books

structure Kept (s : Books) : Prop where
  sound : ∀ entry ∈ s.entries, entry.Sound
  records : s.left ++ s.manager.batches = s.entries.map Entry.record
  gone : ∀ batch ∈ s.left, batch.isComplete = true
  waiting : ∀ oldest ∈ s.manager.batches.head?, oldest.isComplete = false
  apart : s.manager.batches.Pairwise BatchInfo.Apart
  last : s.manager.lastAvailableCmdid = BatchManager.lastCmdid 0 s.left

theorem kept_init : Kept init := by
  have empty : init.manager.batches = [] := (RingBuffer.contents_eq_nil_iff _).mpr rfl
  refine ⟨nofun, ?_, nofun, ?_, ?_, rfl⟩
  · rw [empty]
    rfl
  · rw [empty]
    nofun
  · rw [empty]
    exact .nil

section Step

variable {s s' : Books} {batch : BatchInfo} {serial cmdid : Nat}

theorem push_some {mgr : BatchManager} (pushed : s.manager.push batch = some mgr) :
    mgr.batches = s.manager.batches ++ [batch] ∧
      mgr.lastAvailableCmdid = s.manager.lastAvailableCmdid := by
  obtain ⟨buffer, stored, rfl⟩ := Option.map_eq_some_iff.mp pushed
  simp only [RingBuffer.push] at stored
  split_ifs at stored with room
  cases stored
  exact ⟨RingBuffer.contents_store _ batch room, rfl⟩

theorem Kept.push (kept : Kept s) (permitted : s.Permitted (.push batch))
    (made : s.step (.push batch) = some s') : Kept s' := by
  obtain ⟨fresh, beside⟩ := permitted
  simp only [step] at made
  split at made
  · cases made
    exact kept
  · rename_i manager pushed
    cases made
    obtain ⟨batches, last⟩ := push_some pushed
    refine ⟨?_, ?_, kept.gone, ?_, ?_, last.trans kept.last⟩
    · intro e mem
      obtain old | new := List.mem_append.mp mem
      · exact kept.sound e old
      · rw [List.mem_singleton.mp new]
        exact Entry.sound_new fresh
    · rw [batches, ← List.append_assoc, kept.records, List.map_append, List.map_singleton,
        Entry.record_new fresh]
    · rw [batches]
      cases queue : s.manager.batches with
      | nil =>
        rintro oldest ⟨⟩
        exact Entry.isComplete_new fresh
      | cons oldest rest =>
        have waiting := kept.waiting
        rwa [queue] at waiting
    · rw [batches, List.pairwise_append]
      refine ⟨kept.apart, List.pairwise_singleton _ _, fun o mem new same => ?_⟩
      rw [List.mem_singleton.mp same]
      exact beside o mem

/-- The record of an entry with an identifier still to come is in the ring. -/
theorem Kept.find (kept : Kept s) {before after : List Entry} {e : Entry}
    (entries : s.entries = before ++ e :: after) (unfinished : ¬ e.Finished) :
    ∃ ahead, before.map Entry.record = s.left ++ ahead ∧
      s.manager.batches = ahead ++ e.record :: after.map Entry.record := by
  have fresh := (kept.sound e (by simp [entries])).fresh
  have records := kept.records
  rw [entries, List.map_append] at records
  obtain ⟨ahead, front, queue⟩ | ⟨more, left, back⟩ := List.append_eq_append_iff.mp records
  · exact ⟨ahead, front, queue⟩
  · cases more with
    | nil => exact ⟨[], by rw [List.append_nil, left, List.append_nil], back.symm⟩
    | cons first rest =>
      -- it cannot have left the ring, because the records there are complete
      obtain ⟨rfl, _⟩ := List.cons.inj back
      have complete := kept.gone e.record (by simp [left])
      exact absurd ((Entry.isComplete_record fresh).mp complete) unfinished

theorem pairwise_apart_of_range {a b : List BatchInfo}
    (same : a.map BatchInfo.range = b.map BatchInfo.range)
    (apart : a.Pairwise BatchInfo.Apart) : b.Pairwise BatchInfo.Apart := by
  have ranges : (a.map BatchInfo.range).Pairwise
      fun a b => a.2 < b.1 ∨ b.2 < a.1 :=
    List.pairwise_map.mpr apart
  rw [same] at ranges
  exact (List.pairwise_map (f := BatchInfo.range)).mp ranges

theorem Kept.proper (kept : Kept s) :
    ∀ b ∈ s.manager.batches, b.startCmdid ≤ b.endCmdid := by
  intro b mem
  have recorded : b ∈ s.entries.map Entry.record :=
    kept.records ▸ List.mem_append_right _ mem
  obtain ⟨e, listed, rfl⟩ := List.mem_map.mp recorded
  exact (kept.sound e listed).fresh.ordered

/-- A report does not fail, and keeps the books. -/
theorem Kept.report (kept : Kept s) (permitted : s.Permitted (.report serial cmdid)) :
    ∃ s', s.step (.report serial cmdid) = some s' ∧ Kept s' := by
  obtain ⟨e, found, covers, unreported⟩ := permitted
  obtain ⟨inside, rfl⟩ := List.getElem?_eq_some_iff.mp found
  have entries : s.entries = s.entries.take serial ++ s.entries[serial] ::
      s.entries.drop (serial + 1) := by
    rw [List.getElem_cons_drop, List.take_append_drop]
  have sound := kept.sound _ (List.getElem_mem inside)
  obtain ⟨ahead, front, queue⟩ := kept.find entries (sound.unfinished covers unreported)
  have apart := kept.apart
  rw [queue, List.pairwise_append, List.pairwise_cons] at apart
  obtain ⟨_, ⟨apartAfter, _⟩, apartBefore⟩ := apart
  have earlier : ∀ b ∈ ahead, ¬ b.Covers cmdid := fun b mem batchCovers =>
    (apartBefore b mem _ (.head _)).not_covers batchCovers covers
  have later : ∀ b ∈ (s.entries.drop (serial + 1)).map Entry.record, ¬ b.Covers cmdid :=
    fun b mem => (apartAfter b mem).not_covers covers
  have waiting : ∀ oldest ∈ ahead.head?, oldest.isComplete = false := by
    intro oldest mem
    refine kept.waiting oldest ?_
    rw [queue]
    exact List.mem_head?_append_of_mem_head? mem
  obtain ⟨updated, run, notified, popped, batches, last⟩ := BatchManager.update_spec queue
    kept.proper earlier later covers (sound.countUp_record covers unreported none) waiting
  have completes : (s.entries[serial].report cmdid none).record.isComplete = true ↔ _ :=
    Entry.isComplete_record sound.fresh
  rw [if_congr completes rfl rfl] at notified
  have reported : (s.entries[serial].report cmdid updated.notified).Sound :=
    sound.report_sound covers unreported notified
  refine ⟨_, by rw [step, run]; rfl, ?_⟩
  have entries' := List.modify_eq_take_cons_drop (f := fun e : Entry =>
    e.report cmdid updated.notified) inside
  constructor
  · intro e mem
    rw [entries', List.mem_append, List.mem_cons] at mem
    obtain isBefore | rfl | isAfter := mem
    · exact kept.sound e (List.mem_of_mem_take isBefore)
    · exact reported
    · exact kept.sound e (List.mem_of_mem_drop isAfter)
  · rw [entries', popped, batches, List.append_assoc, List.takeWhile_append_dropWhile,
      ← List.append_assoc, ← front, List.map_append]
    rfl
  · intro b mem
    obtain old | new := List.mem_append.mp mem
    · exact kept.gone b old
    · rw [popped] at new
      exact List.mem_takeWhile_imp new
  · intro oldest mem
    rw [batches] at mem
    have stopped := List.head?_dropWhile_not BatchInfo.isComplete
      (ahead ++ (s.entries[serial].report cmdid none).record ::
        (s.entries.drop (serial + 1)).map Entry.record)
    rw [mem] at stopped
    exact stopped
  · rw [batches]
    have before := kept.apart
    rw [queue] at before
    refine (pairwise_apart_of_range ?_ before).sublist (List.dropWhile_sublist _)
    rw [List.map_append, List.map_append]
    rfl
  · rw [BatchManager.lastCmdid_append, ← kept.last]
    exact last

theorem Kept.step {ev : BookEvent} (kept : Kept s) (permitted : s.Permitted ev)
    (step : s.step ev = some s') : Kept s' := by
  cases ev with
  | push batch => exact kept.push permitted step
  | report serial cmdid =>
    obtain ⟨s'', report, keeps⟩ := kept.report permitted
    exact Option.some.inj (report.symm.trans step) ▸ keeps

theorem Kept.step_isSome {ev : BookEvent} (kept : Kept s) (permitted : s.Permitted ev) :
    (s.step ev).isSome := by
  cases ev with
  | push batch =>
    simp only [Books.step]
    split <;> rfl
  | report serial cmdid =>
    obtain ⟨s', report, _⟩ := kept.report permitted
    rw [report]
    rfl

end Step

/-! ## Every run -/

theorem Reachable.kept {s : Books} (run : Reachable s) : Kept s :=
  run.invariant kept_init fun kept permitted step => kept.step permitted step

def asPushed (batch : BatchInfo) : BatchInfo := { batch with counter := 0, complete := false }

theorem Kept.asPushed_record {s : Books} (kept : Kept s) :
    (s.left ++ s.manager.batches).map asPushed = s.entries.map Entry.batch := by
  rw [kept.records, List.map_map]
  refine List.map_congr_left fun e mem => ?_
  have fresh := (kept.sound e mem).fresh
  rw [Function.comp_apply, asPushed, Entry.record, ← fresh.counter, ← fresh.complete]

/-- Whatever batches are pushed and in whatever order their identifiers are reported: the batches
    leave the ring in the order of the pushes; the counter of a batch in the ring is the number of
    its identifiers reported; the oldest batch is not complete; `_last_available_cmdid` is the end
    of the last batch that has left; the object of a batch is notified once, when its last
    identifier is reported; and no assertion fails. -/
theorem batch_manager_bookkeeping {s : Books} (run : Reachable s) :
    (s.left ++ s.manager.batches).map asPushed = s.entries.map Entry.batch ∧
      s.manager.batches.map BatchInfo.counter =
        (s.entries.drop s.left.length).map (fun entry => entry.reported.length) ∧
      (∀ oldest ∈ s.manager.batches.head?, oldest.isComplete = false) ∧
      s.manager.lastAvailableCmdid = BatchManager.lastCmdid 0 s.left ∧
      (∀ entry ∈ s.entries,
        entry.actions = if entry.Finished then entry.batch.notify.toList else []) ∧
      ∀ event, s.Permitted event → (s.step event).isSome := by
  have kept := run.kept
  have inRing : s.manager.batches = (s.entries.drop s.left.length).map Entry.record := by
    rw [List.map_drop, ← kept.records, List.drop_left]
  refine ⟨kept.asPushed_record, ?_, kept.waiting, kept.last,
    fun entry member => (kept.sound entry member).actions, fun event => kept.step_isSome⟩
  rw [inRing, List.map_map]
  rfl

def secondFirst : List BookEvent :=
  [.push ⟨1, 2, 2, 0, some (.sync 7), true, false⟩, .push ⟨3, 3, 1, 0, none, true, false⟩,
    .report 1 3, .report 0 2, .report 0 1]

/-- They leave the ring together, in the order of the pushes. -/
theorem batch_manager_bookkeeping_second_first :
    ∃ s : Books, Reachable s ∧ s.left.map BatchInfo.endCmdid = [2, 3] ∧
      s.entries.map Entry.actions = [[.sync 7], []] ∧ s.manager.lastAvailableCmdid = 3 := by
  have executed : ∃ s ∈ execute step Permitted secondFirst init,
      s.left.map BatchInfo.endCmdid = [2, 3] ∧ s.entries.map Entry.actions = [[.sync 7], []] := by
    decide
  obtain ⟨s, run, ends, actions⟩ := exists_reaches_of_execute executed
  obtain ⟨_, _, _, last, _⟩ := batch_manager_bookkeeping run
  refine ⟨s, run, ends, actions, ?_⟩
  rw [last, BatchManager.lastCmdid, ← List.getLast?_map, ends]
  rfl

end Books

end Xdk.Nvme
