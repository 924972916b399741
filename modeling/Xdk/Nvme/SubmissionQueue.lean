import Xdk.Nvme.Accounts

/-! # The submission ring is a lossless queue

The abstract object is a queue of commands with three cursors: `issued.length`
commands have been written, `rung` of them are covered by the doorbell, and
`fetched.length` have been fetched.  The ring stores the cursors modulo its length
and knows the controller's progress only through the head reported with the last
completion received (`reported`), which lags behind.  `Fifo` relates the two; the
test for a full queue keeps `issued.length` less than one turn ahead of `reported`,
so that no cell between them is written twice.
-/

namespace Xdk.Nvme

open Xdk.Lib

/-- With the tail inside the ring, incrementing it is one step around the ring, also
    for the longest queue, where the sixteen-bit tail wraps by itself. -/
theorem IoQueue.incrementSubmissionTail_eq (len : QueueLength) {q : IoQueue}
    (lt : q.sqTail < len.items) :
    q.incrementSubmissionTail len.items =
      if (q.sqTail + 1) % len.items = q.sqHead then none
      else some (q.sqTail, (q.sqTail + 1) % len.items) := by
  have atMost := len.le
  have wrapped : (if u16 (q.sqTail + 1) ≥ len.items then u16 (u16 (q.sqTail + 1) - len.items)
      else u16 (q.sqTail + 1)) = (q.sqTail + 1) % len.items := by
    rw [succ_mod_eq lt]
    simp only [u16]
    split_ifs <;> omega
  have stored : (if u16 (q.sqTail + 1) = len.items then 0 else u16 (q.sqTail + 1)) =
      (q.sqTail + 1) % len.items := by
    rw [succ_mod_eq lt]
    simp only [u16]
    split_ifs <;> omega
  simp only [incrementSubmissionTail, wrapped, stored]

namespace System

def rung (s : System) : Nat :=
  match s.producer with
  | .ringDoorbell _ _ => s.issued.length - 1
  | _ => s.issued.length

/-! ## What a step does to the submission side -/

structure Submission where
  sqTail : Nat
  sqHead : Nat
  sqDb : Nat
  subCmd : Nat → RwCommand
  fetchHead : Nat
  fetched : List RwCommand
  issued : List Issued
  reported : Nat
  rung : Nat

def submission (s : System) : Submission :=
  ⟨s.q.sqTail, s.q.sqHead, s.q.sqDb, s.q.subCmd, s.fetchHead, s.fetched, s.issued, s.reported,
    s.rung⟩

/-- Every step leaves the submission side alone or does one of four things to it. -/
inductive SubmissionStep (len : QueueLength) (s s' : System) : Prop where
  | unchanged (same : s'.submission = s.submission)
  | submitted (op : Op) (cmdid slot sqTail : Nat)
      (notFull : s.q.incrementSubmissionTail len.items = some (slot, sqTail))
      (covered : s.rung = s.issued.length)
      (effect : s'.submission = { s.submission with
        sqTail := sqTail
        subCmd := Function.update s.q.subCmd slot (op.write .cleared cmdid)
        issued := s.issued ++ [⟨s.issued.length, op, cmdid⟩] })
  | rang (effect : s'.submission = { s.submission with
        sqDb := s.q.sqTail
        rung := s.issued.length })
  | fetched (more : s.fetchHead ≠ s.q.sqDb)
      (effect : s'.submission = { s.submission with
        fetched := s.fetched ++ [s.q.subCmd s.fetchHead]
        fetchHead := (s.fetchHead + 1) % len.items })
  | reported (head : Nat) (later : s.reported ≤ head) (reached : head ≤ s.fetched.length)
      (effect : s'.submission = { s.submission with
        sqHead := head % len.items
        reported := head })

variable {len : QueueLength} {s : System}

theorem Move.submission {s' : System} {ev : Event} (move : Move len s ev s') :
    SubmissionStep len s s' := by
  cases move with
  | @submit op cmdid slot sqTail _ pc notFull =>
    exact .submitted op cmdid slot sqTail notFull (by simp [rung, pc])
      (by simp [System.submission, rung, pc])
  | ring pc | callWait pc =>
    exact .rang (by simp [System.submission, rung, IoQueue.ringSubmissionDoorbell])
  | fetch more => exact .fetched more rfl
  | complete _ _ _ later reached => exact .reported _ later reached rfl
  | spin | update | pop | popEnd | retire => exact .unchanged rfl
  | finish pc =>
    refine .unchanged ?_
    rename_i sem _
    cases sem <;> simp [System.submission, rung, pc, afterIssue]
  | callWrap pc | callRange pc | callSingle pc | reset pc | available pc | room pc | store pc
  | alloc pc | drained pc | notified pc =>
    exact .unchanged (by simp [System.submission, rung, pc])

/-! ## The ring holds the commands not yet fetched -/

/-- The cursors of the ring are those of the queue, and its cells from the
    controller's cursor on hold the commands it has not fetched. -/
structure Fifo (len : QueueLength) (q : Submission) : Prop where
  tail : q.sqTail = q.issued.length % len.items
  head : q.sqHead = q.reported % len.items
  doorbell : q.sqDb = q.rung % len.items
  cursor : q.fetchHead = q.fetched.length % len.items
  reported_le : q.reported ≤ q.fetched.length
  fetched_le : q.fetched.length ≤ q.rung
  rung_le : q.rung ≤ q.issued.length
  room : q.issued.length < q.reported + len.items
  commands : q.issued.map Issued.command = q.fetched ++
    window len.items q.subCmd q.fetched.length (q.issued.length - q.fetched.length)

theorem fifo_init (len : QueueLength) : Fifo len init.submission := by
  have pos := len.pos
  constructor <;> simp [init, submission, rung, IoQueue.init, pos]

variable {q : Submission}

theorem Fifo.tail_lt (fifo : Fifo len q) :
    q.sqTail < len.items := by
  rw [fifo.tail]
  exact Nat.mod_lt _ len.pos

section

variable (fifo : Fifo len s.submission)
include fifo

theorem Fifo.room_of_notFull {slot sqTail : Nat}
    (notFull : s.q.incrementSubmissionTail len.items = some (slot, sqTail)) :
    slot = s.issued.length % len.items ∧ sqTail = (s.issued.length + 1) % len.items ∧
      s.issued.length + 1 < s.reported + len.items := by
  have room : s.issued.length < s.reported + len.items := fifo.room
  have tail : s.q.sqTail = s.issued.length % len.items := fifo.tail
  have head : s.q.sqHead = s.reported % len.items := fifo.head
  rw [IoQueue.incrementSubmissionTail_eq len fifo.tail_lt, tail, head, Nat.mod_add_mod] at notFull
  split_ifs at notFull with apart
  cases notFull
  -- one turn ahead of the reported head the two indices would be equal
  have notTurn : s.issued.length + 1 ≠ s.reported + len.items := by
    intro turn
    exact apart (by rw [turn, Nat.add_mod_right])
  omega

theorem Fifo.submitted {op : Op} {cmdid slot sqTail : Nat}
    (notFull : s.q.incrementSubmissionTail len.items = some (slot, sqTail))
    (covered : s.rung = s.issued.length) :
    Fifo len { s.submission with
      sqTail := sqTail
      subCmd := Function.update s.q.subCmd slot (op.write .cleared cmdid)
      issued := s.issued ++ [⟨s.issued.length, op, cmdid⟩] } := by
  obtain ⟨slotEq, tailEq, room⟩ := fifo.room_of_notFull notFull
  have fetchedLe : s.fetched.length ≤ s.issued.length := covered ▸ fifo.fetched_le
  have reportedLe : s.reported ≤ s.fetched.length := fifo.reported_le
  refine
    { tail := by simpa using tailEq
      head := fifo.head
      doorbell := fifo.doorbell
      cursor := fifo.cursor
      reported_le := reportedLe
      fetched_le := fifo.fetched_le
      rung_le := ?_
      room := by simpa [submission] using room
      commands := ?_ }
  · simpa [submission] using Nat.le_succ_of_le fifo.rung_le
  · have position : s.issued.length = s.fetched.length + (s.issued.length - s.fetched.length) := by
      omega
    have commands : s.issued.map Issued.command = s.fetched ++
        window len.items s.q.subCmd s.fetched.length (s.issued.length - s.fetched.length) :=
      fifo.commands
    have outside : ∀ off < s.issued.length - s.fetched.length,
        (s.fetched.length + off) % len.items ≠ s.issued.length % len.items := by
      intro off lt
      rw [position]
      exact next_cell_outside (by omega) off lt
    have count : (s.issued ++ [(⟨s.issued.length, op, cmdid⟩ : Issued)]).length - s.fetched.length =
        s.issued.length - s.fetched.length + 1 := by
      simp only [List.length_append, List.length_singleton]
      omega
    simp only [submission, count, List.map_append, commands, window_succ, slotEq]
    rw [window_update_outside _ _ outside, ← position]
    simp [Issued.command]

theorem Fifo.fetched (more : s.fetchHead ≠ s.q.sqDb) :
    Fifo len { s.submission with
      fetched := s.fetched ++ [s.q.subCmd s.fetchHead]
      fetchHead := (s.fetchHead + 1) % len.items } := by
  have cursor : s.fetchHead = s.fetched.length % len.items := fifo.cursor
  have doorbell : s.q.sqDb = s.rung % len.items := fifo.doorbell
  have fetchedLe : s.fetched.length ≤ s.rung := fifo.fetched_le
  have rungLe : s.rung ≤ s.issued.length := fifo.rung_le
  have reportedLe : s.reported ≤ s.fetched.length := fifo.reported_le
  have behind : s.fetched.length ≠ s.rung := fun same => more (by rw [cursor, doorbell, same])
  refine
    { tail := fifo.tail
      head := fifo.head
      doorbell := doorbell
      cursor := by simp [cursor]
      reported_le := ?_
      fetched_le := ?_
      rung_le := rungLe
      room := fifo.room
      commands := ?_ }
  · simpa [submission] using Nat.le_succ_of_le reportedLe
  · simp only [List.length_append, List.length_singleton, submission]
    omega
  · have commands : s.issued.map Issued.command = s.fetched ++
        window len.items s.q.subCmd s.fetched.length (s.issued.length - s.fetched.length) :=
      fifo.commands
    have count : s.issued.length - s.fetched.length =
        s.issued.length - (s.fetched.length + 1) + 1 := by
      omega
    simp only [submission, commands, List.length_append, List.length_singleton]
    rw [count, window_cons, ← cursor, List.append_assoc, List.singleton_append]

theorem Fifo.step {s' : System} (step : SubmissionStep len s s') :
    Fifo len s'.submission := by
  cases step with
  | unchanged same => exact same ▸ fifo
  | submitted op cmdid slot sqTail notFull covered effect =>
    exact effect ▸ fifo.submitted notFull covered
  | rang effect =>
    have rungLe : s.rung ≤ s.issued.length := fifo.rung_le
    have fetchedLe : s.fetched.length ≤ s.rung := fifo.fetched_le
    rw [effect]
    exact { fifo with
      doorbell := fifo.tail
      fetched_le := Nat.le_trans fetchedLe rungLe
      rung_le := Nat.le_refl _ }
  | fetched more effect => exact effect ▸ fifo.fetched more
  | reported head later reached effect =>
    have room : s.issued.length < s.reported + len.items := fifo.room
    rw [effect]
    exact { fifo with
      head := rfl
      reported_le := reached
      room := Nat.lt_of_lt_of_le room (Nat.add_le_add_right later _) }

end

theorem Reachable.fifo {ok : System → Event → Prop} (run : Reachable len ok s) :
    Fifo len s.submission :=
  run.invariant (motive := fun s => Fifo len s.submission) (fifo_init len)
    fun fifo _ step => fifo.step (step_move step).submission

/-! ## What the controller sees -/

def Carries (command : RwCommand) (issued : Issued) : Prop :=
  command.opcode = issued.op.opcode ∧ command.prp1 = issued.op.buffer ∧
    command.slba = issued.op.offset ∧ command.commandId = issued.cmdid

theorem Fifo.fetched_length_le (fifo : Fifo len q) :
    q.fetched.length ≤ q.issued.length :=
  Nat.le_trans fifo.fetched_le fifo.rung_le

theorem Fifo.fetched_eq (fifo : Fifo len q) :
    q.fetched = (q.issued.take q.fetched.length).map Issued.command := by
  rw [List.map_take, fifo.commands, List.take_left]

theorem Fifo.cursor_eq_iff (fifo : Fifo len q) :
    q.fetchHead = q.sqDb ↔ q.fetched.length = q.rung := by
  have bounds := And.intro fifo.reported_le (And.intro fifo.rung_le fifo.room)
  rw [fifo.cursor, fifo.doorbell]
  refine ⟨fun same => position_eq_of_close fifo.fetched_le (by omega) same, fun same => ?_⟩
  rw [same]

variable {issued : Issued}

section

variable (accounts : Accounts s) (mem : issued ∈ s.issued)
include accounts mem

theorem Accounts.carries : Carries issued.command issued :=
  issued.op.write_cleared (accounts.ids issued mem).2

theorem Accounts.getElem_serial : s.issued[issued.serial]? = some issued := by
  obtain ⟨i, lt, rfl⟩ := List.getElem_of_mem mem
  have serial : (s.issued.map Issued.serial)[i]? = (List.range s.issued.length)[i]? := by
    rw [accounts.serials]
  simp only [List.getElem?_map, List.getElem?_eq_getElem lt, Option.map_some,
    List.getElem?_range lt, Option.some.injEq] at serial
  rw [serial, List.getElem?_eq_getElem lt]

theorem Fifo.commandId_eq {command : RwCommand} (fifo : Fifo len s.submission)
    (wasFetched : s.fetched[issued.serial]? = some command) : command.commandId = issued.cmdid := by
  have fetchedEq : s.fetched = (s.issued.take s.fetched.length).map Issued.command :=
    fifo.fetched_eq
  obtain ⟨lt, _⟩ := List.getElem?_eq_some_iff.mp wasFetched
  rw [fetchedEq, List.getElem?_map, List.getElem?_take_of_lt lt,
    accounts.getElem_serial mem] at wasFetched
  cases wasFetched
  exact (accounts.carries mem).2.2.2

end

/-- The submission ring is a lossless first-in-first-out queue, for every length and
    every run: what the controller has fetched is, command by command, the beginning of
    what the calls asked for; at most `len.items - 1` commands are unfetched; the slot
    handed out next holds none of them; and the controller can go on fetching until it
    has everything the doorbell covers, which is every command once the call is over. -/
theorem submission_ring_is_fifo {len : QueueLength} {s : System}
    (run : Reachable len AnyCall s) :
    (List.Forall₂ Carries s.fetched (s.issued.take s.fetched.length) ∧
      s.issued.map Issued.op ++ s.producer.todo = s.requested) ∧
    (s.fetched.length ≤ s.issued.length ∧ s.issued.length ≤ s.fetched.length + (len.items - 1)) ∧
    (∀ slot sqTail, s.q.incrementSubmissionTail len.items = some (slot, sqTail) →
      ∀ position, s.fetched.length ≤ position → position < s.issued.length →
        position % len.items ≠ slot) ∧
    (s.step len .fetch = none ↔ s.fetched.length = s.rung) ∧
    (s.producer = .idle → s.rung = s.issued.length) := by
  have fifo := Reachable.fifo run
  have accounts := Reachable.accounts run
  have fetchedEq : s.fetched = (s.issued.take s.fetched.length).map Issued.command :=
    fifo.fetched_eq
  have reportedLe : s.reported ≤ s.fetched.length := fifo.reported_le
  have room : s.issued.length < s.reported + len.items := fifo.room
  refine ⟨⟨?_, accounts.requests.symm⟩, ⟨fifo.fetched_length_le, by omega⟩, ?_, ?_, ?_⟩
  · nth_rewrite 1 [fetchedEq]
    rw [List.forall₂_map_left_iff, List.forall₂_same]
    exact fun issued member => accounts.carries (List.mem_of_mem_take member)
  · intro slot sqTail notFull position afterFetched beforeTail clash
    obtain ⟨slotEq, _, _⟩ := fifo.room_of_notFull notFull
    have same := position_eq_of_close (Nat.le_of_lt beforeTail) (by omega) (clash.trans slotEq)
    omega
  · have cursor : s.fetchHead = s.q.sqDb ↔ s.fetched.length = s.rung := fifo.cursor_eq_iff
    rw [← cursor]
    simp [step, fetchStep]
  · intro idle
    simp [rung, idle]

/-- Two reads and three flushes on a ring of four entries, whose tail comes round to 1. -/
theorem submission_ring_is_fifo_wrapped :
    ∃ s, Reachable ⟨4, by decide, by decide⟩ AnyCall s ∧ s.q.sqTail = 1 ∧
      s.fetched.length = 5 ∧ List.Forall₂ Carries s.fetched (s.issued.take 5) := by
  have executed : ∃ s ∈ execute (step ⟨4, by decide, by decide⟩) AnyCall
      (twoReads ++ (List.replicate 3 (.call (.single .flush) :: List.replicate 4 .producer)).flatten
        ++ List.replicate 3 .fetch) init, s.q.sqTail = 1 ∧ s.fetched.length = 5 := by
    decide +kernel
  obtain ⟨s, run, wrapped, all⟩ := exists_reaches_of_execute executed
  exact ⟨s, run, wrapped, all, all ▸ (submission_ring_is_fifo run).1.1⟩

end System

end Xdk.Nvme
