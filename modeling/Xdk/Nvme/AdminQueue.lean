import Xdk.Nvme.CompletionDoorbell

/-! # Results of admin commands

Admin commands are issued one at a time.  When the interrupt has come,
`ring_wait_complete` reads the result of the command from the current completion slot,
acknowledges the slot and moves the head on; the caller then asks for the status.

Both values come from the wrong place.  `check_command_completion` fills the slot with
zeroes before `get_result` reads it, so the result is 0 whatever the controller posted,
and `get_status` reads the slot after the head has moved, which is the slot of the
command that comes next.
-/

namespace Xdk.Nvme

inductive StatusT where
  | sOk
  | eFail
  deriving DecidableEq, Repr

/-- `nvme_completion::status`: the sixteen bits that a completion slot divides into the
    phase tag and the status. -/
def Completion.statusWord (entry : Completion) : Nat := entry.phaseTag + 2 * entry.status

namespace CompletionQueue

/-- `curr_comp_slot`: `none` is a failed assertion, here and in the functions below. -/
def currCompSlot (queueMaxItems : Nat) (q : CompletionQueue) : Option Completion :=
  if q.cqHead < queueMaxItems then some (q.compCmd q.cqHead) else none

end CompletionQueue

namespace AdminQueue

/-- `check_command_completion`, in the ring as the interrupt has left it: a slot with
    another identifier still has it when the attempts are used up.  A bad status is only
    logged. -/
def checkCommandCompletion (cid : Nat) (q : CompletionQueue) :
    Option (StatusT × CompletionQueue) := do
  let cc ← q.currCompSlot adminQueueLen.items
  if cc.commandId ≠ cid then some (.eFail, q)
  else if cc.phaseTag ≠ q.cqPhase then some (.eFail, q)
  else some (.sOk, { q with compCmd := Function.update q.compCmd q.cqHead .zeroed })

/-- `Command_admin_base::get_result`, which drops what the check returns. -/
def getResult (cid : Nat) (q : CompletionQueue) : Option (Nat × CompletionQueue) := do
  let (_, q) ← checkCommandCompletion cid q
  let comp ← q.currCompSlot adminQueueLen.items
  some (comp.dw0, q)

def getStatus (q : CompletionQueue) : Option Nat :=
  (q.currCompSlot adminQueueLen.items).map Completion.statusWord

def ringWaitComplete (cid : Nat) (q : CompletionQueue) : Option (Nat × CompletionQueue) := do
  let (r, q) ← getResult cid q
  some (r, q.ringDoorbellSingleCompletion adminQueueLen.items)

def createIoQueue (prp1 cid : Nat) (q : CompletionQueue) :
    Option (StatusT × CompletionQueue) := do
  if prp1 = 0 then none
  else
    let (r, q) ← ringWaitComplete cid q
    if r ≠ 0 then none
    else
      let status ← getStatus q
      if status ≠ 0 then none
      else some (.sOk, q)

def createIoCompletionQueue (prp1 cid : Nat) (q : CompletionQueue) :
    Option (StatusT × CompletionQueue) :=
  createIoQueue prp1 cid q

def createIoSubmissionQueue (prp1 cid : Nat) (q : CompletionQueue) :
    Option (StatusT × CompletionQueue) :=
  createIoQueue prp1 cid q

def setQueueNum (cid : Nat) (q : CompletionQueue) :
    Option (StatusT × (Nat × Nat) × CompletionQueue) := do
  let (r, q) ← ringWaitComplete cid q
  let status ← getStatus q
  some (.sOk, (r, status), q)

structure Posted (q : CompletionQueue) (cid : Nat) (entry : Completion) : Prop where
  head : q.cqHead < adminQueueLen.items
  slot : q.compCmd q.cqHead = entry
  commandId : entry.commandId = cid
  phaseTag : entry.phaseTag = q.cqPhase

def nextSlot (q : CompletionQueue) : Completion :=
  q.compCmd ((q.cqHead + 1) % adminQueueLen.items)

section Posted

variable {q : CompletionQueue} {cid : Nat} {entry : Completion}

theorem Posted.getResult_eq (posted : Posted q cid entry) :
    getResult cid q =
      some (0, { q with compCmd := Function.update q.compCmd q.cqHead .zeroed }) := by
  have checked : checkCommandCompletion cid q =
      some (.sOk, { q with compCmd := Function.update q.compCmd q.cqHead .zeroed }) := by
    simp [checkCommandCompletion, CompletionQueue.currCompSlot, posted.head, posted.slot,
      posted.commandId, posted.phaseTag]
  simp [getResult, checked, CompletionQueue.currCompSlot, posted.head, Completion.zeroed]

theorem ringDoorbellSingleCompletion_compCmd (queueMaxItems : Nat) (q : CompletionQueue) :
    (q.ringDoorbellSingleCompletion queueMaxItems).compCmd = q.compCmd := by
  simp only [CompletionQueue.ringDoorbellSingleCompletion,
    CompletionQueue.incrementCompletionHead]
  split <;> rfl

/-- The status is read from the slot after the one posted. -/
theorem Posted.ringWaitComplete_eq (posted : Posted q cid entry) :
    ∃ q', ringWaitComplete cid q = some (0, q') ∧
      getStatus q' = some (nextSlot q).statusWord := by
  have inRange := posted.head
  simp only [ringWaitComplete, posted.getResult_eq]
  refine ⟨_, rfl, ?_⟩
  have head : (CompletionQueue.ringDoorbellSingleCompletion adminQueueLen.items
      { q with compCmd := Function.update q.compCmd q.cqHead .zeroed }).cqHead =
        (q.cqHead + 1) % adminQueueLen.items :=
    CompletionQueue.incrementCompletionHead_head (Nat.mod_eq_of_lt inRange).symm
  have ne : (q.cqHead + 1) % adminQueueLen.items ≠ q.cqHead := by
    simp only [adminQueueLen] at inRange ⊢
    omega
  simp only [getStatus, CompletionQueue.currCompSlot, head, ringDoorbellSingleCompletion_compCmd,
    Function.update_of_ne ne, nextSlot, Option.map_some,
    if_pos (Nat.mod_lt (q.cqHead + 1) adminQueueLen.pos)]

/-- Creating a queue succeeds or fails with the slot after the one posted. -/
theorem Posted.createIoQueue_ok_iff (posted : Posted q cid entry) {prp1 : Nat}
    (mapped : prp1 ≠ 0) :
    (∃ q', createIoQueue prp1 cid q = some (.sOk, q')) ↔ (nextSlot q).statusWord = 0 := by
  obtain ⟨q', waited, status⟩ := posted.ringWaitComplete_eq
  simp only [createIoQueue, waited, Option.bind_eq_bind, Option.bind_some]
  split <;> simp_all

end Posted

/-- What the callers of `ring_wait_complete` rely on: result and status are those of the
    entry posted, and no queue is reported as created that the controller has refused. -/
structure Contract (q : CompletionQueue) (cid : Nat) (entry : Completion) : Prop where
  reported : ∃ q', ringWaitComplete cid q = some (entry.dw0, q') ∧
    getStatus q' = some entry.status
  logged : ∃ q', setQueueNum cid q = some (.sOk, (entry.dw0, entry.status), q')
  refused : entry.status ≠ 0 → ∀ prp1 q',
    createIoCompletionQueue prp1 cid q ≠ some (.sOk, q') ∧
      createIoSubmissionQueue prp1 cid q ≠ some (.sOk, q')

/-- At every position of the head and for every content of the ring, result and status
    of an admin command are reported exactly when the result is 0 and the sixteen bits of
    the slot that follows happen to be the status. -/
theorem admin_result_reported_iff {q : CompletionQueue} {cid : Nat} {entry : Completion}
    (posted : Posted q cid entry) :
    Contract q cid entry ↔ entry.dw0 = 0 ∧ (nextSlot q).statusWord = entry.status := by
  obtain ⟨q', waited, status⟩ := posted.ringWaitComplete_eq
  constructor
  · intro contract
    obtain ⟨q'', returned, reported⟩ := contract.reported
    obtain ⟨result, rfl⟩ : 0 = entry.dw0 ∧ q' = q'' := by simpa [waited] using returned
    exact ⟨result.symm, by simpa [status] using reported⟩
  · rintro ⟨zero, same⟩
    refine ⟨⟨q', by rw [waited, zero], by rw [status, same]⟩, ⟨q', ?_⟩, ?_⟩
    · simp [setQueueNum, waited, status, zero, same]
    · intro failed prp1 q''
      have rejects : createIoQueue prp1 cid q ≠ some (.sOk, q'') := by
        intro created
        have mapped : prp1 ≠ 0 := by
          rintro rfl
          simp [createIoQueue] at created
        exact failed (same ▸ (posted.createIoQueue_ok_iff mapped).mp ⟨q'', created⟩)
      exact ⟨rejects, rejects⟩

/-- The first command succeeds with result 0. -/
theorem admin_result_reported_first :
    ∃ q entry, Posted q 1 entry ∧ Contract q 1 entry := by
  let entry : Completion := { Completion.zeroed with commandId := 1, phaseTag := 1 }
  let q : CompletionQueue := { CompletionQueue.init with
    compCmd := fun slot => if slot = 0 then entry else .zeroed }
  have posted : Posted q 1 entry := ⟨by decide, rfl, rfl, rfl⟩
  exact ⟨q, entry, posted, (admin_result_reported_iff posted).mpr ⟨rfl, rfl⟩⟩

/-- The controller refuses the first command, and the queue counts as created. -/
theorem admin_failure_reported_ok :
    ∃ q entry, Posted q 1 entry ∧ entry.status ≠ 0 ∧
      ∃ q', createIoCompletionQueue 0x1000 1 q = some (.sOk, q') := by
  let entry : Completion :=
    { Completion.zeroed with commandId := 1, phaseTag := 1, status := 2 }
  let q : CompletionQueue := { CompletionQueue.init with
    compCmd := fun slot => if slot = 0 then entry else .zeroed }
  have posted : Posted q 1 entry := ⟨by decide, rfl, rfl, rfl⟩
  exact ⟨q, entry, posted, by decide, (posted.createIoQueue_ok_iff (by decide)).mpr rfl⟩

end AdminQueue

end Xdk.Nvme
