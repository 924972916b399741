import Mathlib.Algebra.BigOperators.Group.List.Basic
import Mathlib.Algebra.GroupWithZero.Nat
import Xdk.Lib.Transition

/-! # The shadow block device

The shadow block device hands every segment of a block request to a server in user space:
`shadow_perform_request` fills in the one `pending_command`, raises
`request_queue_flag`, wakes the reader of `/dev/shadow_ctl` and waits for
`ack_queue_flag`.  The server reads the command (`fops_misc_read`), does what it says and
writes an acknowledgement (`fops_misc_write`).

The kernel thread and the server are two programs with a program counter each, and they
share the command, the two flags and the wait queue of the readers.  What the thread does
between two segments (the offset in the request, the next request) touches only its own
variables, so the segments of all requests are one list of jobs, computed in advance by
the loop that the source has.
-/

namespace Xdk.Shadow

open Xdk.Lib

def sbdSectorSize : Nat := 512

def protocolCmdRead : Nat := 3

def protocolCmdWrite : Nat := 4

structure ShadowProtocol where
  command : Nat
  offset : Nat
  sectors : Nat
  physAddr : Nat
  deriving DecidableEq, Repr

def ShadowProtocol.zero : ShadowProtocol := ⟨0, 0, 0, 0⟩

inductive Direction where
  | read
  | write
  deriving DecidableEq, Repr

def Direction.command : Direction → Nat
  | .read => protocolCmdRead
  | .write => protocolCmdWrite

/-- A segment of a request: its length in bytes and the physical address of its buffer. -/
structure BioVec where
  bvLen : Nat
  physAddr : Nat
  deriving DecidableEq, Repr

def BioVec.sectors (bv : BioVec) : Nat := bv.bvLen / sbdSectorSize

structure Request where
  dir : Direction
  startSector : Nat
  segments : List BioVec
  deriving DecidableEq, Repr

structure Job where
  dir : Direction
  offset : Nat
  sectors : Nat
  physAddr : Nat
  deriving DecidableEq, Repr

def Request.jobsFrom (dir : Direction) (startSector : Nat) : Nat → List BioVec → List Job
  | _, [] => []
  | sectorOffset, bv :: segments =>
    ⟨dir, startSector + sectorOffset, bv.sectors, bv.physAddr⟩ ::
      jobsFrom dir startSector (sectorOffset + bv.sectors) segments

def Request.jobs (req : Request) : List Job := jobsFrom req.dir req.startSector 0 req.segments

/-- `shadow_request` takes the requests one after the other. -/
def jobsOf (requests : List Request) : List Job := requests.flatMap Request.jobs

def Job.protocol (job : Job) : ShadowProtocol :=
  ⟨job.dir.command, job.offset, job.sectors, job.physAddr⟩

/-- What the stores of a job leave in `pending_command`: for a write only the command is
    stored. -/
def Job.store (pending : ShadowProtocol) (job : Job) : ShadowProtocol :=
  match job.dir with
  | .read => job.protocol
  | .write => { pending with command := protocolCmdWrite }

/-! ## What a request asks for -/

/-- The commands for a request: one for each segment, at the start sector plus the sectors
    of the segments before it. -/
def Request.commands (req : Request) : List ShadowProtocol :=
  req.segments.mapIdx fun index bv =>
    ⟨req.dir.command, req.startSector + ((req.segments.take index).map BioVec.sectors).sum,
      bv.sectors, bv.physAddr⟩

theorem Request.jobsFrom_protocol (dir : Direction) (startSector sectorOffset : Nat)
    (segments : List BioVec) :
    (jobsFrom dir startSector sectorOffset segments).map Job.protocol =
      segments.mapIdx fun i bv =>
        ⟨dir.command,
          startSector + (sectorOffset + ((segments.take i).map BioVec.sectors).sum),
          bv.sectors, bv.physAddr⟩ := by
  induction segments generalizing sectorOffset with
  | nil => rfl
  | cons bv segments ih =>
    simp only [jobsFrom, List.map_cons, ih]
    simp [Job.protocol, Nat.add_assoc]

/-- The loop computes them. -/
theorem Request.jobs_protocol (req : Request) : req.jobs.map Job.protocol = req.commands := by
  simp only [jobs, jobsFrom_protocol, commands, Nat.zero_add]

theorem jobsOf_protocol (reqs : List Request) :
    (jobsOf reqs).map Job.protocol = reqs.flatMap Request.commands := by
  simp only [jobsOf, List.map_flatMap, Request.jobs_protocol]

/-! ## The two programs -/

inductive KernelPc where
  | command
  | offset
  | sectors
  | physAddr
  -- the loop that waits until the list of readers is not empty
  | poll
  | raise
  | wake
  -- for a write: `ack_queue_flag = 1`
  | selfAck
  | ackWait
  deriving DecidableEq, Repr

/-- What `pending_command` will be when the stores left for a job have been made. -/
def Job.complete (job : Job) (kernel : KernelPc) (pending : ShadowProtocol) : ShadowProtocol :=
  match kernel with
  | .command => job.store pending
  | .offset =>
    { pending with offset := job.offset, sectors := job.sectors, physAddr := job.physAddr }
  | .sectors => { pending with sectors := job.sectors, physAddr := job.physAddr }
  | .physAddr => { pending with physAddr := job.physAddr }
  | _ => pending

/-- Where the server is.  `wait_event_interruptible` tests the flag, and until it is set
    enters the list of readers, tests again and sleeps; a wake-up takes it off the list. -/
inductive ServerPc where
  | idle
  | testing
  | preparing
  | queued
  | asleep
  | clearing
  | copying
  -- back in user space, with a command that is not acknowledged
  | holding
  deriving DecidableEq, Repr

def ServerPc.listed : ServerPc → Bool
  | .queued | .asleep => true
  | _ => false

def ServerPc.woken : ServerPc → ServerPc
  | .asleep => .preparing
  | .queued => .testing
  | server => server

def ServerPc.busy : ServerPc → Bool
  | .clearing | .copying | .holding => true
  | _ => false

theorem ServerPc.ne_of_busy {server later : ServerPc} (free : server.busy = false)
    (busy : later.busy = true) : server ≠ later := by
  rintro rfl
  rw [free] at busy
  cases busy

/-- A wake-up does not lead there. -/
theorem ServerPc.woken_eq_iff {server later : ServerPc} (busy : later.busy = true) :
    server.woken = later ↔ server = later := by
  cases later with
  | clearing | copying | holding => cases server <;> decide
  | idle | testing | preparing | queued | asleep => cases busy

def KernelPc.raised : KernelPc → Nat
  | .wake | .selfAck | .ackWait => 1
  | _ => 0

/-- The device and its two programs; `jobs` begins with the job at hand.  The last five
    fields record the history: how many commands have been issued and how many segments
    passed, which commands the server was given, the segments they belong to, and those of
    them that it had read before its last acknowledgement. -/
structure State where
  pendingCommand : ShadowProtocol
  requestQueueFlag : Nat
  ackQueueFlag : Nat
  jobs : List Job
  kernel : KernelPc
  server : ServerPc
  issued : Nat
  passed : Nat
  delivered : List ShadowProtocol
  seen : List Nat
  acked : List Nat
  deriving DecidableEq, Repr

inductive Event where
  | kernel
  | server
  deriving DecidableEq, Repr

namespace State

def init (jobs : List Job) : State :=
  ⟨.zero, 0, 0, jobs, .command, .idle, 0, 0, [], [], []⟩

/-- A step of `shadow_perform_request`; `none` means that it waits, or that all requests
    are done. -/
def performRequest (s : State) : Option State :=
  match s.jobs with
  | [] => none
  | job :: jobs =>
    match s.kernel with
    | .command =>
      some { s with
        pendingCommand := { s.pendingCommand with command := job.dir.command }
        kernel := match job.dir with
          | .read => .offset
          | .write => .poll }
    | .offset =>
      some { s with
        pendingCommand := { s.pendingCommand with offset := job.offset }, kernel := .sectors }
    | .sectors =>
      some { s with
        pendingCommand := { s.pendingCommand with sectors := job.sectors }, kernel := .physAddr }
    | .physAddr =>
      some { s with
        pendingCommand := { s.pendingCommand with physAddr := job.physAddr }, kernel := .poll }
    | .poll => if s.server.listed then some { s with kernel := .raise } else none
    | .raise => some { s with requestQueueFlag := 1, issued := s.issued + 1, kernel := .wake }
    | .wake =>
      some { s with
        server := s.server.woken
        kernel := match job.dir with
          | .read => .ackWait
          | .write => .selfAck }
    | .selfAck => some { s with ackQueueFlag := 1, kernel := .ackWait }
    | .ackWait =>
      if s.ackQueueFlag ≠ 0 then
        some { s with jobs := jobs, passed := s.passed + 1, kernel := .command }
      else none

/-- A step of the server, which reads a command (`fops_misc_read`), acknowledges it
    (`fops_misc_write`) and reads again.  The command it copies is the one issued last. -/
def serve (s : State) : Option State :=
  match s.server with
  | .idle => some { s with server := .testing }
  | .testing => some { s with server := if s.requestQueueFlag ≠ 0 then .clearing else .preparing }
  | .preparing => some { s with server := .queued }
  | .queued => some { s with server := if s.requestQueueFlag ≠ 0 then .clearing else .asleep }
  | .asleep => none
  | .clearing => some { s with requestQueueFlag := 0, server := .copying }
  | .copying =>
    some { s with
      delivered := s.delivered ++ [s.pendingCommand]
      seen := s.seen ++ [s.issued - 1]
      server := .holding }
  | .holding => some { s with ackQueueFlag := 1, acked := s.seen, server := .idle }

def step (s : State) : Event → Option State
  | .kernel => s.performRequest
  | .server => s.serve

abbrev Reachable (jobs : List Job) : State → Prop :=
  Reaches step (fun _ _ => True) (init jobs)

/-! ## What a step does -/

/-- A step of the kernel thread, by its effect.  Up to the loop over the list of readers
    it prepares the command, which in the end is the one that the stores left make. -/
inductive Performed (s : State) (job : Job) (jobs : List Job) : State → Prop where
  | prepare (pending : ShadowProtocol) (kernel : KernelPc) :
      s.kernel.raised = 0 → kernel.raised = 0 →
      job.complete kernel pending = job.complete s.kernel s.pendingCommand →
      Performed s job jobs { s with pendingCommand := pending, kernel := kernel }
  | raise : s.kernel = .raise →
      Performed s job jobs
        { s with requestQueueFlag := 1, issued := s.issued + 1, kernel := .wake }
  | wake (kernel : KernelPc) : s.kernel = .wake → kernel.raised = 1 →
      (kernel = .selfAck → job.dir = .write) →
      Performed s job jobs { s with server := s.server.woken, kernel := kernel }
  | selfAck : s.kernel = .selfAck →
      Performed s job jobs { s with ackQueueFlag := 1, kernel := .ackWait }
  | pass : s.kernel = .ackWait → s.ackQueueFlag ≠ 0 →
      Performed s job jobs { s with jobs := jobs, passed := s.passed + 1, kernel := .command }

variable {s s' : State}

theorem performed_of_performRequest (step : s.performRequest = some s') :
    ∃ job jobs, s.jobs = job :: jobs ∧ Performed s job jobs s' := by
  simp only [performRequest] at step
  split at step
  · cases step
  rename_i job jobs cur
  refine ⟨job, jobs, cur, ?_⟩
  generalize kernel : s.kernel = access at step
  cases access with
  | command =>
    cases step
    refine .prepare _ _ (by rw [kernel]; rfl) ?_ ?_
    · cases job.dir <;> rfl
    · rw [kernel]
      cases dir : job.dir <;> simp [Job.complete, Job.store, Job.protocol, Direction.command, dir]
  | offset | sectors | physAddr =>
    cases step
    exact .prepare _ _ (by rw [kernel]; rfl) rfl (by rw [kernel]; rfl)
  | poll =>
    dsimp only at step
    split_ifs at step
    cases step
    exact .prepare s.pendingCommand .raise (by rw [kernel]; rfl) rfl (by rw [kernel]; rfl)
  | raise =>
    cases step
    exact .raise kernel
  | wake =>
    cases step
    refine .wake _ kernel ?_ ?_
    · cases job.dir <;> rfl
    · cases job.dir <;> simp
  | selfAck =>
    cases step
    exact .selfAck kernel
  | ackWait =>
    dsimp only at step
    split_ifs at step with acked
    cases step
    exact .pass kernel acked

inductive Served (s : State) : State → Prop where
  | move (server : ServerPc) : s.server.busy = false → server.busy = false →
      Served s { s with server := server }
  | found : s.server.busy = false → s.requestQueueFlag ≠ 0 →
      Served s { s with server := .clearing }
  | clear : s.server = .clearing →
      Served s { s with requestQueueFlag := 0, server := .copying }
  | copy : s.server = .copying →
      Served s { s with
        delivered := s.delivered ++ [s.pendingCommand]
        seen := s.seen ++ [s.issued - 1]
        server := .holding }
  | acknowledge : s.server = .holding →
      Served s { s with ackQueueFlag := 1, acked := s.seen, server := .idle }

theorem served_of_serve (step : s.serve = some s') : Served s s' := by
  simp only [serve] at step
  generalize server : s.server = access at step
  cases access with
  | idle | preparing =>
    cases step
    exact .move _ (by rw [server]; rfl) rfl
  | testing | queued =>
    cases step
    split
    · exact .found (by rw [server]; rfl) ‹_›
    · exact .move _ (by rw [server]; rfl) rfl
  | asleep =>
    cases step
  | clearing =>
    cases step
    exact .clear server
  | copying =>
    cases step
    exact .copy server
  | holding =>
    cases step
    exact .acknowledge server

/-! ## The counters, in every run -/

structure Counted (count : Nat) (s : State) : Prop where
  total : s.passed + s.jobs.length = count
  issued : s.issued = s.passed + s.kernel.raised
  done : s.jobs = [] → s.kernel = .command
  selfAck : s.kernel = .selfAck → ∀ job jobs, s.jobs = job :: jobs → job.dir = .write

theorem Counted.init (jobs : List Job) : Counted jobs.length (init jobs) :=
  ⟨Nat.zero_add _, rfl, fun _ => rfl, nofun⟩

variable {count : Nat} {jobs : List Job}

theorem Counted.performed {job : Job} (inv : Counted count s) (cur : s.jobs = job :: jobs)
    (performed : Performed s job jobs s') : Counted count s' := by
  obtain ⟨total, issued, done, selfAck⟩ := inv
  cases performed with
  | prepare pending kernel before after complete =>
    refine ⟨total, ?_, fun none => ?_, fun acks => ?_⟩
    · rw [issued, before, after]
    · cases cur.symm.trans none
    · subst acks
      cases after
  | raise kernel | selfAck kernel =>
    refine ⟨total, ?_, fun none => ?_, fun acks => ?_⟩
    · rw [issued, kernel]
      rfl
    · cases cur.symm.trans none
    · cases acks
  | wake kernel before after write =>
    refine ⟨total, ?_, fun none => ?_, fun acks other rest same => ?_⟩
    · rw [issued, before, after]
      rfl
    · cases cur.symm.trans none
    · cases cur.symm.trans same
      exact write acks
  | pass kernel acked =>
    refine ⟨?_, ?_, fun _ => rfl, fun acks => ?_⟩
    · rw [cur, List.length_cons] at total
      dsimp only
      omega
    · rw [issued, kernel]
      rfl
    · cases acks

theorem Counted.served (inv : Counted count s) (served : Served s s') : Counted count s' := by
  cases served <;>
    exact ⟨inv.total, inv.issued, inv.done, inv.selfAck⟩

theorem Counted.issued_le (inv : Counted count s) :
    s.issued ≤ count := by
  have total := inv.total
  have issued := inv.issued
  cases jobs : s.jobs with
  | nil =>
    rw [inv.done jobs] at issued
    simp only [KernelPc.raised] at issued
    omega
  | cons job rest =>
    have raised : s.kernel.raised ≤ 1 := by cases s.kernel <;> decide
    rw [jobs, List.length_cons] at total
    omega

/-- The rule for invariants of the two programs: each has its own steps, and the counters
    may be used. -/
theorem Reachable.induct {jobs : List Job} {s : State} {motive : State → Prop}
    (run : Reachable jobs s) (initial : motive (init jobs))
    (performed : ∀ {s s' : State} {job : Job} {rest : List Job}, Counted jobs.length s →
      motive s → s.jobs = job :: rest → Performed s job rest s' → motive s')
    (served : ∀ {s s' : State}, Counted jobs.length s → motive s → Served s s' → motive s') :
    motive s := by
  refine (run.invariant (motive := fun s => Counted jobs.length s ∧ motive s) ?_ ?_).2
  · exact ⟨.init jobs, initial⟩
  · intro before after ev ⟨inv, holds⟩ _ made
    cases ev with
    | kernel =>
      obtain ⟨job, rest, cur, step⟩ := performed_of_performRequest made
      exact ⟨inv.performed cur step, performed inv holds cur step⟩
    | server =>
      have step := served_of_serve made
      exact ⟨inv.served step, served inv holds step⟩

theorem Reachable.counted (run : Reachable jobs s) :
    Counted jobs.length s :=
  run.induct (.init jobs) (fun inv _ cur step => inv.performed cur step)
    (fun inv _ step => inv.served step)

end State

end Xdk.Shadow
