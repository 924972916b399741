import Xdk.Shadow.Device

/-! # Waiting for the acknowledgement

`shadow_perform_request` should go on to the next segment only when the server has read
the command for the present one and has acknowledged it.  Two things are in the way.  For
a write the kernel thread sets `ack_queue_flag` itself, and nobody ever clears the flag,
so that after the first acknowledgement every wait is over at once.  What is left is a
single read, the first that the module performs.

The runs that show this are made of two pieces: a full handshake over one segment, and a
segment that the kernel thread passes without the server.
-/

namespace Xdk.Shadow

open Xdk.Lib

namespace State

/-- The server sleeps in `fops_misc_read` and the kernel thread comes to the next job. -/
def ready (jobs : List Job) (pending : ShadowProtocol) (ackQueueFlag count : Nat)
    (delivered : List ShadowProtocol) (seen acked : List Nat) : State :=
  ⟨pending, 0, ackQueueFlag, jobs, .command, .asleep, count, count, delivered, seen, acked⟩

theorem reaches_ready (jobs : List Job) : Reachable jobs (ready jobs .zero 0 0 [] [] []) := by
  have executed : execute step (fun _ _ => True) (List.replicate 4 .server) (init jobs) =
      some (ready jobs .zero 0 0 [] [] []) := rfl
  exact execute_reaches executed

def issueEvents : Direction → List Event
  | .read => List.replicate 7 .kernel
  | .write => List.replicate 5 .kernel

/-- The steps of the server that has been woken: it reads, acknowledges and reads again. -/
def serveEvents : List Event := List.replicate 9 .server

section Runs

variable {start : State} {job : Job} {jobs : List Job} {pending : ShadowProtocol}
  {ackQueueFlag count : Nat} {delivered : List ShadowProtocol} {seen acked : List Nat}

/-- A segment is handed over and acknowledged. -/
theorem reaches_handshake
    (run : Reaches step (fun _ _ => True) start
      (ready (job :: jobs) pending ackQueueFlag count delivered seen acked)) :
    Reaches step (fun _ _ => True) start
      (ready jobs (job.store pending) 1 (count + 1) (delivered ++ [job.store pending])
        (seen ++ [count]) (seen ++ [count])) := by
  have executed : execute step (fun _ _ => True)
      (issueEvents job.dir ++ serveEvents ++ [.kernel])
      (ready (job :: jobs) pending ackQueueFlag count delivered seen acked) =
      some (ready jobs (job.store pending) 1 (count + 1) (delivered ++ [job.store pending])
        (seen ++ [count]) (seen ++ [count])) := by
    obtain ⟨dir, offset, sectors, physAddr⟩ := job
    cases dir <;> rfl
  exact run.trans (execute_reaches executed)

/-- The kernel thread has passed a segment, and the server has been woken for it. -/
def ahead (jobs : List Job) (pending : ShadowProtocol) (count : Nat)
    (delivered : List ShadowProtocol) (seen acked : List Nat) : State :=
  ⟨pending, 1, 1, jobs, .command, .preparing, count, count, delivered, seen, acked⟩

theorem reaches_ahead (passes : ackQueueFlag = 1 ∨ job.dir = .write)
    (run : Reaches step (fun _ _ => True) start
      (ready (job :: jobs) pending ackQueueFlag count delivered seen acked)) :
    Reaches step (fun _ _ => True) start
      (ahead jobs (job.store pending) (count + 1) delivered seen acked) := by
  have executed : execute step (fun _ _ => True) (issueEvents job.dir ++ [.kernel])
      (ready (job :: jobs) pending ackQueueFlag count delivered seen acked) =
      some (ahead jobs (job.store pending) (count + 1) delivered seen acked) := by
    obtain ⟨dir, offset, sectors, physAddr⟩ := job
    obtain rfl | rfl := passes
    · cases dir <;> rfl
    · rfl
  exact run.trans (execute_reaches executed)

end Runs

/-! ## The acknowledgement of each segment -/

def Acknowledged (s : State) : Prop := ∀ segment < s.passed, segment ∈ s.acked

/-- With a single job, and that a read, the flag tells that its command has been read. -/
structure Awaited (s : State) : Prop where
  reads : ∀ job ∈ s.jobs, job.dir = .read
  flag : s.ackQueueFlag ≠ 0 → 0 ∈ s.acked
  holding : s.server = .holding → 0 ∈ s.seen
  passed : 0 < s.passed → 0 ∈ s.acked

variable {s : State} {jobs : List Job}

theorem Awaited.performed {s' : State} {job : Job} {c : Nat} (inv : Counted c s)
    (awaited : Awaited s) (cur : s.jobs = job :: jobs) (performed : Performed s job jobs s') :
    Awaited s' := by
  have read : job.dir = .read := awaited.reads job (by simp [cur])
  cases performed with
  | prepare | raise => exact ⟨awaited.reads, awaited.flag, awaited.holding, awaited.passed⟩
  | wake kernel before after write =>
    exact ⟨awaited.reads, awaited.flag,
      fun holding => awaited.holding ((ServerPc.woken_eq_iff rfl).mp holding), awaited.passed⟩
  | selfAck kernel => cases read.symm.trans (inv.selfAck kernel job jobs cur)
  | pass kernel acked =>
    refine ⟨fun o mem => ?_, awaited.flag, awaited.holding, fun _ => awaited.flag acked⟩
    exact awaited.reads o (by rw [cur]; exact .tail _ mem)

theorem Awaited.served {s' : State} {c : Nat} (single : c ≤ 1) (inv : Counted c s)
    (awaited : Awaited s) (served : Served s s') : Awaited s' := by
  cases served with
  | move server _ free =>
    exact ⟨awaited.reads, awaited.flag,
      fun holding => absurd holding (ServerPc.ne_of_busy free rfl), awaited.passed⟩
  | found | clear => exact ⟨awaited.reads, awaited.flag, nofun, awaited.passed⟩
  | copy =>
    refine ⟨awaited.reads, awaited.flag, fun _ => ?_, awaited.passed⟩
    have first : s.issued - 1 = 0 := by
      have issued := inv.issued_le
      omega
    simp [first]
  | acknowledge holding =>
    have read := awaited.holding holding
    exact ⟨awaited.reads, fun _ => read, nofun, fun _ => read⟩

theorem acknowledged_of_single (single : jobs.length ≤ 1) (reads : ∀ job ∈ jobs, job.dir = .read)
    (run : Reachable jobs s) :
    Acknowledged s := by
  have inv := Reachable.counted run
  have awaited : Awaited s := by
    refine run.induct ⟨reads, fun flag => absurd rfl flag, nofun, nofun⟩ ?_ ?_
    · exact fun inv awaited cur performed => awaited.performed inv cur performed
    · exact fun inv awaited served => awaited.served single inv served
  intro segment passed
  have total := inv.total
  obtain rfl : segment = 0 := by omega
  exact awaited.passed passed

/-- A segment is passed that nobody has acknowledged: the first write, or the second
    segment. -/
theorem exists_not_acknowledged (o : ¬ (jobs.length ≤ 1 ∧ ∀ job ∈ jobs, job.dir = .read)) :
    ∃ s, Reachable jobs s ∧ ¬ Acknowledged s := by
  cases jobs with
  | nil => exact absurd ⟨Nat.zero_le 1, nofun⟩ o
  | cons job jobs =>
    cases dir : job.dir with
    | write =>
      refine ⟨_, reaches_ahead (.inr dir) (reaches_ready (job :: jobs)), fun acknowledged => ?_⟩
      exact absurd (acknowledged 0 Nat.one_pos) List.not_mem_nil
    | read =>
      cases jobs with
      | nil => exact absurd ⟨Nat.le_refl 1, by simp [dir]⟩ o
      | cons next jobs =>
        have first := reaches_handshake (reaches_ready (job :: next :: jobs))
        refine ⟨_, reaches_ahead (.inl rfl) first, fun acknowledged => ?_⟩
        exact absurd (acknowledged 1 (Nat.lt_succ_self 1)) (by simp [ahead])

/-- In every run over the requests each segment is passed only after it has been
    acknowledged, exactly if there is at most one segment in all, and it is a read. -/
theorem segments_acknowledged_iff (requests : List Request) :
    (∀ s, Reachable (jobsOf requests) s → Acknowledged s) ↔
      (jobsOf requests).length ≤ 1 ∧ ∀ job ∈ jobsOf requests, job.dir = .read := by
  constructor
  · intro acknowledged
    by_contra other
    obtain ⟨s, run, not⟩ := exists_not_acknowledged other
    exact not (acknowledged s run)
  · exact fun ⟨single, reads⟩ s run => acknowledged_of_single single reads run

/-- A read request of two segments: the second is passed with only the first acknowledged. -/
theorem second_segment_not_acknowledged :
    ∃ s, Reachable (jobsOf [⟨.read, 8, [⟨4096, 4096⟩, ⟨4096, 8192⟩]⟩]) s ∧
      s.passed = 2 ∧ s.acked = [0] :=
  ⟨_, reaches_ahead (.inl rfl) (reaches_handshake (reaches_ready _)), rfl, rfl⟩

end State

end Xdk.Shadow
