import Xdk.Shadow.Acknowledgement

/-! # The commands that the server is given

The server should be given one command for each segment, in order, with the place and the
buffer of that segment.  There is one `pending_command` for all of them, so this asks for
two things.  What the kernel thread stores for a segment must be the whole command; for a
write it stores only the operation and leaves the rest as it was.  And a command must have
been copied before the next one is issued; since the acknowledgement flag is never
cleared, this is only sure for the first read.

As long as both hold, what was delivered, what is issued and not yet copied, and what is
still to be issued make up the sequence of contents that the kernel thread stores, at
every moment.
-/

namespace Xdk.Shadow

open Xdk.Lib

def stored (pending : ShadowProtocol) : List Job → List ShadowProtocol
  | [] => []
  | job :: jobs => job.store pending :: stored (job.store pending) jobs

theorem length_stored (pending : ShadowProtocol) (jobs : List Job) :
    (stored pending jobs).length = jobs.length := by
  induction jobs generalizing pending with
  | nil => rfl
  | cons job jobs ih => simp [stored, ih]

/-- No command is issued before the one before it has been acknowledged: there are at
    most two, and the first is a read. -/
def Spaced : List Job → Prop
  | [] | [_] => True
  | [first, _] => first.dir = .read
  | _ => False

variable {jobs : List Job}

theorem Spaced.read {job : Job} (spaced : Spaced (job :: jobs)) (more : jobs ≠ []) :
    job.dir = .read := by
  match jobs with
  | [_] => exact spaced

theorem Spaced.tail {job : Job} (spaced : Spaced (job :: jobs)) :
    Spaced jobs := by
  match jobs with
  | [] | [_] => trivial

theorem Spaced.length_le (spaced : Spaced jobs) : jobs.length ≤ 2 := by
  match jobs with
  | [] | [_] | [_, _] => simp

def Undisturbed : List Job → Prop
  | [] => True
  | [first] => first.dir = .read ∨ (first.offset = 0 ∧ first.sectors = 0 ∧ first.physAddr = 0)
  | [first, second] => first.dir = .read ∧
      (second.dir = .read ∨ (second.offset = first.offset ∧ second.sectors = first.sectors ∧
        second.physAddr = first.physAddr))
  | _ => False

theorem Job.store_eq_protocol_iff (pending : ShadowProtocol) (job : Job) :
    job.store pending = job.protocol ↔ job.dir = .read ∨
      (job.offset = pending.offset ∧ job.sectors = pending.sectors ∧
        job.physAddr = pending.physAddr) := by
  cases dir : job.dir <;>
    simp [Job.store, Job.protocol, Direction.command, dir, eq_comm]

theorem undisturbed_iff (jobs : List Job) :
    Undisturbed jobs ↔ Spaced jobs ∧ stored .zero jobs = jobs.map Job.protocol := by
  match jobs with
  | [] => simp [Undisturbed, Spaced, stored]
  | [first] =>
    simp [Undisturbed, Spaced, stored, Job.store_eq_protocol_iff, ShadowProtocol.zero]
  | [first, second] =>
    cases dir : first.dir with
    | write => simp [Undisturbed, Spaced, dir]
    | read =>
      have whole : first.store .zero = first.protocol :=
        (first.store_eq_protocol_iff _).mpr (.inl dir)
      simp only [stored, whole, List.map_cons, List.map_nil,
        List.cons.injEq, and_true, true_and, Job.store_eq_protocol_iff]
      rfl
  | _ :: _ :: _ :: _ => simp [Undisturbed, Spaced]

namespace State

/-- The server is given the commands in order, and none is lost: when no command waits to
    be copied, it has been given as many as were issued. -/
structure Delivered (commands : List ShadowProtocol) (s : State) : Prop where
  inOrder : s.delivered <+: commands
  none_lost : s.requestQueueFlag = 0 → s.server ≠ .copying → s.delivered.length = s.issued

/-! ## Jobs that are spaced -/

def outstanding (s : State) : List ShadowProtocol :=
  if s.requestQueueFlag ≠ 0 ∨ s.server = .copying then [s.pendingCommand] else []

def toIssue (s : State) : List ShadowProtocol :=
  match s.jobs with
  | [] => []
  | job :: jobs =>
    if s.kernel.raised = 0 then
      job.complete s.kernel s.pendingCommand :: stored (job.complete s.kernel s.pendingCommand) jobs
    else stored s.pendingCommand jobs

structure Exchange (contents : List ShadowProtocol) (s : State) : Prop where
  inOrder : s.delivered ++ s.outstanding ++ s.toIssue = contents
  issued : s.issued = s.delivered.length + s.outstanding.length
  -- nothing is outstanding while the next command is prepared
  calm : s.jobs ≠ [] → s.kernel.raised = 0 → s.outstanding = []
  acked : 2 ≤ s.jobs.length → s.ackQueueFlag ≠ 0 ∨ s.server = .holding → s.delivered ≠ []
  spaced : Spaced s.jobs
  clearing : s.server = .clearing → s.requestQueueFlag ≠ 0
  copying : s.server = .copying → s.requestQueueFlag = 0

variable {s : State}

theorem toIssue_command (kernel : s.kernel = .command) :
    s.toIssue = stored s.pendingCommand s.jobs := by
  simp only [toIssue, kernel]
  cases s.jobs <;> rfl

theorem outstanding_eq_nil (none : s.outstanding = []) :
    s.requestQueueFlag = 0 ∧ s.server ≠ .copying := by
  simp only [outstanding] at none
  split_ifs at none with not
  exact ⟨by_contra fun flag => not (.inl flag), fun copying => not (.inr copying)⟩

variable {contents : List ShadowProtocol} {count : Nat} {jobs : List Job}

theorem Exchange.performed {s' : State} {job : Job} (few : count ≤ 2) (inv : Counted count s)
    (exchange : Exchange contents s) (cur : s.jobs = job :: jobs)
    (performed : Performed s job jobs s') : Exchange contents s' := by
  obtain ⟨inOrder, issued, calm, acked, spaced, clearing, copying⟩ := exchange
  have some : s.jobs ≠ [] := by simp [cur]
  cases performed with
  | prepare pending kernel before after complete =>
    have none := calm some before
    obtain ⟨flag, notCopying⟩ := outstanding_eq_nil none
    have none' : outstanding { s with pendingCommand := pending, kernel := kernel } = [] := by
      simp [outstanding, flag, notCopying]
    refine ⟨?_, ?_, fun _ _ => none', acked, spaced, clearing, copying⟩
    · rw [none] at inOrder
      rw [none', ← inOrder]
      simp only [toIssue, cur, before, after, complete, if_true]
    · rw [none', issued, none]
  | raise kernel =>
    have none := calm some (by rw [kernel]; rfl)
    obtain ⟨flag, notCopying⟩ := outstanding_eq_nil none
    refine ⟨?_, ?_, fun _ prepares => ?_, acked, spaced, fun _ => Nat.one_ne_zero,
      fun copies => absurd copies notCopying⟩
    · rw [none] at inOrder
      rw [← inOrder]
      simp [outstanding, toIssue, cur, kernel, KernelPc.raised, Job.complete]
    · rw [issued, none]
      simp [outstanding]
    · cases prepares
  | wake kernel before after write =>
    have copies : s.server.woken = .copying ↔ s.server = .copying := ServerPc.woken_eq_iff rfl
    have same : outstanding { s with server := s.server.woken, kernel := kernel } =
        s.outstanding := by
      simp only [outstanding, copies]
    refine ⟨?_, ?_, fun _ before => ?_, fun more => ?_, spaced, fun clears => ?_,
      copying ∘ copies.mp⟩
    · rw [same, ← inOrder]
      simp only [toIssue, before, after]
      rfl
    · rw [same, issued]
    · rw [after] at before
      cases before
    · rw [ServerPc.woken_eq_iff rfl]
      exact acked more
    · exact clearing ((ServerPc.woken_eq_iff rfl).mp clears)
  | selfAck kernel =>
    refine ⟨?_, issued, fun _ prepares => ?_, fun more => ?_, spaced, clearing, copying⟩
    · rw [← inOrder]
      simp only [toIssue, kernel]
      rfl
    · cases prepares
    · have write := inv.selfAck kernel job jobs cur
      rw [cur] at spaced more
      have read := spaced.read (List.ne_nil_of_length_pos (Nat.le_of_succ_le_succ more))
      cases read.symm.trans write
  | pass kernel flag =>
    have total := inv.total
    have one : s.issued = s.passed + 1 := by
      rw [inv.issued, kernel]
      rfl
    rw [cur, List.length_cons] at total
    refine ⟨?_, issued, fun more _ => ?_, fun more => ?_, ?_, clearing, copying⟩
    · rw [toIssue_command rfl, ← inOrder]
      simp only [toIssue, cur, kernel]
      rfl
    · have another : 0 < jobs.length := List.length_pos_of_ne_nil more
      have delivered : 0 < s.delivered.length :=
        List.length_pos_of_ne_nil (acked (by rw [cur, List.length_cons]; omega) (.inl flag))
      show s.outstanding = []
      exact List.eq_nil_of_length_eq_zero (by omega)
    · dsimp only at more
      omega
    · rw [cur] at spaced
      exact spaced.tail

/-- A step of the server that neither takes nor adds a command. -/
theorem Exchange.move {contents : List ShadowProtocol} {s : State} {server : ServerPc}
    {requestQueueFlag ackQueueFlag : Nat} {acked : List Nat} (exchange : Exchange contents s)
    (same : outstanding { s with
        requestQueueFlag := requestQueueFlag, ackQueueFlag := ackQueueFlag, acked := acked,
        server := server } = s.outstanding)
    (read : 2 ≤ s.jobs.length → ackQueueFlag ≠ 0 ∨ server = .holding → s.delivered ≠ [])
    (clearing : server = .clearing → requestQueueFlag ≠ 0)
    (copying : server = .copying → requestQueueFlag = 0) :
    Exchange contents { s with
      requestQueueFlag := requestQueueFlag, ackQueueFlag := ackQueueFlag, acked := acked,
      server := server } := by
  refine ⟨?_, ?_, fun some prepares => ?_, read, exchange.spaced, clearing, copying⟩
  · rw [same, ← exchange.inOrder]
    rfl
  · rw [same, exchange.issued]
  · rw [same]
    exact exchange.calm some prepares

theorem Exchange.served {s' : State} (exchange : Exchange contents s) (served : Served s s') :
    Exchange contents s' := by
  cases served with
  | move server before after =>
    have notCopying : s.server ≠ .copying := ServerPc.ne_of_busy before rfl
    have notCopying' : server ≠ .copying := ServerPc.ne_of_busy after rfl
    have notHolding : server ≠ .holding := ServerPc.ne_of_busy after rfl
    refine exchange.move ?_ (fun more flag => ?_) ?_ ?_
    · simp [outstanding, notCopying, notCopying']
    · exact exchange.acked more (.inl (flag.resolve_right notHolding))
    · exact fun clears => absurd clears (ServerPc.ne_of_busy after rfl)
    · exact fun copies => absurd copies notCopying'
  | found free flag =>
    refine exchange.move ?_ (fun more set => ?_) (fun _ => flag) nofun
    · simp [outstanding, flag]
    · exact exchange.acked more (.inl (set.resolve_right nofun))
  | clear server =>
    refine exchange.move ?_ (fun more set => ?_) nofun (fun _ => rfl)
    · simp [outstanding, exchange.clearing server]
    · exact exchange.acked more (.inl (set.resolve_right nofun))
  | copy server =>
    have before : s.outstanding = [s.pendingCommand] := by simp [outstanding, server]
    have after : outstanding { s with
        delivered := s.delivered ++ [s.pendingCommand]
        seen := s.seen ++ [s.issued - 1]
        server := .holding } = [] := by
      simp [outstanding, exchange.copying server]
    refine ⟨?_, ?_, fun _ _ => after, fun _ _ => by simp, exchange.spaced, nofun, nofun⟩
    · rw [after, ← exchange.inOrder, before, List.append_nil]
      rfl
    · rw [after, exchange.issued, before]
      simp
  | acknowledge server =>
    refine exchange.move ?_ (fun more _ => exchange.acked more (.inr server)) nofun nofun
    simp [outstanding, server]

theorem Delivered.of_undisturbed (undisturbed : Undisturbed jobs) (run : Reachable jobs s) :
    Delivered (jobs.map Job.protocol) s := by
  obtain ⟨spaced, contents⟩ := (undisturbed_iff jobs).mp undisturbed
  have few : jobs.length ≤ 2 := spaced.length_le
  have exchange : Exchange (stored .zero jobs) s := by
    refine run.induct ⟨?_, rfl, fun _ _ => rfl, ?_, spaced, nofun, nofun⟩ ?_ ?_
    · exact toIssue_command rfl
    · exact fun _ set => absurd set (by simp [init])
    · exact fun inv exchange cur performed =>
        exchange.performed few inv cur performed
    · exact fun _ exchange served => exchange.served served
  refine ⟨?_, fun flag notCopying => ?_⟩
  · rw [← contents, ← exchange.inOrder, List.append_assoc]
    exact List.prefix_append _ _
  · rw [exchange.issued]
    simp [outstanding, flag, notCopying]

/-! ## Other jobs -/

/-- If each command is acknowledged in time, the server is given what was stored. -/
theorem exists_delivered_stored {start : State} {jobs : List Job} {pending : ShadowProtocol}
    {ackQueueFlag c : Nat} {delivered : List ShadowProtocol} {seen acked : List Nat}
    (run : Reaches step (fun _ _ => True) start
      (ready jobs pending ackQueueFlag c delivered seen acked)) :
    ∃ s, Reaches step (fun _ _ => True) start s ∧
      s.delivered = delivered ++ stored pending jobs := by
  induction jobs generalizing pending ackQueueFlag c delivered seen acked with
  | nil => exact ⟨_, run, (List.append_nil _).symm⟩
  | cons job jobs ih =>
    obtain ⟨s, run', same⟩ := ih (reaches_handshake run)
    exact ⟨s, run', by rw [same, List.append_assoc]; rfl⟩

/-- Two commands are issued before the server looks at the flag, and it is given only the
    second. -/
theorem exists_lost {start : State} {a b : Job} {jobs : List Job}
    {pending : ShadowProtocol} {ackQueueFlag c : Nat} {delivered : List ShadowProtocol}
    {seen acked : List Nat} (passes : ackQueueFlag = 1 ∨ a.dir = .write)
    (run : Reaches step (fun _ _ => True) start
      (ready (a :: b :: jobs) pending ackQueueFlag c delivered seen acked)) :
    ∃ s, Reaches step (fun _ _ => True) start s ∧ s.requestQueueFlag = 0 ∧
      s.server = .holding ∧ s.delivered.length = delivered.length + 1 ∧
      s.issued = c + 2 := by
  have executed : ∃ s ∈ execute step (fun _ _ => True)
      ([.server] ++ issueEvents b.dir ++ List.replicate 3 .server)
      (ahead (b :: jobs) (a.store pending) (c + 1) delivered seen acked),
      s.requestQueueFlag = 0 ∧ s.server = .holding ∧
        s.delivered.length = delivered.length + 1 ∧ s.issued = c + 2 := by
    obtain ⟨dir, offset, sectors, physAddr⟩ := b
    cases dir <;> exact ⟨_, rfl, rfl, rfl, List.length_append, rfl⟩
  obtain ⟨s, rest, facts⟩ := exists_reaches_of_execute executed
  exact ⟨s, (reaches_ahead passes run).trans rest, facts⟩

theorem spaced_of_delivered {commands : List ShadowProtocol}
    (delivered : ∀ s, Reachable jobs s → Delivered commands s) : Spaced jobs := by
  match jobs with
  | [] | [_] => trivial
  | first :: second :: rest =>
    cases dir : first.dir with
    | write =>
      obtain ⟨s, run, flag, server, len, issued⟩ :=
        exists_lost (.inr dir) (reaches_ready (first :: second :: rest))
      have equal := (delivered s run).none_lost flag (by simp [server])
      simp [len, issued] at equal
    | read =>
      match rest with
      | [] => exact dir
      | third :: rest =>
        obtain ⟨s, run, flag, server, len, issued⟩ :=
          exists_lost (.inl rfl)
            (reaches_handshake (reaches_ready (first :: second :: third :: rest)))
        have equal := (delivered s run).none_lost flag (by simp [server])
        simp [len, issued] at equal

/-- In every run over the requests the server is given the commands for the segments, each
    once and in order, exactly if the jobs are undisturbed. -/
theorem commands_delivered_iff (requests : List Request) :
    (∀ s, Reachable (jobsOf requests) s → Delivered (requests.flatMap Request.commands) s) ↔
      Undisturbed (jobsOf requests) := by
  rw [← jobsOf_protocol]
  constructor
  · intro delivered
    rw [undisturbed_iff]
    refine ⟨spaced_of_delivered delivered, ?_⟩
    obtain ⟨s, run, same⟩ := exists_delivered_stored (reaches_ready (jobsOf requests))
    have inOrder := (delivered s run).inOrder
    rw [same] at inOrder
    exact inOrder.eq_of_length (by simp [length_stored])
  · exact fun undisturbed s run => Delivered.of_undisturbed undisturbed run

/-- A request to write the eight sectors from sector 8 on: the command does not say so. -/
theorem write_command_without_place :
    ∃ s, Reachable (jobsOf [⟨.write, 8, [⟨4096, 4096⟩]⟩]) s ∧
      s.delivered = [⟨protocolCmdWrite, 0, 0, 0⟩] ∧
      Request.commands ⟨.write, 8, [⟨4096, 4096⟩]⟩ = [⟨protocolCmdWrite, 8, 8, 4096⟩] :=
  ⟨_, reaches_handshake (reaches_ready _), rfl, rfl⟩

end State

end Xdk.Shadow
