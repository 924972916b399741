import Xdk.Nvme.LedgerProper

/-! # Ranges in flight

The identifiers a batch holds are taken when it is pushed and given back when its last
identifier is stored in `_last_available_cmdid`, one step after it left the ring.
`Ledger.ranges` lists the ranges held, oldest first: it grows at its end with a push,
loses its head when a batch is retired, and no other step changes it.
-/

namespace Xdk.Nvme

open Xdk.Lib

def Retirement.batch : Retirement → List BatchInfo
  | .leaving batch => [batch]
  | _ => []

namespace Ledger

def ranges (l : Ledger) : List (Nat × Nat) :=
  (l.thread.batch ++ l.batches).map BatchInfo.range

variable {l : Ledger}

theorem ranges_push {phase : Phase} {first final len : Nat} :
    ranges { l with
      batches := l.batches ++ [System.batchInfo first final len]
      phase := phase } = l.ranges ++ [(first, final)] := by
  simp [ranges, BatchInfo.range, System.batchInfo]

theorem ranges_thread {thread : Retirement} {pending : List Issued} (before : l.thread.batch = [])
    (after : thread.batch = []) :
    ranges { l with thread := thread, pending := pending } = l.ranges := by
  simp [ranges, before, after]

variable {batch : BatchInfo}

theorem ranges_count {issued : Issued} {before after : List BatchInfo} {inv : BatchInfo}
    (proper : l.Proper) (pc : l.thread = .received issued)
    (held : l.batches = before ++ batch :: after) (counts : batch.countUp = some inv) :
    ranges { l with
      batches := before ++ inv :: after
      thread := if inv.isComplete = true ∧ before = [] then .retiring else .quiet } =
        l.ranges := by
  have sameRange := ((proper.batches batch (by rw [held]; simp)).countUp counts).2.1
  have nothingLeaves : (if inv.isComplete = true ∧ before = [] then Retirement.retiring
      else .quiet).batch = [] := by
    split <;> rfl
  have nothingLeft : l.thread.batch = [] := by rw [pc]; rfl
  simp [ranges, nothingLeaves, nothingLeft, held, sameRange]

theorem ranges_pop {rest : List BatchInfo} (pc : l.thread = .retiring)
    (held : l.batches = batch :: rest) :
    ranges { l with batches := rest, thread := .leaving batch } = l.ranges := by
  simp [ranges, pc, held, Retirement.batch]

theorem ranges_retire (pc : l.thread = .leaving batch) :
    l.ranges = batch.range ::
      ranges { l with last := batch.endCmdid, thread := .retiring } := by
  simp [ranges, pc, Retirement.batch]

/-- Where the identifiers in flight end: at the youngest range, or at the last range
    retired when there is none. -/
def tip (l : Ledger) : Nat := (l.ranges.map Prod.snd).getLastD l.last

theorem tip_push {phase : Phase} {first final len : Nat} :
    tip { l with
      batches := l.batches ++ [System.batchInfo first final len]
      phase := phase } = final := by
  rw [tip, ranges_push]
  simp

theorem tip_retire (pc : l.thread = .leaving batch) :
    tip { l with last := batch.endCmdid, thread := .retiring } = l.tip := by
  simp only [tip, ranges_retire pc]
  simp only [BatchInfo.range, List.map_cons, List.getLastD_cons]

end Ledger

end Xdk.Nvme
