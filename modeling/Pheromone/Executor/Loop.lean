import Pheromone.Scheduler.Dispatch

/-!
# The main loop of an executor

An executor takes a call from its channel, reports that it is busy, runs the
function and reports that it is available.  Whenever the report period has
elapsed it reports again that it is available.  The reports travel to the
scheduler in order.
-/

namespace Pheromone.Executor

open Common Scheduler

inductive Report
  /-- Message type 6. -/
  | busy
  /-- Message type 7. -/
  | available
  deriving DecidableEq, Repr

structure ExecutorState where
  /-- The calls in the channel from the scheduler. -/
  inbox : List SchedCall := []
  /-- The call that is being run. -/
  running : Option SchedCall := none
  /-- The reports in the channel to the scheduler. -/
  reports : List Report := []
  finished : Nat := 0

namespace ExecutorState

def receive (e : ExecutorState) : Option ExecutorState :=
  match e.running, e.inbox with
  | none, call :: rest =>
      some { e with inbox := rest, running := some call, reports := e.reports ++ [.busy] }
  | _, _ => none

def finish (e : ExecutorState) : Option ExecutorState :=
  match e.running with
  | some _ =>
      some { e with
        running := none
        reports := e.reports ++ [.available]
        finished := e.finished + 1 }
  | none => none

def report (e : ExecutorState) : Option ExecutorState :=
  match e.running with
  | none => some { e with reports := e.reports ++ [.available] }
  | some _ => none

def unfinished (e : ExecutorState) : Nat := e.inbox.length + e.running.toList.length

end ExecutorState

end Pheromone.Executor
