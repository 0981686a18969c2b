import Pheromone.Lib.PriorityQueue
import Pheromone.Scheduler.Comm

/-!
# The rerun loop on a priority queue

`rerunCheck` keeps the rerun queue in a list and reads the clock once.  Here the queue is
any priority queue, `std::priority_queue` among them, and every call that the loop
schedules has its own reading of the clock.  The field `rerunCheckQueue` of the state
holds what one iteration pushes.
-/

namespace Pheromone.Scheduler

open Lib Common

/-- `rerunItem` with `clock n` as the time of the `n`-th call. -/
def rerunItemAt (env : SchedEnv) (clock : Nat → Stamp) (item : RerunCheckQueueItem)
    (s : SchedState) : Option SchedState :=
  match s.bucketTriggersMap.objects[item.triggerPtr]? with
  | none => some s
  | some trigger =>
      (trigger.state.actionForRerun item.session).zipIdx.foldlM
        (fun s metadata => submit env (clock metadata.2) none
          (rerunCall item.session metadata.1 s) s) s

def rerunBody (env : SchedEnv) (clock : Nat → Nat → Stamp) (n : Nat) (item : RerunCheckQueueItem)
    (s : SchedState) : Option (SchedState × List RerunCheckQueueItem) :=
  (rerunItemAt env (clock n) item { s with rerunCheckQueue := [] }).map fun s =>
    (s, s.rerunCheckQueue)

/-- The loop of `run` on the queue `q`. -/
def rerunLoop (env : SchedEnv) (P : PriorityQueue RerunCheckQueueItem.checkTime)
    (clock : Nat → Nat → Stamp) (reportEnd : Stamp) (fuel : Nat) (q : P.Carrier)
    (s : SchedState) : Option (P.Drained SchedState) :=
  P.drain (rerunBody env clock) reportEnd fuel 0 q s

end Pheromone.Scheduler
