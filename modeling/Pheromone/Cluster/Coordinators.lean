import Pheromone.Cluster.Registry
import Pheromone.Coordinator.Run
import Pheromone.Scheduler.Run

/-!
# Several coordinators

The threads of the coordinators and the schedulers of the nodes.  A scheduler gets the
updates of every thread that has its node in `node_status_map`, the updates of one thread
in the order in which they were sent.
-/

namespace Pheromone.Cluster

open Lib Common Coordinator Scheduler

structure SentUpdate where
  msg : UpdateCoordMsg
  /-- The trigger operation that sent it, when the operation had no effect. -/
  rejected : Option TriggerOperationRequest
  deriving DecidableEq

structure CoordsCluster where
  /-- The coordinator threads, numbered. -/
  coords : Nat → CoordState
  nodes : Address → SchedState
  /-- The updates of a thread that a node has not received yet, oldest first. -/
  channels : Nat → Address → List SentUpdate

inductive CoordsEvent
  /-- A message to a coordinator thread. -/
  | coord (thread : Nat) (e : CoordEvent)
  /-- An event on a node that is not an update of a coordinator. -/
  | node (ip : Address) (e : NodeEvent) (other : ¬ e.IsUpdate)
  | deliver (thread : Nat) (ip : Address) (now : Stamp)

def rejectedBy (c : CoordState) : CoordEvent → Option TriggerOperationRequest
  | .triggerOp _ request => if hasEffect c request then none else some request
  | _ => none

namespace CoordsCluster

def start (coords : Nat → CoordState) (nodes : Address → SchedState) : CoordsCluster where
  coords := coords
  nodes := nodes
  channels := fun _ _ => []

def handlerThread (k : CoordsCluster) (thread : Nat) : HandlerThread :=
  { ip := (k.coords thread).privateIp, tid := (k.coords thread).threadId }

def handled (k : CoordsCluster) (thread : Nat) (rejected : Option TriggerOperationRequest)
    (result : CoordState × List CoordOut) : CoordsCluster :=
  { k with
    coords := Function.update k.coords thread result.1
    channels := Function.update k.channels thread fun ip =>
      k.channels thread ip ++
        (updatesFor ip result.2).map fun msg => { msg, rejected } }

def step (env : Address → SchedEnv) (randR : RandR) (k : CoordsCluster) :
    CoordsEvent → Option CoordsCluster
  | .coord thread e =>
      (handleMessage randR (k.coords thread) e).map
        (k.handled thread (rejectedBy (k.coords thread) e))
  | .node ip e _ =>
      (nodeStep (env ip) (k.nodes ip) e).map fun s =>
        { k with nodes := Function.update k.nodes ip s }
  | .deliver thread ip now =>
      match k.channels thread ip with
      | [] => some k
      | sent :: rest =>
          (handleUpdate now sent.msg (k.nodes ip)).map fun s =>
            { k with
              nodes := Function.update k.nodes ip s
              channels := Function.update k.channels thread
                (Function.update (k.channels thread) ip rest) }

end CoordsCluster

end Pheromone.Cluster
