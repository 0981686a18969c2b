import Pheromone.Cluster.Triggers
import Pheromone.Coordinator.Run
import Pheromone.Scheduler.Store

/-!
# A coordinator and its nodes

All the messages of a coordinator and of the schedulers of its nodes.  What they send
each other about buckets, notifications of objects and updates, is received in the
order in which it was sent, for each node and direction; everything else arrives at any
time.
-/

namespace Pheromone.Cluster

open Lib Common Coordinator Scheduler

structure BucketCluster where
  coord : CoordState
  nodes : Address → SchedState
  /-- The notifications that the coordinator has not received yet, each with the node
  that sent it, oldest first. -/
  notifies : List (Address × KeyNotifyRequest)
  /-- The updates that have not been received yet, each with the address it was sent to,
  oldest first. -/
  updates : List (Address × UpdateCoordMsg)

inductive BucketEvent
  /-- A message to the coordinator that is not the notification of a node. -/
  | coord (e : CoordEvent) (other : ¬ e.IsNotify)
  | notify (ip : Address) (now : TimePoint)
  /-- An event on a node that is not an update of the coordinator. -/
  | node (ip : Address) (e : NodeEvent) (other : ¬ e.IsUpdate)
  | update (ip : Address) (now : Stamp)

def updatesOf (outs : List CoordOut) : List (Address × UpdateCoordMsg) :=
  outs.filterMap fun out =>
    match out with
    | .update address msg => some (address, msg)
    | _ => none

namespace BucketCluster

def start (coord : CoordState) (nodes : Address → SchedState) : BucketCluster where
  coord := coord
  nodes := nodes
  notifies := []
  updates := []

def thread (k : BucketCluster) : HandlerThread :=
  { ip := k.coord.privateIp, tid := k.coord.threadId }

def handled (k : BucketCluster) (result : CoordState × List CoordOut) : BucketCluster :=
  { k with
    coord := result.1
    updates := k.updates ++ updatesOf result.2 }

def step (env : Address → SchedEnv) (randR : RandR) (k : BucketCluster) :
    BucketEvent → Option BucketCluster
  | .coord e _ => (handleMessage randR k.coord e).map k.handled
  | .notify ip now =>
      match k.notifies.find? fun sent => sent.1 = ip with
      | none => some k
      | some sent =>
          (notifyHandler randR now k.coord sent.2).map
            { k with notifies := k.notifies.eraseP fun sent => sent.1 = ip }.handled
  | .node ip e _ =>
      (nodeStep (env ip) (k.nodes ip) e).map fun s =>
        { k with
          nodes := Function.update k.nodes ip s
          notifies := k.notifies ++
            (notifiesFor k.thread ((k.nodes ip).sentSince s)).map fun request => (ip, request) }
  | .update ip now =>
      match k.updates.find? fun sent => sent.1 = triggerUpdateAddress ip with
      | none => some k
      | some sent =>
          (handleUpdate now sent.2 (k.nodes ip)).map fun s =>
            { k with
              nodes := Function.update k.nodes ip s
              updates := k.updates.eraseP fun sent => sent.1 = triggerUpdateAddress ip }

def Delivered (k : BucketCluster) : Prop := k.notifies = [] ∧ k.updates = []

instance (k : BucketCluster) : Decidable k.Delivered :=
  inferInstanceAs (Decidable (k.notifies = [] ∧ k.updates = []))

def received (k : BucketCluster) : BucketEvent → Option CoordEvent
  | .coord e _ => some e
  | .notify ip now => (k.notifies.find? fun sent => sent.1 = ip).map fun sent => .notify now sent.2
  | _ => none

end BucketCluster

end Pheromone.Cluster
