import Pheromone.Cluster.Registry
import Pheromone.Common.Firing
import Pheromone.Coordinator.Notify

/-!
# Triggers in a cluster

A coordinator and the schedulers of the nodes, all with triggers for the objects
of the same buckets.  An object that is put on a node is checked there and
notified to the coordinator; the coordinator checks it again and tells nodes to
clear the triggers it fired.  Notifications and updates wait in one FIFO channel
for each node and direction.
-/

namespace Pheromone.Cluster

open Lib Common Coordinator Scheduler

structure TriggerCluster where
  coord : CoordState
  nodes : Address → SchedState
  /-- The notifications of a node that the coordinator has not received yet,
  oldest first. -/
  notifies : Address → List KeyNotifyRequest
  /-- The updates that a node has not received yet, oldest first. -/
  updates : Address → List UpdateCoordMsg
  /-- Where each object was put, oldest first. -/
  puts : List (Address × BucketKey)
  /-- The objects that the coordinator was notified of. -/
  reported : List (Address × BucketKey)
  /-- The actions that a node or the coordinator really started. -/
  fired : List (Name × TriggerAction)

inductive TriggerEvent
  | put (ip : Address) (now : Stamp) (object : BucketKey) (respAddress : Address)
      (payload : Value)
  | notify (ip : Address) (now : TimePoint)
  | update (ip : Address) (now : Stamp)

def TriggerEvent.Meets (Q : BucketKey → Prop) : TriggerEvent → Prop
  | .put _ _ object _ _ => Q object
  | _ => True

theorem TriggerEvent.Meets.imp {P Q : BucketKey → Prop} (h : ∀ object, P object → Q object)
    {e : TriggerEvent} (he : e.Meets P) : e.Meets Q := by
  cases e with
  | put ip now object respAddress payload => exact h object he
  | notify ip now => trivial
  | update ip now => trivial

/-- `check_object_arrival`, and `notify_put` with the active triggers. -/
def checkAndNotify (env : SchedEnv) (now : Stamp) (object : BucketKey) (respAddress : Address)
    (payload : Value) (s : SchedState) : SchedState :=
  let result := checkObjectArrival now object s
  notifyPut env object result.2.1 respAddress payload result.1

def notifiesFor (coord : HandlerThread) (outs : List SchedOut) : List KeyNotifyRequest :=
  outs.filterMap fun out =>
    match out with
    | .notify address request =>
        if address = coord.notifyHandlerConnectAddress then some request else none
    | _ => none

def localFirings (outs : List SchedOut) : List (Name × TriggerAction) :=
  outs.filterMap fun out =>
    match out with
    | .fired name action => some (name, action)
    | _ => none

namespace TriggerCluster

def thread (k : TriggerCluster) : HandlerThread :=
  { ip := k.coord.privateIp, tid := k.coord.threadId }

def step (env : Address → SchedEnv) (randR : RandR) (k : TriggerCluster) :
    TriggerEvent → Option TriggerCluster
  | .put ip now object respAddress payload =>
      let s := checkAndNotify (env ip) now object respAddress payload (k.nodes ip)
      let outs := s.sent.drop (k.nodes ip).sent.length
      some { k with
        nodes := Function.update k.nodes ip s
        notifies := Function.update k.notifies ip (k.notifies ip ++ notifiesFor k.thread outs)
        puts := k.puts ++ [(ip, object)]
        fired := k.fired ++ localFirings outs }
  | .notify ip now =>
      match k.notifies ip with
      | [] => some k
      | request :: rest =>
          (notifyHandler randR now k.coord request).map fun result =>
            { k with
              coord := result.1
              notifies := Function.update k.notifies ip rest
              updates := fun ip' => k.updates ip' ++ updatesFor ip' result.2
              reported := k.reported ++
                request.addresses.map fun address => (ip, address.bucketKey)
              fired := k.fired ++ firedOf result.2 }
  | .update ip now =>
      match k.updates ip with
      | [] => some k
      | msg :: rest =>
          (handleUpdate now msg (k.nodes ip)).map fun s =>
            { k with
              nodes := Function.update k.nodes ip s
              updates := Function.update k.updates ip rest }

/-- The triggers `triggers` of a bucket, with distinct names, are on the
coordinator and on every node, and nothing has been put. -/
structure Installed (bucket : Bucket) (triggers : List Trigger) (k : TriggerCluster) : Prop where
  blank : ∀ t ∈ triggers, t.blank = t
  names : (triggers.map Trigger.triggerName).Nodup
  coord : (k.coord.triggersOf bucket).map Trigger.withoutReruns = triggers
  nodes : ∀ ip, ((k.nodes ip).triggersOf bucket).map Trigger.withoutReruns = triggers
  app : (k.coord.bucketAppMap bucket).isSome
  routes : ∀ ip, (k.nodes ip).bucketCoordMap bucket = some k.thread
  addresses : k.coord.bucketKeyAddressMap bucket = none
  notifies : ∀ ip, k.notifies ip = []
  updates : ∀ ip, k.updates ip = []
  puts : k.puts = []
  reported : k.reported = []
  fired : k.fired = []

def PutOnce (bucket : Bucket) (k : TriggerCluster) : TriggerEvent → Prop
  | .put _ _ object _ _ => object.bucket = bucket ∧ object ∉ k.puts.map Prod.snd
  | _ => True

def putsOf (es : List TriggerEvent) : List BucketKey :=
  es.filterMap fun e =>
    match e with
    | .put _ _ object _ _ => some object
    | _ => none

def Delivered (k : TriggerCluster) : Prop := ∀ ip, k.notifies ip = [] ∧ k.updates ip = []

end TriggerCluster

end Pheromone.Cluster
