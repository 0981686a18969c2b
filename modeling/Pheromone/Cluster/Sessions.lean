import Pheromone.Coordinator.Registry
import Pheromone.Coordinator.Proofs.SessionIdentity
import Pheromone.Executor.Proofs.Messages
import Pheromone.Scheduler.Proofs.CallRuns
import Pheromone.Scheduler.Proofs.Sessions

/-!
# Sessions in a cluster

A coordinator, the schedulers of its nodes and their executors.  A message can be
delivered at any time after it was sent.
-/

namespace Pheromone.Cluster

open Lib Common Coordinator Scheduler Executor

structure SessionCluster where
  coord : CoordState
  /-- Everything the coordinator has sent. -/
  coordSent : List CoordOut
  nodes : Address → SchedState
  /-- The sessions of the client calls so far, and where the clients wait. -/
  sessions : SessionLog

inductive SessionEvent
  /-- A client call arrives at the coordinator. -/
  | client (call : FunctionCall)
  /-- Output `i` of a node, a forwarded call, arrives at the coordinator. -/
  | forwarded (ip : Address) (i : Nat)
  /-- Output `i` of a node, a notification, arrives at the coordinator. -/
  | notified (now : TimePoint) (ip : Address) (i : Nat)
  | status (msg : UpdateStatusMessage)
  | register (now : TimePoint) (registration : AppRegistration)
  | triggerOp (now : TimePoint) (request : TriggerOperationRequest)
  | bucketOp (request : BucketOperationRequest)
  /-- Output `i` of the coordinator, a call, arrives at its node. -/
  | call (now : Stamp) (ip : Address) (i : Nat)
  /-- The function started by output `i` of a node sends an object. -/
  | object (now : Stamp) (ip : Address) (i : Nat) (lib : UserLibrary) (bucket : Bucket)
      (key : Key) (value : Value) (target : Name) (output : Bool)
  /-- Any other message of a node. -/
  | inner (ip : Address) (e : NodeEvent)

def isInner : NodeEvent → Bool
  | .call _ _ => false
  | .executor _ (_ :: type :: _) => ¬ (2 ≤ type ∧ type ≤ 4)
  | _ => true

namespace SessionCluster

def setCoord (c : SessionCluster) (result : CoordState × List CoordOut) : SessionCluster :=
  { c with coord := result.1, coordSent := c.coordSent ++ result.2 }

def setNode (c : SessionCluster) (ip : Address) (s : SchedState) : SessionCluster :=
  { c with nodes := Function.update c.nodes ip s }

/-- The session a call has after `func_call_handler` looked at it. -/
def sessionOf (randR : RandR) (c : SessionCluster) (call : FunctionCall) : Session :=
  (withSession randR c.coord.seed call).1.sessionId

def step (randR : RandR) (envs : Address → SchedEnv) (c : SessionCluster) :
    SessionEvent → Option SessionCluster
  | .client call =>
      (funcCallHandler randR c.coord call).map fun result =>
        { c.setCoord result with
          sessions := c.sessions ++ [(c.sessionOf randR call, call.respAddress)] }
  | .forwarded ip i =>
      match (c.nodes ip).sent[i]? with
      | some (.forward _ _ msg) => (funcCallHandler randR c.coord msg).map c.setCoord
      | _ => none
  | .notified now ip i =>
      match (c.nodes ip).sent[i]? with
      | some (.notify _ request) => (notifyHandler randR now c.coord request).map c.setCoord
      | _ => none
  | .status msg => some { c with coord := updateStatus c.coord msg }
  | .register now registration => (appRegisterHandler now c.coord registration).map c.setCoord
  | .triggerOp now request => (triggerOpHandler now c.coord request).map c.setCoord
  | .bucketOp request => some (c.setCoord (bucketOpHandler c.coord request))
  | .call now ip i =>
      match c.coordSent[i]? with
      | some (.call address msg) =>
          if (List.range c.coord.ioThreadNum).any fun io => address = getFuncExecAddress ip io then
            (handleCall (envs ip) now msg (c.nodes ip)).map (c.setNode ip)
          else none
      | _ => none
  | .object now ip i lib bucket key value target output =>
      match (c.nodes ip).sent[i]? with
      | some (.toExecutor _ _ message) =>
          (lib.start message).bind fun lib =>
            let object : EpheObject :=
              { objName := getLocalObjectName bucket key lib.sessionId
                value
                targetFunc := target }
            (nodeStep (envs ip) (c.nodes ip)
              (.executor now (lib.sendObject object output).2)).map (c.setNode ip)
      | _ => none
  | .inner ip e =>
      if isInner e then (nodeStep (envs ip) (c.nodes ip) e).map (c.setNode ip) else none

structure Initial (c : SessionCluster) : Prop where
  coordSent : c.coordSent = []
  sessions : c.sessions = []
  noCalls : ∀ ip, (c.nodes ip).NoCalls
  addr : ∀ ip session, (c.nodes ip).sessionClientAddrMap session = none
  delayed : ∀ ip, (c.nodes ip).delayCallQueue = []
  rerun : ∀ ip, (c.nodes ip).rerunCheckQueue = []

/-- No call is split, sessions are new and can be fields of messages, and so can
the names of objects. -/
def SessionsKept (randR : RandR) (c : SessionCluster) : SessionEvent → Prop
  | .client call =>
      ¬ Splits c.coord call ∧ (c.sessionOf randR call).length = 16 ∧
        Plain (c.sessionOf randR call) ∧ ∀ entry ∈ c.sessions, entry.1 ≠ c.sessionOf randR call
  | .forwarded ip i => ∀ calls address msg,
      (c.nodes ip).sent[i]? = some (.forward calls address msg) → ¬ Splits c.coord msg
  | .object _ _ _ _ bucket key _ target _ => Plain bucket ∧ Plain key ∧ key ≠ [] ∧ Plain target
  | _ => True

end SessionCluster

end Pheromone.Cluster
