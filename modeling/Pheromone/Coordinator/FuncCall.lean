import Pheromone.Coordinator.State

/-!
# Scheduling a call over the nodes

`func_call_handler`: a call with one request goes to the node with the most
available executors; a call with several requests goes to one node if one can
take it all, and is otherwise split over the nodes in a round-robin manner.
-/

namespace Pheromone.Coordinator

open Lib Common

def alphaNum : Bytes :=
  Bytes.lit "0123456789ABCDEFGHIJKLMNOPQRSTUVWXYZabcdefghijklmnopqrstuvwxyz"

/-- `gen_random`: `len` random letters and digits. -/
def genRandom (randR : RandR) : Nat → UInt32 → Bytes × UInt32
  | 0, seed => ([], seed)
  | len + 1, seed =>
      let draw := randR seed
      let rest := genRandom randR len draw.2
      (alphaNum.getD (draw.1 % alphaNum.length) 0 :: rest.1, rest.2)

/-- The call with its session: a call without one gets a fresh random session.
The second component is the seed afterwards. -/
def withSession (randR : RandR) (seed : UInt32) (call : FunctionCall) :
    FunctionCall × UInt32 :=
  if call.sessionId = [] then
    let session := genRandom randR 16 seed
    ({ call with sessionId := session.1 }, session.2)
  else (call, seed)

/-! ## Looking for nodes -/

def isSource (source ip : Address) : Bool := source ≠ [] && source = ip

/-- `max_executors` and `node_with_max_executors` -/
structure BestNode where
  maxExecutors : Int := 0
  node : Address := []
  deriving DecidableEq

def BestNode.visit (best : BestNode) (ip : Address) (avail : Int) : BestNode :=
  if best.maxExecutors < avail then { maxExecutors := avail, node := ip } else best

/-- What the batch scan has collected.  The sum is an `int` in the source.  A node reports at
most 256 free executors, as their ids are bytes, so it fits for less than 2^23 nodes. -/
structure NodeScan where
  totalExecutors : Int := 0
  availNodes : List (Address × Int) := []
  best : BestNode := {}
  deriving DecidableEq

def NodeScan.visit (source : Address) (scan : NodeScan) (entry : Address × NodeStatus) :
    NodeScan :=
  let avail := entry.2.availExecutors
  if isSource source entry.1 then scan
  else if 0 < avail then
    { totalExecutors := scan.totalExecutors + avail
      availNodes := scan.availNodes ++ [(entry.1, avail)]
      best := scan.best.visit entry.1 avail }
  else { scan with best := scan.best.visit entry.1 avail }

def scanNodes (source : Address) (entries : List (Address × NodeStatus)) : NodeScan :=
  entries.foldl (NodeScan.visit source) {}

def scanBest (source : Address) (entries : List (Address × NodeStatus)) : BestNode :=
  entries.foldl
    (fun best entry =>
      if isSource source entry.1 then best else best.visit entry.1 entry.2.availExecutors)
    {}

/-! ## Splitting a batch -/

/-- The inner `while`: the next node, from `idx` on, with a slot left.  One round
over the nodes visits them all, so `fuel` is their number. -/
def nextFree (avail : List (Address × Int)) : Nat → Nat → Option Nat
  | 0, _ => none
  | fuel + 1, idx =>
      match avail[idx]? with
      | none => none
      | some node =>
          if node.2 ≤ 0 then nextFree avail fuel ((idx + 1) % avail.length) else some idx

/-- `avail_nodes`, `node_loads` and `node_idx` -/
structure LoadState where
  avail : List (Address × Int)
  loads : List Nat
  idx : Nat

/-- Give one request to the next free node. -/
def LoadState.place (s : LoadState) : Option LoadState :=
  (nextFree s.avail s.avail.length s.idx).map fun i =>
    { avail := s.avail.modify i fun node => (node.1, node.2 - 1)
      loads := s.loads.modify i (· + 1)
      idx := (i + 1) % s.avail.length }

def loadLoop : Nat → LoadState → Option LoadState
  | 0, s => some s
  | reqNum + 1, s => s.place.bind (loadLoop reqNum)

/-- Cut the request list into runs: a run ends when it has as many requests as
the load of the current node. -/
def cutRequests (routedCall : FunctionCall) (loads : List Nat) (availNodes : List (Address × Int)) :
    List FunctionRequest → (nodeIndex curLoad : Nat) → List FunctionRequest →
      UMap Address FunctionCall → Option (UMap Address FunctionCall)
  | [], _, _, _, scheduled => some scheduled
  | req :: reqs, nodeIndex, curLoad, part, scheduled =>
      match loads[nodeIndex]?, availNodes[nodeIndex]? with
      | some load, some node =>
          if curLoad + 1 = load then
            cutRequests routedCall loads availNodes reqs (nodeIndex + 1) 0 []
              (scheduled.set node.1 { routedCall with requests := part ++ [req] })
          else
            cutRequests routedCall loads availNodes reqs nodeIndex (curLoad + 1)
              (part ++ [req]) scheduled
      | _, _ => none

/-- `scheduled_node_msg` for a call with several requests. -/
def scheduleBatch (nodes : UMap Address NodeStatus) (call : FunctionCall) :
    Option (UMap Address FunctionCall) :=
  let reqNum := call.requests.length
  let scan := scanNodes call.source nodes.entries
  if (reqNum : Int) ≤ scan.best.maxExecutors then
    some (UMap.empty.set scan.best.node call)
  else if (reqNum : Int) ≤ scan.totalExecutors then
    (loadLoop reqNum
      { avail := scan.availNodes
        loads := List.replicate scan.availNodes.length 0
        idx := 0 }).bind fun s =>
      -- the parts are built as new messages, field by field
      cutRequests
        { appName := call.appName, respAddress := call.respAddress, syncDataStatus := true }
        s.loads s.avail call.requests 0 0 [] UMap.empty
  else some UMap.empty

/-- `scheduled_node_msg` for a call with at most one request.  When no node has a
free executor any node is taken. -/
def scheduleSingle (randR : RandR) (seed : UInt32) (nodes : UMap Address NodeStatus)
    (call : FunctionCall) : UMap Address FunctionCall × UInt32 :=
  let best := scanBest call.source nodes.entries
  if 0 < best.maxExecutors then (UMap.empty.set best.node call, seed)
  else if 0 < nodes.entries.length then
    let draw := randR seed
    match nodes.entries[draw.1 % nodes.entries.length]? with
    | some entry => (UMap.empty.set entry.1 call, draw.2)
    | none => (UMap.empty, draw.2)
  else (UMap.empty, seed)

/-- Send each part to one of its node's io threads. -/
def sendScheduled (randR : RandR) (ioThreadNum : Nat) :
    UInt32 → List (Address × FunctionCall) → List CoordOut × UInt32
  | seed, [] => ([], seed)
  | seed, (node, msg) :: rest =>
      let draw := randR seed
      let tail := sendScheduled randR ioThreadNum draw.2 rest
      (.call (getFuncExecAddress node (draw.1 % ioThreadNum)) msg :: tail.1, tail.2)

def funcCallHandler (randR : RandR) (c : CoordState) (msg : FunctionCall) :
    Option (CoordState × List CoordOut) :=
  let session := withSession randR c.seed msg
  let call := session.1
  let scheduled : Option (UMap Address FunctionCall × UInt32) :=
    if 1 < call.requests.length then
      (scheduleBatch c.nodeStatusMap call).map fun m => (m, session.2)
    else some (scheduleSingle randR session.2 c.nodeStatusMap call)
  scheduled.map fun result =>
    if result.1.entries = [] then
      ({ c with seed := result.2 },
        if call.respAddress = [] then []
        else [.callResponse call.respAddress
          { appName := call.appName, requestId := call.requestId, errorNo := 1 }])
    else
      let sent := sendScheduled randR c.ioThreadNum result.2 result.1.entries
      ({ c with seed := sent.2 }, sent.1)

end Pheromone.Coordinator
