import Pheromone.Kvs.Client

/-!
# A scheduler with its clients of the remote store

Each io thread has a client, and a queue of the requests that `run` leaves to it.  The calls
that `run` makes itself, as thread 0, are requests of its queue that are taken at once.
-/

namespace Pheromone.Kvs

open Lib Common Scheduler

structure IoThread where
  queue : List SchedOut := []
  client : KvsClient
  responses : List ServerResponse := []

namespace IoThread

/-- `get_kvs_async_base` and `put_kvs_async_base`. -/
def takeRequest (env : KvsEnv) (now : TimePoint) (timestamp : UInt64) (client : KvsClient) :
    SchedOut → Option KvsClient
  | .getKvs key _ => client.getAsync env now key
  | .putKvs key value _ => client.putAsync env now key timestamp value
  | _ => none

def take (env : KvsEnv) (now : TimePoint) (timestamp : UInt64) (t : IoThread) : Option IoThread :=
  match t.queue with
  | [] => none
  | request :: rest => (takeRequest env now timestamp t.client request).map fun client =>
      { t with queue := rest, client }

def receive (env : KvsEnv) (clock : KvsClient.Readings) (addresses : Option KeyAddressResponse)
    (response : Option ServerResponse) (t : IoThread) : Option IoThread :=
  (t.client.receiveAsync env clock addresses response).map fun (client, responses) =>
    { t with client, responses := t.responses ++ responses }

/-- One iteration of `get_kvs_responses`, with the messages for `run`. -/
def passOn (env : KvsEnv) (now : TimePoint) (thread : Nat) (t : IoThread) :
    Option (IoThread × List NodeEvent) :=
  match t.responses with
  | [] => none
  | response :: rest =>
      (getKvsResponse thread response.toKeyResponse).bind fun result =>
        (result.1.foldlM (fun client r => KvsClient.getAsync env now r.key client) t.client).map
          fun client => ({ t with client, responses := rest }, result.2)

end IoThread

structure KvsNode where
  node : SchedState
  threads : Nat → IoThread
  inbox : List NodeEvent := []
  waiting : List StoreWait := []

namespace KvsNode

def start (s : SchedState) (seeds : Nat → UInt32) : KvsNode where
  node := s
  threads := fun thread => { client := { seed := seeds thread } }

def handle (env : SchedEnv) (n : KvsNode) (e : NodeEvent) : Option KvsNode :=
  (nodeStep env n.node e : Option SchedState).map fun s =>
    { n with
      node := s
      threads := fun thread => { n.threads thread with
        queue := (n.threads thread).queue ++ (n.node.sentSince s).filter fun out =>
          (storeRequestOf out).any fun r => r.thread = thread }
      waiting := (n.waiting ++ (storeWaitOf e).toList).filter fun w => decide (w.Recorded s) }

def setThread (n : KvsNode) (thread : Nat) (t : IoThread) : KvsNode :=
  { n with threads := Function.update n.threads thread t }

end KvsNode

inductive KvsEvent
  | message (e : NodeEvent)
  | take (thread : Nat) (now : TimePoint) (timestamp : UInt64)
  | receive (thread : Nat) (clock : KvsClient.Readings) (addresses : Option KeyAddressResponse)
      (response : Option ServerResponse)
  | passOn (thread : Nat) (now : TimePoint)
  | process (i : Nat)

def kvsStep (env : SchedEnv) (kvs : Nat → KvsEnv) (n : KvsNode) : KvsEvent → Option KvsNode
  | .message e => if (responseTo e).isSome then none else n.handle env e
  | .take thread now timestamp =>
      ((n.threads thread).take (kvs thread) now timestamp).map (n.setThread thread)
  | .receive thread clock addresses response =>
      ((n.threads thread).receive (kvs thread) clock addresses response).map (n.setThread thread)
  | .passOn thread now =>
      ((n.threads thread).passOn (kvs thread) now thread).map fun (t, messages) =>
        { n.setThread thread t with inbox := n.inbox ++ messages }
  | .process i =>
      (n.inbox[i]?).bind fun e => KvsNode.handle env { n with inbox := n.inbox.eraseIdx i } e

end Pheromone.Kvs
