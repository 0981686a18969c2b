import Pheromone.Scheduler.Comm

/-!
# The main loop of a scheduler

One event is one message that `run` takes from the executors or from
`try_recv_msg`, or one of its periodic passes.
-/

namespace Pheromone.Scheduler

open Lib Common

inductive NodeEvent
  | executor (now : Stamp) (message : Bytes)
  | call (now : Stamp) (msg : FunctionCall)
  | dataResp (now : Stamp) (key : Bytes) (size : UInt32)
  | kvsGetResp (key : Bytes) (size : UInt32)
  | kvsPutResp (key : Bytes)
  | update (now : Stamp) (msg : UpdateCoordMsg)
  | delayPass (clock : Nat → Stamp) (stamp : Stamp)
  | rerunCheck (now reportEnd : Stamp) (fuel : Nat)

def NodeEvent.IsUpdate : NodeEvent → Prop
  | .update _ _ => True
  | _ => False

def nodeStep {m : Type → Type} [ForwardMonad m] (env : SchedEnv) (s : SchedState) :
    NodeEvent → m SchedState
  | .executor now message => executorMessage env now message s
  | .call now msg => handleCall env now msg s
  | .dataResp now key size => dataResp env now key size s
  | .kvsGetResp key size => pure (kvsGetResp key size s)
  | .kvsPutResp key => pure (kvsPutResp key s)
  | .update now msg => noForward (handleUpdate now msg s)
  | .delayPass clock stamp => delayPass env clock stamp s
  | .rerunCheck now reportEnd fuel => rerunCheck env now reportEnd fuel s

end Pheromone.Scheduler
