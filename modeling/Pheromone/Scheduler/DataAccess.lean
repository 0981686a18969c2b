import Pheromone.Scheduler.State

/-!
# Data access between nodes

The io threads of a scheduler and the two messages in which an object moves from one
node to another: `send_data_req_base` asks for it, `handle_data_request` answers on the
node that has it, and `handle_data_response` takes the answer.
-/

namespace Pheromone.Scheduler

open Lib Common

/-! ## IO threads -/

/-- The io threads that `main` starts besides the main one. -/
def startedIoThreads (env : SchedEnv) : List Nat := List.range' 1 (env.ioThreadCount - 1)

/-- The size of `secondary_thread_msg_queues`: one queue for each started thread. -/
def secondaryQueueNum (env : SchedEnv) : Nat := (startedIoThreads env).length

def dataServerPort (tid : Nat) : Nat := tid + dataAccessServerPort

/-- The ports bound for data requests, by the constructor of `CommHelper` for the main
thread and by `run_io_thread_loop` for the others. -/
def boundDataServerPorts (env : SchedEnv) : List Nat :=
  (0 :: startedIoThreads env).map dataServerPort

/-- A data request to this address is received by an io thread of the node. -/
def ServedAddress (env : SchedEnv) (address : Address) : Prop :=
  ∃ port ∈ boundDataServerPorts env, address = tcpAddress env.ip port

def ioThreadIds (env : SchedEnv) : List Bool → SchedState → List Nat
  | [], _ => []
  | exclude :: calls, s =>
      let result := s.getIoThreadId env exclude
      result.2 :: ioThreadIds env calls result.1

def dataServerAddrs (env : SchedEnv) : List Bool → SchedState → List Address
  | [], _ => []
  | exclude :: calls, s =>
      let result := s.getDataServerAddr env exclude
      result.2 :: dataServerAddrs env calls result.1

/-! ## Requests -/

/-- Where the io thread `tid` waits for the answers to its data requests. -/
def dataClientAddress (ip : Address) (tid : Nat) : Address :=
  tcpAddress ip (tid + dataAccessClientPort)

/-- The request for the object `key`: its name behind a length byte, then the address for
the answer. -/
def dataRequest (ip : Address) (tid : Nat) (key : Bytes) : Bytes :=
  Bytes.withLength key (dataClientAddress ip tid)

/-- `send_data_req_base`: where the request is sent to, and the request.  Nothing is sent
when no address is known for the object. -/
def sendDataReqBase (ip : Address) (tid : Nat) (keyAddressCache : Map Bytes Address)
    (key : Bytes) : Option (Address × Bytes) :=
  let dataAddress := keyAddressCache.getD key []
  if dataAddress = [] then none else some (dataAddress, dataRequest ip tid key)

/-! ## Answers -/

/-- What `get_func_` returns for an object: its bytes and their number, an `unsigned`.
There are no bytes for an unknown object. -/
structure DataBlock where
  bytes : Bytes
  size_lt : bytes.length < 2 ^ 32

/-- The name and the response address that `handle_data_request` reads.  `none` is a read
past the end of the message. -/
def parseDataRequest (message : Bytes) : Option (Bytes × Address) := Bytes.readField message

/-- `handle_data_request`: where the answer is sent to, and the answer, when there is data.
`msg_len` is an `unsigned`; when it wraps around, the data is copied past the end of the
answer. -/
def handleDataRequest (getFunc : Bytes → DataBlock) (message : Bytes) :
    Option (Option (Address × Bytes)) :=
  (parseDataRequest message).bind fun request =>
    let data := (getFunc request.1).bytes
    if data = [] then some none
    else if request.1.length + data.length + 1 < 2 ^ 32 then
      some (some (request.2, Bytes.withLength request.1 data))
    else none

/-- What `handle_data_response` tells `run` and copies to shared memory. -/
structure DataResponse where
  dataKey : Bytes
  dataSize : UInt32
  copied : Bytes
  deriving DecidableEq

def handleDataResponse (message : Bytes) : Option DataResponse :=
  (Bytes.readField message).map fun response =>
    let dataSize := UInt32.ofNat response.2.length
    { dataKey := response.1
      dataSize
      copied := response.2.take dataSize.toNat }

end Pheromone.Scheduler
