import Pheromone.Scheduler.Objects

/-!
# What a function can send

The call an executor reads from the message of its scheduler, and the user
library of the running function: objects are named after the session of the call,
and sent to the scheduler in one message each.
-/

namespace Pheromone.Executor

open Lib Common

structure EpheObject where
  objName : Bytes
  value : Value
  targetFunc : Name := []

structure UserLibrary where
  ipNumber : Bytes
  chanId : UInt8
  rid : UInt8 := 0
  objectId : UInt32 := 0
  function : Name := []
  sessionId : Session := []
  persistFlag : UInt8 := 0

namespace UserLibrary

def new (ip : Address) (threadId : Nat) : UserLibrary where
  ipNumber := ip.filter (· ≠ 46)
  chanId := (threadId + 1).toUInt8

/-- Set up the library for the call in a message; `none` when the message is not
a call, or has no session or no function. -/
def start (message : Bytes) (lib : UserLibrary) : Option UserLibrary :=
  match message with
  | 1 :: _ :: persist :: rest =>
      match Bytes.split kDelimiterChar (Bytes.cstr rest) with
      | sessionId :: function :: _ => some { lib with sessionId, function, persistFlag := persist }
      | _ => none
  | _ => none

def getObjectId (lib : UserLibrary) : UserLibrary × UInt32 :=
  ({ lib with objectId := lib.objectId + 1 }, lib.objectId)

def getRequestId (lib : UserLibrary) : UserLibrary :=
  let rid := lib.rid + 1
  { lib with rid := if rid % 100 = 0 then 0 else rid }

def createObject (bucket : Bucket) (key : Key) (value : Value) (lib : UserLibrary) :
    EpheObject where
  objName := getLocalObjectName bucket key lib.sessionId
  value := value

/-- An object for direct invocations, with a name of its own. -/
def createDirect (value : Value) (lib : UserLibrary) : UserLibrary × EpheObject :=
  let id := lib.getObjectId
  (id.1, id.1.createObject bucketNameDirectInvoc
    (Bytes.toDecimal lib.chanId.toNat ++ Bytes.lit "_" ++ Bytes.toDecimal id.2.toNat) value)

/-- An object for a target function, as a source of a many-to-one dependency. -/
def createForTarget (targetFunction : Name) (value : Value) (lib : UserLibrary) :
    EpheObject where
  objName := getLocalObjectName (Bytes.lit "b_" ++ targetFunction)
    (Bytes.lit "k_" ++ lib.function) lib.sessionId
  value := value
  targetFunc := targetFunction

def genUniqueKey (lib : UserLibrary) : UserLibrary × Key :=
  let id := lib.getObjectId
  (id.1, lib.ipNumber ++ Bytes.lit "_" ++ Bytes.toDecimal lib.chanId.toNat ++ Bytes.lit "_" ++
    Bytes.toDecimal id.2.toNat)

/-- An object for a target function under a unique key. -/
def createUnique (targetFunction : Name) (value : Value) (lib : UserLibrary) :
    UserLibrary × EpheObject :=
  let key := lib.genUniqueKey
  (key.1, key.1.createObject (Bytes.lit "b_" ++ targetFunction) key.2 value)

/-- The body of an object in a message: its value, or its size when it is large. -/
def packBody (value : Value) : UInt8 × Bytes :=
  if value.length ≤ msgDataPackingThreshold then (1, value)
  else (2, Bytes.toDecimal value.length)

/-- `send_object`: ephemeral data is type 2, an output is written to the remote
store with type 3 or sent to the client with type 4. -/
def sendObject (data : EpheObject) (output : Bool) (lib : UserLibrary) : UserLibrary × Bytes :=
  let lib := lib.getRequestId
  let type : UInt8 := if output then (if lib.persistFlag = 1 then 3 else 4) else 2
  let body := packBody data.value
  (lib, [lib.chanId, type, lib.rid, body.1] ++ lib.sessionId ++ kDelimiter ++ lib.function ++
    kDelimiter ++ data.targetFunc ++ kDelimiter ++ data.objName ++ kDelimiter ++ body.2)

/-- `get_object`: the request for an object, from the ephemeral store or the remote
one.  The length of its name travels in one byte. -/
def getObject (bucket : Bucket) (key : Key) (fromEpheStore : Bool) (lib : UserLibrary) :
    UserLibrary × Bytes :=
  let objName :=
    if fromEpheStore then getLocalObjectName bucket key lib.sessionId
    else kvsKeyPrefix ++ kDelimiter ++ key
  let lib := lib.getRequestId
  (lib, [lib.chanId, 1, if fromEpheStore then 1 else 2, lib.rid, objName.length.toUInt8] ++
    objName)

end UserLibrary

/-- What `get_object` makes of a response: the size of the object, or a null pointer
(`some none`) when the response is not a successful one to this request.  `none` is
the exception of `stoi`. -/
def readGetResponse (reqId : UInt8) : Bytes → Option (Option Nat)
  | type :: id :: success :: size =>
      if type ≠ 3 ∨ id ≠ reqId ∨ success ≠ 1 then some none
      else (Bytes.stoi (Bytes.cstr size)).map fun size => some (sizeOfInt size)
  | _ => some none

end Pheromone.Executor
