import Pheromone.Common.Names
import Pheromone.Lib.Containers

/-!
# The manager

The loop of `manager.cpp`.  Coordinators make themselves known, and clients ask for the
coordinator of an application; the first time, the manager picks a random one.
-/

namespace Pheromone.Manager

open Lib Common

/-! ## Messages -/

structure CoordSync where
  publicIp : Address
  privateIp : Address
  threadId : UInt32
  deriving DecidableEq, Repr

structure CoordQuery where
  application : Name
  requestId : Bytes := []
  deriving DecidableEq, Repr

structure CoordResponse where
  coordIp : Address
  threadId : UInt32
  requestId : Bytes
  deriving DecidableEq, Repr

/-! ## State -/

structure CoordIp where
  publicIp : Address
  privateIp : Address
  threadId : UInt32
  deriving DecidableEq, Repr

/-- The configuration and the random numbers. -/
structure ManagerEnv where
  externalUser : Bool
  randR : RandR

structure ManagerState where
  appCoordMap : Map Name (Address × UInt32) := Map.empty
  coordIps : USet CoordIp := USet.empty
  seed : UInt32

/-! ## Handlers -/

def coordSync (msg : CoordSync) (m : ManagerState) : ManagerState :=
  { m with
    coordIps := m.coordIps.insert
      { publicIp := msg.publicIp, privateIp := msg.privateIp, threadId := msg.threadId } }

/-- `*(std::next(begin(coord_ips), rand_r(&seed) % coord_ips.size()))` and the seed
afterwards; `none` is the remainder by zero. -/
def pickCoord (env : ManagerEnv) (m : ManagerState) : Option (CoordIp × UInt32) :=
  let draw := env.randR m.seed
  if m.coordIps.size = 0 then none
  else m.coordIps.elems[draw.1 % m.coordIps.size]?.map fun coord => (coord, draw.2)

/-- The address of a coordinator thread that clients are told. -/
def ipToSend (env : ManagerEnv) (coord : CoordIp) : Address × UInt32 :=
  (if env.externalUser then coord.publicIp else coord.privateIp, coord.threadId)

/-- The assignment of an application, made at its first query. -/
def assignCoord (env : ManagerEnv) (appName : Name) (m : ManagerState) :
    Option (ManagerState × Address × UInt32) :=
  match m.appCoordMap appName with
  | some coord => some (m, coord)
  | none =>
      (pickCoord env m).map fun pick =>
        ({ m with
            appCoordMap := m.appCoordMap.set appName (ipToSend env pick.1)
            seed := pick.2 },
          ipToSend env pick.1)

def coordQuery (env : ManagerEnv) (query : CoordQuery) (m : ManagerState) :
    Option (ManagerState × CoordResponse) :=
  (assignCoord env query.application m).map fun result =>
    (result.1,
      { coordIp := result.2.1, threadId := result.2.2, requestId := query.requestId })

/-! ## The loop -/

inductive ManagerEvent
  | sync (msg : CoordSync)
  | query (query : CoordQuery)
  /-- The elements of `coord_ips` are in another order. -/
  | rehash (coords : USet CoordIp)

/-- A message that was handled, a query with its response. -/
inductive Handled
  | synced (msg : CoordSync)
  | answered (query : CoordQuery) (response : CoordResponse)
  deriving DecidableEq, Repr

structure ManagerLog where
  state : ManagerState
  handled : List Handled := []

def ManagerLog.new (seed : UInt32) : ManagerLog where
  state := { seed }

def managerStep (env : ManagerEnv) (m : ManagerLog) : ManagerEvent → Option ManagerLog
  | .sync msg =>
      some { state := coordSync msg m.state, handled := m.handled ++ [.synced msg] }
  | .query query =>
      (coordQuery env query m.state).map fun result =>
        { state := result.1, handled := m.handled ++ [.answered query result.2] }
  | .rehash coords =>
      some { m with
        state :=
          if coords.elems.Perm m.state.coordIps.elems then { m.state with coordIps := coords }
          else m.state }

end Pheromone.Manager
