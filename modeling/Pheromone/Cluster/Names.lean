import Pheromone.Executor.Library
import Pheromone.Lib.Transition

/-!
# The names that executors generate

All executors of a cluster, each with the user library it was started with.  A
library numbers its keys and its objects for direct invocations with one counter.
-/

namespace Pheromone.Cluster

open Lib Common Executor

structure Ipv4 where
  a : UInt8
  b : UInt8
  c : UInt8
  d : UInt8
  deriving DecidableEq

namespace Ipv4

def dotted (ip : Ipv4) : Address :=
  Bytes.toDecimal ip.a.toNat ++ Bytes.lit "." ++ Bytes.toDecimal ip.b.toNat ++ Bytes.lit "." ++
    Bytes.toDecimal ip.c.toNat ++ Bytes.lit "." ++ Bytes.toDecimal ip.d.toNat

def digits (ip : Ipv4) : Bytes :=
  Bytes.toDecimal ip.a.toNat ++ Bytes.toDecimal ip.b.toNat ++ Bytes.toDecimal ip.c.toNat ++
    Bytes.toDecimal ip.d.toNat

end Ipv4

structure ExecutorAt where
  ip : Ipv4
  threadId : Fin 255
  deriving DecidableEq

inductive NamingEvent
  /-- The executor reads a call. -/
  | call (executor : ExecutorAt) (message : Bytes)
  | genUniqueKey (executor : ExecutorAt)
  /-- `create_object(target_function, false)` -/
  | createUnique (executor : ExecutorAt) (targetFunction : Name) (value : Value)
  /-- `create_object(size)` -/
  | createDirect (executor : ExecutorAt) (value : Value)

/-- A key or an object name, with the executor that generated it, the number it had for
it and the session it was working for. -/
structure Generated where
  executor : ExecutorAt
  number : UInt32
  session : Session
  name : Bytes

structure NamingState where
  libs : ExecutorAt → UserLibrary
  /-- What `gen_unique_key` returned so far. -/
  keys : List Generated := []
  /-- The objects that `create_object(size)` returned so far. -/
  objects : List Generated := []

namespace NamingState

def initial : NamingState where
  libs := fun x => UserLibrary.new x.ip.dotted x.threadId

def addKey (x : ExecutorAt) (lib : UserLibrary) (key : Key) (s : NamingState) : NamingState :=
  { s with
    libs := Function.update s.libs x lib
    keys := s.keys ++ [{ executor := x, number := (s.libs x).objectId
                         session := (s.libs x).sessionId, name := key }] }

def addObject (x : ExecutorAt) (lib : UserLibrary) (object : EpheObject) (s : NamingState) :
    NamingState :=
  { s with
    libs := Function.update s.libs x lib
    objects := s.objects ++ [{ executor := x, number := (s.libs x).objectId
                               session := (s.libs x).sessionId, name := object.objName }] }

def step (s : NamingState) : NamingEvent → Option NamingState
  | .call x message =>
      ((s.libs x).start message).map fun lib =>
        { s with libs := Function.update s.libs x lib }
  | .genUniqueKey x =>
      let key := (s.libs x).genUniqueKey
      some (s.addKey x key.1 key.2)
  | .createUnique x targetFunction value =>
      let object := (s.libs x).createUnique targetFunction value
      some (s.addKey x object.1 (s.libs x).genUniqueKey.2)
  | .createDirect x value =>
      let object := (s.libs x).createDirect value
      some (s.addObject x object.1 object.2)

/-- No key was returned twice, and no two objects of one session have one name. -/
def UniqueNames (s : NamingState) : Prop :=
  (s.keys.map (·.name)).Nodup ∧ (s.objects.map fun g => (g.session, g.name)).Nodup

/-- No executor that is told apart neither by its thread nor by the digits of its
address, or for objects by its thread alone, had the number that comes next. -/
def OwnNumber (s : NamingState) : NamingEvent → Prop
  | .call .. => True
  | .genUniqueKey x | .createUnique x .. =>
      ∀ g ∈ s.keys, g.executor ≠ x → g.number = (s.libs x).objectId →
        g.executor.threadId = x.threadId → g.executor.ip.digits ≠ x.ip.digits
  | .createDirect x _ =>
      ∀ g ∈ s.objects, g.executor ≠ x → g.session = (s.libs x).sessionId →
        g.number = (s.libs x).objectId → g.executor.threadId ≠ x.threadId

end NamingState

def NamingEvent.generator : NamingEvent → Option ExecutorAt
  | .call .. => none
  | .genUniqueKey x | .createUnique x .. | .createDirect x _ => some x

def generatedBy (x : ExecutorAt) (es : List NamingEvent) : Nat :=
  es.countP fun e => e.generator = some x

end Pheromone.Cluster
