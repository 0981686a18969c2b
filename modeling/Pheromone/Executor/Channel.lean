import Pheromone.Executor.Library

/-!
# The channel of an executor

A running function asks its scheduler for one object after another, and waits for each
answer on the channel of its executor.  The scheduler answers in order, and the answers
arrive in order; an answer that comes too late for its call stays in the channel.  Between
two functions the loop of the executor reads the channel up to the next function call.
-/

namespace Pheromone.Executor

open Lib Common

/-- An answer of the scheduler.  Times are in milliseconds. -/
structure Answer where
  /-- The number of the call that it answers. -/
  call : Nat
  reqId : UInt8
  size : UInt32
  /-- The object came from another node. -/
  fromNode : Bool
  arrival : Nat
  deriving DecidableEq

/-- The size of an object from another node is written as one character. -/
def Answer.message (a : Answer) : Bytes :=
  [3, a.reqId, 1] ++ if a.fromNode then [a.size.toUInt8] else Bytes.toDecimal a.size.toNat

/-- A call of `get_object` and its answer. -/
structure GetCall where
  bucket : Bucket
  key : Key
  fromEpheStore : Bool
  /-- The time since the last call returned. -/
  idle : Nat
  /-- The time that the scheduler takes to answer. -/
  delay : Nat
  size : UInt32
  fromNode : Bool

structure Channel where
  lib : UserLibrary
  clock : Nat := 0
  calls : Nat := 0
  /-- The answers to earlier calls that were not read, in order. -/
  unread : List Answer := []
  lastArrival : Nat := 0

def recv (deadline : Nat) : List Answer → Option Answer × List Answer
  | [] => (none, [])
  | first :: rest => if first.arrival ≤ deadline then (some first, rest) else (none, first :: rest)

namespace Channel

variable (c : Channel) (call : GetCall)

def start : Nat := c.clock + call.idle

def deadline : Nat := c.start call + 30000

def requested : UserLibrary := (c.lib.getObject call.bucket call.key call.fromEpheStore).1

def answer : Answer where
  call := c.calls
  reqId := (c.requested call).rid
  size := call.size
  fromNode := call.fromNode
  arrival := max c.lastArrival (c.start call + call.delay)

def received : Option Answer × List Answer := recv (c.deadline call) (c.unread ++ [c.answer call])

/-- What the call returns: the size of the object, or a null pointer (`some none`) after a
timeout or an answer that is not to this request.  `none` is the exception of `stoi`. -/
def returned : Option (Option Nat) :=
  match (c.received call).1 with
  | none => some none
  | some answer => readGetResponse (c.requested call).rid answer.message

def next : Channel where
  lib := c.requested call
  clock :=
    match (c.received call).1 with
    | none => c.deadline call
    | some answer => max (c.start call) answer.arrival
  calls := c.calls + 1
  unread := (c.received call).2
  lastArrival := (c.answer call).arrival

/-- The loop of `run` up to the next function call, which comes `idle` after the last one
returned: it drops every message that is no function call. -/
def nextFunction (idle : Nat) : Channel where
  lib := c.lib
  clock := c.clock + idle
  calls := c.calls
  unread := c.unread.dropWhile fun answer => answer.arrival ≤ c.clock + idle
  lastArrival := c.lastArrival

end Channel

inductive ChannelEvent
  | get (call : GetCall)
  | nextFunction (idle : Nat)

/-- An exception ends the executor. -/
def channelStep (c : Channel) : ChannelEvent → Option Channel
  | .get call => (c.returned call).map fun _ => c.next call
  | .nextFunction idle => some (c.nextFunction idle)

end Pheromone.Executor
