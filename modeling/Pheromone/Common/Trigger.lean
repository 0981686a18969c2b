import Pheromone.Common.Messages
import Pheromone.Lib.Containers

/-!
# Triggers

The trigger classes of `trigger.hpp`.  A trigger collects the objects that
arrive in its bucket and returns the actions that an arrival completes.  The
same classes run on the coordinator and on every scheduler.  Each class is a
structure with its own state; `Trigger` adds the fields of the base class and
dispatches on the class.
-/

namespace Pheromone.Common

open Lib

/-- Nanoseconds of the system clock. -/
abbrev TimePoint := Int

/-- `duration_cast` to milliseconds, which rounds towards zero. -/
def millisecondsOf (duration : Int) : Int := duration.tdiv 1000000

structure TriggerAction where
  function : Name
  sessionKeys : List (Session × Key)
  deriving DecidableEq, Repr

structure TriggerFunctionMetadata where
  funcName : Name
  funcArgs : List Bytes
  argFlag : Int
  deriving DecidableEq, Repr

structure RerunMetadata where
  sourceFunc : Name
  sourceKey : Key
  timeout : Nat
  deriving DecidableEq, Repr

/-- The conversion of an `unsigned` to an `int`. -/
def intOfUInt32 (n : UInt32) : Int :=
  if n.toNat < 2 ^ 31 then n.toNat else (n.toNat : Int) - 2 ^ 32

/-- The conversion of an `int` to an `unsigned`. -/
def uint32OfInt (z : Int) : UInt32 := UInt32.ofNat (z % 2 ^ 32).toNat

/-- The conversion of an `int` to a `size_t`, which a comparison with a size
performs. -/
def sizeOfInt (z : Int) : Nat := (z % 2 ^ 64).toNat

theorem sizeOfInt_natCast {n : Nat} (h : n < 2 ^ 31) : sizeOfInt n = n := by
  unfold sizeOfInt
  omega

/-! ## Re-execution records

`ImmediateTrigger`, `ByNameTrigger` and `ByBatchSizeTrigger` remember the last
source function of each session in the same way. -/

/-- `session_status_cache_` -/
abbrev StatusCache := Map Bytes TriggerFunctionMetadata

namespace StatusCache

def notifySourceFunc (cache : StatusCache) (funcName : Name) (sessionId : Session)
    (funcArgs : List Bytes) (argFlag : Int) : StatusCache :=
  Map.set cache sessionId { funcName, funcArgs, argFlag }

def actionForRerun (cache : StatusCache) (sessionId : Session) :
    List TriggerFunctionMetadata :=
  (cache sessionId).toList

end StatusCache

/-! ## Immediate -/

structure ImmediateTrigger where
  sessionStatusCache : StatusCache

def ImmediateTrigger.actionForNewObject (t : ImmediateTrigger) (targetFunction : Name)
    (bk : BucketKey) : ImmediateTrigger × List TriggerAction :=
  ({ t with sessionStatusCache := Map.erase t.sessionStatusCache bk.session },
    [{ function := targetFunction, sessionKeys := [(bk.session, bk.key)] }])

/-! ## By name -/

structure ByNameTrigger where
  keyName : Key
  sessionStatusCache : StatusCache

def ByNameTrigger.actionForNewObject (t : ByNameTrigger) (targetFunction : Name)
    (bk : BucketKey) : ByNameTrigger × List TriggerAction :=
  ({ t with sessionStatusCache := Map.erase t.sessionStatusCache bk.session },
    if bk.key = t.keyName then
      [{ function := targetFunction, sessionKeys := [(bk.session, bk.key)] }]
    else [])

/-! ## By batch size -/

structure ByBatchSizeTrigger where
  count : Int
  buffer : List (Session × Key)
  sessionStatusCache : StatusCache

namespace ByBatchSizeTrigger

def actionForNewObject (t : ByBatchSizeTrigger) (targetFunction : Name)
    (bk : BucketKey) : ByBatchSizeTrigger × List TriggerAction :=
  let buffer := t.buffer ++ [(bk.session, bk.key)]
  let sessionStatusCache := Map.erase t.sessionStatusCache bk.session
  if sizeOfInt t.count ≤ buffer.length then
    ({ t with buffer := [], sessionStatusCache },
      [{ function := targetFunction, sessionKeys := buffer }])
  else
    ({ t with buffer, sessionStatusCache }, [])

def clear (t : ByBatchSizeTrigger) : ByBatchSizeTrigger :=
  { t with buffer := [], sessionStatusCache := Map.empty }

end ByBatchSizeTrigger

/-! ## By set -/

structure BySetTrigger where
  keySet : USet Key
  sessionPreparedKeysMap : Map Session (Finset Key)
  funcKeyMap : UMap Name Key
  sessionStatusCache : StatusCache

namespace BySetTrigger

def actionForNewObject (t : BySetTrigger) (targetFunction : Name) (bk : BucketKey) :
    BySetTrigger × List TriggerAction :=
  if bk.key ∈ t.keySet then
    let prepared := insert bk.key (t.sessionPreparedKeysMap.getD bk.session ∅)
    let sessionStatusCache := Map.erase t.sessionStatusCache (bk.key ++ bk.session)
    if prepared.card = t.keySet.size then
      ({ t with
          sessionPreparedKeysMap := t.sessionPreparedKeysMap.erase bk.session
          sessionStatusCache },
        [{ function := targetFunction
           sessionKeys := t.keySet.elems.map fun key => (bk.session, key) }])
    else
      ({ t with
          sessionPreparedKeysMap := t.sessionPreparedKeysMap.set bk.session prepared
          sessionStatusCache }, [])
  else (t, [])

def notifySourceFunc (t : BySetTrigger) (funcName : Name) (sessionId : Session)
    (funcArgs : List Bytes) (argFlag : Int) : BySetTrigger :=
  if t.funcKeyMap.entries = [] then t
  else
    { t with
      funcKeyMap := t.funcKeyMap.touch funcName []
      sessionStatusCache := Map.set t.sessionStatusCache
        (t.funcKeyMap.getD funcName [] ++ sessionId) { funcName, funcArgs, argFlag } }

def actionForRerun (t : BySetTrigger) (sessionId : Session) :
    List TriggerFunctionMetadata :=
  if t.funcKeyMap.entries = [] then []
  else t.keySet.elems.filterMap fun key => t.sessionStatusCache (key ++ sessionId)

def setRerunMetadata (t : BySetTrigger) (rerunMetadata : List RerunMetadata) :
    BySetTrigger :=
  { t with
    funcKeyMap := rerunMetadata.foldl (fun m rerun => m.set rerun.sourceFunc rerun.sourceKey)
      t.funcKeyMap }

def clear (t : BySetTrigger) (session : Session) : BySetTrigger :=
  { t with
    sessionPreparedKeysMap := t.sessionPreparedKeysMap.erase session
    sessionStatusCache := Map.erase t.sessionStatusCache session }

end BySetTrigger

/-! ## Dynamic groups -/

/-- `':'` -/
def groupDelimiter : UInt8 := 58

def controlGroupPrefix : Bytes := Bytes.lit "ctrl"

structure DynamicGroupTrigger where
  dataGroupKeysMap : UMap Bytes (USet Key)
  controlGroup : USet Key
  curControlKeys : Finset Key

namespace DynamicGroupTrigger

def actionForNewObject (t : DynamicGroupTrigger) (targetFunction : Name) (bk : BucketKey) :
    DynamicGroupTrigger × List TriggerAction :=
  let group := bk.key.takeWhile (· ≠ groupDelimiter)
  if group = controlGroupPrefix then
    let curControlKeys :=
      if bk.key ∈ t.controlGroup then insert bk.key t.curControlKeys else t.curControlKeys
    if curControlKeys.card = t.controlGroup.size then
      ({ t with dataGroupKeysMap := UMap.empty, curControlKeys := ∅ },
        t.dataGroupKeysMap.entries.map fun groupKeys =>
          { function := targetFunction
            sessionKeys := groupKeys.2.elems.map fun key => (bk.session, key) })
    else ({ t with curControlKeys }, [])
  else
    ({ t with
        dataGroupKeysMap := t.dataGroupKeysMap.set group
          ((t.dataGroupKeysMap.getD group USet.empty).insert bk.key) }, [])

def clear (t : DynamicGroupTrigger) : DynamicGroupTrigger :=
  { t with dataGroupKeysMap := UMap.empty, curControlKeys := ∅ }

end DynamicGroupTrigger

/-! ## K out of N -/

structure RedundantTrigger where
  k : UInt32
  n : UInt32
  count : UInt32
  buffer : List (Session × Key)

namespace RedundantTrigger

def actionForNewObject (t : RedundantTrigger) (targetFunction : Name) (bk : BucketKey) :
    RedundantTrigger × List TriggerAction :=
  let count := t.count + 1
  if count ≤ t.k then
    let buffer := t.buffer ++ [(bk.session, bk.key)]
    if count = t.k then
      ({ t with count, buffer := [] }, [{ function := targetFunction, sessionKeys := buffer }])
    else ({ t with count, buffer }, [])
  else if t.n ≤ count then ({ t with count := 0 }, [])
  else ({ t with count }, [])

def clear (t : RedundantTrigger) : RedundantTrigger :=
  { t with count := t.count + t.k, buffer := [] }

end RedundantTrigger

/-! ## By time -/

structure ByTimeTrigger where
  timeWindow : UInt32
  buffer : List (Session × Key)
  lastTriggerStamp : TimePoint

namespace ByTimeTrigger

def actionForNewObject (t : ByTimeTrigger) (now : TimePoint) (targetFunction : Name)
    (bk : BucketKey) : ByTimeTrigger × List TriggerAction :=
  let buffer := t.buffer ++ [(bk.session, bk.key)]
  if (t.timeWindow.toNat : Int) ≤ millisecondsOf (now - t.lastTriggerStamp) then
    ({ t with buffer := [], lastTriggerStamp := now },
      [{ function := targetFunction, sessionKeys := buffer }])
  else ({ t with buffer }, [])

def clear (t : ByTimeTrigger) : ByTimeTrigger := { t with buffer := [] }

end ByTimeTrigger

/-! ## The base class -/

inductive TriggerState
  | immediate (t : ImmediateTrigger)
  | byName (t : ByNameTrigger)
  | byBatchSize (t : ByBatchSizeTrigger)
  | bySet (t : BySetTrigger)
  | dynamicGroup (t : DynamicGroupTrigger)
  | redundant (t : RedundantTrigger)
  | byTime (t : ByTimeTrigger)

structure Trigger where
  targetFunction : Name
  triggerName : Name
  /-- Trigger the function using the value (0), the key name and the value (1),
  or the key name only (2). -/
  triggerOption : Int
  state : TriggerState

namespace TriggerState

def type : TriggerState → PrimitiveType
  | .immediate _ => .immediate
  | .byName _ => .byName
  | .byBatchSize _ => .byBatchSize
  | .bySet _ => .bySet
  | .dynamicGroup _ => .dynamicGroup
  | .redundant _ => .redundant
  | .byTime _ => .byTime

def actionForNewObject (now : TimePoint) (targetFunction : Name) (bk : BucketKey) :
    TriggerState → TriggerState × List TriggerAction
  | .immediate t => (t.actionForNewObject targetFunction bk).map .immediate id
  | .byName t => (t.actionForNewObject targetFunction bk).map .byName id
  | .byBatchSize t => (t.actionForNewObject targetFunction bk).map .byBatchSize id
  | .bySet t => (t.actionForNewObject targetFunction bk).map .bySet id
  | .dynamicGroup t => (t.actionForNewObject targetFunction bk).map .dynamicGroup id
  | .redundant t => (t.actionForNewObject targetFunction bk).map .redundant id
  | .byTime t => (t.actionForNewObject now targetFunction bk).map .byTime id

def clear (session : Session) : TriggerState → TriggerState
  | .immediate t => .immediate t
  | .byName t => .byName t
  | .byBatchSize t => .byBatchSize t.clear
  | .bySet t => .bySet (t.clear session)
  | .dynamicGroup t => .dynamicGroup t.clear
  | .redundant t => .redundant t.clear
  | .byTime t => .byTime t.clear

def notifySourceFunc (funcName : Name) (sessionId : Session) (funcArgs : List Bytes)
    (argFlag : Int) : TriggerState → TriggerState
  | .immediate t => .immediate { t with
      sessionStatusCache :=
        t.sessionStatusCache.notifySourceFunc funcName sessionId funcArgs argFlag }
  | .byName t => .byName { t with
      sessionStatusCache :=
        t.sessionStatusCache.notifySourceFunc funcName sessionId funcArgs argFlag }
  | .byBatchSize t => .byBatchSize { t with
      sessionStatusCache :=
        t.sessionStatusCache.notifySourceFunc funcName sessionId funcArgs argFlag }
  | .bySet t => .bySet (t.notifySourceFunc funcName sessionId funcArgs argFlag)
  | .dynamicGroup t => .dynamicGroup t
  | .redundant t => .redundant t
  | .byTime t => .byTime t

def actionForRerun (sessionId : Session) : TriggerState → List TriggerFunctionMetadata
  | .immediate t => t.sessionStatusCache.actionForRerun sessionId
  | .byName t => t.sessionStatusCache.actionForRerun sessionId
  | .byBatchSize t => t.sessionStatusCache.actionForRerun sessionId
  | .bySet t => t.actionForRerun sessionId
  | .dynamicGroup _ | .redundant _ | .byTime _ => []

def setRerunMetadata (rerunMetadata : List RerunMetadata) : TriggerState → TriggerState
  | .bySet t => .bySet (t.setRerunMetadata rerunMetadata)
  | s => s

def dumpPrimitive (targetFunction : Name) : TriggerState → Primitive
  | .immediate _ => { function := targetFunction }
  | .byName t => { function := targetFunction, keyName := t.keyName }
  | .byBatchSize t => { function := targetFunction, count := uint32OfInt t.count }
  | .bySet t => { function := targetFunction, keySet := t.keySet.elems }
  | .dynamicGroup t => { function := targetFunction, controlGroup := t.controlGroup.elems }
  | .redundant t => { function := targetFunction, k := t.k, n := t.n }
  | .byTime t => { function := targetFunction, timeWindow := t.timeWindow }

end TriggerState

namespace Trigger

def type (t : Trigger) : PrimitiveType := t.state.type

def actionForNewObject (now : TimePoint) (bk : BucketKey) (t : Trigger) :
    Trigger × List TriggerAction :=
  let result := t.state.actionForNewObject now t.targetFunction bk
  ({ t with state := result.1 }, result.2)

def clear (session : Session) (t : Trigger) : Trigger :=
  { t with state := t.state.clear session }

def notifySourceFunc (funcName : Name) (sessionId : Session) (funcArgs : List Bytes)
    (argFlag : Int) (t : Trigger) : Trigger :=
  { t with state := t.state.notifySourceFunc funcName sessionId funcArgs argFlag }

def setRerunMetadata (rerunMetadata : List RerunMetadata) (t : Trigger) : Trigger :=
  { t with state := t.state.setRerunMetadata rerunMetadata }

def setTriggerOption (option : Int) (t : Trigger) : Trigger :=
  { t with triggerOption := option }

def dumpPrimitive (t : Trigger) : Primitive := t.state.dumpPrimitive t.targetFunction

@[simp] theorem clear_triggerName (session : Session) (t : Trigger) :
    (t.clear session).triggerName = t.triggerName := rfl

end Trigger

/-! ## Construction -/

namespace ImmediateTrigger

def new : ImmediateTrigger := { sessionStatusCache := Map.empty }

end ImmediateTrigger

namespace ByNameTrigger

def new (keyName : Key) : ByNameTrigger := { keyName, sessionStatusCache := Map.empty }

end ByNameTrigger

namespace ByBatchSizeTrigger

def new (count : Int) : ByBatchSizeTrigger :=
  { count, buffer := [], sessionStatusCache := Map.empty }

end ByBatchSizeTrigger

namespace BySetTrigger

def new (keySet : USet Key) : BySetTrigger :=
  { keySet, sessionPreparedKeysMap := Map.empty, funcKeyMap := UMap.empty
    sessionStatusCache := Map.empty }

end BySetTrigger

namespace DynamicGroupTrigger

def new (controlGroup : USet Key) : DynamicGroupTrigger :=
  { dataGroupKeysMap := UMap.empty, controlGroup, curControlKeys := ∅ }

end DynamicGroupTrigger

namespace RedundantTrigger

def new (k n : UInt32) : RedundantTrigger := { k, n, count := 0, buffer := [] }

end RedundantTrigger

namespace ByTimeTrigger

def new (timeWindow : UInt32) (now : TimePoint) : ByTimeTrigger :=
  { timeWindow, buffer := [], lastTriggerStamp := now }

end ByTimeTrigger

/-- The state of a new trigger of a given type; `none` for an unknown type, for
which the source returns a null pointer. -/
def newTriggerState (now : TimePoint) (type : PrimitiveType) (primitive : Primitive) :
    Option TriggerState :=
  match type with
  | .immediate => some (.immediate ImmediateTrigger.new)
  | .byName => some (.byName (ByNameTrigger.new primitive.keyName))
  | .byBatchSize => some (.byBatchSize (ByBatchSizeTrigger.new (intOfUInt32 primitive.count)))
  | .bySet => some (.bySet (BySetTrigger.new (USet.ofList primitive.keySet)))
  | .dynamicGroup =>
      some (.dynamicGroup (DynamicGroupTrigger.new (USet.ofList primitive.controlGroup)))
  | .redundant => some (.redundant (RedundantTrigger.new primitive.k primitive.n))
  | .byTime => some (.byTime (ByTimeTrigger.new primitive.timeWindow now))
  | .unrecognized _ => none

def genTriggerPointer (now : TimePoint) (type : PrimitiveType) (triggerName : Name)
    (primitive : Primitive) : Option Trigger :=
  (newTriggerState now type primitive).map fun state =>
    { targetFunction := primitive.function, triggerName, triggerOption := 0, state }

theorem genTriggerPointer_fields {now : TimePoint} {type : PrimitiveType} {name : Name}
    {primitive : Primitive} {t : Trigger}
    (h : genTriggerPointer now type name primitive = some t) :
    t.type = type ∧ t.triggerName = name := by
  obtain ⟨state, hstate, rfl⟩ := Option.map_eq_some_iff.mp h
  refine ⟨?_, rfl⟩
  cases type <;> cases hstate <;> rfl

theorem genTriggerPointer_isSome_iff (now : TimePoint) (type : PrimitiveType) (name : Name)
    (primitive : Primitive) :
    (genTriggerPointer now type name primitive).isSome ↔ ∀ n, type ≠ .unrecognized n := by
  cases type <;> simp [genTriggerPointer, newTriggerState]

/-! ## What a trigger was made with -/

structure TriggerSignature where
  triggerName : Name
  type : PrimitiveType
  primitive : Primitive
  triggerOption : Int
  deriving DecidableEq

namespace Trigger

def signature (t : Trigger) : TriggerSignature where
  triggerName := t.triggerName
  type := t.type
  primitive := t.dumpPrimitive
  triggerOption := t.triggerOption

theorem signature_clear (session : Session) (t : Trigger) :
    (t.clear session).signature = t.signature := by
  obtain ⟨target, name, option, state⟩ := t
  cases state <;> rfl

theorem signature_setRerunMetadata (rerunMetadata : List RerunMetadata) (t : Trigger) :
    (t.setRerunMetadata rerunMetadata).signature = t.signature := by
  obtain ⟨target, name, option, state⟩ := t
  cases state <;> rfl

end Trigger

theorem uint32OfInt_intOfUInt32 (n : UInt32) : uint32OfInt (intOfUInt32 n) = n := by
  have hlt : n.toNat < 2 ^ 32 := n.toNat_lt
  have hmod : (intOfUInt32 n % 2 ^ 32).toNat = n.toNat := by
    unfold intOfUInt32
    split <;> omega
  unfold uint32OfInt
  rw [hmod, UInt32.ofNat_toNat]

theorem genTriggerPointer_dumpPrimitive (now : TimePoint) (t : Trigger) :
    ∃ t', genTriggerPointer now t.type t.triggerName t.dumpPrimitive = some t' ∧
      (t'.setTriggerOption t.triggerOption).signature = t.signature := by
  obtain ⟨target, name, option, state⟩ := t
  cases state with
  | byBatchSize b =>
    refine ⟨_, rfl, ?_⟩
    simp only [Trigger.signature, Trigger.dumpPrimitive, TriggerState.dumpPrimitive,
      Trigger.setTriggerOption, ByBatchSizeTrigger.new, uint32OfInt_intOfUInt32]
    rfl
  | bySet b =>
    refine ⟨_, rfl, ?_⟩
    simp only [Trigger.signature, Trigger.dumpPrimitive, TriggerState.dumpPrimitive,
      Trigger.setTriggerOption, BySetTrigger.new, USet.ofList_elems]
    rfl
  | dynamicGroup d =>
    refine ⟨_, rfl, ?_⟩
    simp only [Trigger.signature, Trigger.dumpPrimitive, TriggerState.dumpPrimitive,
      Trigger.setTriggerOption, DynamicGroupTrigger.new, USet.ofList_elems]
    rfl
  | immediate _ | byName _ | redundant _ | byTime _ => exact ⟨_, rfl, rfl⟩

end Pheromone.Common
