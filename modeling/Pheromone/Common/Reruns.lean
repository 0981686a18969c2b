import Pheromone.Common.Trigger

/-!
# What triggers remember of their source functions

`notify_source_func` records the last call of a source function, and
`action_for_rerun` returns what was recorded.
-/

namespace Pheromone.Common

open Lib

namespace TriggerState

def statusCache : TriggerState → StatusCache
  | .immediate t => t.sessionStatusCache
  | .byName t => t.sessionStatusCache
  | .byBatchSize t => t.sessionStatusCache
  | .bySet t => t.sessionStatusCache
  | .dynamicGroup _ | .redundant _ | .byTime _ => Map.empty

/-- Every record of the trigger meets `Q`. -/
def Remembers (Q : TriggerFunctionMetadata → Prop) (state : TriggerState) : Prop :=
  Map.All Q state.statusCache

variable {Q : TriggerFunctionMetadata → Prop} {state : TriggerState}

theorem remembers_new {now : TimePoint} {type : PrimitiveType} {primitive : Primitive}
    (h : newTriggerState now type primitive = some state) : state.Remembers Q := by
  cases type <;> cases h <;> exact Map.all_empty Q

theorem Remembers.actionForNewObject (h : state.Remembers Q) (now : TimePoint) (target : Name)
    (bk : BucketKey) : (state.actionForNewObject now target bk).1.Remembers Q := by
  cases state with
  | immediate t | byName t => exact Map.All.erase h _
  | byBatchSize t =>
    simp only [TriggerState.actionForNewObject, ByBatchSizeTrigger.actionForNewObject]
    split <;> exact Map.All.erase h _
  | bySet t =>
    simp only [TriggerState.actionForNewObject, BySetTrigger.actionForNewObject]
    split
    · split <;> exact Map.All.erase h _
    · exact h
  | dynamicGroup t | redundant t | byTime t => exact Map.all_empty Q

theorem Remembers.clear (h : state.Remembers Q) (session : Session) :
    (state.clear session).Remembers Q := by
  cases state with
  | immediate t | byName t => exact h
  | bySet t => exact Map.All.erase h _
  | byBatchSize t | dynamicGroup t | redundant t | byTime t => exact Map.all_empty Q

theorem Remembers.notifySourceFunc (h : state.Remembers Q) {funcName : Name}
    (sessionId : Session) {funcArgs : List Bytes} {argFlag : Int}
    (hnew : Q { funcName, funcArgs, argFlag }) :
    (state.notifySourceFunc funcName sessionId funcArgs argFlag).Remembers Q := by
  cases state with
  | immediate t | byName t | byBatchSize t => exact Map.All.set h _ hnew
  | bySet t =>
    simp only [TriggerState.notifySourceFunc, BySetTrigger.notifySourceFunc]
    split
    · exact h
    · exact Map.All.set h _ hnew
  | dynamicGroup t | redundant t | byTime t => exact h

theorem Remembers.setRerunMetadata (h : state.Remembers Q) (rerunMetadata : List RerunMetadata) :
    (state.setRerunMetadata rerunMetadata).Remembers Q := by
  cases state <;> exact h

theorem Remembers.actionForRerun (h : state.Remembers Q) (sessionId : Session) :
    ∀ metadata ∈ state.actionForRerun sessionId, Q metadata := by
  intro metadata hmem
  cases state with
  | immediate t | byName t | byBatchSize t => exact h _ _ (Option.mem_toList.mp hmem)
  | bySet t =>
    simp only [TriggerState.actionForRerun, BySetTrigger.actionForRerun] at hmem
    split at hmem
    · cases hmem
    · obtain ⟨key, _, hkey⟩ := List.mem_filterMap.mp hmem
      exact h _ _ hkey
  | dynamicGroup t | redundant t | byTime t => cases hmem

end TriggerState

end Pheromone.Common
