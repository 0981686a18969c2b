import Pheromone.Common.Firing
import Pheromone.Scheduler.Proofs.Effects

/-!
# The trigger check of an object

What `check_object_arrival` does, in terms of the triggers of the bucket: each of
them sees the object once, and those that return actions are the active ones.
-/

namespace Pheromone.Scheduler

open Lib Common

def SchedOut.ofFiring (firing : Name × TriggerAction) : SchedOut := .fired firing.1 firing.2

/-! ## Lengths read with `operator[]` -/

theorem touch_keeps {m : Map Bytes Nat} (name : Bytes) {key : Bytes} {size : Nat}
    (h : m key = some size) : m.touch name 0 key = some size := by
  by_cases hk : key = name
  · subst hk
    rw [Map.touch_of_some 0 h]
    exact h
  · rw [Map.touch_of_ne m 0 hk]
    exact h

theorem foldl_touch_keeps (names : List Bytes) {m : Map Bytes Nat} {key : Bytes} {size : Nat}
    (h : m key = some size) :
    names.foldl (fun m name => m.touch name 0) m key = some size := by
  induction names generalizing m with
  | nil => exact h
  | cons name names ih => exact ih (touch_keeps name h)

/-! ## The loops of `check_object_arrival` -/

theorem describeAction_foldl (keyValMap : Map Bytes Value) (bucket : Bucket)
    (actions : List TriggerAction) (acc : Arrival × Int) :
    let out := actions.foldl (describeAction keyValMap bucket) acc
    (out.1.fired, out.1.activeTriggers) = (acc.1.fired, acc.1.activeTriggers) ∧
      ∀ key size, acc.1.keyLenMap key = some size → out.1.keyLenMap key = some size := by
  constructor
  · refine foldl_unchanged (fun acc => (acc.1.fired, acc.1.activeTriggers)) ?_ actions acc
    intro acc action
    unfold describeAction
    simp only
    split <;> rfl
  · intro key size hkey
    refine foldl_preserves (Q := fun acc : Arrival × Int => acc.1.keyLenMap key = some size)
      ?_ hkey
    intro acc action _ hacc
    unfold describeAction
    simp only
    split
    · exact hacc
    · exact foldl_touch_keeps _ hacc

theorem describeTrigger_foldl (keyValMap : Map Bytes Value) (bk : BucketKey) (now : TimePoint)
    (triggers : List Trigger) (acc : Arrival) :
    let out := (triggers.map (Trigger.actionForNewObject now bk)).foldl
      (describeTrigger keyValMap bk.bucket) acc
    out.fired = acc.fired ++ (firings now bk triggers).map .ofFiring ∧
      out.activeTriggers = acc.activeTriggers ++ activeNames now bk triggers ∧
      ∀ key size, acc.keyLenMap key = some size → out.keyLenMap key = some size := by
  induction triggers generalizing acc with
  | nil => simp [firings, activeNames]
  | cons t triggers ih =>
    simp only [List.map_cons, List.foldl_cons]
    obtain ⟨hfired, hactive, hkeyLen⟩ :=
      ih (describeTrigger keyValMap bk.bucket acc (t.actionForNewObject now bk))
    rw [hfired, hactive]
    unfold describeTrigger at hkeyLen ⊢
    by_cases hnil : (t.actionForNewObject now bk).2 = []
    · rw [if_pos hnil] at hkeyLen
      rw [if_pos hnil]
      refine ⟨?_, ?_, hkeyLen⟩
      · simp [firings, hnil]
      · simp [activeNames, hnil]
    · rw [if_neg hnil] at hkeyLen
      rw [if_neg hnil]
      obtain ⟨hsame, hkeep⟩ := describeAction_foldl keyValMap bk.bucket
        (t.actionForNewObject now bk).2
        ({ acc with
            activeTriggers := acc.activeTriggers ++ [t.triggerName]
            fired := acc.fired ++
              (t.actionForNewObject now bk).2.map (.fired t.triggerName) },
          t.triggerOption + 1)
      rw [Prod.mk.injEq] at hsame
      refine ⟨?_, ?_, fun key size hkey => hkeyLen key size (hkeep key size hkey)⟩
      · refine (congrArg (· ++ _) hsame.1).trans ?_
        simp only [firings, List.flatMap_cons, List.map_append, List.map_map,
          List.append_assoc]
        rfl
      · refine (congrArg (· ++ _) hsame.2).trans ?_
        simp [activeNames, hnil]

theorem checkObjectArrival_spec (now : Stamp) (bk : BucketKey) (s : SchedState) :
    ∃ keyLenMap : Map Bytes Nat,
      (∀ key size, s.keyLenMap key = some size → keyLenMap key = some size) ∧
      (checkObjectArrival now bk s).1 = { s with
        bucketTriggersMap := (s.bucketTriggersMap.visit bk.bucket fun trigger =>
          let result := trigger.actionForNewObject (now * 1000) bk
          (result.1, result)).1
        keyLenMap := keyLenMap
        sent := s.sent ++
          (firings (now * 1000) bk (s.triggersOf bk.bucket)).map .ofFiring } ∧
      (checkObjectArrival now bk s).2.1 =
        activeNames (now * 1000) bk (s.triggersOf bk.bucket) := by
  obtain ⟨hfired, hactive, hkeyLen⟩ := describeTrigger_foldl s.keyValMap bk (now * 1000)
    (s.triggersOf bk.bucket)
    { keyLenMap := s.keyLenMap, activeTriggers := [], activeFuncMetadata := [], fired := [] }
  have hvisit := Shared.visit_snd s.bucketTriggersMap bk.bucket fun trigger : Trigger =>
    let result := trigger.actionForNewObject (now * 1000) bk
    (result.1, result)
  refine ⟨_, hkeyLen, ?_, ?_⟩
  · unfold checkObjectArrival
    simp only [hvisit]
    rw [List.nil_append] at hfired
    exact congrArg (fun fired => ({ s with
        bucketTriggersMap := _, keyLenMap := _, sent := s.sent ++ fired } : SchedState)) hfired
  · unfold checkObjectArrival
    simp only [hvisit]
    rw [List.nil_append] at hactive
    exact hactive

theorem checkObjectArrival_triggersOf (now : Stamp) (bk : BucketKey) (s : SchedState) :
    (checkObjectArrival now bk s).1.triggersOf bk.bucket =
      (s.triggersOf bk.bucket).map fun t => (t.actionForNewObject (now * 1000) bk).1 :=
  Shared.list_visit_self _ _ _

end Pheromone.Scheduler
