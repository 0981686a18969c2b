import Pheromone.Common.Trigger
import Pheromone.Lib.Outputs
import Mathlib.Data.Finset.Basic

/-!
# Grouping keys

A `DynamicGroupTrigger` sorts the keys that arrive by their prefix.  The keys of the group
`ctrl` only count towards the control group; when all of it is there, the trigger passes
every other group on in an action of its own and starts over.
-/

namespace Pheromone.Common

open Lib

def TriggerAction.keys (action : TriggerAction) : List Key := action.sessionKeys.map Prod.snd

/-- The actions are for different groups, each lists the keys of its group once, and every
key is in one of them. -/
structure Partitions (group : Key → Bytes) (keys : List Key) (actions : List TriggerAction) :
    Prop where
  oneGroup : ∀ action ∈ actions, ∃ key ∈ keys, ∀ key', action.keys.count key' =
    if key' ∈ keys ∧ group key' = group key then 1 else 0
  otherGroup : actions.Pairwise fun action action' =>
    ∀ key ∈ action.keys, ∀ key' ∈ action'.keys, group key ≠ group key'
  oneAction : ∀ key ∈ keys, actions.countP (fun action => key ∈ action.keys) = 1

namespace DynamicGroupTrigger

/-- The prefix before the first `':'`, the whole key when there is none. -/
def groupOf (key : Key) : Bytes := key.takeWhile (· ≠ groupDelimiter)

def IsControl (key : Key) : Prop := groupOf key = controlGroupPrefix

instance (key : Key) : Decidable (IsControl key) := inferInstanceAs (Decidable (_ = _))

def controlKeys (t : DynamicGroupTrigger) (key : Key) : Finset Key :=
  if key ∈ t.controlGroup then insert key t.curControlKeys else t.curControlKeys

def fires (t : DynamicGroupTrigger) (object : BucketKey) : Bool :=
  decide (IsControl object.key) && decide ((t.controlKeys object.key).card = t.controlGroup.size)

def step (target : Name) (t : DynamicGroupTrigger) (object : BucketKey) :
    DynamicGroupTrigger × Bool × List TriggerAction :=
  let result := t.actionForNewObject target object
  (result.1, t.fires object, result.2)

def dataKeys (keys : List Key) : List Key := keys.filter fun key => ¬ IsControl key

theorem mem_dataKeys {keys : List Key} {key : Key} :
    key ∈ dataKeys keys ↔ key ∈ keys ∧ ¬ IsControl key := by
  simp [dataKeys]

/-! ## One arrival -/

variable (target : Name) {t : DynamicGroupTrigger} {object : BucketKey}

theorem step_data (h : ¬ IsControl object.key) :
    t.step target object = ({ t with
      dataGroupKeysMap := t.dataGroupKeysMap.set (groupOf object.key)
        ((t.dataGroupKeysMap.getD (groupOf object.key) USet.empty).insert object.key) },
      false, []) := by
  have hfires : t.fires object = false := by simp [fires, h]
  have hgroup : ¬ object.key.takeWhile (· ≠ groupDelimiter) = controlGroupPrefix := h
  unfold step actionForNewObject
  simp only [hfires, if_neg hgroup]
  rfl

theorem step_control (h : IsControl object.key) (hpart : t.fires object = false) :
    t.step target object = ({ t with curControlKeys := t.controlKeys object.key }, false, []) := by
  have hgroup : object.key.takeWhile (· ≠ groupDelimiter) = controlGroupPrefix := h
  have hcard : ¬ (t.controlKeys object.key).card = t.controlGroup.size := by
    simpa [fires, h] using hpart
  unfold step actionForNewObject
  simp only [hpart, if_pos hgroup]
  exact congrArg (fun result : DynamicGroupTrigger × List TriggerAction =>
    (result.1, false, result.2)) (if_neg hcard)

theorem step_fires (h : t.fires object = true) :
    t.step target object = (DynamicGroupTrigger.new t.controlGroup, true,
      t.dataGroupKeysMap.entries.map fun groupKeys =>
        { function := target
          sessionKeys := groupKeys.2.elems.map fun key => (object.session, key) }) := by
  have hboth : IsControl object.key ∧
      (t.controlKeys object.key).card = t.controlGroup.size := by simpa [fires] using h
  have hgroup : object.key.takeWhile (· ≠ groupDelimiter) = controlGroupPrefix := hboth.1
  unfold step actionForNewObject
  simp only [h, if_pos hgroup]
  exact congrArg (fun result : DynamicGroupTrigger × List TriggerAction =>
    (result.1, true, result.2)) (if_pos hboth.2)

/-! ## The keys of a round -/

structure Gathers (controlGroup : USet Key) (since : List Key) (t : DynamicGroupTrigger) :
    Prop where
  control : t.controlGroup = controlGroup
  groups : ∀ group keys, (group, keys) ∈ t.dataGroupKeysMap.entries →
    keys.elems ≠ [] ∧ ∀ key, key ∈ keys ↔ key ∈ dataKeys since ∧ groupOf key = group
  covers : ∀ key ∈ dataKeys since, groupOf key ∈ t.dataGroupKeysMap.keys
  controls : ∀ key, key ∈ t.curControlKeys ↔ key ∈ controlGroup ∧ IsControl key ∧ key ∈ since

variable {controlGroup : USet Key} {since : List Key}

theorem new_gathers (controlGroup : USet Key) :
    Gathers controlGroup [] (DynamicGroupTrigger.new controlGroup) where
  control := rfl
  groups := fun _ _ hmem => absurd hmem List.not_mem_nil
  covers := fun _ hmem => absurd hmem List.not_mem_nil
  controls := fun key => by simp [DynamicGroupTrigger.new]

theorem Gathers.mem_getD (h : Gathers controlGroup since t) (group : Bytes) (key : Key) :
    key ∈ t.dataGroupKeysMap.getD group USet.empty ↔
      key ∈ dataKeys since ∧ groupOf key = group := by
  cases hfind : t.dataGroupKeysMap.find? group with
  | some keys =>
    rw [UMap.getD, hfind, Option.getD_some]
    exact (h.groups group keys (UMap.find?_eq_some_iff.mp hfind)).2 key
  | none =>
    rw [UMap.getD, hfind, Option.getD_none]
    apply iff_of_false (USet.not_mem_empty key)
    rintro ⟨hkey, rfl⟩
    exact UMap.find?_eq_none_iff.mp hfind (h.covers key hkey)

theorem Gathers.data (h : Gathers controlGroup since t) (hdata : ¬ IsControl object.key) :
    Gathers controlGroup (since ++ [object.key]) (t.step target object).1 := by
  have hkeys : ∀ key, key ∈ dataKeys (since ++ [object.key]) ↔
      key = object.key ∨ key ∈ dataKeys since := by
    intro key
    rw [mem_dataKeys, mem_dataKeys, List.mem_append, List.mem_singleton]
    constructor
    · rintro ⟨hin | rfl, hnot⟩
      · exact .inr ⟨hin, hnot⟩
      · exact .inl rfl
    · rintro (rfl | ⟨hin, hnot⟩)
      · exact ⟨.inr rfl, hdata⟩
      · exact ⟨.inl hin, hnot⟩
  rw [step_data target hdata]
  constructor
  · exact h.control
  · intro group keys hmem
    rw [UMap.mem_entries_set] at hmem
    split at hmem
    next hgroup =>
      subst hgroup hmem
      constructor
      · exact List.ne_nil_of_mem (USet.mem_elems.mpr (USet.mem_insert.mpr (.inl rfl)))
      · intro key
        rw [USet.mem_insert, h.mem_getD, hkeys]
        constructor
        · rintro (rfl | ⟨hin, hgroup⟩)
          · exact ⟨.inl rfl, rfl⟩
          · exact ⟨.inr hin, hgroup⟩
        · rintro ⟨rfl | hin, hgroup⟩
          · exact .inl rfl
          · exact .inr ⟨hin, hgroup⟩
    next hgroup =>
      obtain ⟨hne, hiff⟩ := h.groups group keys hmem
      refine ⟨hne, fun key => ?_⟩
      rw [hiff, hkeys]
      constructor
      · exact fun hin => ⟨.inr hin.1, hin.2⟩
      · rintro ⟨rfl | hin, hsame⟩
        · exact absurd hsame.symm hgroup
        · exact ⟨hin, hsame⟩
  · intro key hkey
    rw [UMap.mem_keys_iff]
    simp only [UMap.find?_set]
    rcases (hkeys key).mp hkey with rfl | hin
    · exact ⟨_, if_pos rfl⟩
    · obtain ⟨keys, hkeys⟩ := UMap.mem_keys_iff.mp (h.covers key hin)
      by_cases hgroup : groupOf key = groupOf object.key
      · exact ⟨_, if_pos hgroup⟩
      · exact ⟨keys, (if_neg hgroup).trans hkeys⟩
  · intro key
    simp only [h.controls, List.mem_append, List.mem_singleton]
    constructor
    · exact fun hin => ⟨hin.1, hin.2.1, .inl hin.2.2⟩
    · rintro ⟨hgroup, hcontrol, hin | rfl⟩
      · exact ⟨hgroup, hcontrol, hin⟩
      · exact absurd hcontrol hdata

theorem Gathers.mem_controlKeys (h : Gathers controlGroup since t)
    (hcontrol : IsControl object.key) (key : Key) :
    key ∈ t.controlKeys object.key ↔
      key ∈ controlGroup ∧ IsControl key ∧ key ∈ since ++ [object.key] := by
  unfold controlKeys
  rw [h.control, List.mem_append, List.mem_singleton]
  split
  next hmem =>
    rw [Finset.mem_insert, h.controls]
    constructor
    · rintro (rfl | ⟨hgroup, hctrl, hin⟩)
      · exact ⟨hmem, hcontrol, .inr rfl⟩
      · exact ⟨hgroup, hctrl, .inl hin⟩
    · rintro ⟨hgroup, hctrl, hin | rfl⟩
      · exact .inr ⟨hgroup, hctrl, hin⟩
      · exact .inl rfl
  next hmem =>
    rw [h.controls]
    constructor
    · exact fun hin => ⟨hin.1, hin.2.1, .inl hin.2.2⟩
    · rintro ⟨hgroup, hctrl, hin | rfl⟩
      · exact ⟨hgroup, hctrl, hin⟩
      · exact absurd hgroup hmem

theorem Gathers.control_part (h : Gathers controlGroup since t) (hcontrol : IsControl object.key)
    (hpart : t.fires object = false) :
    Gathers controlGroup (since ++ [object.key]) (t.step target object).1 := by
  have hkeys : dataKeys (since ++ [object.key]) = dataKeys since := by
    simp [dataKeys, hcontrol]
  rw [step_control target hcontrol hpart]
  constructor
  · exact h.control
  · rw [hkeys]
    exact h.groups
  · rw [hkeys]
    exact h.covers
  · exact h.mem_controlKeys hcontrol

theorem Gathers.fires_iff (h : Gathers controlGroup since t) (object : BucketKey) :
    t.fires object = true ↔ IsControl object.key ∧
      ∀ key ∈ controlGroup, IsControl key ∧ key ∈ since ++ [object.key] := by
  unfold fires
  rw [Bool.and_eq_true, decide_eq_true_eq, decide_eq_true_eq]
  apply and_congr_right
  intro hcontrol
  have hmem := h.mem_controlKeys hcontrol
  have hsub : t.controlKeys object.key ⊆ controlGroup.elems.toFinset := by
    intro key hkey
    exact List.mem_toFinset.mpr ((hmem key).mp hkey).1
  rw [h.control, USet.card_eq_size_iff hsub]
  constructor
  · intro heq key hkey
    have hin : key ∈ t.controlKeys object.key := heq ▸ List.mem_toFinset.mpr hkey
    exact ((hmem key).mp hin).2
  · intro hall
    apply Finset.Subset.antisymm hsub
    intro key hkey
    exact (hmem key).mpr ⟨List.mem_toFinset.mp hkey, hall key (List.mem_toFinset.mp hkey)⟩

/-! ## The actions -/

theorem keys_action (session : Session) (keys : List Key) :
    TriggerAction.keys { function := target, sessionKeys := keys.map fun key => (session, key) } =
      keys := by
  simp [TriggerAction.keys, Function.comp_def]

theorem Gathers.partitions (h : Gathers controlGroup since t) (session : Session) :
    Partitions groupOf (dataKeys since) (t.dataGroupKeysMap.entries.map fun groupKeys =>
      { function := target
        sessionKeys := groupKeys.2.elems.map fun key => (session, key) }) := by
  constructor
  · intro action haction
    obtain ⟨⟨group, keys⟩, hentry, rfl⟩ := List.mem_map.mp haction
    obtain ⟨hne, hiff⟩ := h.groups group keys hentry
    obtain ⟨key, hkey⟩ := List.exists_mem_of_ne_nil _ hne
    obtain ⟨hin, rfl⟩ := (hiff key).mp hkey
    refine ⟨key, hin, fun key' => ?_⟩
    rw [keys_action, keys.nodup.count]
    exact if_congr (hiff key') rfl rfl
  · rw [List.pairwise_map]
    have hnodup : t.dataGroupKeysMap.entries.Pairwise fun e e' => e.1 ≠ e'.1 :=
      List.pairwise_map.mp t.dataGroupKeysMap.nodup
    apply hnodup.imp_of_mem
    rintro ⟨group, keys⟩ ⟨group', keys'⟩ hentry hentry' hne key hkey key' hkey'
    rw [keys_action] at hkey hkey'
    rw [(((h.groups _ _ hentry).2 key).mp hkey).2, (((h.groups _ _ hentry').2 key').mp hkey').2]
    exact hne
  · intro key hkey
    -- the one action with the key is that of its group
    have hcount : ∀ e ∈ t.dataGroupKeysMap.entries,
        (key ∈ TriggerAction.keys
            { function := target, sessionKeys := e.2.elems.map fun key => (session, key) } ↔
          e.1 = groupOf key) := by
      rintro ⟨group, keys⟩ hentry
      rw [keys_action]
      constructor
      · exact fun hin => (((h.groups group keys hentry).2 key).mp hin).2.symm
      · exact fun hgroup => ((h.groups group keys hentry).2 key).mpr ⟨hkey, hgroup.symm⟩
    calc (t.dataGroupKeysMap.entries.map _).countP _
        = t.dataGroupKeysMap.entries.countP fun e => e.1 = groupOf key := by
          rw [List.countP_map]
          apply List.countP_congr
          intro e he
          simpa using hcount e he
      _ = (t.dataGroupKeysMap.entries.map Prod.fst).count (groupOf key) := by
          rw [List.count, List.countP_map]
          apply List.countP_congr
          intro e _
          simp
      _ = 1 := List.count_eq_one_of_mem t.dataGroupKeysMap.nodup (h.covers key hkey)

/-! ## Runs -/

theorem gathers_after (controlGroup : USet Key) (objects : List BucketKey) :
    Gathers controlGroup
      ((sinceLast Prod.fst
        (trace (step target) (DynamicGroupTrigger.new controlGroup) objects)).map BucketKey.key)
      (stateAfter (step target) (DynamicGroupTrigger.new controlGroup) objects) := by
  apply stateAfter_round (Q := fun since t => Gathers controlGroup (since.map BucketKey.key) t)
  · intro since t object h hfires
    have hfires : t.fires object = true := hfires
    rw [step_fires target hfires, h.control]
    exact new_gathers controlGroup
  · intro since t object h hpart
    rw [List.map_append, List.map_singleton]
    by_cases hcontrol : IsControl object.key
    · exact h.control_part target hcontrol hpart
    · exact h.data target hcontrol
  · exact new_gathers controlGroup

/-- An arrival fires exactly when it is of the group `ctrl` and every control key has
arrived as one of that group since the last firing.  Its actions then list the other keys
that arrived since, each group in one action, and an arrival that does not fire has none. -/
theorem groups_partitioned (controlGroup : USet Key) (objects : List BucketKey)
    (object : BucketKey) :
    let start := DynamicGroupTrigger.new controlGroup
    let since := (sinceLast Prod.fst (trace (step target) start objects)).map BucketKey.key
    let answer := ((stateAfter (step target) start objects).step target object).2
    (answer.1 = true ↔ IsControl object.key ∧
        ∀ key ∈ controlGroup, IsControl key ∧ key ∈ since ++ [object.key]) ∧
      (answer.1 = true → Partitions groupOf (dataKeys since) answer.2 ∧
        ∀ action ∈ answer.2, action.function = target) ∧
      (answer.1 = false → answer.2 = []) := by
  intro start since answer
  have hgathers := gathers_after target controlGroup objects
  refine ⟨hgathers.fires_iff object, fun hfires => ?_, fun hpart => ?_⟩
  · have hstep := step_fires target (t := stateAfter (step target) start objects) hfires
    have hactions := congrArg (fun result => result.2.2) hstep
    simp only at hactions
    constructor
    · rw [show answer.2 = _ from hactions]
      exact hgathers.partitions target object.session
    · intro action haction
      rw [show answer.2 = _ from hactions] at haction
      obtain ⟨groupKeys, -, rfl⟩ := List.mem_map.mp haction
      rfl
  · by_cases hcontrol : IsControl object.key
    · exact congrArg (fun result => result.2.2) (step_control target hcontrol hpart)
    · exact congrArg (fun result => result.2.2) (step_data target hcontrol)

end DynamicGroupTrigger

end Pheromone.Common
