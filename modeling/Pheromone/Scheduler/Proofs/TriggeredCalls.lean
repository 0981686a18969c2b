import Pheromone.Scheduler.Proofs.Accounting

/-!
# The calls that an object starts

`check_object_arrival` describes a call for each action: the cached values of its objects
with flag 0, or the names and lengths of its objects with the flag of the trigger.  The
flag is shared by the actions of one trigger, and a cached action sets it for those after it.
-/

namespace Pheromone.Scheduler

open Lib Common

variable {action : TriggerAction} {bk : BucketKey} {env : SchedEnv} {now : Stamp}
  {s s' : SchedState}

def objectNames (bucket : Bucket) (action : TriggerAction) : List Bytes :=
  action.sessionKeys.map fun sessionKey => getLocalObjectName bucket sessionKey.2 sessionKey.1

def Cached (keyValMap : Map Bytes Value) (bucket : Bucket) (action : TriggerAction) : Prop :=
  ∀ name ∈ objectNames bucket action, keyValMap name ≠ none

instance (keyValMap : Map Bytes Value) (bucket : Bucket) (action : TriggerAction) :
    Decidable (Cached keyValMap bucket action) :=
  inferInstanceAs (Decidable (∀ name ∈ objectNames bucket action, _))

def actionMetadata (keyValMap : Map Bytes Value) (keyLenMap : Map Bytes Nat) (bucket : Bucket)
    (argFlag : Int) (action : TriggerAction) : TriggerFunctionMetadata :=
  if Cached keyValMap bucket action then
    { funcName := action.function
      funcArgs := (objectNames bucket action).map fun name => keyValMap.getD name []
      argFlag := 0 }
  else
    { funcName := action.function
      funcArgs := (objectNames bucket action).flatMap fun name =>
        [name, Bytes.toDecimal (keyLenMap.getD name 0)]
      argFlag }

def describedFrom (keyValMap : Map Bytes Value) (keyLenMap : Map Bytes Nat) (bucket : Bucket) :
    Int → List TriggerAction → List TriggerFunctionMetadata
  | _, [] => []
  | argFlag, action :: actions =>
      actionMetadata keyValMap keyLenMap bucket argFlag action ::
        describedFrom keyValMap keyLenMap bucket
          (if Cached keyValMap bucket action then 0 else argFlag) actions

section Loops

variable (keyValMap : Map Bytes Value) {keyLenMap : Map Bytes Nat} (bucket : Bucket)

theorem cachedValues_of_cached (h : Cached keyValMap bucket action) :
    cachedValues keyValMap (objectNames bucket action) =
      some ((objectNames bucket action).map fun name => keyValMap.getD name []) :=
  Map.mapM_of_forall [] h

theorem cachedValues_of_not_cached (h : ¬ Cached keyValMap bucket action) :
    cachedValues keyValMap (objectNames bucket action) = none := by
  unfold Cached at h
  push Not at h
  obtain ⟨name, hname, hnone⟩ := h
  exact mapM_eq_none_of_mem hname hnone

theorem getD_foldl_touch (names : List Bytes) (m : Map Bytes Nat) (name : Bytes) :
    (names.foldl (fun m name => m.touch name 0) m).getD name 0 = m.getD name 0 :=
  foldl_unchanged (fun m : Map Bytes Nat => m.getD name 0)
    (fun m name' => Map.getD_touch m name' name 0) names m

theorem describeAction_of_some {values : List Value}
    (h : cachedValues keyValMap (objectNames bucket action) = some values) (acc : Arrival × Int) :
    describeAction keyValMap bucket acc action =
      ({ acc.1 with
          activeFuncMetadata := acc.1.activeFuncMetadata ++
            [{ funcName := action.function, funcArgs := values, argFlag := 0 }] }, 0) := by
  unfold objectNames at h
  simp only [describeAction, h]

theorem describeAction_of_none (h : cachedValues keyValMap (objectNames bucket action) = none)
    (acc : Arrival × Int) :
    describeAction keyValMap bucket acc action =
      ({ acc.1 with
          keyLenMap := (objectNames bucket action).foldl (fun m name => m.touch name 0)
            acc.1.keyLenMap
          activeFuncMetadata := acc.1.activeFuncMetadata ++
            [{ funcName := action.function
               funcArgs := (objectNames bucket action).flatMap fun name =>
                 [name, Bytes.toDecimal (acc.1.keyLenMap.getD name 0)]
               argFlag := acc.2 }] }, acc.2) := by
  unfold objectNames at h ⊢
  simp only [describeAction, h]

theorem describeAction_spec {acc : Arrival × Int}
    (hlen : ∀ name, acc.1.keyLenMap.getD name 0 = keyLenMap.getD name 0)
    (action : TriggerAction) :
    (describeAction keyValMap bucket acc action).1.activeFuncMetadata =
        acc.1.activeFuncMetadata ++ [actionMetadata keyValMap keyLenMap bucket acc.2 action] ∧
      (describeAction keyValMap bucket acc action).2 =
        (if Cached keyValMap bucket action then 0 else acc.2) ∧
      ∀ name, (describeAction keyValMap bucket acc action).1.keyLenMap.getD name 0 =
        keyLenMap.getD name 0 := by
  unfold actionMetadata
  by_cases hcached : Cached keyValMap bucket action
  · rw [describeAction_of_some keyValMap bucket (cachedValues_of_cached keyValMap bucket hcached),
      if_pos hcached, if_pos hcached]
    exact ⟨rfl, rfl, hlen⟩
  · rw [describeAction_of_none keyValMap bucket
      (cachedValues_of_not_cached keyValMap bucket hcached), if_neg hcached, if_neg hcached]
    simp only [hlen, getD_foldl_touch]
    exact ⟨trivial, trivial, fun _ => trivial⟩

theorem describeActions_spec (actions : List TriggerAction) (acc : Arrival × Int)
    (hlen : ∀ name, acc.1.keyLenMap.getD name 0 = keyLenMap.getD name 0) :
    (actions.foldl (describeAction keyValMap bucket) acc).1.activeFuncMetadata =
        acc.1.activeFuncMetadata ++ describedFrom keyValMap keyLenMap bucket acc.2 actions ∧
      ∀ name, (actions.foldl (describeAction keyValMap bucket) acc).1.keyLenMap.getD name 0 =
        keyLenMap.getD name 0 := by
  induction actions generalizing acc with
  | nil => exact ⟨(List.append_nil _).symm, hlen⟩
  | cons action actions ih =>
    obtain ⟨hmetadata, hflag, hlen'⟩ := describeAction_spec keyValMap bucket hlen action
    obtain ⟨hrest, hlen''⟩ := ih _ hlen'
    rw [List.foldl_cons]
    refine ⟨?_, hlen''⟩
    rw [hrest, hmetadata, hflag, List.append_assoc]
    rfl

theorem describeTriggers_spec (results : List (Trigger × List TriggerAction)) (acc : Arrival)
    (hlen : ∀ name, acc.keyLenMap.getD name 0 = keyLenMap.getD name 0) :
    (results.foldl (describeTrigger keyValMap bucket) acc).activeFuncMetadata =
      acc.activeFuncMetadata ++ results.flatMap fun result =>
        describedFrom keyValMap keyLenMap bucket (result.1.triggerOption + 1) result.2 := by
  induction results generalizing acc with
  | nil => exact (List.append_nil _).symm
  | cons result results ih =>
    rw [List.foldl_cons, List.flatMap_cons, ← List.append_assoc]
    by_cases hnil : result.2 = []
    · have hsame : describeTrigger keyValMap bucket acc result = acc := if_pos hnil
      rw [hsame, ih acc hlen, hnil]
      simp [describedFrom]
    · have hstep : describeTrigger keyValMap bucket acc result =
          (result.2.foldl (describeAction keyValMap bucket)
            ({ acc with
                activeTriggers := acc.activeTriggers ++ [result.1.triggerName]
                fired := acc.fired ++ result.2.map (.fired result.1.triggerName) },
              result.1.triggerOption + 1)).1 := if_neg hnil
      obtain ⟨hmetadata, hlen'⟩ := describeActions_spec keyValMap bucket result.2
        ({ acc with
            activeTriggers := acc.activeTriggers ++ [result.1.triggerName]
            fired := acc.fired ++ result.2.map (.fired result.1.triggerName) },
          result.1.triggerOption + 1) hlen
      rw [hstep, ih _ hlen', hmetadata]

/-! ## The shared flag -/

theorem actionMetadata_eq_iff (keyLenMap : Map Bytes Nat) (argFlag argFlag' : Int)
    (action : TriggerAction) :
    actionMetadata keyValMap keyLenMap bucket argFlag action =
        actionMetadata keyValMap keyLenMap bucket argFlag' action ↔
      argFlag = argFlag' ∨ Cached keyValMap bucket action := by
  unfold actionMetadata
  by_cases hcached : Cached keyValMap bucket action
  · simp [hcached]
  · simp [hcached]

theorem describedFrom_zero (keyLenMap : Map Bytes Nat) (actions : List TriggerAction) :
    describedFrom keyValMap keyLenMap bucket 0 actions =
      actions.map (actionMetadata keyValMap keyLenMap bucket 0) := by
  induction actions with
  | nil => rfl
  | cons action actions ih => rw [describedFrom, ite_self, ih, List.map_cons]

theorem describedFrom_eq_iff (keyLenMap : Map Bytes Nat) (argFlag : Int)
    (actions : List TriggerAction) :
    describedFrom keyValMap keyLenMap bucket argFlag actions =
        actions.map (actionMetadata keyValMap keyLenMap bucket argFlag) ↔
      argFlag = 0 ∨ actions.Pairwise fun action later =>
        Cached keyValMap bucket action → Cached keyValMap bucket later := by
  induction actions with
  | nil => simp [describedFrom]
  | cons action actions ih =>
    rw [describedFrom, List.map_cons, List.cons.injEq, List.pairwise_cons]
    by_cases hcached : Cached keyValMap bucket action
    · rw [if_pos hcached, describedFrom_zero, List.map_inj_left]
      simp only [actionMetadata_eq_iff, hcached, true_and, true_imp_iff]
      constructor
      · intro h
        by_cases hflag : argFlag = 0
        · exact Or.inl hflag
        · have hall : ∀ later ∈ actions, Cached keyValMap bucket later := fun later hlater =>
            (h later hlater).resolve_left (Ne.symm hflag)
          refine Or.inr ⟨hall, ?_⟩
          exact List.pairwise_of_forall_mem_list fun _ _ later hlater _ => hall later hlater
      · rintro (hflag | ⟨hall, -⟩) later hlater
        · exact Or.inl hflag.symm
        · exact Or.inr (hall later hlater)
    · rw [if_neg hcached, ih]
      simp [hcached]

end Loops

theorem length_describedFrom (keyValMap : Map Bytes Value) (keyLenMap : Map Bytes Nat)
    (bucket : Bucket) (argFlag : Int) (actions : List TriggerAction) :
    (describedFrom keyValMap keyLenMap bucket argFlag actions).length = actions.length := by
  induction actions generalizing argFlag with
  | nil => rfl
  | cons action actions ih => rw [describedFrom, List.length_cons, List.length_cons, ih]

theorem flatMap_eq_iff {α β : Type} {f g : α → List β}
    (hlength : ∀ a, (f a).length = (g a).length) (l : List α) :
    l.flatMap f = l.flatMap g ↔ ∀ a ∈ l, f a = g a := by
  induction l with
  | nil => simp
  | cons a l ih =>
    rw [List.flatMap_cons, List.flatMap_cons, List.forall_mem_cons, ← ih]
    exact ⟨fun h => List.append_inj h (hlength a), fun h => by rw [h.1, h.2]⟩

theorem checkObjectArrival_metadata (now : Stamp) (bk : BucketKey) (s : SchedState) :
    (checkObjectArrival now bk s).2.2 =
      (s.triggersOf bk.bucket).flatMap fun t =>
        describedFrom s.keyValMap s.keyLenMap bk.bucket (t.triggerOption + 1)
          (t.actionForNewObject (now * 1000) bk).2 := by
  have hvisit := Shared.visit_snd s.bucketTriggersMap bk.bucket fun trigger : Trigger =>
    let result := trigger.actionForNewObject (now * 1000) bk
    (result.1, result)
  have hspec := describeTriggers_spec s.keyValMap bk.bucket
    ((s.triggersOf bk.bucket).map (Trigger.actionForNewObject (now * 1000) bk))
    { keyLenMap := s.keyLenMap, activeTriggers := [], activeFuncMetadata := [], fired := [] }
    (fun _ => rfl)
  unfold checkObjectArrival
  simp only [hvisit]
  rw [List.flatMap_map, List.nil_append] at hspec
  exact hspec

theorem describedFrom_append (keyValMap : Map Bytes Value) (keyLenMap : Map Bytes Nat)
    (bucket : Bucket) (argFlag : Int) (before actions : List TriggerAction) :
    describedFrom keyValMap keyLenMap bucket argFlag (before ++ actions) =
      describedFrom keyValMap keyLenMap bucket argFlag before ++
        describedFrom keyValMap keyLenMap bucket
          (if ∃ action ∈ before, Cached keyValMap bucket action then 0 else argFlag) actions := by
  induction before generalizing argFlag with
  | nil => simp [describedFrom]
  | cons action before ih =>
    rw [List.cons_append, describedFrom, describedFrom, ih, List.cons_append]
    by_cases hcached : Cached keyValMap bucket action
    · simp [hcached]
    · simp [hcached]

theorem checkObjectArrival_getElem {ts ts' : List Trigger} {t : Trigger}
    (htriggers : s.triggersOf bk.bucket = ts ++ t :: ts') {before after : List TriggerAction}
    (hactions : (t.actionForNewObject (now * 1000) bk).2 = before ++ action :: after) :
    (checkObjectArrival now bk s).2.2[(firings (now * 1000) bk ts).length + before.length]? =
      some (actionMetadata s.keyValMap s.keyLenMap bk.bucket
        (if ∃ earlier ∈ before, Cached s.keyValMap bk.bucket earlier then 0
          else t.triggerOption + 1) action) := by
  have hlength : ((ts.flatMap fun t =>
      describedFrom s.keyValMap s.keyLenMap bk.bucket (t.triggerOption + 1)
        (t.actionForNewObject (now * 1000) bk).2)).length =
          (firings (now * 1000) bk ts).length := by
    unfold firings
    simp only [List.length_flatMap, length_describedFrom, List.length_map]
  rw [checkObjectArrival_metadata, htriggers, List.flatMap_append, List.flatMap_cons, hactions,
    describedFrom_append, List.getElem?_append_right (by omega), hlength, Nat.add_sub_cancel_left,
    List.append_assoc, List.getElem?_append_right (by rw [length_describedFrom]),
    length_describedFrom, Nat.sub_self]
  rfl

/-- `check_object_arrival` describes the call of `action` by `metadata`; the trigger `t`
returns the actions `before` before it. -/
def FiredLocally (now : Stamp) (bk : BucketKey) (s : SchedState) (t : Trigger)
    (before : List TriggerAction) (action : TriggerAction) (metadata : TriggerFunctionMetadata) :
    Prop :=
  ∃ ts ts' after, s.triggersOf bk.bucket = ts ++ t :: ts' ∧
    (t.actionForNewObject (now * 1000) bk).2 = before ++ action :: after ∧
    (checkObjectArrival now bk s).2.2[(firings (now * 1000) bk ts).length + before.length]? =
      some metadata

theorem FiredLocally.metadata_eq {t : Trigger} {before : List TriggerAction}
    {metadata : TriggerFunctionMetadata} (h : FiredLocally now bk s t before action metadata) :
    metadata = actionMetadata s.keyValMap s.keyLenMap bk.bucket
      (if ∃ earlier ∈ before, Cached s.keyValMap bk.bucket earlier then 0
        else t.triggerOption + 1) action := by
  obtain ⟨ts, ts', after, htriggers, hactions, hmetadata⟩ := h
  rw [checkObjectArrival_getElem htriggers hactions] at hmetadata
  exact (Option.some.inj hmetadata).symm

/-! ## What is scheduled -/

def triggeredCall (sessionId : Session) (appName : Name) (metadata : TriggerFunctionMetadata) :
    SchedCall where
  sessionId := sessionId
  appName := appName
  funcName := metadata.funcName
  funcArgs := metadata.funcArgs
  argFlag := metadata.argFlag

def freeExecutors (env : SchedEnv) (s : SchedState) : Nat :=
  s.executorStatusMap.weight fun status =>
    if status = .empty ∨ (env.sharedExecutor = true ∧ status = .available) then 1 else 0

theorem usable_of_free (h : freeExecutors env s ≠ 0) (funcName : Name) :
    Usable env s funcName := by
  unfold freeExecutors at h
  rw [Ne, UMap.weight_eq_zero_iff] at h
  push Not at h
  obtain ⟨⟨id, status⟩, hentry, hfree⟩ := h
  have hstatus : status = .empty ∨ (env.sharedExecutor = true ∧ status = .available) := by
    by_contra hnot
    exact hfree (if_neg hnot)
  exact ⟨id, status, UMap.find?_eq_some_iff.mpr hentry, Or.inr hstatus⟩

theorem submit_free {call : SchedCall} (h : submit env now none call s = some s') :
    freeExecutors env s ≤ freeExecutors env s' + 1 := by
  rcases scheduleFuncCall_cases h with ⟨id, seed, cold, _, rfl⟩ | ⟨_, _, rfl⟩ | ⟨_, _, _, rfl⟩ |
    ⟨_, _, _, args, _, hforward⟩
  · obtain ⟨_, _, _, _, heq⟩ := sendToExecutor_spec now call id seed cold
      (s.emit (.submit none call))
    have hweight := UMap.weight_set (fun status : ExecutorStatus =>
      if status = .empty ∨ (env.sharedExecutor = true ∧ status = .available) then 1 else 0)
      s.executorStatusMap id .await
    have hone : ((s.executorStatusMap.find? id).map fun status : ExecutorStatus =>
        if status = .empty ∨ (env.sharedExecutor = true ∧ status = .available) then 1
        else 0).getD 0 ≤ 1 := by
      cases s.executorStatusMap.find? id with
      | none => exact Nat.zero_le 1
      | some status =>
        simp only [Option.map_some, Option.getD_some]
        split <;> omega
    rw [heq]
    change _ ≤ (s.executorStatusMap.set id .await).weight _ + 1
    unfold freeExecutors
    omega
  · exact Nat.le_succ _
  · exact Nat.le_succ _
  · obtain ⟨_, _, _, _, _, _, rfl⟩ := forwardCallViaHelper_spec hforward
    exact Nat.le_succ _

theorem triggeredCalls_isSome (now : Stamp) {sessionId : Session} {bucket : Bucket} {n : Nat}
    (metadatas : List TriggerFunctionMetadata) (hfree : n ≤ freeExecutors env s)
    (hcalls : 0 < env.schedDelayTime ∨ env.rejectExtraReq = true ∨
      ∀ metadata ∈ metadatas.drop n,
        Forwardable env s (triggeredCall sessionId (s.bucketAppMap.getD bucket []) metadata)) :
    (metadatas.foldlM (fun s metadata => submit env now none
      (triggeredCall sessionId (s.bucketAppMap.getD bucket []) metadata) s) s).isSome := by
  induction metadatas generalizing s n with
  | nil => rfl
  | cons metadata metadatas ih =>
    have hfirst : (submit env now none (triggeredCall sessionId
        (s.bucketAppMap.getD bucket []) metadata) s).isSome := by
      refine (scheduleFuncCall_isSome_iff ..).mpr ?_
      by_cases hzero : n = 0
      · subst hzero
        exact Or.inr (hcalls.imp_right (Or.imp_right fun hall => hall _ List.mem_cons_self))
      · exact Or.inl (usable_of_free (s := s) (by omega) _)
    obtain ⟨s₁, hs₁⟩ := Option.isSome_iff_exists.mp hfirst
    have hone := submit_free hs₁
    have hbuckets : s₁.bucketAppMap = s.bucketAppMap :=
      congrArg Records.bucketAppMap (scheduleFuncCall_records hs₁)
    have happs : s₁.appCoordMap = s.appCoordMap :=
      congrArg Records.appCoordMap (scheduleFuncCall_records hs₁)
    rw [List.foldlM_cons, hs₁]
    refine ih (n := n - 1) (by omega) (hcalls.imp_right (Or.imp_right fun hall later hlater => ?_))
    rw [hbuckets]
    refine Forwardable.congr (hall later ?_) happs
    cases n with
    | zero => exact List.mem_cons_of_mem _ hlater
    | succ n => exact hlater

theorem checkTrigger_isSome {sessionId : Session}
    (h : 0 < env.schedDelayTime ∨ env.rejectExtraReq = true ∨
      ∀ metadata ∈ (checkObjectArrival now bk s).2.2.drop (freeExecutors env s),
        Forwardable env s
          (triggeredCall sessionId (s.bucketAppMap.getD bk.bucket []) metadata)) :
    (checkTrigger env now bk sessionId s).isSome := by
  have hcalls := triggeredCalls_isSome (s := (checkObjectArrival now bk s).1) now
    (checkObjectArrival now bk s).2.2 le_rfl h
  obtain ⟨u, hu⟩ := Option.isSome_iff_exists.mp hcalls
  exact Option.isSome_of_eq_some (Option.map_eq_some_iff.mpr ⟨u, hu, rfl⟩)

theorem describedFrom_actions (keyValMap : Map Bytes Value) (keyLenMap : Map Bytes Nat)
    (bucket : Bucket) (argFlag : Int) (name : Name) (actions : List TriggerAction) :
    List.Forall₂ (fun (firing : Name × TriggerAction) metadata =>
        ∃ argFlag, metadata = actionMetadata keyValMap keyLenMap bucket argFlag firing.2)
      (actions.map (Prod.mk name)) (describedFrom keyValMap keyLenMap bucket argFlag actions) := by
  induction actions generalizing argFlag with
  | nil => exact .nil
  | cons action actions ih => exact .cons ⟨argFlag, rfl⟩ (ih _)

theorem exists_of_forall₂ {α β : Type} {R : α → β → Prop} {as : List α} {bs : List β}
    (h : List.Forall₂ R as bs) {b : β} (hb : b ∈ bs) : ∃ a ∈ as, R a b := by
  induction h with
  | nil => cases hb
  | cons hab _ ih =>
    rcases List.mem_cons.mp hb with rfl | hb
    · exact ⟨_, List.mem_cons_self, hab⟩
    · obtain ⟨a, ha, hab⟩ := ih hb
      exact ⟨a, List.mem_cons_of_mem _ ha, hab⟩

theorem checkObjectArrival_actions (now : Stamp) (bk : BucketKey) (s : SchedState) :
    List.Forall₂ (fun (firing : Name × TriggerAction) metadata => ∃ argFlag,
        metadata = actionMetadata s.keyValMap s.keyLenMap bk.bucket argFlag firing.2)
      (firings (now * 1000) bk (s.triggersOf bk.bucket)) (checkObjectArrival now bk s).2.2 := by
  rw [checkObjectArrival_metadata]
  unfold firings
  induction s.triggersOf bk.bucket with
  | nil => exact .nil
  | cons t triggers ih => exact List.rel_append (describedFrom_actions ..) ih

/-- Every call of an arrival is described by the objects of its own action exactly if no
trigger returns an action that is not cached after one that is. -/
theorem checkObjectArrival_own_iff (now : Stamp) (bk : BucketKey) (s : SchedState) :
    (checkObjectArrival now bk s).2.2 =
        (s.triggersOf bk.bucket).flatMap (fun t =>
          (t.actionForNewObject (now * 1000) bk).2.map
            (actionMetadata s.keyValMap s.keyLenMap bk.bucket (t.triggerOption + 1))) ↔
      ∀ t ∈ s.triggersOf bk.bucket, t.triggerOption + 1 = 0 ∨
        (t.actionForNewObject (now * 1000) bk).2.Pairwise fun action later =>
          Cached s.keyValMap bk.bucket action → Cached s.keyValMap bk.bucket later := by
  rw [checkObjectArrival_metadata, flatMap_eq_iff]
  · exact forall₂_congr fun t _ => describedFrom_eq_iff s.keyValMap bk.bucket s.keyLenMap _ _
  · intro t
    rw [length_describedFrom, List.length_map]

/-- A trigger with three data groups, a large object in the second and small ones in the
others.  Whether the groups come in the order of their arrival or in the reverse order, the
call of the second group has the name and the length of its object with flag 0, as if they
were values.  Described by its own object it would have flag 1. -/
theorem second_group_by_value :
    let bucket := Bytes.lit "b"
    let object (key : String) : BucketKey := ⟨bucket, Bytes.lit key, Bytes.lit "s"⟩
    let trigger : Trigger :=
      { targetFunction := Bytes.lit "f", triggerName := Bytes.lit "t", triggerOption := 0
        state := .dynamicGroup (.new (USet.ofList [Bytes.lit "ctrl:1"])) }
    let name (key : String) := getLocalObjectName bucket (Bytes.lit key) (Bytes.lit "s")
    let s : SchedState := { SchedState.new 0 0 with
      bucketTriggersMap := Shared.empty.push bucket trigger
      keyValMap := (Map.empty.set (name "x:1") (Bytes.lit "v")).set (name "z:1") (Bytes.lit "v")
      keyLenMap := ((Map.empty.set (name "x:1") 1).set (name "z:1") 1).set (name "y:1") 5000 }
    ∀ keys ∈ [["x:1", "y:1", "z:1"], ["z:1", "y:1", "x:1"]],
      let s' := keys.foldl (fun s key => (checkObjectArrival 0 (object key) s).1) s
      (checkObjectArrival 0 (object "ctrl:1") s').2.2 =
          [⟨Bytes.lit "f", [Bytes.lit "v"], 0⟩,
            ⟨Bytes.lit "f", [name "y:1", Bytes.lit "5000"], 0⟩,
            ⟨Bytes.lit "f", [Bytes.lit "v"], 0⟩] ∧
        ((s'.triggersOf bucket).flatMap fun t =>
          (t.actionForNewObject 0 (object "ctrl:1")).2.map
            (actionMetadata s'.keyValMap s'.keyLenMap bucket (t.triggerOption + 1))) =
          [⟨Bytes.lit "f", [Bytes.lit "v"], 0⟩,
            ⟨Bytes.lit "f", [name "y:1", Bytes.lit "5000"], 1⟩,
            ⟨Bytes.lit "f", [Bytes.lit "v"], 0⟩] := by
  decide +kernel

end Pheromone.Scheduler
