import Pheromone.Scheduler.Proofs.Effects

/-!
# What an update message does

A message of type 0 adds to what a scheduler knows of an application, one of
type 2 takes triggers out of their buckets.  A trigger is known here by its
signature.
-/

namespace Pheromone.Scheduler

open Lib Common

variable {src appName : Name} {msg : UpdateCoordMsg} {now : Stamp}

variable {s s' : SchedState} {dependency : DataDependency}

namespace SchedState

def appInfo (s : SchedState) (appName : Name) : AppInfo := s.appInfoMap.getD appName {}

/-- The direct dependencies that the send-object handler finds for a function. -/
def directDepsOf (s : SchedState) (func : Name) : Option (USet Name) :=
  (s.appInfo (s.funcAppMap.getD func [])).directDeps func

def signatures (s : SchedState) (bucket : Bucket) : List TriggerSignature :=
  (s.triggersOf bucket).map Trigger.signature

end SchedState

/-! ## Functions -/

theorem addFunction_foldl (appName : Name) (functions : List Name) (s : SchedState) :
    ∃ appInfoMap funcAppMap,
      functions.foldl (addFunction appName) s =
          { s with appInfoMap := appInfoMap, funcAppMap := funcAppMap } ∧
        (∀ f, funcAppMap f = if f ∈ functions then some appName else s.funcAppMap f) ∧
        ∀ app, appInfoMap.getD app {} = { s.appInfo app with
          functions := (s.appInfo app).functions ∪
            if app = appName then functions.toFinset else ∅ } := by
  induction functions generalizing s with
  | nil => exact ⟨s.appInfoMap, s.funcAppMap, rfl, by simp, by simp [SchedState.appInfo]⟩
  | cons func functions ih =>
    obtain ⟨appInfoMap, funcAppMap, heq, hfunc, hinfo⟩ := ih (addFunction appName s func)
    refine ⟨appInfoMap, funcAppMap, heq, fun f => ?_, fun app => ?_⟩
    · rw [hfunc f]
      simp only [List.mem_cons]
      by_cases hf : f ∈ functions
      · rw [if_pos hf, if_pos (Or.inr hf)]
      · rw [if_neg hf]
        change s.funcAppMap.set func appName f = _
        rw [Map.set_apply]
        by_cases heq : f = func
        · rw [if_pos heq, if_pos (Or.inl heq)]
        · rw [if_neg heq, if_neg (by simp [heq, hf])]
    · rw [hinfo app]
      have hadd : (addFunction appName s func).appInfo app =
          if app = appName then { s.appInfo appName with
            functions := insert func (s.appInfo appName).functions }
          else s.appInfo app := Map.getD_set _ _ _ _ _
      rw [hadd]
      by_cases happ : app = appName
      · subst happ
        simp
      · simp [happ]

/-! ## Direct dependencies -/

def recordDirect (directDeps : Map Name (USet Name)) (dependency : DataDependency) :
    Map Name (USet Name) :=
  match dependency.srcFunctions.head? with
  | none => directDeps
  | some src =>
      if dependency.type ≠ .direct ∨ dependency.tgtFunctions = [] then directDeps
      else directDeps.set src
        (dependency.tgtFunctions.foldl USet.insert (directDeps.getD src USet.empty))

theorem addDependency_spec (h : addDependency appName s dependency = some s') :
    ∃ appInfoMap, s' = { s with appInfoMap := appInfoMap } ∧
      ∀ app, appInfoMap.getD app {} = { s.appInfo app with
        directDeps := if app = appName then recordDirect (s.appInfo app).directDeps dependency
          else (s.appInfo app).directDeps } := by
  unfold addDependency at h
  split at h
  next hindirect =>
    cases h
    refine ⟨s.appInfoMap, rfl, fun app => ?_⟩
    have hrecord : recordDirect (s.appInfo app).directDeps dependency =
        (s.appInfo app).directDeps := by
      unfold recordDirect
      split
      · rfl
      · rw [if_pos (Or.inl hindirect)]
    rw [hrecord, ite_self]
    rfl
  next hdirect =>
    obtain ⟨src, hsrc, rfl⟩ := Option.map_eq_some_iff.mp h
    simp only
    have hrecord : ∀ app, recordDirect (s.appInfo app).directDeps dependency =
        if dependency.tgtFunctions = [] then (s.appInfo app).directDeps
        else (s.appInfo app).directDeps.set src
          (dependency.tgtFunctions.foldl USet.insert
            ((s.appInfo app).directDeps.getD src USet.empty)) := by
      intro app
      unfold recordDirect
      simp only [hsrc, hdirect, false_or]
    by_cases htargets : dependency.tgtFunctions = []
    · rw [if_pos htargets]
      refine ⟨s.appInfoMap, rfl, fun app => ?_⟩
      rw [hrecord, if_pos htargets, ite_self]
      rfl
    · rw [if_neg htargets]
      refine ⟨_, rfl, fun app => ?_⟩
      rw [hrecord, if_neg htargets, Map.getD_set]
      by_cases happ : app = appName
      · subst happ
        simp [SchedState.appInfo]
      · simp [happ, SchedState.appInfo]

theorem addDependency_foldlM {dependencies : List DataDependency}
    (h : dependencies.foldlM (addDependency appName) s = some s') :
    ∃ appInfoMap, s' = { s with appInfoMap := appInfoMap } ∧
      ∀ app, appInfoMap.getD app {} = { s.appInfo app with
        directDeps := if app = appName then
            dependencies.foldl recordDirect (s.appInfo app).directDeps
          else (s.appInfo app).directDeps } := by
  induction dependencies generalizing s with
  | nil =>
    cases h
    exact ⟨s'.appInfoMap, rfl, fun app => by simp [SchedState.appInfo]⟩
  | cons dependency dependencies ih =>
    obtain ⟨s₁, hs₁, h⟩ := foldlM_cons_eq_some.mp h
    obtain ⟨m₁, rfl, hinfo₁⟩ := addDependency_spec hs₁
    obtain ⟨m, rfl, hinfo⟩ := ih h
    refine ⟨m, rfl, fun app => ?_⟩
    have hmid : ({ s with appInfoMap := m₁ } : SchedState).appInfo app = m₁.getD app {} := rfl
    rw [hinfo app, hmid, hinfo₁ app]
    by_cases happ : app = appName
    · simp [happ]
    · simp [happ]

theorem addDependency_isSome_iff (appName : Name) (s : SchedState)
    (dependency : DataDependency) :
    (addDependency appName s dependency).isSome ↔
      (dependency.type = .direct → dependency.srcFunctions ≠ []) := by
  unfold addDependency
  by_cases hdirect : dependency.type = .direct
  · rw [if_neg (by simp [hdirect]), Option.isSome_map, List.isSome_head?]
    simp [hdirect]
  · rw [if_pos hdirect]
    simp [hdirect]

theorem addDependency_foldlM_isSome_iff (appName : Name) (dependencies : List DataDependency)
    (s : SchedState) :
    (dependencies.foldlM (addDependency appName) s).isSome ↔
      ∀ d ∈ dependencies, d.type = .direct → d.srcFunctions ≠ [] :=
  foldlM_isSome_iff (addDependency_isSome_iff appName) dependencies s

def Declares (dependency : DataDependency) (src : Name) : Prop :=
  dependency.type = .direct ∧ dependency.srcFunctions.head? = some src ∧
    dependency.tgtFunctions ≠ []

theorem recordDirect_of_declares (directDeps : Map Name (USet Name)) (h : Declares dependency src) :
    recordDirect directDeps dependency src =
      some (dependency.tgtFunctions.foldl USet.insert (directDeps.getD src USet.empty)) := by
  unfold recordDirect
  rw [h.2.1]
  simp only
  rw [if_neg (by simp [h.1, h.2.2]), Map.set_self]

theorem recordDirect_of_not_declares (directDeps : Map Name (USet Name))
    (h : ¬ Declares dependency src) : recordDirect directDeps dependency src = directDeps src := by
  unfold recordDirect
  cases hsrc : dependency.srcFunctions.head? with
  | none => rfl
  | some src' =>
    simp only
    split
    · rfl
    next hentry =>
      rw [not_or, not_not] at hentry
      refine Map.set_of_ne _ _ fun heq => h ?_
      rw [heq]
      exact ⟨hentry.1, hsrc, hentry.2⟩

theorem recordDirect_eq_none_iff (directDeps : Map Name (USet Name))
    (dependency : DataDependency) (src : Name) :
    recordDirect directDeps dependency src = none ↔
      directDeps src = none ∧ ¬ Declares dependency src := by
  by_cases h : Declares dependency src
  · rw [recordDirect_of_declares _ h]
    simp [h]
  · rw [recordDirect_of_not_declares _ h]
    simp [h]

theorem recordDirect_foldl_eq_none_iff (dependencies : List DataDependency)
    (directDeps : Map Name (USet Name)) (src : Name) :
    dependencies.foldl recordDirect directDeps src = none ↔
      directDeps src = none ∧ ∀ d ∈ dependencies, ¬ Declares d src := by
  induction dependencies generalizing directDeps with
  | nil => simp
  | cons d dependencies ih =>
    rw [List.foldl_cons, ih, recordDirect_eq_none_iff]
    simp only [List.mem_cons, forall_eq_or_imp]
    tauto

def DependsOn (directDeps : Map Name (USet Name)) (src tgt : Name) : Prop :=
  tgt ∈ directDeps.getD src USet.empty

theorem mem_foldl_insert (l : List Name) (targets : USet Name) (tgt : Name) :
    tgt ∈ l.foldl USet.insert targets ↔ tgt ∈ l ∨ tgt ∈ targets := by
  induction l generalizing targets with
  | nil => simp
  | cons a l ih =>
    rw [List.foldl_cons, ih, USet.mem_insert, List.mem_cons]
    tauto

theorem recordDirect_dependsOn (directDeps : Map Name (USet Name))
    (dependency : DataDependency) (src tgt : Name) :
    DependsOn (recordDirect directDeps dependency) src tgt ↔
      DependsOn directDeps src tgt ∨
        (Declares dependency src ∧ tgt ∈ dependency.tgtFunctions) := by
  unfold DependsOn Map.getD
  by_cases h : Declares dependency src
  · rw [recordDirect_of_declares _ h, Option.getD_some, mem_foldl_insert]
    simp only [h, true_and]
    exact or_comm
  · rw [recordDirect_of_not_declares _ h]
    simp [h]

theorem recordDirect_foldl_dependsOn (dependencies : List DataDependency)
    (directDeps : Map Name (USet Name)) (src tgt : Name) :
    DependsOn (dependencies.foldl recordDirect directDeps) src tgt ↔
      DependsOn directDeps src tgt ∨
        ∃ d ∈ dependencies, Declares d src ∧ tgt ∈ d.tgtFunctions := by
  induction dependencies generalizing directDeps with
  | nil => simp
  | cons d dependencies ih =>
    rw [List.foldl_cons, ih, recordDirect_dependsOn]
    simp only [List.mem_cons, exists_eq_or_imp]
    tauto

theorem foldl_insert_of_mem {l : List Name} {targets : USet Name} (h : ∀ a ∈ l, a ∈ targets) :
    l.foldl USet.insert targets = targets := by
  induction l with
  | nil => rfl
  | cons a l ih =>
    have ha : targets.insert a = targets := dif_pos (h a List.mem_cons_self)
    rw [List.foldl_cons, ha]
    exact ih fun b hb => h b (List.mem_cons_of_mem _ hb)

theorem recordDirect_foldl_again (dependencies : List DataDependency)
    (directDeps : Map Name (USet Name)) :
    dependencies.foldl recordDirect (dependencies.foldl recordDirect directDeps) =
      dependencies.foldl recordDirect directDeps := by
  generalize hrecorded : dependencies.foldl recordDirect directDeps = recorded
  have hfixed : ∀ d ∈ dependencies, recordDirect recorded d = recorded := by
    intro d hd
    unfold recordDirect
    split
    · rfl
    next src hsrc =>
      by_cases hskip : d.type ≠ .direct ∨ d.tgtFunctions = []
      · rw [if_pos hskip]
      · rw [if_neg hskip]
        rw [not_or, not_not] at hskip
        have hdeclares : Declares d src := ⟨hskip.1, hsrc, hskip.2⟩
        have hsome : recorded src ≠ none := by
          rw [← hrecorded, Ne, recordDirect_foldl_eq_none_iff]
          exact fun hnone => hnone.2 d hd hdeclares
        obtain ⟨targets, htargets⟩ := Option.ne_none_iff_exists'.mp hsome
        have hall : ∀ tgt ∈ d.tgtFunctions, tgt ∈ recorded.getD src USet.empty := by
          intro tgt htgt
          rw [← hrecorded]
          exact (recordDirect_foldl_dependsOn dependencies directDeps src tgt).mpr
            (Or.inr ⟨d, hd, hdeclares, htgt⟩)
        rw [foldl_insert_of_mem hall, Map.getD_of_some _ htargets]
        exact Function.update_eq_self_iff.mpr htargets.symm
  clear hrecorded
  induction dependencies with
  | nil => rfl
  | cons d dependencies ih =>
    rw [List.foldl_cons, hfixed d List.mem_cons_self]
    exact ih fun d' hd' => hfixed d' (List.mem_cons_of_mem _ hd')

/-! ## Triggers -/

/-- The signature of the trigger that a scheduler makes for an entity, if it makes
one. -/
def entitySignature (entity : TriggerEntity) : Option TriggerSignature :=
  if entity.triggerName = [] then none
  else (genTriggerPointer 0 entity.primitiveType entity.triggerName entity.primitive).map
    fun trigger => (trigger.setTriggerOption (intOfUInt32 entity.triggerOption)).signature

theorem genTriggerPointer_signature (now : TimePoint) (type : PrimitiveType) (name : Name)
    (primitive : Primitive) (option : Int) :
    ((genTriggerPointer now type name primitive).map
        fun t => (t.setTriggerOption option).signature) =
      (genTriggerPointer 0 type name primitive).map
        fun t => (t.setTriggerOption option).signature := by
  cases type <;> rfl

def entityTrigger (now : Stamp) (entity : TriggerEntity) : Option Trigger :=
  if entity.triggerName = [] then none
  else (genTriggerPointer (now * 1000) entity.primitiveType entity.triggerName
      entity.primitive).map fun trigger =>
    (trigger.setTriggerOption (intOfUInt32 entity.triggerOption)).setRerunMetadata
      (entity.hints.map fun hint =>
        { sourceFunc := hint.sourceFunction
          sourceKey := hint.sourceKey
          timeout := hint.timeout })

theorem entityTrigger_signature (now : Stamp) (entity : TriggerEntity) :
    (entityTrigger now entity).map Trigger.signature = entitySignature entity := by
  unfold entityTrigger entitySignature
  split
  · rfl
  · rw [← genTriggerPointer_signature (now * 1000), Option.map_map]
    congr 1
    funext trigger
    exact Trigger.signature_setRerunMetadata _ _

theorem triggersOf_addEntity (now : Stamp) (coord : HandlerThread) (appName : Name)
    (s : SchedState) (entity : TriggerEntity) (b : Bucket) :
    (addEntity now coord appName s entity).triggersOf b =
      s.triggersOf b ++
        if entity.bucketName = b then (entityTrigger now entity).toList else [] := by
  unfold addEntity entityTrigger
  simp only
  by_cases hname : entity.triggerName = []
  · rw [if_pos hname, if_pos hname, Option.toList_none, ite_self, List.append_nil]
    rfl
  · rw [if_neg hname, if_neg hname]
    cases genTriggerPointer (now * 1000) entity.primitiveType entity.triggerName
        entity.primitive with
    | none =>
      rw [Option.map_none, Option.toList_none, ite_self, List.append_nil]
      rfl
    | some trigger =>
      by_cases hb : entity.bucketName = b
      · subst hb
        rw [if_pos rfl]
        exact Shared.list_push_self _ _ _
      · rw [if_neg hb, List.append_nil]
        exact Shared.list_push_of_ne _ _ (Ne.symm hb)

theorem addEntity_spec (now : Stamp) (coord : HandlerThread) (appName : Name) (s : SchedState)
    (entity : TriggerEntity) :
    let s' := addEntity now coord appName s entity
    (s'.funcAppMap = s.funcAppMap ∧ s'.appCoordMap = s.appCoordMap) ∧
      (∀ app, (s'.appInfo app).functions = (s.appInfo app).functions ∧
        (s'.appInfo app).directDeps = (s.appInfo app).directDeps) ∧
      (s'.bucketCoordMap = s.bucketCoordMap.set entity.bucketName coord ∧
        s'.bucketAppMap = s.bucketAppMap.set entity.bucketName appName) ∧
      ∀ b, s'.signatures b = s.signatures b ++
        if entity.bucketName = b then (entitySignature entity).toList else [] := by
  have hinfo : ∀ app,
      ((s.appInfoMap.set appName { s.appInfo appName with
          buckets := (s.appInfo appName).buckets ++ [entity.bucketName] }).getD app {}).functions =
        (s.appInfo app).functions ∧
      ((s.appInfoMap.set appName { s.appInfo appName with
          buckets := (s.appInfo appName).buckets ++ [entity.bucketName] }).getD app {}).directDeps =
        (s.appInfo app).directDeps := by
    intro app
    rw [Map.getD_set]
    by_cases happ : app = appName
    · simp [happ]
    · rw [if_neg happ]
      exact ⟨rfl, rfl⟩
  have hsignatures : ∀ b, (addEntity now coord appName s entity).signatures b =
      s.signatures b ++
        if entity.bucketName = b then (entitySignature entity).toList else [] := by
    intro b
    unfold SchedState.signatures
    rw [triggersOf_addEntity, List.map_append, ← entityTrigger_signature now]
    by_cases hb : entity.bucketName = b
    · rw [if_pos hb, if_pos hb]
      cases entityTrigger now entity <;> rfl
    · rw [if_neg hb, if_neg hb]
      rfl
  refine ⟨?_, ?_, ?_, hsignatures⟩
  all_goals
    unfold addEntity
    simp only
    split
  · exact ⟨rfl, rfl⟩
  · split <;> exact ⟨rfl, rfl⟩
  · exact hinfo
  · split <;> exact hinfo
  · exact ⟨rfl, rfl⟩
  · split <;> exact ⟨rfl, rfl⟩

def signaturesFor (bucket : Bucket) (entities : List TriggerEntity) : List TriggerSignature :=
  (entities.filter fun entity => entity.bucketName = bucket).filterMap entitySignature

theorem addEntity_foldl (now : Stamp) (coord : HandlerThread) (appName : Name)
    (entities : List TriggerEntity) (s : SchedState) :
    let s' := entities.foldl (addEntity now coord appName) s
    (s'.funcAppMap = s.funcAppMap ∧ s'.appCoordMap = s.appCoordMap) ∧
      (∀ app, (s'.appInfo app).functions = (s.appInfo app).functions ∧
        (s'.appInfo app).directDeps = (s.appInfo app).directDeps) ∧
      (s'.bucketCoordMap = (entities.map TriggerEntity.bucketName).foldl
          (fun m b => m.set b coord) s.bucketCoordMap ∧
        s'.bucketAppMap = (entities.map TriggerEntity.bucketName).foldl
          (fun m b => m.set b appName) s.bucketAppMap) ∧
      ∀ b, s'.signatures b = s.signatures b ++ signaturesFor b entities := by
  induction entities generalizing s with
  | nil => simp [signaturesFor]
  | cons entity entities ih =>
    obtain ⟨⟨hfunc₁, happ₁⟩, hinfo₁, hbuckets₁, hsig₁⟩ :=
      addEntity_spec now coord appName s entity
    obtain ⟨⟨hfunc, happ⟩, hinfo, hbuckets, hsig⟩ := ih (addEntity now coord appName s entity)
    rw [hbuckets₁.1, hbuckets₁.2] at hbuckets
    simp only [List.foldl_cons]
    refine ⟨⟨hfunc.trans hfunc₁, happ.trans happ₁⟩,
      fun app => ⟨(hinfo app).1.trans (hinfo₁ app).1, (hinfo app).2.trans (hinfo₁ app).2⟩,
      hbuckets, fun b => ?_⟩
    rw [hsig b, hsig₁ b, List.append_assoc]
    congr 1
    unfold signaturesFor
    by_cases hb : entity.bucketName = b
    · rw [if_pos hb, List.filter_cons_of_pos (by simpa using hb), List.filterMap_cons]
      cases entitySignature entity <;> rfl
    · rw [if_neg hb, List.filter_cons_of_neg (by simpa using hb)]
      rfl

theorem triggersOf_addEntity_foldl (now : Stamp) (coord : HandlerThread) (appName : Name)
    (entities : List TriggerEntity) (s : SchedState) (b : Bucket) :
    (entities.foldl (addEntity now coord appName) s).triggersOf b =
      s.triggersOf b ++ entities.flatMap fun entity =>
        if entity.bucketName = b then (entityTrigger now entity).toList else [] := by
  induction entities generalizing s with
  | nil => rw [List.flatMap_nil, List.append_nil, List.foldl_nil]
  | cons entity entities ih =>
    rw [List.foldl_cons, ih, triggersOf_addEntity, List.flatMap_cons, List.append_assoc]

/-! ## Messages of type 0 -/

def coordOf (msg : UpdateCoordMsg) : HandlerThread := { ip := msg.ip, tid := msg.threadId }

/-- What a scheduler knows after a message of type 0. -/
structure Added (msg : UpdateCoordMsg) (s s' : SchedState) : Prop where
  functions : ∀ app, (s'.appInfo app).functions = (s.appInfo app).functions ∪
    if app = msg.appName then msg.functions.toFinset else ∅
  funcApp : ∀ f, s'.funcAppMap f =
    if f ∈ msg.functions then some msg.appName else s.funcAppMap f
  directDeps : ∀ app, (s'.appInfo app).directDeps =
    if app = msg.appName then msg.dependencies.foldl recordDirect (s.appInfo app).directDeps
    else (s.appInfo app).directDeps
  appCoord : s'.appCoordMap = s.appCoordMap.set msg.appName (coordOf msg)
  bucketCoord : ∀ b, s'.bucketCoordMap b =
    if b ∈ msg.triggers.map TriggerEntity.bucketName then some (coordOf msg)
    else s.bucketCoordMap b
  bucketApp : ∀ b, s'.bucketAppMap b =
    if b ∈ msg.triggers.map TriggerEntity.bucketName then some msg.appName else s.bucketAppMap b
  signatures : ∀ b, s'.signatures b = s.signatures b ++ signaturesFor b msg.triggers

theorem addUpdate_added (h : addUpdate now msg s = some s') : Added msg s s' := by
  unfold addUpdate at h
  obtain ⟨s₂, hs₂, rfl⟩ := Option.map_eq_some_iff.mp h
  obtain ⟨m₁, funcAppMap, heq₁, hfunc₁, hinfo₁⟩ := addFunction_foldl msg.appName msg.functions
    { s with appCoordMap := s.appCoordMap.set msg.appName (coordOf msg) }
  change msg.dependencies.foldlM (addDependency msg.appName)
    (msg.functions.foldl (addFunction msg.appName)
      { s with appCoordMap := s.appCoordMap.set msg.appName (coordOf msg) }) = some s₂ at hs₂
  rw [heq₁] at hs₂
  obtain ⟨m₂, rfl, hinfo₂⟩ := addDependency_foldlM hs₂
  obtain ⟨⟨hfunc, happ⟩, hinfo, hbuckets, hsig⟩ := addEntity_foldl now (coordOf msg) msg.appName
    msg.triggers
    { s with
      appCoordMap := s.appCoordMap.set msg.appName (coordOf msg)
      appInfoMap := m₂
      funcAppMap := funcAppMap }
  have hmid : ∀ app, (m₂.getD app {}).functions = (s.appInfo app).functions ∪
        (if app = msg.appName then msg.functions.toFinset else ∅) ∧
      (m₂.getD app {}).directDeps =
        if app = msg.appName then msg.dependencies.foldl recordDirect (s.appInfo app).directDeps
        else (s.appInfo app).directDeps := by
    intro app
    have h₁ := hinfo₁ app
    have h₂ := hinfo₂ app
    simp only [SchedState.appInfo] at h₁ h₂ ⊢
    rw [h₂, h₁]
    exact ⟨rfl, rfl⟩
  refine ⟨fun app => (hinfo app).1.trans (hmid app).1,
    fun f => (congrFun hfunc f).trans (hfunc₁ f),
    fun app => (hinfo app).2.trans (hmid app).2, happ, fun b => ?_, fun b => ?_, hsig⟩
  · refine (congrFun hbuckets.1 b).trans ?_
    rw [Map.foldl_set_apply]
    congr
  · refine (congrFun hbuckets.2 b).trans ?_
    rw [Map.foldl_set_apply]
    congr

theorem addUpdate_triggersOf (h : addUpdate now msg s = some s') (b : Bucket) :
    s'.triggersOf b = s.triggersOf b ++ msg.triggers.flatMap fun entity =>
      if entity.bucketName = b then (entityTrigger now entity).toList else [] := by
  obtain ⟨_, ⟨_, _, _, rfl⟩, rfl⟩ := addUpdate_cases h
  exact triggersOf_addEntity_foldl now (coordOf msg) msg.appName msg.triggers _ b

theorem addUpdate_isSome_iff (now : Stamp) (msg : UpdateCoordMsg) (s : SchedState) :
    (addUpdate now msg s).isSome ↔
      ∀ d ∈ msg.dependencies, d.type = .direct → d.srcFunctions ≠ [] := by
  unfold addUpdate
  rw [Option.isSome_map]
  exact addDependency_foldlM_isSome_iff _ _ _

/-! ## The triggers of all buckets -/

abbrev TriggerView := Bucket → List TriggerSignature

namespace TriggerView

def erase (view : TriggerView) (bucket : Bucket) (name : Name) : Option TriggerView :=
  if (view bucket).any (fun t => t.triggerName = name) then
    some (Function.update view bucket ((view bucket).eraseP fun t => t.triggerName = name))
  else none

/-- What an update message is meant to do to the triggers. -/
def update (view : TriggerView) (msg : UpdateCoordMsg) : Option TriggerView :=
  match msg.msgType with
  | 0 =>
      if ∀ d ∈ msg.dependencies, d.type = .direct → d.srcFunctions ≠ [] then
        some fun bucket => view bucket ++ signaturesFor bucket msg.triggers
      else none
  | 2 => msg.triggers.foldlM
      (fun view entity => view.erase entity.bucketName entity.triggerName) view
  | _ => some view

end TriggerView

theorem clearUpdate_signatures (msg : UpdateCoordMsg) (s : SchedState) :
    (clearUpdate msg s).signatures = s.signatures := by
  refine foldl_unchanged SchedState.signatures ?_ msg.triggers s
  intro s entity
  funext bucket
  unfold SchedState.signatures SchedState.triggersOf
  by_cases hb : bucket = entity.bucketName
  · subst hb
    rw [Shared.list_visit_self, List.map_map]
    apply List.map_congr_left
    intro t _
    simp only [Function.comp_apply]
    split
    · exact Trigger.signature_clear _ _
    · rfl
  · rw [Shared.list_visit_of_ne _ _ hb]

theorem eraseFirst_signatures (s : SchedState) (bucket : Bucket) (name : Name) :
    ((s.bucketTriggersMap.eraseFirst bucket fun t => t.triggerName = name).map
        fun triggers => ({ s with bucketTriggersMap := triggers } : SchedState).signatures) =
      TriggerView.erase s.signatures bucket name := by
  have hany : (s.signatures bucket).any (fun t => t.triggerName = name) =
      (s.triggersOf bucket).any fun t => t.triggerName = name := by
    unfold SchedState.signatures
    rw [List.any_map]
    rfl
  unfold TriggerView.erase
  rw [hany]
  cases herase : s.bucketTriggersMap.eraseFirst bucket fun t => t.triggerName = name with
  | none =>
    have hnone := Shared.eraseFirst_eq_none_iff.mp herase
    have hfalse : ¬ (s.triggersOf bucket).any (fun t => t.triggerName = name) = true := by
      rw [List.any_eq_true]
      rintro ⟨t, ht, hq⟩
      rw [hnone t ht] at hq
      cases hq
    rw [if_neg hfalse]
    rfl
  | some triggers =>
    obtain ⟨htrue, hself, hother⟩ := Shared.eraseFirst_eq_some herase
    change (s.triggersOf bucket).any (fun t => t.triggerName = name) = true at htrue
    rw [if_pos htrue, Option.map_some]
    congr 1
    funext b
    unfold SchedState.signatures SchedState.triggersOf
    by_cases hb : b = bucket
    · subst hb
      rw [Function.update_self, hself, List.eraseP_map]
      rfl
    · rw [Function.update_of_ne hb, hother b hb]

theorem handleUpdate_signatures (now : Stamp) (msg : UpdateCoordMsg) (s : SchedState) :
    (handleUpdate now msg s).map SchedState.signatures =
      TriggerView.update s.signatures msg := by
  unfold handleUpdate TriggerView.update
  split
  next htype =>
    have hsome := addUpdate_isSome_iff now msg s
    simp only [htype]
    cases hadd : addUpdate now msg s with
    | none =>
      rw [hadd] at hsome
      rw [if_neg (by simpa using hsome)]
      rfl
    | some s' =>
      rw [hadd] at hsome
      rw [if_pos (by simpa using hsome), Option.map_some]
      congr 1
      funext b
      exact (addUpdate_added hadd).signatures b
  next htype =>
    simp only [htype, Option.map_some, clearUpdate_signatures]
  next htype =>
    simp only [htype]
    refine foldlM_map SchedState.signatures ?_ msg.triggers s
    intro s entity
    rw [Option.map_map]
    exact eraseFirst_signatures s entity.bucketName entity.triggerName
  next h₀ _ h₂ =>
    split
    · exact absurd ‹_› h₀
    · exact absurd ‹_› h₂
    · rfl

end Pheromone.Scheduler
