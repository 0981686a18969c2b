import Pheromone.Cluster.Proofs.Deletion
import Pheromone.Coordinator.Proofs.NotifyLog
import Pheromone.Scheduler.Proofs.Accounting
import Pheromone.Scheduler.Proofs.SendLog

/-!
# Applications that are registered twice

The functions, direct dependencies and owners of a registration go into maps and
sets, where the second registration finds them.  Its triggers are appended to the
lists of their buckets, on the coordinator and on the nodes, and each of them fires
for itself.
-/

namespace Pheromone.Cluster

open Lib Common Coordinator Scheduler

variable {msg₁ msg₂ : UpdateCoordMsg} {outs₁ outs₂ : List CoordOut} {s : SchedState} {t : Trigger}

variable {now : TimePoint} {c₁ c₂ : CoordState} {dependency : DataDependency}
  {registration : AppRegistration} {outs : List CoordOut} {randR : RandR} {s₁ s₂ : SchedState}

/-! ## Dependencies that never fire -/

/-- The dependency makes no trigger that can fire. -/
def Inert (dependency : DataDependency) : Prop :=
  match dependency.type with
  | .direct | .unrecognized _ => True
  | .manyToOne => dependency.srcFunctions = []
  | .kOutOfN => (((Bytes.split 44 dependency.description).head?.bind Bytes.stoi).map
      uint32OfInt) = some 0
  | .periodic => False

theorem triggerOfDependency_silent {tgt : Name} (hinert : Inert dependency)
    (h : triggerOfDependency now dependency tgt = some (some t)) : t.Silent ∧ t.type ≠ .byTime := by
  unfold triggerOfDependency at h
  unfold Inert at hinert
  cases htype : dependency.type with
  | direct | unrecognized _ => simp [htype] at h
  | periodic => simp [htype] at hinert
  | manyToOne =>
    simp only [htype] at h hinert
    cases h
    rw [hinert]
    refine ⟨rfl, ?_⟩
    simp [dependencyTrigger, Trigger.type, TriggerState.type]
  | kOutOfN =>
    simp only [htype] at h hinert
    split at h
    next k n rest hsplit =>
      simp only [Option.bind_eq_bind, Option.bind_eq_some_iff] at h
      obtain ⟨knum, hk, nnum, -, h⟩ := h
      cases h
      rw [hsplit, List.head?_cons, Option.bind_some, hk] at hinert
      refine ⟨⟨Option.some.inj hinert, Or.inl rfl⟩, ?_⟩
      simp [dependencyTrigger, Trigger.type, TriggerState.type]
    · cases h

theorem dependencyTriggers_silent (hinert : Inert dependency) (b : Bucket) :
    ∀ t ∈ dependencyTriggers now dependency b, t.Silent := by
  intro t ht
  unfold dependencyTriggers at ht
  split at ht
  · cases ht
  split at ht
  · cases ht
  next tgt _ =>
    split at ht
    · rw [Option.mem_toList, Option.join_eq_some_iff] at ht
      exact (triggerOfDependency_silent hinert ht).1
    · cases ht

theorem entityTrigger_silent {t' : Trigger} {now : Stamp} {bucket : Bucket} (hsilent : t.Silent)
    (h : entityTrigger now (dependencyEntity bucket t) = some t') : t'.Silent := by
  unfold entityTrigger at h
  split at h
  · cases h
  obtain ⟨u, hu, rfl⟩ := Option.map_eq_some_iff.mp h
  obtain ⟨target, name, option, state⟩ := t
  cases state with
  | bySet b =>
    cases hu
    have hempty : b.keySet = USet.empty := hsilent
    change USet.ofList b.keySet.elems = USet.empty
    rw [USet.ofList_elems, hempty]
  | redundant r =>
    cases hu
    exact ⟨hsilent.1, Or.inl rfl⟩
  | immediate _ | byName _ | byBatchSize _ | dynamicGroup _ | byTime _ =>
    exact absurd hsilent id

theorem dependencyEntities_silent {time : Stamp} (hinert : Inert dependency) :
    ∀ entity ∈ dependencyEntities now dependency, ∀ t,
      entityTrigger time entity = some t → t.Silent := by
  intro entity hentity t ht
  unfold dependencyEntities at hentity
  split at hentity
  · cases hentity
  split at hentity
  · cases hentity
  next tgt _ =>
    obtain ⟨trigger, htrigger, rfl⟩ := List.mem_map.mp hentity
    rw [Option.mem_toList] at htrigger
    cases trigger with
    | none => cases ht
    | some u =>
      obtain ⟨hsilent, htype⟩ := triggerOfDependency_silent hinert htrigger
      unfold entityOf at ht
      simp only [if_neg htype] at ht
      exact entityTrigger_silent hsilent ht

/-! ## Dependencies that fire -/

theorem triggerOfDependency_fires {now : TimePoint} {dependency : DataDependency} {tgt : Name}
    (hdescribed : Described dependency) (hinert : ¬ Inert dependency) (bucket : Bucket) :
    ∃ t, triggerOfDependency now dependency tgt = some (some t) ∧ t.Fires bucket := by
  unfold triggerOfDependency
  unfold Inert at hinert
  unfold Described at hdescribed
  cases htype : dependency.type with
  | direct | unrecognized _ => simp [htype] at hinert
  | manyToOne =>
    simp only [htype] at hinert ⊢
    refine ⟨_, rfl, bySet_fires bucket rfl ?_⟩
    obtain ⟨src, hsrc⟩ := List.exists_mem_of_ne_nil _ hinert
    have hmem : keyOfSource src ∈ USet.ofList (dependency.srcFunctions.map keyOfSource) :=
      USet.mem_ofList.mpr (List.mem_map_of_mem hsrc)
    exact List.ne_nil_of_mem hmem
  | kOutOfN =>
    simp only [htype] at hinert hdescribed ⊢
    obtain ⟨k, n, rest, hsplit, hk, hn⟩ := hdescribed
    obtain ⟨knum, hk⟩ := Option.isSome_iff_exists.mp hk
    obtain ⟨nnum, hn⟩ := Option.isSome_iff_exists.mp hn
    rw [hsplit, List.head?_cons, Option.bind_some, hk, Option.map_some,
      Option.some.injEq] at hinert
    simp only [hsplit, hk, hn, Option.bind_eq_bind, Option.bind_some]
    refine ⟨_, rfl, redundant_fires bucket rfl ?_⟩
    change 0 < uint32OfInt knum
    rw [UInt32.lt_iff_toNat_lt]
    have hne : (uint32OfInt knum).toNat ≠ 0 := by
      intro hzero
      exact hinert (UInt32.toNat_inj.mp hzero)
    simp only [UInt32.reduceToNat]
    omega
  | periodic =>
    simp only [htype] at hdescribed ⊢
    obtain ⟨window, hwindow⟩ := Option.isSome_iff_exists.mp hdescribed
    rw [hwindow]
    exact ⟨_, rfl, byTime_fires bucket rfl⟩

theorem dependencyTriggers_fires (now : TimePoint) (hhandled : dependency.type ≠ .direct →
      dependency.tgtFunctions ≠ [] ∧ Described dependency) (hinert : ¬ Inert dependency) :
    ∃ bucket t, dependencyBucket dependency = some bucket ∧
      dependencyTriggers now dependency = alone bucket t ∧ t.Fires bucket := by
  have hdirect : dependency.type ≠ .direct := by
    intro heq
    apply hinert
    unfold Inert
    rw [heq]
    trivial
  obtain ⟨htgts, hdescribed⟩ := hhandled hdirect
  obtain ⟨tgt, rest, htgt⟩ := List.exists_cons_of_ne_nil htgts
  obtain ⟨t, ht, hfires⟩ := @triggerOfDependency_fires now dependency tgt hdescribed hinert
    (bucketOfTarget tgt)
  refine ⟨bucketOfTarget tgt, t, ?_, ?_, hfires⟩
  · unfold dependencyBucket
    rw [if_neg hdirect, htgt]
    rfl
  · funext b
    unfold dependencyTriggers alone
    rw [if_neg hdirect, htgt]
    simp only [List.head?_cons, ht, Option.join_some, Option.toList_some, eq_comm]

/-! ## The coordinator -/

/-- The notified objects start every function as often from `c₂` as from `c₁`. -/
def FiresAlike (randR : RandR) (c₁ c₂ : CoordState) : Prop :=
  ∀ requests : List (TimePoint × KeyNotifyRequest),
    (∀ request ∈ requests, ∀ address ∈ request.2.addresses, Sent address) →
    ∃ outs₁ outs₂, notifyAll randR requests c₁ = some outs₁ ∧
      notifyAll randR requests c₂ = some outs₂ ∧
      ∀ func, timesFired func (firedOf outs₂) = timesFired func (firedOf outs₁)

theorem timesFired_again (h : appRegisterHandler now c₁ registration = some (c₂, outs))
    (happs : c₂.bucketAppMap = c₁.bucketAppMap) (howned₁ : c₁.TriggersOwned)
    (howned₂ : c₂.TriggersOwned) {requests : List (TimePoint × KeyNotifyRequest)}
    (h₁ : notifyAll randR requests c₁ = some outs₁) (h₂ : notifyAll randR requests c₂ = some outs₂)
    (func : Name) :
    timesFired func (firedOf outs₂) = timesFired func (firedOf outs₁) +
      (registration.dependencies.map fun d => timesFired func
        (firedBy (allChecks c₁.bucketAppMap requests) (dependencyTriggers now d))).sum := by
  have htriggers : c₂.triggersOf = fun b => c₁.triggersOf b ++
      registration.dependencies.flatMap fun d => dependencyTriggers now d b := by
    funext b
    exact (appRegisterHandler_adds h).1 b
  rw [firedOf_notifyAll h₂ howned₂, happs, htriggers, timesFired_firedBy_append,
    timesFired_firedBy_flatMap, firedOf_notifyAll h₁ howned₁]

theorem inert_of_firesAlike (h : appRegisterHandler now c₁ registration = some (c₂, outs))
    (happs : c₂.bucketAppMap = c₁.bucketAppMap) (howned₁ : c₁.TriggersOwned)
    (howned₂ : c₂.TriggersOwned) (halike : FiresAlike randR c₁ c₂) :
    ∀ d ∈ registration.dependencies, Inert d := by
  intro d hd
  by_contra hinert
  have hhandled := (appRegisterHandler_isSome_iff now c₁ registration).mp (by rw [h]; rfl) d hd
  obtain ⟨bucket, t, hbucket, htriggers, checks, hchecks, hfired⟩ :=
    dependencyTriggers_fires now hhandled hinert
  have hmem : bucket ∈ registeredBuckets registration.dependencies :=
    List.mem_filterMap.mpr ⟨d, hd, hbucket⟩
  have happ : c₁.bucketAppMap bucket = some registration.appName := by
    rw [← happs, (appRegisterHandler_registers h).owner, if_pos hmem]
  obtain ⟨outs₁, outs₂, h₁, h₂, hsame⟩ := halike
    (checks.map (requestOf (Bytes.lit "tcp://10.0.0.2:5000"))) (by
      intro request hrequest address haddress
      obtain ⟨check, -, rfl⟩ := List.mem_map.mp hrequest
      rw [List.mem_singleton.mp haddress]
      exact ⟨_, rfl, by decide⟩)
  have hallChecks := @allChecks_requestOf c₁.bucketAppMap checks
    (Bytes.lit "tcp://10.0.0.2:5000") (by
      intro check hcheck
      rw [(hchecks check hcheck).1, happ]
      rfl)
  apply hfired
  apply eq_nil_of_timesFired
  intro func
  have hcount := timesFired_again h happs howned₁ howned₂ h₁ h₂ func
  rw [hsame func, hallChecks] at hcount
  have hzero := List.sum_eq_zero_iff_forall_eq_nat.mp (Nat.left_eq_add.mp hcount) _
    (List.mem_map_of_mem hd)
  rw [htriggers] at hzero
  exact hzero

theorem firesAlike_of_inert (h : appRegisterHandler now c₁ registration = some (c₂, outs))
    (happs : c₂.bucketAppMap = c₁.bucketAppMap) (howned₁ : c₁.TriggersOwned)
    (howned₂ : c₂.TriggersOwned) (hlocated₁ : Located c₁) (hlocated₂ : Located c₂)
    (hinert : ∀ d ∈ registration.dependencies, Inert d) : FiresAlike randR c₁ c₂ := by
  intro requests hsent
  obtain ⟨outs₁, h₁⟩ := notifyAll_defined randR hlocated₁ hsent
  obtain ⟨outs₂, h₂⟩ := notifyAll_defined randR hlocated₂ hsent
  refine ⟨outs₁, outs₂, h₁, h₂, fun func => ?_⟩
  rw [timesFired_again h happs howned₁ howned₂ h₁ h₂ func]
  apply Nat.add_eq_left.mpr
  rw [List.sum_eq_zero_iff_forall_eq_nat]
  intro n hn
  obtain ⟨d, hd, rfl⟩ := List.mem_map.mp hn
  rw [firedBy_silent (dependencyTriggers_silent (hinert d hd))]
  rfl

/-! ## The nodes -/

/-- The objects that functions send are handled from `s₂` if they are from `s₁`, and start the
same functions. -/
def StartsAlike (s₁ s₂ : SchedState) : Prop :=
  ∀ (env : SchedEnv) (sends : List Send), startedBy env sends s₂ = startedBy env sends s₁

/-- A second message repeats the first one, apart from the times in its triggers. -/
structure Repeats (msg₁ msg₂ : UpdateCoordMsg) : Prop where
  msgType : msg₂.msgType = msg₁.msgType
  appName : msg₂.appName = msg₁.appName
  functions : msg₂.functions = msg₁.functions
  dependencies : msg₂.dependencies = msg₁.dependencies
  coord : coordOf msg₂ = coordOf msg₁
  buckets : msg₂.triggers.map TriggerEntity.bucketName = msg₁.triggers.map TriggerEntity.bucketName

def untold (s : SchedState) : SchedState :=
  { bare.apply s with
    funcAppMap := Map.empty
    appCoordMap := Map.empty
    bucketCoordMap := Map.empty
    bucketAppMap := Map.empty }

theorem alike_of_repeats {time₁ time₂ : Stamp} (h : Repeats msg₁ msg₂)
    (htype : msg₁.msgType = 0) (h₁ : handleUpdate time₁ msg₁ s = some s₁)
    (h₂ : handleUpdate time₂ msg₂ s₁ = some s₂)
    (hsilent : ∀ b, ∀ t ∈ msg₂.triggers.flatMap (fun entity =>
      if entity.bucketName = b then (entityTrigger time₂ entity).toList else []), t.Silent) :
    Alike s₁ s₂ := by
  have hadd₁ : addUpdate time₁ msg₁ s = some s₁ := by
    unfold handleUpdate at h₁
    simpa only [htype] using h₁
  have hadd₂ : addUpdate time₂ msg₂ s₁ = some s₂ := by
    unfold handleUpdate at h₂
    simpa only [h.msgType, htype] using h₂
  have hadded₁ := addUpdate_added hadd₁
  have hadded₂ := addUpdate_added hadd₂
  have hfunc : s₂.funcAppMap = s₁.funcAppMap := by
    funext f
    rw [hadded₂.funcApp, h.functions, h.appName]
    split
    next hmem => rw [hadded₁.funcApp, if_pos hmem]
    · rfl
  have happ : s₂.appCoordMap = s₁.appCoordMap := by
    rw [hadded₂.appCoord, Map.set_eq_self_iff, hadded₁.appCoord, h.appName, h.coord,
      Map.set_self]
  have hcoord : s₂.bucketCoordMap = s₁.bucketCoordMap := by
    funext b
    rw [hadded₂.bucketCoord, h.buckets, h.coord]
    split
    next hmem => rw [hadded₁.bucketCoord, if_pos hmem]
    · rfl
  have hbucket : s₂.bucketAppMap = s₁.bucketAppMap := by
    funext b
    rw [hadded₂.bucketApp, h.buckets, h.appName]
    split
    next hmem => rw [hadded₁.bucketApp, if_pos hmem]
    · rfl
  have hdeps : ∀ app, (s₂.appInfo app).directDeps = (s₁.appInfo app).directDeps := by
    intro app
    rw [hadded₂.directDeps, h.appName, h.dependencies]
    split
    next heq => rw [hadded₁.directDeps, if_pos heq, recordDirect_foldl_again]
    · rfl
  refine ⟨?_, ?_, _, hsilent, fun b => congrArg (List.map _) (addUpdate_triggersOf hadd₂ b)⟩
  · -- an update changes what the node is told, which is the same the second time
    have hothers : untold s₂ = untold s₁ :=
      handleUpdate_preserves (Q := fun u => untold u = untold s₁)
        (fun _ _ _ _ _ _ _ _ hu => hu) h₂ rfl
    calc bare.apply s₂ = { bare.apply s₂ with
          funcAppMap := s₁.funcAppMap, appCoordMap := s₁.appCoordMap
          bucketCoordMap := s₁.bucketCoordMap, bucketAppMap := s₁.bucketAppMap } := by
          rw [← hfunc, ← happ, ← hcoord, ← hbucket]
          rfl
      _ = bare.apply s₁ := congrArg (fun u : SchedState => { u with
          funcAppMap := s₁.funcAppMap, appCoordMap := s₁.appCoordMap
          bucketCoordMap := s₁.bucketCoordMap, bucketAppMap := s₁.bucketAppMap }) hothers
  · funext func
    unfold SchedState.directDepsOf
    rw [hfunc, hdeps]

theorem dependencyEntities_buckets (now₁ now₂ : TimePoint) (d : DataDependency) :
    (dependencyEntities now₂ d).map TriggerEntity.bucketName =
      (dependencyEntities now₁ d).map TriggerEntity.bucketName := by
  unfold dependencyEntities
  split
  · rfl
  · split
    · rfl
    next tgt _ =>
      have hsame : (triggerOfDependency now₂ d tgt).isSome ↔
          (triggerOfDependency now₁ d tgt).isSome := by
        rw [triggerOfDependency_isSome_iff, triggerOfDependency_isSome_iff]
      cases h₁ : triggerOfDependency now₁ d tgt <;> cases h₂ : triggerOfDependency now₂ d tgt <;>
        simp_all [entityOf_bucketName]

theorem startsAlike_of_inert {now₁ now₂ : TimePoint} {c : CoordState}
    (h₁ : appRegisterHandler now₁ c registration = some (c₁, outs₁))
    (h₂ : appRegisterHandler now₂ c₁ registration = some (c₂, outs₂))
    (hinert : ∀ d ∈ registration.dependencies, Inert d) {address : Address}
    (hmsg₁ : .update address msg₁ ∈ outs₁) (hmsg₂ : .update address msg₂ ∈ outs₂)
    {time₁ time₂ : Stamp} (hs₁ : handleUpdate time₁ msg₁ s = some s₁)
    (hs₂ : handleUpdate time₂ msg₂ s₁ = some s₂) : StartsAlike s₁ s₂ := by
  obtain ⟨told₁, rfl, hannounced₁⟩ := appRegisterHandler_announced h₁
  obtain ⟨told₂, rfl, hannounced₂⟩ := appRegisterHandler_announced h₂
  obtain ⟨-, entities₂, hbroadcast, hentities⟩ := appRegisterHandler_adds h₂
  obtain ⟨-, entities₁, hbroadcast₁, hentities₁⟩ := appRegisterHandler_adds h₁
  have htriggers₁ : msg₁.triggers =
      registration.dependencies.flatMap (dependencyEntities now₁) := by
    rw [hbroadcast₁] at hmsg₁
    rw [mem_broadcast hmsg₁, hentities₁]
  have htriggers₂ : msg₂.triggers =
      registration.dependencies.flatMap (dependencyEntities now₂) := by
    rw [hbroadcast] at hmsg₂
    rw [mem_broadcast hmsg₂, hentities]
  obtain rfl := mem_broadcast hmsg₁
  obtain rfl := mem_broadcast hmsg₂
  refine fun env => Alike.starts env
    (alike_of_repeats ⟨?_, ?_, ?_, ?_, ?_, ?_⟩ hannounced₁.msgType hs₁ hs₂ ?_)
  · exact hannounced₂.msgType.trans hannounced₁.msgType.symm
  · exact hannounced₂.appName.trans hannounced₁.appName.symm
  · exact hannounced₂.functions.trans hannounced₁.functions.symm
  · exact hannounced₂.dependencies.trans hannounced₁.dependencies.symm
  · rw [hannounced₂.coord, hannounced₁.coord, hannounced₁.thread.1, hannounced₁.thread.2.1]
  · rw [htriggers₁, htriggers₂, List.map_flatMap, List.map_flatMap]
    exact List.flatMap_congr fun d _ => dependencyEntities_buckets now₁ now₂ d
  · intro b t ht
    obtain ⟨entity, hentity, ht⟩ := List.mem_flatMap.mp ht
    rw [htriggers₂] at hentity
    obtain ⟨d, hd, hentity⟩ := List.mem_flatMap.mp hentity
    split at ht
    · exact dependencyEntities_silent (hinert d hd) entity hentity t
        (Option.mem_toList.mp ht)
    · cases ht

/-! ## Both -/

/-- A registration that is handled once is handled again.  The second one goes unnoticed by
the objects that follow, on the coordinator and on every node that is told of both, exactly
if none of its dependencies makes a trigger that can fire. -/
theorem second_registration_unnoticed_iff (randR : RandR) (privateIp : Address)
    (threadId ioThreadNum : Nat) (hio : 0 < ioThreadNum) (seed : UInt32) {es : List CoordEvent}
    {c c₁ : CoordState}
    (hrun : run (coordStep randR) (CoordState.new privateIp threadId ioThreadNum hio seed) es =
      some c)
    (registration : AppRegistration) {now₁ : TimePoint} {outs₁ : List CoordOut}
    (h₁ : appRegisterHandler now₁ c registration = some (c₁, outs₁)) (now₂ : TimePoint) :
    ∃ c₂ outs₂, appRegisterHandler now₂ c₁ registration = some (c₂, outs₂) ∧
      ((FiresAlike randR c₁ c₂ ∧
          ∀ address msg₁ msg₂, .update address msg₁ ∈ outs₁ → .update address msg₂ ∈ outs₂ →
            ∀ time₁ time₂ s s₁ s₂, handleUpdate time₁ msg₁ s = some s₁ →
              handleUpdate time₂ msg₂ s₁ = some s₂ → StartsAlike s₁ s₂) ↔
        ∀ d ∈ registration.dependencies, Inert d) := by
  obtain ⟨c₂, outs₂, h₂, happs⟩ := appRegisterHandler_again h₁ now₂
  have hstep₁ : coordStep randR c (.register now₁ registration) = some c₁ := by
    unfold coordStep
    simp [handleMessage, h₁]
  have hstep₂ : coordStep randR c₁ (.register now₂ registration) = some c₂ := by
    unfold coordStep
    simp [handleMessage, h₂]
  have howned := coordRun_triggersOwned randR privateIp threadId ioThreadNum hio seed hrun
  have howned₁ := (coordStep_owners hstep₁ howned).1
  have howned₂ := (coordStep_owners hstep₂ howned₁).1
  have hlocated : Located c :=
    @run_invariant _ _ (coordStep randR) Located (fun _ _ => True)
      (fun _ _ _ hc _ hstep => coordStep_located hstep hc) _ _ _
      (new_ready privateIp threadId ioThreadNum hio seed).located (along_true _ es) hrun
  have hlocated₁ := coordStep_located hstep₁ hlocated
  have hlocated₂ := coordStep_located hstep₂ hlocated₁
  refine ⟨c₂, outs₂, h₂, ?_, ?_⟩
  · intro halike
    exact inert_of_firesAlike h₂ happs howned₁ howned₂ halike.1
  · intro hinert
    refine ⟨firesAlike_of_inert h₂ happs howned₁ howned₂ hlocated₁ hlocated₂ hinert, ?_⟩
    intro address msg₁ msg₂ hmsg₁ hmsg₂ time₁ time₂ s s₁ s₂ hs₁ hs₂
    exact startsAlike_of_inert h₁ h₂ hinert hmsg₁ hmsg₂ hs₁ hs₂

def pairApp (type : DependencyType) : AppRegistration where
  appName := Bytes.lit "app"
  functions := [Bytes.lit "f", Bytes.lit "t"]
  dependencies := [
    { type, srcFunctions := [Bytes.lit "f"], tgtFunctions := [Bytes.lit "t"] }]

def oneNodeCoord : CoordState :=
  updateStatus Coordinator.exampleCoord { ip := Bytes.lit "10.0.0.2", availExecutors := 1 }

theorem second_registration_unnoticed_direct :
    ∃ c₁ outs₁ c₂ outs₂ address msg₁ msg₂ s₁ s₂,
      appRegisterHandler 0 oneNodeCoord (pairApp .direct) = some (c₁, outs₁) ∧
      appRegisterHandler 1 c₁ (pairApp .direct) = some (c₂, outs₂) ∧
      FiresAlike (fun seed => (0, seed)) c₁ c₂ ∧
      .update address msg₁ ∈ outs₁ ∧ .update address msg₂ ∈ outs₂ ∧
      handleUpdate 2 msg₁ {} = some s₁ ∧ handleUpdate 3 msg₂ s₁ = some s₂ ∧
      StartsAlike s₁ s₂ := by
  obtain ⟨c₂, outs₂, h₂, hiff⟩ := @second_registration_unnoticed_iff (fun seed => (0, seed))
    (Bytes.lit "10.0.0.1") 0 1 Nat.one_pos 0
    [.status { ip := Bytes.lit "10.0.0.2", availExecutors := 1 }] oneNodeCoord _ rfl
    (pairApp .direct) 0 _ rfl 1
  cases h₂
  have hunnoticed := hiff.mpr (by
    intro d hd
    rw [List.mem_singleton.mp hd]
    trivial)
  exact ⟨_, _, _, _, _, _, _, _, _, rfl, rfl, hunnoticed.1, List.mem_cons_self,
    List.mem_cons_self, rfl, rfl,
    hunnoticed.2 _ _ _ List.mem_cons_self List.mem_cons_self _ _ _ _ _ rfl rfl⟩

def outputCheck : Check where
  now := 2
  active := []
  object :=
    { bucket := Bytes.lit "b_t", key := Bytes.lit "k_f", session := Bytes.lit "0123456789abcdef" }

def outputSend : Send where
  now := 2
  packing := .packed
  infos :=
    { sessionId := Bytes.lit "0123456789abcdef", srcFunction := Bytes.lit "f", tgtFunction := []
      bucket := Bytes.lit "b_t", sessionKey := Bytes.lit "k_f0123456789abcdef"
      body := Bytes.lit "v" }

/-- The coordinator and the node after `n` registrations of an application in which `t`
waits for the output of `f`. -/
def registered : Nat → Option (CoordState × SchedState)
  | 0 => some (oneNodeCoord, {})
  | n + 1 => do
      let before ← registered n
      let result ← appRegisterHandler 0 before.1 (pairApp .manyToOne)
      let s ← (updatesOf result.2).foldlM (fun s update => handleUpdate 0 update.2 s) before.2
      pure (result.1, s)

/-- How often the output of `f` starts `t`, on the coordinator and on the node. -/
def startsOfTarget (c : CoordState) (s : SchedState) : Option (Nat × Nat) := do
  let outs ← notifyAll (fun seed => (0, seed))
    [requestOf (Bytes.lit "tcp://10.0.0.2:5000") outputCheck] c
  let names ← startedBy delayingEnv [outputSend] s
  pure (timesFired (Bytes.lit "t") (firedOf outs), names.count (Bytes.lit "t"))

/-- After a second registration every input of `t` starts it twice. -/
theorem second_registration_fires_twice :
    ((registered 1).bind fun state => startsOfTarget state.1 state.2) = some (1, 1) ∧
      ((registered 2).bind fun state => startsOfTarget state.1 state.2) = some (2, 2) := by
  decide +kernel

end Pheromone.Cluster
