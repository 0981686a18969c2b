import Pheromone.Coordinator.Proofs.Registrations
import Pheromone.Scheduler.Proofs.Updates

/-!
# Registered applications

What `app_register_handler` does to the triggers of the coordinator, and the
update message that tells the nodes of it.
-/

namespace Pheromone.Cluster

open Lib Common Coordinator Scheduler

variable {now : TimePoint} {c c' : CoordState} {dependency : DataDependency} {tgt : Name}

/-- The triggers of the coordinator that the nodes are to have: periodic ones stay
on the coordinator. -/
def coordView (c : CoordState) : TriggerView := fun bucket =>
  ((c.triggersOf bucket).filter fun t => t.type ≠ .byTime).map Trigger.signature

theorem coordView_pushTrigger (c : CoordState) (bucket b : Bucket) (t : Trigger) :
    coordView (c.pushTrigger bucket t) b =
      coordView c b ++ if bucket = b ∧ t.type ≠ .byTime then [t.signature] else [] := by
  unfold coordView CoordState.triggersOf CoordState.pushTrigger
  simp only
  rw [Map.getD_set]
  by_cases hb : b = bucket
  · subst hb
    rw [if_pos rfl, List.filter_append, List.map_append]
    by_cases htime : t.type = .byTime
    · simp [htime, CoordState.triggersOf]
    · simp [htime, CoordState.triggersOf]
  · simp [hb, Ne.symm hb]

/-! ## The entities of dependencies -/

theorem triggerOfDependency_eq {t : Trigger}
    (h : triggerOfDependency now dependency tgt = some (some t)) :
    ∃ number state, t = dependencyTrigger tgt number state := by
  unfold triggerOfDependency at h
  split at h
  · cases h
    exact ⟨_, _, rfl⟩
  · split at h
    · simp only [Option.bind_eq_bind, Option.bind_eq_some_iff] at h
      obtain ⟨k, _, n, _, h⟩ := h
      cases h
      exact ⟨_, _, rfl⟩
    · cases h
  · simp only [Option.bind_eq_bind, Option.bind_eq_some_iff] at h
    obtain ⟨timeWindow, _, h⟩ := h
    cases h
    exact ⟨_, _, rfl⟩
  · cases h
  · cases h

theorem entitySignature_dependencyEntity (bucket : Bucket) (tgt : Name) (number : Nat)
    (state : TriggerState) :
    entitySignature (dependencyEntity bucket (dependencyTrigger tgt number state)) =
      some (dependencyTrigger tgt number state).signature := by
  obtain ⟨t', ht', hsig⟩ :=
    genTriggerPointer_dumpPrimitive 0 (dependencyTrigger tgt number state)
  have hname : (dependencyTrigger tgt number state).triggerName ≠ [] := by
    simp [dependencyTrigger, dependencyTriggerName, Bytes.lit]
  have hoption : intOfUInt32 (uint32OfInt (dependencyTrigger tgt number state).triggerOption) =
      (dependencyTrigger tgt number state).triggerOption := by
    change intOfUInt32 (uint32OfInt 0) = 0
    decide
  unfold entitySignature dependencyEntity
  simp only
  rw [if_neg hname, ht', hoption, Option.map_some, hsig]

theorem entityOf_bucketName (bucket : Bucket) (trigger : Option Trigger) :
    (entityOf bucket trigger).bucketName = bucket := by
  cases trigger with
  | none => rfl
  | some trigger =>
    unfold entityOf
    simp only
    split <;> rfl

theorem coordView_addDependency {trigger : Option Trigger}
    (h : triggerOfDependency now dependency tgt = some trigger) (appName : Name) (c : CoordState)
    (b : Bucket) :
    coordView (c.addDependency appName (bucketOfTarget tgt) trigger) b =
      coordView c b ++ signaturesFor b [entityOf (bucketOfTarget tgt) trigger] := by
  cases trigger with
  | none =>
    simp [signaturesFor, entityOf, entitySignature, coordView, triggersOf_addDependency,
      List.filter_cons]
  | some t =>
    refine (coordView_pushTrigger c (bucketOfTarget tgt) b t).trans ?_
    congr 1
    obtain ⟨number, state, rfl⟩ := triggerOfDependency_eq h
    unfold signaturesFor
    by_cases hb : bucketOfTarget tgt = b
    · rw [List.filter_cons_of_pos (by simpa [entityOf_bucketName] using hb)]
      unfold entityOf
      by_cases htime : (dependencyTrigger tgt number state).type = .byTime
      · simp [htime, entitySignature]
      · simp [htime, hb, entitySignature_dependencyEntity]
    · rw [List.filter_cons_of_neg (by simpa [entityOf_bucketName] using hb)]
      simp [hb]

theorem signaturesFor_append (b : Bucket) (l l' : List TriggerEntity) :
    signaturesFor b (l ++ l') = signaturesFor b l ++ signaturesFor b l' := by
  unfold signaturesFor
  rw [List.filter_append, List.filterMap_append]

def SameThread (c c' : CoordState) : Prop :=
  c'.privateIp = c.privateIp ∧ c'.threadId = c.threadId ∧ c'.nodeStatusMap = c.nodeStatusMap

def AsksFor (now : TimePoint) (dependency : DataDependency) (entity : TriggerEntity) : Prop :=
  dependency.type ≠ .direct ∧ ∃ tgt trigger, dependency.tgtFunctions.head? = some tgt ∧
    triggerOfDependency now dependency tgt = some trigger ∧
    entity = entityOf (bucketOfTarget tgt) trigger

theorem registerDependency_foldlM {appName : Name} {dependencies : List DataDependency}
    {msg msg' : UpdateCoordMsg}
    (h : dependencies.foldlM (registerDependency now appName) (c, msg) = some (c', msg')) :
    SameThread c c' ∧ ∃ entities,
      msg' = { msg with
        dependencies := msg.dependencies ++ dependencies.filter fun d => d.type = .direct
        triggers := msg.triggers ++ entities } ∧
      (∀ b, coordView c' b = coordView c b ++ signaturesFor b entities) ∧
      ∀ d ∈ dependencies, d.type ≠ .direct → ∃ entity ∈ entities, AsksFor now d entity := by
  induction dependencies generalizing c msg with
  | nil =>
    cases h
    exact ⟨⟨rfl, rfl, rfl⟩, [], by simp, by simp [signaturesFor], by simp⟩
  | cons d dependencies ih =>
    obtain ⟨⟨c₁, msg₁⟩, hstep, h⟩ := foldlM_cons_eq_some.mp h
    obtain ⟨hthread, entities, rfl, hview, hasks⟩ := ih h
    rcases registerDependency_cases hstep with ⟨hdirect, heq⟩ |
      ⟨hindirect, tgt, trigger, htgt, htrigger, heq⟩
    all_goals cases heq
    · refine ⟨hthread, entities, ?_, hview, ?_⟩
      · rw [List.filter_cons_of_pos (by simpa using hdirect)]
        simp
      · intro d' hd' hne
        rcases List.mem_cons.mp hd' with rfl | hd'
        · exact absurd hdirect hne
        · exact hasks d' hd' hne
    · refine ⟨hthread, entityOf (bucketOfTarget tgt) trigger :: entities, ?_, fun b => ?_, ?_⟩
      · rw [List.filter_cons_of_neg (by simpa using hindirect)]
        simp
      · rw [hview b, coordView_addDependency htrigger, List.append_assoc,
          ← signaturesFor_append, List.singleton_append]
      · intro d' hd' hne
        rcases List.mem_cons.mp hd' with rfl | hd'
        · exact ⟨_, List.mem_cons_self, hne, tgt, trigger, htgt, htrigger, rfl⟩
        · obtain ⟨entity, hentity, hask⟩ := hasks d' hd' hne
          exact ⟨entity, List.mem_cons_of_mem _ hentity, hask⟩

/-- The message that announces a registration, and the coordinator after it. -/
structure Announced (now : TimePoint) (c : CoordState) (registration : AppRegistration)
    (c' : CoordState) (msg : UpdateCoordMsg) : Prop where
  thread : SameThread c c'
  coord : coordOf msg = { ip := c.privateIp, tid := c.threadId }
  appName : msg.appName = registration.appName
  functions : msg.functions = registration.functions
  msgType : msg.msgType = 0
  dependencies : msg.dependencies = registration.dependencies.filter fun d => d.type = .direct
  triggers : ∀ d ∈ registration.dependencies, d.type ≠ .direct →
    ∃ entity ∈ msg.triggers, AsksFor now d entity
  view : ∀ b, coordView c' b = coordView c b ++ signaturesFor b msg.triggers

theorem appRegisterHandler_announced {registration : AppRegistration} {outs : List CoordOut}
    (h : appRegisterHandler now c registration = some (c', outs)) :
    ∃ msg, outs = broadcast c' msg ∧ Announced now c registration c' msg := by
  unfold appRegisterHandler at h
  obtain ⟨⟨c₁, msg⟩, hfold, heq⟩ := Option.map_eq_some_iff.mp h
  cases heq
  obtain ⟨hthread, entities, rfl, hview, hasks⟩ := registerDependency_foldlM hfold
  refine ⟨_, rfl, hthread, rfl, rfl, rfl, rfl, by simp, ?_, ?_⟩
  · intro d hd hne
    obtain ⟨entity, hentity, hask⟩ := hasks d hd hne
    exact ⟨entity, by simpa using hentity, hask⟩
  · intro b
    rw [hview b]
    simp

end Pheromone.Cluster
