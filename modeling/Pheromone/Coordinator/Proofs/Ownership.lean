import Pheromone.Coordinator.Proofs.TriggerPass
import Pheromone.Coordinator.Run

/-!
# The owners of buckets

`app_buckets_map` and `bucket_app_map` say twice which application owns a bucket,
and only buckets with an owner have triggers.
-/

namespace Pheromone.Coordinator

open Lib Common

variable {acc acc' : CoordState × UpdateCoordMsg} {activeTriggers : List Name}
  {buckets : List Bucket} {c₁ c₂ c₃ : CoordState} {outs : List CoordOut}
  {result : CoordState × List CoordOut} {trigger : Trigger}

variable {c c' : CoordState} {now : TimePoint} {app : Name} {bk : BucketKey} {respAddress : Address}

def CoordState.bucketsOf (c : CoordState) (app : Name) : Finset Bucket :=
  c.appBucketsMap.getD app ∅

def CoordState.Inverse (c : CoordState) : Prop :=
  ∀ app bucket, bucket ∈ c.bucketsOf app ↔ c.bucketAppMap bucket = some app

def CoordState.TriggersOwned (c : CoordState) : Prop :=
  ∀ bucket, c.triggersOf bucket ≠ [] → (c.bucketAppMap bucket).isSome

/-! ## Registrations -/

def dependencyBucket (dependency : DataDependency) : Option Bucket :=
  if dependency.type = .direct then none else dependency.tgtFunctions.head?.map bucketOfTarget

def registeredBuckets (dependencies : List DataDependency) : List Bucket :=
  dependencies.filterMap dependencyBucket

structure Registers (app : Name) (buckets : List Bucket) (c c' : CoordState) : Prop where
  owner : ∀ bucket, c'.bucketAppMap bucket =
    if bucket ∈ buckets then some app else c.bucketAppMap bucket
  listed : ∀ app' bucket, bucket ∈ c'.bucketsOf app' ↔
    bucket ∈ c.bucketsOf app' ∨ (app' = app ∧ bucket ∈ buckets)
  triggers : ∀ bucket, c'.triggersOf bucket ≠ [] → c.triggersOf bucket ≠ [] ∨ bucket ∈ buckets

theorem Registers.refl (app : Name) (c : CoordState) : Registers app [] c c where
  owner := by simp
  listed := by simp
  triggers := fun _ h => .inl h

theorem Registers.trans {bs bs' : List Bucket} (h : Registers app bs c₁ c₂)
    (h' : Registers app bs' c₂ c₃) :
    Registers app (bs ++ bs') c₁ c₃ where
  owner := by
    intro bucket
    rw [h'.owner, h.owner]
    by_cases hlast : bucket ∈ bs' <;> simp [hlast]
  listed := by
    intro app' bucket
    rw [h'.listed, h.listed, List.mem_append]
    tauto
  triggers := by
    intro bucket hne
    rw [List.mem_append]
    rcases h'.triggers bucket hne with hne | hmem
    · exact (h.triggers bucket hne).imp_right .inl
    · exact .inr (.inr hmem)

theorem registers_addDependency (app : Name) (bucket : Bucket) (trigger : Option Trigger)
    (c : CoordState) : Registers app [bucket] c (c.addDependency app bucket trigger) where
  owner := by
    intro bucket'
    simp [CoordState.addDependency, Map.set_apply]
  listed := by
    intro app' bucket'
    unfold CoordState.bucketsOf CoordState.addDependency
    rw [Map.getD_set]
    by_cases happ : app' = app
    · subst happ
      simp [or_comm]
    · simp [happ]
  triggers := by
    intro bucket' hne
    rw [triggersOf_addDependency] at hne
    by_cases hb : bucket = bucket'
    · exact .inr (List.mem_singleton.mpr hb.symm)
    · rw [if_neg hb, List.append_nil] at hne
      exact .inl hne

theorem registerDependency_registers {dependency : DataDependency}
    (h : registerDependency now app acc dependency = some acc') :
    Registers app (dependencyBucket dependency).toList acc.1 acc'.1 := by
  unfold dependencyBucket
  rcases registerDependency_cases h with ⟨hdirect, rfl⟩ | ⟨hdirect, tgt, trigger, htgt, -, rfl⟩
  · rw [if_pos hdirect]
    exact Registers.refl app acc.1
  · rw [if_neg hdirect, htgt]
    exact registers_addDependency app (bucketOfTarget tgt) trigger acc.1

theorem registerDependency_foldlM {dependencies : List DataDependency}
    (h : dependencies.foldlM (registerDependency now app) acc = some acc') :
    Registers app (registeredBuckets dependencies) acc.1 acc'.1 := by
  induction dependencies generalizing acc with
  | nil =>
    cases h
    exact Registers.refl app _
  | cons dependency dependencies ih =>
    obtain ⟨acc₁, hfirst, hrest⟩ := foldlM_cons_eq_some.mp h
    have hsplit : registeredBuckets (dependency :: dependencies) =
        (dependencyBucket dependency).toList ++ registeredBuckets dependencies := by
      unfold registeredBuckets
      rw [List.filterMap_cons]
      cases dependencyBucket dependency <;> rfl
    rw [hsplit]
    exact (registerDependency_registers hfirst).trans (ih hrest)

theorem appRegisterHandler_registers {registration : AppRegistration}
    (h : appRegisterHandler now c registration = some result) :
    Registers registration.appName (registeredBuckets registration.dependencies) c result.1 := by
  obtain ⟨acc, hacc, rfl⟩ := Option.map_eq_some_iff.mp h
  exact registerDependency_foldlM hacc

theorem Registers.triggersOwned (h : Registers app buckets c c') (hc : c.TriggersOwned) :
    c'.TriggersOwned := by
  intro bucket hne
  rw [h.owner]
  split
  · rfl
  next hnot => exact hc bucket ((h.triggers bucket hne).resolve_right hnot)

theorem Registers.inverse_iff (h : Registers app buckets c c') (hc : c.Inverse) :
    c'.Inverse ↔ ∀ bucket ∈ buckets, ∀ owner, c.bucketAppMap bucket = some owner → owner = app := by
  constructor
  · intro hc' bucket hmem owner howner
    have hlisted := (h.listed owner bucket).mpr (.inl ((hc owner bucket).mpr howner))
    have howned := (hc' owner bucket).mp hlisted
    rw [h.owner, if_pos hmem, Option.some.injEq] at howned
    exact howned.symm
  · intro hsame app' bucket
    rw [h.listed, h.owner, hc]
    by_cases hmem : bucket ∈ buckets
    · rw [if_pos hmem, Option.some.injEq]
      constructor
      · rintro (howner | ⟨rfl, -⟩)
        · exact (hsame bucket hmem app' howner).symm
        · rfl
      · rintro rfl
        exact .inr ⟨rfl, hmem⟩
    · simp [hmem]

/-! ## Bucket and trigger operations -/

theorem bucketOpHandler_triggersOwned (request : BucketOperationRequest) (hc : c.TriggersOwned) :
    (bucketOpHandler c request).1.TriggersOwned := by
  unfold bucketOpHandler
  simp only
  split
  · split
    · exact hc
    · intro bucket hne
      have hsome := hc bucket hne
      simp only [Map.set_apply]
      split
      · rfl
      · exact hsome
  · split
    · exact hc
    · intro bucket hne
      change (c.bucketTriggersMap.erase request.bucketName).getD bucket [] ≠ [] at hne
      rw [Map.getD_erase] at hne
      split at hne
      · exact absurd rfl hne
      next hb =>
        change ((c.bucketAppMap.erase request.bucketName) bucket).isSome
        rw [Map.erase_of_ne _ hb]
        exact hc bucket hne
  · exact hc

theorem bucketOpHandler_inverse_iff (request : BucketOperationRequest) (hc : c.Inverse) :
    (bucketOpHandler c request).1.Inverse ↔
      (request.operationType = .deleteBucket →
        ∀ owner, c.bucketAppMap request.bucketName = some owner → request.appName = owner) := by
  unfold bucketOpHandler
  simp only
  split
  next hop =>
    rw [hop]
    refine iff_of_true ?_ (fun h => by cases h)
    split
    · exact hc
    next hnone =>
      refine ((registers_addDependency request.appName request.bucketName none c).inverse_iff
        hc).mpr ?_
      intro bucket hbucket owner howner
      rw [List.mem_singleton.mp hbucket, hnone] at howner
      cases howner
  next hop =>
    rw [hop]
    split
    next hnone =>
      refine iff_of_true hc fun _ owner howner => ?_
      rw [hnone] at howner
      cases howner
    next owner howner =>
      have hlisted : ∀ app bucket, bucket ∈ (c.appBucketsMap.set request.appName
          ((c.appBucketsMap.getD request.appName ∅).erase request.bucketName)).getD app ∅ ↔
            bucket ∈ c.bucketsOf app ∧ ¬ (app = request.appName ∧ bucket = request.bucketName) := by
        intro app bucket
        rw [Map.getD_set]
        by_cases happ : app = request.appName
        · subst happ
          simp [CoordState.bucketsOf, and_comm]
        · simp [CoordState.bucketsOf, happ]
      constructor
      · intro hc' _ owner' howner'
        by_contra hne
        have hmem := (hlisted owner' request.bucketName).mpr
          ⟨(hc _ _).mpr howner', fun h => hne h.1.symm⟩
        have howned := (hc' owner' request.bucketName).mp hmem
        change c.bucketAppMap.erase request.bucketName request.bucketName = some owner' at howned
        rw [Map.erase_self] at howned
        cases howned
      · intro hsame app bucket
        refine (hlisted app bucket).trans ?_
        change _ ↔ c.bucketAppMap.erase request.bucketName bucket = some app
        by_cases hb : bucket = request.bucketName
        · subst hb
          rw [Map.erase_self]
          refine iff_of_false (fun h => h.2 ⟨?_, rfl⟩) (by simp)
          exact ((hsame rfl app) ((hc _ _).mp h.1)).symm
        · rw [Map.erase_of_ne _ hb, ← hc]
          simp [hb]
  next => exact iff_of_true hc fun h => by simp_all

theorem triggerOpHandler_owned {request : TriggerOperationRequest}
    (h : triggerOpHandler now c request = some result) :
    result.1.bucketAppMap = c.bucketAppMap ∧ result.1.appBucketsMap = c.appBucketsMap ∧
      (c.TriggersOwned → result.1.TriggersOwned) := by
  have hset : ∀ triggers, (c.bucketAppMap request.bucketName).isSome → c.TriggersOwned →
      CoordState.TriggersOwned
        { c with bucketTriggersMap := c.bucketTriggersMap.set request.bucketName triggers } := by
    intro triggers hsome hc bucket hne
    change (c.bucketTriggersMap.set request.bucketName triggers).getD bucket [] ≠ [] at hne
    rw [Map.getD_set] at hne
    split at hne
    next hb => exact hb ▸ hsome
    · exact hc bucket hne
  obtain ⟨-, hsame | ⟨hsome, ⟨pointer, -, hadded⟩ | hdeleted⟩⟩ := triggerOpHandler_cases h
  · rw [hsame]
    exact ⟨rfl, rfl, id⟩
  · rw [hadded]
    exact ⟨rfl, rfl, hset _ hsome⟩
  · rw [hdeleted]
    exact ⟨rfl, rfl, hset _ hsome⟩

/-! ## Notifications -/

structure SameOwners (c c' : CoordState) : Prop where
  apps : c'.bucketAppMap = c.bucketAppMap
  buckets : c'.appBucketsMap = c.appBucketsMap

theorem SameOwners.refl (c : CoordState) : SameOwners c c := ⟨rfl, rfl⟩

theorem SameOwners.trans (h : SameOwners c₁ c₂) (h' : SameOwners c₂ c₃) : SameOwners c₁ c₃ :=
  ⟨h'.apps.trans h.apps, h'.buckets.trans h.buckets⟩

theorem SameOwners.inverse (h : SameOwners c c') (hc : c.Inverse) : c'.Inverse := by
  intro app bucket
  unfold CoordState.bucketsOf
  rw [h.apps, h.buckets]
  exact hc app bucket

def CallsOf (owner : Option Name) (outs : List CoordOut) : Prop :=
  ∀ address call, .call address call ∈ outs → owner = some call.appName

theorem dispatchAction_owner {randR : RandR} {acc acc' : CoordState × List CoordOut}
    {action : TriggerAction}
    (h : dispatchAction randR bk respAddress trigger acc action = some acc')
    (howner : (acc.1.bucketAppMap bk.bucket).isSome)
    (hacc : CallsOf (acc.1.bucketAppMap bk.bucket) acc.2) :
    SameOwners acc.1 acc'.1 ∧ CallsOf (acc.1.bucketAppMap bk.bucket) acc'.2 := by
  obtain ⟨args, -, rfl⟩ := Option.map_eq_some_iff.mp h
  obtain ⟨app, happ⟩ := Option.isSome_iff_exists.mp howner
  have htouch : acc.1.bucketAppMap.touch bk.bucket [] = acc.1.bucketAppMap :=
    Map.touch_of_some [] happ
  simp only
  split
  · refine ⟨⟨htouch, rfl⟩, fun address call hcall => hacc address call ?_⟩
    simpa using hcall
  · refine ⟨⟨htouch, rfl⟩, fun address call hcall => ?_⟩
    simp only [List.mem_append, List.mem_singleton, reduceCtorEq, or_false] at hcall
    rcases hcall with hold | hnew
    · exact hacc address call hold
    · cases hnew
      rw [happ, Map.getD_of_some _ happ]

theorem visit_owner {randR : RandR} {pass pass' : TriggerPass}
    (h : pass.visit randR now activeTriggers bk respAddress trigger = some pass')
    (howner : (pass.state.bucketAppMap bk.bucket).isSome)
    (hpass : CallsOf (pass.state.bucketAppMap bk.bucket) pass.out) :
    SameOwners pass.state pass'.state ∧
      CallsOf (pass.state.bucketAppMap bk.bucket) pass'.out := by
  obtain ⟨actions, -, hactions⟩ := visit_actions h
  refine foldlM_preserves (Q := fun acc : CoordState × List CoordOut =>
    SameOwners pass.state acc.1 ∧ CallsOf (pass.state.bucketAppMap bk.bucket) acc.2) ?_
    hactions ⟨SameOwners.refl _, hpass⟩
  intro acc action _ acc' hstep ⟨hsame, hacc⟩
  rw [← hsame.apps] at howner hacc ⊢
  obtain ⟨hsame', hacc'⟩ := dispatchAction_owner hstep howner hacc
  exact ⟨hsame.trans hsame', hacc'⟩

theorem checkTriggers_owner {randR : RandR}
    (h : checkTriggers randR now activeTriggers bk respAddress c = some (c', outs))
    (hc : c.TriggersOwned) :
    SameOwners c c' ∧ c'.TriggersOwned ∧ CallsOf (c.bucketAppMap bk.bucket) outs := by
  obtain ⟨pass, hpass, heq⟩ := Option.map_eq_some_iff.mp h
  have hinv : SameOwners c pass.state ∧ CallsOf (c.bucketAppMap bk.bucket) pass.out := by
    refine foldlM_preserves (Q := fun pass : TriggerPass =>
      SameOwners c pass.state ∧ CallsOf (c.bucketAppMap bk.bucket) pass.out) ?_ hpass
      ⟨SameOwners.refl c, fun _ _ hcall => absurd hcall List.not_mem_nil⟩
    intro pass trigger htrigger pass' hvisit ⟨hsame, hout⟩
    have howner := hc bk.bucket (List.ne_nil_of_mem htrigger)
    rw [← hsame.apps] at howner hout ⊢
    obtain ⟨hsame', hout'⟩ := visit_owner hvisit howner hout
    exact ⟨hsame.trans hsame', hout'⟩
  obtain ⟨hsame, hcalls⟩ := hinv
  have hvisited : pass.visited.length = (c.triggersOf bk.bucket).length := by
    rw [(visit_foldlM hpass).visited]
    simp
  have howned : ∀ bucket,
      (c.bucketTriggersMap.set bk.bucket pass.visited).getD bucket [] ≠ [] →
        (pass.state.bucketAppMap bucket).isSome := by
    intro bucket hne
    rw [hsame.apps]
    apply hc bucket
    rw [Map.getD_set] at hne
    split at hne
    next hb =>
      subst hb
      rw [← List.length_pos_iff, hvisited] at hne
      exact List.length_pos_iff.mp hne
    · exact hne
  simp only at heq
  split at heq
  · cases heq
    exact ⟨⟨hsame.apps, hsame.buckets⟩, howned, hcalls⟩
  · cases heq
    refine ⟨⟨hsame.apps, hsame.buckets⟩, howned, fun address call hcall => hcalls address call ?_⟩
    simpa using hcall

theorem notifyParts_owner {randR : RandR} {request : KeyNotifyRequest}
    {addresses : List BucketKeyAddress} {parts : List (BucketKey × List CoordOut)}
    (h : notifyParts randR now request addresses c = some (c', parts)) (hc : c.TriggersOwned) :
    SameOwners c c' ∧ c'.TriggersOwned ∧
      ∀ part ∈ parts, CallsOf (c.bucketAppMap part.1.bucket) part.2 := by
  rw [← and_assoc]
  refine notifyParts_invariant (Q := fun c₁ => SameOwners c c₁ ∧ c₁.TriggersOwned)
    (R := fun part => CallsOf (c.bucketAppMap part.1.bucket) part.2) ?_ h ⟨SameOwners.refl c, hc⟩
  intro c₁ address ip nodeIp c₂ outs _ ⟨hsame, howned⟩ _ hchecked
  -- recording an object leaves owners and triggers alone
  obtain ⟨⟨happs, hbuckets⟩, howned', hcalls⟩ := checkTriggers_owner hchecked howned
  rw [← hsame.apps]
  exact ⟨⟨hsame.trans ⟨happs, hbuckets⟩, howned'⟩, hcalls⟩

theorem notifyHandler_owner {randR : RandR} {request : KeyNotifyRequest}
    (h : notifyHandler randR now c request = some (c', outs)) (hc : c.TriggersOwned) :
    SameOwners c c' ∧ c'.TriggersOwned ∧
      ∃ parts, notifyParts randR now request request.addresses c = some (c', parts) ∧
        outs = parts.flatMap Prod.snd ∧
          ∀ part ∈ parts, CallsOf (c.bucketAppMap part.1.bucket) part.2 := by
  obtain ⟨parts, hparts, houts⟩ := notifyHandler_eq_parts h
  obtain ⟨hsame, howned, hcalls⟩ := notifyParts_owner hparts hc
  exact ⟨hsame, howned, parts, hparts, houts, hcalls⟩

/-! ## Runs -/

/-- A deletion names the owner of the bucket, and a registration that goes through
takes no bucket from another application. -/
def KeepsOwner (c : CoordState) : CoordEvent → Prop
  | .bucketOp request => request.operationType = .deleteBucket →
      ∀ owner, c.bucketAppMap request.bucketName = some owner → request.appName = owner
  | .register now registration => (appRegisterHandler now c registration).isSome →
      ∀ bucket ∈ registeredBuckets registration.dependencies,
        ∀ owner, c.bucketAppMap bucket = some owner → owner = registration.appName
  | _ => True

theorem coordStep_owners {randR : RandR} {c c' : CoordState} {e : CoordEvent}
    (h : coordStep randR c e = some c') (hc : c.TriggersOwned) :
    c'.TriggersOwned ∧ (c.Inverse → (c'.Inverse ↔ KeepsOwner c e)) := by
  obtain ⟨⟨c₁, outs⟩, hmsg, rfl⟩ := Option.map_eq_some_iff.mp h
  cases e with
  | notify now request =>
    obtain ⟨hsame, howned, -⟩ := notifyHandler_owner hmsg hc
    exact ⟨howned, fun hinv => iff_of_true (hsame.inverse hinv) trivial⟩
  | bucketOp request =>
    obtain rfl : (bucketOpHandler c request).1 = c₁ := congrArg Prod.fst (Option.some.inj hmsg)
    exact ⟨bucketOpHandler_triggersOwned request hc, bucketOpHandler_inverse_iff request⟩
  | triggerOp now request =>
    obtain ⟨happs, hbuckets, howned⟩ := triggerOpHandler_owned hmsg
    exact ⟨howned hc, fun hinv => iff_of_true (SameOwners.inverse ⟨happs, hbuckets⟩ hinv) trivial⟩
  | register now registration =>
    have hregisters := appRegisterHandler_registers hmsg
    refine ⟨hregisters.triggersOwned hc, fun hinv => (hregisters.inverse_iff hinv).trans ?_⟩
    have hsome : (appRegisterHandler now c registration).isSome :=
      Option.isSome_iff_exists.mpr ⟨_, hmsg⟩
    exact ⟨fun hall _ => hall, fun hall => hall hsome⟩
  | query | status | call | rehash =>
    obtain ⟨nodes, seed, heq⟩ := handleMessage_quiet hmsg trivial
    rw [heq]
    exact ⟨hc, fun hinv => iff_of_true hinv trivial⟩

theorem coordStep_not_keepsOwner {randR : RandR} {e : CoordEvent} (hc : c.Inverse)
    (h : ¬ KeepsOwner c e) : ∃ c', coordStep randR c e = some c' ∧ ¬ c'.Inverse := by
  cases e with
  | bucketOp request =>
    exact ⟨_, rfl, fun hc' => h ((bucketOpHandler_inverse_iff request hc).mp hc')⟩
  | register now registration =>
    simp only [KeepsOwner, Classical.not_imp] at h
    obtain ⟨result, hresult⟩ := Option.isSome_iff_exists.mp h.1
    refine ⟨result.1, ?_, fun hc' => h.2 ?_⟩
    · change (appRegisterHandler now c registration).map Prod.fst = some result.1
      rw [hresult]
      rfl
    · exact ((appRegisterHandler_registers hresult).inverse_iff hc).mp hc'
  | notify | query | triggerOp | status | call | rehash => exact absurd trivial h

section Runs

variable (randR : RandR) (privateIp : Address) (threadId ioThreadNum : Nat)
  (hio : 0 < ioThreadNum) (seed : UInt32)

theorem new_triggersOwned :
    (CoordState.new privateIp threadId ioThreadNum hio seed).TriggersOwned :=
  fun _ hne => absurd rfl hne

theorem new_inverse : (CoordState.new privateIp threadId ioThreadNum hio seed).Inverse :=
  fun app bucket => iff_of_false (Finset.notMem_empty bucket) (by simp [CoordState.new, Map.empty])

/-- The two maps are inverse in all the states of a run exactly if no event of the
run takes a bucket from its owner behind its back. -/
theorem inverse_iff_keepsOwner (es : List CoordEvent) :
    Throughout (coordStep randR) CoordState.Inverse
        (CoordState.new privateIp threadId ioThreadNum hio seed) es ↔
      Along (coordStep randR) KeepsOwner
        (CoordState.new privateIp threadId ioThreadNum hio seed) es := by
  constructor
  · exact along_of_throughout fun c e hc hnot => coordStep_not_keepsOwner hc hnot
  · refine @throughout_of_along _ _ (coordStep randR) (fun c => c.TriggersOwned ∧ c.Inverse)
      CoordState.Inverse KeepsOwner (fun c hc => hc.2) ?_ _ es
      ⟨new_triggersOwned privateIp threadId ioThreadNum hio seed,
        new_inverse privateIp threadId ioThreadNum hio seed⟩
    intro c e c' ⟨howned, hinv⟩ hkeeps hstep
    obtain ⟨howned', hiff⟩ := coordStep_owners hstep howned
    exact ⟨howned', (hiff hinv).mpr hkeeps⟩

end Runs

def createBucket (app bucket : String) : CoordEvent :=
  .bucketOp { operationType := .createBucket, appName := Bytes.lit app
              bucketName := Bytes.lit bucket }

def deleteBucket (app bucket : String) : CoordEvent :=
  .bucketOp { operationType := .deleteBucket, appName := Bytes.lit app
              bucketName := Bytes.lit bucket }

def registerJoin (app : String) : CoordEvent :=
  .register 0
    { appName := Bytes.lit app
      functions := [Bytes.lit "f", Bytes.lit "g"]
      dependencies := [
        { type := .manyToOne, srcFunctions := [Bytes.lit "f"], tgtFunctions := [Bytes.lit "g"] }] }

def exampleCoord : CoordState := CoordState.new (Bytes.lit "10.0.0.1") 0 1 Nat.one_pos 0

theorem inverse_iff_keepsOwner_own_bucket :
    Throughout (coordStep fun seed => (0, seed)) CoordState.Inverse exampleCoord
      [createBucket "app" "x", deleteBucket "app" "x"] := by
  refine (inverse_iff_keepsOwner (fun seed => (0, seed)) _ 0 1 Nat.one_pos 0 _).mpr
    ⟨fun h => (by cases h), fun c hc => ⟨fun _ owner howner => ?_, fun _ _ => trivial⟩⟩
  obtain rfl := Option.some.inj hc
  exact Option.some.inj ((by decide : _ = some (Bytes.lit "app")).symm.trans howner)

/-- The bucket stays in the set of its owner when another application deletes it, or
registers a dependency with the same target function. -/
theorem buckets_listed_without_owner :
    (∃ c, run (coordStep fun seed => (0, seed)) exampleCoord
        [createBucket "app" "x", deleteBucket "other" "x"] = some c ∧
      Bytes.lit "x" ∈ c.bucketsOf (Bytes.lit "app") ∧ c.bucketAppMap (Bytes.lit "x") = none) ∧
    ∃ c, run (coordStep fun seed => (0, seed)) exampleCoord
        [registerJoin "app", registerJoin "other"] = some c ∧
      Bytes.lit "b_g" ∈ c.bucketsOf (Bytes.lit "app") ∧
        c.bucketAppMap (Bytes.lit "b_g") = some (Bytes.lit "other") := by
  constructor
  · have hrun : (run (coordStep fun seed => (0, seed)) exampleCoord
        [createBucket "app" "x", deleteBucket "other" "x"]).map (fun c => decide
          (Bytes.lit "x" ∈ c.bucketsOf (Bytes.lit "app") ∧
            c.bucketAppMap (Bytes.lit "x") = none)) = some true := by
      decide +kernel
    obtain ⟨c, hc, houtcome⟩ := Option.map_eq_some_iff.mp hrun
    exact ⟨c, hc, of_decide_eq_true houtcome⟩
  · have hrun : (run (coordStep fun seed => (0, seed)) exampleCoord
        [registerJoin "app", registerJoin "other"]).map (fun c => decide
          (Bytes.lit "b_g" ∈ c.bucketsOf (Bytes.lit "app") ∧
            c.bucketAppMap (Bytes.lit "b_g") = some (Bytes.lit "other"))) = some true := by
      decide +kernel
    obtain ⟨c, hc, houtcome⟩ := Option.map_eq_some_iff.mp hrun
    exact ⟨c, hc, of_decide_eq_true houtcome⟩

section Runs

variable (randR : RandR) (privateIp : Address) (threadId ioThreadNum : Nat)
  (hio : 0 < ioThreadNum) (seed : UInt32)

theorem coordRun_triggersOwned {es : List CoordEvent}
    (hrun : run (coordStep randR) (CoordState.new privateIp threadId ioThreadNum hio seed) es =
      some c) : c.TriggersOwned :=
  @run_invariant _ _ (coordStep randR) CoordState.TriggersOwned (fun _ _ => True)
    (fun _ _ _ hc _ hstep => (coordStep_owners hstep hc).1) _ _ _
    (new_triggersOwned privateIp threadId ioThreadNum hio seed) (along_true _ es) hrun

/-- In every state that is reached, only buckets with an owner have triggers; so
`notify_handler` adds no owner, and the calls it sends for an object are made for the
owner of the object's bucket. -/
theorem triggers_have_owner {es : List CoordEvent} {c : CoordState}
    (hrun : run (coordStep randR) (CoordState.new privateIp threadId ioThreadNum hio seed) es =
      some c) :
    c.TriggersOwned ∧ ∀ now request c' outs, notifyHandler randR now c request = some (c', outs) →
      c'.bucketAppMap = c.bucketAppMap ∧
        ∃ parts, notifyParts randR now request request.addresses c = some (c', parts) ∧
          outs = parts.flatMap Prod.snd ∧
            ∀ part ∈ parts, CallsOf (c.bucketAppMap part.1.bucket) part.2 := by
  have howned := coordRun_triggersOwned randR privateIp threadId ioThreadNum hio seed hrun
  refine ⟨howned, fun now request c' outs h => ?_⟩
  obtain ⟨hsame, -, hparts⟩ := notifyHandler_owner h howned
  exact ⟨hsame.apps, hparts⟩

end Runs

/-- The source of the join is notified by a node that has reported its status. -/
theorem triggers_have_owner_join :
    ∃ c c' outs, run (coordStep fun seed => (0, seed)) exampleCoord
        [registerJoin "app", .status { ip := Bytes.lit "10.0.0.2", availExecutors := 1 }] = some c ∧
      notifyHandler (fun seed => (0, seed)) 0 c
        { requestId := [], responseAddress := [], activeTriggerNames := []
          addresses := [
            { bucket := Bytes.lit "b_g", key := Bytes.lit "k_f", session := Bytes.lit "s"
              ips := [tcpAddress (Bytes.lit "10.0.0.2") 5000] }] } = some (c', outs) ∧
      (firedOf outs).length = 1 ∧ c'.bucketAppMap = c.bucketAppMap := by
  have hrun : (run (coordStep fun seed => (0, seed)) exampleCoord
      [registerJoin "app", .status { ip := Bytes.lit "10.0.0.2", availExecutors := 1 }]).map
        (fun c => (notifyHandler (fun seed => (0, seed)) 0 c
          { requestId := [], responseAddress := [], activeTriggerNames := []
            addresses := [
              { bucket := Bytes.lit "b_g", key := Bytes.lit "k_f", session := Bytes.lit "s"
                ips := [tcpAddress (Bytes.lit "10.0.0.2") 5000] }] }).map
                  fun result => (firedOf result.2).length) = some (some 1) := by
    decide +kernel
  obtain ⟨c, hc, hhandled⟩ := Option.map_eq_some_iff.mp hrun
  obtain ⟨⟨c', outs⟩, hresult, hfired⟩ := Option.map_eq_some_iff.mp hhandled
  refine ⟨c, c', outs, hc, hresult, hfired, ?_⟩
  exact ((triggers_have_owner (fun seed => (0, seed)) _ 0 1 Nat.one_pos 0 hc).2 _ _ _ _ hresult).1

end Pheromone.Coordinator
