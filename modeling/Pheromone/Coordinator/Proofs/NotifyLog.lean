import Pheromone.Common.FiringLog
import Pheromone.Coordinator.Proofs.Actions

/-!
# The firings of a sequence of notifications

The objects that a request has checked depend on the owners of the buckets alone,
and no notification changes these.
-/

namespace Pheromone.Coordinator

open Lib Common

variable {c c' : CoordState} {randR : RandR} {now : TimePoint} {outs : List CoordOut}
  {requests : List (TimePoint × KeyNotifyRequest)}

/-- The objects that `notify_handler` checks.  The loop ends at an object without a payload
in a bucket that has no application. -/
def checksOf (apps : Map Bucket Name) (now : TimePoint) (activeTriggers : List Name) :
    List BucketKeyAddress → List Check
  | [] => []
  | address :: rest =>
      if address.payload = [] ∧ apps address.bucket = none then []
      else
        { now, active := activeTriggers, object := address.bucketKey } ::
          checksOf apps now activeTriggers rest

def notifyAll (randR : RandR) :
    List (TimePoint × KeyNotifyRequest) → CoordState → Option (List CoordOut)
  | [], _ => some []
  | (now, request) :: rest, c =>
      (notifyHandler randR now c request).bind fun result =>
        (notifyAll randR rest result.1).map fun outs => result.2 ++ outs

def allChecks (apps : Map Bucket Name) (requests : List (TimePoint × KeyNotifyRequest)) :
    List Check :=
  requests.flatMap fun request =>
    checksOf apps request.1 request.2.activeTriggerNames request.2.addresses

structure Noted (checks : List Check) (c c' : CoordState) (outs : List CoordOut) : Prop where
  fired : firedOf outs = firedBy checks c.triggersOf
  triggers : c'.triggersOf =
    checks.foldl (fun triggers check => check.after triggers) c.triggersOf
  apps : c'.bucketAppMap = c.bucketAppMap
  owned : c'.TriggersOwned

theorem notifyParts_noted {request : KeyNotifyRequest} {addresses : List BucketKeyAddress}
    {parts : List (BucketKey × List CoordOut)}
    (h : notifyParts randR now request addresses c = some (c', parts)) (hc : c.TriggersOwned) :
    Noted (checksOf c.bucketAppMap now request.activeTriggerNames addresses) c c'
      (parts.flatMap Prod.snd) := by
  induction addresses generalizing c parts with
  | nil =>
    cases h
    exact ⟨rfl, rfl, rfl, hc⟩
  | cons address rest ih =>
    rcases notifyParts_cons_cases h with ⟨hunknown, rfl, rfl⟩ |
      ⟨hknown, ip, nodeIp, c₁, outs, parts', -, hresult, hparts, rfl⟩
    · rw [checksOf, if_pos hunknown]
      exact ⟨rfl, rfl, rfl, hc⟩
    · have hchecked := checkTriggers_checked hresult
      obtain ⟨hsame, howned, -⟩ := checkTriggers_owner hresult hc
      have hrest := ih hparts howned
      have happs : c₁.bucketAppMap = c.bucketAppMap := hsame.apps
      rw [checksOf, if_neg hknown]
      have hafter : c₁.triggersOf = Check.after
          { now, active := request.activeTriggerNames, object := address.bucketKey }
          c.triggersOf := by
        funext b
        unfold Check.after
        by_cases hb : b = address.bucketKey.bucket
        · rw [hb, Function.update_self]
          exact hchecked.triggers
        · rw [Function.update_of_ne hb]
          exact hchecked.others b hb
      refine ⟨?_, ?_, hrest.apps.trans happs, hrest.owned⟩
      · rw [List.flatMap_cons, firedOf_append, hrest.fired, hafter, happs, firedBy]
        congr 1
        exact hchecked.fired
      · rw [hrest.triggers, hafter, happs]
        rfl

theorem notifyHandler_noted {request : KeyNotifyRequest}
    (h : notifyHandler randR now c request = some (c', outs)) (hc : c.TriggersOwned) :
    Noted (checksOf c.bucketAppMap now request.activeTriggerNames request.addresses) c c'
      outs := by
  obtain ⟨parts, hparts, rfl⟩ := notifyHandler_eq_parts h
  exact notifyParts_noted hparts hc

theorem firedOf_notifyAll (h : notifyAll randR requests c = some outs) (hc : c.TriggersOwned) :
    firedOf outs = firedBy (allChecks c.bucketAppMap requests) c.triggersOf := by
  induction requests generalizing c outs with
  | nil =>
    cases h
    rfl
  | cons request rest ih =>
    obtain ⟨⟨c₁, outs₁⟩, hfirst, h⟩ := Option.bind_eq_some_iff.mp h
    obtain ⟨outs', hrest, rfl⟩ := Option.map_eq_some_iff.mp h
    have hnoted := notifyHandler_noted hfirst hc
    rw [firedOf_append, hnoted.fired, ih hrest hnoted.owned, hnoted.apps, hnoted.triggers,
      ← firedBy_append]
    rfl

theorem notifyAll_defined (randR : RandR) (hc : Located c)
    (hsent : ∀ request ∈ requests, ∀ address ∈ request.2.addresses, Sent address) :
    ∃ outs, notifyAll randR requests c = some outs := by
  induction requests generalizing c with
  | nil => exact ⟨[], rfl⟩
  | cons request rest ih =>
    obtain ⟨c₁, outs, hfirst⟩ := notifyHandler_defined randR request.1 request.2 hc
      (hsent request List.mem_cons_self)
    obtain ⟨parts, hparts, -⟩ := notifyHandler_eq_parts hfirst
    obtain ⟨outs', hrest⟩ := ih (notifyParts_located hparts hc)
      fun r hr => hsent r (List.mem_cons_of_mem _ hr)
    refine ⟨outs ++ outs', ?_⟩
    rw [notifyAll, hfirst, Option.bind_some, hrest]
    rfl

/-! ## Requests for given objects -/

def requestOf (ip : Address) (check : Check) : TimePoint × KeyNotifyRequest :=
  (check.now,
    { requestId := []
      responseAddress := []
      activeTriggerNames := check.active
      addresses := [
        { bucket := check.object.bucket
          key := check.object.key
          session := check.object.session
          ips := [ip] }] })

theorem allChecks_requestOf {apps : Map Bucket Name} {checks : List Check} (ip : Address)
    (h : ∀ check ∈ checks, (apps check.object.bucket).isSome) :
    allChecks apps (checks.map (requestOf ip)) = checks := by
  induction checks with
  | nil => rfl
  | cons check checks ih =>
    have hsome := h check List.mem_cons_self
    have hone : checksOf apps check.now check.active (requestOf ip check).2.addresses =
        [check] := by
      unfold requestOf
      rw [checksOf, if_neg]
      · rfl
      · rintro ⟨-, hnone⟩
        simp only at hnone
        rw [hnone] at hsome
        cases hsome
    have hrest := ih fun c hc => h c (List.mem_cons_of_mem _ hc)
    unfold allChecks at hrest ⊢
    rw [List.map_cons, List.flatMap_cons, hrest]
    exact congrArg (· ++ checks) hone

end Pheromone.Coordinator
