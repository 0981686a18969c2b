import Pheromone.Cluster.Proofs.Joining

/-!
# Where an object of a bucket is reported

A scheduler reports an object to the coordinator thread that it has on record for the
bucket, and drops the report when it has none.  The record comes with the entities of
an update.  A registration sends an entity for every bucket that it makes, an
`ADD_TRIGGER` only for a trigger that runs on the nodes.
-/

namespace Pheromone.Cluster

open Lib Common Coordinator Scheduler

variable {c' : CoordState} {k' : RegistryCluster} {outs : List CoordOut} {s : SchedState}

variable {k : RegistryCluster} {bucket : Bucket} {c : CoordState} {e : RegistryEvent} {ip : Address}
  {msg : UpdateCoordMsg} {now : TimePoint}

/-! ## Buckets that get their first trigger -/

def NamesNew (c : CoordState) (result : CoordState × UpdateCoordMsg) : Prop :=
  ∀ bucket, result.1.triggersOf bucket ≠ [] →
    c.triggersOf bucket ≠ [] ∨ bucket ∈ result.2.triggers.map TriggerEntity.bucketName

theorem NamesNew.push {c₁ c₂ : CoordState} {entity : TriggerEntity} (h : NamesNew c (c₁, msg))
    (bucket : Bucket) (hentity : entity.bucketName = bucket)
    (hother : ∀ b, b ≠ bucket → c₂.triggersOf b = c₁.triggersOf b) :
    NamesNew c (c₂, { msg with triggers := msg.triggers ++ [entity] }) := by
  intro b hb
  simp only [List.map_append, List.mem_append]
  by_cases hbucket : b = bucket
  · right; right
    rw [hbucket, ← hentity]
    exact List.mem_cons_self
  · rcases h b (by rw [← hother b hbucket]; exact hb) with hold | hnamed
    · exact Or.inl hold
    · exact Or.inr (Or.inl hnamed)

theorem registerDependency_namesNew {appName : Name} {dependency : DataDependency}
    {acc acc' : CoordState × UpdateCoordMsg}
    (h : registerDependency now appName acc dependency = some acc') (hacc : NamesNew c acc) :
    NamesNew c acc' := by
  rcases registerDependency_cases h with ⟨-, rfl⟩ | ⟨-, tgt, trigger, -, -, rfl⟩
  · exact hacc
  · refine hacc.push (bucketOfTarget tgt) (entityOf_bucketName _ trigger) fun b hb => ?_
    rw [triggersOf_addDependency, if_neg (Ne.symm hb), List.append_nil]

theorem appRegisterHandler_namesNew {registration : AppRegistration}
    (h : appRegisterHandler now c registration = some (c', outs)) :
    ∃ msg, outs = broadcast c' msg ∧ SameThread c c' ∧ NamesNew c (c', msg) := by
  obtain ⟨⟨c₁, msg⟩, hfold, heq⟩ := Option.map_eq_some_iff.mp h
  cases heq
  refine ⟨msg, rfl, (registerDependency_foldlM hfold).1, ?_⟩
  exact foldlM_preserves (Q := NamesNew c)
    (fun _ _ _ _ hstep hacc => registerDependency_namesNew hstep hacc) hfold
    fun _ hbucket => Or.inl hbucket

/-- A periodic trigger is added only to a bucket that has a trigger already. -/
def JoinsTriggers (c : CoordState) (request : TriggerOperationRequest) : Prop :=
  (c.bucketAppMap request.bucketName).isSome → request.primitiveType = .byTime →
    c.triggersOf request.bucketName ≠ []

theorem triggerOpResult_namesNew {request : TriggerOperationRequest}
    {result : CoordState × UpdateCoordMsg} (hadd : request.operationType = .addTrigger)
    (hjoins : JoinsTriggers c request) (h : triggerOpResult now c request = some result) :
    NamesNew c result := by
  obtain ⟨c', msg⟩ := result
  unfold triggerOpResult at h
  cases happ : c.bucketAppMap request.bucketName with
  | none =>
    simp only [hadd, happ, Option.some.injEq] at h
    cases h
    exact fun _ hbucket => Or.inl hbucket
  | some app =>
    simp only [hadd, happ] at h
    obtain ⟨pointer, _, rfl, htype, _, hmsg⟩ := addTrigger_cases h
    intro b hb
    rw [triggersOf_pushTrigger] at hb
    by_cases hbucket : b = request.bucketName
    · rcases hmsg with ⟨htime, _⟩ | ⟨_, rfl⟩
      · left
        rw [hbucket]
        exact hjoins (by rw [happ]; rfl) (htype.symm.trans htime)
      · right
        rw [hbucket]
        exact List.mem_cons_self
    · rw [if_neg hbucket] at hb
      exact Or.inl hb

theorem triggersOf_bucketOp (c : CoordState) (request : BucketOperationRequest) (b : Bucket)
    (h : (bucketOpHandler c request).1.triggersOf b ≠ []) : c.triggersOf b ≠ [] := by
  unfold bucketOpHandler at h
  simp only at h
  split at h
  · split at h <;> exact h
  · split at h
    · exact h
    · simp only [CoordState.triggersOf] at h ⊢
      rw [Map.getD_erase] at h
      split at h
      · exact absurd rfl h
      · exact h
  · exact h

/-! ## The record of a bucket -/

namespace RegistryCluster

def Routed (k : RegistryCluster) (ip : Address) (bucket : Bucket) : Prop :=
  (k.nodes ip).bucketCoordMap bucket = some k.thread ∨
    ∃ msg ∈ k.channels ip, bucket ∈ msg.triggers.map TriggerEntity.bucketName

/-- Every node reports the objects of the buckets with triggers, or will do so. -/
structure Covered (k : RegistryCluster) : Prop where
  announces : k.Announces
  routed : ∀ bucket, k.coord.triggersOf bucket ≠ [] → ∀ ip ∈ k.members, k.Routed ip bucket

/-- The requests of a run: triggers are added and not deleted, a periodic one joins
others, and the nodes stay the same. -/
def Joins (k : RegistryCluster) : RegistryEvent → Prop
  | .triggerOp _ request =>
      request.operationType = .addTrigger ∧ JoinsTriggers k.coord request
  | .status msg => msg.ip ∈ k.members
  | _ => True

theorem Joins.isAddition (h : k.Joins e) : e.IsAddition := by
  cases e with
  | triggerOp now request => exact h.1
  | register | bucketOp | status | deliver => trivial

theorem Routed.deliver {ip' : Address} {rest : List UpdateCoordMsg} {now : Stamp}
    (h : k.Routed ip' bucket) (hk : k.Announces) (hchannel : k.channels ip = msg :: rest)
    (hs : handleUpdate now msg (k.nodes ip) = some s) :
    Routed { k with
      nodes := Function.update k.nodes ip s
      channels := Function.update k.channels ip rest } ip' bucket := by
  by_cases hip : ip' = ip
  · subst hip
    obtain ⟨htype, hcoord⟩ := hk ip' msg (by rw [hchannel]; exact List.mem_cons_self)
    unfold handleUpdate at hs
    rw [htype] at hs
    have hadded := addUpdate_added hs
    unfold Routed
    simp only [Function.update_self]
    rw [hadded.bucketCoord]
    split
    · left
      rw [hcoord]
      rfl
    next hnot =>
      rcases h with hrecord | ⟨msg', hmsg', hnamed⟩
      · exact Or.inl hrecord
      · rw [hchannel, List.mem_cons] at hmsg'
        rcases hmsg' with rfl | hmsg'
        · exact absurd hnamed hnot
        · exact Or.inr ⟨msg', hmsg', hnamed⟩
  · unfold Routed
    simp only [Function.update_of_ne hip]
    exact h

theorem routed_broadcast (hthread : SameThread k.coord c') (hip : ip ∈ k.members)
    (houts : updatesFor ip outs = updatesFor ip (broadcast c' msg))
    (hnamed : bucket ∈ msg.triggers.map TriggerEntity.bucketName) :
    (k.handled (c', outs)).Routed ip bucket := by
  have hmember : ip ∈ c'.nodeStatusMap.keys := by
    rw [hthread.2.2]
    exact hip
  refine Or.inr ⟨msg, List.mem_append_right _ ?_, hnamed⟩
  rw [houts, updatesFor_broadcast, if_pos hmember]
  exact List.mem_cons_self

theorem addition_routes (he : k.Joins e) (hdeliver : ∀ ip now, e ≠ .deliver ip now)
    (h : k.step e = some k') (hbucket : k'.coord.triggersOf bucket ≠ []) (hip : ip ∈ k'.members) :
    ip ∈ k.members ∧ (k.coord.triggersOf bucket ≠ [] ∨ k'.Routed ip bucket) := by
  cases e with
  | register now registration =>
    obtain ⟨⟨c', outs⟩, hresult, rfl⟩ := Option.map_eq_some_iff.mp h
    obtain ⟨msg, rfl, hthread, hnames⟩ := appRegisterHandler_namesNew hresult
    rw [handled_members hthread] at hip
    exact ⟨hip, (hnames bucket hbucket).imp_right (routed_broadcast hthread hip rfl)⟩
  | triggerOp now request =>
    obtain ⟨result, response, hresult, rfl⟩ := triggerOp_cases h
    have hthread := triggerOpResult_sameThread hresult
    rw [handled_members hthread] at hip
    have hnames := triggerOpResult_namesNew he.1 he.2 hresult
    exact ⟨hip, (hnames bucket hbucket).imp_right (routed_broadcast hthread hip rfl)⟩
  | bucketOp request =>
    cases h
    rw [handled_members (bucketOpHandler_updates k.coord request).1] at hip
    exact ⟨hip, Or.inl (triggersOf_bucketOp k.coord request bucket hbucket)⟩
  | status msg =>
    cases h
    have hmembers : (updateStatus k.coord msg).nodeStatusMap.keys = k.members :=
      UMap.keys_set_of_mem _ he
    exact ⟨hmembers ▸ hip, Or.inl hbucket⟩
  | deliver ip now => exact absurd rfl (hdeliver ip now)

theorem Covered.step (hk : k.Covered) (he : k.Joins e) (h : k.step e = some k') : k'.Covered := by
  obtain ⟨hannounces, _⟩ := step_announces he.isAddition h hk.announces
  refine ⟨hannounces, fun bucket hbucket ip hip => ?_⟩
  by_cases hdeliver : ∃ ip now, e = .deliver ip now
  · obtain ⟨ip', now, rfl⟩ := hdeliver
    rcases deliver_cases h with ⟨_, rfl⟩ | ⟨msg, rest, s, hchannel, hs, rfl⟩
    · exact hk.routed bucket hbucket ip hip
    · exact (hk.routed bucket hbucket ip hip).deliver hk.announces hchannel hs
  · push Not at hdeliver
    obtain ⟨hmember, hold | hrouted⟩ := addition_routes he hdeliver h hbucket hip
    · obtain ⟨hthread, hnodes, hsends⟩ := addition_sends he.isAddition hdeliver h
      obtain ⟨messages, hchannel, _⟩ := hsends ip
      unfold Routed
      rw [hthread, hnodes, hchannel]
      refine (hk.routed bucket hold ip hmember).imp_right fun ⟨msg, hmsg, hnamed⟩ => ?_
      exact ⟨msg, List.mem_append_left _ hmsg, hnamed⟩
    · exact hrouted

/-! ## Reports -/

def ReportsTo (coord : HandlerThread) (bucket : Bucket) (s : SchedState) : Prop :=
  ∀ (env : SchedEnv) (object : BucketKey) (active : List Name) (respAddress : Address)
    (payload : Value), object.bucket = bucket → ∃ requestId dataAddress,
      (notifyPut env object active respAddress payload s).sent = s.sent ++
        [.notify coord.notifyHandlerConnectAddress
          (notifyRequest requestId object active respAddress dataAddress payload)]

/-- When the updates are delivered, every node has the coordinator on record for
every bucket with a trigger, and reports the objects of the bucket to it. -/
def Reachable (k : RegistryCluster) : Prop :=
  (∀ ip ∈ k.members, k.channels ip = []) → ∀ bucket, k.coord.triggersOf bucket ≠ [] →
    ∀ ip ∈ k.members, (k.nodes ip).bucketCoordMap bucket = some k.thread ∧
      ReportsTo k.thread bucket (k.nodes ip)

theorem reportsTo_of_record {coord : HandlerThread} (h : s.bucketCoordMap bucket = some coord) :
    ReportsTo coord bucket s := by
  rintro env object active respAddress payload rfl
  rcases notifyPut_spec env object active respAddress payload s with
    ⟨hnone, _⟩ | ⟨coord', rid, id, requestId, hcoord, heq⟩
  · rw [h] at hnone
    cases hnone
  · rw [h] at hcoord
    cases hcoord
    exact ⟨requestId, _, by rw [heq]⟩

theorem Covered.reachable (hk : k.Covered) : k.Reachable := by
  intro hdelivered bucket hbucket ip hip
  have hrecord : (k.nodes ip).bucketCoordMap bucket = some k.thread := by
    rcases hk.routed bucket hbucket ip hip with hrecord | ⟨msg, hmsg, _⟩
    · exact hrecord
    · rw [hdelivered ip hip] at hmsg
      cases hmsg
  exact ⟨hrecord, reportsTo_of_record hrecord⟩

/-- From a coordinator without triggers, with nothing under way: as long as periodic
triggers are only added to buckets that have a trigger already, every bucket with a
trigger can be reached from every node once the updates are delivered. -/
theorem reachable_along_joins {k : RegistryCluster} {es : List RegistryEvent}
    (hchannels : ∀ ip, k.channels ip = []) (htriggers : ∀ bucket, k.coord.triggersOf bucket = [])
    (hes : Along step Joins k es) : Throughout step Reachable k es := by
  have hk : k.Covered := by
    refine ⟨fun ip msg hmsg => ?_, fun bucket hbucket => absurd (htriggers bucket) hbucket⟩
    rw [hchannels ip] at hmsg
    cases hmsg
  exact @throughout_of_along _ _ step Covered Reachable Joins (fun _ hk => hk.reachable)
    (fun _ _ _ hk he h => hk.step he h) k es hk hes

def createRequest : BucketOperationRequest :=
  { operationType := .createBucket, appName := Bytes.lit "app", bucketName := Bytes.lit "b_t" }

theorem reachable_along_joins_create :
    oneNode.Settled ∧
      Throughout step Reachable oneNode
        [.bucketOp createRequest, .triggerOp 0 (addRequest (Bytes.lit "x") .immediate),
          .triggerOp 0 (addRequest (Bytes.lit "y") .byTime), deliverNext, deliverNext] := by
  refine ⟨oneNode_settled, reachable_along_joins (fun _ => rfl) (fun _ => rfl) ?_⟩
  refine ⟨trivial, fun k hk => ⟨⟨rfl, fun _ htime => by cases htime⟩, fun k' hk' => ?_⟩⟩
  -- the first trigger is there when the periodic one comes
  have hbefore : (k'.coord.triggersOf (Bytes.lit "b_t")).length = 1 := by
    cases hk
    cases hk'
    decide
  refine ⟨⟨rfl, fun _ _ => List.ne_nil_of_length_pos ?_⟩,
    fun _ _ => ⟨trivial, fun _ _ => ⟨trivial, fun _ _ => trivial⟩⟩⟩
  exact Nat.lt_of_lt_of_eq Nat.zero_lt_one hbefore.symm

/-- A bucket whose only trigger is a periodic one that was added by an operation: its
node has no coordinator on record for it, and drops the report of every object. -/
theorem periodic_bucket_not_reachable :
    ∃ k, run step oneNode [.bucketOp createRequest,
        .triggerOp 0 (addRequest (Bytes.lit "x") .byTime), deliverNext] = some k ∧
      ¬ k.Reachable ∧
      ∀ env object active respAddress payload, object.bucket = Bytes.lit "b_t" →
        notifyPut env object active respAddress payload (k.nodes (Bytes.lit "10.0.0.2")) =
          k.nodes (Bytes.lit "10.0.0.2") := by
  refine ⟨_, rfl, fun hreachable => ?_, fun env object active respAddress payload hobject => ?_⟩
  · have hrecord := (hreachable (by decide) (Bytes.lit "b_t") (by decide)
      (Bytes.lit "10.0.0.2") (by decide)).1
    exact absurd hrecord (by decide)
  · unfold notifyPut
    rw [hobject]
    rfl

end RegistryCluster

end Pheromone.Cluster
