import Pheromone.Coordinator.Notify
import Pheromone.Coordinator.Registry
import Pheromone.Lib.Transition

/-!
# The main loop of a coordinator thread

Key queries, and the loop of `run` that takes one message after another and
hands each to its handler.
-/

namespace Pheromone.Coordinator

open Lib Common

variable {c c' : CoordState} {now : TimePoint} {randR : RandR} {result : CoordState × List CoordOut}
  {request : KeyNotifyRequest}

/-! ## Queries -/

structure GetAddressResult where
  error : KVSError := .success
  addr : USet Address := USet.empty

def getAddress (bk : BucketKey) (m : Map Bucket (Map Key (USet Address))) : GetAddressResult :=
  match m bk.bucket with
  | none => { error := .keyNE }
  | some keys =>
      match keys bk.key with
      | none => { error := .keyNE }
      | some addresses => { addr := addresses }

/-- The loop over the addresses of a query: `query_results` and `reported_error`.
The first error ends it. -/
def queryAddresses (m : Map Bucket (Map Key (USet Address))) :
    List BucketKeyAddress → List (BucketKey × GetAddressResult) →
      List (BucketKey × GetAddressResult) × KVSError
  | [], results => (results, .success)
  | address :: rest, results =>
      let bk := address.bucketKey
      match m bk.bucket with
      | none => (results ++ [(bk, { error := .bucketNE })], .bucketNE)
      | some _ =>
          let result := getAddress bk m
          if result.error = .success then queryAddresses m rest (results ++ [(bk, result)])
          else (results ++ [(bk, result)], result.error)

def queryHandler (c : CoordState) (request : KeyQueryRequest) : CoordState × List CoordOut :=
  let query := queryAddresses c.bucketKeyAddressMap request.addresses []
  (c, [.queryResponse request.responseAddress
    { addresses := query.1.map fun result =>
        { bucket := result.1.bucket
          key := result.1.key
          session := result.1.session
          ips := if query.2 = .success then result.2.addr.elems else [] }
      error := query.2
      responseId := request.requestId }])

/-! ## The loop -/

inductive CoordEvent
  | notify (now : TimePoint) (request : KeyNotifyRequest)
  | query (request : KeyQueryRequest)
  | bucketOp (request : BucketOperationRequest)
  | triggerOp (now : TimePoint) (request : TriggerOperationRequest)
  | status (msg : UpdateStatusMessage)
  | register (now : TimePoint) (registration : AppRegistration)
  /-- A call of a client or one that a scheduler forwards. -/
  | call (call : FunctionCall)
  /-- Not a message: `node_status_map` is iterated in the order of `m` from now on. -/
  | rehash (m : UMap Address NodeStatus)

def CoordEvent.IsNotify : CoordEvent → Prop
  | .notify _ _ => True
  | _ => False

def CoordState.rehash (m : UMap Address NodeStatus) (c : CoordState) : CoordState :=
  if m.entries.Perm c.nodeStatusMap.entries then { c with nodeStatusMap := m } else c

/-- What one message does to the state, and what is sent. -/
def handleMessage (randR : RandR) (c : CoordState) :
    CoordEvent → Option (CoordState × List CoordOut)
  | .notify now request => notifyHandler randR now c request
  | .query request => some (queryHandler c request)
  | .bucketOp request => some (bucketOpHandler c request)
  | .triggerOp now request => triggerOpHandler now c request
  | .status msg => some (updateStatus c msg, [])
  | .register now registration => appRegisterHandler now c registration
  | .call call => funcCallHandler randR c call
  | .rehash m => some (c.rehash m, [])

def coordStep (randR : RandR) (c : CoordState) (e : CoordEvent) : Option CoordState :=
  (handleMessage randR c e).map Prod.fst

theorem rehash_eq (m : UMap Address NodeStatus) (c : CoordState) :
    ∃ m', c.rehash m = { c with nodeStatusMap := m' } ∧
      ∀ ip, m'.find? ip = c.nodeStatusMap.find? ip := by
  unfold CoordState.rehash
  by_cases hperm : m.entries.Perm c.nodeStatusMap.entries
  · rw [if_pos hperm]
    exact ⟨m, rfl, UMap.find?_eq_of_perm hperm⟩
  · rw [if_neg hperm]
    exact ⟨c.nodeStatusMap, rfl, fun _ => rfl⟩

theorem funcCallHandler_seed {call : FunctionCall}
    (h : funcCallHandler randR c call = some result) : ∃ seed, result.1 = { c with seed } := by
  obtain ⟨scheduled, -, rfl⟩ := Option.map_eq_some_iff.mp h
  simp only
  split
  · exact ⟨_, rfl⟩
  · exact ⟨_, rfl⟩

/-- The messages that neither report objects nor change what is registered. -/
def CoordEvent.IsQuiet : CoordEvent → Prop
  | .query _ | .status _ | .call _ | .rehash _ => True
  | _ => False

theorem handleMessage_quiet {e : CoordEvent} (h : handleMessage randR c e = some result)
    (he : e.IsQuiet) : ∃ nodes seed, result.1 = { c with nodeStatusMap := nodes, seed } := by
  cases e with
  | query request | status msg =>
    cases h
    exact ⟨_, _, rfl⟩
  | call call =>
    obtain ⟨seed, hseed⟩ := funcCallHandler_seed h
    exact ⟨_, seed, hseed⟩
  | rehash m =>
    cases h
    obtain ⟨nodes, hnodes, -⟩ := rehash_eq m c
    exact ⟨nodes, _, hnodes⟩
  | notify | bucketOp | triggerOp | register => exact he.elim

def SameRecords (c c' : CoordState) : Prop :=
  ∃ buckets apps triggers, c' = { c with
    appBucketsMap := buckets, bucketAppMap := apps, bucketTriggersMap := triggers }

theorem SameRecords.refl (c : CoordState) : SameRecords c c := ⟨_, _, _, rfl⟩

theorem SameRecords.trans {c₁ c₂ c₃ : CoordState} (h : SameRecords c₁ c₂)
    (h' : SameRecords c₂ c₃) : SameRecords c₁ c₃ := by
  obtain ⟨_, _, _, rfl⟩ := h
  obtain ⟨_, _, _, rfl⟩ := h'
  exact ⟨_, _, _, rfl⟩

theorem bucketOpHandler_records (c : CoordState) (request : BucketOperationRequest) :
    SameRecords c (bucketOpHandler c request).1 := by
  unfold bucketOpHandler
  simp only
  split
  · split <;> exact ⟨_, _, _, rfl⟩
  · split <;> exact ⟨_, _, _, rfl⟩
  · exact ⟨_, _, _, rfl⟩

theorem triggerOpHandler_cases {request : TriggerOperationRequest}
    (h : triggerOpHandler now c request = some result) :
    (∃ response msg, result.2 =
        .triggerResponse request.responseAddress response :: broadcast result.1 msg) ∧
      (result.1 = c ∨
        (c.bucketAppMap request.bucketName).isSome ∧
          ((∃ pointer, genTriggerPointer now request.primitiveType request.triggerName
              request.primitive = some pointer ∧
              result.1 = c.pushTrigger request.bucketName
                (pointer.setTriggerOption (intOfUInt32 request.triggerOption))) ∨
            result.1 = (deleteTrigger c request).1)) := by
  unfold triggerOpHandler at h
  simp only at h
  split at h
  · split at h
    next owner howner =>
      obtain ⟨added, hadded, rfl⟩ := Option.map_eq_some_iff.mp h
      obtain ⟨pointer, hpointer, rfl⟩ := Option.map_eq_some_iff.mp hadded
      exact ⟨⟨_, _, rfl⟩, .inr ⟨by rw [howner]; rfl, .inl ⟨pointer, hpointer, rfl⟩⟩⟩
    · cases h
      exact ⟨⟨_, _, rfl⟩, .inl rfl⟩
  · split at h
    next owner howner =>
      cases h
      exact ⟨⟨_, _, rfl⟩, .inr ⟨by rw [howner]; rfl, .inr rfl⟩⟩
    · cases h
      exact ⟨⟨_, _, rfl⟩, .inl rfl⟩
  · cases h
    exact ⟨⟨_, _, rfl⟩, .inl rfl⟩

theorem triggerOpHandler_records {request : TriggerOperationRequest}
    (h : triggerOpHandler now c request = some result) : SameRecords c result.1 := by
  obtain ⟨-, hsame | ⟨-, ⟨pointer, -, hadded⟩ | hdeleted⟩⟩ := triggerOpHandler_cases h
  · rw [hsame]
    exact SameRecords.refl c
  · rw [hadded]
    exact ⟨_, _, _, rfl⟩
  · rw [hdeleted]
    exact ⟨_, _, _, rfl⟩

theorem registerDependency_records {appName : Name} {acc acc' : CoordState × UpdateCoordMsg}
    {dependency : DataDependency} (h : registerDependency now appName acc dependency = some acc') :
    SameRecords acc.1 acc'.1 := by
  rcases registerDependency_cases h with ⟨-, rfl⟩ | ⟨-, tgt, trigger, -, -, rfl⟩
  · exact SameRecords.refl acc.1
  · exact ⟨_, _, _, rfl⟩

theorem appRegisterHandler_records {registration : AppRegistration}
    (h : appRegisterHandler now c registration = some result) : SameRecords c result.1 := by
  obtain ⟨acc, hacc, rfl⟩ := Option.map_eq_some_iff.mp h
  refine foldlM_preserves (Q := fun acc : CoordState × UpdateCoordMsg => SameRecords c acc.1) ?_
    hacc (SameRecords.refl c)
  intro acc dependency _ acc' hstep hacc
  exact hacc.trans (registerDependency_records hstep)

/-! ## What is sent for each object -/

/-- The loop of `notify_handler`, with what it sends kept apart for each object. -/
def notifyParts (randR : RandR) (now : TimePoint) (request : KeyNotifyRequest) :
    List BucketKeyAddress → CoordState → Option (CoordState × List (BucketKey × List CoordOut))
  | [], c => some (c, [])
  | address :: rest, c =>
      match address.ips.head? with
      | none => none
      | some ip =>
          if address.payload = [] ∧ c.bucketAppMap address.bucket = none then some (c, [])
          else
            (ipOfAddress ip).bind fun nodeIp =>
              (checkTriggers randR now request.activeTriggerNames address.bucketKey
                request.responseAddress
                (recordObject c address.bucketKey ip nodeIp address.payload)).bind
                fun result =>
                  (notifyParts randR now request rest result.1).map fun parts =>
                    (parts.1, (address.bucketKey, result.2) :: parts.2)

theorem notifyParts_cons_cases {address : BucketKeyAddress} {rest : List BucketKeyAddress}
    {parts : List (BucketKey × List CoordOut)}
    (h : notifyParts randR now request (address :: rest) c = some (c', parts)) :
    ((address.payload = [] ∧ c.bucketAppMap address.bucket = none) ∧ c' = c ∧ parts = []) ∨
      (¬ (address.payload = [] ∧ c.bucketAppMap address.bucket = none) ∧
        ∃ ip nodeIp c₁ outs parts', ipOfAddress ip = some nodeIp ∧
          checkTriggers randR now request.activeTriggerNames address.bucketKey
            request.responseAddress (recordObject c address.bucketKey ip nodeIp address.payload) =
              some (c₁, outs) ∧
          notifyParts randR now request rest c₁ = some (c', parts') ∧
          parts = (address.bucketKey, outs) :: parts') := by
  simp only [notifyParts] at h
  split at h
  · cases h
  next ip hip =>
    split at h
    next hend =>
      cases h
      exact .inl ⟨hend, rfl, rfl⟩
    next hend =>
      simp only [Option.bind_eq_some_iff] at h
      obtain ⟨nodeIp, hnodeIp, ⟨c₁, outs⟩, hchecked, h⟩ := h
      obtain ⟨⟨c₂, parts'⟩, hparts, heq⟩ := Option.map_eq_some_iff.mp h
      cases heq
      exact .inr ⟨hend, ip, nodeIp, c₁, outs, parts', hnodeIp, hchecked, hparts, rfl⟩

theorem notifyParts_invariant {Q : CoordState → Prop} {R : BucketKey × List CoordOut → Prop}
    {addresses : List BucketKeyAddress} {parts : List (BucketKey × List CoordOut)}
    (hstep : ∀ (c : CoordState) (address : BucketKeyAddress) (ip nodeIp : Address)
      (c₁ : CoordState) (outs : List CoordOut), address ∈ addresses → Q c →
      ipOfAddress ip = some nodeIp →
      checkTriggers randR now request.activeTriggerNames address.bucketKey
        request.responseAddress (recordObject c address.bucketKey ip nodeIp address.payload) =
          some (c₁, outs) →
      Q c₁ ∧ R (address.bucketKey, outs))
    (h : notifyParts randR now request addresses c = some (c', parts)) (hc : Q c) :
    Q c' ∧ ∀ part ∈ parts, R part := by
  induction addresses generalizing c parts with
  | nil =>
    cases h
    exact ⟨hc, fun _ hpart => absurd hpart List.not_mem_nil⟩
  | cons address rest ih =>
    rcases notifyParts_cons_cases h with ⟨-, rfl, rfl⟩ |
      ⟨-, ip, nodeIp, c₁, outs, parts', hnodeIp, hchecked, hparts, rfl⟩
    · exact ⟨hc, fun _ hpart => absurd hpart List.not_mem_nil⟩
    · obtain ⟨hc₁, houts⟩ :=
        hstep c address ip nodeIp c₁ outs List.mem_cons_self hc hnodeIp hchecked
      obtain ⟨hc', hrest⟩ := ih (fun c address ip nodeIp c₁ outs hmem =>
        hstep c address ip nodeIp c₁ outs (List.mem_cons_of_mem _ hmem)) hparts hc₁
      exact ⟨hc', List.forall_mem_cons.mpr ⟨houts, hrest⟩⟩

theorem notifyAddresses_eq_parts (randR : RandR) (now : TimePoint) (request : KeyNotifyRequest)
    (addresses : List BucketKeyAddress) (c : CoordState) (outs : List CoordOut) :
    notifyAddresses randR now request addresses c outs =
      (notifyParts randR now request addresses c).map fun parts =>
        (parts.1, outs ++ parts.2.flatMap Prod.snd) := by
  induction addresses generalizing c outs with
  | nil => simp [notifyAddresses, notifyParts]
  | cons address rest ih =>
    simp only [notifyAddresses, notifyParts]
    cases address.ips.head? with
    | none => rfl
    | some ip =>
      simp only
      split
      · simp
      · cases ipOfAddress ip with
        | none => rfl
        | some nodeIp =>
          simp only [Option.bind_some]
          cases checkTriggers randR now request.activeTriggerNames address.bucketKey
              request.responseAddress
              (recordObject c address.bucketKey ip nodeIp address.payload) with
          | none => rfl
          | some result =>
            simp only [Option.bind_some, ih, Option.map_map]
            congr 1
            funext parts
            simp

theorem notifyHandler_eq_parts {outs : List CoordOut}
    (h : notifyHandler randR now c request = some (c', outs)) :
    ∃ parts, notifyParts randR now request request.addresses c = some (c', parts) ∧
      outs = parts.flatMap Prod.snd := by
  rw [notifyHandler, notifyAddresses_eq_parts] at h
  obtain ⟨⟨c₁, parts⟩, hparts, heq⟩ := Option.map_eq_some_iff.mp h
  rw [List.nil_append, Prod.mk.injEq] at heq
  obtain ⟨rfl, rfl⟩ := heq
  exact ⟨parts, hparts, rfl⟩

end Pheromone.Coordinator
