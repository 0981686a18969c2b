import Pheromone.Coordinator.Run

/-!
# Trigger operations and their responses

What a trigger operation is asked to do, whether it was done, and what the response says
about it.
-/

namespace Pheromone.Coordinator

open Lib Common

variable {c : CoordState} {request : TriggerOperationRequest} {now : TimePoint}
variable {response : TriggerOperationResponse}

/-- Between `c` and `c'` the operation was carried out: the trigger was appended to the
existing bucket, or all the triggers of the name were taken out of it. -/
def TookEffect (c c' : CoordState) (request : TriggerOperationRequest) : Prop :=
  (c.bucketAppMap request.bucketName).isSome ∧
    (∀ bucket, bucket ≠ request.bucketName → c'.triggersOf bucket = c.triggersOf bucket) ∧
    match request.operationType with
    | .addTrigger => ∃ t : Trigger, t.triggerName = request.triggerName ∧
        t.type = request.primitiveType ∧
        t.triggerOption = intOfUInt32 request.triggerOption ∧
        c'.triggersOf request.bucketName = c.triggersOf request.bucketName ++ [t]
    | .deleteTrigger =>
        (∃ t ∈ c.triggersOf request.bucketName, t.triggerName = request.triggerName) ∧
        c'.triggersOf request.bucketName =
          (c.triggersOf request.bucketName).filter
            fun t => t.triggerName ≠ request.triggerName
    | .unrecognized _ => False

/-- The response has no error exactly when the operation was carried out, and otherwise
the triggers are as before. -/
def ReportsEffect (now : TimePoint) (c : CoordState) (request : TriggerOperationRequest) :
    Prop :=
  ∃ c' response msgs,
    triggerOpHandler now c request =
      some (c', .triggerResponse request.responseAddress response :: msgs) ∧
    (response.error = .success ↔ TookEffect c c' request) ∧
    (¬ TookEffect c c' request → ∀ bucket, c'.triggersOf bucket = c.triggersOf bucket)

/-- The operation is of a known type, a trigger to add to the bucket too, and a trigger to
delete from it is there. -/
def Reportable (c : CoordState) (request : TriggerOperationRequest) : Prop :=
  match request.operationType with
  | .addTrigger => (c.bucketAppMap request.bucketName).isSome →
      ∀ number, request.primitiveType ≠ .unrecognized number
  | .deleteTrigger => (c.bucketAppMap request.bucketName).isSome →
      ∃ t ∈ c.triggersOf request.bucketName, t.triggerName = request.triggerName
  | .unrecognized _ => False

/-! ## The response -/

theorem addTrigger_tookEffect {result : CoordState × UpdateCoordMsg}
    (hadd : request.operationType = .addTrigger)
    (hbucket : (c.bucketAppMap request.bucketName).isSome)
    (h : addTrigger now c request = some result) : TookEffect c result.1 request := by
  obtain ⟨pointer, hpointer, rfl⟩ := Option.map_eq_some_iff.mp h
  obtain ⟨htype, hname⟩ := genTriggerPointer_fields hpointer
  refine ⟨hbucket, fun bucket hne => ?_, ?_⟩
  · rw [triggersOf_pushTrigger, if_neg hne]
  · rw [hadd]
    refine ⟨pointer.setTriggerOption (intOfUInt32 request.triggerOption), hname, htype, rfl, ?_⟩
    rw [triggersOf_pushTrigger, if_pos rfl]

theorem deleteTrigger_tookEffect_iff (hdelete : request.operationType = .deleteTrigger)
    (hbucket : (c.bucketAppMap request.bucketName).isSome) :
    TookEffect c (deleteTrigger c request).1 request ↔
      ∃ t ∈ c.triggersOf request.bucketName, t.triggerName = request.triggerName := by
  unfold TookEffect
  rw [hdelete]
  constructor
  · intro h
    exact h.2.2.1
  · intro h
    refine ⟨hbucket, fun bucket hne => ?_, h, ?_⟩
    · rw [triggersOf_deleteTrigger, if_neg hne]
    · rw [triggersOf_deleteTrigger, if_pos rfl]

theorem tookEffect_iff {c' : CoordState} {outs : List CoordOut}
    (h : triggerOpHandler now c request = some (c', outs)) :
    TookEffect c c' request ↔ hasEffect c request = true := by
  have hhandler := h
  rw [triggerOpHandler.eq_def] at hhandler
  unfold hasEffect
  rw [Bool.and_eq_true]
  cases hbucket : c.bucketAppMap request.bucketName with
  | none =>
    have hnot : ¬ TookEffect c c' request := fun htook => by
      have hsome := htook.1
      rw [hbucket] at hsome
      cases hsome
    simp [hnot]
  | some owner =>
    have hsome : (c.bucketAppMap request.bucketName).isSome := by rw [hbucket]; rfl
    cases hop : request.operationType with
    | unrecognized number =>
      unfold TookEffect
      simp [hop]
    | addTrigger =>
      simp only [hop, hbucket] at hhandler
      obtain ⟨result, hadded, heq⟩ := Option.map_eq_some_iff.mp hhandler
      cases heq
      have htook := addTrigger_tookEffect hop hsome hadded
      simp [htook]
    | deleteTrigger =>
      simp only [hop, hbucket] at hhandler
      cases hhandler
      rw [deleteTrigger_tookEffect_iff hop hsome]
      simp

theorem reports_success_iff {c' : CoordState}
    {msgs : List CoordOut} (h : triggerOpHandler now c request =
      some (c', .triggerResponse request.responseAddress response :: msgs))
    (hsuccess : response.error = .success) :
    ReportsEffect now c request ↔ TookEffect c c' request := by
  constructor
  · rintro ⟨c₁, response₁, msgs₁, h₁, hreports, -⟩
    rw [h] at h₁
    cases h₁
    exact hreports.mp hsuccess
  · intro htook
    refine ⟨c', response, msgs, h, ?_, fun hnot => absurd htook hnot⟩
    simp [hsuccess, htook]

theorem reports_missing_bucket {msgs : List CoordOut}
    (h : triggerOpHandler now c request =
      some (c, .triggerResponse request.responseAddress response :: msgs))
    (herror : response.error = .bucketNE) (hbucket : c.bucketAppMap request.bucketName = none) :
    ReportsEffect now c request := by
  have hnot : ¬ TookEffect c c request := by
    intro htook
    have hsome := htook.1
    rw [hbucket] at hsome
    cases hsome
  refine ⟨c, response, msgs, h, ?_, fun _ _ => rfl⟩
  simp [herror, hnot]

theorem addTrigger_reports_iff
    (hop : request.operationType = .addTrigger) (hsome : (c.bucketAppMap request.bucketName).isSome)
    (h : triggerOpHandler now c request = (addTrigger now c request).map fun result =>
      (result.1, .triggerResponse request.responseAddress response ::
        broadcast result.1 result.2)) (hsuccess : response.error = .success) :
    ReportsEffect now c request ↔ (genTriggerPointer now request.primitiveType
      request.triggerName request.primitive).isSome := by
  cases hadded : addTrigger now c request with
  | none =>
    rw [hadded, Option.map_none] at h
    rw [Option.map_eq_none_iff.mp hadded]
    constructor
    · rintro ⟨c', response', msgs, h', -⟩
      rw [h] at h'
      cases h'
    · intro hpointer
      cases hpointer
  | some result =>
    rw [hadded, Option.map_some] at h
    obtain ⟨pointer, hpointer, -⟩ := Option.map_eq_some_iff.mp hadded
    have htook := addTrigger_tookEffect hop hsome hadded
    rw [reports_success_iff h hsuccess, hpointer]
    simp [htook]

/-- The response tells whether an operation was carried out unless its type is unknown, it
deletes a trigger that is not there, or it adds one of an unknown type. -/
theorem trigger_op_reports_iff (now : TimePoint) (c : CoordState)
    (request : TriggerOperationRequest) :
    ReportsEffect now c request ↔ Reportable c request := by
  have hhandler := triggerOpHandler.eq_def now c request
  unfold Reportable
  cases hop : request.operationType with
  | unrecognized number =>
      simp only [hop] at hhandler
      rw [reports_success_iff hhandler rfl]
      unfold TookEffect
      simp [hop]
  | addTrigger =>
      simp only [hop] at hhandler ⊢
      cases hbucket : c.bucketAppMap request.bucketName with
      | none =>
          simp only [hbucket] at hhandler
          have hreports := reports_missing_bucket hhandler rfl hbucket
          simp [hreports]
      | some owner =>
          simp only [hbucket] at hhandler
          have hsome : (c.bucketAppMap request.bucketName).isSome := by rw [hbucket]; rfl
          rw [addTrigger_reports_iff hop hsome hhandler rfl, genTriggerPointer_isSome_iff]
          simp
  | deleteTrigger =>
      simp only [hop] at hhandler ⊢
      cases hbucket : c.bucketAppMap request.bucketName with
      | none =>
          simp only [hbucket] at hhandler
          have hreports := reports_missing_bucket hhandler rfl hbucket
          simp [hreports]
      | some owner =>
          simp only [hbucket] at hhandler
          have hsome : (c.bucketAppMap request.bucketName).isSome := by rw [hbucket]; rfl
          rw [reports_success_iff hhandler rfl, deleteTrigger_tookEffect_iff hop hsome]
          simp

def bucketEvents : List CoordEvent :=
  [.bucketOp { operationType := .createBucket, appName := Bytes.lit "app",
               bucketName := Bytes.lit "b" }]

def operationOn (type : TriggerOperationType) : TriggerOperationRequest :=
  { operationType := type, appName := Bytes.lit "app", bucketName := Bytes.lit "b"
    triggerName := Bytes.lit "x" }

/-- Deleting a trigger that is not there, and an operation of an unknown type, are answered
without an error; a trigger of an unknown type ends the coordinator. -/
theorem trigger_op_misreports :
    ∃ c, run (coordStep fun seed => (0, seed))
        (CoordState.new (Bytes.lit "10.0.0.1") 0 1 Nat.one_pos 0) bucketEvents = some c ∧
      (∃ c' response msgs, triggerOpHandler 0 c (operationOn .deleteTrigger) =
          some (c', .triggerResponse [] response :: msgs) ∧
        response.error = .success ∧ ¬ TookEffect c c' (operationOn .deleteTrigger)) ∧
      (∃ c' response msgs, triggerOpHandler 0 c (operationOn (.unrecognized 7)) =
          some (c', .triggerResponse [] response :: msgs) ∧
        response.error = .success ∧ ¬ TookEffect c c' (operationOn (.unrecognized 7))) ∧
      triggerOpHandler 0 c
        { operationOn .addTrigger with primitiveType := .unrecognized 9 } = none := by
  refine ⟨_, rfl, ⟨_, _, _, rfl, rfl, ?_⟩, ⟨_, _, _, rfl, rfl, ?_⟩, rfl⟩
  · intro htook
    obtain ⟨t, ht, -⟩ := htook.2.2.1
    exact absurd ht List.not_mem_nil
  · intro htook
    exact htook.2.2

end Pheromone.Coordinator
