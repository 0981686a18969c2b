import Pheromone.Coordinator.Proofs.Dispatch

/-!
# The actions of a notification

Every action that a trigger of the bucket returns consumes the keys it collected.
`notify_handler` starts the function of the action if some node has a free
executor, and forgets the action otherwise.
-/

namespace Pheromone.Coordinator

open Lib Common

variable {dependency : DataDependency} {outs : List CoordOut}
  {parts : List (BucketKey × List CoordOut)}

variable {c c' : CoordState} {now : TimePoint} {randR : RandR} {addresses : List BucketKeyAddress}
  {e : CoordEvent}

/-! ## The actions that a request asks for -/

def CoordState.seeObject (now : TimePoint) (bk : BucketKey) (c : CoordState) : CoordState :=
  { c with
    bucketTriggersMap := c.bucketTriggersMap.set bk.bucket
      ((c.triggersOf bk.bucket).map fun t => (t.actionForNewObject now bk).1) }

def requestActions (now : TimePoint) (activeTriggers : List Name) :
    List BucketKeyAddress → CoordState → List (Name × TriggerAction)
  | [], _ => []
  | address :: rest, c =>
      if address.payload = [] ∧ c.bucketAppMap address.bucket = none then []
      else
        firings now address.bucketKey (unskipped activeTriggers (c.triggersOf address.bucket)) ++
          requestActions now activeTriggers rest (c.seeObject now address.bucketKey)

theorem triggersOf_seeObject (now : TimePoint) (bk : BucketKey) (c : CoordState)
    (bucket : Bucket) :
    (c.seeObject now bk).triggersOf bucket =
      if bucket = bk.bucket then
        (c.triggersOf bk.bucket).map fun t => (t.actionForNewObject now bk).1
      else c.triggersOf bucket :=
  Map.getD_set _ _ _ _ _

theorem requestActions_congr {activeTriggers : List Name} (happs : c'.bucketAppMap = c.bucketAppMap)
    (htriggers : ∀ bucket, c'.triggersOf bucket = c.triggersOf bucket) :
    requestActions now activeTriggers addresses c' =
      requestActions now activeTriggers addresses c := by
  induction addresses generalizing c c' with
  | nil => rfl
  | cons address rest ih =>
    have hrest : requestActions now activeTriggers rest (c'.seeObject now address.bucketKey) =
        requestActions now activeTriggers rest (c.seeObject now address.bucketKey) := by
      refine ih happs fun bucket => ?_
      rw [triggersOf_seeObject, triggersOf_seeObject, htriggers, htriggers]
    simp only [requestActions, happs, htriggers, hrest]

theorem firedOf_notifyParts {request : KeyNotifyRequest}
    (h : notifyParts randR now request addresses c = some (c', parts)) (hc : c.TriggersOwned) :
    firedOf (parts.flatMap Prod.snd) =
      requestActions now request.activeTriggerNames addresses c := by
  induction addresses generalizing c parts with
  | nil =>
    cases h
    rfl
  | cons address rest ih =>
    rcases notifyParts_cons_cases h with ⟨hunknown, rfl, rfl⟩ |
      ⟨hknown, ip, nodeIp, c₁, outs, parts', -, hresult, hparts, rfl⟩
    · simp only [requestActions, if_pos hunknown]
      rfl
    · have hchecked := checkTriggers_checked hresult
      obtain ⟨hsame, howned, -⟩ := checkTriggers_owner hresult hc
      have hfired : firedOf outs = firings now address.bucketKey
          (unskipped request.activeTriggerNames (c.triggersOf address.bucket)) :=
        hchecked.fired
      have hnext : requestActions now request.activeTriggerNames rest c₁ =
          requestActions now request.activeTriggerNames rest
            (c.seeObject now address.bucketKey) := by
        refine requestActions_congr hsame.apps fun bucket => ?_
        rw [triggersOf_seeObject]
        split
        next hb =>
          rw [hb]
          exact hchecked.triggers
        next hb => exact hchecked.others bucket hb
      rw [List.flatMap_cons, firedOf_append, hfired, ih hparts howned, hnext]
      simp only [requestActions, if_neg hknown]

/-! ## The handler goes through -/

/-- Every key that a trigger has kept has an address, and every address names a node. -/
structure Located (c : CoordState) : Prop where
  addressed : ∀ bucket, Addressed c.bucketKeyAddressMap bucket
  holds : ∀ bucket, ∀ t ∈ c.triggersOf bucket,
    t.state.Holds fun key => addressesOf c.bucketKeyAddressMap bucket key ≠ []

theorem Located.of_triggers (h : Located c)
    (haddresses : c'.bucketKeyAddressMap = c.bucketKeyAddressMap)
    (htriggers : ∀ bucket, ∀ t ∈ c'.triggersOf bucket,
      t ∈ c.triggersOf bucket ∨ ∀ seen, t.state.Holds seen) : Located c' := by
  refine ⟨by rw [haddresses]; exact h.addressed, fun bucket t ht => ?_⟩
  rw [haddresses]
  rcases htriggers bucket t ht with hold | hnew
  · exact h.holds bucket t hold
  · exact hnew _

theorem Located.record (h : Located c) (bk : BucketKey) {ip nodeIp : Address}
    (hip : ipOfAddress ip = some nodeIp) (payload : Value) :
    Located (recordObject c bk ip nodeIp payload) ∧
      addressesOf (recordObject c bk ip nodeIp payload).bucketKeyAddressMap bk.bucket bk.key ≠
        [] := by
  refine ⟨⟨fun bucket key address haddress => ?_, fun bucket t ht => ?_⟩, ?_⟩
  · rcases mem_addressesOf_updateAddress.mp haddress with ⟨-, -, rfl⟩ | hold
    · rw [hip]
      rfl
    · exact h.addressed bucket key address hold
  · refine (h.holds bucket t ht).mono fun key hne => ?_
    obtain ⟨address, rest, heq⟩ := List.exists_cons_of_ne_nil hne
    have hmem : address ∈ addressesOf c.bucketKeyAddressMap bucket key := by
      rw [heq]
      exact List.mem_cons_self
    exact List.ne_nil_of_mem (mem_addressesOf_updateAddress.mpr (.inr hmem))
  · exact List.ne_nil_of_mem (mem_addressesOf_updateAddress.mpr (.inl ⟨rfl, rfl, rfl⟩))

theorem checkTriggers_located (randR : RandR) (now : TimePoint) (activeTriggers : List Name)
    {bk : BucketKey} (respAddress : Address) (hc : Located c)
    (hbk : addressesOf c.bucketKeyAddressMap bk.bucket bk.key ≠ []) :
    ∃ c' outs, checkTriggers randR now activeTriggers bk respAddress c = some (c', outs) ∧
      Located c' := by
  have hholds : ∀ t ∈ c.triggersOf bk.bucket, _ := fun t ht =>
    @Trigger.holds_actionForNewObject
      (fun key => addressesOf c.bucketKeyAddressMap bk.bucket key ≠ []) bk hbk now t
      (hc.holds bk.bucket t ht)
  have hdefined : ∃ result,
      checkTriggers randR now activeTriggers bk respAddress c = some result :=
    checkTriggers_defined (hc.addressed bk.bucket) fun t ht => (hholds t ht).2
  obtain ⟨⟨c', outs⟩, hresult⟩ := hdefined
  have hchecked := checkTriggers_checked hresult
  refine ⟨c', outs, hresult, by rw [hchecked.keyAddresses]; exact hc.addressed, ?_⟩
  intro bucket t ht
  rw [hchecked.keyAddresses]
  by_cases hb : bucket = bk.bucket
  · subst hb
    rw [hchecked.triggers] at ht
    obtain ⟨t₀, ht₀, rfl⟩ := List.mem_map.mp ht
    exact (hholds t₀ ht₀).1
  · rw [hchecked.others bucket hb] at ht
    exact hc.holds bucket t ht

def Sent (address : BucketKeyAddress) : Prop :=
  ∃ ip, address.ips.head? = some ip ∧ (ipOfAddress ip).isSome

theorem notifyParts_located {request : KeyNotifyRequest}
    (h : notifyParts randR now request addresses c = some (c', parts)) (hc : Located c) :
    Located c' := by
  refine (notifyParts_invariant (Q := Located) (R := fun _ => True) ?_ h hc).1
  intro c address ip nodeIp c₁ outs _ hc hnodeIp hresult
  obtain ⟨hrecord, hbk⟩ := hc.record address.bucketKey hnodeIp address.payload
  obtain ⟨c₁', outs', hresult', hc₁⟩ := checkTriggers_located randR now
    request.activeTriggerNames request.responseAddress hrecord hbk
  cases hresult.symm.trans hresult'
  exact ⟨hc₁, trivial⟩

theorem notifyParts_defined (randR : RandR) (now : TimePoint) (request : KeyNotifyRequest)
    (hc : Located c) (haddresses : ∀ address ∈ addresses, Sent address) :
    ∃ c' parts, notifyParts randR now request addresses c = some (c', parts) := by
  induction addresses generalizing c with
  | nil => exact ⟨c, [], rfl⟩
  | cons address rest ih =>
    obtain ⟨ip, hip, hsome⟩ := haddresses address List.mem_cons_self
    obtain ⟨nodeIp, hnodeIp⟩ := Option.isSome_iff_exists.mp hsome
    simp only [notifyParts, hip]
    split
    · exact ⟨c, [], rfl⟩
    · obtain ⟨hrecord, hbk⟩ := hc.record address.bucketKey hnodeIp address.payload
      obtain ⟨c₁, outs, hresult, hc₁⟩ := checkTriggers_located randR now
        request.activeTriggerNames request.responseAddress hrecord hbk
      obtain ⟨c', parts, hparts⟩ := ih hc₁ fun a ha =>
        haddresses a (List.mem_cons_of_mem _ ha)
      refine ⟨c', (address.bucketKey, outs) :: parts, ?_⟩
      simp only [hnodeIp, Option.bind_some, hresult, hparts, Option.map_some]

theorem notifyHandler_defined (randR : RandR) (now : TimePoint) (request : KeyNotifyRequest)
    (hc : Located c) (haddresses : ∀ address ∈ request.addresses, Sent address) :
    ∃ c' outs, notifyHandler randR now c request = some (c', outs) := by
  obtain ⟨c', parts, hparts⟩ := notifyParts_defined randR now request hc haddresses
  refine ⟨c', [] ++ parts.flatMap Prod.snd, ?_⟩
  rw [notifyHandler, notifyAddresses_eq_parts, hparts]
  rfl

/-! ### Other messages -/

theorem holds_new {type : PrimitiveType} {primitive : Primitive} {state : TriggerState}
    (h : newTriggerState now type primitive = some state) (seen : Key → Prop) : state.Holds seen :=
  TriggerState.keeps_iff_holds.mp (TriggerState.keeps_new h)

theorem triggerOfDependency_holds {tgtFunction : Name} {trigger : Trigger}
    (h : triggerOfDependency now dependency tgtFunction = some (some trigger)) (seen : Key → Prop) :
    trigger.state.Holds seen := by
  unfold triggerOfDependency at h
  split at h
  · cases h
    exact TriggerState.holds_blank seen (.bySet (BySetTrigger.new _))
  · split at h
    · simp only [Option.bind_eq_bind, Option.bind_eq_some_iff, Option.pure_def,
        Option.some.injEq] at h
      obtain ⟨k, -, n, -, rfl⟩ := h
      exact TriggerState.holds_blank seen (.redundant (RedundantTrigger.new _ _))
    · cases h
  · simp only [Option.bind_eq_bind, Option.bind_eq_some_iff, Option.pure_def,
      Option.some.injEq] at h
    obtain ⟨timeWindow, -, rfl⟩ := h
    exact fun _ hmem => absurd hmem List.not_mem_nil
  · cases h
  · cases h

theorem registerDependency_located {appName : Name} {acc acc' : CoordState × UpdateCoordMsg}
    (h : registerDependency now appName acc dependency = some acc') (hacc : Located acc.1) :
    Located acc'.1 := by
  rcases registerDependency_cases h with ⟨-, rfl⟩ | ⟨-, tgt, trigger, -, htrigger, rfl⟩
  · exact hacc
  · refine hacc.of_triggers rfl fun bucket t ht => ?_
    rw [triggersOf_addDependency] at ht
    rcases List.mem_append.mp ht with hold | hnew
    · exact .inl hold
    · split at hnew
      · obtain rfl := Option.mem_toList.mp hnew
        exact .inr (triggerOfDependency_holds htrigger)
      · cases hnew

theorem triggerOpHandler_located {request : TriggerOperationRequest}
    {result : CoordState × List CoordOut} (h : triggerOpHandler now c request = some result)
    (hc : Located c) : Located result.1 := by
  obtain ⟨-, hsame | ⟨-, ⟨pointer, hpointer, hadded⟩ | hdeleted⟩⟩ := triggerOpHandler_cases h
  · rw [hsame]
    exact hc
  · obtain ⟨state, hstate, rfl⟩ := Option.map_eq_some_iff.mp hpointer
    rw [hadded]
    refine hc.of_triggers rfl fun bucket t ht => ?_
    rw [triggersOf_pushTrigger] at ht
    split at ht
    next hb =>
      rcases List.mem_append.mp ht with hold | hnew
      · exact .inl (hb ▸ hold)
      · rw [List.mem_singleton.mp hnew]
        exact .inr (holds_new hstate)
    · exact .inl ht
  · rw [hdeleted]
    refine hc.of_triggers rfl fun bucket t ht => ?_
    simp only [CoordState.triggersOf, deleteTrigger, Map.getD_set] at ht
    split at ht
    next hb => exact .inl (hb ▸ List.mem_of_mem_filter ht)
    · exact .inl ht

theorem bucketOpHandler_located (request : BucketOperationRequest) (hc : Located c) :
    Located (bucketOpHandler c request).1 := by
  unfold bucketOpHandler
  simp only
  split
  · split <;> exact ⟨hc.addressed, hc.holds⟩
  · split
    · exact hc
    · refine hc.of_triggers rfl fun bucket t ht => .inl ?_
      simp only [CoordState.triggersOf, Map.getD_erase] at ht
      split at ht
      · cases ht
      · exact ht
  · exact hc

/-! ## Runs -/

/-- A node without a name has no executors to offer. -/
def NamesNode : CoordEvent → Prop
  | .status msg => msg.ip = [] → intOfUInt32 msg.availExecutors ≤ 0
  | _ => True

structure Ready (c : CoordState) : Prop where
  owned : c.TriggersOwned
  located : Located c
  named : c.availOf [] ≤ 0

theorem coordStep_located (h : coordStep randR c e = some c') (hc : Located c) : Located c' := by
  obtain ⟨⟨c₁, outs⟩, hmsg, rfl⟩ := Option.map_eq_some_iff.mp h
  cases e with
  | notify now request =>
    obtain ⟨parts, hparts, -⟩ := notifyHandler_eq_parts hmsg
    exact notifyParts_located hparts hc
  | bucketOp request =>
    obtain rfl : (bucketOpHandler c request).1 = c₁ := congrArg Prod.fst (Option.some.inj hmsg)
    exact bucketOpHandler_located request hc
  | triggerOp now request => exact triggerOpHandler_located hmsg hc
  | register now registration =>
    obtain ⟨acc, hacc, heq⟩ := Option.map_eq_some_iff.mp hmsg
    obtain rfl : acc.1 = c₁ := congrArg Prod.fst heq
    exact foldlM_preserves (Q := fun acc : CoordState × UpdateCoordMsg => Located acc.1)
      (fun _ _ _ _ hstep hacc => registerDependency_located hstep hacc) hacc hc
  | query | status | call | rehash =>
    obtain ⟨nodes, seed, rfl⟩ := handleMessage_quiet hmsg trivial
    exact ⟨hc.addressed, hc.holds⟩

theorem coordStep_named (h : coordStep randR c e = some c') (he : NamesNode e)
    (hc : c.availOf [] ≤ 0) : c'.availOf [] ≤ 0 := by
  obtain ⟨⟨c₁, outs⟩, hmsg, rfl⟩ := Option.map_eq_some_iff.mp h
  cases e with
  | notify now request => exact ((notifyHandler_dispatched hmsg).availOf_le []).trans hc
  | status msg =>
    cases hmsg
    simp only [updateStatus_availOf]
    split
    next hip => exact he hip.symm
    · exact hc
  | query | bucketOp | triggerOp | register | call | rehash =>
    have hsame := handleMessage_availOf hmsg (fun _ _ h => by cases h) (fun _ h => by cases h) []
    exact hsame.trans_le hc

theorem coordStep_ready (hc : Ready c) (he : NamesNode e) (h : coordStep randR c e = some c') :
    Ready c' where
  owned := (coordStep_owners h hc.owned).1
  located := coordStep_located h hc.located
  named := coordStep_named h he hc.named

theorem new_ready (privateIp : Address) (threadId ioThreadNum : Nat) (hio : 0 < ioThreadNum)
    (seed : UInt32) : Ready (CoordState.new privateIp threadId ioThreadNum hio seed) where
  owned := new_triggersOwned privateIp threadId ioThreadNum hio seed
  located := ⟨fun _ _ _ haddress => absurd haddress List.not_mem_nil,
    fun _ _ ht => absurd ht List.not_mem_nil⟩
  named := le_refl _

def EachStarted (outs : List CoordOut) : Prop :=
  ∀ before name action after, outs = before ++ .fired name action :: after →
    ∃ address call rest, after = .call address call :: rest

theorem eachStarted_cons {out : CoordOut} :
    EachStarted (out :: outs) ↔
      (∀ name action, out = .fired name action →
        ∃ address call rest, outs = .call address call :: rest) ∧ EachStarted outs := by
  constructor
  · intro h
    refine ⟨fun name action hout => h [] name action outs (by rw [hout]; rfl), ?_⟩
    intro before name action after heq
    exact h (out :: before) name action after (by rw [heq]; rfl)
  · rintro ⟨hhead, htail⟩ before name action after heq
    cases before with
    | nil =>
      obtain ⟨rfl, rfl⟩ := List.cons.inj heq
      exact hhead name action rfl
    | cons out' before =>
      obtain ⟨-, rfl⟩ := List.cons.inj heq
      exact htail before name action after rfl

theorem eachStarted_iff : EachStarted outs ↔ unstarted outs = 0 := by
  induction outs with
  | nil => exact iff_of_true (fun before _ _ _ heq => by simp at heq) rfl
  | cons out outs ih =>
    rw [eachStarted_cons, ih]
    cases out with
    | fired name action =>
      cases outs with
      | nil => simp [unstarted]
      | cons out outs => cases out <;> simp [unstarted]
    | _ => simp [unstarted]

/-- In every state that is reached, every request about objects with an address goes
through, and each of its actions is started by one call if and only if there are no more
actions than free executors. -/
theorem actions_started_iff (randR : RandR) (privateIp : Address) (threadId ioThreadNum : Nat)
    (hio : 0 < ioThreadNum) (seed : UInt32) {es : List CoordEvent} {c : CoordState}
    (hes : ∀ e ∈ es, NamesNode e)
    (hrun : run (coordStep randR) (CoordState.new privateIp threadId ioThreadNum hio seed) es =
      some c)
    (now : TimePoint) (request : KeyNotifyRequest)
    (hrequest : ∀ address ∈ request.addresses, Sent address) :
    ∃ c' outs, notifyHandler randR now c request = some (c', outs) ∧
      firedOf outs = requestActions now request.activeTriggerNames request.addresses c ∧
      CallsFollow Starts outs ∧
      (EachStarted outs ↔
        (requestActions now request.activeTriggerNames request.addresses c).length ≤
          c.freeExecutors) := by
  have hready : Ready c :=
    @run_invariant _ _ (coordStep randR) Ready (fun _ e => NamesNode e)
      (fun _ _ _ hc he hstep => coordStep_ready hc he hstep) _ _ _
      (new_ready privateIp threadId ioThreadNum hio seed) (along_of_forall hes _) hrun
  obtain ⟨c', outs, houts⟩ := notifyHandler_defined randR now request hready.located hrequest
  have hdispatched := notifyHandler_dispatched houts
  have hfired : firedOf outs =
      requestActions now request.activeTriggerNames request.addresses c := by
    obtain ⟨parts, hparts, rfl⟩ := notifyHandler_eq_parts houts
    exact firedOf_notifyParts hparts hready.owned
  refine ⟨c', outs, houts, hfired, hdispatched.follows, ?_⟩
  have hstarted := hdispatched.started
  have hfull := hdispatched.full hready.named
  rw [eachStarted_iff, ← hfired]
  omega

/-! ## No free executor -/

def registerTwoToOne : CoordEvent :=
  .register 0
    { appName := Bytes.lit "app"
      functions := [Bytes.lit "f", Bytes.lit "g", Bytes.lit "h"]
      dependencies := [
        { type := .manyToOne, srcFunctions := [Bytes.lit "f", Bytes.lit "h"]
          tgtFunctions := [Bytes.lit "g"] }] }

def outputNotify (key : String) : KeyNotifyRequest :=
  { requestId := [], responseAddress := [], activeTriggerNames := []
    addresses := [
      { bucket := Bytes.lit "b_g", key := Bytes.lit key, session := Bytes.lit "s"
        ips := [tcpAddress (Bytes.lit "10.0.0.2") 5000] }] }

def twoToOneEvents (count : UInt32) : List CoordEvent :=
  [registerTwoToOne, .status { ip := Bytes.lit "10.0.0.2", availExecutors := count },
    .notify 0 (outputNotify "k_f")]

def collected (c : CoordState) : List Nat :=
  (c.triggersOf (Bytes.lit "b_g")).map fun t =>
    match t.state with
    | .bySet t => (t.sessionPreparedKeysMap.getD (Bytes.lit "s") ∅).card
    | _ => 0

theorem actions_started_iff_one_executor :
    ∃ c c' outs, run (coordStep fun seed => (0, seed)) exampleCoord (twoToOneEvents 1) = some c ∧
      notifyHandler (fun seed => (0, seed)) 0 c (outputNotify "k_h") = some (c', outs) ∧
      (firedOf outs).length = 1 ∧ EachStarted outs := by
  have hrun : (run (coordStep fun seed => (0, seed)) exampleCoord (twoToOneEvents 1)).map
      (fun c => decide ((requestActions 0 [] (outputNotify "k_h").addresses c).length = 1 ∧
        c.freeExecutors = 1)) = some true := by
    decide +kernel
  obtain ⟨c, hc, houtcome⟩ := Option.map_eq_some_iff.mp hrun
  obtain ⟨hactions, hfree⟩ := of_decide_eq_true houtcome
  have hnames : ∀ e ∈ twoToOneEvents 1, NamesNode e := by
    simp [twoToOneEvents, NamesNode, registerTwoToOne, Bytes.lit]
  have hsent : ∀ address ∈ (outputNotify "k_h").addresses, Sent address := by
    intro address haddress
    rw [List.mem_singleton.mp haddress]
    exact ⟨_, rfl, by decide⟩
  obtain ⟨c', outs, houts, hfired, -, hiff⟩ := actions_started_iff (fun seed => (0, seed)) _ 0 1
    Nat.one_pos 0 hnames hc 0 (outputNotify "k_h") hsent
  refine ⟨c, c', outs, hc, houts, ?_, hiff.mpr ?_⟩
  · rw [hfired]
    exact hactions
  · rw [hfree]
    exact hactions.le

/-- No node has a free executor when the set is complete: the collected keys are gone and
the node is told to clear the trigger, but no call is sent. -/
theorem action_dropped :
    ∃ c c' outs, run (coordStep fun seed => (0, seed)) exampleCoord (twoToOneEvents 0) = some c ∧
      notifyHandler (fun seed => (0, seed)) 0 c (outputNotify "k_h") = some (c', outs) ∧
      (firedOf outs).length = 1 ∧ callCount outs = 0 ∧ collected c = [1] ∧ collected c' = [0] ∧
      outs.any (fun out => match out with
        | .update address msg =>
            decide (address = triggerUpdateAddress (Bytes.lit "10.0.0.2") ∧ msg.msgType = 1)
        | _ => false) = true := by
  have hrun : (run (coordStep fun seed => (0, seed)) exampleCoord (twoToOneEvents 0)).map
      (fun c => decide (collected c = [1] ∧
        (notifyHandler (fun seed => (0, seed)) 0 c (outputNotify "k_h")).map (fun result =>
          decide ((firedOf result.2).length = 1 ∧ callCount result.2 = 0 ∧
            collected result.1 = [0] ∧
            result.2.any (fun out => match out with
              | .update address msg =>
                  decide (address = triggerUpdateAddress (Bytes.lit "10.0.0.2") ∧ msg.msgType = 1)
              | _ => false) = true)) = some true)) = some true := by
    decide +kernel
  obtain ⟨c, hc, houtcome⟩ := Option.map_eq_some_iff.mp hrun
  obtain ⟨hcollected, hhandled⟩ := of_decide_eq_true houtcome
  obtain ⟨⟨c', outs⟩, houts, hsummary⟩ := Option.map_eq_some_iff.mp hhandled
  obtain ⟨hfired, hcalls, hcollected', hclear⟩ := of_decide_eq_true hsummary
  exact ⟨c, c', outs, hc, houts, hfired, hcalls, hcollected, hcollected', hclear⟩

end Pheromone.Coordinator
