import Pheromone.Coordinator.Proofs.TriggerPass
import Pheromone.Coordinator.Registry

/-!
# The data address of a passed object

A coordinator remembers where the objects of a bucket and a key are, whatever
their session, and gives the first of these addresses with every argument by key.
The address belongs to the object that is passed as long as the sessions that use
one key use it on one node.
-/

namespace Pheromone.Coordinator

open Lib Common

variable {activeTriggers : List Name} {address : Address} {args : List Argument × USet Address}
  {c' : CoordState} {trigger : Trigger}

variable {c : CoordState} {randR : RandR} {action : TriggerAction}
  {bk : BucketKey} {bucket : Bucket} {argFlag : Int} {event : TimePoint × KeyNotifyRequest}
  {now : TimePoint} {respAddress : Address}
variable {call : FunctionCall} {groups : Bucket → Prop}

/-! ## Calls and the actions that they start -/

/-- Every call follows the firing of the action that it starts, and they are
related by `Q`. -/
def CallsFollow (Q : TriggerAction → FunctionCall → Prop) (outs : List CoordOut) : Prop :=
  ∀ before address call after, outs = before ++ .call address call :: after →
    ∃ name action, before.getLast? = some (.fired name action) ∧ Q action call

section CallsFollow

variable {Q : TriggerAction → FunctionCall → Prop} {outs outs' : List CoordOut}

theorem callsFollow_of_no_call (h : ∀ address call, CoordOut.call address call ∉ outs) :
    CallsFollow Q outs := by
  rintro before address call after rfl
  exact absurd (List.mem_append_right _ List.mem_cons_self) (h address call)

theorem CallsFollow.append (h : CallsFollow Q outs) (h' : CallsFollow Q outs') :
    CallsFollow Q (outs ++ outs') := by
  intro before address call after heq
  rcases List.append_eq_append_iff.mp heq with ⟨between, rfl, hrest⟩ | ⟨between, rfl, hrest⟩
  · obtain ⟨name, action, hlast, hQ⟩ := h' between address call after hrest
    refine ⟨name, action, ?_, hQ⟩
    rw [List.getLast?_append, hlast]
    rfl
  · cases between with
    | nil =>
      -- a call never comes first, so it is not the first of `outs'`
      obtain ⟨name, action, hlast, _⟩ := h' [] address call after hrest.symm
      cases hlast
    | cons out between =>
      obtain ⟨rfl, -⟩ := List.cons.inj hrest
      exact h before address call between rfl

theorem CallsFollow.mono {Q' : TriggerAction → FunctionCall → Prop}
    (himp : ∀ action call, Q action call → Q' action call) (h : CallsFollow Q outs) :
    CallsFollow Q' outs := by
  intro before address call after heq
  obtain ⟨name, action, hlast, hQ⟩ := h before address call after heq
  exact ⟨name, action, hlast, himp action call hQ⟩

theorem callsFollow_pair {name : Name} (h : Q action call) :
    CallsFollow Q [.fired name action, .call address call] := by
  intro before address' call' after heq
  cases before with
  | nil => cases heq
  | cons out before =>
    rw [List.cons_append, List.cons.injEq] at heq
    obtain ⟨rfl, heq⟩ := heq
    cases before with
    | nil =>
      cases heq
      exact ⟨name, action, rfl, h⟩
    | cons out before =>
      rw [List.cons_append, List.cons.injEq] at heq
      exact absurd heq.2 (by simp)

end CallsFollow

/-! ## Arguments by key -/

/-- The arguments of a call are the objects of the action by key, each with an
address where it is, or one value. -/
def ByKey (located : BucketKey → Address → Prop) (action : TriggerAction)
    (call : FunctionCall) : Prop :=
  ∀ request ∈ call.requests, (∃ body, request.arguments = [{ body, argFlag := 0 }]) ∨
    ∃ bucket, List.Forall₂ (fun sessionKey arg =>
      arg.body = getLocalObjectName bucket sessionKey.2 sessionKey.1 ∧
        located { bucket, key := sessionKey.2, session := sessionKey.1 } arg.dataAddress)
      action.sessionKeys request.arguments

theorem ByKey.mono {located located' : BucketKey → Address → Prop}
    (himp : ∀ object address, located object address → located' object address)
    (h : ByKey located action call) : ByKey located' action call := by
  intro request hrequest
  refine (h request hrequest).imp_right fun ⟨bucket, hall⟩ => ⟨bucket, ?_⟩
  exact hall.imp fun _ _ harg => ⟨harg.1, himp _ _ harg.2⟩

theorem keyArgument_recorded {sessionKey : Session × Key} {arg : Argument × Address}
    (h : keyArgument c bucket argFlag sessionKey = some arg) :
    arg.1.body = getLocalObjectName bucket sessionKey.2 sessionKey.1 ∧
      arg.1.dataAddress ∈ addressesOf c.bucketKeyAddressMap bucket sessionKey.2 := by
  simp only [keyArgument, Option.bind_eq_bind, Option.bind_eq_some_iff, Option.pure_def,
    Option.some.injEq] at h
  obtain ⟨keys, hkeys, addresses, haddresses, dataAddress, hhead, ip, -, rfl⟩ := h
  refine ⟨rfl, ?_⟩
  unfold addressesOf
  rw [Map.getD_of_some _ hkeys, Map.getD_of_some _ haddresses]
  exact List.mem_of_mem_head? hhead

theorem actionArguments_recorded {sessionKeys : List (Session × Key)}
    (h : actionArguments c bucket argFlag sessionKeys = some args) :
    (∃ body, args.1 = [{ body, argFlag := 0 }]) ∨
      List.Forall₂ (fun sessionKey arg =>
        arg.body = getLocalObjectName bucket sessionKey.2 sessionKey.1 ∧
          arg.dataAddress ∈ addressesOf c.bucketKeyAddressMap bucket sessionKey.2)
        sessionKeys args.1 := by
  unfold actionArguments at h
  split at h
  · cases h
    exact .inl ⟨_, rfl⟩
  · obtain ⟨keyArgs, hkeyArgs, rfl⟩ := Option.map_eq_some_iff.mp h
    refine .inr ?_
    rw [List.forall₂_map_right_iff]
    exact (forall₂_of_mapM hkeyArgs).imp fun _ _ harg => keyArgument_recorded harg

/-! ## One request -/

section Request

variable {notified : BucketKey → Address → Prop}

def Seen (notified : BucketKey → Address → Prop) (bucket : Bucket) (session : Session)
    (key : Key) : Prop :=
  ∃ address, notified { bucket, key, session } address

/-- A bucket with a dynamic group forgets the sessions of its objects. -/
def Grouped (c : CoordState) (bucket : Bucket) : Prop :=
  ∃ t ∈ c.triggersOf bucket, t.type = .dynamicGroup

/-- What the coordinator has recorded was notified; a bucket with a dynamic group is
one of `groups`. -/
structure Recorded (notified : BucketKey → Address → Prop) (groups : Bucket → Prop)
    (c : CoordState) : Prop where
  addresses : ∀ bucket key, ∀ address ∈ addressesOf c.bucketKeyAddressMap bucket key,
    ∃ session, notified { bucket, key, session } address
  keeps : ∀ bucket, ∀ t ∈ c.triggersOf bucket, t.state.Keeps (Seen notified bucket)
  grouped : ∀ bucket, Grouped c bucket → groups bucket

/-- Two notifications of one bucket and key agree in the session or the address, and
those of a bucket in `groups` all in the session. -/
structure Coherent (notified : BucketKey → Address → Prop) (groups : Bucket → Prop) : Prop where
  shared : ∀ bucket key session session' address address',
    notified { bucket, key, session } address →
      notified { bucket, key, session := session' } address' →
        session = session' ∨ address = address'
  session : ∀ bucket, groups bucket → ∀ key key' session session',
    Seen notified bucket session key → Seen notified bucket session' key' → session = session'

theorem Coherent.located (h : Coherent notified groups) {key : Key} {session session' : Session}
    (hseen : Seen notified bucket session key)
    (haddress : notified { bucket, key, session := session' } address) :
    notified { bucket, key, session } address := by
  obtain ⟨address', hnotified⟩ := hseen
  rcases h.shared _ _ _ _ _ _ hnotified haddress with rfl | rfl
  · exact haddress
  · exact hnotified

theorem dispatchAction_follows {Q : TriggerAction → FunctionCall → Prop}
    {acc acc' : CoordState × List CoordOut}
    (h : dispatchAction randR bk respAddress trigger acc action = some acc')
    (hQ : ∀ args call, actionArguments acc.1 bk.bucket (trigger.triggerOption + 1)
        action.sessionKeys = some args →
      call.requests = [{ name := action.function, arguments := args.1 }] → Q action call)
    (hacc : CallsFollow Q acc.2) : CallsFollow Q acc'.2 := by
  obtain ⟨args, hargs, rfl⟩ := Option.map_eq_some_iff.mp h
  simp only
  split
  · exact hacc.append (callsFollow_of_no_call (by simp))
  · rw [List.append_assoc]
    exact hacc.append (callsFollow_pair (hQ args _ hargs rfl))

theorem byKey_of_actionArguments (hcoherent : Coherent notified groups)
    (haddresses : ∀ key, ∀ address ∈ addressesOf c.bucketKeyAddressMap bucket key,
      ∃ session, notified { bucket, key, session } address)
    (hpasses : action.Passes (Seen notified bucket))
    (hargs : actionArguments c bucket argFlag action.sessionKeys = some args)
    (hcall : call.requests = [{ name := action.function, arguments := args.1 }]) :
    ByKey notified action call := by
  intro request hrequest
  rw [hcall, List.mem_singleton] at hrequest
  subst hrequest
  refine (actionArguments_recorded hargs).imp_right fun hall => ⟨bucket, ?_⟩
  rw [List.forall₂_iff_get] at hall ⊢
  refine ⟨hall.1, fun i hi hi' => ?_⟩
  obtain ⟨hbody, haddress⟩ := hall.2 i hi hi'
  obtain ⟨session, hnotified⟩ := haddresses _ _ haddress
  exact ⟨hbody, hcoherent.located (hpasses _ (List.get_mem ..)) hnotified⟩

theorem visit_follows (hcoherent : Coherent notified groups) {pass pass' : TriggerPass}
    (h : pass.visit randR now activeTriggers bk respAddress trigger = some pass')
    (haddresses : ∀ key, ∀ address ∈ addressesOf pass.state.bucketKeyAddressMap bk.bucket key,
      ∃ session, notified { bucket := bk.bucket, key, session } address)
    (hpasses : ∀ action ∈ (trigger.actionForNewObject now bk).2,
      action.Passes (Seen notified bk.bucket)) (hpass : CallsFollow (ByKey notified) pass.out) :
    CallsFollow (ByKey notified) pass'.out := by
  obtain ⟨actions, hsubset, hactions⟩ := visit_actions h
  refine (foldlM_preserves (Q := fun acc : CoordState × List CoordOut =>
    acc.1.bucketKeyAddressMap = pass.state.bucketKeyAddressMap ∧
      CallsFollow (ByKey notified) acc.2) ?_ hactions ⟨rfl, hpass⟩).2
  intro acc action haction acc' hstep ⟨hsame, hacc⟩
  refine ⟨(dispatchAction_started hstep).routed.keyAddresses.trans hsame, ?_⟩
  refine dispatchAction_follows hstep (fun args call hargs hcall => ?_) hacc
  rw [← hsame] at haddresses
  exact byKey_of_actionArguments hcoherent haddresses (hpasses action (hsubset haction)) hargs
    hcall

theorem Recorded.record {ip nodeIp : Address} {payload : Value} (h : Recorded notified groups c)
    (hip : notified bk ip) :
    Recorded notified groups (recordObject c bk ip nodeIp payload) := by
  refine ⟨fun bucket key address haddress => ?_, h.keeps, h.grouped⟩
  rcases mem_addressesOf_updateAddress.mp haddress with ⟨rfl, rfl, rfl⟩ | hold
  · exact ⟨bk.session, hip⟩
  · exact h.addresses bucket key address hold

theorem type_actionForNewObject (now : TimePoint) (bk : BucketKey) (t : Trigger) :
    (t.actionForNewObject now bk).1.type = t.type := by
  have hblank := Trigger.blank_actionForNewObject now bk t
  have htype : ∀ t : Trigger, t.blank.type = t.type := by
    intro t
    unfold Trigger.blank Trigger.type
    cases t.state <;> rfl
  rw [← htype, hblank, htype]

theorem checkTriggers_recorded (hcoherent : Coherent notified groups) {outs : List CoordOut}
    (h : checkTriggers randR now activeTriggers bk respAddress c = some (c', outs))
    (hbk : Seen notified bk.bucket bk.session bk.key) (hc : Recorded notified groups c) :
    Recorded notified groups c' ∧ CallsFollow (ByKey notified) outs := by
  have hchecked := checkTriggers_checked h
  have hacts : ∀ t ∈ c.triggersOf bk.bucket,
      (t.actionForNewObject now bk).1.state.Keeps (Seen notified bk.bucket) ∧
        ∀ action ∈ (t.actionForNewObject now bk).2, action.Passes (Seen notified bk.bucket) := by
    intro t ht
    refine Trigger.keeps_actionForNewObject hbk now (fun htype session key hseen => ?_)
      (hc.keeps bk.bucket t ht)
    have heq := hcoherent.session bk.bucket (hc.grouped bk.bucket ⟨t, ht, htype⟩) key bk.key
      session bk.session hseen hbk
    exact heq ▸ hseen
  constructor
  · refine ⟨?_, fun bucket t ht => ?_, fun bucket hgrouped => ?_⟩
    · rw [hchecked.keyAddresses]
      exact hc.addresses
    · by_cases hbucket : bucket = bk.bucket
      · subst hbucket
        rw [hchecked.triggers] at ht
        obtain ⟨t₀, ht₀, rfl⟩ := List.mem_map.mp ht
        exact (hacts t₀ ht₀).1
      · rw [hchecked.others bucket hbucket] at ht
        exact hc.keeps bucket t ht
    · obtain ⟨t, ht, htype⟩ := hgrouped
      by_cases hbucket : bucket = bk.bucket
      · subst hbucket
        rw [hchecked.triggers] at ht
        obtain ⟨t₀, ht₀, rfl⟩ := List.mem_map.mp ht
        rw [type_actionForNewObject] at htype
        exact hc.grouped _ ⟨t₀, ht₀, htype⟩
      · rw [hchecked.others bucket hbucket] at ht
        exact hc.grouped bucket ⟨t, ht, htype⟩
  · obtain ⟨pass, hpass, heq⟩ := Option.map_eq_some_iff.mp h
    have hfollows : CallsFollow (ByKey notified) pass.out := by
      refine (foldlM_preserves (Q := fun pass : TriggerPass =>
        pass.state.bucketKeyAddressMap = c.bucketKeyAddressMap ∧
          CallsFollow (ByKey notified) pass.out) ?_ hpass
        ⟨rfl, callsFollow_of_no_call (by simp)⟩).2
      intro pass t ht pass' hvisit ⟨hsame, hout⟩
      refine ⟨(visit_passed hvisit).started.routed.keyAddresses.trans hsame, ?_⟩
      refine visit_follows hcoherent hvisit (fun key => ?_) (hacts t ht).2 hout
      rw [hsame]
      exact hc.addresses bk.bucket key
    simp only at heq
    split at heq
    · cases heq
      exact hfollows
    · cases heq
      exact hfollows.append (callsFollow_of_no_call (by simp))

theorem notifyAddresses_recorded (hcoherent : Coherent notified groups)
    {request : KeyNotifyRequest} {addresses : List BucketKeyAddress} {outs outs' : List CoordOut}
    (h : notifyAddresses randR now request addresses c outs = some (c', outs'))
    (hnotified : ∀ address ∈ addresses, ∀ ip, address.ips.head? = some ip →
      notified address.bucketKey ip) (hc : Recorded notified groups c)
    (houts : CallsFollow (ByKey notified) outs) :
    Recorded notified groups c' ∧ CallsFollow (ByKey notified) outs' := by
  induction addresses generalizing c outs with
  | nil =>
    cases h
    exact ⟨hc, houts⟩
  | cons address rest ih =>
    simp only [notifyAddresses] at h
    split at h
    · cases h
    next ip hip =>
      split at h
      · cases h
        exact ⟨hc, houts⟩
      · simp only [Option.bind_eq_some_iff] at h
        obtain ⟨nodeIp, -, ⟨c₁, outs₁⟩, hchecked, hrest⟩ := h
        have hhead := hnotified address List.mem_cons_self ip hip
        obtain ⟨hc₁, houts₁⟩ := checkTriggers_recorded hcoherent hchecked ⟨ip, hhead⟩
          (hc.record hhead)
        exact ih hrest (fun a ha => hnotified a (List.mem_cons_of_mem _ ha)) hc₁
          (houts.append houts₁)

end Request

/-! ## Histories of requests -/

structure NotifyState where
  coord : CoordState
  received : List (BucketKey × Address)
  sent : List CoordOut

def notifications (request : KeyNotifyRequest) : List (BucketKey × Address) :=
  request.addresses.filterMap fun address =>
    address.ips.head?.map fun ip => (address.bucketKey, ip)

namespace NotifyState

variable {k : NotifyState}

def step (randR : RandR) (k : NotifyState) (event : TimePoint × KeyNotifyRequest) :
    Option NotifyState :=
  (notifyHandler randR event.1 k.coord event.2).map fun result =>
    { coord := result.1
      received := k.received ++ notifications event.2
      sent := k.sent ++ result.2 }

structure Fresh (k : NotifyState) : Prop where
  triggers : ∀ bucket, ∀ t ∈ k.coord.triggersOf bucket, t.blank = t
  addresses : ∀ bucket key, addressesOf k.coord.bucketKeyAddressMap bucket key = []
  received : k.received = []
  sent : k.sent = []

/-- Any two notifications of a bucket, those of the request included: if they have
the same key they agree in the session or in the address, and if the bucket has a
dynamic group they agree in the session. -/
def InPlace (k : NotifyState) (event : TimePoint × KeyNotifyRequest) : Prop :=
  ∀ p ∈ k.received ++ notifications event.2, ∀ q ∈ k.received ++ notifications event.2,
    p.1.bucket = q.1.bucket →
      (p.1.key = q.1.key → p.1.session = q.1.session ∨ p.2 = q.2) ∧
        (Grouped k.coord p.1.bucket → p.1.session = q.1.session)

/-- Every call that passes objects by key gives each of them an address that it was
notified from. -/
def Located (k : NotifyState) : Prop :=
  CallsFollow (ByKey fun object address => (object, address) ∈ k.received) k.sent

structure Inv (k : NotifyState) : Prop where
  recorded : Recorded (fun object address => (object, address) ∈ k.received)
    (Grouped k.coord) k.coord
  located : k.Located

theorem Fresh.inv (h : k.Fresh) : k.Inv := by
  refine ⟨⟨fun bucket key address haddress => ?_, fun bucket t ht => ?_, fun _ hg => hg⟩, ?_⟩
  · rw [h.addresses] at haddress
    cases haddress
  · rw [← h.triggers bucket t ht]
    exact TriggerState.keeps_blank _ _
  · unfold Located
    rw [h.sent]
    exact callsFollow_of_no_call (by simp)

theorem InPlace.coherent (h : k.InPlace event) :
    Coherent (fun object address =>
      (object, address) ∈ k.received ++ notifications event.2) (Grouped k.coord) := by
  refine ⟨fun bucket key session session' address address' hp hq => ?_,
    fun bucket hgrouped key key' session session' ⟨address, hp⟩ ⟨address', hq⟩ => ?_⟩
  · exact (h _ hp _ hq rfl).1 rfl
  · exact (h _ hp _ hq rfl).2 hgrouped

theorem Inv.step {k' : NotifyState} (hk : k.Inv) (hplace : k.InPlace event)
    (h : k.step randR event = some k') : k'.Inv := by
  obtain ⟨⟨c', outs⟩, hresult, rfl⟩ := Option.map_eq_some_iff.mp h
  have hmono : ∀ object address, (object, address) ∈ k.received →
      (object, address) ∈ k.received ++ notifications event.2 :=
    fun _ _ hmem => List.mem_append_left _ hmem
  have hstart : Recorded (fun object address =>
      (object, address) ∈ k.received ++ notifications event.2) (Grouped k.coord) k.coord := by
    refine ⟨fun bucket key address haddress => ?_, fun bucket t ht => ?_, hk.recorded.grouped⟩
    · obtain ⟨session, hmem⟩ := hk.recorded.addresses bucket key address haddress
      exact ⟨session, hmono _ _ hmem⟩
    · refine (hk.recorded.keeps bucket t ht).mono fun session key ⟨address, hmem⟩ => ?_
      exact ⟨address, hmono _ _ hmem⟩
  obtain ⟨hrecorded, hfollows⟩ := notifyAddresses_recorded hplace.coherent hresult
    (fun address haddress ip hip => List.mem_append_right _ (List.mem_filterMap.mpr
      ⟨address, haddress, by rw [hip]; rfl⟩))
    hstart (callsFollow_of_no_call (by simp))
  refine ⟨⟨hrecorded.addresses, hrecorded.keeps, fun _ hgrouped => hgrouped⟩, ?_⟩
  exact (hk.located.mono fun action call hbyKey => hbyKey.mono hmono).append hfollows

theorem inPlace_of_session (session : Session)
    (h : ∀ p ∈ k.received ++ notifications event.2, p.1.session = session) : k.InPlace event := by
  intro p hp q hq _
  have heq : p.1.session = q.1.session := (h p hp).trans (h q hq).symm
  exact ⟨fun _ => .inl heq, fun _ => heq⟩

/-- As long as the notifications of one bucket and key agree in the session or in the
address, and those of a bucket with a dynamic group in the session, every argument
by key comes with an address from which its own object was notified. -/
theorem data_address_belongs {randR : RandR} {k : NotifyState}
    {es : List (TimePoint × KeyNotifyRequest)} (hstart : k.Fresh)
    (hes : Along (step randR) InPlace k es) : Throughout (step randR) Located k es :=
  @throughout_of_along _ _ (step randR) Inv Located InPlace (fun _ hk => hk.located)
    (fun _ _ _ hk hplace h => hk.step hplace h) k es hstart.inv hes

/-! ## A set of two keys -/

def pairStart : NotifyState where
  coord := { updateStatus (updateStatus (CoordState.new (Bytes.lit "10.0.0.1") 0 1 Nat.one_pos 0)
      { ip := Bytes.lit "10.0.0.2", availExecutors := 4 })
      { ip := Bytes.lit "10.0.0.3", availExecutors := 4 } with
    bucketAppMap := Map.empty.set (Bytes.lit "x") (Bytes.lit "app")
    bucketTriggersMap := Map.empty.set (Bytes.lit "x") [
      { targetFunction := Bytes.lit "f", triggerName := Bytes.lit "t", triggerOption := 0
        state := .bySet (BySetTrigger.new (USet.ofList [Bytes.lit "a", Bytes.lit "b"])) }] }
  received := []
  sent := []

def notifyOf (key session ip : String) : TimePoint × KeyNotifyRequest :=
  (0, { requestId := [], responseAddress := [], activeTriggerNames := []
        addresses := [
          { bucket := Bytes.lit "x", key := Bytes.lit key, session := Bytes.lit session
            ips := [tcpAddress (Bytes.lit ip) 5000] }] })

theorem pairStart_fresh : pairStart.Fresh := by
  refine ⟨fun bucket t ht => ?_, fun _ _ => rfl, rfl, rfl⟩
  change t ∈ (Map.empty.set (Bytes.lit "x") _).getD bucket [] at ht
  rw [Map.getD_set] at ht
  split at ht
  · rw [List.mem_singleton.mp ht]
    rfl
  · cases ht

/-- One session with its keys on two nodes. -/
theorem data_address_belongs_one_session :
    pairStart.Fresh ∧
      Throughout (step fun seed => (0, seed)) Located pairStart
        [notifyOf "a" "s" "10.0.0.2", notifyOf "b" "s" "10.0.0.3"] := by
  refine ⟨pairStart_fresh, data_address_belongs pairStart_fresh ⟨?_, fun k hk => ⟨?_, ?_⟩⟩⟩
  · exact inPlace_of_session (Bytes.lit "s") (by decide)
  · obtain ⟨result, -, rfl⟩ := Option.map_eq_some_iff.mp hk
    have hreceived : ∀ p ∈ [] ++ notifications (notifyOf "a" "s" "10.0.0.2").2 ++
        notifications (notifyOf "b" "s" "10.0.0.3").2, p.1.session = Bytes.lit "s" := by decide
    exact inPlace_of_session (Bytes.lit "s") hreceived
  · exact fun _ _ => trivial

def passedArguments (outs : List CoordOut) : List Argument :=
  outs.flatMap fun out =>
    match out with
    | .call _ call => call.requests.flatMap FunctionRequest.arguments
    | _ => []

theorem Located.argument (h : k.Located) {arg : Argument} (harg : arg ∈ passedArguments k.sent)
    (hkey : arg.dataAddress ≠ []) :
    ∃ p ∈ k.received, p.1.shmKeyName = arg.body ∧ p.2 = arg.dataAddress := by
  obtain ⟨out, hout, harg⟩ := List.mem_flatMap.mp harg
  split at harg
  next address call =>
    obtain ⟨request, hrequest, harg⟩ := List.mem_flatMap.mp harg
    obtain ⟨before, after, heq⟩ := List.append_of_mem hout
    obtain ⟨name, action, -, hbyKey⟩ := h before address call after heq
    rcases hbyKey request hrequest with ⟨body, hvalue⟩ | ⟨bucket, hall⟩
    · rw [hvalue, List.mem_singleton] at harg
      subst harg
      exact absurd rfl hkey
    · obtain ⟨i, hi, rfl⟩ := List.getElem_of_mem harg
      obtain ⟨hbody, hreceived⟩ := (List.forall₂_iff_get.mp hall).2 i
        ((List.forall₂_iff_get.mp hall).1 ▸ hi) hi
      exact ⟨_, hreceived, hbody.symm, rfl⟩
  · cases harg

/-- Two sessions that use the same keys on different nodes: the call of the second
session is told to get its object from the node of the first. -/
theorem address_of_other_session :
    ∃ k, run (step fun seed => (0, seed)) pairStart
        [notifyOf "a" "s" "10.0.0.2", notifyOf "a" "u" "10.0.0.3",
          notifyOf "b" "s" "10.0.0.2", notifyOf "b" "u" "10.0.0.3"] = some k ∧
      ¬ k.Located ∧
      { body := getLocalObjectName (Bytes.lit "x") (Bytes.lit "a") (Bytes.lit "u"), argFlag := 1
        dataAddress := tcpAddress (Bytes.lit "10.0.0.2") 5000 } ∈ passedArguments k.sent := by
  have hrun : (run (step fun seed => (0, seed)) pairStart
      [notifyOf "a" "s" "10.0.0.2", notifyOf "a" "u" "10.0.0.3",
        notifyOf "b" "s" "10.0.0.2", notifyOf "b" "u" "10.0.0.3"]).map (fun k => decide
          ({ body := getLocalObjectName (Bytes.lit "x") (Bytes.lit "a") (Bytes.lit "u")
             argFlag := 1, dataAddress := tcpAddress (Bytes.lit "10.0.0.2") 5000 } ∈
              passedArguments k.sent ∧
            ∀ p ∈ k.received, ¬ (p.1.shmKeyName =
                getLocalObjectName (Bytes.lit "x") (Bytes.lit "a") (Bytes.lit "u") ∧
              p.2 = tcpAddress (Bytes.lit "10.0.0.2") 5000))) = some true := by
    decide +kernel
  obtain ⟨k, hk, houtcome⟩ := Option.map_eq_some_iff.mp hrun
  obtain ⟨hpassed, hnot⟩ := of_decide_eq_true houtcome
  refine ⟨k, hk, fun hlocated => ?_, hpassed⟩
  obtain ⟨p, hp, hmatch⟩ := hlocated.argument hpassed (by decide)
  exact hnot p hp hmatch

end NotifyState

end Pheromone.Coordinator
