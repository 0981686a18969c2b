import Pheromone.Cluster.Triggers
import Pheromone.Coordinator.Proofs.TriggerPass
import Pheromone.Scheduler.Proofs.ObjectArrival

/-!
# Runs of a cluster with triggers

What each event does to the triggers of one bucket and to the messages under
way, and what holds in every state of a run in which only objects of that bucket
are put: all replicas keep the triggers they were given, every message has the
form its sender gives it, and no event is undefined.
-/

namespace Pheromone.Cluster

open Lib Common Coordinator Scheduler

/-! ## A put on one node -/

theorem localFirings_append (outs outs' : List SchedOut) :
    localFirings (outs ++ outs') = localFirings outs ++ localFirings outs' :=
  List.filterMap_append

theorem notifiesFor_append (coord : HandlerThread) (outs outs' : List SchedOut) :
    notifiesFor coord (outs ++ outs') = notifiesFor coord outs ++ notifiesFor coord outs' :=
  List.filterMap_append

theorem localFirings_ofFiring (firings : List (Name × TriggerAction)) :
    localFirings (firings.map .ofFiring) = firings := by
  induction firings with
  | nil => rfl
  | cons firing firings ih => exact congrArg (firing :: ·) ih

theorem notifiesFor_ofFiring (coord : HandlerThread) (firings : List (Name × TriggerAction)) :
    notifiesFor coord (firings.map .ofFiring) = [] := by
  induction firings with
  | nil => rfl
  | cons firing firings ih => exact ih

theorem ipOfAddress_tcpAddress (ip : Address) (port : Nat) :
    (ipOfAddress (tcpAddress ip port)).isSome := by
  have hlength : 6 ≤ (tcpAddress ip port).length := by
    have hscheme : (Bytes.lit "tcp://").length = 6 := by decide
    unfold tcpAddress
    rw [List.length_append, List.length_append, List.length_append, hscheme]
    omega
  unfold ipOfAddress Bytes.substrUntil
  rw [if_pos hlength]
  rfl

theorem checkAndNotify_spec (env : SchedEnv) (now : Stamp) (object : BucketKey)
    (respAddress : Address) (payload : Value) {s : SchedState} {coord : HandlerThread}
    (hcoord : s.bucketCoordMap object.bucket = some coord) :
    ∃ requestId address,
      let s' := checkAndNotify env now object respAddress payload s
      (ipOfAddress address).isSome ∧
      s'.triggersOf object.bucket = ((s.triggersOf object.bucket).map fun t =>
        (t.actionForNewObject (now * 1000) object).1) ∧
      s'.bucketCoordMap = s.bucketCoordMap ∧
      s'.sent.drop s.sent.length =
        (firings (now * 1000) object (s.triggersOf object.bucket)).map .ofFiring ++
          [.notify coord.notifyHandlerConnectAddress (notifyRequest requestId object
            (activeNames (now * 1000) object (s.triggersOf object.bucket)) respAddress address
            payload)] := by
  obtain ⟨keyLenMap, -, hstate, hactive⟩ := checkObjectArrival_spec now object s
  have htriggers := checkObjectArrival_triggersOf now object s
  have hsent : (checkObjectArrival now object s).1.sent = s.sent ++
      (firings (now * 1000) object (s.triggersOf object.bucket)).map .ofFiring := by
    rw [hstate]
  have hroutes : (checkObjectArrival now object s).1.bucketCoordMap = s.bucketCoordMap := by
    rw [hstate]
  rcases notifyPut_spec env object (checkObjectArrival now object s).2.1 respAddress payload
    (checkObjectArrival now object s).1 with ⟨hnone, -⟩ | ⟨coord', rid, id, requestId, hsome, heq⟩
  · rw [hroutes, hcoord] at hnone
    cases hnone
  · have hcoord' : coord' = coord := by
      rw [hroutes, hcoord] at hsome
      exact (Option.some.inj hsome).symm
    subst hcoord'
    refine ⟨requestId, tcpAddress env.ip (id + dataAccessServerPort),
      ipOfAddress_tcpAddress _ _, ?_, ?_, ?_⟩
    · unfold checkAndNotify
      simp only [heq]
      exact htriggers
    · unfold checkAndNotify
      simp only [heq]
      exact hroutes
    · unfold checkAndNotify
      simp only [heq]
      rw [hsent, hactive, List.append_assoc]
      exact List.drop_left

/-! ## A clear message on one node -/

def clearIf (session : Session) (names : List Name) (t : Trigger) : Trigger :=
  if t.triggerName ∈ names then t.clear session else t

theorem clearIf_triggerName (session : Session) (names : List Name) (t : Trigger) :
    (clearIf session names t).triggerName = t.triggerName := by
  unfold clearIf
  split <;> rfl

theorem clearIf_blank (session : Session) (names : List Name) (t : Trigger) :
    (clearIf session names t).blank = t.blank := by
  unfold clearIf
  split
  · exact Trigger.blank_clear session t
  · rfl

theorem clearUpdate_spec (bk : BucketKey) {names : List Name} (hnodup : names.Nodup)
    (s : SchedState) :
    (clearUpdate (clearMessage bk names) s).triggersOf bk.bucket =
        (s.triggersOf bk.bucket).map (clearIf bk.session names) ∧
      (clearUpdate (clearMessage bk names) s).bucketCoordMap = s.bucketCoordMap := by
  induction names generalizing s with
  | nil =>
    have hid : clearIf bk.session [] = id := by
      funext t
      simp [clearIf]
    rw [hid, List.map_id]
    exact ⟨rfl, rfl⟩
  | cons name names ih =>
    rw [List.nodup_cons] at hnodup
    let s₁ : SchedState := { s with
      bucketTriggersMap := (s.bucketTriggersMap.visit bk.bucket fun trigger =>
        (if trigger.triggerName = name then trigger.clear bk.session else trigger, ())).1 }
    have hfirst : clearUpdate (clearMessage bk (name :: names)) s =
        clearUpdate (clearMessage bk names) s₁ := rfl
    have hs₁ : s₁.triggersOf bk.bucket = (s.triggersOf bk.bucket).map fun trigger =>
        if trigger.triggerName = name then trigger.clear bk.session else trigger :=
      Shared.list_visit_self _ _ _
    obtain ⟨htriggers, hcoord⟩ := ih hnodup.2 s₁
    refine ⟨?_, hfirst ▸ hcoord⟩
    rw [hfirst, htriggers, hs₁, List.map_map]
    apply List.map_congr_left
    intro t _
    simp only [Function.comp_apply, clearIf, List.mem_cons]
    by_cases hname : t.triggerName = name
    · simp [hname, hnodup.1]
    · simp [hname]

/-! ## The invariant -/

def OneObject (bucket : Bucket) (request : KeyNotifyRequest) : Prop :=
  ∃ address ip, request.addresses = [address] ∧ address.ips = [ip] ∧
    (ipOfAddress ip).isSome ∧ address.bucket = bucket

/-- An update that clears triggers, each of them once. -/
def IsClear (bucket : Bucket) (msg : UpdateCoordMsg) : Prop :=
  ∃ (object : BucketKey) (names : List Name),
    msg = clearMessage object names ∧ object.bucket = bucket ∧ names.Nodup

namespace TriggerCluster

structure Running (bucket : Bucket) (triggers : List Trigger) (k : TriggerCluster) : Prop where
  names : (triggers.map Trigger.triggerName).Nodup
  coord : (k.coord.triggersOf bucket).map Trigger.blank = triggers
  nodes : ∀ ip, ((k.nodes ip).triggersOf bucket).map Trigger.blank = triggers
  app : (k.coord.bucketAppMap bucket).isSome
  routes : ∀ ip, (k.nodes ip).bucketCoordMap bucket = some k.thread
  addressed : Addressed k.coord.bucketKeyAddressMap bucket
  held : ∀ t ∈ k.coord.triggersOf bucket, t.state.Holds fun key =>
    addressesOf k.coord.bucketKeyAddressMap bucket key ≠ []
  notifies : ∀ ip, ∀ request ∈ k.notifies ip, OneObject bucket request
  updates : ∀ ip, ∀ msg ∈ k.updates ip, IsClear bucket msg

variable {bucket : Bucket} {triggers : List Trigger} {k : TriggerCluster}

theorem Running.setNode (h : k.Running bucket triggers) (ip : Address) {s : SchedState}
    (hblank : (s.triggersOf bucket).map Trigger.blank = triggers)
    (hroute : s.bucketCoordMap bucket = some k.thread) :
    Running bucket triggers { k with nodes := Function.update k.nodes ip s } := by
  refine { h with nodes := ?_, routes := ?_ }
  · apply (Function.forall_update_iff k.nodes fun _ s =>
      (s.triggersOf bucket).map Trigger.blank = triggers).mpr
    exact ⟨hblank, fun ip' _ => h.nodes ip'⟩
  · apply (Function.forall_update_iff k.nodes fun _ s =>
      s.bucketCoordMap bucket = some k.thread).mpr
    exact ⟨hroute, fun ip' _ => h.routes ip'⟩

theorem map_blank_of_withoutReruns {l : List Trigger} (hblank : ∀ t ∈ triggers, t.blank = t)
    (h : l.map Trigger.withoutReruns = triggers) : l.map Trigger.blank = triggers := by
  have hmap := congrArg (List.map Trigger.blank) h
  rw [List.map_map, List.map_congr_left (g := id) hblank, List.map_id] at hmap
  rw [← hmap]
  exact List.map_congr_left fun t _ => (Trigger.blank_withoutReruns t).symm

theorem holds_withoutReruns {seen : Key → Prop} {t : Trigger}
    (h : t.withoutReruns.state.Holds seen) : t.state.Holds seen := by
  obtain ⟨target, name, option, state⟩ := t
  cases state <;> exact h

theorem Installed.running (h : k.Installed bucket triggers) : k.Running bucket triggers where
  names := h.names
  coord := map_blank_of_withoutReruns h.blank h.coord
  nodes := fun ip => map_blank_of_withoutReruns h.blank (h.nodes ip)
  app := h.app
  routes := h.routes
  addressed := by
    intro key address haddress
    simp [addressesOf, Map.getD, h.addresses, Map.empty, USet.empty] at haddress
  held := by
    intro t ht
    apply holds_withoutReruns
    have hmem : t.withoutReruns ∈ triggers := by
      rw [← h.coord]
      exact List.mem_map_of_mem ht
    have hblank := h.blank _ hmem
    have hstate : t.withoutReruns.state = t.withoutReruns.state.blank :=
      (congrArg Trigger.state hblank).symm
    rw [hstate]
    exact TriggerState.holds_blank _ _
  notifies := fun ip request hmem => by
    rw [h.notifies ip] at hmem
    cases hmem
  updates := fun ip msg hmem => by
    rw [h.updates ip] at hmem
    cases hmem

/-! ## One event -/

section Put

variable (env : Address → SchedEnv) (randR : RandR) (ip : Address) (now : Stamp)
  {object : BucketKey} (respAddress : Address) (payload : Value)

theorem step_put (h : k.Running bucket triggers) (hbucket : object.bucket = bucket) :
    ∃ s requestId address,
      (ipOfAddress address).isSome ∧
      s.triggersOf bucket = ((k.nodes ip).triggersOf bucket).map (fun t =>
        (t.actionForNewObject (now * 1000) object).1) ∧
      s.bucketCoordMap = (k.nodes ip).bucketCoordMap ∧
      k.step env randR (.put ip now object respAddress payload) = some { k with
        nodes := Function.update k.nodes ip s
        notifies := Function.update k.notifies ip (k.notifies ip ++
          [notifyRequest requestId object
            (activeNames (now * 1000) object ((k.nodes ip).triggersOf bucket)) respAddress
            address payload])
        puts := k.puts ++ [(ip, object)]
        fired := k.fired ++ firings (now * 1000) object ((k.nodes ip).triggersOf bucket) } := by
  subst hbucket
  obtain ⟨requestId, address, haddress, htriggers, hroutes, houts⟩ :=
    checkAndNotify_spec (env ip) now object respAddress payload (h.routes ip)
  refine ⟨checkAndNotify (env ip) now object respAddress payload (k.nodes ip), requestId,
    address, haddress, htriggers, hroutes, ?_⟩
  simp only [step, houts, localFirings_append, notifiesFor_append, localFirings_ofFiring,
    notifiesFor_ofFiring]
  simp [localFirings, notifiesFor]

theorem Running.put (h : k.Running bucket triggers) (hbucket : object.bucket = bucket) :
    ∃ k', k.step env randR (.put ip now object respAddress payload) = some k' ∧
      k'.Running bucket triggers := by
  obtain ⟨s, requestId, address, haddress, htriggers, hroutes, hstep⟩ :=
    step_put env randR ip now respAddress payload h hbucket
  have hblank : (s.triggersOf bucket).map Trigger.blank = triggers := by
    rw [htriggers, List.map_map, ← h.nodes ip]
    exact List.map_congr_left fun t _ => Trigger.blank_actionForNewObject _ _ t
  have hroute : s.bucketCoordMap bucket = some k.thread := by
    rw [hroutes]
    exact h.routes ip
  refine ⟨_, hstep, { h.setNode ip hblank hroute with notifies := ?_ }⟩
  intro ip' request hmem
  rcases mem_update_send hmem with hold | ⟨-, hnew⟩
  · exact h.notifies ip' request hold
  · rw [List.mem_singleton.mp hnew]
    exact ⟨_, address, rfl, rfl, haddress, hbucket⟩

end Put

section Notify

variable {env : Address → SchedEnv} {randR : RandR} {ip : Address} {request : KeyNotifyRequest}
  {rest : List KeyNotifyRequest}

theorem updatesFor_of_not_update (ip : Address) {outs : List CoordOut}
    (h : ∀ out ∈ outs, ¬ out.IsUpdate) : updatesFor ip outs = [] := by
  unfold updatesFor
  rw [List.filterMap_eq_nil_iff]
  intro out hout
  cases out with
  | update address msg => exact absurd trivial (h _ hout)
  | _ => rfl

theorem updatesFor_clearOuts (ip : Address) (bk : BucketKey) (nodes : USet Address)
    (names : List Name) :
    updatesFor ip (clearOuts bk nodes names) =
      if names ≠ [] ∧ ip ∈ nodes then [clearMessage bk names] else [] := by
  unfold clearOuts
  by_cases hnames : names = []
  · simp [hnames, updatesFor]
  · rw [if_neg hnames, updatesFor_map ip _ nodes.nodup]
    simp [hnames]

theorem addressesOf_recordObject_ne_nil {c : CoordState} {bk : BucketKey} {ip nodeIp : Address}
    {payload : Value} {key : Key}
    (h : key = bk.key ∨ addressesOf c.bucketKeyAddressMap bk.bucket key ≠ []) :
    addressesOf (recordObject c bk ip nodeIp payload).bucketKeyAddressMap bk.bucket key ≠ [] := by
  have hmem : ∃ a, a ∈ addressesOf (updateAddress bk ip c.bucketKeyAddressMap) bk.bucket key := by
    rcases h with rfl | h
    · exact ⟨ip, mem_addressesOf_updateAddress.mpr (.inl ⟨rfl, rfl, rfl⟩)⟩
    · obtain ⟨a, rest, ha⟩ := List.exists_cons_of_ne_nil h
      refine ⟨a, mem_addressesOf_updateAddress.mpr (.inr ?_)⟩
      rw [ha]
      exact List.mem_cons_self
  obtain ⟨a, ha⟩ := hmem
  exact List.ne_nil_of_mem ha

structure Received (bucket : Bucket) (now : TimePoint) (object : BucketKey)
    (c c' : CoordState) : Prop where
  triggers : c'.triggersOf bucket =
    (c.triggersOf bucket).map fun t => (t.actionForNewObject now object).1
  privateIp : c'.privateIp = c.privateIp
  threadId : c'.threadId = c.threadId
  app : (c'.bucketAppMap bucket).isSome
  addressed : Addressed c'.bucketKeyAddressMap bucket
  held : ∀ t ∈ c'.triggersOf bucket, t.state.Holds fun key =>
    addressesOf c'.bucketKeyAddressMap bucket key ≠ []

theorem notifyHandler_received (h : k.Running bucket triggers)
    (hrequest : OneObject bucket request) (randR : RandR) (now : TimePoint) :
    ∃ c object nodes outs, object.bucket = bucket ∧
      request.addresses.map BucketKeyAddress.bucketKey = [object] ∧
      Received bucket now object k.coord c ∧
      notifyHandler randR now k.coord request = some (c, outs) ∧
      firedOf outs = firings now object
        (unskipped request.activeTriggerNames (k.coord.triggersOf bucket)) ∧
      ∃ before, (∀ out ∈ before, ¬ out.IsUpdate) ∧
        outs = before ++ clearOuts object nodes (clearedNames now object
          (unskipped request.activeTriggerNames (k.coord.triggersOf bucket))) := by
  obtain ⟨address, dataIp, haddresses, hips, hip, rfl⟩ := hrequest
  obtain ⟨nodeIp, hnodeIp⟩ := Option.isSome_iff_exists.mp hip
  let c₁ := recordObject k.coord address.bucketKey dataIp nodeIp address.payload
  have hvalid : Addressed c₁.bucketKeyAddressMap address.bucket := by
    intro key a ha
    rcases mem_addressesOf_updateAddress.mp ha with ⟨-, -, rfl⟩ | hold
    · exact hip
    · exact h.addressed key a hold
  have hlocated : ∀ key, key = address.key ∨
      addressesOf k.coord.bucketKeyAddressMap address.bucket key ≠ [] →
      addressesOf c₁.bucketKeyAddressMap address.bucket key ≠ [] := fun key hkey =>
    addressesOf_recordObject_ne_nil hkey
  have hacts : ∀ t ∈ k.coord.triggersOf address.bucket,
      (t.actionForNewObject now address.bucketKey).1.state.Holds
          (fun key => addressesOf c₁.bucketKeyAddressMap address.bucket key ≠ []) ∧
        ∀ action ∈ (t.actionForNewObject now address.bucketKey).2, action.Holds
          fun key => addressesOf c₁.bucketKeyAddressMap address.bucket key ≠ [] := by
    intro t ht
    have hheld := (h.held t ht).mono fun key hkey => hlocated key (.inr hkey)
    exact Trigger.holds_actionForNewObject (hlocated _ (.inl rfl)) now hheld
  obtain ⟨⟨c, outs⟩, hchecked⟩ : ∃ result, checkTriggers randR now request.activeTriggerNames
      address.bucketKey request.responseAddress c₁ = some result :=
    checkTriggers_defined hvalid fun t ht => (hacts t ht).2
  have hspec := checkTriggers_checked hchecked
  have htriggers : c.triggersOf address.bucket = (k.coord.triggersOf address.bucket).map fun t =>
      (t.actionForNewObject now address.bucketKey).1 := hspec.triggers
  obtain ⟨before, houts, hbefore⟩ := hspec.updates
  refine ⟨c, address.bucketKey, _, outs, rfl, by rw [haddresses]; rfl, ?_, ?_, hspec.fired,
    before, hbefore, houts⟩
  · refine ⟨htriggers, hspec.privateIp, hspec.threadId, hspec.apps _ h.app, ?_, ?_⟩
    · rw [hspec.keyAddresses]
      exact hvalid
    · intro t ht
      rw [htriggers] at ht
      obtain ⟨t₀, ht₀, rfl⟩ := List.mem_map.mp ht
      rw [hspec.keyAddresses]
      exact (hacts t₀ ht₀).1
  · rw [notifyHandler_single haddresses hips hnodeIp h.app]
    exact hchecked

theorem step_notify (env : Address → SchedEnv) (randR : RandR) (now : TimePoint)
    (h : k.Running bucket triggers) (hhead : k.notifies ip = request :: rest) :
    ∃ c object, ∃ receivers : Address → Bool, object.bucket = bucket ∧
      request.addresses.map BucketKeyAddress.bucketKey = [object] ∧
      Received bucket now object k.coord c ∧
      k.step env randR (.notify ip now) = some { k with
        coord := c
        notifies := Function.update k.notifies ip rest
        updates := fun ip' => k.updates ip' ++
          if clearedNames now object
              (unskipped request.activeTriggerNames (k.coord.triggersOf bucket)) ≠ [] ∧
              receivers ip' then
            [clearMessage object (clearedNames now object
              (unskipped request.activeTriggerNames (k.coord.triggersOf bucket)))]
          else []
        reported := k.reported ++ [(ip, object)]
        fired := k.fired ++ firings now object
          (unskipped request.activeTriggerNames (k.coord.triggersOf bucket)) } := by
  have hrequest := h.notifies ip request (by rw [hhead]; exact List.mem_cons_self)
  obtain ⟨c, object, nodes, outs, hbucket, hobject, hreceived, hhandler, hfired, before, hbefore,
    houts⟩ := notifyHandler_received h hrequest randR now
  refine ⟨c, object, fun ip' => decide (ip' ∈ nodes), hbucket, hobject, hreceived, ?_⟩
  have hreported : request.addresses.map (fun address => (ip, address.bucketKey)) =
      [(ip, object)] := by
    have hmap := congrArg (List.map fun object => (ip, object)) hobject
    rw [List.map_map] at hmap
    exact hmap
  have hupdates : ∀ ip', updatesFor ip' outs = if clearedNames now object
      (unskipped request.activeTriggerNames (k.coord.triggersOf bucket)) ≠ [] ∧ ip' ∈ nodes then
        [clearMessage object (clearedNames now object
          (unskipped request.activeTriggerNames (k.coord.triggersOf bucket)))]
      else [] := by
    intro ip'
    rw [houts, updatesFor_append, updatesFor_of_not_update ip' hbefore, List.nil_append,
      updatesFor_clearOuts]
  simp only [step, hhead, hhandler, Option.map_some, hreported, hfired, hupdates,
    decide_eq_true_eq]

theorem clearedNames_nodup {triggers : List Trigger} (now : TimePoint) (object : BucketKey)
    (h : (triggers.map Trigger.triggerName).Nodup) : (clearedNames now object triggers).Nodup :=
  h.sublist (List.filter_sublist.map _)

theorem Running.coordNames (h : k.Running bucket triggers) :
    ((k.coord.triggersOf bucket).map Trigger.triggerName).Nodup := by
  have hnames := h.names
  rw [← h.coord, List.map_map] at hnames
  exact hnames

theorem Running.notify (env : Address → SchedEnv) (randR : RandR) (now : TimePoint)
    (h : k.Running bucket triggers) (ip : Address) :
    ∃ k', k.step env randR (.notify ip now) = some k' ∧ k'.Running bucket triggers := by
  cases hhead : k.notifies ip with
  | nil => exact ⟨k, by simp only [step, hhead], h⟩
  | cons request rest =>
    obtain ⟨c, object, receivers, hbucket, -, hreceived, hstep⟩ :=
      step_notify env randR now h hhead
    have hthread : HandlerThread.mk c.privateIp c.threadId = k.thread := by
      rw [hreceived.privateIp, hreceived.threadId]
      rfl
    refine ⟨_, hstep, { h with
      coord := ?_, app := hreceived.app, routes := ?_, addressed := hreceived.addressed,
      held := hreceived.held, notifies := ?_, updates := ?_ }⟩
    · simp only [hreceived.triggers, List.map_map]
      rw [← h.coord]
      exact List.map_congr_left fun t _ => Trigger.blank_actionForNewObject _ _ t
    · intro ip'
      exact (h.routes ip').trans (congrArg some hthread.symm)
    · intro ip' request' hmem
      exact h.notifies ip' request' (mem_of_mem_update_rest hhead hmem)
    · intro ip' msg hmem
      rcases List.mem_append.mp hmem with hold | hnew
      · exact h.updates ip' msg hold
      · split at hnew
        · rw [List.mem_singleton.mp hnew]
          refine ⟨object, _, rfl, hbucket, clearedNames_nodup now object ?_⟩
          exact h.coordNames.sublist (List.filter_sublist.map _)
        · cases hnew

end Notify

section Update

variable {ip : Address} {object : BucketKey} {names : List Name} {rest : List UpdateCoordMsg}

theorem step_update (env : Address → SchedEnv) (randR : RandR) (now : Stamp)
    (hhead : k.updates ip = clearMessage object names :: rest) :
    k.step env randR (.update ip now) = some { k with
      nodes := Function.update k.nodes ip (clearUpdate (clearMessage object names) (k.nodes ip))
      updates := Function.update k.updates ip rest } := by
  simp only [step, hhead]
  rfl

theorem Running.update (env : Address → SchedEnv) (randR : RandR) (now : Stamp)
    (h : k.Running bucket triggers) (ip : Address) :
    ∃ k', k.step env randR (.update ip now) = some k' ∧ k'.Running bucket triggers := by
  cases hhead : k.updates ip with
  | nil => exact ⟨k, by simp only [step, hhead], h⟩
  | cons msg rest =>
    obtain ⟨object, names, rfl, rfl, hnodup⟩ :=
      h.updates ip msg (by rw [hhead]; exact List.mem_cons_self)
    obtain ⟨htriggers, hroutes⟩ := clearUpdate_spec object hnodup (k.nodes ip)
    have hblank : ((clearUpdate (clearMessage object names) (k.nodes ip)).triggersOf
        object.bucket).map Trigger.blank = triggers := by
      rw [htriggers, List.map_map, ← h.nodes ip]
      exact List.map_congr_left fun t _ => clearIf_blank _ _ t
    refine ⟨_, step_update env randR now hhead, { h.setNode ip hblank ?_ with updates := ?_ }⟩
    · rw [hroutes]
      exact h.routes ip
    · intro ip' msg hmem
      exact h.updates ip' msg (mem_of_mem_update_rest hhead hmem)

end Update

theorem PutOnce.meets {e : TriggerEvent} (he : k.PutOnce bucket e) :
    e.Meets fun object => object.bucket = bucket := by
  cases e with
  | put ip now object respAddress payload => exact he.1
  | notify ip now => trivial
  | update ip now => trivial

theorem Running.step (env : Address → SchedEnv) (randR : RandR)
    (h : k.Running bucket triggers) {e : TriggerEvent}
    (he : e.Meets fun object => object.bucket = bucket) :
    ∃ k', k.step env randR e = some k' ∧ k'.Running bucket triggers := by
  cases e with
  | put ip now object respAddress payload =>
    exact Running.put env randR ip now respAddress payload h he
  | notify ip now => exact Running.notify env randR now h ip
  | update ip now => exact Running.update env randR now h ip

/-! ## A cluster to start from -/

def fresh (bucket : Bucket) (triggers : List Trigger) : TriggerCluster where
  coord := { CoordState.new (Bytes.lit "10.0.0.1") 0 1 Nat.one_pos 0 with
    bucketTriggersMap := Map.empty.set bucket triggers
    bucketAppMap := Map.empty.set bucket (Bytes.lit "app") }
  nodes := fun _ => { SchedState.new 0 1 with
    bucketTriggersMap := triggers.foldl (fun m t => m.push bucket t) Shared.empty
    bucketCoordMap := Map.empty.set bucket { ip := Bytes.lit "10.0.0.1", tid := 0 } }
  notifies := fun _ => []
  updates := fun _ => []
  puts := []
  reported := []
  fired := []

def nodeEnv (ip : Address) : SchedEnv where
  ip := ip
  ioThreadCount := 1
  ioThreadCount_pos := Nat.one_pos
  schedDelayTime := 0
  sharedExecutor := true
  rejectExtraReq := false
  randR := fun seed => (0, seed)
  readShm := fun _ _ => []

theorem list_foldl_push (bucket : Bucket) (triggers : List Trigger) (m : Shared Bucket Trigger) :
    (triggers.foldl (fun m t => m.push bucket t) m).list bucket = m.list bucket ++ triggers := by
  induction triggers generalizing m with
  | nil => simp
  | cons t triggers ih =>
    rw [List.foldl_cons, ih, Shared.list_push_self, List.append_assoc]
    rfl

theorem fresh_installed (bucket : Bucket) {triggers : List Trigger}
    (hblank : ∀ t ∈ triggers, t.blank = t)
    (hnames : (triggers.map Trigger.triggerName).Nodup) :
    (fresh bucket triggers).Installed bucket triggers := by
  have hwithout : triggers.map Trigger.withoutReruns = triggers := by
    refine (List.map_congr_left ?_).trans (List.map_id _)
    intro t ht
    rw [← hblank t ht]
    obtain ⟨target, name, option, state⟩ := t
    cases state <;> rfl
  refine ⟨hblank, hnames, ?_, ?_, ?_, ?_, rfl, fun _ => rfl, fun _ => rfl, rfl, rfl, rfl⟩
  · simp [fresh, CoordState.triggersOf, Map.getD, hwithout]
  · intro ip
    simp only [fresh, SchedState.triggersOf, list_foldl_push]
    exact hwithout
  · simp [fresh]
  · intro ip
    simp [fresh, thread, CoordState.new]

theorem fresh_installed_one (bucket : Bucket) {t : Trigger} (hblank : t.blank = t) :
    (fresh bucket [t]).Installed bucket [t] := by
  refine fresh_installed _ (fun t' ht' => ?_) (List.nodup_singleton _)
  rw [List.mem_singleton.mp ht']
  exact hblank

def putOf (ip key : String) : TriggerEvent :=
  .put (Bytes.lit ip) 0
    { bucket := Bytes.lit "x", key := Bytes.lit key, session := Bytes.lit "s" } [] []

end TriggerCluster

end Pheromone.Cluster
