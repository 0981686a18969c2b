import Pheromone.Coordinator.Proofs.Deletion

/-!
# Notifications of unknown buckets

`notify_handler` looks the bucket of an object up only when the object comes without its
value.  What it records for the others, in a bucket that does not exist.
-/

namespace Pheromone.Coordinator

open Lib Common

variable {addresses : List BucketKeyAddress}

/-- The objects that the handler records before it looks a bucket up: those that come with
a value, up to the first one without. -/
def recordPayloads : List BucketKeyAddress → CoordState → Option CoordState
  | [], c => some c
  | address :: rest, c =>
      match address.ips.head? with
      | none => none
      | some ip =>
          if address.payload = [] then some c
          else
            (ipOfAddress ip).bind fun nodeIp =>
              recordPayloads rest (recordObject c address.bucketKey ip nodeIp address.payload)

structure SameObjects (c c' : CoordState) : Prop where
  keyAddresses : c'.bucketKeyAddressMap = c.bucketKeyAddressMap
  values : c'.bucketKeyValMap = c.bucketKeyValMap
  nodes : c'.bucketNodeMap = c.bucketNodeMap

/-- A notification that is handled without a trace, except for the lists of triggers that
`operator[]` adds. -/
def Untouched (randR : RandR) (now : TimePoint) (c : CoordState) (request : KeyNotifyRequest) :
    Prop :=
  ∃ c', notifyHandler randR now c request = some (c', []) ∧ SameObjects c c' ∧
    c'.bucketAppMap = c.bucketAppMap ∧ c'.nodeStatusMap = c.nodeStatusMap

/-! ## What was recorded before -/

/-- The coordinator knows that the object is where its first address says. -/
def KnownAt (c : CoordState) (address : BucketKeyAddress) : Prop :=
  ∃ ip nodeIp nodes keys ips, address.ips.head? = some ip ∧ ipOfAddress ip = some nodeIp ∧
    c.bucketNodeMap address.bucketKey.bucket = some nodes ∧ nodeIp ∈ nodes ∧
    c.bucketKeyAddressMap address.bucketKey.bucket = some keys ∧
    keys address.bucketKey.key = some ips ∧ ip ∈ ips

def leading (addresses : List BucketKeyAddress) : List BucketKeyAddress :=
  addresses.takeWhile fun address => address.payload ≠ []

def lastNamed (addresses : List BucketKeyAddress) (name : Bytes) : Option BucketKeyAddress :=
  (leading addresses).reverse.find? fun address => address.bucketKey.shmKeyName = name

/-- All that a request says of its leading objects was recorded before, and the object
that ends them has an address. -/
structure AlreadyRecorded (c : CoordState) (addresses : List BucketKeyAddress) : Prop where
  located : ∀ address ∈ leading addresses, KnownAt c address
  values : ∀ name address, lastNamed addresses name = some address →
    c.bucketKeyValMap name = some address.payload
  next : ∀ address, (addresses.dropWhile fun address => address.payload ≠ []).head? =
    some address → address.ips ≠ []

section Recording

variable {c c' : CoordState} {address other : BucketKeyAddress} {ip nodeIp : Address}

theorem located_recordObject (hip : address.ips.head? = some ip)
    (hnode : ipOfAddress ip = some nodeIp) (payload : Value) :
    KnownAt (recordObject c address.bucketKey ip nodeIp payload) address :=
  ⟨ip, nodeIp, _, _, _, hip, hnode, Map.set_self .., USet.mem_insert.mpr (Or.inl rfl),
    Map.set_self .., Map.set_self .., USet.mem_insert.mpr (Or.inl rfl)⟩

theorem KnownAt.recorded (h : KnownAt c other) (bk : BucketKey) (ip nodeIp : Address)
    (payload : Value) : KnownAt (recordObject c bk ip nodeIp payload) other := by
  obtain ⟨ip', nodeIp', nodes, keys, ips, hip, hnode, hnodes, hmem, hkeys, hips, hmem'⟩ := h
  have hnodes' : ∃ nodes', (c.bucketNodeMap.set bk.bucket
      ((c.bucketNodeMap.getD bk.bucket USet.empty).insert nodeIp)) other.bucketKey.bucket =
        some nodes' ∧ nodeIp' ∈ nodes' := by
    rw [Map.set_apply]
    split
    next hbucket =>
      refine ⟨_, rfl, USet.mem_insert.mpr (Or.inr ?_)⟩
      rw [← hbucket, Map.getD_of_some _ hnodes]
      exact hmem
    · exact ⟨nodes, hnodes, hmem⟩
  have hkeys' : ∃ keys' ips', updateAddress bk ip c.bucketKeyAddressMap other.bucketKey.bucket =
      some keys' ∧ keys' other.bucketKey.key = some ips' ∧ ip' ∈ ips' := by
    unfold updateAddress
    rw [Map.set_apply]
    by_cases hbucket : other.bucketKey.bucket = bk.bucket
    · rw [if_pos hbucket, ← hbucket, Map.getD_of_some _ hkeys]
      by_cases hkey : other.bucketKey.key = bk.key
      · refine ⟨_, _, rfl, by rw [hkey]; exact Map.set_self .., USet.mem_insert.mpr (Or.inr ?_)⟩
        rw [← hkey, Map.getD_of_some _ hips]
        exact hmem'
      · exact ⟨_, ips, rfl, by rw [Map.set_of_ne _ _ hkey]; exact hips, hmem'⟩
    · rw [if_neg hbucket]
      exact ⟨keys, ips, hkeys, hips, hmem'⟩
  obtain ⟨nodes', hnodes', hmem⟩ := hnodes'
  obtain ⟨keys', ips', hkeys', hips', hmem'⟩ := hkeys'
  exact ⟨ip', nodeIp', nodes', keys', ips', hip, hnode, hnodes', hmem, hkeys', hips', hmem'⟩

theorem KnownAt.congr (h : KnownAt c address) (hsame : SameObjects c' c) : KnownAt c' address := by
  unfold KnownAt at h
  rw [hsame.nodes, hsame.keyAddresses] at h
  exact h

theorem KnownAt.unchanged (h : KnownAt c address) (hip : address.ips.head? = some ip)
    (hnode : ipOfAddress ip = some nodeIp) (payload : Value) :
    (recordObject c address.bucketKey ip nodeIp payload).bucketNodeMap = c.bucketNodeMap ∧
      (recordObject c address.bucketKey ip nodeIp payload).bucketKeyAddressMap =
        c.bucketKeyAddressMap := by
  obtain ⟨ip', nodeIp', nodes, keys, ips, hip', hnode', hnodes, hmem, hkeys, hips, hmem'⟩ := h
  cases hip.symm.trans hip'
  cases hnode.symm.trans hnode'
  have hinsert : ∀ {set : USet Address} {a : Address}, a ∈ set → set.insert a = set :=
    fun h => dif_pos h
  constructor
  · refine (Map.set_eq_self_iff ..).mpr ?_
    rw [Map.getD_of_some _ hnodes, hinsert hmem, hnodes]
  · refine (Map.set_eq_self_iff ..).mpr ?_
    rw [Map.getD_of_some _ hkeys, Map.getD_of_some _ hips, hinsert hmem',
      (Map.set_eq_self_iff ..).mpr hips, hkeys]

end Recording

/-! ## The loop -/

theorem recordPayloads_setTriggers (addresses : List BucketKeyAddress) (c : CoordState)
    (triggers : Map Bucket (List Trigger)) :
    recordPayloads addresses { c with bucketTriggersMap := triggers } =
      (recordPayloads addresses c).map fun c' => { c' with bucketTriggersMap := triggers } := by
  induction addresses generalizing c with
  | nil => rfl
  | cons address rest ih =>
    simp only [recordPayloads]
    cases address.ips.head? with
    | none => rfl
    | some ip =>
      simp only
      by_cases hpayload : address.payload = []
      · rw [if_pos hpayload, if_pos hpayload]
        rfl
      · rw [if_neg hpayload, if_neg hpayload]
        cases ipOfAddress ip with
        | none => rfl
        | some nodeIp => exact ih (recordObject c address.bucketKey ip nodeIp address.payload)

theorem recordPayloads_frame {c c' : CoordState} (h : recordPayloads addresses c = some c') :
    c'.bucketAppMap = c.bucketAppMap ∧ c'.nodeStatusMap = c.nodeStatusMap := by
  induction addresses generalizing c with
  | nil =>
    cases h
    exact ⟨rfl, rfl⟩
  | cons address rest ih =>
    simp only [recordPayloads] at h
    split at h
    · cases h
    · split at h
      · cases h
        exact ⟨rfl, rfl⟩
      · obtain ⟨nodeIp, -, h⟩ := Option.bind_eq_some_iff.mp h
        have hframe := ih h
        exact hframe

structure LeftBy (addresses : List BucketKeyAddress) (c c' : CoordState) : Prop where
  kept : ∀ address, KnownAt c address → KnownAt c' address
  located : ∀ address ∈ leading addresses, KnownAt c' address
  values : ∀ name, c'.bucketKeyValMap name =
    ((lastNamed addresses name).map BucketKeyAddress.payload).or (c.bucketKeyValMap name)
  same : (∀ address ∈ leading addresses, KnownAt c address) →
    c'.bucketNodeMap = c.bucketNodeMap ∧ c'.bucketKeyAddressMap = c.bucketKeyAddressMap

theorem recordPayloads_left {c c' : CoordState}
    (h : recordPayloads addresses c = some c') : LeftBy addresses c c' := by
  induction addresses generalizing c with
  | nil =>
    cases h
    exact ⟨fun _ => id, fun _ ha => (List.not_mem_nil ha).elim, fun _ => rfl, fun _ => ⟨rfl, rfl⟩⟩
  | cons address rest ih =>
    simp only [recordPayloads] at h
    split at h
    · cases h
    next ip hip =>
      split at h
      next hpayload =>
        cases h
        have hnone : leading (address :: rest) = [] := by simp [leading, hpayload]
        have hlast : ∀ name, lastNamed (address :: rest) name = none := fun name => by
          rw [lastNamed, hnone]
          rfl
        refine ⟨fun _ => id, fun a ha => ?_, fun name => ?_, fun _ => ⟨rfl, rfl⟩⟩
        · rw [hnone] at ha
          cases ha
        · rw [hlast name]
          rfl
      next hpayload =>
        obtain ⟨nodeIp, hnode, h⟩ := Option.bind_eq_some_iff.mp h
        have hleft := ih h
        have hcons : leading (address :: rest) = address :: leading rest := by
          simp [leading, hpayload]
        have hnew := located_recordObject (c := c) hip hnode address.payload
        refine ⟨fun a ha => hleft.kept a (ha.recorded ..), fun a ha => ?_, fun name => ?_,
          fun hall => ?_⟩
        · rw [hcons] at ha
          rcases List.mem_cons.mp ha with rfl | ha
          · exact hleft.kept _ hnew
          · exact hleft.located a ha
        · have hlast : lastNamed (address :: rest) name = (lastNamed rest name).or
              (if address.bucketKey.shmKeyName = name then some address else none) := by
            simp [lastNamed, hcons, List.find?_append, List.find?_singleton]
          have hset : (recordObject c address.bucketKey ip nodeIp address.payload).bucketKeyValMap
              name = (if address.bucketKey.shmKeyName = name then some address.payload
                else none).or (c.bucketKeyValMap name) := by
            simp only [recordObject, if_neg hpayload]
            exact Map.set_eq_or ..
          rw [hleft.values name, hset, hlast]
          cases lastNamed rest name with
          | some last => rfl
          | none =>
            by_cases hname : address.bucketKey.shmKeyName = name
            · simp [hname]
            · simp [hname]
        · rw [hcons] at hall
          have hself := (hall address List.mem_cons_self).unchanged hip hnode address.payload
          obtain ⟨hnodes, hkeys⟩ := hleft.same fun a ha =>
            (hall a (List.mem_cons_of_mem _ ha)).recorded ..
          exact ⟨hnodes.trans hself.1, hkeys.trans hself.2⟩

theorem recordPayloads_isSome {c c₀ : CoordState}
    (hlocated : ∀ address ∈ leading addresses, KnownAt c₀ address)
    (hnext : ∀ address, (addresses.dropWhile fun address => address.payload ≠ []).head? =
      some address → address.ips ≠ []) : (recordPayloads addresses c).isSome := by
  induction addresses generalizing c with
  | nil => rfl
  | cons address rest ih =>
    simp only [recordPayloads]
    by_cases hpayload : address.payload = []
    · have hips := hnext address (by simp [hpayload])
      obtain ⟨ip, ips, hcons⟩ := List.exists_cons_of_ne_nil hips
      simp [hcons, hpayload]
    · have hleading : leading (address :: rest) = address :: leading rest := by
        simp [leading, hpayload]
      rw [hleading] at hlocated
      obtain ⟨ip, nodeIp, _, _, _, hip, hnode, _⟩ := hlocated address List.mem_cons_self
      simp only [hip, if_neg hpayload, hnode, Option.bind_some]
      refine ih (fun a ha => hlocated a (List.mem_cons_of_mem _ ha)) fun a ha => hnext a ?_
      simpa [hpayload] using ha

theorem next_of_recordPayloads {c : CoordState} (h : (recordPayloads addresses c).isSome)
    (address : BucketKeyAddress)
    (hnext : (addresses.dropWhile fun address => address.payload ≠ []).head? = some address) :
    address.ips ≠ [] := by
  induction addresses generalizing c with
  | nil => cases hnext
  | cons first rest ih =>
    simp only [recordPayloads] at h
    by_cases hpayload : first.payload = []
    · rw [List.dropWhile_cons_of_neg (by simp [hpayload])] at hnext
      cases hnext
      rintro hnil
      simp [hnil] at h
    · rw [List.dropWhile_cons_of_pos (by simp [hpayload])] at hnext
      cases hip : first.ips.head? with
      | none => simp [hip] at h
      | some ip =>
        simp only [hip, if_neg hpayload] at h
        cases hnode : ipOfAddress ip with
        | none => simp [hnode] at h
        | some nodeIp =>
          rw [hnode, Option.bind_some] at h
          exact ih h hnext

theorem recordPayloads_same_iff (addresses : List BucketKeyAddress) (c : CoordState) :
    (∃ c', recordPayloads addresses c = some c' ∧ SameObjects c c') ↔
      AlreadyRecorded c addresses := by
  constructor
  · rintro ⟨c', h, hsame⟩
    have hleft := recordPayloads_left h
    refine ⟨fun a ha => (hleft.located a ha).congr hsame, fun name a ha => ?_,
      next_of_recordPayloads (Option.isSome_of_eq_some h)⟩
    have hvalue := hleft.values name
    rw [ha, hsame.values] at hvalue
    exact hvalue
  · rintro ⟨hlocated, hvalues, hnext⟩
    obtain ⟨c', h⟩ := Option.isSome_iff_exists.mp
      (recordPayloads_isSome (c := c) hlocated hnext)
    have hleft := recordPayloads_left h
    obtain ⟨hnodes, hkeys⟩ := hleft.same hlocated
    refine ⟨c', h, hkeys, funext fun name => ?_, hnodes⟩
    rw [hleft.values name]
    cases hlast : lastNamed addresses name with
    | none => rfl
    | some last => exact (hvalues name last hlast).symm

theorem checkTriggers_of_nil (randR : RandR) (now : TimePoint) (activeTriggers : List Name)
    (bk : BucketKey) (respAddress : Address) {c : CoordState}
    (h : c.triggersOf bk.bucket = []) :
    checkTriggers randR now activeTriggers bk respAddress c =
      some ({ c with bucketTriggersMap := c.bucketTriggersMap.set bk.bucket [] }, []) := by
  unfold checkTriggers
  rw [h]
  rfl

theorem notifyAddresses_unknown (randR : RandR) (now : TimePoint) (request : KeyNotifyRequest)
    {c : CoordState} (hc : c.TriggersOwned)
    (hunknown : ∀ address ∈ addresses, c.bucketAppMap address.bucket = none) :
    ∃ triggers, notifyAddresses randR now request addresses c [] =
      (recordPayloads addresses c).map fun c' =>
        ({ c' with bucketTriggersMap := triggers }, []) := by
  induction addresses generalizing c with
  | nil => exact ⟨c.bucketTriggersMap, rfl⟩
  | cons address rest ih =>
    have hself := hunknown address List.mem_cons_self
    simp only [notifyAddresses, recordPayloads, hself, and_true]
    cases address.ips.head? with
    | none => exact ⟨c.bucketTriggersMap, rfl⟩
    | some ip =>
      simp only
      by_cases hpayload : address.payload = []
      · rw [if_pos hpayload, if_pos hpayload]
        exact ⟨c.bucketTriggersMap, rfl⟩
      · rw [if_neg hpayload, if_neg hpayload]
        cases ipOfAddress ip with
        | none => exact ⟨c.bucketTriggersMap, rfl⟩
        | some nodeIp =>
          set c₁ := recordObject c address.bucketKey ip nodeIp address.payload with hc₁
          have hnone : c₁.triggersOf address.bucketKey.bucket = [] :=
            triggersOf_unowned hc hself
          set c₂ : CoordState := { c₁ with
            bucketTriggersMap := c₁.bucketTriggersMap.set address.bucketKey.bucket [] }
          have howned : c₂.TriggersOwned := by
            intro bucket hne
            apply hc bucket
            intro hnil
            apply hne
            unfold CoordState.triggersOf at hnil ⊢
            rw [Map.getD_set]
            split
            · rfl
            · exact hnil
          obtain ⟨triggers, hrest⟩ := ih howned
            fun a ha => hunknown a (List.mem_cons_of_mem _ ha)
          refine ⟨triggers, ?_⟩
          simp only [Option.bind_some]
          rw [checkTriggers_of_nil _ _ _ _ _ hnone, Option.bind_some, List.nil_append,
            hrest, recordPayloads_setTriggers, Option.map_map]
          rfl

/-! ## Requests -/

section Runs

variable (randR : RandR) (privateIp : Address) (threadId ioThreadNum : Nat)
  (hio : 0 < ioThreadNum) (seed : UInt32)

/-- A notification of buckets that do not exist sends nothing and leaves the buckets and
the nodes as they are.  It leaves no trace at all exactly if all that it says of the objects
that come with values before the first one without was recorded before. -/
theorem unknown_bucket_untouched_iff {es : List CoordEvent} {c : CoordState}
    (hrun : run (coordStep randR) (CoordState.new privateIp threadId ioThreadNum hio seed) es =
      some c)
    (now : TimePoint) (request : KeyNotifyRequest)
    (hunknown : ∀ address ∈ request.addresses, c.bucketAppMap address.bucket = none) :
    (∀ c' outs, notifyHandler randR now c request = some (c', outs) →
        outs = [] ∧ c'.bucketAppMap = c.bucketAppMap ∧ c'.nodeStatusMap = c.nodeStatusMap) ∧
      (Untouched randR now c request ↔ AlreadyRecorded c request.addresses) := by
  have howned := coordRun_triggersOwned randR privateIp threadId ioThreadNum hio seed hrun
  obtain ⟨triggers, hloop⟩ := notifyAddresses_unknown randR now request howned hunknown
  have hhandler : notifyHandler randR now c request =
      (recordPayloads request.addresses c).map fun c' =>
        ({ c' with bucketTriggersMap := triggers }, []) := hloop
  have hreturns : ∀ c' outs, notifyHandler randR now c request = some (c', outs) →
      ∃ c₁, recordPayloads request.addresses c = some c₁ ∧
        c' = { c₁ with bucketTriggersMap := triggers } ∧ outs = [] := by
    intro c' outs h
    rw [hhandler] at h
    obtain ⟨c₁, hc₁, heq⟩ := Option.map_eq_some_iff.mp h
    cases heq
    exact ⟨c₁, hc₁, rfl, rfl⟩
  constructor
  · intro c' outs h
    obtain ⟨c₁, hc₁, rfl, rfl⟩ := hreturns c' outs h
    have hframe := recordPayloads_frame hc₁
    exact ⟨rfl, hframe⟩
  · rw [← recordPayloads_same_iff]
    constructor
    · rintro ⟨c', h, hsame, -⟩
      obtain ⟨c₁, hc₁, rfl, -⟩ := hreturns c' [] h
      exact ⟨c₁, hc₁, hsame.keyAddresses, hsame.values, hsame.nodes⟩
    · rintro ⟨c₁, hc₁, hsame⟩
      have hframe := recordPayloads_frame hc₁
      refine ⟨{ c₁ with bucketTriggersMap := triggers }, ?_,
        ⟨hsame.keyAddresses, hsame.values, hsame.nodes⟩, hframe⟩
      rw [hhandler, hc₁]
      rfl

end Runs

def notificationOf (payload : Value) : KeyNotifyRequest where
  responseAddress := []
  addresses := [
    { bucket := Bytes.lit "b", key := Bytes.lit "k", session := Bytes.lit "0123456789abcdef"
      ips := [Bytes.lit "tcp://10.0.0.2:4400"], payload }]
  activeTriggerNames := []
  requestId := []

def deletedBucket : List CoordEvent :=
  [.bucketOp { operationType := .createBucket, appName := Bytes.lit "app",
               bucketName := Bytes.lit "b" },
    .bucketOp { operationType := .deleteBucket, appName := Bytes.lit "app",
                bucketName := Bytes.lit "b" }]

theorem unknown_bucket_without_payload :
    ∃ c, run (coordStep fun seed => (0, seed))
        (CoordState.new (Bytes.lit "10.0.0.1") 0 1 Nat.one_pos 0) deletedBucket = some c ∧
      (∀ address ∈ (notificationOf []).addresses, c.bucketAppMap address.bucket = none) ∧
      Untouched (fun seed => (0, seed)) 0 c (notificationOf []) := by
  obtain ⟨c, hrun⟩ := Option.isSome_iff_exists.mp (show (run (coordStep fun seed => (0, seed))
    (CoordState.new (Bytes.lit "10.0.0.1") 0 1 Nat.one_pos 0) deletedBucket).isSome from rfl)
  have hunknown : ∀ address ∈ (notificationOf []).addresses,
      c.bucketAppMap address.bucket = none := by
    cases hrun
    decide
  exact ⟨c, hrun, hunknown, (unknown_bucket_untouched_iff _ _ _ _ _ _ hrun 0 _ hunknown).2.mpr
    ⟨fun _ ha => (List.not_mem_nil ha).elim, fun _ _ ha => (Option.some_ne_none _ ha.symm).elim,
      fun _ ha => by cases ha; decide⟩⟩

/-- An object with a value is recorded in a bucket that was deleted. -/
theorem unknown_bucket_with_payload :
    ∃ c c', run (coordStep fun seed => (0, seed))
        (CoordState.new (Bytes.lit "10.0.0.1") 0 1 Nat.one_pos 0) deletedBucket = some c ∧
      c.bucketAppMap (Bytes.lit "b") = none ∧
      notifyHandler (fun seed => (0, seed)) 0 c (notificationOf (Bytes.lit "v")) =
        some (c', []) ∧
      c.bucketKeyValMap (Bytes.lit "b|k0123456789abcdef") = none ∧
      c'.bucketKeyValMap (Bytes.lit "b|k0123456789abcdef") = some (Bytes.lit "v") ∧
      (c.bucketNodeMap (Bytes.lit "b")).isNone ∧ (c'.bucketNodeMap (Bytes.lit "b")).isSome ∧
      (c.bucketKeyAddressMap (Bytes.lit "b")).isNone ∧
      (c'.bucketKeyAddressMap (Bytes.lit "b")).isSome := by
  refine ⟨_, _, rfl, rfl, rfl, rfl, ?_, rfl, rfl, rfl, rfl⟩
  decide

end Pheromone.Coordinator
