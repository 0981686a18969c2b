import Pheromone.Coordinator.Proofs.Ownership

/-!
# Buckets without an owner

What the coordinator still knows of a bucket that was deleted.  `DELETE_BUCKET` takes
its owner and its triggers away; the addresses of its objects stay, and notified
objects that come with their values are recorded all the same.
-/

namespace Pheromone.Coordinator

open Lib Common

variable {addresses : List BucketKeyAddress} {e : CoordEvent}
  {m : Map Bucket (Map Key (USet Address))} {now : TimePoint} {outs : List CoordOut}
  {parts : List (BucketKey × List CoordOut)}

variable {c c' : CoordState} {bucket : Bucket} {randR : RandR}

/-! ## Owners -/

def CoordEvent.Creates (bucket : Bucket) : CoordEvent → Prop
  | .bucketOp request => request.operationType = .createBucket ∧ request.bucketName = bucket
  | .register _ registration => bucket ∈ registeredBuckets registration.dependencies
  | _ => False

def CoordEvent.application : CoordEvent → Option Name
  | .bucketOp request => some request.appName
  | .triggerOp _ request => some request.appName
  | .register _ registration => some registration.appName
  | _ => none

theorem bucketOpHandler_owner (c : CoordState) (request : BucketOperationRequest)
    (bucket : Bucket) :
    let owner := (bucketOpHandler c request).1.bucketAppMap bucket
    owner = c.bucketAppMap bucket ∨ owner = none ∨
      (CoordEvent.bucketOp request).Creates bucket ∧ owner = some request.appName := by
  unfold bucketOpHandler
  simp only
  split
  next htype =>
    split
    · exact Or.inl rfl
    · by_cases heq : bucket = request.bucketName
      · rw [heq]
        exact Or.inr (Or.inr ⟨⟨htype, rfl⟩, Map.set_self _ _ _⟩)
      · exact Or.inl (Map.set_of_ne _ _ heq)
  next =>
    split
    · exact Or.inl rfl
    · by_cases heq : bucket = request.bucketName
      · rw [heq]
        exact Or.inr (Or.inl (Map.erase_self _ _))
      · exact Or.inl (Map.erase_of_ne _ heq)
  next => exact Or.inl rfl

theorem bucketOpHandler_deletes {request : BucketOperationRequest}
    (hdelete : request.operationType = .deleteBucket) :
    (bucketOpHandler c request).1.bucketAppMap request.bucketName = none := by
  unfold bucketOpHandler
  simp only [hdelete]
  split
  next hnone => exact hnone
  next => exact Map.erase_self _ _

theorem handleMessage_owner (h : handleMessage randR c e = some (c', outs)) (hc : c.TriggersOwned)
    (bucket : Bucket) :
    c'.bucketAppMap bucket = c.bucketAppMap bucket ∨ c'.bucketAppMap bucket = none ∨
      e.Creates bucket ∧ c'.bucketAppMap bucket = e.application := by
  cases e with
  | notify now request =>
    rw [(notifyHandler_owner h hc).1.apps]
    exact Or.inl rfl
  | bucketOp request =>
    obtain rfl : (bucketOpHandler c request).1 = c' := congrArg Prod.fst (Option.some.inj h)
    exact bucketOpHandler_owner c request bucket
  | triggerOp now request =>
    rw [(triggerOpHandler_owned h).1]
    exact Or.inl rfl
  | register now registration =>
    rw [(appRegisterHandler_registers h).owner bucket]
    split
    next hmem => exact Or.inr (Or.inr ⟨hmem, rfl⟩)
    · exact Or.inl rfl
  | query | status | call | rehash =>
    obtain ⟨nodes, seed, rfl⟩ := handleMessage_quiet h trivial
    exact Or.inl rfl

theorem handleMessage_unowned {randR : RandR} {c c' : CoordState} {e : CoordEvent}
    {outs : List CoordOut} {bucket : Bucket}
    (h : handleMessage randR c e = some (c', outs)) (hc : c.TriggersOwned)
    (hcreate : ¬ e.Creates bucket) (hnone : c.bucketAppMap bucket = none) :
    c'.bucketAppMap bucket = none := by
  rcases handleMessage_owner h hc bucket with hsame | hnone | ⟨hcreates, -⟩
  · exact hsame.trans hnone
  · exact hnone
  · exact absurd hcreates hcreate

theorem triggersOf_unowned (hc : c.TriggersOwned) (hnone : c.bucketAppMap bucket = none) :
    c.triggersOf bucket = [] := by
  by_contra hne
  have hsome := hc bucket hne
  rw [hnone] at hsome
  cases hsome

/-! ## Notified objects -/

/-- No object of the bucket fires a trigger when the coordinator is notified of it. -/
def CoordState.Silent (c : CoordState) (bucket : Bucket) : Prop :=
  ∀ randR now request c' outs, (∀ address ∈ request.addresses, address.bucket = bucket) →
    notifyHandler randR now c request = some (c', outs) → firedOf outs = []

theorem notifyParts_silent {request : KeyNotifyRequest}
    (h : notifyParts randR now request addresses c = some (c', parts))
    (hbucket : ∀ address ∈ addresses, address.bucket = bucket) (hc : c.triggersOf bucket = []) :
    ∀ part ∈ parts, firedOf part.2 = [] := by
  refine (notifyParts_invariant (Q := fun c => c.triggersOf bucket = [])
    (R := fun part => firedOf part.2 = []) ?_ h hc).2
  intro c address ip nodeIp c₁ outs hmem hc _ hchecked
  have hself : address.bucketKey.bucket = bucket := hbucket address hmem
  have hnone : (recordObject c address.bucketKey ip nodeIp address.payload).triggersOf
      address.bucketKey.bucket = [] := by
    rw [hself]
    exact hc
  have hfired := (checkTriggers_checked hchecked).fired
  have htriggers := (checkTriggers_checked hchecked).triggers
  rw [hnone] at hfired htriggers
  rw [hself] at htriggers
  exact ⟨htriggers, hfired⟩

theorem silent_of_unowned (hc : c.TriggersOwned) (hnone : c.bucketAppMap bucket = none) :
    c.Silent bucket := by
  intro randR now request c' outs hbucket h
  obtain ⟨parts, hparts, rfl⟩ := notifyHandler_eq_parts h
  have hsilent := notifyParts_silent hparts hbucket (triggersOf_unowned hc hnone)
  unfold firedOf at hsilent ⊢
  rw [List.filterMap_flatMap, List.flatMap_eq_nil_iff]
  exact hsilent

/-! ## Recorded addresses -/

/-- The addresses that a notification records: an object without a value whose bucket
does not exist ends the loop. -/
def CoordState.recorded (c : CoordState) (addresses : List BucketKeyAddress) :
    List BucketKeyAddress :=
  addresses.takeWhile fun address =>
    ¬ (address.payload = [] ∧ c.bucketAppMap address.bucket = none)

def Unrecorded (bucket : Bucket) (c : CoordState) : CoordEvent → Prop
  | .notify _ request => ∀ address ∈ c.recorded request.addresses, address.bucket ≠ bucket
  | _ => True

theorem updateAddress_eq_none_iff {bk : BucketKey} {address : Address} :
    updateAddress bk address m bucket = none ↔ bk.bucket ≠ bucket ∧ m bucket = none := by
  unfold updateAddress
  rw [Map.set_apply]
  by_cases heq : bucket = bk.bucket
  · simp [heq]
  · simp [heq, Ne.symm heq]

theorem notifyParts_addresses {request : KeyNotifyRequest} (bucket : Bucket)
    (h : notifyParts randR now request addresses c = some (c', parts)) (hc : c.TriggersOwned) :
    c'.bucketKeyAddressMap bucket = none ↔
      c.bucketKeyAddressMap bucket = none ∧
        ∀ address ∈ c.recorded addresses, address.bucket ≠ bucket := by
  induction addresses generalizing c parts with
  | nil =>
    cases h
    simp [CoordState.recorded]
  | cons address rest ih =>
    rcases notifyParts_cons_cases h with ⟨hend, rfl, rfl⟩ |
      ⟨hend, ip, nodeIp, c₁, outs, parts', -, hchecked, hparts, rfl⟩
    · simp [CoordState.recorded, hend]
    -- the owners are the same for the rest of the loop
    · obtain ⟨⟨happs, -⟩, howned, -⟩ := checkTriggers_owner hchecked hc
      have hkeys : c₁.bucketKeyAddressMap =
          updateAddress address.bucketKey ip c.bucketKeyAddressMap :=
        (checkTriggers_checked hchecked).keyAddresses
      have hrecorded : c.recorded (address :: rest) = address :: c₁.recorded rest := by
        unfold CoordState.recorded
        rw [show c₁.bucketAppMap = c.bucketAppMap from happs]
        exact List.takeWhile_cons_of_pos (decide_eq_true hend)
      rw [ih hparts howned, hkeys, updateAddress_eq_none_iff, hrecorded, List.forall_mem_cons]
      exact ⟨fun h => ⟨h.1.2, h.1.1, h.2⟩, fun h => ⟨⟨h.2.1, h.1⟩, h.2.2⟩⟩

theorem handleMessage_addresses (bucket : Bucket) (h : handleMessage randR c e = some (c', outs))
    (hc : c.TriggersOwned) :
    c'.bucketKeyAddressMap bucket = none ↔
      c.bucketKeyAddressMap bucket = none ∧ Unrecorded bucket c e := by
  have hsame : ∀ {c₁ : CoordState}, SameRecords c c₁ →
      (c₁.bucketKeyAddressMap bucket = none ↔ c.bucketKeyAddressMap bucket = none ∧ True) := by
    rintro _ ⟨buckets, apps, triggers, rfl⟩
    exact (iff_of_eq (and_true _)).symm
  cases e with
  | notify now request =>
    obtain ⟨parts, hparts, -⟩ := notifyHandler_eq_parts h
    exact notifyParts_addresses bucket hparts hc
  | bucketOp request =>
    obtain rfl : (bucketOpHandler c request).1 = c' := congrArg Prod.fst (Option.some.inj h)
    exact hsame (bucketOpHandler_records c request)
  | triggerOp now request => exact hsame (triggerOpHandler_records h)
  | register now registration => exact hsame (appRegisterHandler_records h)
  | query | status | call | rehash =>
    obtain ⟨nodes, seed, rfl⟩ := handleMessage_quiet h trivial
    exact (iff_of_eq (and_true _)).symm

/-! ## Queries -/

/-- A query whose first key is one of the bucket is answered `BUCKET_NE`. -/
def CoordState.Refuses (c : CoordState) (bucket : Bucket) : Prop :=
  ∀ request address rest, request.addresses = address :: rest → address.bucket = bucket →
    ∃ response, (queryHandler c request).2 = [.queryResponse request.responseAddress response] ∧
      response.error = .bucketNE

theorem queryAddresses_known {address : BucketKeyAddress} (h : m address.bucket ≠ none) :
    (queryAddresses m [address] []).2 ≠ .bucketNE := by
  obtain ⟨keys, hkeys⟩ := Option.ne_none_iff_exists'.mp h
  cases hkey : keys address.key with
  | none => simp [queryAddresses, getAddress, BucketKeyAddress.bucketKey, hkeys, hkey]
  | some addresses => simp [queryAddresses, getAddress, BucketKeyAddress.bucketKey, hkeys, hkey]

theorem refuses_iff : c.Refuses bucket ↔ c.bucketKeyAddressMap bucket = none := by
  constructor
  · intro h
    by_contra hne
    obtain ⟨response, hresponse, herror⟩ :=
      h { addresses := [{ bucket, key := [], session := [] }] } _ _ rfl rfl
    cases hresponse
    exact queryAddresses_known hne herror
  · intro hnone request address rest haddresses hbucket
    refine ⟨_, rfl, ?_⟩
    have hself : c.bucketKeyAddressMap address.bucketKey.bucket = none := by
      rw [← hnone, ← hbucket]
      rfl
    simp only [haddresses, queryAddresses, hself]

end Pheromone.Coordinator
