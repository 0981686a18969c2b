import Mathlib.Algebra.Order.BigOperators.Group.List
import Mathlib.Algebra.Order.Group.Nat
import Pheromone.Cluster.Proofs.Placement
import Pheromone.Cluster.Proofs.Registration
import Pheromone.Scheduler.Proofs.Told
import Pheromone.Scheduler.Proofs.TriggeredCalls

/-!
# Many-to-one dependencies

A function that is a source of a many-to-one dependency sends its object to the
bucket of the target.  The scheduler checks the triggers of that bucket and
notifies the coordinator, unless the function also has a direct dependency: the
scheduler looks for direct dependencies first, and one of them is enough to keep
every object of the function away from the triggers.
-/

namespace Pheromone.Cluster

open Lib Common Coordinator Scheduler

variable {c c' : CoordState} {func : Name} {lib : UserLibrary} {now' : Stamp}

variable {s s' : SchedState} {now : Stamp} {env : SchedEnv} {bk : BucketKey} {msg : UpdateCoordMsg}
  {bucket : Bucket} {infos : SendInfos} {packing : Packing} {registration : AppRegistration}
  {tgt : Name}
variable {sizes : Bytes → Nat} {value : Value}
open Executor

/-! ## The coordinator of a bucket stays known -/

theorem clearUpdate_told (msg : UpdateCoordMsg) (s : SchedState) :
    (clearUpdate msg s).told = s.told := by
  refine foldl_unchanged SchedState.told ?_ msg.triggers s
  intro s entity
  rfl

theorem deleteUpdate_told (h : deleteUpdate msg s = some s') : s'.told = s.told := by
  refine foldlM_preserves (Q := fun s' => s'.told = s.told) ?_ h rfl
  intro s₁ entity _ s₂ hstep hs₁
  obtain ⟨triggers, _, rfl⟩ := Option.map_eq_some_iff.mp hstep
  exact hs₁

theorem bucketCoordMap_of_told (h : s'.told = s.told) : s'.bucketCoordMap = s.bucketCoordMap := by
  unfold SchedState.told at h
  simp only [Prod.mk.injEq] at h
  exact h.2.2.2.2

theorem handleUpdate_bucketCoord (h : handleUpdate now msg s = some s')
    (hs : (s.bucketCoordMap bucket).isSome) : (s'.bucketCoordMap bucket).isSome := by
  unfold handleUpdate at h
  split at h
  · rw [(addUpdate_added h).bucketCoord]
    split
    · rfl
    · exact hs
  · cases h
    rw [bucketCoordMap_of_told (clearUpdate_told msg s)]
    exact hs
  · rw [bucketCoordMap_of_told (deleteUpdate_told h)]
    exact hs
  · cases h
    exact hs

theorem nodeStep_bucketCoord {e : NodeEvent} (h : nodeStep env s e = some s')
    (hs : (s.bucketCoordMap bucket).isSome) : (s'.bucketCoordMap bucket).isSome := by
  cases e with
  | update now msg => exact handleUpdate_bucketCoord h hs
  | executor _ _ | call _ _ | dataResp _ _ _ | kvsGetResp _ _ | kvsPutResp _ | delayPass _ _
  | rerunCheck _ _ _ =>
    rw [bucketCoordMap_of_told (nodeStep_told h id)]
    exact hs

/-! ## Checked and notified -/

/-- The step ran the triggers of the bucket on the object, and told the coordinator
of the bucket about the object and the triggers that fired. -/
structure CheckedAndNotified (now : Stamp) (bk : BucketKey) (s s' : SchedState) : Prop where
  checked : (s'.triggersOf bk.bucket).map Trigger.withoutReruns =
    (s.triggersOf bk.bucket).map fun t =>
      (t.actionForNewObject (now * 1000) bk).1.withoutReruns
  notified : ∃ outs coord requestId respAddress dataAddress payload,
    s.bucketCoordMap bk.bucket = some coord ∧
      s'.sent = s.sent ++ (firings (now * 1000) bk (s.triggersOf bk.bucket)).map .ofFiring ++
        outs ++ [.notify coord.notifyHandlerConnectAddress
          (notifyRequest requestId bk
            (activeNames (now * 1000) bk (s.triggersOf bk.bucket))
            respAddress dataAddress payload)]

def Mentions (bk : BucketKey) (out : SchedOut) : Prop :=
  ∃ address request, out = .notify address request ∧
    request.addresses.map BucketKeyAddress.bucketKey = [bk]

theorem CheckedAndNotified.mentions (h : CheckedAndNotified now bk s s') {outs : List SchedOut}
    (hs : s'.sent = s.sent ++ outs) : ∃ out ∈ outs, Mentions bk out := by
  obtain ⟨outs', coord, requestId, respAddress, dataAddress, payload, _, hsent⟩ := h.notified
  rw [hs, List.append_assoc, List.append_assoc] at hsent
  rw [List.append_cancel_left hsent]
  refine ⟨_, List.mem_append_right _ (List.mem_append_right _ List.mem_cons_self), _, _, rfl, rfl⟩

theorem not_mentions_of_isDispatch {out : SchedOut} (h : out.IsDispatch) : ¬ Mentions bk out := by
  rintro ⟨address, request, rfl, _⟩
  exact h

theorem not_mentions_ofFiring (firing : Name × TriggerAction) :
    ¬ Mentions bk (.ofFiring firing) := by
  rintro ⟨address, request, h, _⟩
  cases h

theorem putObject_effect (hpacking : packing ≠ .other)
    (h : putObject env now packing infos s = some s') :
    let bk := infos.bucketKey
    (s'.triggersOf bk.bucket).map Trigger.withoutReruns =
        (s.triggersOf bk.bucket).map (fun t =>
          (t.actionForNewObject (now * 1000) bk).1.withoutReruns) ∧
      ∃ outs, (∀ out ∈ outs, out.IsDispatch) ∧
        let before := s.sent ++
          (firings (now * 1000) bk (s.triggersOf bk.bucket)).map .ofFiring ++ outs
        ((s.bucketCoordMap bk.bucket = none ∧ s'.sent = before) ∨
          ∃ coord requestId respAddress dataAddress payload,
            s.bucketCoordMap bk.bucket = some coord ∧
            s'.sent = before ++ [.notify coord.notifyHandlerConnectAddress
              (notifyRequest requestId bk
                (activeNames (now * 1000) bk (s.triggersOf bk.bucket))
                respAddress dataAddress payload)]) := by
  obtain ⟨s₁, notified, n, hdispatched, hnotified, rfl⟩ := putObject_spec h
  rcases hnotified with ⟨hother, _⟩ | ⟨_, payload, rfl⟩
  · exact absurd hother hpacking
  simp only
  have htriggers := hdispatched.triggers infos.bucketKey.bucket
  rw [checkObjectArrival_triggersOf, List.map_map] at htriggers
  obtain ⟨outs, hsent, houts⟩ := hdispatched.sent
  obtain ⟨_, _, harrival, _⟩ := checkObjectArrival_spec now infos.bucketKey s
  rw [harrival] at hsent
  have hcoord : s₁.bucketCoordMap = s.bucketCoordMap :=
    bucketCoordMap_of_told (hdispatched.told.trans (checkObjectArrival_told now _ s))
  rcases notifyPut_spec env infos.bucketKey
      (activeNames (now * 1000) infos.bucketKey (s.triggersOf infos.bucketKey.bucket))
      (s₁.clientAddr infos.sessionId) payload (s₁.touchClientAddr infos.sessionId) with
    ⟨hnone, heq⟩ | ⟨coord, rid, id, requestId, hsome, heq⟩
  · rw [heq]
    refine ⟨htriggers, outs, houts, Or.inl ⟨?_, hsent⟩⟩
    rw [← hcoord]
    exact hnone
  · rw [heq]
    rw [← hcoord]
    exact ⟨htriggers, outs, houts, Or.inr ⟨coord, requestId, s₁.clientAddr infos.sessionId,
      tcpAddress env.ip (id + dataAccessServerPort), payload, hsome,
      congrArg (· ++ _) hsent⟩⟩

theorem putObject_checked_iff (hpacking : packing ≠ .other)
    (h : putObject env now packing infos s = some s') (bk : BucketKey) :
    CheckedAndNotified now bk s s' ↔
      bk = infos.bucketKey ∧ (s.bucketCoordMap bk.bucket).isSome := by
  obtain ⟨htriggers, outs, houts, hsent⟩ := putObject_effect hpacking h
  constructor
  · intro hchecked
    have hknown : (s.bucketCoordMap bk.bucket).isSome := by
      obtain ⟨_, coord, _, _, _, _, hcoord, _⟩ := hchecked.notified
      rw [hcoord]
      rfl
    refine ⟨?_, hknown⟩
    have hnot : ∀ out ∈ (firings (now * 1000) infos.bucketKey
        (s.triggersOf infos.bucketKey.bucket)).map SchedOut.ofFiring ++ outs,
        ¬ Mentions bk out := by
      intro out hout
      rcases List.mem_append.mp hout with hout | hout
      · obtain ⟨firing, _, rfl⟩ := List.mem_map.mp hout
        exact not_mentions_ofFiring firing
      · exact not_mentions_of_isDispatch (houts out hout)
    rcases hsent with ⟨_, hsent⟩ | ⟨coord, requestId, respAddress, dataAddress, payload, _, hsent⟩
    · rw [List.append_assoc] at hsent
      obtain ⟨out, hout, hmentions⟩ := hchecked.mentions hsent
      exact absurd hmentions (hnot out hout)
    · rw [List.append_assoc, List.append_assoc, ← List.append_assoc _ outs] at hsent
      obtain ⟨out, hout, hmentions⟩ := hchecked.mentions hsent
      rcases List.mem_append.mp hout with hout | hout
      · exact absurd hmentions (hnot out hout)
      · rw [List.mem_singleton] at hout
        subst hout
        obtain ⟨address, request, heq, hobject⟩ := hmentions
        cases heq
        exact (List.singleton_inj.mp hobject).symm
  · rintro ⟨rfl, hknown⟩
    refine ⟨htriggers, ?_⟩
    rcases hsent with ⟨hnone, _⟩ |
      ⟨coord, requestId, respAddress, dataAddress, payload, hcoord, hsent⟩
    · rw [hnone] at hknown
      cases hknown
    · exact ⟨outs, coord, requestId, respAddress, dataAddress, payload, hcoord, hsent⟩

theorem CheckedAndNotified.congr {s₁ s₂ : SchedState}
    (htriggers : s₁.bucketTriggersMap = s₂.bucketTriggersMap)
    (hcoord : s₁.bucketCoordMap = s₂.bucketCoordMap) (hsent : s₁.sent = s₂.sent) :
    CheckedAndNotified now bk s₁ s' ↔ CheckedAndNotified now bk s₂ s' := by
  have hlist : s₁.triggersOf bk.bucket = s₂.triggersOf bk.bucket := by
    unfold SchedState.triggersOf
    rw [htriggers]
  constructor
  · rintro ⟨hchecked, hnotified⟩
    rw [hlist] at hchecked hnotified
    rw [hcoord, hsent] at hnotified
    exact ⟨hchecked, hnotified⟩
  · rintro ⟨hchecked, hnotified⟩
    rw [← hlist] at hchecked hnotified
    rw [← hcoord, ← hsent] at hnotified
    exact ⟨hchecked, hnotified⟩

theorem sendEphemeral_checked_iff (hpacking : packing ≠ .other)
    (h : sendEphemeral env now packing infos s = some s') (bk : BucketKey) :
    CheckedAndNotified now bk s s' ↔
      s.directDepsOf infos.srcFunction = none ∧ infos.bucket ≠ bucketNameDirectInvoc ∧
        bk = infos.bucketKey ∧ (s.bucketCoordMap bk.bucket).isSome := by
  obtain ⟨s₁, hstore, hcases⟩ := sendEphemeral_cases h
  obtain ⟨m, values, rfl, _⟩ := storeObject_spec hstore
  have hstored : CheckedAndNotified now bk s s' ↔
      CheckedAndNotified now bk { s with keyLenMap := m, keyValMap := values } s' :=
    CheckedAndNotified.congr rfl rfl rfl
  rw [hstored]
  rcases hcases with ⟨targets, hdeps, hdirect⟩ | ⟨hdeps, hbucket, hput⟩ | ⟨hdeps, hbucket, rfl⟩
  · have hsome : s.directDepsOf infos.srcFunction = some targets := hdeps
    rw [hsome]
    constructor
    · intro hchecked
      obtain ⟨outs, hsent, houts⟩ := (invokeDirectly_dispatched hdirect).sent
      obtain ⟨out, hout, hmentions⟩ := hchecked.mentions hsent
      exact absurd hmentions (not_mentions_of_isDispatch (houts out hout))
    · rintro ⟨hnone, _⟩
      cases hnone
  · rw [putObject_checked_iff hpacking hput bk]
    constructor
    · rintro ⟨hbk, hcoord⟩
      exact ⟨hdeps, hbucket, hbk, hcoord⟩
    · rintro ⟨_, _, hbk, hcoord⟩
      exact ⟨hbk, hcoord⟩
  · constructor
    · intro hchecked
      obtain ⟨out, hout, _⟩ := hchecked.mentions (List.append_nil _).symm
      cases hout
    · rintro ⟨_, hne, _⟩
      exact absurd hbucket hne

/-! ## The functions that an object starts -/

/-- The objects of an action can be forwarded by name: the names have two parts, and the
sizes fit into an `int` together. -/
structure NamesForwardable (sizes : Bytes → Nat) (bucket : Bucket) (action : TriggerAction) :
    Prop where
  keys : ∀ o ∈ action.sessionKeys, kDelimiterChar ∉ getKeySessionName o.2 o.1 ∧
    getKeySessionName o.2 o.1 ≠ []
  total : (action.sessionKeys.map fun o => sizes (getLocalObjectName bucket o.2 o.1)).sum < 2 ^ 31

theorem forwardArgs_names {call : SchedCall} {bucket : Bucket}
    (hflag : 0 < call.argFlag) (hbucket : kDelimiterChar ∉ bucket)
    (h : NamesForwardable sizes bucket action) (hne : action.sessionKeys ≠ [])
    (hargs : call.funcArgs = (objectNames bucket action).flatMap fun name =>
      [name, Bytes.toDecimal (sizes name)]) :
    forwardArgs call = some (action.sessionKeys.flatMap fun o =>
      [bucket, getKeySessionName o.2 o.1,
        Bytes.toDecimal (sizes (getLocalObjectName bucket o.2 o.1))]) := by
  have hdelim : ∀ o : Session × Key, kDelimiterChar ∈ getLocalObjectName bucket o.2 o.1 := by
    intro o
    simp [getLocalObjectName, kDelimiter]
  rw [objectNames, List.flatMap_map] at hargs
  unfold forwardArgs
  rw [if_pos hflag, hargs]
  obtain ⟨o, rest, hcons⟩ := List.exists_cons_of_ne_nil hne
  have hfirst : (action.sessionKeys.flatMap fun o =>
      [getLocalObjectName bucket o.2 o.1,
        Bytes.toDecimal (sizes (getLocalObjectName bucket o.2 o.1))]).head? =
          some (getLocalObjectName bucket o.2 o.1) := by
    rw [hcons]
    rfl
  rw [hfirst, Option.map_some, if_pos (hdelim o), List.flatMap_assoc]
  refine congrArg some (List.flatMap_congr fun o ho => ?_)
  obtain ⟨hplain, hkey⟩ := h.keys o ho
  have hsplit : Bytes.split kDelimiterChar (getLocalObjectName bucket o.2 o.1) =
      [bucket, getKeySessionName o.2 o.1] := by
    rw [getLocalObjectName, List.append_assoc, kDelimiter, List.singleton_append,
      Bytes.split_append_delim _ _ _ hbucket, Bytes.split_of_not_mem _ hplain hkey]
  simp [hdelim, hsplit, (plain_toDecimal _).1]

theorem readsTriples_names {bucket : Bucket} (h : NamesForwardable sizes bucket action) :
    ReadsTriples (action.sessionKeys.flatMap fun o =>
      [bucket, getKeySessionName o.2 o.1,
        Bytes.toDecimal (sizes (getLocalObjectName bucket o.2 o.1))]) := by
  refine ⟨action.sessionKeys.map fun o => (bucket, getKeySessionName o.2 o.1,
    Bytes.toDecimal (sizes (getLocalObjectName bucket o.2 o.1))), ?_, ?_⟩
  · induction action.sessionKeys with
    | nil => rfl
    | cons o keys ih =>
      rw [List.flatMap_cons]
      simp [triples, ih]
  · have hsizes : ∀ size ∈ action.sessionKeys.map fun o =>
        sizes (getLocalObjectName bucket o.2 o.1), size < 2 ^ 31 :=
      fun size hsize => (List.single_le_sum (fun _ _ => Nat.zero_le _) _ hsize).trans_lt h.total
    have htotal := foldlM_sizes hsizes 0 (by decide)
    rw [Nat.zero_add, if_pos h.total, List.map_map, List.foldlM_map] at htotal
    rw [totalDataSize, List.flatten_singleton, List.foldlM_map]
    exact Option.isSome_of_eq_some htotal

theorem actionMetadata_forwardable {bucket : Bucket} {keyValMap : Map Bytes Value}
    {keyLenMap : Map Bytes Nat} {appName : Name} (hdelay : env.schedDelayTime = 0)
    (happ : s.Announced appName) (hbucket : kDelimiterChar ∉ bucket)
    (h : NamesForwardable sizes bucket action) (hsizes : ∀ name, keyLenMap.getD name 0 ≤ sizes name)
    (sessionId : Session) (argFlag : Int) :
    Forwardable env s (triggeredCall sessionId appName
      (actionMetadata keyValMap keyLenMap bucket argFlag action)) := by
  have hnames : NamesForwardable (fun name => keyLenMap.getD name 0) bucket action :=
    ⟨h.keys, (List.sum_le_sum fun o _ => hsizes _).trans_lt h.total⟩
  refine ⟨happ, ?_⟩
  rw [if_neg (by omega)]
  unfold actionMetadata
  split
  · exact fun hflag => absurd hflag (lt_irrefl 0)
  next hcached =>
    intro hflag
    have hne : action.sessionKeys ≠ [] := by
      intro hnil
      refine hcached fun name hname => ?_
      rw [objectNames, hnil] at hname
      cases hname
    exact ⟨_, forwardArgs_names hflag hbucket hnames hne rfl, readsTriples_names hnames⟩

/-- The functions that an object starts find a free executor, can wait, are rejected or can
be forwarded.  The value of the object has `size` bytes. -/
def StartsSchedulable (env : SchedEnv) (now : Stamp) (bk : BucketKey) (size : Nat)
    (s : SchedState) : Prop :=
  0 < env.schedDelayTime ∨ env.rejectExtraReq = true ∨
    ∀ firing ∈ (firings (now * 1000) bk (s.triggersOf bk.bucket)).drop (freeExecutors env s),
      s.Announced (s.bucketAppMap.getD bk.bucket []) ∧
        NamesForwardable (fun name => if name = getLocalObjectName bk.bucket bk.key bk.session
          then size else s.keyLenMap.getD name 0) bk.bucket firing.2

theorem checkTrigger_isSome_of_starts {size : Nat} {m : Map Bytes Nat} (values : Map Bytes Value)
    (hbucket : kDelimiterChar ∉ bk.bucket) (h : StartsSchedulable env now bk size s)
    (hsizes : ∀ name, m.getD name 0 ≤
      if name = getLocalObjectName bk.bucket bk.key bk.session then size
      else s.keyLenMap.getD name 0) (sessionId : Session) :
    (checkTrigger env now bk sessionId { s with keyLenMap := m, keyValMap := values } :
      Option _).isSome := by
  refine checkTrigger_isSome ?_
  rcases Nat.eq_zero_or_pos env.schedDelayTime with hdelay | hdelay
  · refine h.imp_right (Or.imp_right fun hstarts metadata hmetadata => ?_)
    have hactions := List.forall₂_drop (freeExecutors env s) (checkObjectArrival_actions now bk
      { s with keyLenMap := m, keyValMap := values })
    obtain ⟨firing, hfiring, argFlag, rfl⟩ := exists_of_forall₂ hactions hmetadata
    obtain ⟨happ, hnames⟩ := hstarts firing hfiring
    exact actionMetadata_forwardable hdelay happ hbucket hnames hsizes sessionId argFlag
  · exact Or.inl hdelay

theorem sendEphemeral_isSome {s₁ : SchedState} (hstore : storeObject packing infos s = some s₁)
    (hdirect : s₁.directDepsOf infos.srcFunction = none)
    (hcheck : (checkTrigger env now infos.bucketKey
      infos.sessionId s₁ : Option _).isSome) :
    (sendEphemeral env now packing infos s : Option SchedState).isSome := by
  obtain ⟨result, hresult⟩ := Option.isSome_iff_exists.mp hcheck
  have hput : (putObject env now packing infos s₁ : Option SchedState).isSome :=
    Option.isSome_of_eq_some (Option.map_eq_some_iff.mpr ⟨result, hresult, rfl⟩)
  change (s₁.appInfoMap.getD (s₁.funcAppMap.getD infos.srcFunction []) {}).directDeps
    infos.srcFunction = none at hdirect
  unfold sendEphemeral
  rw [noForward_option, hstore, Option.bind_eq_bind, Option.bind_some]
  simp only [hdirect]
  split
  · exact hput
  · rfl

/-! ## Objects for a target function -/

def targetObject (lib : UserLibrary) (tgt : Name) : BucketKey :=
  { bucket := bucketOfTarget tgt, key := keyOfSource lib.function, session := lib.sessionId }

theorem plain_keyOfSource (h : Plain func) : Plain (keyOfSource func) :=
  Plain.append (by decide) h

theorem plain_bucketOfTarget_iff : Plain (bucketOfTarget tgt) ↔ Plain tgt := by
  constructor
  · intro h
    exact ⟨fun hmem => h.1 (List.mem_append_right _ hmem),
      fun hmem => h.2 (List.mem_append_right _ hmem)⟩
  · exact Plain.append (by decide)

theorem bucketOfTarget_ne_direct (tgt : Name) : bucketOfTarget tgt ≠ bucketNameDirectInvoc := by
  intro h
  have hhead := congrArg List.head? h
  have hne : (Bytes.lit "b_").head? ≠ bucketNameDirectInvoc.head? := by decide
  exact hne hhead

theorem ofSessionKey_eq_iff {key : Key} {session : Session} (hkey : key ≠ []) :
    ({ bucket, key, session } : BucketKey) =
        BucketKey.ofSessionKey bucket (getKeySessionName key session) ↔
      session.length = 16 := by
  constructor
  · intro h
    unfold BucketKey.ofSessionKey at h
    simp only at h
    split at h
    next hlen =>
      have hsession := congrArg (fun bk => bk.session.length) h
      simp only [List.length_drop] at hsession
      omega
    · exact absurd (congrArg BucketKey.key h) hkey
  · intro h
    exact (BucketKey.ofSessionKey_append bucket hkey h).symm

def targetMessage (lib : UserLibrary) (tgt : Name) (value : Value) : Bytes :=
  (lib.sendObject (lib.createForTarget tgt value) false).2

def targetParams (lib : UserLibrary) (tgt : Name) (value : Value) : Bytes :=
  objectParams lib.sessionId lib.function tgt (bucketOfTarget tgt) (keyOfSource lib.function)
    (UserLibrary.packBody value).2

theorem executorMessage_targetMessage (env : SchedEnv) (now : Stamp) (lib : UserLibrary)
    (tgt : Name) (value : Value) (s : SchedState) :
    nodeStep env s (.executor now (targetMessage lib tgt value)) =
      match SendInfos.parse (targetParams lib tgt value) with
      | none => some s
      | some infos => sendEphemeral env now
          (Packing.ofByte (UserLibrary.packBody value).1) infos s := by
  unfold nodeStep targetMessage
  rw [sendObject_eq]
  rfl

theorem uint32OfInt_le (n : Nat) : (uint32OfInt n).toNat ≤ n := by
  unfold uint32OfInt
  rw [UInt32.toNat_ofNat']
  omega

theorem packed_or_shared (hfunction : Plain lib.function) (hsession : Plain lib.sessionId)
    (htarget : Plain tgt) (hparse : SendInfos.parse (targetParams lib tgt value) = some infos) :
    (Packing.ofByte (UserLibrary.packBody value).1 = .packed ∧
        value.length ≤ msgDataPackingThreshold ∧ infos.body.length ≤ value.length) ∨
      (Packing.ofByte (UserLibrary.packBody value).1 = .sharedMemory ∧
        infos.body = Bytes.toDecimal value.length) := by
  obtain ⟨_, _, _, _, _, hbody⟩ := parse_object hsession hfunction htarget
    (plain_bucketOfTarget_iff.mpr htarget) (plain_keyOfSource hfunction) hparse
  unfold UserLibrary.packBody at hbody ⊢
  split at hbody
  next hpacked =>
    rw [if_pos hpacked]
    refine Or.inl ⟨rfl, hpacked, ?_⟩
    exact (Bytes.length_le_of_mem_split hbody).trans (List.takeWhile_prefix _).length_le
  next hlarge =>
    have hdecimal := plain_toDecimal value.length
    rw [cstr_of_plain hdecimal, Bytes.split_of_not_mem _ hdecimal.1 (Bytes.toDecimal_ne_nil _),
      List.mem_singleton] at hbody
    rw [if_neg hlarge]
    exact Or.inr ⟨rfl, hbody⟩

theorem storeObject_target (hfunction : Plain lib.function) (hsession : Plain lib.sessionId)
    (htarget : Plain tgt) (hparse : SendInfos.parse (targetParams lib tgt value) = some infos) :
    ((storeObject (Packing.ofByte (UserLibrary.packBody value).1) infos s).isSome ↔
        value.length < 2 ^ 31) ∧
      ∀ s₁, storeObject (Packing.ofByte (UserLibrary.packBody value).1) infos s = some s₁ →
        ∀ name, s₁.keyLenMap.getD name 0 ≤
          if name = infos.objName then value.length else s.keyLenMap.getD name 0 := by
  have hset : ∀ size ≤ value.length, ∀ name,
      (s.keyLenMap.set infos.objName size).getD name 0 ≤
        if name = infos.objName then value.length else s.keyLenMap.getD name 0 := by
    intro size hle name
    by_cases hname : name = infos.objName
    · simpa [Map.getD, hname] using hle
    · simp [Map.getD, hname]
  rcases packed_or_shared hfunction hsession htarget hparse with
    ⟨hpacking, hsmall, hbody⟩ | ⟨hpacking, hbody⟩
  · have hint : msgDataPackingThreshold < 2 ^ 31 := by decide
    rw [hpacking]
    refine ⟨iff_of_true rfl (hsmall.trans_lt hint), ?_⟩
    intro s₁ hs₁
    cases hs₁
    exact hset _ hbody
  · rw [hpacking, storeObject, hbody, Bytes.stoi_toDecimal]
    by_cases hsize : value.length < 2 ^ 31
    · rw [if_pos hsize]
      refine ⟨iff_of_true rfl hsize, ?_⟩
      intro s₁ hs₁
      cases hs₁
      exact hset _ (uint32OfInt_le value.length)
    · rw [if_neg hsize]
      exact ⟨iff_of_false (by simp) hsize, fun s₁ hs₁ => by cases hs₁⟩

/-- The conditions under which the object of a source function for `tgt` is checked and
notified on a node that knows the bucket of `tgt`. -/
structure ReachesTriggers (lib : UserLibrary) (tgt : Name) (value : Value) (s : SchedState) :
    Prop where
  noDirect : s.directDepsOf lib.function = none
  target : Plain tgt
  session : lib.sessionId.length = 16
  carried : Carried value
  size : value.length < 2 ^ 31

theorem targetMessage_checked_iff (hlib : RunsCall lib)
    (hcoord : (s.bucketCoordMap (bucketOfTarget tgt)).isSome)
    (h : nodeStep env s (.executor now (targetMessage lib tgt value)) = some s') :
    CheckedAndNotified now (targetObject lib tgt) s s' ↔ ReachesTriggers lib tgt value s := by
  obtain ⟨hsession, hfunction⟩ := hlib.plain
  have hkey := plain_keyOfSource hfunction
  have hkeyNe : keyOfSource lib.function ≠ [] := by simp [keyOfSource, Bytes.lit]
  have hpacking := ofByte_packBody value
  rw [executorMessage_targetMessage] at h
  constructor
  · intro hchecked
    split at h
    · cases h
      obtain ⟨out, hout, _⟩ := hchecked.mentions (List.append_nil _).symm
      cases hout
    next infos hparse =>
      obtain ⟨hdirect, _, hobject, _⟩ := (sendEphemeral_checked_iff hpacking h _).mp hchecked
      have hsrc := (parse_sender _ hsession hfunction hparse).2
      have hbucket : infos.bucket = bucketOfTarget tgt := by
        have hfield := congrArg BucketKey.bucket hobject
        unfold SendInfos.bucketKey BucketKey.ofSessionKey at hfield
        simp only at hfield
        split at hfield <;> exact hfield.symm
      have htarget : Plain tgt := by
        rw [← plain_bucketOfTarget_iff, ← hbucket]
        exact parse_plain hparse
      have hplain := plain_bucketOfTarget_iff.mpr htarget
      obtain ⟨_, _, _, _, hjoined, _⟩ :=
        parse_object hsession hfunction htarget hplain hkey hparse
      refine ⟨?_, htarget, ?_, ?_, ?_⟩
      · rw [← hsrc]
        exact hdirect
      · rw [SendInfos.bucketKey, hbucket, hjoined] at hobject
        exact (ofSessionKey_eq_iff hkeyNe).mp hobject
      · rw [← packBody_cstr_ne_nil_iff,
          ← parse_object_isSome_iff hsession hfunction htarget hplain hkey]
        exact Option.isSome_iff_exists.mpr ⟨infos, hparse⟩
      · obtain ⟨s₁, hstore, _⟩ := sendEphemeral_cases h
        exact (storeObject_target hfunction hsession htarget hparse).1.mp
          (Option.isSome_of_eq_some hstore)
  · rintro ⟨hdirect, htarget, hlength, hcarried, _⟩
    have hplain := plain_bucketOfTarget_iff.mpr htarget
    rw [← packBody_cstr_ne_nil_iff,
      ← parse_object_isSome_iff hsession hfunction htarget hplain hkey] at hcarried
    obtain ⟨infos, hparse⟩ := Option.isSome_iff_exists.mp hcarried
    obtain ⟨_, hsrc, _, hbucket, hjoined, _⟩ :=
      parse_object hsession hfunction htarget hplain hkey hparse
    change SendInfos.parse (targetParams lib tgt value) = some infos at hparse
    simp only [hparse] at h
    refine (sendEphemeral_checked_iff hpacking h _).mpr ⟨?_, ?_, ?_, hcoord⟩
    · rw [hsrc]
      exact hdirect
    · rw [hbucket]
      exact bucketOfTarget_ne_direct tgt
    · rw [SendInfos.bucketKey, hbucket, hjoined]
      exact (ofSessionKey_eq_iff hkeyNe).mpr hlength

theorem targetMessage_isSome (hlib : RunsCall lib) (hreaches : ReachesTriggers lib tgt value s)
    (hstarts : StartsSchedulable env now (targetObject lib tgt) value.length s) :
    (nodeStep env s (.executor now (targetMessage lib tgt value)) : Option SchedState).isSome := by
  obtain ⟨hsession, hfunction⟩ := hlib.plain
  have hkey := plain_keyOfSource hfunction
  have hkeyNe : keyOfSource lib.function ≠ [] := by simp [keyOfSource, Bytes.lit]
  have htarget := hreaches.target
  have hplain := plain_bucketOfTarget_iff.mpr htarget
  rw [executorMessage_targetMessage]
  cases hparse : SendInfos.parse (targetParams lib tgt value) with
  | none => rfl
  | some infos =>
    obtain ⟨_, hsrc, _, hbucket, hjoined, _⟩ :=
      parse_object hsession hfunction htarget hplain hkey hparse
    obtain ⟨hstored, hsizes⟩ := storeObject_target hfunction hsession htarget hparse (s := s)
    obtain ⟨s₁, hs₁⟩ := Option.isSome_iff_exists.mp (hstored.mpr hreaches.size)
    have hobject : infos.bucketKey = targetObject lib tgt := by
      rw [SendInfos.bucketKey, hbucket, hjoined]
      exact ((ofSessionKey_eq_iff hkeyNe).mpr hreaches.session).symm
    have hname : infos.objName = getLocalObjectName (bucketOfTarget tgt)
        (keyOfSource lib.function) lib.sessionId := by
      rw [SendInfos.objName, hbucket, hjoined]
      rfl
    replace hsizes := hsizes s₁ hs₁
    obtain ⟨m, values, rfl, _⟩ := storeObject_spec hs₁
    have hdirect : s.directDepsOf infos.srcFunction = none := by
      rw [hsrc]
      exact hreaches.noDirect
    rw [hname] at hsizes
    refine sendEphemeral_isSome hs₁ hdirect ?_
    rw [hobject]
    exact checkTrigger_isSome_of_starts values hplain.1 hstarts hsizes infos.sessionId

/-! ## After a registration -/

theorem announced_bucketCoord {now : TimePoint} (hannounced : Announced now c registration c' msg)
    (h : handleUpdate now' msg s = some s') {dependency : DataDependency}
    (hdep : dependency ∈ registration.dependencies) (htype : dependency.type ≠ .direct)
    (htgt : dependency.tgtFunctions.head? = some tgt) :
    (s'.bucketCoordMap (bucketOfTarget tgt)).isSome := by
  obtain ⟨entity, hentity, _, tgt', trigger, htgt', _, rfl⟩ :=
    hannounced.triggers dependency hdep htype
  have heq : tgt' = tgt := Option.some.inj (htgt'.symm.trans htgt)
  subst heq
  have hmem : bucketOfTarget tgt' ∈ msg.triggers.map TriggerEntity.bucketName :=
    List.mem_map.mpr ⟨_, hentity, entityOf_bucketName _ _⟩
  unfold handleUpdate at h
  rw [hannounced.msgType] at h
  rw [(addUpdate_added h).bucketCoord, if_pos hmem]
  rfl

theorem announced_directDepsOf {now : TimePoint} (hannounced : Announced now c registration c' msg)
    (h : handleUpdate now' msg s = some s') (hfunc : func ∈ registration.functions) :
    s'.directDepsOf func = none ↔
      (s.appInfo registration.appName).directDeps func = none ∧
        ∀ d ∈ registration.dependencies, ¬ Declares d func := by
  unfold handleUpdate at h
  rw [hannounced.msgType] at h
  have hadded := addUpdate_added h
  have happ : s'.funcAppMap.getD func [] = registration.appName := by
    unfold Map.getD
    rw [hadded.funcApp, hannounced.functions, if_pos hfunc, hannounced.appName]
    rfl
  unfold SchedState.directDepsOf
  rw [happ, hadded.directDeps, hannounced.appName, if_pos rfl, recordDirect_foldl_eq_none_iff,
    hannounced.dependencies]
  have hfilter : (∀ d ∈ registration.dependencies.filter (fun d => d.type = .direct),
      ¬ Declares d func) ↔ ∀ d ∈ registration.dependencies, ¬ Declares d func := by
    constructor
    · intro hall d hd hdeclares
      exact hall d (List.mem_filter.mpr ⟨hd, by simpa using hdeclares.1⟩) hdeclares
    · intro hall d hd
      exact hall d (List.mem_filter.mp hd).1
  rw [hfilter]

def Reached (registration : AppRegistration) (s : SchedState) : Prop :=
  ∃ now c c' outs address msg now' s₀,
    appRegisterHandler now c registration = some (c', outs) ∧ .update address msg ∈ outs ∧
      handleUpdate now' msg s₀ = some s

theorem Reached.announced (h : Reached registration s) :
    ∃ now c c' msg now' s₀, Announced now c registration c' msg ∧
      handleUpdate now' msg s₀ = some s := by
  obtain ⟨now, c, c', outs, address, msg, now', s₀, hreg, hmem, hupdate⟩ := h
  obtain ⟨msg', houts, hannounced⟩ := appRegisterHandler_announced hreg
  rw [houts] at hmem
  obtain ⟨entry, _, heq⟩ := List.mem_map.mp hmem
  cases heq
  exact ⟨now, c, c', msg, now', s₀, hannounced, hupdate⟩

/-! ## An application -/

def joinDependency : DataDependency :=
  { type := .manyToOne, srcFunctions := [Bytes.lit "f"], tgtFunctions := [Bytes.lit "t"] }

def forkDependency : DataDependency :=
  { type := .direct, srcFunctions := [Bytes.lit "f"], tgtFunctions := [Bytes.lit "g"] }

def exampleApp (dependencies : List DataDependency) : AppRegistration where
  appName := Bytes.lit "app"
  functions := [Bytes.lit "f", Bytes.lit "g", Bytes.lit "t"]
  dependencies := dependencies

def exampleCoord : CoordState :=
  updateStatus (CoordState.new (Bytes.lit "10.0.0.1") 0 1 Nat.one_pos 0)
    { ip := Bytes.lit "10.0.0.2", availExecutors := 1 }

def exampleNode (dependencies : List DataDependency) : SchedState :=
  ((appRegisterHandler 0 exampleCoord (exampleApp dependencies)).bind fun result =>
    result.2.findSome? fun out =>
      match out with
      | .update _ msg => handleUpdate 0 msg (SchedState.new 0 1)
      | _ => none).getD {}

def exampleEnv : SchedEnv where
  ip := Bytes.lit "10.0.0.2"
  ioThreadCount := 1
  ioThreadCount_pos := Nat.one_pos
  schedDelayTime := 0
  sharedExecutor := false
  rejectExtraReq := false
  randR := fun seed => (seed.toNat, seed + 1)
  readShm := fun _ _ => []

def exampleCall : Bytes :=
  callMessage
    { sessionId := Bytes.lit "0123456789abcdef", appName := Bytes.lit "app"
      funcName := Bytes.lit "f", funcArgs := [], argFlag := 0 } []

def exampleLib : UserLibrary :=
  ((UserLibrary.new (Bytes.lit "10.0.0.2") 0).start exampleCall).getD (UserLibrary.new [] 0)

theorem exampleLib_runs : RunsCall exampleLib :=
  ⟨exampleCall, UserLibrary.new (Bytes.lit "10.0.0.2") 0, exampleLib, rfl, rfl, rfl⟩

/-! ## Honoured dependencies -/

/-- Take any state that a node reaches after it handled the announcement of a
registration, and a running function that sends its object for the target of one
of the many-to-one dependencies.  A node that takes the message checks and notifies the
object exactly when it has no direct dependency of the function and the names and the value
survive the message; it takes it if the functions that the object starts can be scheduled. -/
theorem manyToOne_honoured_iff {env : SchedEnv} {registration : AppRegistration}
    {dependency : DataDependency} {tgt : Name} {s₁ s₂ : SchedState} {es : List NodeEvent}
    {lib : UserLibrary} {value : Value} {now : Stamp} (hreached : Reached registration s₁)
    (hrun : run (nodeStep env) s₁ es = some s₂)
    (hdep : dependency ∈ registration.dependencies) (htype : dependency.type = .manyToOne)
    (htgt : dependency.tgtFunctions.head? = some tgt) (hlib : RunsCall lib) :
    (∀ s₃, nodeStep env s₂ (.executor now (targetMessage lib tgt value)) = some s₃ →
      (CheckedAndNotified now (targetObject lib tgt) s₂ s₃ ↔
        ReachesTriggers lib tgt value s₂)) ∧
    (ReachesTriggers lib tgt value s₂ →
      StartsSchedulable env now (targetObject lib tgt) value.length s₂ →
      ∃ s₃, nodeStep env s₂ (.executor now (targetMessage lib tgt value)) = some s₃ ∧
        CheckedAndNotified now (targetObject lib tgt) s₂ s₃) := by
  obtain ⟨now₀, c, c', msg, now₁, s₀, hannounced, hupdate⟩ := hreached.announced
  have hindirect : dependency.type ≠ .direct := by
    rw [htype]
    decide
  have hstart := announced_bucketCoord hannounced hupdate hdep hindirect htgt
  have hcoord : (s₂.bucketCoordMap (bucketOfTarget tgt)).isSome :=
    @run_invariant _ _ (nodeStep env) (fun s => (s.bucketCoordMap (bucketOfTarget tgt)).isSome)
      (fun _ _ => True) (fun _ _ _ hs _ hstep => nodeStep_bucketCoord hstep hs) s₁ s₂ es hstart
      (along_true s₁ es) hrun
  refine ⟨fun s₃ hstep => targetMessage_checked_iff hlib hcoord hstep, fun hreaches hstarts => ?_⟩
  obtain ⟨s₃, hstep⟩ := Option.isSome_iff_exists.mp (targetMessage_isSome hlib hreaches hstarts)
  exact ⟨s₃, hstep, (targetMessage_checked_iff hlib hcoord hstep).mpr hreaches⟩

theorem manyToOne_honoured_iff_join :
    ReachesTriggers exampleLib (Bytes.lit "t") (Bytes.lit "v") (exampleNode [joinDependency]) ∧
      ∃ s₃, nodeStep exampleEnv (exampleNode [joinDependency])
          (.executor 0 (targetMessage exampleLib (Bytes.lit "t") (Bytes.lit "v"))) = some s₃ ∧
        CheckedAndNotified 0 (targetObject exampleLib (Bytes.lit "t"))
          (exampleNode [joinDependency]) s₃ := by
  have hreached : Reached (exampleApp [joinDependency]) (exampleNode [joinDependency]) :=
    ⟨0, exampleCoord, _, _, _, _, 0, SchedState.new 0 1, rfl, List.mem_cons_self, rfl⟩
  have hreaches : ReachesTriggers exampleLib (Bytes.lit "t") (Bytes.lit "v")
      (exampleNode [joinDependency]) := ⟨by decide, by decide, by decide, by decide, by decide⟩
  have hstarts : StartsSchedulable exampleEnv 0 (targetObject exampleLib (Bytes.lit "t")) 1
      (exampleNode [joinDependency]) := by
    have hnames : ∀ firing ∈ (firings 0 (targetObject exampleLib (Bytes.lit "t"))
        ((exampleNode [joinDependency]).triggersOf (bucketOfTarget (Bytes.lit "t")))).drop 0,
        (∀ o ∈ firing.2.sessionKeys, kDelimiterChar ∉ getKeySessionName o.2 o.1 ∧
          getKeySessionName o.2 o.1 ≠ []) ∧
        (firing.2.sessionKeys.map fun o =>
          let name := getLocalObjectName (bucketOfTarget (Bytes.lit "t")) o.2 o.1
          if name = Bytes.lit "b_t|k_f0123456789abcdef" then 1
          else (exampleNode [joinDependency]).keyLenMap.getD name 0).sum < 2 ^ 31 := by decide
    exact Or.inr (Or.inr fun firing hfiring => ⟨rfl, (hnames firing hfiring).1,
      (hnames firing hfiring).2⟩)
  exact ⟨hreaches, (manyToOne_honoured_iff hreached (run_nil _) List.mem_cons_self rfl rfl
    exampleLib_runs).2 hreaches hstarts⟩

/-- With a direct dependency to `g` as well, the object that `f` sends for `t` is
not checked, although `f` is a declared source of `t`. -/
theorem direct_dependency_hides_manyToOne :
    let s := exampleNode [forkDependency, joinDependency]
    let event := NodeEvent.executor 0 (targetMessage exampleLib (Bytes.lit "t") (Bytes.lit "v"))
    Reached (exampleApp [forkDependency, joinDependency]) s ∧ RunsCall exampleLib ∧
      exampleLib.function ∈ joinDependency.srcFunctions ∧ (nodeStep exampleEnv s event).isSome ∧
      ¬ ∃ s₃, nodeStep exampleEnv s event = some s₃ ∧
        CheckedAndNotified 0 (targetObject exampleLib (Bytes.lit "t")) s s₃ := by
  refine ⟨⟨0, exampleCoord, _, _, _, _, 0, SchedState.new 0 1, rfl, List.mem_cons_self, rfl⟩,
    exampleLib_runs, by decide, by decide, ?_⟩
  rintro ⟨s₃, hstep, hchecked⟩
  have hcoord : ((exampleNode [forkDependency, joinDependency]).bucketCoordMap
      (bucketOfTarget (Bytes.lit "t"))).isSome := by decide
  have hreaches := (targetMessage_checked_iff exampleLib_runs hcoord hstep).mp hchecked
  exact absurd hreaches.noDirect (by decide)

end Pheromone.Cluster
