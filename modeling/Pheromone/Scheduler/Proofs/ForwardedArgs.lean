import Pheromone.Common.Reruns
import Pheromone.Scheduler.Forwarding
import Pheromone.Scheduler.Proofs.Accounting

/-!
# The arguments of forwarded calls

Inside a scheduler the arguments by key of a call are names of objects, each with a
size.  `forward_call_via_helper` reads bucket, key and size instead.  Only
`schedule_func_call` turns the one into the other.
-/

namespace Pheromone.Scheduler

open Lib Common

variable {argFlag : Int} {bk : BucketKey} {bucket : Bucket} {key : Bytes}
  {queue : List DelayFunctionCall} {site : ForwardSite}

variable {infos : SendInfos} {args : List Bytes} {packing : Packing} {appName : Name}
  {sessionId : Session}

/-! ## Two shapes of arguments -/

def IsObjectName (name : Bytes) : Prop :=
  ∃ bucket sessionKey, kDelimiterChar ∉ bucket ∧ kDelimiterChar ∉ sessionKey ∧
    sessionKey ≠ [] ∧ name = bucket ++ kDelimiter ++ sessionKey

def NamesAndSizes (args : List Bytes) : Prop :=
  ∃ objects : List (Bytes × Nat), (∀ object ∈ objects, IsObjectName object.1) ∧
    args = objects.flatMap fun object => [object.1, Bytes.toDecimal object.2]

/-- The loop of `forward_call_via_helper` stays in range and reads a bucket, a key with
its session and a decimal size each time. -/
def ObjectTriples (args : List Bytes) : Prop :=
  ∃ parts, triples args = some parts ∧ ∀ part ∈ parts, kDelimiterChar ∉ part.1 ∧
    kDelimiterChar ∉ part.2.1 ∧ ∃ size, part.2.2 = Bytes.toDecimal size

/-- The arguments are by key in the first shape, if they are by key. -/
def KeyArgs (argFlag : Int) (args : List Bytes) : Prop := 0 < argFlag → NamesAndSizes args

theorem IsObjectName.delimiter_mem {name : Bytes} (h : IsObjectName name) :
    kDelimiterChar ∈ name := by
  obtain ⟨bucket, sessionKey, _, _, _, rfl⟩ := h
  simp [kDelimiter]

theorem delimiter_not_mem_toDecimal (n : Nat) : kDelimiterChar ∉ Bytes.toDecimal n := by
  intro hmem
  have hdigit := Bytes.isDigit_of_mem_toDecimal hmem
  revert hdigit
  decide

theorem objectTriples_nil : ObjectTriples [] := ⟨[], rfl, by simp⟩

theorem ObjectTriples.cons {bucket sessionKey : Bytes} {args : List Bytes}
    (h : ObjectTriples args) (hbucket : kDelimiterChar ∉ bucket)
    (hsessionKey : kDelimiterChar ∉ sessionKey) (size : Nat) :
    ObjectTriples (bucket :: sessionKey :: Bytes.toDecimal size :: args) := by
  obtain ⟨parts, hparts, hall⟩ := h
  refine ⟨(bucket, sessionKey, Bytes.toDecimal size) :: parts, ?_, ?_⟩
  · simp [triples, hparts]
  · intro part hpart
    rcases List.mem_cons.mp hpart with rfl | hpart
    · exact ⟨hbucket, hsessionKey, size, rfl⟩
    · exact hall part hpart

def flattenArgs (args : List Bytes) : List Bytes :=
  args.flatMap fun arg =>
    if kDelimiterChar ∈ arg then Bytes.split kDelimiterChar arg else [arg]

theorem objectTriples_flattenArgs (h : NamesAndSizes args) : ObjectTriples (flattenArgs args) := by
  obtain ⟨objects, hnames, rfl⟩ := h
  induction objects with
  | nil => exact objectTriples_nil
  | cons object objects ih =>
    have hrest := ih fun o ho => hnames o (List.mem_cons_of_mem _ ho)
    have hname := hnames object List.mem_cons_self
    have hmem := hname.delimiter_mem
    obtain ⟨bucket, sessionKey, hbucket, hsessionKey, hne, heq⟩ := hname
    have hsplit : Bytes.split kDelimiterChar object.1 = [bucket, sessionKey] := by
      rw [heq, List.append_assoc, kDelimiter, List.singleton_append,
        Bytes.split_append_delim _ _ _ hbucket, Bytes.split_of_not_mem _ hsessionKey hne]
    have hflat : flattenArgs ((object :: objects).flatMap fun object =>
          [object.1, Bytes.toDecimal object.2]) =
        bucket :: sessionKey :: Bytes.toDecimal object.2 ::
          flattenArgs (objects.flatMap fun object => [object.1, Bytes.toDecimal object.2]) := by
      simp [flattenArgs, hmem, hsplit, delimiter_not_mem_toDecimal]
    rw [hflat]
    exact hrest.cons hbucket hsessionKey object.2

theorem forwardArgs_objectTriples {call : SchedCall} (hcall : NamesAndSizes call.funcArgs)
    (hflag : 0 < call.argFlag) (h : forwardArgs call = some args) : ObjectTriples args := by
  unfold forwardArgs at h
  rw [if_pos hflag] at h
  obtain ⟨first, hfirst, rfl⟩ := Option.map_eq_some_iff.mp h
  have hmem : kDelimiterChar ∈ first := by
    obtain ⟨objects, hnames, heq⟩ := hcall
    rw [heq] at hfirst
    cases objects with
    | nil => cases hfirst
    | cons object objects =>
      cases hfirst
      exact (hnames object List.mem_cons_self).delimiter_mem
  rw [if_pos hmem]
  exact objectTriples_flattenArgs hcall

theorem not_objectTriples (h : NamesAndSizes args) (hne : args ≠ []) : ¬ ObjectTriples args := by
  obtain ⟨objects, hnames, rfl⟩ := h
  rintro ⟨parts, hparts, hall⟩
  cases objects with
  | nil => exact hne rfl
  | cons object objects =>
    have hmem := (hnames object List.mem_cons_self).delimiter_mem
    simp only [List.flatMap_cons, List.cons_append, List.nil_append] at hparts
    cases hrest : objects.flatMap fun object => [object.1, Bytes.toDecimal object.2] with
    | nil =>
      rw [hrest] at hparts
      cases hparts
    | cons next rest =>
      rw [hrest] at hparts
      obtain ⟨parts', _, rfl⟩ := Option.map_eq_some_iff.mp hparts
      exact (hall _ List.mem_cons_self).1 hmem

/-- A vector by key has the shape that is read exactly if it comes from
`schedule_func_call` or is empty. -/
def PassedAsRead (forwarded : ForwardedArgs) : Prop :=
  0 < forwarded.argFlag →
    (ObjectTriples forwarded.args ↔ forwarded.site = .schedule ∨ forwarded.args = [])

theorem passedAsRead_schedule {call : SchedCall} (hcall : KeyArgs call.argFlag call.funcArgs)
    (h : forwardArgs call = some args) :
    PassedAsRead { site := .schedule, args, argFlag := call.argFlag } := fun hflag =>
  iff_of_true (forwardArgs_objectTriples (hcall hflag) hflag h) (Or.inl rfl)

theorem passedAsRead_of_ne (hsite : site ≠ .schedule) (h : KeyArgs argFlag args) :
    PassedAsRead { site, args, argFlag } := by
  intro hflag
  by_cases hnil : args = []
  · subst hnil
    exact iff_of_true objectTriples_nil (Or.inr rfl)
  · exact iff_of_false (not_objectTriples (h hflag) hnil) fun h => h.elim hsite hnil

/-! ## What a scheduler keeps -/

def PlainObject (session : Session) (key : Key) : Prop :=
  kDelimiterChar ∉ session ∧ kDelimiterChar ∉ key ∧ session ≠ []

def TriggerShaped (t : Trigger) : Prop :=
  t.state.Keeps PlainObject ∧
    t.state.Remembers fun metadata => KeyArgs metadata.argFlag metadata.funcArgs

structure Shaped (s : SchedState) : Prop where
  waiting : ∀ delayed ∈ s.delayCallQueue, KeyArgs delayed.call.argFlag delayed.call.funcArgs
  inflight : s.callIdInflightArgsMap.All fun inflight =>
    0 < inflight.argFlag → ∀ key ∈ inflight.keyArgs, IsObjectName key
  triggers : s.bucketTriggersMap.All TriggerShaped

theorem shaped_new (ramSeed : UInt32) (executors : Nat) :
    Shaped (SchedState.new ramSeed executors) where
  waiting _ h := absurd h List.not_mem_nil
  inflight := Map.all_empty _
  triggers _ h := absurd h List.not_mem_nil

def SchedState.kept (s : SchedState) :
    List DelayFunctionCall × Map UInt32 InflightFuncArgs × Shared Bucket Trigger :=
  (s.delayCallQueue, s.callIdInflightArgsMap, s.bucketTriggersMap)

variable {env : SchedEnv} {now : Stamp} {s s' : SchedState}

theorem Shaped.of_kept (h : Shaped s) (hkept : s'.kept = s.kept) : Shaped s' := by
  unfold SchedState.kept at hkept
  simp only [Prod.mk.injEq] at hkept
  obtain ⟨hqueue, hinflight, htriggers⟩ := hkept
  exact ⟨hqueue ▸ h.waiting, hinflight ▸ h.inflight, htriggers ▸ h.triggers⟩

theorem Shaped.withQueue (h : Shaped s)
    (hqueue : ∀ delayed ∈ queue, KeyArgs delayed.call.argFlag delayed.call.funcArgs) :
    Shaped { s with delayCallQueue := queue } :=
  ⟨hqueue, h.inflight, h.triggers⟩

/-! ## Dispatching -/

theorem sendToExecutor_shaped {call : SchedCall} (hcall : KeyArgs call.argFlag call.funcArgs)
    (h : Shaped s) (executor : ExecutorId) (seed : UInt32) (cold : Bool) :
    Shaped (sendToExecutor now call executor seed cold s) := by
  unfold sendToExecutor
  refine foldl_preserves (Q := Shaped) (fun s rerun _ hs => ?_)
    ⟨h.waiting, h.inflight, h.triggers⟩
  refine ⟨hs.waiting, hs.inflight, hs.triggers.modify _ fun t ht => ?_⟩
  exact ⟨ht.1.notifySourceFunc .., ht.2.notifySourceFunc _ hcall⟩

theorem holds_noForward {α : Type} {P : ForwardedArgs → Prop} {Q : α → Prop} {x : Option α}
    (h : ∀ a, x = some a → Q a) : Logged.Holds P Q (noForward x) :=
  Logged.holds_tell (fun _ hw => absurd hw List.not_mem_nil) h

theorem forwardFrom_holds {calls : List SchedCall} {args : List (List Bytes)}
    (hargs : ∀ a ∈ args, PassedAsRead { site, args := a, argFlag }) (h : Shaped s) :
    Logged.Holds PassedAsRead Shaped
      (forwardFrom site env sessionId appName calls args argFlag s) := by
  refine Logged.holds_tell (fun v hv => ?_) fun s' hs' => ?_
  · obtain ⟨a, ha, rfl⟩ := List.mem_map.mp hv
    exact hargs a ha
  · obtain ⟨_, _, _, _, _, _, rfl⟩ := forwardCallViaHelper_spec hs'
    exact ⟨h.waiting, h.inflight, h.triggers⟩

theorem scheduleFuncCall_holds {call : SchedCall} (hcall : KeyArgs call.argFlag call.funcArgs)
    (h : Shaped s) : Logged.Holds PassedAsRead Shaped (scheduleFuncCall env now call s) := by
  unfold scheduleFuncCall
  split
  · exact Logged.holds_pure (sendToExecutor_shaped hcall h ..)
  · split
    · refine Logged.holds_pure (h.withQueue fun delayed hdelayed => ?_)
      rcases List.mem_append.mp hdelayed with hold | hnew
      · exact h.waiting delayed hold
      · rw [List.mem_singleton.mp hnew]
        exact hcall
    · split
      · exact Logged.holds_pure h
      · refine (holds_noForward fun args hargs => hargs).bind fun args hargs => ?_
        refine forwardFrom_holds (fun a ha => ?_) h
        rw [List.mem_singleton.mp ha]
        exact passedAsRead_schedule hcall hargs

theorem submit_holds {callId : Option UInt32} {call : SchedCall}
    (hcall : KeyArgs call.argFlag call.funcArgs) (h : Shaped s) :
    Logged.Holds PassedAsRead Shaped (submit env now callId call s) :=
  scheduleFuncCall_holds hcall ⟨h.waiting, h.inflight, h.triggers⟩

/-! ## Objects -/

theorem isObjectName_getLocalObjectName {session : Session} {key : Key}
    (hbucket : kDelimiterChar ∉ bucket) (h : PlainObject session key) :
    IsObjectName (getLocalObjectName bucket key session) := by
  refine ⟨bucket, key ++ session, hbucket, ?_, ?_, rfl⟩
  · rw [List.mem_append, not_or]
    exact ⟨h.2.1, h.1⟩
  · intro hnil
    exact h.2.2 (List.append_eq_nil_iff.mp hnil).2

theorem describeAction_keyArgs {keyValMap : Map Bytes Value} {acc : Arrival × Int}
    {action : TriggerAction} (hbucket : kDelimiterChar ∉ bucket)
    (haction : action.Passes PlainObject)
    (hacc : ∀ metadata ∈ acc.1.activeFuncMetadata, KeyArgs metadata.argFlag metadata.funcArgs) :
    ∀ metadata ∈ (describeAction keyValMap bucket acc action).1.activeFuncMetadata,
      KeyArgs metadata.argFlag metadata.funcArgs := by
  unfold describeAction
  simp only
  split
  · intro metadata hmem
    rcases List.mem_append.mp hmem with hmem | hmem
    · exact hacc metadata hmem
    · rw [List.mem_singleton.mp hmem]
      exact fun hflag => absurd hflag (lt_irrefl 0)
  · intro metadata hmem
    rcases List.mem_append.mp hmem with hmem | hmem
    · exact hacc metadata hmem
    · rw [List.mem_singleton.mp hmem]
      intro _
      refine ⟨(action.sessionKeys.map fun sessionKey =>
        getLocalObjectName bucket sessionKey.2 sessionKey.1).map fun name =>
          (name, acc.1.keyLenMap.getD name 0), fun object hobject => ?_, ?_⟩
      · obtain ⟨name, hname, rfl⟩ := List.mem_map.mp hobject
        obtain ⟨sessionKey, hsessionKey, rfl⟩ := List.mem_map.mp hname
        exact isObjectName_getLocalObjectName hbucket (haction sessionKey hsessionKey)
      · simp [List.flatMap_map]

theorem checkObjectArrival_shaped (now : Stamp) (hbucket : kDelimiterChar ∉ bk.bucket)
    (hbk : PlainObject bk.session bk.key) (h : Shaped s) :
    Shaped (checkObjectArrival now bk s).1 ∧
      ∀ metadata ∈ (checkObjectArrival now bk s).2.2,
        KeyArgs metadata.argFlag metadata.funcArgs := by
  have hvisit : ∀ t, TriggerShaped t → TriggerShaped (t.actionForNewObject (now * 1000) bk).1 ∧
      ∀ action ∈ (t.actionForNewObject (now * 1000) bk).2, action.Passes PlainObject := by
    intro t ht
    -- a dynamic group puts the session of this object to the keys of others
    obtain ⟨hkeeps, hpasses⟩ := Trigger.keeps_actionForNewObject hbk (now * 1000)
      (fun _ _ _ hseen => ⟨hbk.1, hseen.2.1, hbk.2.2⟩) ht.1
    exact ⟨⟨hkeeps, ht.2.actionForNewObject _ _ _⟩, hpasses⟩
  refine ⟨⟨h.waiting, h.inflight, h.triggers.visit _ fun t ht => (hvisit t ht).1⟩, ?_⟩
  refine foldl_preserves (Q := fun arrival : Arrival =>
    ∀ metadata ∈ arrival.activeFuncMetadata, KeyArgs metadata.argFlag metadata.funcArgs)
    (fun arrival result hresult harrival => ?_) (fun _ hmem => absurd hmem List.not_mem_nil)
  rw [Shared.visit_snd] at hresult
  obtain ⟨t, ht, rfl⟩ := List.mem_map.mp hresult
  have hpasses := (hvisit t (h.triggers.list _ t ht)).2
  unfold describeTrigger
  split
  · exact harrival
  · exact foldl_preserves (Q := fun acc : Arrival × Int =>
      ∀ metadata ∈ acc.1.activeFuncMetadata, KeyArgs metadata.argFlag metadata.funcArgs)
      (fun acc action haction hacc =>
        describeAction_keyArgs hbucket (hpasses action haction) hacc) harrival

theorem checkTrigger_holds (env : SchedEnv) (now : Stamp)
    (hbucket : kDelimiterChar ∉ bk.bucket) (hbk : PlainObject bk.session bk.key)
    (sessionId : Session) (h : Shaped s) :
    Logged.Holds PassedAsRead (fun result : SchedState × List Name => Shaped result.1)
      (checkTrigger env now bk sessionId s) := by
  obtain ⟨hs, hmetadata⟩ := checkObjectArrival_shaped now hbucket hbk h
  exact (Logged.holds_foldlM (Q := Shaped) (fun s metadata hmem hs =>
    submit_holds (hmetadata metadata hmem) hs) hs).map fun s hs => hs

/-- The fields of a message about an object: a key with its session, and a decimal size
when the value is in shared memory. -/
structure SendInfos.Named (packing : Packing) (infos : SendInfos) : Prop where
  bucket : kDelimiterChar ∉ infos.bucket
  sessionKey : kDelimiterChar ∉ infos.sessionKey
  length : 16 < infos.sessionKey.length
  body : packing = .sharedMemory → ∃ size, infos.body = Bytes.toDecimal size

theorem directArgs_keyArgs (h : infos.Named packing) :
    KeyArgs (directArgs packing infos).2 (directArgs packing infos).1 := by
  intro hflag
  cases packing with
  | packed => exact absurd hflag (lt_irrefl 0)
  | sharedMemory =>
    obtain ⟨size, hsize⟩ := h.body rfl
    refine ⟨[(infos.objName, size)], fun object hobject => ?_, ?_⟩
    · rw [List.mem_singleton.mp hobject]
      refine ⟨infos.bucket, infos.sessionKey, h.bucket, h.sessionKey, ?_, rfl⟩
      have hlength := h.length
      exact List.ne_nil_of_length_pos (by omega)
    · simp [directArgs, hsize]
  | other => exact ⟨[], by simp, rfl⟩

theorem ofSessionKey_plainObject (h : infos.Named packing) :
    PlainObject infos.bucketKey.session infos.bucketKey.key := by
  unfold SendInfos.bucketKey BucketKey.ofSessionKey
  simp only [if_pos h.length]
  refine ⟨fun hmem => h.sessionKey (List.mem_of_mem_drop hmem),
    fun hmem => h.sessionKey (List.mem_of_mem_take hmem), ?_⟩
  have hlength := h.length
  apply List.ne_nil_of_length_pos
  rw [List.length_drop]
  omega

theorem batchForward_holds {targetFuncs : List Name} {args : List Bytes × Int}
    (hargs : KeyArgs args.2 args.1) (h : Shaped s) :
    Logged.Holds PassedAsRead Shaped
      (batchForward env now sessionId appName targetFuncs args s) := by
  have hcalls : ∀ {call : SchedCall},
      call ∈ (targetFuncs.map fun funcName =>
        ({ sessionId, appName, funcName, funcArgs := args.1, argFlag := args.2 } : SchedCall)) →
      call.funcArgs = args.1 ∧ call.argFlag = args.2 := by
    intro call hcall
    obtain ⟨funcName, _, rfl⟩ := List.mem_map.mp hcall
    exact ⟨rfl, rfl⟩
  have hlocal := Logged.holds_foldlM (Q := Shaped) (P := PassedAsRead)
    (f := fun s call => submit env now none call s)
    (l := (targetFuncs.map fun funcName =>
      ({ sessionId, appName, funcName, funcArgs := args.1, argFlag := args.2 } :
        SchedCall)).take (availExecutorNum s))
    (fun s call hcall hs => by
      obtain ⟨hfuncArgs, hflag⟩ := hcalls (List.mem_of_mem_take hcall)
      refine submit_holds ?_ hs
      rw [hfuncArgs, hflag]
      exact hargs) h
  unfold batchForward
  simp only
  split
  · refine hlocal.bind fun s₁ hs₁ => ?_
    split
    · exact Logged.holds_pure hs₁
    · refine forwardFrom_holds (fun a ha => ?_) hs₁
      obtain ⟨call, hcall, rfl⟩ := List.mem_map.mp ha
      rw [(hcalls (List.mem_of_mem_drop hcall)).1]
      exact passedAsRead_of_ne (by decide) hargs
  · exact hlocal

theorem invokeDirectly_holds {targets : USet Name} (hinfos : infos.Named packing) (h : Shaped s) :
    Logged.Holds PassedAsRead Shaped (invokeDirectly env now packing infos appName targets s) := by
  have hargs := directArgs_keyArgs hinfos
  unfold invokeDirectly
  simp only
  split
  · exact batchForward_holds hargs h
  · split
    · exact submit_holds hargs h
    · exact Logged.holds_pure h

theorem notifyPut_kept (env : SchedEnv) (bk : BucketKey) (activeTriggers : List Name)
    (respAddress : Address) (payload : Value) (s : SchedState) :
    (notifyPut env bk activeTriggers respAddress payload s).kept = s.kept := by
  obtain ⟨rid, id, outs, heq, _⟩ := notifyPut_state env bk activeTriggers respAddress payload s
  rw [heq]
  rfl

theorem putObject_holds (hinfos : infos.Named packing) (h : Shaped s) :
    Logged.Holds PassedAsRead Shaped (putObject env now packing infos s) := by
  have hbucket : kDelimiterChar ∉ infos.bucketKey.bucket := by
    unfold SendInfos.bucketKey BucketKey.ofSessionKey
    simp only
    split <;> exact hinfos.bucket
  have hcheck := checkTrigger_holds env now hbucket
    (ofSessionKey_plainObject hinfos) infos.sessionId h
  refine hcheck.map fun result hshaped => ?_
  cases packing with
  | packed | sharedMemory => exact hshaped.of_kept (notifyPut_kept ..)
  | other => exact ⟨hshaped.waiting, hshaped.inflight, hshaped.triggers⟩

theorem sendEphemeral_holds (hinfos : infos.Named packing) (h : Shaped s) :
    Logged.Holds PassedAsRead Shaped (sendEphemeral env now packing infos s) := by
  unfold sendEphemeral
  refine (holds_noForward (Q := Shaped) fun s₁ hs₁ => ?_).bind fun s₁ hs₁ => ?_
  · obtain ⟨_, _, rfl, _⟩ := storeObject_spec hs₁
    exact ⟨h.waiting, h.inflight, h.triggers⟩
  · simp only
    split
    · exact invokeDirectly_holds hinfos hs₁
    · split
      · exact putObject_holds hinfos hs₁
      · exact Logged.holds_pure hs₁

/-! ## Events -/

/-- The messages of executors describe objects as the library does, and the key
arguments of calls are names of objects. -/
def NamesObjects : NodeEvent → Prop
  | .executor _ (_ :: 2 :: _ :: packingByte :: params) =>
      ∀ infos, SendInfos.parse params = some infos → 16 < infos.sessionKey.length ∧
        (packingByte = 2 → ∃ size, infos.body = Bytes.toDecimal size)
  | .call _ msg => ∀ request ∈ msg.requests, 0 < argFlagOf request.arguments →
      ∀ arg ∈ request.arguments, IsObjectName arg.body
  | _ => True

theorem parse_named {packingByte : UInt8} {params : Bytes}
    (hparse : SendInfos.parse params = some infos) (hlength : 16 < infos.sessionKey.length)
    (hbody : packingByte = 2 → ∃ size, infos.body = Bytes.toDecimal size) :
    infos.Named (Packing.ofByte packingByte) := by
  have hshared : Packing.ofByte packingByte = .sharedMemory → packingByte = 2 := by
    unfold Packing.ofByte
    intro h
    split at h
    · cases h
    · split at h
      · assumption
      · cases h
  unfold SendInfos.parse at hparse
  split at hparse
  next heq =>
    cases hparse
    have hfield : ∀ field ∈ Bytes.split kDelimiterChar (Bytes.cstr params),
        kDelimiterChar ∉ field := fun _ => Bytes.not_mem_of_mem_split
    rw [heq] at hfield
    exact ⟨hfield _ (by simp), hfield _ (by simp), hlength, fun h => hbody (hshared h)⟩
  · cases hparse

theorem executorMessage_holds {message : Bytes} (hnames : NamesObjects (.executor now message))
    (h : Shaped s) : Logged.Holds PassedAsRead Shaped (executorMessage env now message s) := by
  have hsend : ∀ {address reqId packingByte params infos},
      message = address :: 2 :: reqId :: packingByte :: params →
      SendInfos.parse params = some infos → Logged.Holds PassedAsRead Shaped
        (sendEphemeral env now (Packing.ofByte packingByte) infos s) := by
    rintro address reqId packingByte params infos rfl hparse
    obtain ⟨hlength, hbody⟩ := hnames infos hparse
    exact sendEphemeral_holds (parse_named hparse hlength hbody) h
  refine ⟨?_, fun s' hs' => ?_⟩
  · -- only ephemeral data can start calls
    unfold executorMessage
    simp only
    split
    · split
      · split <;> exact List.forall_mem_nil _
      · split
        · split
          · split
            · exact List.forall_mem_nil _
            next infos hparse =>
              split
              next htype =>
                subst htype
                exact (hsend rfl hparse).log
              · split <;> exact List.forall_mem_nil _
          · exact List.forall_mem_nil _
        · split
          · exact List.forall_mem_nil _
          · split <;> exact List.forall_mem_nil _
    · exact List.forall_mem_nil _
  · rw [result_executorMessage] at hs'
    refine executorMessage_preserves
      (fun s _ _ _ _ _ _ _ hs => ⟨hs.waiting, hs.inflight, hs.triggers⟩) ?_ hs' h
    intro address reqId packingByte params infos hmessage hparse hstep
    exact (hsend hmessage hparse).result s' (result_sendEphemeral.trans hstep)

/-! ## Calls -/

theorem readyCall_keyArgs {inflight : InflightFuncArgs}
    (h : 0 < inflight.argFlag → ∀ key ∈ inflight.keyArgs, IsObjectName key) (appName : Name)
    (keyLenMap : Map Bytes Nat) :
    KeyArgs (inflight.readyCall appName keyLenMap).argFlag
      (inflight.readyCall appName keyLenMap).funcArgs := by
  intro hflag
  change 0 < inflight.argFlag at hflag
  refine ⟨inflight.keyArgs.map fun key => (key, keyLenMap.getD key 0), fun object hobject => ?_,
    ?_⟩
  · obtain ⟨key, hkey, rfl⟩ := List.mem_map.mp hobject
    exact h hflag key hkey
  · simp [InflightFuncArgs.readyCall, fullArgs, hflag, List.flatMap_map]

theorem checkKeyArg_kept (env : SchedEnv) (acc : SchedState × Finset Bytes) (arg : Bytes) :
    (checkKeyArg env acc arg).1.kept = acc.1.kept := by
  obtain ⟨id, hid⟩ := ioThread_state env acc.1
  unfold checkKeyArg SchedState.sendDataReq
  simp only [hid]
  split
  · rfl
  · split <;> rfl

theorem inflightArgsOf_kept (env : SchedEnv) (sessionId : Session) (request : FunctionRequest)
    (s : SchedState) : (inflightArgsOf env sessionId request s).1.kept = s.kept := by
  unfold inflightArgsOf
  simp only
  split
  · exact foldl_unchanged (f := checkKeyArg env)
      (fun acc : SchedState × Finset Bytes => acc.1.kept) (checkKeyArg_kept env) _ (s, ∅)
  · rfl

theorem callRequest_holds {request : FunctionRequest}
    (hrequest : 0 < argFlagOf request.arguments →
      ∀ arg ∈ request.arguments, IsObjectName arg.body) (h : Shaped s) :
    Logged.Holds PassedAsRead Shaped
      (callRequest env now appName sessionId s request) := by
  have hs := h.of_kept (inflightArgsOf_kept env sessionId request s)
  have hkeys : 0 < (inflightArgsOf env sessionId request s).2.argFlag →
      ∀ key ∈ (inflightArgsOf env sessionId request s).2.keyArgs, IsObjectName key := by
    intro hflag key hkey
    obtain ⟨arg, harg, rfl⟩ := List.mem_map.mp hkey
    exact hrequest (Int.ofNat_lt.mp hflag) arg harg
  unfold callRequest
  simp only
  refine Logged.Holds.map (R := Shaped) ?_ fun s hs => ⟨hs.waiting, hs.inflight, hs.triggers⟩
  split
  · exact submit_holds (readyCall_keyArgs hkeys _ _)
      ⟨hs.waiting, hs.inflight, hs.triggers⟩
  · exact Logged.holds_pure ⟨hs.waiting, hs.inflight.set _ hkeys, hs.triggers⟩

theorem handleCall_holds {call : FunctionCall} (hnames : NamesObjects (.call now call))
    (h : Shaped s) : Logged.Holds PassedAsRead Shaped (handleCall env now call s) :=
  Logged.holds_foldlM (fun _ request hrequest hs =>
    callRequest_holds (hnames request hrequest) hs) ⟨h.waiting, h.inflight, h.triggers⟩

theorem resumeCall_holds {callId : UInt32} (h : Shaped s) :
    Logged.Holds PassedAsRead Shaped (resumeCall env now key s callId) := by
  unfold resumeCall
  simp only
  have hfound : 0 < (s.callIdInflightArgsMap.getD callId
        { funcName := [], sessionId := [], keyArgs := [], inflightArgs := ∅,
          argFlag := 0 }).argFlag →
      ∀ key ∈ (s.callIdInflightArgsMap.getD callId
        { funcName := [], sessionId := [], keyArgs := [], inflightArgs := ∅,
          argFlag := 0 }).keyArgs, IsObjectName key := by
    unfold Map.getD
    cases hcall : s.callIdInflightArgsMap callId with
    | none => exact fun hflag => absurd hflag (lt_irrefl 0)
    | some inflight => exact h.inflight callId inflight hcall
  split
  · refine Logged.Holds.map (R := Shaped) (submit_holds (readyCall_keyArgs ?_ _ _) h)
      fun s hs => ⟨hs.waiting, hs.inflight.erase _, hs.triggers⟩
    exact hfound
  · exact Logged.holds_pure ⟨h.waiting, h.inflight.set _ hfound, h.triggers⟩

theorem answerGets_kept (key size : Bytes) (s : SchedState) :
    (answerGets key size s).kept = s.kept := by
  rw [answerGets_eq]
  rfl

theorem dataResp_holds {size : UInt32} (h : Shaped s) :
    Logged.Holds PassedAsRead Shaped (dataResp env now key size s) := by
  have hs : Shaped (answerGets key [size.toUInt8] (s.receive key size)) :=
    h.of_kept (answerGets_kept ..)
  unfold dataResp
  simp only
  split
  · exact Logged.holds_pure hs
  · exact (Logged.holds_foldlM (Q := Shaped) (fun _ _ _ hs => resumeCall_holds hs) hs).map
      fun s hs => ⟨hs.waiting, hs.inflight, hs.triggers⟩

/-! ## Passes and updates -/

theorem retryDelayed_holds {clock : Nat → Stamp} (n : Nat) (h : Shaped s) :
    Logged.Holds PassedAsRead Shaped (retryDelayed env clock n s) := by
  induction n generalizing s with
  | zero => exact Logged.holds_pure h
  | succ n ih =>
    unfold retryDelayed
    split
    · exact Logged.holds_pure h
    next delayed rest hqueue =>
      have hcall := h.waiting delayed (hqueue ▸ List.mem_cons_self)
      exact (scheduleFuncCall_holds hcall h).bind fun s₁ hs₁ =>
        ih (hs₁.withQueue fun d hd => hs₁.waiting d (List.mem_of_mem_tail hd))

theorem forwardDelayed_holds {stamp : Stamp}
    (hqueue : ∀ delayed ∈ queue, KeyArgs delayed.call.argFlag delayed.call.funcArgs)
    (h : Shaped s) : Logged.Holds PassedAsRead Shaped (forwardDelayed env stamp queue s) := by
  induction queue generalizing s with
  | nil => exact Logged.holds_pure (h.withQueue hqueue)
  | cons delayed rest ih =>
    have hrest := fun d hd => hqueue d (List.mem_cons_of_mem _ hd)
    unfold forwardDelayed
    split
    · split
      · exact ih hrest h
      · refine (forwardFrom_holds (fun a ha => ?_) h).bind fun s₁ hs₁ => ih hrest hs₁
        rw [List.mem_singleton.mp ha]
        exact passedAsRead_of_ne (by decide) (hqueue delayed List.mem_cons_self)
    · exact Logged.holds_pure (h.withQueue hqueue)

theorem rerunItem_holds {item : RerunCheckQueueItem} (h : Shaped s) :
    Logged.Holds PassedAsRead Shaped (rerunItem env now item s) := by
  unfold rerunItem
  split
  · exact Logged.holds_pure h
  next trigger htrigger =>
    have hrecords := (h.triggers trigger (List.mem_of_getElem? htrigger)).2
    exact Logged.holds_foldlM (fun _ metadata hmem hs =>
      submit_holds (hrecords.actionForRerun item.session metadata hmem) hs) h

theorem rerunCheck_holds {reportEnd : Stamp} (fuel : Nat) (h : Shaped s) :
    Logged.Holds PassedAsRead Shaped (rerunCheck env now reportEnd fuel s) := by
  induction fuel generalizing s with
  | zero => exact Logged.holds_pure h
  | succ fuel ih =>
    unfold rerunCheck
    split
    · exact Logged.holds_pure h
    · split
      · refine (rerunItem_holds h).bind fun s₁ hs₁ => ih ?_
        split
        · exact hs₁
        · exact ⟨hs₁.waiting, hs₁.inflight, hs₁.triggers⟩
      · exact Logged.holds_pure h

theorem handleUpdate_shaped {msg : UpdateCoordMsg} (hs' : handleUpdate now msg s = some s')
    (h : Shaped s) : Shaped s' := by
  have hcalls : s'.delayCallQueue = s.delayCallQueue ∧
      s'.callIdInflightArgsMap = s.callIdInflightArgsMap :=
    handleUpdate_preserves (Q := fun s' => s'.delayCallQueue = s.delayCallQueue ∧
      s'.callIdInflightArgsMap = s.callIdInflightArgsMap) (fun _ _ _ _ _ _ _ _ hs => hs) hs'
      ⟨rfl, rfl⟩
  refine ⟨hcalls.1 ▸ h.waiting, hcalls.2 ▸ h.inflight, handleUpdate_triggers ?_ ?_ hs'
    h.triggers⟩
  · intro now type name primitive trigger option hints htrigger
    obtain ⟨state, hstate, rfl⟩ := Option.map_eq_some_iff.mp htrigger
    exact ⟨(TriggerState.keeps_new hstate).setRerunMetadata hints,
      (TriggerState.remembers_new hstate).setRerunMetadata hints⟩
  · exact fun session trigger htrigger => ⟨htrigger.1.clear session, htrigger.2.clear session⟩

theorem nodeStep_holds {e : NodeEvent} (hnames : NamesObjects e) (h : Shaped s) :
    Logged.Holds PassedAsRead Shaped (nodeStepLogged env s e) := by
  cases e with
  | executor now message => exact executorMessage_holds hnames h
  | call now msg => exact handleCall_holds hnames h
  | dataResp now key size => exact dataResp_holds h
  | kvsGetResp key size => exact Logged.holds_pure (h.of_kept (answerGets_kept ..))
  | kvsPutResp key =>
    refine Logged.holds_pure ?_
    rw [kvsPutResp_eq]
    exact ⟨h.waiting, h.inflight, h.triggers⟩
  | update now msg => exact holds_noForward fun s' hs' => handleUpdate_shaped hs' h
  | delayPass clock stamp =>
    exact (retryDelayed_holds _ h).bind fun s₁ hs₁ => forwardDelayed_holds hs₁.waiting hs₁
  | rerunCheck now reportEnd fuel => exact rerunCheck_holds fuel h

/-! ## Runs -/

/-- In every run of a scheduler whose messages name objects, a vector by key that is passed
to `forward_call_via_helper` consists of triples exactly if `schedule_func_call` passes it
or it is empty. -/
theorem forwarded_triples_iff {es : List NodeEvent} {e : NodeEvent} {ramSeed : UInt32}
    {executors : Nat} (hnames : ∀ e' ∈ es ++ [e], NamesObjects e')
    (hrun : run (nodeStep env) (SchedState.new ramSeed executors) es = some s)
    {forwarded : ForwardedArgs} (hmem : forwarded ∈ (nodeStepLogged env s e).log)
    (hflag : 0 < forwarded.argFlag) :
    (nodeStepLogged env s e).result = nodeStep env s e ∧
      (ObjectTriples forwarded.args ↔ forwarded.site = .schedule ∨ forwarded.args = []) := by
  have hshaped : Shaped s := by
    refine run_invariant (fun s e s' hs he hs' => ?_) (shaped_new ramSeed executors)
      (along_of_forall (fun e' he' => hnames e' (List.mem_append_left _ he')) _) hrun
    rw [← result_nodeStepLogged] at hs'
    exact (nodeStep_holds he hs).result s' hs'
  have hlast := hnames e (List.mem_append_right _ List.mem_cons_self)
  exact ⟨result_nodeStepLogged env s e,
    (nodeStep_holds hlast hshaped).log forwarded hmem hflag⟩

/-! An object of 2000 bytes that the function `f` puts into shared memory, and a call on
it. -/

def objectEvent : NodeEvent :=
  .executor 0 ([1, 2, 1, 2] ++
    Bytes.lit "0123456789abcdef|f||b|k0123456789abcdef|2000")

def callEvent : NodeEvent :=
  .call 0
    { appName := Bytes.lit "app"
      sessionId := Bytes.lit "0123456789abcdef"
      requests := [
        { name := Bytes.lit "g"
          arguments := [{ body := Bytes.lit "b|k0123456789abcdef", argFlag := 1 }] }] }

def announceEvent : NodeEvent :=
  .update 0 { appName := Bytes.lit "app", functions := [Bytes.lit "f", Bytes.lit "g"] }

def dependencyEvent : NodeEvent :=
  .update 0
    { appName := Bytes.lit "app"
      functions := [Bytes.lit "f", Bytes.lit "g"]
      dependencies := [
        { srcFunctions := [Bytes.lit "f"], tgtFunctions := [Bytes.lit "g"], type := .direct }] }

theorem namesObjects_objectEvent : NamesObjects objectEvent := by
  intro infos hparse
  have hexpected : SendInfos.parse (Bytes.lit "0123456789abcdef|f||b|k0123456789abcdef|2000") =
      some { sessionId := Bytes.lit "0123456789abcdef", srcFunction := Bytes.lit "f"
             tgtFunction := [], bucket := Bytes.lit "b"
             sessionKey := Bytes.lit "k0123456789abcdef", body := Bytes.lit "2000" } := by
    rfl
  cases hexpected.symm.trans hparse
  exact ⟨by decide, fun _ => ⟨2000, by decide⟩⟩

theorem namesObjects_callEvent : NamesObjects callEvent := by
  intro request hrequest _ arg harg
  rw [List.mem_singleton.mp hrequest] at harg
  rw [List.mem_singleton.mp harg]
  exact ⟨Bytes.lit "b", Bytes.lit "k0123456789abcdef", by decide, by decide, by decide,
    by decide⟩

theorem forwarded_triples_without_delay :
    ∃ s args, run (nodeStep { delayingEnv with schedDelayTime := 0 }) (SchedState.new 0 1)
        [announceEvent, objectEvent] = some s ∧
      (nodeStepLogged { delayingEnv with schedDelayTime := 0 } s callEvent).log =
        [{ site := .schedule, args, argFlag := 1 }] ∧ ObjectTriples args := by
  have hlog : (run (nodeStep { delayingEnv with schedDelayTime := 0 }) (SchedState.new 0 1)
      [announceEvent, objectEvent]).map
      (fun s => (nodeStepLogged { delayingEnv with schedDelayTime := 0 } s callEvent).log) =
        some [{ site := .schedule
                args := [Bytes.lit "b", Bytes.lit "k0123456789abcdef", Bytes.lit "2000"]
                argFlag := 1 }] := by
    decide +kernel
  obtain ⟨s, hs, hlog⟩ := Option.map_eq_some_iff.mp hlog
  have hnames : ∀ e ∈ [announceEvent, objectEvent] ++ [callEvent], NamesObjects e := by
    simp only [List.cons_append, List.nil_append, List.forall_mem_cons]
    exact ⟨trivial, namesObjects_objectEvent, namesObjects_callEvent, by simp⟩
  exact ⟨s, _, hs, hlog, (forwarded_triples_iff hnames hs (hlog ▸ List.mem_cons_self)
    (by decide)).2.mpr (Or.inl rfl)⟩

/-- A call on an object that waits in the delay queue, and one that the batch forwarding
of a direct invocation sends on, are forwarded with two arguments; the third is read past
the end. -/
theorem forwarded_pairs_read_past_end :
    (∃ s, run (nodeStep delayingEnv) (SchedState.new 0 1)
        [announceEvent, objectEvent, callEvent] = some s ∧
      (nodeStepLogged delayingEnv s (.delayPass (fun _ => 0) 501)).log =
        [{ site := .delay, args := [Bytes.lit "b|k0123456789abcdef", Bytes.lit "2000"]
           argFlag := 1 }] ∧
      nodeStep delayingEnv s (.delayPass (fun _ => 0) 501) = none) ∧
    (∃ s, run (nodeStep delayingEnv) (SchedState.new 0 1) [dependencyEvent] = some s ∧
      (nodeStepLogged delayingEnv s objectEvent).log =
        [{ site := .batch, args := [Bytes.lit "b|k0123456789abcdef", Bytes.lit "2000"]
           argFlag := 1 }] ∧
      nodeStep delayingEnv s objectEvent = none) ∧
    (∀ e ∈ [announceEvent, objectEvent, callEvent, dependencyEvent,
      .delayPass (fun _ => 0) 501], NamesObjects e) ∧
    ¬ ObjectTriples [Bytes.lit "b|k0123456789abcdef", Bytes.lit "2000"] := by
  have hdelay : (run (nodeStep delayingEnv) (SchedState.new 0 1)
      [announceEvent, objectEvent, callEvent]).map
      (fun s => ((nodeStepLogged delayingEnv s (.delayPass (fun _ => 0) 501)).log,
        (nodeStep delayingEnv s (.delayPass (fun _ => 0) 501)).isNone)) =
      some ([{ site := .delay
               args := [Bytes.lit "b|k0123456789abcdef", Bytes.lit "2000"]
               argFlag := 1 }], true) := by
    decide +kernel
  have hbatch : (run (nodeStep delayingEnv) (SchedState.new 0 1) [dependencyEvent]).map
      (fun s => ((nodeStepLogged delayingEnv s objectEvent).log,
        (nodeStep delayingEnv s objectEvent).isNone)) =
      some ([{ site := .batch
               args := [Bytes.lit "b|k0123456789abcdef", Bytes.lit "2000"]
               argFlag := 1 }], true) := by
    decide +kernel
  obtain ⟨s₁, hs₁, hdelay⟩ := Option.map_eq_some_iff.mp hdelay
  obtain ⟨s₂, hs₂, hbatch⟩ := Option.map_eq_some_iff.mp hbatch
  obtain ⟨hdelayLog, hdelayNone⟩ := Prod.mk.inj hdelay
  obtain ⟨hbatchLog, hbatchNone⟩ := Prod.mk.inj hbatch
  refine ⟨⟨s₁, hs₁, hdelayLog, Option.isNone_iff_eq_none.mp hdelayNone⟩,
    ⟨s₂, hs₂, hbatchLog, Option.isNone_iff_eq_none.mp hbatchNone⟩, ?_, ?_⟩
  · simp only [List.forall_mem_cons]
    exact ⟨trivial, namesObjects_objectEvent, namesObjects_callEvent, trivial, trivial, by simp⟩
  · rintro ⟨parts, hparts, _⟩
    cases hparts

end Pheromone.Scheduler
