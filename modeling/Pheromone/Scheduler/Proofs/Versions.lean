import Pheromone.Scheduler.Proofs.LocalFrames
import Pheromone.Scheduler.Proofs.TriggeredCalls

/-!
# Versions of an object

A scheduler remembers an object that was packed into a message in `key_val_map` and
`key_len_map`; a send by shared memory and a data response write the length only.  Runs
are taken with the contents of shared memory, which change between the events.
-/

namespace Pheromone.Scheduler

open Lib Common

/-- An event, with the shared memory as it is when the scheduler handles it. -/
structure MemoryEvent where
  event : NodeEvent
  readShm : Bytes → Nat → Bytes

variable {e : MemoryEvent} {key message : Bytes}

def memoryStep (env : SchedEnv) (s : SchedState) (e : MemoryEvent) : Option SchedState :=
  nodeStep { env with readShm := e.readShm } s e.event

def ephemeralSend (message : Bytes) : Option (Packing × SendInfos) :=
  match message with
  | _ :: type :: _ :: packingByte :: params =>
      if type = 2 then
        (SendInfos.parse params).map fun infos => (Packing.ofByte packingByte, infos)
      else none
  | _ => none

def storedLength (packing : Packing) (infos : SendInfos) : Option Nat :=
  match packing with
  | .packed => some infos.body.length
  | .sharedMemory => (Bytes.stoi infos.body).map fun size => (uint32OfInt size).toNat
  | .other => none

namespace MemoryEvent

def send (e : MemoryEvent) : Option (Packing × SendInfos) :=
  match e.event with
  | .executor _ message => ephemeralSend message
  | _ => none

/-- The version of the object `name` that an event sends, packed or by shared memory. -/
def sentValue (env : SchedEnv) (name : Bytes) (e : MemoryEvent) : Option Value :=
  e.send.bind fun send =>
    if send.2.objName = name ∧ send.1 ≠ .other then
      objectData { env with readShm := e.readShm } send.1 send.2
    else none

def packedValue (name : Bytes) (e : MemoryEvent) : Option Value :=
  e.send.bind fun send =>
    if send.2.objName = name ∧ send.1 = .packed then some send.2.body else none

def toldLength (name : Bytes) (e : MemoryEvent) : Option Nat :=
  match e.event with
  | .executor _ message =>
      (ephemeralSend message).bind fun send =>
        if send.2.objName = name then storedLength send.1 send.2 else none
  | .dataResp _ key size => if key = name then some size.toNat else none
  | .kvsGetResp key size =>
      if kvsKeyPrefix ++ kDelimiter ++ key = name then some size.toNat else none
  | _ => none

end MemoryEvent

/-! ## What leaves the objects alone -/

/-- The values are the same, and every length that was known. -/
structure SameObjects (s s' : SchedState) : Prop where
  values : s'.keyValMap = s.keyValMap
  lengths : ∀ key size, s.keyLenMap key = some size → s'.keyLenMap key = some size

namespace SameObjects

theorem of_eq {s s' : SchedState} (hvalues : s'.keyValMap = s.keyValMap)
    (hlengths : s'.keyLenMap = s.keyLenMap) : SameObjects s s' :=
  ⟨hvalues, fun key size h => by rw [hlengths, h]⟩

theorem refl (s : SchedState) : SameObjects s s := of_eq rfl rfl

theorem trans {s₁ s₂ s₃ : SchedState} (h₁ : SameObjects s₁ s₂) (h₂ : SameObjects s₂ s₃) :
    SameObjects s₁ s₃ :=
  ⟨h₂.values.trans h₁.values, fun key size h => h₂.lengths key size (h₁.lengths key size h)⟩

theorem of_frames {s s' : SchedState} (hrecords : s'.records = s.records)
    (hframe : CallFrame s s') : SameObjects s s' :=
  ⟨congrArg Records.keyValMap hrecords, hframe.keyLen⟩

end SameObjects

variable {env : SchedEnv} {now : Stamp} {s s' : SchedState}

theorem submit_sameObjects {callId : Option UInt32} {call : SchedCall}
    (h : submit env now callId call s = some s') : SameObjects s s' :=
  ⟨congrArg Records.keyValMap (submit_records h), (scheduleFuncCall_callFrame h).keyLen⟩

theorem handleCall_sameObjects {call : FunctionCall} (h : handleCall env now call s = some s') :
    SameObjects s s' :=
  handleCall_preserves (Q := SameObjects s)
    (fun _ _ _ _ _ _ _ hs => hs.trans (.of_eq rfl rfl))
    (fun _ _ _ hs => hs.trans (.of_eq rfl rfl))
    (fun _ _ _ _ h hs => hs.trans (submit_sameObjects h)) h (.refl s)

theorem resumeCall_sameObjects {callId : UInt32} (h : resumeCall env now key s callId = some s') :
    SameObjects s s' := by
  rcases resumeCall_cases h with ⟨call, s₁, hs₁, rfl⟩ | ⟨inflight, rfl⟩
  · exact (submit_sameObjects hs₁).trans (.of_eq rfl rfl)
  · exact .of_eq rfl rfl

theorem answerGets_sameObjects (key size : Bytes) (s : SchedState) :
    SameObjects s (answerGets key size s) := by
  rw [answerGets_eq]
  exact .of_eq rfl rfl

theorem kvsPutResp_sameObjects (key : Bytes) (s : SchedState) :
    SameObjects s (kvsPutResp key s) := by
  rw [kvsPutResp_eq]
  exact .of_eq rfl rfl

theorem handleUpdate_sameObjects {msg : UpdateCoordMsg} (h : handleUpdate now msg s = some s') :
    SameObjects s s' :=
  handleUpdate_preserves (Q := SameObjects s)
    (fun _ _ _ _ _ _ _ _ hs => hs.trans (.of_eq rfl rfl)) h (.refl s)

theorem dataResp_sameObjects {size : UInt32} (h : dataResp env now key size s = some s') :
    SameObjects { s with keyLenMap := s.keyLenMap.set key size.toNat } s' := by
  have hstored : SameObjects { s with keyLenMap := s.keyLenMap.set key size.toNat }
      (s.receive key size) := .of_eq rfl rfl
  refine dataResp_loop (fun _ _ _ hstep hs => hs.trans (resumeCall_sameObjects hstep))
    (fun _ _ hs => hs.trans (.of_eq rfl rfl)) h ?_
  exact hstored.trans (answerGets_sameObjects key [size.toUInt8] _)

theorem sendEphemeral_sameObjects {packing : Packing} {infos : SendInfos}
    (h : sendEphemeral env now packing infos s = some s') :
    ∃ s₁, storeObject packing infos s = some s₁ ∧ SameObjects s₁ s' := by
  obtain ⟨s₁, hstore, hrecords⟩ := sendEphemeral_records h
  obtain ⟨s₂, hstore', n, s₃, hframe, -, rfl⟩ := sendEphemeral_skipFrame h
  obtain rfl := Option.some.inj (hstore.symm.trans hstore')
  exact ⟨s₁, hstore, congrArg Records.keyValMap hrecords, hframe.keyLen⟩

theorem ephemeralSend_eq_some {send : Packing × SendInfos} (h : ephemeralSend message = some send) :
    ∃ address reqId packingByte params,
      message = address :: 2 :: reqId :: packingByte :: params ∧
        SendInfos.parse params = some send.2 ∧ Packing.ofByte packingByte = send.1 := by
  unfold ephemeralSend at h
  split at h
  · split at h
    next htype =>
      obtain ⟨infos, hparse, rfl⟩ := Option.map_eq_some_iff.mp h
      rw [htype]
      exact ⟨_, _, _, _, rfl, hparse, rfl⟩
    · cases h
  · cases h

theorem executorMessage_of_send {send : Packing × SendInfos}
    (hsend : ephemeralSend message = some send) :
    executorMessage env now message s = sendEphemeral env now send.1 send.2 s := by
  obtain ⟨address, reqId, packingByte, params, rfl, hparse, hpacking⟩ :=
    ephemeralSend_eq_some hsend
  simp only [executorMessage, hparse, ← hpacking]
  rfl

theorem executorMessage_sameObjects (hsend : ephemeralSend message = none)
    (h : executorMessage env now message s = some s') : SameObjects s s' := by
  refine executorMessage_preserves (Q := SameObjects s)
    (fun _ _ _ _ _ _ _ _ hs => hs.trans (.of_eq rfl rfl)) ?_ h (.refl s)
  intro address reqId packingByte params infos hmessage hparse _
  rw [hmessage] at hsend
  simp [ephemeralSend, hparse] at hsend

/-! ## What an event writes -/

/-- The maps after an event: `e` has the last word on the objects that it names. -/
structure Writes (e : MemoryEvent) (s s' : SchedState) : Prop where
  values : ∀ name, s'.keyValMap name = (e.packedValue name).or (s.keyValMap name)
  lengths : ∀ name size, (e.toldLength name).or (s.keyLenMap name) = some size →
    s'.keyLenMap name = some size

theorem Writes.of_sameObjects (hsend : e.send = none) (htold : ∀ name, e.toldLength name = none)
    (h : SameObjects s s') : Writes e s s' := by
  refine ⟨fun name => ?_, fun name size hsize => ?_⟩
  · rw [h.values, MemoryEvent.packedValue, hsend]
    rfl
  · rw [htold, Option.none_or] at hsize
    exact h.lengths name size hsize

theorem Writes.trans {s₁ : SchedState} (h : Writes e s s₁) (hsame : SameObjects s₁ s') :
    Writes e s s' := by
  refine ⟨fun name => ?_, fun name size hsize => ?_⟩
  · rw [hsame.values, h.values]
  · exact hsame.lengths name size (h.lengths name size hsize)

theorem Writes.latest_length (h : Writes e s s') {name : Bytes} {last : Option Nat}
    (hlast : ∀ size, last = some size → s.keyLenMap name = some size) {size : Nat}
    (hsize : (e.toldLength name).or last = some size) : s'.keyLenMap name = some size := by
  apply h.lengths
  cases htold : e.toldLength name with
  | none =>
    rw [htold, Option.none_or] at hsize
    exact hlast size hsize
  | some told =>
    rw [htold] at hsize
    exact hsize

theorem Writes.of_length {size : Nat} (hsend : e.send = none)
    (htold : ∀ name, e.toldLength name = if key = name then some size else none) :
    Writes e s { s with keyLenMap := s.keyLenMap.set key size } := by
  refine ⟨fun name => ?_, fun name size' hsize => ?_⟩
  · rw [MemoryEvent.packedValue, hsend]
    rfl
  · rw [htold] at hsize
    exact (Map.set_eq_or s.keyLenMap key name size).trans hsize

theorem MemoryEvent.toldLength_of_send {send : Packing × SendInfos} (h : e.send = some send)
    (name : Bytes) :
    e.toldLength name = if send.2.objName = name then storedLength send.1 send.2 else none := by
  unfold MemoryEvent.send at h
  unfold MemoryEvent.toldLength
  split at h
  next hevent => simp only [hevent, h, Option.bind_some]
  · cases h

theorem storeObject_writes {send : Packing × SendInfos} (hsend : e.send = some send)
    (h : storeObject send.1 send.2 s = some s') : Writes e s s' := by
  obtain ⟨packing, infos⟩ := send
  have htold := MemoryEvent.toldLength_of_send hsend
  have hpacked : ∀ name, e.packedValue name =
      if infos.objName = name ∧ packing = .packed then some infos.body else none := by
    intro name
    rw [MemoryEvent.packedValue, hsend]
    rfl
  cases packing with
  | packed =>
    cases h
    refine ⟨fun name => ?_, fun name size hsize => ?_⟩
    · rw [hpacked]
      simp only [and_true]
      exact Map.set_eq_or s.keyValMap infos.objName name infos.body
    · rw [htold] at hsize
      exact (Map.set_eq_or s.keyLenMap infos.objName name infos.body.length).trans hsize
  | sharedMemory =>
    obtain ⟨length, hlength, rfl⟩ := Option.map_eq_some_iff.mp h
    refine ⟨fun name => ?_, fun name size hsize => ?_⟩
    · rw [hpacked]
      simp
    · simp only [htold, storedLength, hlength, Option.map_some] at hsize
      exact (Map.set_eq_or s.keyLenMap infos.objName name _).trans hsize
  | other =>
    cases h
    refine ⟨fun name => ?_, fun name size hsize => ?_⟩
    · rw [hpacked]
      simp
    · simp only [htold, storedLength, ite_self, Option.none_or] at hsize
      exact hsize

theorem memoryStep_writes (h : memoryStep env s e = some s') : Writes e s s' := by
  obtain ⟨event, readShm⟩ := e
  unfold memoryStep at h
  cases event with
  | executor now message =>
    cases hsend : ephemeralSend message with
    | none =>
      have htold : ∀ name, MemoryEvent.toldLength name ⟨.executor now message, readShm⟩ =
          none := by
        intro name
        simp only [MemoryEvent.toldLength, hsend, Option.bind_none]
      exact .of_sameObjects hsend htold (executorMessage_sameObjects hsend h)
    | some send =>
      simp only [nodeStep, executorMessage_of_send hsend] at h
      obtain ⟨s₁, hstore, hsame⟩ := sendEphemeral_sameObjects h
      have hwrites : Writes ⟨.executor now message, readShm⟩ s s₁ :=
        storeObject_writes hsend hstore
      exact hwrites.trans hsame
  | call now msg => exact .of_sameObjects rfl (fun _ => rfl) (handleCall_sameObjects h)
  | dataResp now key size =>
    exact (Writes.of_length rfl fun _ => rfl).trans (dataResp_sameObjects h)
  | kvsGetResp key size =>
    cases h
    exact (Writes.of_length rfl fun _ => rfl).trans (answerGets_sameObjects _ _ _)
  | kvsPutResp key =>
    cases h
    exact .of_sameObjects rfl (fun _ => rfl) (kvsPutResp_sameObjects key s)
  | update now msg => exact .of_sameObjects rfl (fun _ => rfl) (handleUpdate_sameObjects h)
  | delayPass clock stamp =>
    exact .of_sameObjects rfl (fun _ => rfl)
      (.of_frames (delayPass_records h) (delayPass_callFrame h))
  | rerunCheck now reportEnd fuel =>
    exact .of_sameObjects rfl (fun _ => rfl)
      (.of_frames (rerunCheck_records h) (rerunCheck_callFrame fuel h))

/-! ## Runs -/

/-- `s` is the state after the events, or the one in which `check_object_arrival` finds the
object that the last of them sent. -/
inductive Visited (env : SchedEnv) (s₀ : SchedState) : List MemoryEvent → SchedState → Prop
  | handled {es : List MemoryEvent} {s : SchedState}
      (h : run (memoryStep env) s₀ es = some s) : Visited env s₀ es s
  | stored {es : List MemoryEvent} {e : MemoryEvent} {send : Packing × SendInfos}
      {s s' : SchedState} (h : run (memoryStep env) s₀ es = some s) (hsend : e.send = some send)
      (hstore : storeObject send.1 send.2 s = some s') : Visited env s₀ (es ++ [e]) s'

variable {s₀ : SchedState} {es : List MemoryEvent}

theorem run_keyValMap (hempty : s₀.keyValMap = Map.empty)
    (h : run (memoryStep env) s₀ es = some s) (name : Bytes) :
    s.keyValMap name = latest (MemoryEvent.packedValue name) es := by
  have hstep : ∀ last s e s', s.keyValMap name = last → memoryStep env s e = some s' →
      s'.keyValMap name = (e.packedValue name).or last := by
    intro last s e s' hlast hs'
    rw [(memoryStep_writes hs').values, hlast]
  refine @run_latest _ _ _ _ _ (fun last s => s.keyValMap name = last) hstep _ _ _ ?_ h
  rw [hempty]
  rfl

theorem run_keyLenMap (h : run (memoryStep env) s₀ es = some s) (name : Bytes) {size : Nat}
    (hsize : latest (MemoryEvent.toldLength name) es = some size) :
    s.keyLenMap name = some size := by
  have hstep : ∀ last s e s', (∀ size, last = some size → s.keyLenMap name = some size) →
      memoryStep env s e = some s' →
      ∀ size, (e.toldLength name).or last = some size → s'.keyLenMap name = some size :=
    fun _ _ _ _ hlast hs' _ hsize => (memoryStep_writes hs').latest_length hlast hsize
  exact @run_latest _ _ _ _ _ (fun last s => ∀ size, last = some size →
    s.keyLenMap name = some size) hstep _ _ _ (fun _ hnone => by cases hnone) h size hsize

theorem Visited.keyValMap (h : Visited env s₀ es s) (hempty : s₀.keyValMap = Map.empty)
    (name : Bytes) : s.keyValMap name = latest (MemoryEvent.packedValue name) es := by
  cases h with
  | handled h => exact run_keyValMap hempty h name
  | stored h hsend hstore =>
    rw [latest_concat, ← run_keyValMap hempty h name]
    exact (storeObject_writes hsend hstore).values name

theorem Visited.keyLenMap (h : Visited env s₀ es s) (name : Bytes) {size : Nat}
    (hsize : latest (MemoryEvent.toldLength name) es = some size) :
    s.keyLenMap name = some size := by
  cases h with
  | handled h => exact run_keyLenMap h name hsize
  | stored h hsend hstore =>
    rw [latest_concat] at hsize
    exact (storeObject_writes hsend hstore).latest_length
      (fun _ hlast => run_keyLenMap h name hlast) hsize

theorem MemoryEvent.toldLength_isSome {name : Bytes} (h : (e.packedValue name).isSome) :
    (e.toldLength name).isSome := by
  obtain ⟨value, hvalue⟩ := Option.isSome_iff_exists.mp h
  obtain ⟨send, hsend, hpacked⟩ := Option.bind_eq_some_iff.mp hvalue
  obtain ⟨⟨hname, hpacking⟩, -⟩ := Option.ite_none_right_eq_some.mp hpacked
  rw [MemoryEvent.toldLength_of_send hsend, if_pos hname, hpacking]
  rfl

/-- The values and lengths of the cache are those of the most recent sends. -/
def CacheLatest (env : SchedEnv) (es : List MemoryEvent) (s : SchedState) : Prop :=
  ∀ name value, s.keyValMap name = some value →
    s.keyLenMap name = some value.length ∧
      latest (MemoryEvent.sentValue env name) es = some value

/-- No value that was packed is followed by another version or another length of its
object. -/
def PackedLatest (env : SchedEnv) (es : List MemoryEvent) : Prop :=
  ∀ name value, latest (MemoryEvent.packedValue name) es = some value →
    latest (MemoryEvent.toldLength name) es = some value.length ∧
      latest (MemoryEvent.sentValue env name) es = some value

theorem Visited.cacheLatest_iff (h : Visited env s₀ es s) (hempty : s₀.keyValMap = Map.empty) :
    CacheLatest env es s ↔ PackedLatest env es := by
  have hlength : ∀ name value, latest (MemoryEvent.packedValue name) es = some value →
      s.keyLenMap name = latest (MemoryEvent.toldLength name) es := by
    intro name value hvalue
    have htold : (latest (MemoryEvent.toldLength name) es).isSome :=
      latest_isSome_of_imp (fun _ => MemoryEvent.toldLength_isSome) (by rw [hvalue]; rfl)
    obtain ⟨size, hsize⟩ := Option.isSome_iff_exists.mp htold
    rw [hsize, h.keyLenMap name hsize]
  constructor
  · intro hlatest name value hvalue
    obtain ⟨hlen, hsent⟩ := hlatest name value ((h.keyValMap hempty name).trans hvalue)
    exact ⟨(hlength name value hvalue).symm.trans hlen, hsent⟩
  · intro hlatest name value hvalue
    rw [h.keyValMap hempty] at hvalue
    obtain ⟨hlen, hsent⟩ := hlatest name value hvalue
    exact ⟨(hlength name value hvalue).trans hlen, hsent⟩

theorem Visited.passes_latest_iff (h : Visited env s₀ es s) (hempty : s₀.keyValMap = Map.empty)
    {bk : BucketKey} {t : Trigger} {before : List TriggerAction} {action : TriggerAction}
    {metadata : TriggerFunctionMetadata} (hfired : FiredLocally now bk s t before action metadata)
    (hcached : Cached s.keyValMap bk.bucket action) :
    (metadata.funcArgs.map some = (objectNames bk.bucket action).map fun name =>
        latest (MemoryEvent.sentValue env name) es) ↔
      ∀ name ∈ objectNames bk.bucket action,
        latest (MemoryEvent.packedValue name) es = latest (MemoryEvent.sentValue env name) es := by
  have hargs : metadata.funcArgs.map some = (objectNames bk.bucket action).map fun name =>
      latest (MemoryEvent.packedValue name) es := by
    rw [hfired.metadata_eq, actionMetadata, if_pos hcached, List.map_map]
    apply List.map_congr_left
    intro name hname
    obtain ⟨value, hvalue⟩ := Option.ne_none_iff_exists'.mp (hcached name hname)
    rw [Function.comp_apply, Map.getD_of_some [] hvalue, ← h.keyValMap hempty name, hvalue]
  rw [hargs, List.map_inj_left]

/-- The cache of a scheduler holds the most recent versions exactly if no packed value was
followed by another version or length of its object.  Functions that get values get the most
recent ones exactly if these were packed. -/
theorem cached_versions_iff (hempty : s₀.keyValMap = Map.empty) (h : Visited env s₀ es s) :
    (CacheLatest env es s ↔ PackedLatest env es) ∧
      ∀ now bk t before action metadata, FiredLocally now bk s t before action metadata →
        Cached s.keyValMap bk.bucket action →
        ((metadata.funcArgs.map some = (objectNames bk.bucket action).map fun name =>
            latest (MemoryEvent.sentValue env name) es) ↔
          ∀ name ∈ objectNames bk.bucket action,
            latest (MemoryEvent.packedValue name) es =
              latest (MemoryEvent.sentValue env name) es) :=
  ⟨h.cacheLatest_iff hempty, fun _ _ _ _ _ _ hfired hcached =>
    h.passes_latest_iff hempty hfired hcached⟩

/-! ### Two versions of an object -/

def versionEvent (packing : UInt8) (body content : Bytes) : MemoryEvent where
  event := .executor 0 (1 :: 2 :: 0 :: packing ::
    (Bytes.lit "0123456789abcdef|g||b|k0123456789abcdef|" ++ body))
  readShm _ _ := content

def versionName : Bytes := Bytes.lit "b|k0123456789abcdef"

def versionObject : BucketKey := ⟨Bytes.lit "b", Bytes.lit "k", Bytes.lit "0123456789abcdef"⟩

def versionAction : TriggerAction where
  function := Bytes.lit "f"
  sessionKeys := [(Bytes.lit "0123456789abcdef", Bytes.lit "k")]

def versionTrigger : Trigger where
  targetFunction := Bytes.lit "f"
  triggerName := Bytes.lit "t"
  triggerOption := 0
  state := .immediate ⟨Map.empty⟩

def versionNode : SchedState := { SchedState.new 0 0 with
  bucketTriggersMap := Shared.empty.push (Bytes.lit "b") versionTrigger }

def versionStored : SchedState := { versionNode with
  keyValMap := Map.empty.set versionName (Bytes.lit "v")
  keyLenMap := Map.empty.set versionName 1 }

def versions (second : MemoryEvent) : List MemoryEvent :=
  [versionEvent 1 (Bytes.lit "v") [], second]

theorem cached_versions_iff_packed :
    (∃ s, Visited delayingEnv versionNode (versions (versionEvent 1 (Bytes.lit "vw") [])) s ∧
      CacheLatest delayingEnv (versions (versionEvent 1 (Bytes.lit "vw") [])) s) ∧
    Visited delayingEnv versionNode [versionEvent 1 (Bytes.lit "v") []] versionStored ∧
    FiredLocally 0 versionObject versionStored versionTrigger [] versionAction
      ⟨Bytes.lit "f", [Bytes.lit "v"], 0⟩ ∧
    [some (Bytes.lit "v")] = (objectNames versionObject.bucket versionAction).map fun name =>
      latest (MemoryEvent.sentValue delayingEnv name) [versionEvent 1 (Bytes.lit "v") []] := by
  have hdefined : (run (memoryStep delayingEnv) versionNode
      (versions (versionEvent 1 (Bytes.lit "vw") []))).isSome := by decide +kernel
  obtain ⟨s, hrun⟩ := Option.isSome_iff_exists.mp hdefined
  have hpacked : ∀ name, latest (MemoryEvent.packedValue name)
      (versions (versionEvent 1 (Bytes.lit "vw") [])) =
        if versionName = name then some (Bytes.lit "vw") else none := by
    intro name
    have hfirst : MemoryEvent.packedValue name (versionEvent 1 (Bytes.lit "v") []) =
      if versionName = name ∧ Packing.packed = .packed then some (Bytes.lit "v") else none := rfl
    have hsecond : MemoryEvent.packedValue name (versionEvent 1 (Bytes.lit "vw") []) =
      if versionName = name ∧ Packing.packed = .packed then some (Bytes.lit "vw") else none := rfl
    simp only [latest, versions, List.reverse_cons, List.reverse_nil, List.nil_append,
      List.cons_append, List.findSome?_cons, List.findSome?_nil, hfirst, hsecond, and_true]
    by_cases hname : versionName = name
    · simp [hname]
    · simp [hname]
  have hstored : Visited delayingEnv versionNode [versionEvent 1 (Bytes.lit "v") []]
      versionStored := @Visited.stored _ _ [] _ _ _ _ rfl rfl rfl
  have hfired : FiredLocally 0 versionObject versionStored versionTrigger [] versionAction
      ⟨Bytes.lit "f", [Bytes.lit "v"], 0⟩ := ⟨[], [], [], rfl, rfl, rfl⟩
  have hcached : Cached versionStored.keyValMap versionObject.bucket versionAction := by
    intro name hname
    rw [List.mem_singleton.mp hname]
    decide
  refine ⟨⟨s, .handled hrun, (cached_versions_iff rfl (.handled hrun)).1.mpr ?_⟩, hstored, hfired,
    ((cached_versions_iff rfl hstored).2 _ _ _ _ _ _ hfired hcached).mpr (by decide +kernel)⟩
  intro name value hvalue
  rw [hpacked] at hvalue
  obtain ⟨rfl, hvalue⟩ := Option.ite_none_right_eq_some.mp hvalue
  cases hvalue
  exact ⟨by decide +kernel, by decide +kernel⟩

/-- A small version and then a larger one by shared memory: the second arrival of the object
starts the function with the first version. -/
theorem second_version_unseen :
    let second := versionEvent 2 (Bytes.lit "2") (Bytes.lit "xy")
    (run (memoryStep delayingEnv) versionNode (versions second)).map
        (fun s => (s.keyValMap versionName, s.keyLenMap versionName)) =
      some (some (Bytes.lit "v"), some 2) ∧
    (run (memoryStep delayingEnv) versionNode (versions second)).map
        (fun s => s.submitted.map SchedCall.funcArgs) =
      some [[Bytes.lit "v"], [Bytes.lit "v"]] ∧
    latest (MemoryEvent.sentValue delayingEnv versionName) (versions second) =
      some (Bytes.lit "xy") := by
  decide +kernel

end Pheromone.Scheduler
