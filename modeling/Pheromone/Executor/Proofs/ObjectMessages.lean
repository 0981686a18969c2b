import Pheromone.Executor.Proofs.Messages
import Pheromone.Scheduler.Proofs.CallFrames
import Pheromone.Scheduler.Proofs.Records

/-!
# Packed objects

A small object travels in the message that announces it.  `send_object` appends its
bytes to the other fields; the scheduler reads the message as a C string, splits it
at every `'|'` and takes the sixth field.
-/

namespace Pheromone.Executor

open Lib Common Scheduler

/-! ## The handler -/

def storedBy (message : Bytes) (s : SchedState) : Option SchedState :=
  match message with
  | _ :: 2 :: _ :: packing :: params =>
      (SendInfos.parse params).bind fun infos => storeObject (Packing.ofByte packing) infos s
  | _ => none

def Stores (name : Bytes) (value : Value) (s : SchedState) : Prop :=
  s.keyValMap name = some value ∧ s.keyLenMap name = some value.length

theorem Stores.of_skipFrame {name : Bytes} {value : Value} {s s' : SchedState}
    (h : Stores name value s) (hrecords : s'.records = s.records) (hframe : SkipFrame s s') :
    Stores name value s' := by
  obtain ⟨n, s₁, hcalls, -, rfl⟩ := hframe
  refine ⟨?_, hcalls.keyLen _ _ h.2⟩
  have hvalues : s₁.keyValMap = s.keyValMap := congrArg Records.keyValMap hrecords
  exact (congrFun hvalues name).trans h.1

theorem executorMessage_stores {env : SchedEnv} {now : Stamp} {address reqId packing : UInt8}
    {params name : Bytes} {value : Value} {s s₁ s' : SchedState}
    (hstored : storedBy (address :: 2 :: reqId :: packing :: params) s = some s₁)
    (h : executorMessage env now (address :: 2 :: reqId :: packing :: params) s = some s')
    (hs₁ : Stores name value s₁) : Stores name value s' := by
  obtain ⟨infos, hparse, hstore⟩ := Option.bind_eq_some_iff.mp hstored
  have hsend : sendEphemeral env now (Packing.ofByte packing) infos s = some s' := by
    unfold executorMessage at h
    simpa [hparse] using h
  obtain ⟨s₂, hstore₂, hrecords⟩ := sendEphemeral_records hsend
  obtain ⟨s₃, hstore₃, hframe⟩ := sendEphemeral_skipFrame hsend
  cases hstore.symm.trans hstore₂
  cases hstore.symm.trans hstore₃
  exact hs₁.of_skipFrame hrecords hframe

/-! ## The round trip -/

section RoundTrip

variable {session : Session} {function target : Name} {bucket : Bucket} {key : Key} {value : Value}

theorem parse_objectParams (hsession : Plain session) (hfunction : Plain function)
    (htarget : Plain target) (hbucket : Plain bucket) (hkey : Plain key) (hvalue : Plain value)
    (hne : value ≠ []) :
    ∃ infos, SendInfos.parse (objectParams session function target bucket key value) = some infos ∧
      infos.objName = getLocalObjectName bucket key session ∧ infos.body = value := by
  unfold SendInfos.parse
  rw [split_object hsession hfunction htarget hbucket hkey, cstr_of_plain hvalue,
    Bytes.split_of_not_mem kDelimiterChar hvalue.1 hne]
  refine ⟨_, rfl, ?_, rfl⟩
  unfold SendInfos.objName getLocalObjectName
  rfl

theorem plain_of_parse (hbucket : Plain bucket) {infos : SendInfos} {params : Bytes}
    (h : SendInfos.parse params = some infos)
    (hname : infos.objName = getLocalObjectName bucket key session)
    (hbody : infos.body = value) : Plain session ∧ Plain value := by
  obtain ⟨hbucket', hsessionKey, hplain⟩ := parse_fields_plain h
  refine ⟨?_, hbody ▸ hplain⟩
  have heq : infos.bucket ++ kDelimiterChar :: infos.sessionKey =
      bucket ++ kDelimiterChar :: (key ++ session) := by
    unfold SendInfos.objName getLocalObjectName getKeySessionName kDelimiter at hname
    simpa using hname
  obtain ⟨-, hkey⟩ := Bytes.append_delim_inj hbucket'.1 hbucket.1 heq
  rw [hkey] at hsessionKey
  exact ⟨fun hmem => hsessionKey.1 (List.mem_append_right _ hmem),
    fun hmem => hsessionKey.2 (List.mem_append_right _ hmem)⟩

theorem sendObject_packed (lib : UserLibrary) (target : Name) (bucket : Bucket) (key : Key)
    (hsmall : value.length ≤ msgDataPackingThreshold) :
    (lib.sendObject { objName := getLocalObjectName bucket key lib.sessionId, value
                      targetFunc := target } false).2 =
      lib.chanId :: 2 :: lib.getRequestId.rid :: 1 ::
        objectParams lib.sessionId lib.function target bucket key value := by
  rw [sendObject_eq]
  unfold UserLibrary.packBody objectParams
  simp [hsmall]

end RoundTrip

/-- The scheduler accepts a message, and has the object from then on. -/
def Received (message name : Bytes) (value : Value) (s : SchedState) : Prop :=
  (∃ s₁, storedBy message s = some s₁ ∧ Stores name value s₁) ∧
    ∀ env now s', executorMessage env now message s = some s' → Stores name value s'

/-- A packed object arrives unchanged, whatever the state of the scheduler, exactly
when it is not empty and neither its value nor the session has a delimiter or a NUL
in it. -/
theorem packed_object_received_iff (lib : UserLibrary) {target : Name} {bucket : Bucket}
    {key : Key} {value : Value} (hfunction : Plain lib.function) (htarget : Plain target)
    (hbucket : Plain bucket) (hkey : Plain key)
    (hsmall : value.length ≤ msgDataPackingThreshold) :
    (∀ s, Received (lib.sendObject { objName := getLocalObjectName bucket key lib.sessionId
                                     value, targetFunc := target } false).2
        (getLocalObjectName bucket key lib.sessionId) value s) ↔
      Plain lib.sessionId ∧ Plain value ∧ value ≠ [] := by
  rw [sendObject_packed lib target bucket key hsmall]
  constructor
  · intro hreceived
    -- a scheduler without objects has the value only if the message brought it
    obtain ⟨⟨s₁, hstored, hvalue, -⟩, -⟩ := hreceived (SchedState.new 0 0)
    obtain ⟨infos, hparse, hstore⟩ := Option.bind_eq_some_iff.mp hstored
    cases hstore
    change Map.set Map.empty infos.objName infos.body _ = some value at hvalue
    rw [Map.set_apply] at hvalue
    split at hvalue
    next hname =>
      obtain ⟨hsession, hplain⟩ := plain_of_parse hbucket hparse hname.symm
        (Option.some.inj hvalue)
      refine ⟨hsession, hplain, ?_⟩
      have hcarried := (parse_object_isSome_iff hsession hfunction htarget hbucket
        hkey).mp (Option.isSome_of_mem hparse)
      exact ((cstr_ne_nil_iff value).mp hcarried).1
    · cases hvalue
  · rintro ⟨hsession, hplain, hne⟩ s
    obtain ⟨infos, hparse, hname, hbody⟩ :=
      parse_objectParams hsession hfunction htarget hbucket hkey hplain hne
    have hstored : storedBy (lib.chanId :: 2 :: lib.getRequestId.rid :: 1 ::
        objectParams lib.sessionId lib.function target bucket key value) s =
        storeObject .packed infos s := by
      simp only [storedBy, hparse, Option.bind_some]
      rfl
    have hstores : ∀ s₁, storeObject .packed infos s = some s₁ →
        Stores (getLocalObjectName bucket key lib.sessionId) value s₁ := by
      rintro s₁ ⟨⟩
      rw [← hname, ← hbody]
      exact ⟨Map.set_self .., Map.set_self ..⟩
    exact ⟨⟨_, hstored, hstores _ rfl⟩,
      fun env now s' h => executorMessage_stores hstored h (hstores _ rfl)⟩

def sendingLib : UserLibrary :=
  { UserLibrary.new (Bytes.lit "10.0.0.2") 0 with
    function := Bytes.lit "f", sessionId := Bytes.lit "0123456789abcdef" }

def sentObject (value : Value) : EpheObject where
  objName := getLocalObjectName (Bytes.lit "b") (Bytes.lit "k") sendingLib.sessionId
  value := value
  targetFunc := Bytes.lit "t"

theorem packed_object_received_plain :
    Received (sendingLib.sendObject (sentObject (Bytes.lit "hello")) false).2
      (sentObject (Bytes.lit "hello")).objName (Bytes.lit "hello") (SchedState.new 0 1) :=
  (@packed_object_received_iff sendingLib (Bytes.lit "t") (Bytes.lit "b") (Bytes.lit "k")
    (Bytes.lit "hello") (by decide) (by decide) (by decide) (by decide) (by decide)).mpr
    (by decide) _

theorem not_received_of_stored {message name : Bytes} {value : Value} {s : SchedState}
    (stored : Value)
    (h : (storedBy message s).map (fun s₁ => s₁.keyValMap name) = some (some stored))
    (hne : stored ≠ value) : ¬ Received message name value s := by
  rintro ⟨⟨s₁, hs₁, hvalue, -⟩, -⟩
  rw [hs₁, Option.map_some, hvalue, Option.some.injEq, Option.some.injEq] at h
  exact hne h.symm

/-- An empty object is not accepted, and of a value with a delimiter or a NUL in it
only the first part is stored. -/
theorem packed_objects_cut_short :
    storedBy (sendingLib.sendObject (sentObject []) false).2 (SchedState.new 0 1) = none ∧
      ¬ Received (sendingLib.sendObject (sentObject (Bytes.lit "ab|cd")) false).2
        (sentObject (Bytes.lit "ab|cd")).objName (Bytes.lit "ab|cd") (SchedState.new 0 1) ∧
      ¬ Received (sendingLib.sendObject (sentObject [97, 0, 98]) false).2
        (sentObject [97, 0, 98]).objName [97, 0, 98] (SchedState.new 0 1) := by
  refine ⟨by rfl, ?_, ?_⟩
  · exact not_received_of_stored (Bytes.lit "ab") (by decide) (by decide)
  · exact not_received_of_stored [97] (by decide) (by decide)

end Pheromone.Executor
