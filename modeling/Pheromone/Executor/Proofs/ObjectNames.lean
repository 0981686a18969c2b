import Pheromone.Executor.Proofs.ObjectMessages
import Pheromone.Scheduler.Proofs.CallRuns
import Pheromone.Scheduler.Proofs.Notifications

/-!
# The parts of an object's name

An executor names an object `bucket|key session`, with the last two joined, and sends the
name as a part of a message whose fields end at the delimiters.  The name alone can be taken
apart again.  The scheduler does not look at the name: it splits the whole message, so that a
delimiter in the key ends the field early.
-/

namespace Pheromone.Executor

open Lib Common Scheduler

/-! ## Fields that were read -/

theorem plain_of_split_cons {field rest first second : Bytes} {fields : List Bytes}
    (hfield : kDelimiterChar ∉ field)
    (h : Bytes.split kDelimiterChar (Bytes.cstr (field ++ kDelimiter ++ rest)) =
      first :: second :: fields) : Plain field := by
  refine ⟨hfield, fun hzero => ?_⟩
  -- the string ends inside the field, and what is left of it is at most one field
  have hnot : kDelimiterChar ∉ Bytes.cstr field := fun hmem =>
    hfield ((List.takeWhile_prefix _).subset hmem)
  rw [List.append_assoc, cstr_append_of_mem _ hzero, Bytes.split,
    Bytes.splitFrom_of_not_mem kDelimiterChar [] _ hnot] at h
  split at h
  · cases h
  · cases h

theorem split_field_of_cons {field rest first second : Bytes} {fields : List Bytes}
    (hfield : kDelimiterChar ∉ field)
    (h : Bytes.split kDelimiterChar (Bytes.cstr (field ++ kDelimiter ++ rest)) =
      first :: second :: fields) :
    first = field ∧ Bytes.split kDelimiterChar (Bytes.cstr rest) = second :: fields := by
  rw [split_field rest (plain_of_split_cons hfield h)] at h
  obtain ⟨hfirst, hrest⟩ := List.cons.inj h
  exact ⟨hfirst.symm, hrest⟩

/-! ## The objects of a function -/

def namedObject (lib : UserLibrary) (bucket : Bucket) (key : Key) : BucketKey :=
  { bucket, key, session := lib.sessionId }

structure MadeAs (lib : UserLibrary) (bucket : Bucket) (key : Key) (data : EpheObject) :
    Prop where
  name : data.objName = (namedObject lib bucket key).shmKeyName
  /-- Only an object for a target function names one. -/
  target : data.targetFunc = [] ∨ bucket = Bytes.lit "b_" ++ data.targetFunc

theorem createObject_madeAs (lib : UserLibrary) (bucket : Bucket) (key : Key) (value : Value) :
    MadeAs lib bucket key (lib.createObject bucket key value) :=
  ⟨rfl, Or.inl rfl⟩

theorem MadeAs.target_plain {lib : UserLibrary} {bucket : Bucket} {key : Key} {data : EpheObject}
    (h : MadeAs lib bucket key data) (hbucket : kDelimiterChar ∉ bucket) :
    kDelimiterChar ∉ data.targetFunc := by
  rcases h.target with htarget | htarget
  · rw [htarget]
    exact List.not_mem_nil
  · rw [htarget] at hbucket
    exact fun hmem => hbucket (List.mem_append_right _ hmem)

/-! ## What the scheduler rebuilds -/

section Rebuilt

variable {lib : UserLibrary} {bucket : Bucket} {key : Key} {data : EpheObject} {output : Bool}
  {rebuilt : BucketKey}

theorem sendObject_madeAs (hdata : MadeAs lib bucket key data) (output : Bool) :
    ∃ type reqId packing body, (lib.sendObject data output).2 =
      lib.chanId :: type :: reqId :: packing :: (lib.sessionId ++ kDelimiter ++
        (lib.function ++ kDelimiter ++ (data.targetFunc ++ kDelimiter ++ (bucket ++ kDelimiter ++
          (getKeySessionName key lib.sessionId ++ kDelimiter ++ body))))) := by
  obtain ⟨type, reqId, packing, body, -, hmessage⟩ := sendObject_message data output lib
  refine ⟨type, reqId, packing, body, ?_⟩
  rw [hmessage, hdata.name]
  simp [BucketKey.shmKeyName, getLocalObjectName, namedObject]

theorem rebuiltKey_sendObject (hlib : RunsCall lib) (hdata : MadeAs lib bucket key data)
    (hbucket : kDelimiterChar ∉ bucket)
    (h : rebuiltKey (lib.sendObject data output).2 = some rebuilt) :
    ∃ sessionKey, kDelimiterChar ∉ sessionKey ∧
      rebuilt = BucketKey.ofSessionKey bucket sessionKey ∧
      (kDelimiterChar ∉ key → sessionKey = getKeySessionName key lib.sessionId) := by
  obtain ⟨hsession, hfunction⟩ := hlib.plain
  obtain ⟨type, reqId, packing, body, hmessage⟩ := sendObject_madeAs hdata output
  rw [hmessage, rebuiltKey] at h
  obtain ⟨infos, hparse, rfl⟩ := Option.map_eq_some_iff.mp h
  refine ⟨infos.sessionKey, (parse_fields_plain hparse).2.1.1, ?_⟩
  unfold SendInfos.parse at hparse
  rw [split_field _ hsession, split_field _ hfunction] at hparse
  split at hparse
  next hsplit =>
    cases hparse
    simp only [List.cons.injEq] at hsplit
    obtain ⟨-, htail⟩ := split_field_of_cons (hdata.target_plain hbucket) hsplit.2.2
    obtain ⟨hname, hrest⟩ := split_field_of_cons hbucket htail
    refine ⟨by rw [hname], fun hkey => ?_⟩
    apply (split_field_of_cons _ hrest).1
    intro hmem
    rcases List.mem_append.mp hmem with hmem | hmem
    · exact hkey hmem
    · exact hsession.1 hmem
  · cases hparse

theorem rebuiltKey_eq_iff (hlib : RunsCall lib) (hdata : MadeAs lib bucket key data)
    (hnamed : (namedObject lib bucket key).Separable)
    (h : rebuiltKey (lib.sendObject data output).2 = some rebuilt) :
    rebuilt = namedObject lib bucket key ↔ kDelimiterChar ∉ key := by
  obtain ⟨sessionKey, hplain, rfl, hwhole⟩ := rebuiltKey_sendObject hlib hdata hnamed.bucket h
  constructor
  · intro hrebuilt hmem
    have hkey : (BucketKey.ofSessionKey bucket sessionKey).key = key :=
      congrArg BucketKey.key hrebuilt
    exact hplain (BucketKey.mem_of_mem_ofSessionKey (hkey ▸ hmem))
  · intro hkey
    rw [hwhole hkey]
    exact BucketKey.ofSessionKey_append bucket hnamed.key hnamed.session

theorem rebuiltKey_of_plain (hlib : RunsCall lib) (hdata : MadeAs lib bucket key data)
    (hnamed : (namedObject lib bucket key).Separable) (hbucket : Plain bucket) (hkey : Plain key)
    (hvalue : Carried data.value) :
    rebuiltKey (lib.sendObject data output).2 = some (namedObject lib bucket key) := by
  obtain ⟨hsession, hfunction⟩ := hlib.plain
  have htarget : Plain data.targetFunc := by
    refine ⟨hdata.target_plain hbucket.1, fun hzero => ?_⟩
    rcases hdata.target with htarget | htarget
    · rw [htarget] at hzero
      exact List.not_mem_nil hzero
    · rw [htarget] at hbucket
      exact hbucket.2 (List.mem_append_right _ hzero)
  have hread := (parse_object_isSome_iff hsession hfunction
    htarget hbucket hkey).mpr ((packBody_cstr_ne_nil_iff data.value).mpr hvalue)
  obtain ⟨infos, hparse⟩ := Option.isSome_iff_exists.mp hread
  have hrebuilt : rebuiltKey (lib.sendObject data output).2 =
      some infos.bucketKey := by
    rw [sendObject_eq, hdata.name]
    change (SendInfos.parse _).map _ = _
    rw [BucketKey.shmKeyName, namedObject, hparse, Option.map_some]
  rw [hrebuilt, (rebuiltKey_eq_iff hlib hdata hnamed hrebuilt).mpr hkey.1]

/-- Whatever a scheduler tells the coordinator when it handles the message is about the object
that the function named, as long as there is no delimiter in the key. -/
theorem named_object_notified (hlib : RunsCall lib) (hdata : MadeAs lib bucket key data)
    (hnamed : (namedObject lib bucket key).Separable) (hkey : kDelimiterChar ∉ key)
    {env : SchedEnv} {now : Stamp} {s s' : SchedState}
    (h : nodeStep env s (.executor now (lib.sendObject data output).2) = some s') :
    ∃ new, s'.notifications = s.notifications ++ new ∧ ∀ request ∈ new,
      request.addresses.map BucketKeyAddress.bucketKey = [namedObject lib bucket key] := by
  refine nodeStep_notes (Q := fun s' => ∃ new, s'.notifications = s.notifications ++ new ∧
    ∀ request ∈ new, request.addresses.map BucketKeyAddress.bucketKey =
      [namedObject lib bucket key]) ?_ ?_ h ⟨[], (List.append_nil _).symm, by simp⟩
  · rintro s₁ s₂ ⟨new, hnew, hobject⟩ hnotes
    exact ⟨new, (congrArg Prod.snd hnotes).trans hnew, hobject⟩
  · rintro rebuilt hrebuilt active respAddress payload s₁ ⟨new, hnew, hobject⟩
    have hread : rebuiltKey (lib.sendObject data output).2 = some rebuilt := hrebuilt
    rcases notifyPut_notes env rebuilt active respAddress payload s₁ with
      hsame | ⟨request, -, hrequest, hnotes⟩
    · exact ⟨new, (congrArg Prod.snd hsame).trans hnew, hobject⟩
    · refine ⟨new ++ [request], ?_, fun request' hrequest' => ?_⟩
      · rw [← List.append_assoc, ← hnew]
        exact congrArg Prod.snd hnotes
      · rcases List.mem_append.mp hrequest' with hold | hlast
        · exact hobject request' hold
        · rw [List.mem_singleton.mp hlast, hrequest,
            (rebuiltKey_eq_iff hlib hdata hnamed hread).mpr hkey]

end Rebuilt

/-- The name of an object determines its parts, for every bucket without a delimiter, every
key but the empty one and every session of 16 bytes, and they are found again in the name.
Where a scheduler reads the message about an object that a function of the session named, it
finds them just when there is no delimiter in the key; it reads the message if no NUL or empty
value cuts it short. -/
theorem object_parts_found_iff (bk : BucketKey) (h : bk.Separable) :
    getBucketKeyFromString bk.shmKeyName = bk ∧
      (∀ bk' : BucketKey, bk'.Separable → bk'.shmKeyName = bk.shmKeyName → bk' = bk) ∧
      ∀ lib : UserLibrary, RunsCall lib → lib.sessionId = bk.session →
        ∀ data, MadeAs lib bk.bucket bk.key data → ∀ output,
          (∀ rebuilt, rebuiltKey (lib.sendObject data output).2 = some rebuilt →
            (rebuilt = bk ↔ kDelimiterChar ∉ bk.key)) ∧
          (Plain bk.bucket → Plain bk.key → Carried data.value →
            rebuiltKey (lib.sendObject data output).2 = some bk) := by
  refine ⟨getBucketKeyFromString_shmKeyName h, fun _ h' hname => shmKeyName_inj h' h hname, ?_⟩
  intro lib hlib hsession data hdata output
  have hbk : namedObject lib bk.bucket bk.key = bk := by
    rw [namedObject, hsession]
  have hnamed : (namedObject lib bk.bucket bk.key).Separable := by
    rw [hbk]
    exact h
  constructor
  · intro rebuilt hrebuilt
    rw [← rebuiltKey_eq_iff hlib hdata hnamed hrebuilt, hbk]
  · intro hbucket hkey hvalue
    rw [rebuiltKey_of_plain hlib hdata hnamed hbucket hkey hvalue, hbk]

theorem sendingLib_runs : RunsCall sendingLib :=
  ⟨[1, 1, 2] ++ Bytes.lit "0123456789abcdef|f|", UserLibrary.new (Bytes.lit "10.0.0.2") 0,
    { sendingLib with persistFlag := 2 }, rfl, rfl, rfl⟩

theorem sendingLib_separable {key : Key} (hkey : key ≠ []) :
    (namedObject sendingLib (Bytes.lit "b") key).Separable := by
  have hbucket : kDelimiterChar ∉ Bytes.lit "b" := by decide
  have hsession : sendingLib.sessionId.length = 16 := by decide
  exact ⟨hbucket, hkey, hsession⟩

def namingMessage (key : Key) : Bytes :=
  (sendingLib.sendObject (sendingLib.createObject (Bytes.lit "b") key (Bytes.lit "v")) false).2

theorem object_parts_found_plain :
    rebuiltKey (namingMessage (Bytes.lit "k")) =
      some (namedObject sendingLib (Bytes.lit "b") (Bytes.lit "k")) :=
  ((object_parts_found_iff _ (sendingLib_separable (by decide))).2.2 sendingLib sendingLib_runs rfl
    _ (createObject_madeAs sendingLib (Bytes.lit "b") (Bytes.lit "k") (Bytes.lit "v")) false).2
    (by decide) (by decide) (by decide)

theorem named_object_notified_plain :
    ∃ s', nodeStep forwardingEnv
        { SchedState.new 0 1 with bucketCoordMap := Map.empty.set (Bytes.lit "b") ⟨[], 0⟩ }
        (.executor 0 (namingMessage (Bytes.lit "k"))) = some s' ∧
      s'.notifications.flatMap (fun request => request.addresses.map BucketKeyAddress.bucketKey) =
        [namedObject sendingLib (Bytes.lit "b") (Bytes.lit "k")] := by
  let s : SchedState :=
    { SchedState.new 0 1 with bucketCoordMap := Map.empty.set (Bytes.lit "b") ⟨[], 0⟩ }
  have hdefined : (nodeStep forwardingEnv s (.executor 0 (namingMessage (Bytes.lit "k"))) :
      Option SchedState).map (fun s' => s'.notifications.length) = some 1 := by
    decide
  obtain ⟨s', hs', hlength⟩ := Option.map_eq_some_iff.mp hdefined
  obtain ⟨new, hnew, hobject⟩ := named_object_notified sendingLib_runs
    (createObject_madeAs sendingLib (Bytes.lit "b") (Bytes.lit "k") (Bytes.lit "v"))
    (sendingLib_separable (by decide)) (by decide) hs'
  have hnew' : s'.notifications = new := hnew
  obtain ⟨request, hrequest⟩ := List.length_eq_one_iff.mp hlength
  refine ⟨s', hs', ?_⟩
  rw [hrequest, List.flatMap_singleton]
  exact hobject request (by rw [← hnew', hrequest]; exact List.mem_singleton_self _)

/-- A key with a delimiter in it: the scheduler takes the object for one without key and
session. -/
theorem delimiter_in_key_cuts_object :
    RunsCall sendingLib ∧ (namedObject sendingLib (Bytes.lit "b") (Bytes.lit "x|y")).Separable ∧
      rebuiltKey (namingMessage (Bytes.lit "x|y")) =
        some { bucket := Bytes.lit "b", key := [], session := [] } :=
  ⟨sendingLib_runs, sendingLib_separable (by decide), by decide⟩

end Pheromone.Executor
