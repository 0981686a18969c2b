import Pheromone.Executor.Proofs.Messages
import Pheromone.Scheduler.Proofs.CallFrames
import Pheromone.Scheduler.Proofs.ExecutorCalls
import Pheromone.Scheduler.Proofs.Told

/-!
# Responses to get requests

A scheduler answers a get request at once when it has the object, and otherwise when
the object arrives from another node or from the remote store.  Three places write
the size of the object into the response, one reads it.
-/

namespace Pheromone.Executor

open Lib Common Scheduler

variable {e : NodeEvent} {es : List NodeEvent} {executor : ExecutorId} {g : GetRequest}

variable {key message : Bytes}

/-! ## Reading the size -/

theorem readGetResponse_decimal_iff (reqId : UInt8) (size : Nat) :
    readGetResponse reqId ([3, reqId, 1] ++ Bytes.toDecimal size) = some (some size) ↔
      size < 2 ^ 31 := by
  have hread : readGetResponse reqId ([3, reqId, 1] ++ Bytes.toDecimal size) =
      (Bytes.stoi (Bytes.toDecimal size)).map fun size => some (sizeOfInt size) := by
    simp [readGetResponse, cstr_of_plain (plain_toDecimal size)]
  rw [hread, Bytes.stoi_toDecimal]
  by_cases hsize : size < 2 ^ 31
  · rw [if_pos hsize, Option.map_some, sizeOfInt_natCast hsize]
    exact iff_of_true rfl hsize
  · rw [if_neg hsize]
    exact iff_of_false (fun hnone => by cases hnone) hsize

theorem stoi_char (c : UInt8) :
    Bytes.stoi (Bytes.cstr [c]) =
      if 48 ≤ c.toNat ∧ c.toNat ≤ 57 then some ((c.toNat : Int) - 48) else none := by
  have hall : ∀ n : Fin 256, Bytes.stoi (Bytes.cstr [UInt8.ofNat n]) =
      if 48 ≤ n.val ∧ n.val ≤ 57 then some ((n.val : Int) - 48) else none := by
    decide +kernel
  have hc := hall ⟨c.toNat, c.toNat_lt⟩
  rwa [UInt8.ofNat_toNat] at hc

theorem readGetResponse_char_ne (reqId : UInt8) (size : UInt32) :
    readGetResponse reqId ([3, reqId, 1] ++ [size.toUInt8]) ≠ some (some size.toNat) := by
  have hread : readGetResponse reqId ([3, reqId, 1] ++ [size.toUInt8]) =
      (Bytes.stoi (Bytes.cstr [size.toUInt8])).map fun size => some (sizeOfInt size) := by
    simp [readGetResponse]
  have hchar : size.toUInt8.toNat = size.toNat % 256 := UInt32.toNat_toUInt8 size
  rw [hread, stoi_char]
  split
  next hdigit =>
    rw [Option.map_some]
    intro heq
    have hsize : sizeOfInt ((size.toUInt8.toNat : Int) - 48) = size.toNat :=
      Option.some.inj (Option.some.inj heq)
    unfold sizeOfInt at hsize
    omega
  · simp

/-! ## Requests that wait -/

structure GetRequest where
  executor : ExecutorId
  reqId : UInt8
  key : Bytes
  fromEpheStore : Bool

def getRequestOf : NodeEvent → Option GetRequest
  | .executor _ (address :: 1 :: store :: reqId :: len :: rest) =>
      some { executor := address - 1, reqId, key := rest.take len.toNat
             fromEpheStore := store == 1 }
  | _ => none

variable {env : SchedEnv} {now : Stamp} {s s' : SchedState}

theorem executorMessage_get (hg : getRequestOf (.executor now message) = some g) :
    executorMessage env now message s =
      getRequest env g.executor g.fromEpheStore g.reqId g.key s := by
  unfold getRequestOf at hg
  split at hg
  next heq =>
    cases heq
    cases hg
    rfl
  · cases hg

theorem getRequest_remoteGets {fromEpheStore : Bool} {reqId : UInt8}
    (h : getRequest env executor fromEpheStore reqId key s = some s') :
    s'.keyRemoteGetMap = s.keyRemoteGetMap ∨
      s'.keyRemoteGetMap = s.keyRemoteGetMap.set key
        (s.keyRemoteGetMap.getD key [] ++ [{ executorId := executor, reqId }]) :=
  (getRequest_records h).imp (congrArg Records.keyRemoteGetMap)
    (congrArg Records.keyRemoteGetMap)

theorem executorMessage_remoteGets (hnone : getRequestOf (.executor now message) = none)
    (h : executorMessage env now message s = some s') : s'.keyRemoteGetMap = s.keyRemoteGetMap := by
  rcases executorMessage_cases h with ⟨_, _, _, _, _, rfl, _⟩ | ⟨_, _, _, _, infos, _, _, h⟩ |
    ⟨_, _, _, _, infos, _, _, h⟩ | ⟨packing, infos, h⟩ | ⟨_, _, _, rfl⟩ |
    ⟨_, _, _, rfl⟩ | rfl
  · cases hnone
  · obtain ⟨s₁, hstore, hrecords⟩ := sendEphemeral_records h
    obtain ⟨m, values, rfl, _⟩ := storeObject_spec hstore
    exact congrArg Records.keyRemoteGetMap hrecords
  · obtain ⟨value, _, rfl⟩ := Option.map_eq_some_iff.mp h
    simp only
    split
    · rfl
    · exact congrArg Records.keyRemoteGetMap (ioThread_records env s)
  · obtain ⟨output, _, rfl⟩ := Option.map_eq_some_iff.mp h
    rfl
  · rfl
  · rfl
  · rfl

theorem nodeStep_remoteGets (hnone : getRequestOf e = none) (h : nodeStep env s e = some s')
    (key : Bytes) :
    s'.keyRemoteGetMap key = s.keyRemoteGetMap key ∨ s'.keyRemoteGetMap key = none := by
  have herase : ∀ key', s'.keyRemoteGetMap = s.keyRemoteGetMap.erase key' →
      s'.keyRemoteGetMap key = s.keyRemoteGetMap key ∨ s'.keyRemoteGetMap key = none := by
    intro key' heq
    rw [heq]
    by_cases hkey : key = key'
    · rw [hkey]
      exact Or.inr (Map.erase_self ..)
    · exact Or.inl (Map.erase_of_ne _ hkey)
  have hsame : s'.records = s.records → s'.keyRemoteGetMap key = s.keyRemoteGetMap key :=
    fun heq => congrFun (congrArg Records.keyRemoteGetMap heq) key
  cases e with
  | executor now message =>
    rw [executorMessage_remoteGets hnone h]
    exact Or.inl rfl
  | call now msg => exact Or.inl (hsame (handleCall_records h))
  | dataResp now key' size =>
    exact herase key' (congrArg Records.keyRemoteGetMap (dataResp_records h))
  | kvsGetResp key' size =>
    cases h
    exact herase _ (congrArg Records.keyRemoteGetMap (answerGets_records ..))
  | kvsPutResp key' =>
    cases h
    rw [kvsPutResp_eq]
    exact Or.inl rfl
  | update now msg =>
    exact Or.inl (congrFun (handleUpdate_preserves
      (Q := fun s' => s'.keyRemoteGetMap = s.keyRemoteGetMap)
      (fun _ _ _ _ _ _ _ _ hs => hs) h rfl) key)
  | delayPass clock stamp => exact Or.inl (hsame (delayPass_records h))
  | rerunCheck now reportEnd fuel => exact Or.inl (hsame (rerunCheck_records h))

def Asked (es : List NodeEvent) (s : SchedState) : Prop :=
  ∀ key, ∀ request ∈ s.keyRemoteGetMap.getD key [], ∃ e ∈ es, ∃ g, getRequestOf e = some g ∧
    g.executor = request.executorId ∧ g.reqId = request.reqId ∧ g.key = key

theorem Asked.step (hs : Asked es s) (h : nodeStep env s e = some s') : Asked (es ++ [e]) s' := by
  have hold : ∀ key, ∀ request ∈ s.keyRemoteGetMap.getD key [], ∃ e' ∈ es ++ [e], ∃ g,
      getRequestOf e' = some g ∧ g.executor = request.executorId ∧
        g.reqId = request.reqId ∧ g.key = key := by
    intro key request hrequest
    obtain ⟨e', he', hg⟩ := hs key request hrequest
    exact ⟨e', List.mem_append_left _ he', hg⟩
  intro key request hrequest
  cases hg : getRequestOf e with
  | none =>
    rcases nodeStep_remoteGets hg h key with hsame | hgone
    · unfold Map.getD at hrequest
      rw [hsame] at hrequest
      exact hold key request hrequest
    · unfold Map.getD at hrequest
      rw [hgone] at hrequest
      cases hrequest
  | some g =>
    cases e with
    | executor now message =>
      change executorMessage env now message s = some s' at h
      rw [executorMessage_get hg] at h
      rcases getRequest_remoteGets h with hsame | hnew
      · rw [hsame] at hrequest
        exact hold key request hrequest
      · rw [hnew, Map.getD_set] at hrequest
        split at hrequest
        next hkey =>
          rcases List.mem_append.mp hrequest with hrequest | hrequest
          · rw [hkey]
            exact hold g.key request hrequest
          · rw [List.mem_singleton.mp hrequest]
            exact ⟨_, List.mem_append_right _ List.mem_cons_self, g, hg, rfl, rfl, hkey.symm⟩
        · exact hold key request hrequest
    | _ => cases hg

/-! ## Responses -/

def AnswersOnly (key size : Bytes) (s : SchedState) (outs : List SchedOut) : Prop :=
  ∀ executor message, SchedOut.response executor message ∈ outs →
    ∃ request ∈ s.keyRemoteGetMap.getD key [],
      executor = request.executorId ∧ message = [3, request.reqId, 1] ++ size

theorem answerGets_answers (key size : Bytes) (s : SchedState) :
    (answerGets key size s).keyLenMap = s.keyLenMap ∧
      ∃ outs, (answerGets key size s).sent = s.sent ++ outs ∧ AnswersOnly key size s outs := by
  rw [answerGets_eq]
  refine ⟨rfl, _, rfl, fun executor message hmem => ?_⟩
  obtain ⟨request, hrequest, heq⟩ := List.mem_map.mp hmem
  cases heq
  exact ⟨request, hrequest, rfl, rfl⟩

theorem resumeCall_dispatched {callId : UInt32} (h : resumeCall env now key s callId = some s') :
    Dispatched s s' ∧ ∀ k n, s.keyLenMap k = some n → s'.keyLenMap k = some n := by
  rcases resumeCall_cases h with ⟨call, s₁, hs₁, rfl⟩ | ⟨inflight, rfl⟩
  · have hdispatched := submit_dispatched hs₁
    exact ⟨⟨hdispatched.told, hdispatched.triggers, hdispatched.sent⟩,
      (scheduleFuncCall_callFrame hs₁).keyLen⟩
  · exact ⟨⟨rfl, fun _ => rfl, [], by simp, by simp⟩, fun _ _ hn => hn⟩

theorem dataResp_answers {size : UInt32} (h : dataResp env now key size s = some s') :
    s'.keyLenMap key = some size.toNat ∧
      ∃ outs, s'.sent = s.sent ++ outs ∧ AnswersOnly key [size.toUInt8] s outs := by
  obtain ⟨hlen, outs, hsent, hanswers⟩ := answerGets_answers key [size.toUInt8] (s.receive key size)
  have hstart : (answerGets key [size.toUInt8] (s.receive key size)).keyLenMap key =
      some size.toNat := by
    rw [hlen]
    exact Map.set_self ..
  have houts : ∀ outs' : List SchedOut, (∀ out ∈ outs', out.IsDispatch) →
      AnswersOnly key [size.toUInt8] s (.dataArrived key :: (outs ++ outs')) := by
    intro outs' hdispatch executor message hmem
    rcases List.mem_cons.mp hmem with heq | hmem
    · cases heq
    · rcases List.mem_append.mp hmem with hmem | hmem
      · exact hanswers executor message hmem
      · exact (hdispatch _ hmem).elim
  obtain ⟨hdispatched, hkeep⟩ := dataResp_loop
    (Q := fun s' => Dispatched _ s' ∧ ∀ k n, SchedState.keyLenMap _ k = some n →
      s'.keyLenMap k = some n)
    (fun _ _ _ hstep hs => by
      obtain ⟨hdispatched, hkeep⟩ := resumeCall_dispatched hstep
      exact ⟨hs.1.trans hdispatched, fun k n hn => hkeep k n (hs.2 k n hn)⟩)
    (fun _ _ hs => ⟨⟨hs.1.told, hs.1.triggers, hs.1.sent⟩, hs.2⟩) h
    ⟨Dispatched.refl _, fun _ _ hn => hn⟩
  obtain ⟨outs', hsent', hdispatch⟩ := hdispatched.sent
  refine ⟨hkeep key _ hstart, .dataArrived key :: (outs ++ outs'), ?_, houts outs' hdispatch⟩
  rw [hsent', hsent]
  simp [SchedState.emit]

theorem kvsGetResp_answers (key : Bytes) (size : UInt32) (s : SchedState) :
    (kvsGetResp key size s).keyLenMap (kvsKeyPrefix ++ kDelimiter ++ key) = some size.toNat ∧
      ∃ outs, (kvsGetResp key size s).sent = s.sent ++ outs ∧
        AnswersOnly (kvsKeyPrefix ++ kDelimiter ++ key) (Bytes.toDecimal size.toNat) s outs := by
  obtain ⟨hlen, hsent⟩ := answerGets_answers (kvsKeyPrefix ++ kDelimiter ++ key)
    (Bytes.toDecimal size.toNat)
    { s with keyLenMap := s.keyLenMap.set (kvsKeyPrefix ++ kDelimiter ++ key) size.toNat }
  refine ⟨?_, hsent⟩
  unfold kvsGetResp
  rw [hlen]
  exact Map.set_self ..

theorem executorMessage_stored {size : Nat} (hg : getRequestOf (.executor now message) = some g)
    (hstore : g.fromEpheStore = true) (hsize : s.keyLenMap g.key = some size) :
    executorMessage env now message s =
      some (s.emit (.response g.executor ([3, g.reqId, 1] ++ Bytes.toDecimal size))) := by
  rw [executorMessage_get hg]
  simp [getRequest, hstore, hsize]

/-- The three ways in which the requests for an object are answered. -/
inductive Answers (s : SchedState) : NodeEvent → Bytes → Nat → Prop
  | stored {now : Stamp} {message : Bytes} {g : GetRequest} {size : Nat}
      (hg : getRequestOf (.executor now message) = some g) (hstore : g.fromEpheStore = true)
      (hsize : s.keyLenMap g.key = some size) : Answers s (.executor now message) g.key size
  | remote (now : Stamp) (key : Bytes) (size : UInt32) :
      Answers s (.dataResp now key size) key size.toNat
  | kvs (key : Bytes) (size : UInt32) :
      Answers s (.kvsGetResp key size) (kvsKeyPrefix ++ kDelimiter ++ key) size.toNat

def isDataResp : NodeEvent → Bool
  | .dataResp .. => true
  | _ => false

theorem AnswersOnly.answers {encoded : Bytes} {size : Nat} {outs : List SchedOut} {readable : Prop}
    (hasked : Asked es s) (honly : AnswersOnly key encoded s outs)
    (hread : ∀ reqId, readGetResponse reqId ([3, reqId, 1] ++ encoded) = some (some size) ↔
      readable) (hmem : SchedOut.response executor message ∈ outs) :
    ∃ e ∈ es, ∃ g, getRequestOf e = some g ∧ g.executor = executor ∧ g.key = key ∧
      message[1]? = some g.reqId ∧
      (readGetResponse g.reqId message = some (some size) ↔ readable) := by
  obtain ⟨request, hrequest, rfl, rfl⟩ := honly executor message hmem
  obtain ⟨e, he, g, hg, hexecutor, hid, hkey⟩ := hasked key request hrequest
  refine ⟨e, he, g, hg, hexecutor, hkey, ?_, ?_⟩
  · rw [hid]
    rfl
  · rw [hid]
    exact hread request.reqId

/-- The size of the object is recorded by the step that answers requests for it, each
response carries the id of a request of its executor for the object, and `get_object`
reads the size from it exactly if it is written in decimal and fits an `int`. -/
theorem get_response_carries_size_iff {s₀ : SchedState} {es : List NodeEvent} {e : NodeEvent}
    {key : Bytes} {size : Nat} (hs₀ : ∀ key, s₀.keyRemoteGetMap key = none)
    (hrun : run (nodeStep env) s₀ es = some s) (h : nodeStep env s e = some s')
    (hanswers : Answers s e key size) :
    s'.keyLenMap key = some size ∧ ∃ outs, s'.sent = s.sent ++ outs ∧
      ∀ executor message, SchedOut.response executor message ∈ outs →
        ∃ e' ∈ es ++ [e], ∃ g, getRequestOf e' = some g ∧ g.executor = executor ∧
          g.key = key ∧ message[1]? = some g.reqId ∧
          (readGetResponse g.reqId message = some (some size) ↔
            isDataResp e = false ∧ size < 2 ^ 31) := by
  have hasked : Asked es s := by
    refine @run_history _ _ _ Asked (fun _ _ _ _ hs h => hs.step h) _ _ _ ?_ hrun
    intro key request hrequest
    unfold Map.getD at hrequest
    rw [hs₀ key] at hrequest
    cases hrequest
  have hearlier : ∀ {encoded : Bytes} {outs : List SchedOut} {readable : Prop},
      AnswersOnly key encoded s outs →
      (∀ reqId, readGetResponse reqId ([3, reqId, 1] ++ encoded) = some (some size) ↔
        readable) →
      ∀ executor message, SchedOut.response executor message ∈ outs →
        ∃ e' ∈ es ++ [e], ∃ g, getRequestOf e' = some g ∧ g.executor = executor ∧
          g.key = key ∧ message[1]? = some g.reqId ∧
          (readGetResponse g.reqId message = some (some size) ↔ readable) := by
    intro encoded outs readable honly hread executor message hmem
    obtain ⟨e', he', hg⟩ := honly.answers hasked hread hmem
    exact ⟨e', List.mem_append_left _ he', hg⟩
  cases hanswers with
  | stored hg hstore hsize =>
      change executorMessage env _ _ s = some s' at h
      rw [executorMessage_stored hg hstore hsize] at h
      cases h
      refine ⟨hsize, _, rfl, fun executor message hmem => ?_⟩
      cases List.mem_singleton.mp hmem
      refine ⟨_, List.mem_append_right _ List.mem_cons_self, _, hg, rfl, rfl, rfl, ?_⟩
      rw [readGetResponse_decimal_iff]
      simp [isDataResp]
  | remote now key size =>
      obtain ⟨hlen, outs, hsent, honly⟩ := dataResp_answers h
      refine ⟨hlen, outs, hsent, hearlier honly fun reqId => ?_⟩
      exact ⟨fun heq => absurd heq (readGetResponse_char_ne reqId size), fun h => by cases h.1⟩
  | kvs key size =>
      cases h
      obtain ⟨hlen, outs, hsent, honly⟩ := kvsGetResp_answers key size s
      refine ⟨hlen, outs, hsent, hearlier honly fun reqId => ?_⟩
      rw [readGetResponse_decimal_iff]
      simp [isDataResp]

def getEvent (fromEpheStore : Bool) : NodeEvent :=
  .executor 0 ((UserLibrary.new (Bytes.lit "10.0.0.2") 0).getObject (Bytes.lit "b")
    (Bytes.lit "k") fromEpheStore).2

/-- The response to a request of executor 0 that was last sent. -/
def lastResponse (s : SchedState) : Option Bytes :=
  match s.sent.getLast? with
  | some (.response 0 message) => some message
  | _ => none

theorem mem_sent_of_lastResponse (h : lastResponse s = some message) :
    SchedOut.response 0 message ∈ s.sent := by
  unfold lastResponse at h
  split at h
  next hlast =>
    cases h
    exact List.mem_of_getLast? hlast
  · cases h

theorem get_response_carries_size_kvs :
    ∃ s, run (nodeStep ExecSystem.plainEnv) (SchedState.new 0 1) [getEvent false] = some s ∧
      lastResponse (kvsGetResp (Bytes.lit "k") 1234 s) = some [3, 1, 1, 49, 50, 51, 52] ∧
      ∃ outs, (kvsGetResp (Bytes.lit "k") 1234 s).sent = s.sent ++ outs ∧
        ∀ executor message, SchedOut.response executor message ∈ outs →
          ∃ g, getRequestOf (getEvent false) = some g ∧ g.executor = executor ∧
            readGetResponse g.reqId message = some (some 1234) := by
  have hlast : (run (nodeStep ExecSystem.plainEnv) (SchedState.new 0 1) [getEvent false]).map
      (fun s => lastResponse (kvsGetResp (Bytes.lit "k") 1234 s)) =
        some (some [3, 1, 1, 49, 50, 51, 52]) := by
    decide +kernel
  obtain ⟨s, hs, hlast⟩ := Option.map_eq_some_iff.mp hlast
  obtain ⟨-, outs, hsent, hread⟩ := get_response_carries_size_iff (fun _ => rfl) hs rfl
    (Answers.kvs (Bytes.lit "k") 1234)
  refine ⟨s, hs, hlast, outs, hsent, fun executor message hmem => ?_⟩
  obtain ⟨e, he, g, hg, hexecutor, -, -, hiff⟩ := hread executor message hmem
  rcases List.mem_pair.mp he with rfl | rfl
  · exact ⟨g, hg, hexecutor, hiff.mpr (by decide)⟩
  · cases hg

/-- The answer to a request for an object of 53 bytes that another node sends is read
as 5 bytes. -/
theorem get_response_reads_other_size :
    ∃ s s', run (nodeStep ExecSystem.plainEnv) (SchedState.new 0 1) [getEvent true] = some s ∧
      nodeStep ExecSystem.plainEnv s
        (.dataResp 0 (getLocalObjectName (Bytes.lit "b") (Bytes.lit "k") []) 53) = some s' ∧
      s'.keyLenMap (getLocalObjectName (Bytes.lit "b") (Bytes.lit "k") []) = some 53 ∧
      SchedOut.response 0 [3, 1, 1, 53] ∈ s'.sent ∧
      readGetResponse 1 [3, 1, 1, 53] = some (some 5) := by
  have hlast : (run (nodeStep ExecSystem.plainEnv) (SchedState.new 0 1)
      [getEvent true, .dataResp 0 (getLocalObjectName (Bytes.lit "b") (Bytes.lit "k") []) 53]).map
      (fun s => (s.keyLenMap (getLocalObjectName (Bytes.lit "b") (Bytes.lit "k") []),
        lastResponse s)) = some (some 53, some [3, 1, 1, 53]) := by
    decide +kernel
  obtain ⟨s', hrun, hlast⟩ := Option.map_eq_some_iff.mp hlast
  obtain ⟨s, hs, hrun⟩ := run_cons_eq_some.mp hrun
  obtain ⟨s₁, hs₁, hrun⟩ := run_cons_eq_some.mp hrun
  cases hrun
  exact ⟨s, s', run_cons_eq_some.mpr ⟨s, hs, rfl⟩, hs₁, congrArg Prod.fst hlast,
    mem_sent_of_lastResponse (congrArg Prod.snd hlast), by decide +kernel⟩

end Pheromone.Executor
