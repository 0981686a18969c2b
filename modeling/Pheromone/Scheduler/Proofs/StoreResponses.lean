import Pheromone.Scheduler.Proofs.StoreRequests

/-!
# Responses of the remote store

What becomes of the requests that executors make to the remote store.  A response that
is dropped leaves the requests that wait for it with nothing to wait for: the timeout of
a put and the answer that a key does not exist.  So does a response that is looked up
under another name than the request was recorded under.  A value is copied to a segment of
shared memory, which has to have a name that the system takes.
-/

namespace Pheromone.Scheduler

open Lib Common

variable {executor : ExecutorId} {get : StoreGet} {i : Nat} {reqId : UInt8}

variable {e : NodeEvent} {key : Bytes}

variable {env : SchedEnv} {s s' : SchedState} {n n' : StoreNode}
variable {put : StorePut} {thread : Nat} {response : KeyResponse} {type : RequestType}

/-! ## What is asked -/

/-- A request of this kind is open at the store, or its response is on its way to the
main loop. -/
def StoreNode.Pursues (n : StoreNode) (type : RequestType) (key : Bytes) : Prop :=
  (∃ r ∈ n.issued, r.type = type ∧ r.key = key) ∨ ∃ e ∈ n.inbox, responseTo e = some (type, key)

/-- No request of an executor is recorded with nothing to wait for. -/
def StoreNode.Served (n : StoreNode) : Prop := ∀ w ∈ n.waiting, n.Pursues w.type w.key

/-- A request to the store is taken.  A response is used for every request that it
concerns: first it is issued again or passed on to the main loop, and there it is answered
with its own id and forgotten. -/
def StoreNode.Handles (env : SchedEnv) (n : StoreNode) : StoreEvent → Prop
  | .message e => (storeGetOf e).isSome ∨ (storePutOf e).isSome → (nodeStep env n.node e).isSome
  | .respond thread _ response => ∃ result, getKvsResponse thread response = some result ∧
      ∀ w ∈ n.waiting, w.type = response.type → w.key = response.key →
        (∃ r ∈ result.1, r.type = w.type ∧ r.key = w.key) ∨
          ∃ e ∈ result.2, responseTo e = some (w.type, w.key)
  | .process i =>
      ∀ e n', n.inbox[i]? = some e → storeStep env n (.process i) = some n' →
        ∀ w ∈ n.waiting, responseTo e = some (w.type, w.key) →
          w ∉ n'.waiting ∧ ∃ text, SchedOut.response w.request.executorId
            ([3, w.request.reqId, 1] ++ text) ∈ n.node.sentSince n'.node

/-- The event answers the requests that it concerns and leaves none unserved. -/
def StoreNode.Answers (env : SchedEnv) (n : StoreNode) (e : StoreEvent) : Prop :=
  n.Handles env e ∧ ∀ n', storeStep env n e = some n' → n'.Served

/-! ## What the code needs -/

/-- The responses that `get_kvs_responses` does nothing with. -/
def KeyResponse.Dropped (response : KeyResponse) : Prop :=
  (response.error = .timeout ∧ response.type = .put) ∨
    (response.error ≠ .timeout ∧ response.type = .get ∧ response.tupleError = .keyDne)

def KeyResponse.Copied (response : KeyResponse) : Prop :=
  response.error ≠ .timeout ∧ response.type = .get ∧ response.tupleError ≠ .keyDne

/-- The entry in which the main loop looks for the requests that a response answers. -/
def entryName : RequestType → Bytes → Bytes
  | .get, key => kvsObjectName key
  | .put, key => key

/-- A put that the scheduler can take: not packed, with a decimal size. -/
def StorePut.Taken (put : StorePut) : Prop :=
  put.packing ≠ .packed ∧ (put.packing = .sharedMemory → (Bytes.stoi put.infos.body).isSome)

/-- The name of a get has a part behind the delimiter, a put can be taken, and one of unknown
packing finds another put of its key.  A value has a key of which a segment can be made.  A
response is dropped only when nobody waits for it, and is looked up where the requests were
recorded. -/
def StoreNode.Fits (n : StoreNode) : StoreEvent → Prop
  | .message e =>
      (∀ get, storeGetOf e = some get → 1 < (Bytes.split kDelimiterChar get.name).length) ∧
        ∀ put, storePutOf e = some put → put.Taken ∧
          (put.packing = .other → n.Pursues .put put.infos.sessionKey)
  | .respond _ _ response =>
      (response.Copied → CanAcquire (kvsObjectName response.key)) ∧ (response.Dropped →
        ∀ w ∈ n.waiting, w.type = response.type → w.key ≠ response.key)
  | .process i => ∀ e, n.inbox[i]? = some e → ∀ w ∈ n.waiting,
      responseTo e = some (w.type, w.key) → w.name = entryName w.type w.key

/-! ## Recording a request -/

theorem sendToStore_sent {packing : Packing} {infos : SendInfos}
    (h : sendToStore env executor reqId packing infos s = some s') :
    (packing = .other → s'.sent = s.sent) ∧
      (packing ≠ .other → ∃ value thread,
        s'.sent = s.sent ++ [.putKvs infos.sessionKey value thread]) := by
  obtain ⟨id, hid⟩ := ioThread_state env s
  obtain ⟨value, _, rfl⟩ := Option.map_eq_some_iff.mp h
  constructor
  · intro hother
    simp only [hother, if_true]
  · intro hother
    simp only [if_neg hother, hid]
    exact ⟨value, _, rfl⟩

theorem nodeStep_get (hget : storeGetOf e = some get) :
    nodeStep env s e =
      getRequest env get.request.executorId false get.request.reqId get.name s := by
  unfold storeGetOf at hget
  split at hget
  next now address store reqId len rest =>
    split at hget
    · cases hget
    next hstore =>
      cases hget
      have hmessage : nodeStep env s
          (.executor now (address :: 1 :: store :: reqId :: len :: rest)) =
            getRequest env (address - 1) (store == 1) reqId (rest.take len.toNat) s := rfl
      rw [hmessage, beq_false_of_ne hstore]
  · cases hget

theorem storeGetOf_put (hput : storePutOf e = some put) :
    storeGetOf e = none ∧ responseTo e = none := by
  unfold storePutOf at hput
  split at hput
  · exact ⟨rfl, rfl⟩
  · cases hput

theorem getRequest_store {name : Bytes} (h : getRequest env executor false reqId name s = some s') :
    ∃ key thread, (Bytes.split kDelimiterChar name)[1]? = some key ∧
      s'.sent = s.sent ++ [.getKvs key thread] ∧
      s'.keyRemoteGetMap = s.keyRemoteGetMap.set name
        (s.keyRemoteGetMap.getD name [] ++ [{ executorId := executor, reqId }]) := by
  obtain ⟨id, hid⟩ := ioThread_state env s
  unfold getRequest at h
  simp only [Bool.false_eq_true, if_false, hid] at h
  obtain ⟨key, hkey, rfl⟩ := Option.map_eq_some_iff.mp h
  exact ⟨key, _, hkey, rfl, rfl⟩

theorem nodeStep_records {w : StoreWait} (hw : storeWaitOf e = some w)
    (h : nodeStep env s e = some s') :
    w.Recorded s' ∧ (w.type = .put → w.name = w.key) ∧
      ((∃ r ∈ (s.sentSince s').filterMap storeRequestOf, r.type = w.type ∧ r.key = w.key) ∨
        ∃ put, storePutOf e = some put ∧ put.packing = .other ∧
          w.type = .put ∧ put.infos.sessionKey = w.key ∧ s'.sent = s.sent) := by
  unfold storeWaitOf at hw
  split at hw
  next get hget =>
    obtain ⟨key, hkey, rfl⟩ := Option.map_eq_some_iff.mp hw
    rw [nodeStep_get hget] at h
    obtain ⟨key', thread, hkey', hsent, hgets⟩ := getRequest_store h
    obtain rfl : key' = key := Option.some.inj (hkey'.symm.trans hkey)
    refine ⟨?_, fun hput => absurd hput RequestType.noConfusion,
      .inl ⟨⟨.get, key', thread⟩, ?_, rfl, rfl⟩⟩
    · unfold StoreWait.Recorded SchedState.storeEntries
      simp only [hgets, Map.getD_set, if_true]
      exact List.mem_append_right _ (List.mem_singleton.mpr rfl)
    · rw [SchedState.sentSince, hsent, List.drop_left]
      exact List.mem_singleton.mpr rfl
  next hget =>
    obtain ⟨put, hput, rfl⟩ := Option.map_eq_some_iff.mp hw
    rw [nodeStep_put hput] at h
    obtain ⟨hother, hsent⟩ := sendToStore_sent h
    refine ⟨?_, fun _ => rfl, ?_⟩
    · unfold StoreWait.Recorded SchedState.storeEntries
      simp only [sendToStore_puts h, Map.getD_set, if_true]
      exact List.mem_append_right _ (List.mem_singleton.mpr rfl)
    · by_cases hpacking : put.packing = .other
      · exact .inr ⟨put, hput, hpacking, rfl, rfl, hother hpacking⟩
      · obtain ⟨value, thread, hsent⟩ := hsent hpacking
        refine .inl ⟨⟨.put, put.infos.sessionKey, thread⟩, ?_, rfl, rfl⟩
        rw [SchedState.sentSince, hsent, List.drop_left]
        exact List.mem_singleton.mpr rfl

/-! ## Responses -/

theorem getKvsResponse_isSome_iff (thread : Nat) (response : KeyResponse) :
    (getKvsResponse thread response).isSome ↔
      (response.Copied → CanAcquire (kvsObjectName response.key)) := by
  unfold getKvsResponse KeyResponse.Copied
  by_cases htimeout : response.error = .timeout
  · cases htype : response.type <;> simp [htimeout]
  · cases htype : response.type with
    | get =>
      by_cases hmissing : response.tupleError = .keyDne
      · simp [htimeout, hmissing]
      · by_cases hname : CanAcquire (kvsObjectName response.key) <;>
          simp [htimeout, hmissing, hname]
    | put => simp [htimeout]

theorem getKvsResponse_iff {result : List StoreRequest × List NodeEvent}
    (h : getKvsResponse thread response = some result) :
    ((∃ r ∈ result.1, r.type = response.type ∧ r.key = response.key) ∨
        ∃ e ∈ result.2, responseTo e = some (response.type, response.key)) ↔
      ¬ response.Dropped := by
  unfold getKvsResponse at h
  unfold KeyResponse.Dropped
  by_cases htimeout : response.error = .timeout
  · cases htype : response.type <;> rw [if_pos htimeout, htype] at h <;> cases h <;>
      simp [htimeout]
  · rw [if_neg htimeout] at h
    cases htype : response.type with
    | get =>
      by_cases hmissing : response.tupleError = .keyDne
      · rw [if_neg (by simp [hmissing]), if_neg (by simp [htype])] at h
        cases h
        simp [htimeout, hmissing]
      · rw [if_pos ⟨htype, hmissing⟩] at h
        split at h
        · cases h
          simp [htimeout, hmissing, responseTo]
        · cases h
    | put =>
      rw [if_neg (by simp [htype]), if_pos htype] at h
      cases h
      simp [htimeout, responseTo]

theorem nodeStep_response (env : SchedEnv) (he : responseTo e = some (type, key)) (s : SchedState) :
    ∃ text s', nodeStep env s e = some s' ∧
      s'.sent = s.sent ++ (s.storeEntries type (entryName type key)).map (fun request =>
        .response request.executorId ([3, request.reqId, 1] ++ text)) ∧
      ∀ type' name, s'.storeEntries type' name =
        if type' = type ∧ name = entryName type key then [] else s.storeEntries type' name := by
  cases e with
  | kvsGetResp key' size =>
    cases he
    refine ⟨Bytes.toDecimal size.toNat, _, rfl, ?_, fun type' name => ?_⟩
    · rw [kvsGetResp, answerGets_eq]
      rfl
    · rw [kvsGetResp, answerGets_eq]
      cases type' with
      | get =>
        change Map.getD (s.keyRemoteGetMap.erase _) name [] = _
        simp only [Map.getD_erase, true_and]
        rfl
      | put =>
        rw [if_neg (by simp)]
        rfl
  | kvsPutResp key' =>
    cases he
    refine ⟨[], _, rfl, ?_, fun type' name => ?_⟩
    · rw [kvsPutResp_eq]
      rfl
    · rw [kvsPutResp_eq]
      cases type' with
      | get =>
        rw [if_neg (by simp)]
        rfl
      | put =>
        change Map.getD (s.keyKsvPutMap.erase _) name [] = _
        simp only [Map.getD_erase, true_and]
        rfl
  | _ => cases he

/-! ## The invariant -/

structure StoreNode.Kept (n : StoreNode) : Prop where
  recorded : ∀ w ∈ n.waiting, w.Recorded n.node
  putName : ∀ w ∈ n.waiting, w.type = .put → w.name = w.key
  responses : ∀ e ∈ n.inbox, (responseTo e).isSome

theorem handle_spec (h : n.handle env e = some n') :
    nodeStep env n.node e = some n'.node ∧ n'.inbox = n.inbox ∧
      n'.issued = n.issued ++ (n.node.sentSince n'.node).filterMap storeRequestOf ∧
      ∀ w, w ∈ n'.waiting ↔
        (w ∈ n.waiting ∨ storeWaitOf e = some w) ∧ w.Recorded n'.node := by
  obtain ⟨s', hs', rfl⟩ := Option.map_eq_some_iff.mp h
  refine ⟨hs', rfl, rfl, fun w => ?_⟩
  simp only [List.mem_filter, List.mem_append, Option.mem_toList, decide_eq_true_eq]

theorem StoreNode.Kept.handle (hn : n.Kept) (h : n.handle env e = some n') : n'.Kept := by
  obtain ⟨hstep, hinbox, -, hwaiting⟩ := handle_spec h
  refine ⟨fun w hw => ((hwaiting w).mp hw).2, fun w hw hput => ?_, ?_⟩
  · rcases ((hwaiting w).mp hw).1 with hold | hnew
    · exact hn.putName w hold hput
    · exact (nodeStep_records hnew hstep).2.1 hput
  · rw [hinbox]
    exact hn.responses

theorem storeStep_message (h : storeStep env n (.message e) = some n') :
    responseTo e = none ∧ n.handle env e = some n' := by
  change (if (responseTo e).isSome then none else n.handle env e) = some n' at h
  split at h
  · cases h
  next hnone => exact ⟨Option.not_isSome_iff_eq_none.mp hnone, h⟩

theorem storeStep_respond {left : Nat}
    (h : storeStep env n (.respond thread left response) = some n') :
    ∃ result, getKvsResponse thread response = some result ∧
      n'.node = n.node ∧ n'.waiting = n.waiting ∧ n'.inbox = n.inbox ++ result.2 ∧
      (∀ r ∈ n.issued, r ≠ ⟨response.type, response.key, thread⟩ → r ∈ n'.issued) ∧
      ∀ r ∈ result.1, r ∈ n'.issued := by
  change (if left < n.issued.count ⟨response.type, response.key, thread⟩ then
    (getKvsResponse thread response).map _ else none) = some n' at h
  split at h
  · obtain ⟨result, hresult, rfl⟩ := Option.map_eq_some_iff.mp h
    refine ⟨result, hresult, rfl, rfl, rfl, fun r hr hne => ?_,
      fun r hr => List.mem_append_right _ hr⟩
    refine List.mem_append_left _ (List.mem_append_left _ ?_)
    exact List.mem_filter.mpr ⟨hr, decide_eq_true hne⟩
  · cases h

theorem storeStep_process (h : storeStep env n (.process i) = some n') :
    ∃ e, n.inbox[i]? = some e ∧
      StoreNode.handle env { n with inbox := n.inbox.eraseIdx i } e = some n' :=
  Option.bind_eq_some_iff.mp h

theorem getKvsResponse_responses {result : List StoreRequest × List NodeEvent}
    (h : getKvsResponse thread response = some result) :
    ∀ e ∈ result.2, (responseTo e).isSome := by
  unfold getKvsResponse at h
  split at h
  · split at h <;> cases h <;> exact List.forall_mem_nil _
  · split at h
    · split at h
      · cases h
        exact List.forall_mem_singleton.mpr rfl
      · cases h
    · split at h
      · cases h
        exact List.forall_mem_singleton.mpr rfl
      · cases h
        exact List.forall_mem_nil _

theorem StoreNode.Kept.step {e : StoreEvent} (hn : n.Kept) (h : storeStep env n e = some n') :
    n'.Kept := by
  cases e with
  | message e => exact hn.handle (storeStep_message h).2
  | respond thread left response =>
    obtain ⟨result, hresult, hnode, hwaiting, hinbox, -⟩ := storeStep_respond h
    refine ⟨?_, ?_, fun e he => ?_⟩
    · rw [hwaiting, hnode]
      exact hn.recorded
    · rw [hwaiting]
      exact hn.putName
    · rw [hinbox] at he
      rcases List.mem_append.mp he with hold | hnew
      · exact hn.responses e hold
      · exact getKvsResponse_responses hresult e hnew
  | process i =>
    obtain ⟨e, -, h⟩ := storeStep_process h
    have hrest : StoreNode.Kept { n with inbox := n.inbox.eraseIdx i } :=
      ⟨hn.recorded, hn.putName, fun e' he' => hn.responses e' (List.mem_of_mem_eraseIdx he')⟩
    exact hrest.handle h

/-! ## One event -/

theorem StoreNode.Pursues.handle (hn : n.Pursues type key)
    (h : n.handle env e = some n') : n'.Pursues type key := by
  obtain ⟨-, hinbox, hissued, -⟩ := handle_spec h
  rcases hn with ⟨r, hr, heq⟩ | hresponse
  · exact .inl ⟨r, hissued ▸ List.mem_append_left _ hr, heq⟩
  · exact .inr (hinbox ▸ hresponse)

theorem nodeStep_get_isSome_iff (hget : storeGetOf e = some get) (s : SchedState) :
    (nodeStep env s e).isSome ↔ 1 < (Bytes.split kDelimiterChar get.name).length := by
  rw [nodeStep_get hget, getRequest]
  simp

theorem nodeStep_put_isSome_iff (hput : storePutOf e = some put)
    (s : SchedState) : (nodeStep env s e).isSome ↔ put.Taken := by
  rw [nodeStep_put hput, sendToStore, Option.isSome_map, StorePut.Taken]
  cases hpacking : put.packing <;> simp [putData, objectData]

theorem message_put_other (hput : storePutOf e = some put) (hother : put.packing = .other)
    (hserved : ∀ n', storeStep env n (.message e) = some n' → n'.Served) :
    n.Pursues .put put.infos.sessionKey := by
  obtain ⟨hget, hresponse⟩ := storeGetOf_put hput
  obtain ⟨n', h⟩ : ∃ n', storeStep env n (.message e) = some n' := by
    change ∃ n', (if (responseTo e).isSome then none else n.handle env e) = some n'
    rw [hresponse, StoreNode.handle, nodeStep_put hput, sendToStore, hother]
    exact ⟨_, rfl⟩
  obtain ⟨hstep, hinbox, hissued, hwaiting⟩ := handle_spec (storeStep_message h).2
  have hsent : n'.node.sent = n.node.sent :=
    (sendToStore_sent ((nodeStep_put hput).symm.trans hstep)).1 hother
  let w : StoreWait := ⟨.put, put.infos.sessionKey, put.infos.sessionKey, put.request⟩
  have hw : storeWaitOf e = some w := by
    unfold storeWaitOf
    rw [hget, hput]
    rfl
  have hmem := (hwaiting w).mpr ⟨.inr hw, (nodeStep_records hw hstep).1⟩
  have hpursued := hserved n' h w hmem
  rw [StoreNode.Pursues, hinbox, hissued, SchedState.sentSince, hsent, List.drop_length,
    List.filterMap_nil, List.append_nil] at hpursued
  exact hpursued

theorem answers_message_iff (hserved : n.Served) (e : NodeEvent) :
    n.Answers env (.message e) ↔ n.Fits (.message e) := by
  constructor
  · rintro ⟨htaken, hnext⟩
    refine ⟨fun get hget => ?_, fun put hput => ⟨?_, fun hother => ?_⟩⟩
    · exact (nodeStep_get_isSome_iff hget n.node).mp (htaken (.inl (hget ▸ rfl)))
    · exact (nodeStep_put_isSome_iff hput n.node).mp (htaken (.inr (hput ▸ rfl)))
    · exact message_put_other hput hother hnext
  · rintro ⟨hnames, hputs⟩
    refine ⟨fun hrequest => ?_, fun n' h w hw => ?_⟩
    · rcases hrequest with hget | hput
      · obtain ⟨get, hget⟩ := Option.isSome_iff_exists.mp hget
        exact (nodeStep_get_isSome_iff hget n.node).mpr (hnames get hget)
      · obtain ⟨put, hput⟩ := Option.isSome_iff_exists.mp hput
        exact (nodeStep_put_isSome_iff hput n.node).mpr (hputs put hput).1
    obtain ⟨-, h⟩ := storeStep_message h
    obtain ⟨hstep, -, hissued, hwaiting⟩ := handle_spec h
    rcases ((hwaiting w).mp hw).1 with hold | hnew
    · exact (hserved w hold).handle h
    · obtain ⟨-, -, ⟨r, hr, heq⟩ | ⟨put, hput, hother, htype, hkey, -⟩⟩ :=
        nodeStep_records hnew hstep
      · exact .inl ⟨r, hissued ▸ List.mem_append_right _ hr, heq⟩
      · have hpursued := (hputs put hput).2 hother
        rw [hkey, ← htype] at hpursued
        exact hpursued.handle h

theorem answers_respond_iff (hserved : n.Served) (thread left : Nat) (response : KeyResponse) :
    n.Answers env (.respond thread left response) ↔ n.Fits (.respond thread left response) := by
  constructor
  · rintro ⟨⟨result, hresult, hhandles⟩, -⟩
    refine ⟨(getKvsResponse_isSome_iff thread response).mp (hresult ▸ rfl), ?_⟩
    intro hdropped w hw htype hkey
    have hused := hhandles w hw htype hkey
    rw [htype, hkey] at hused
    exact (getKvsResponse_iff hresult).mp hused hdropped
  · rintro ⟨hcopied, hfits⟩
    obtain ⟨result, hresult⟩ := Option.isSome_iff_exists.mp
      ((getKvsResponse_isSome_iff thread response).mpr hcopied)
    have hhandles : ∀ w ∈ n.waiting, w.type = response.type → w.key = response.key →
        (∃ r ∈ result.1, r.type = w.type ∧ r.key = w.key) ∨
          ∃ e ∈ result.2, responseTo e = some (w.type, w.key) := by
      intro w hw htype hkey
      rw [htype, hkey]
      exact (getKvsResponse_iff hresult).mpr fun hdropped => hfits hdropped w hw htype hkey
    refine ⟨⟨result, hresult, hhandles⟩, fun n' h w hw => ?_⟩
    obtain ⟨result', hresult', -, hwaiting, hinbox, hkeep, hagain⟩ := storeStep_respond h
    cases hresult.symm.trans hresult'
    rw [hwaiting] at hw
    by_cases hconcerns : w.type = response.type ∧ w.key = response.key
    · rcases hhandles w hw hconcerns.1 hconcerns.2 with ⟨r, hr, heq⟩ | ⟨e, he, heq⟩
      · exact .inl ⟨r, hagain r hr, heq⟩
      · exact .inr ⟨e, hinbox ▸ List.mem_append_right _ he, heq⟩
    · rcases hserved w hw with ⟨r, hr, heq⟩ | ⟨e, he, heq⟩
      · refine .inl ⟨r, hkeep r hr ?_, heq⟩
        rintro rfl
        exact hconcerns ⟨heq.1.symm, heq.2.symm⟩
      · exact .inr ⟨e, hinbox ▸ List.mem_append_left _ he, heq⟩

theorem process_spec (env : SchedEnv) (he : n.inbox[i]? = some e)
    (hresponse : responseTo e = some (type, key)) :
    ∃ text n', storeStep env n (.process i) = some n' ∧
      n'.inbox = n.inbox.eraseIdx i ∧ (∀ r ∈ n.issued, r ∈ n'.issued) ∧
      n.node.sentSince n'.node = (n.node.storeEntries type (entryName type key)).map
        (fun request => .response request.executorId ([3, request.reqId, 1] ++ text)) ∧
      ∀ w, w ∈ n'.waiting ↔
        w ∈ n.waiting ∧ ¬ (w.type = type ∧ w.name = entryName type key) ∧ w.Recorded n.node := by
  obtain ⟨text, s', hs', hsent, hentries⟩ :=
    nodeStep_response env hresponse n.node
  have hnew : storeWaitOf e = none := by
    cases e with
    | kvsGetResp | kvsPutResp => rfl
    | _ => cases hresponse
  obtain ⟨n', h⟩ : ∃ n', StoreNode.handle env { n with inbox := n.inbox.eraseIdx i } e =
      some n' := by
    rw [StoreNode.handle, hs']
    exact ⟨_, rfl⟩
  obtain ⟨hstep, hinbox, hissued, hwaiting⟩ := handle_spec h
  obtain rfl : s' = n'.node := Option.some.inj (hs'.symm.trans hstep)
  refine ⟨text, n', ?_, hinbox, fun r hr => hissued ▸ List.mem_append_left _ hr, ?_, fun w => ?_⟩
  · change (n.inbox[i]?).bind _ = some n'
    rw [he]
    exact h
  · rw [SchedState.sentSince, hsent, List.drop_left]
  · rw [hwaiting w, hnew, StoreWait.Recorded, StoreWait.Recorded, hentries]
    split
    next hhere => simp [hhere]
    next helse => simp [helse]

theorem answers_process_iff (hkept : n.Kept) (hserved : n.Served) (i : Nat) :
    n.Answers env (.process i) ↔ n.Fits (.process i) := by
  cases he : n.inbox[i]? with
  | none =>
    have hundefined : storeStep env n (.process i) = none := by
      change (n.inbox[i]?).bind _ = none
      rw [he]
      rfl
    refine iff_of_true ⟨fun e n' he' => ?_, fun n' h => ?_⟩ fun e he' => ?_
    · cases he.symm.trans he'
    · cases hundefined.symm.trans h
    · cases he.symm.trans he'
  | some e =>
    obtain ⟨⟨type, key⟩, hresponse⟩ :=
      Option.isSome_iff_exists.mp (hkept.responses e (List.mem_of_getElem? he))
    obtain ⟨text, n', h, hinbox, hissued, hsent, hwaiting⟩ := process_spec env he hresponse
    constructor
    · rintro ⟨hhandles, -⟩ e' he' w hw hconcerns
      obtain rfl := Option.some.inj (he.symm.trans he')
      obtain ⟨rfl, rfl⟩ := Prod.mk.inj (Option.some.inj (hresponse.symm.trans hconcerns))
      by_contra hname
      have hgone := (hhandles e n' he h w hw hconcerns).1
      exact hgone ((hwaiting w).mpr ⟨hw, fun hhere => hname hhere.2, hkept.recorded w hw⟩)
    · intro hfits
      have hhandles : n.Handles env (.process i) := by
        intro e' n₁ he' h₁ w hw hconcerns
        obtain rfl := Option.some.inj (he.symm.trans he')
        obtain rfl := Option.some.inj (h.symm.trans h₁)
        obtain ⟨rfl, rfl⟩ := Prod.mk.inj (Option.some.inj (hresponse.symm.trans hconcerns))
        have hname := hfits e he w hw hconcerns
        refine ⟨fun hstays => ((hwaiting w).mp hstays).2.1 ⟨rfl, hname⟩, text, ?_⟩
        rw [hsent, ← hname]
        exact List.mem_map.mpr ⟨w.request, hkept.recorded w hw, rfl⟩
      refine ⟨hhandles, fun n₁ h₁ w hw => ?_⟩
      obtain rfl := Option.some.inj (h.symm.trans h₁)
      have hold := ((hwaiting w).mp hw).1
      rcases hserved w hold with ⟨r, hr, heq⟩ | ⟨e', he', heq⟩
      · exact .inl ⟨r, hissued r hr, heq⟩
      · -- the response that was taken concerns no request that is still recorded
        obtain ⟨j, hj⟩ := List.getElem?_of_mem he'
        have hne : j ≠ i := by
          rintro rfl
          obtain rfl := Option.some.inj (he.symm.trans hj)
          exact (hhandles e n' he h w hold heq).1 hw
        exact .inr ⟨e', hinbox ▸ List.mem_eraseIdx_iff_getElem?.mpr ⟨j, hne, hj⟩, heq⟩

/-! ## Runs -/

structure StoreNode.InOrder (n : StoreNode) : Prop where
  kept : n.Kept
  served : n.Served

theorem answers_iff_fits (hn : n.InOrder) (e : StoreEvent) :
    n.Answers env e ↔ n.Fits e := by
  cases e with
  | message e => exact answers_message_iff hn.served e
  | respond thread left response => exact answers_respond_iff hn.served thread left response
  | process i => exact answers_process_iff hn.kept hn.served i

theorem StoreNode.InOrder.step {e : StoreEvent} (hn : n.InOrder) (hanswers : n.Answers env e)
    (h : storeStep env n e = some n') : n'.InOrder :=
  ⟨hn.kept.step h, hanswers.2 n' h⟩

def getMessage (name : Bytes) : NodeEvent :=
  .executor 0 ([1, 1, 2, 7, name.length.toUInt8] ++ name)

theorem not_served_of_idle (hwaiting : n.waiting.isEmpty = false) (hissued : n.issued = [])
    (hinbox : n.inbox.isEmpty = true) : ¬ n.Served := by
  intro hserved
  obtain ⟨w, hw⟩ := List.exists_mem_of_ne_nil n.waiting (by
    intro hnil
    rw [hnil] at hwaiting
    cases hwaiting)
  rcases hserved w hw with ⟨r, hr, -⟩ | ⟨e, he, -⟩
  · rw [hissued] at hr
    cases hr
  · rw [List.isEmpty_iff.mp hinbox] at he
    cases he

end Pheromone.Scheduler
