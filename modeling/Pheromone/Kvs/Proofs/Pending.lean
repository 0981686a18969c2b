import Pheromone.Kvs.Client
import Pheromone.Lib.Transition

/-!
# The requests of a client that are pending

How many requests of a kind wait in the maps of a client, and what becomes of the number when
one is issued, sent, answered or given up.
-/

namespace Pheromone.Kvs

open Lib Common Scheduler

variable {env : KvsEnv} {now : TimePoint} {p : Slot → Bool} {c c' : KvsClient}
variable {responses : List ServerResponse}

def answers (p : Slot → Bool) (responses : List ServerResponse) : Nat :=
  (responses.map ServerResponse.slot).countP p

def misrouted (response : Option ServerResponse) : List Slot :=
  (response.filter fun r => decide (r.tupleError = .wrongThread)).toList.map ServerResponse.slot

theorem misrouted_eq_nil {response : Option ServerResponse}
    (h : ∀ r ∈ response, r.tupleError ≠ .wrongThread) : misrouted response = [] := by
  cases response with
  | none => rfl
  | some r => simp [misrouted, Option.filter, h r rfl]

/-- `m` of `n` things are left, after some were put together. -/
def Merged (m n : Nat) : Prop := m ≤ n ∧ (0 < n → 0 < m)

theorem Merged.refl (n : Nat) : Merged n n := ⟨Nat.le_refl n, id⟩

theorem Merged.trans {l m n : Nat} (h : Merged l m) (h' : Merged m n) : Merged l n :=
  ⟨h.1.trans h'.1, h.2 ∘ h'.2⟩

/-- A request more, unless it is put together with another one: `n` is 1 if it is of the kind
that is counted. -/
def Joins (n before after : Nat) : Prop := n ≤ after ∧ before ≤ after ∧ after ≤ before + n

/-! ## The maps -/

namespace PendingMap

variable {m : PendingMap} {slot : Slot} {q : PendingRequest}

def asked (p : Slot → Bool) (m : PendingMap) : Nat :=
  m.map.weight fun q => [q.request.slot].countP p

theorem asked_erase (p : Slot → Bool) (h : m.map.find? slot = some q) :
    (m.erase slot).asked p + [slot].countP p = m.asked p := by
  have hslot : q.request.slot = slot := m.keyed _ (UMap.find?_eq_some_iff.mp h)
  have herase := UMap.weight_erase (fun q => [q.request.slot].countP p) h
  rwa [hslot] at herase

theorem asked_replace {q' : PendingRequest} (p : Slot → Bool)
    (h : m.map.find? q.request.slot = some q') : (m.set q).asked p = m.asked p := by
  have hset := UMap.weight_set (fun q => [q.request.slot].countP p) m.map q.request.slot q
  have hslot : q'.request.slot = q.request.slot := m.keyed _ (UMap.find?_eq_some_iff.mp h)
  simp only [h, Option.map_some, Option.getD_some, hslot] at hset
  exact Nat.add_right_cancel hset

theorem asked_set (p : Slot → Bool) (m : PendingMap) (q : PendingRequest) :
    Joins ([q.request.slot].countP p) (m.asked p) ((m.set q).asked p) := by
  cases hfind : m.map.find? q.request.slot with
  | none =>
    have hset := UMap.weight_set (fun q => [q.request.slot].countP p) m.map q.request.slot q
    simp only [hfind, Option.map_none, Option.getD_none] at hset
    simp only [Joins, asked, set]
    omega
  | some q' =>
    have hone := asked_erase p hfind
    rw [Joins, asked_replace p hfind]
    omega

theorem asked_record (p : Slot → Bool) (m : PendingMap) (now : TimePoint) (worker : Address)
    (request : KeyRequest) :
    Joins ([request.slot].countP p) (m.asked p) ((m.record now worker request).asked p) := by
  unfold record
  split
  · exact asked_set p m { tp := now, workerAddr := worker, request }
  next q h =>
    rw [← show q.request.slot = request.slot from m.keyed _ (UMap.find?_eq_some_iff.mp h)]
    exact asked_set p m { q with workerAddr := worker }

end PendingMap

namespace KvsClient

variable {key : Key} {worker : Address} {request : KeyRequest}

def unsent (p : Slot → Bool) (c : KvsClient) : Nat :=
  c.pendingRequestMap.weight fun v => (v.2.map KeyRequest.slot).countP p

def pending (p : Slot → Bool) (c : KvsClient) : Nat := c.unsent p + c.pendingResponseMap.asked p

/-! ## Sending -/

theorem queryRoutingAsync_state (h : queryRoutingAsync env key c = some c') :
    ∃ rid seed sent, c' = { c with rid := rid, seed := seed, sent := sent } := by
  obtain ⟨thread, -, rfl⟩ := Option.map_eq_some_iff.mp h
  exact ⟨_, _, _, rfl⟩

theorem getWorkerThread_state (h : getWorkerThread env key c = some (c', worker)) :
    ∃ rid seed sent, c' = { c with rid := rid, seed := seed, sent := sent } := by
  unfold getWorkerThread at h
  split at h
  · split at h
    · cases h
      exact ⟨_, _, _, rfl⟩
    · obtain ⟨c₁, hc₁, heq⟩ := Option.map_eq_some_iff.mp h
      cases heq
      exact queryRoutingAsync_state hc₁
  · obtain ⟨_, -, heq⟩ := Option.map_eq_some_iff.mp h
    cases heq
    exact ⟨_, _, _, rfl⟩

theorem defer_pending (p : Slot → Bool) (now : TimePoint) (request : KeyRequest)
    (c : KvsClient) : (c.defer now request).pending p = c.pending p + [request.slot].countP p := by
  have hset := UMap.weight_set (fun v => (v.2.map KeyRequest.slot).countP p) c.pendingRequestMap
    request.key ((c.pendingRequestMap.getD request.key (now, [])).1,
      (c.pendingRequestMap.getD request.key (now, [])).2 ++ [request])
  simp only [pending, unsent, defer, UMap.getD] at hset ⊢
  cases hfind : c.pendingRequestMap.find? request.key <;>
    simp [hfind] at hset ⊢ <;> omega

theorem tryRequest_pending (p : Slot → Bool) (h : tryRequest env now request c = some c') :
    Joins ([request.slot].countP p) (c.pending p) (c'.pending p) := by
  obtain ⟨⟨c₁, worker⟩, hworker, rfl⟩ := Option.map_eq_some_iff.mp h
  obtain ⟨rid, seed, sent, rfl⟩ := getWorkerThread_state hworker
  simp only
  split
  · rw [defer_pending]
    simp only [Joins, pending, unsent]
    omega
  · have hrecord := c.pendingResponseMap.asked_record p now worker
      { request with addressCacheSize := (c.workers request.key).length }
    simp only [Joins, pending, unsent, issue, workers, KeyRequest.slot] at hrecord ⊢
    omega

theorem request_pending {type : RequestType} {timestamp : UInt64} {value : Value}
    (p : Slot → Bool) (h : KvsClient.request env now type key timestamp value c = some c') :
    Joins ([Slot.of type key (c.getRequestId env).2].countP p) (c.pending p) (c'.pending p) :=
  tryRequest_pending p h

theorem getAsync_pending (p : Slot → Bool) (h : getAsync env now key c = some c') :
    Joins ([Slot.get key].countP p) (c.pending p) (c'.pending p) := by
  unfold getAsync at h
  split at h
  next hsome =>
    cases h
    obtain ⟨q, hq⟩ := Option.isSome_iff_exists.mp hsome
    have hone := PendingMap.asked_erase p hq
    simp only [Joins, pending]
    omega
  · exact request_pending p h

/-! ## Receiving -/

theorem retry_pending (p : Slot → Bool) {requests : List KeyRequest}
    (h : requests.foldlM (retry env now) c = some c') :
    c'.pendingRequestMap = c.pendingRequestMap ∧
      c.pendingResponseMap.asked p ≤ c'.pendingResponseMap.asked p ∧
      Merged (c'.pendingResponseMap.asked p)
        (c.pendingResponseMap.asked p + (requests.map KeyRequest.slot).countP p) := by
  unfold Merged
  induction requests generalizing c with
  | nil =>
    cases h
    simp
  | cons request requests ih =>
    obtain ⟨c₁, hc₁, h⟩ := Option.bind_eq_some_iff.mp h
    obtain ⟨⟨c₂, worker⟩, hworker, hc₁⟩ := Option.bind_eq_some_iff.mp hc₁
    obtain ⟨rid, seed, sent, rfl⟩ := getWorkerThread_state hworker
    simp only at hc₁
    split at hc₁
    · cases hc₁
    · cases hc₁
      obtain ⟨hmap, hle, hmerged⟩ := ih h
      have hrecord := c.pendingResponseMap.asked_record p now worker
        { request with addressCacheSize := (c.workers request.key).length }
      rw [List.map_cons, ← List.singleton_append, List.countP_append]
      refine ⟨hmap, ?_⟩
      simp only [Joins, issue, workers, KeyRequest.slot] at hle hmerged hrecord ⊢
      omega

theorem handleAddresses_pending {response : KeyAddressResponse} (p : Slot → Bool)
    (h : handleAddresses env now response c = some c') :
    Merged (c'.pending p) (c.pending p) := by
  unfold handleAddresses at h
  split at h
  · cases h
    exact .refl _
  next tp requests hfind =>
    split at h
    · obtain ⟨rid, seed, sent, rfl⟩ := queryRoutingAsync_state h
      have hset := UMap.weight_set (fun v => (v.2.map KeyRequest.slot).countP p)
        c.pendingRequestMap response.key (now, requests)
      simp only [hfind, Option.map_some, Option.getD_some] at hset
      simp only [pending, unsent, Merged]
      omega
    · obtain ⟨c₁, hc₁, rfl⟩ := Option.map_eq_some_iff.mp h
      obtain ⟨hmap, hle, hmerged⟩ := retry_pending p hc₁
      have herase := UMap.weight_erase (fun v => (v.2.map KeyRequest.slot).countP p) hfind
      simp only [pending, unsent, hmap, Merged] at herase hle hmerged ⊢
      omega

theorem checkTuple_state (response : ServerResponse) (c : KvsClient) :
    ∃ cache, c.checkTuple response = { c with keyAddressCache := cache } := by
  unfold checkTuple
  split <;> exact ⟨_, rfl⟩

theorem handleResponse_pending {response : ServerResponse} (p : Slot → Bool)
    (h : handleResponse env now response c = some (c', responses)) :
    c.pending p ≤ c'.pending p + answers p responses ∧
      c'.pending p + answers p responses ≤ c.pending p + (misrouted (some response)).countP p := by
  unfold handleResponse at h
  obtain ⟨cache, hcache⟩ := checkTuple_state response c
  split at h
  · cases h
    simp [answers]
  next q hfind =>
    simp only [hcache] at h
    split at h
    next hwrong =>
      obtain ⟨c₁, hc₁, heq⟩ := Option.map_eq_some_iff.mp h
      cases heq
      have hslot : q.request.slot = response.slot :=
        c.pendingResponseMap.keyed _ (UMap.find?_eq_some_iff.mp hfind)
      have hreplace := PendingMap.asked_replace (q := { q with tp := now }) p (hslot ▸ hfind)
      have htry := tryRequest_pending p hc₁
      have hmisrouted : misrouted (some response) = [response.slot] := by
        simp [misrouted, Option.filter, hwrong]
      simp only [Joins, pending, unsent, hreplace, hslot] at htry
      simp only [hmisrouted, pending, unsent, answers, List.map_nil, List.countP_nil]
      omega
    next hright =>
      cases h
      have herase := PendingMap.asked_erase p hfind
      simp only [pending, unsent, answers, List.map_cons, List.map_nil] at herase ⊢
      omega

/-! ## Timeouts -/

theorem invalidateCacheForWorker_pending (p : Slot → Bool) {workers : List Address}
    (h : workers.foldlM invalidateCacheForWorker c = some c') : c'.pending p = c.pending p := by
  refine foldlM_preserves (Q := fun c₁ : KvsClient => c₁.pending p = c.pending p) ?_ h rfl
  intro c₁ worker _ c₂ hc₂ hc₁
  obtain ⟨node, -, hc₂⟩ := Option.bind_eq_some_iff.mp hc₂
  split at hc₂
  · cases hc₂
    exact hc₁
  · cases hc₂

theorem collect_pending {clock : Readings} (p : Slot → Bool)
    (h : collect env clock c = some (c', responses)) :
    c'.pending p + answers p responses = c.pending p := by
  obtain ⟨c₁, hc₁, heq⟩ := Option.map_eq_some_iff.mp h
  cases heq
  have hunsent := UMap.weight_filter (fun v => (v.2.map KeyRequest.slot).countP p)
    c.pendingRequestMap (oldRequest env clock)
  have hasked := UMap.weight_filter (fun q : PendingRequest => [q.request.slot].countP p)
    c.pendingResponseMap.map (oldResponse env clock)
  have hbad : ServerResponse.slot ∘ generateBadResponse = KeyRequest.slot := rfl
  rw [UMap.weight_countP p _ (c.pendingRequestMap.filter (oldRequest env clock))] at hunsent
  rw [UMap.weight_countP p _ (c.pendingResponseMap.map.filter (oldResponse env clock))] at hasked
  rw [invalidateCacheForWorker_pending p hc₁, answers, List.map_map, hbad, List.map_append,
    List.countP_append, List.map_flatMap, List.map_map, List.map_eq_flatMap]
  simp only [pending, unsent, PendingMap.asked, PendingMap.filter, UMap.filter,
    Function.comp_def] at hunsent hasked ⊢
  omega

theorem receiveAsync_pending {clock : Readings} {addresses : Option KeyAddressResponse}
    {response : Option ServerResponse} (p : Slot → Bool)
    (h : receiveAsync env clock addresses response c = some (c', responses)) :
    (0 < c.pending p → 0 < c'.pending p + answers p responses) ∧
      c'.pending p + answers p responses ≤ c.pending p + (misrouted response).countP p := by
  obtain ⟨c₁, hc₁, h⟩ := Option.bind_eq_some_iff.mp h
  obtain ⟨⟨c₂, result⟩, hc₂, h⟩ := Option.bind_eq_some_iff.mp h
  obtain ⟨⟨c₃, expired⟩, hc₃, heq⟩ := Option.map_eq_some_iff.mp h
  cases heq
  have haddresses : Merged (c₁.pending p) (c.pending p) := by
    cases addresses with
    | none =>
      cases hc₁
      exact .refl _
    | some message => exact handleAddresses_pending p hc₁
  have hresponse : c₁.pending p ≤ c₂.pending p + answers p result ∧
      c₂.pending p + answers p result ≤ c₁.pending p + (misrouted response).countP p := by
    cases response with
    | none =>
      cases hc₂
      exact ⟨Nat.le_refl _, Nat.le_refl _⟩
    | some message => exact handleResponse_pending p hc₂
  have hexpired := collect_pending p hc₃
  simp only [Merged, answers, List.map_append, List.countP_append] at *
  omega

end KvsClient

end Pheromone.Kvs
