import Pheromone.Kvs.Node
import Pheromone.Kvs.Proofs.ClientRuns
import Pheromone.Scheduler.Proofs.StoreResponses

/-!
# The clients keep the contract of the store

A scheduler with its clients behaves like one whose requests are open until the store gives a
final response to them.  Requests that are open in the contract may have been put together by
a client; one of them at least is there.
-/

namespace Pheromone.Kvs

open Lib Common Scheduler

variable {env : SchedEnv} {kvs : Nat → KvsEnv} {n n' : KvsNode} {a : StoreNode} {thread : Nat}
  {t t' : IoThread} {kvsEnv : KvsEnv} {now : TimePoint} {timestamp : UInt64} {c c' : KvsClient}

def slotsOf (r : StoreRequest) (slot : Slot) : Bool := slot.kind = (r.type, r.key)

def kindOf (out : SchedOut) : Option (RequestType × Key) :=
  (storeRequestOf out).map fun r => (r.type, r.key)

/-- The requests of this kind that a thread has not taken, its client has not answered or
`get_kvs_responses` has not dealt with. -/
def IoThread.openRequests (t : IoThread) (r : StoreRequest) : Nat :=
  (t.queue.countP fun out => kindOf out = some (r.type, r.key)) + t.client.pending (slotsOf r) +
    answers (slotsOf r) t.responses

structure KvsNode.Refines (n : KvsNode) (a : StoreNode) : Prop where
  node : a.node = n.node
  inbox : a.inbox = n.inbox
  waiting : a.waiting = n.waiting
  issued : ∀ r, Merged ((n.threads r.thread).openRequests r) (a.issued.count r)

/-! ## The main loop -/

theorem count_storeRequestOf (r : StoreRequest) (outs : List SchedOut) :
    (outs.filterMap storeRequestOf).count r =
      (outs.filter fun out => (storeRequestOf out).any fun r' => r'.thread = r.thread).countP
        fun out => kindOf out = some (r.type, r.key) := by
  rw [List.count_filterMap, List.countP_filter]
  congr 1
  funext out
  rw [Bool.eq_iff_iff, beq_iff_eq, Bool.and_eq_true, decide_eq_true_eq, kindOf]
  cases storeRequestOf out with
  | none => simp
  | some r' => cases r'; cases r; simp [and_assoc]

theorem KvsNode.Refines.handle {e : NodeEvent} (h : n.Refines a) (hn : n.handle env e = some n') :
    ∃ a', a.handle env e = some a' ∧ n'.Refines a' := by
  obtain ⟨s, hs, rfl⟩ := Option.map_eq_some_iff.mp hn
  refine ⟨_, Option.map_eq_some_iff.mpr ⟨s, h.node ▸ hs, rfl⟩, rfl, h.inbox, ?_, fun r => ?_⟩
  · simp only [h.waiting]
  · have hissued := h.issued r
    simp only [h.node, List.count_append, count_storeRequestOf, IoThread.openRequests,
      List.countP_append, Merged] at hissued ⊢
    omega

/-! ## The io threads -/

theorem KvsNode.Refines.setThread (h : n.Refines a)
    (ht : ∀ r, Merged (t.openRequests r) ((n.threads thread).openRequests r)) :
    (n.setThread thread t).Refines a := by
  refine ⟨h.node, h.inbox, h.waiting, fun r => ?_⟩
  by_cases hr : r.thread = thread
  · simp only [KvsNode.setThread, hr, Function.update_self]
    exact (ht r).trans (hr ▸ h.issued r)
  · simp only [KvsNode.setThread, Function.update_of_ne hr]
    exact h.issued r

theorem takeRequest_pending {out : SchedOut} (p : Slot → Bool)
    (h : IoThread.takeRequest kvsEnv now timestamp c out = some c') :
    ∃ slot : Slot, kindOf out = some slot.kind ∧
      Joins ([slot].countP p) (c.pending p) (c'.pending p) := by
  cases out with
  | getKvs key thread => exact ⟨_, rfl, KvsClient.getAsync_pending p h⟩
  | putKvs key value thread => exact ⟨_, rfl, KvsClient.request_pending p h⟩
  | _ => cases h

theorem take_open (h : t.take kvsEnv now timestamp = some t') (r : StoreRequest) :
    Merged (t'.openRequests r) (t.openRequests r) := by
  unfold IoThread.take at h
  split at h
  · cases h
  next out rest hqueue =>
    obtain ⟨client, hclient, rfl⟩ := Option.map_eq_some_iff.mp h
    obtain ⟨slot, hkind, hpending⟩ := takeRequest_pending (slotsOf r) hclient
    simp only [IoThread.openRequests, hqueue, List.countP_cons, List.countP_nil, slotsOf, hkind,
      Option.some.injEq, decide_eq_true_eq, Joins, Merged] at hpending ⊢
    omega

theorem receive_open {clock : KvsClient.Readings} {addresses : Option KeyAddressResponse}
    {response : Option ServerResponse}
    (hright : ∀ message ∈ response, message.tupleError ≠ .wrongThread)
    (h : t.receive kvsEnv clock addresses response = some t') (r : StoreRequest) :
    Merged (t'.openRequests r) (t.openRequests r) := by
  obtain ⟨⟨client, responses⟩, hreceive, rfl⟩ := Option.map_eq_some_iff.mp h
  have hpending := KvsClient.receiveAsync_pending (slotsOf r) hreceive
  rw [misrouted_eq_nil hright, List.countP_nil] at hpending
  simp only [IoThread.openRequests, answers, List.map_append, List.countP_append, Merged]
    at hpending ⊢
  omega

theorem slotsOf_slot (r : StoreRequest) (response : ServerResponse) :
    slotsOf r response.slot = decide (response.type = r.type ∧ response.key = r.key) := by
  unfold slotsOf ServerResponse.slot
  cases response.type <;> simp [Slot.of, Slot.kind]

theorem reissue_pending {response : KeyResponse} {result : List StoreRequest × List NodeEvent}
    (hresult : getKvsResponse thread response = some result) (r : StoreRequest)
    (h : result.1.foldlM
      (fun client r => KvsClient.getAsync kvsEnv now r.key client) c = some c') :
    let again := result.1.count r
    if r.thread = thread then Joins again (c.pending (slotsOf r)) (c'.pending (slotsOf r))
    else again = 0 := by
  replace hresult : result.1 = [] ∨
      result.1 = [{ type := .get, key := response.key, thread }] := by
    unfold getKvsResponse at hresult
    split at hresult
    · split at hresult <;> cases hresult
      · exact .inr rfl
      · exact .inl rfl
    · repeat' split at hresult
      all_goals cases hresult
      all_goals exact .inl rfl
  rcases hresult with hresult | hresult
  · rw [hresult] at h ⊢
    cases h
    simp [Joins]
  · rw [hresult] at h ⊢
    obtain ⟨c₁, hc₁, h⟩ := Option.bind_eq_some_iff.mp h
    cases h
    obtain ⟨type, key, thread'⟩ := r
    have hpending := KvsClient.getAsync_pending (slotsOf ⟨type, key, thread'⟩) hc₁
    simp only [slotsOf, Slot.kind, List.countP_singleton, List.count_singleton] at hpending ⊢
    split
    next hthread => simpa [hthread] using hpending
    next hthread => simp [Ne.symm hthread]

theorem count_respond (issued again : List StoreRequest) (r request : StoreRequest) (left : Nat) :
    (issued.filter (fun r => decide (r ≠ request)) ++ List.replicate left request ++
      again).count r = (if r = request then left else issued.count r) + again.count r := by
  rw [List.count_append, List.count_append, List.count_replicate]
  by_cases heq : r = request
  · rw [heq, List.count_eq_zero_of_not_mem (by simp)]
    simp
  · rw [List.count_filter (by simpa using heq)]
    simp [heq, Ne.symm heq]

theorem KvsNode.Refines.passOn (h : n.Refines a)
    (hn : kvsStep env kvs n (.passOn thread now) = some n') :
    ∃ left a', ∃ response ∈ (n.threads thread).responses.head?,
      storeStep env a (.respond thread left response.toKeyResponse) = some a' ∧
        n'.Refines a' := by
  obtain ⟨⟨t, messages⟩, ht, rfl⟩ := Option.map_eq_some_iff.mp hn
  unfold IoThread.passOn at ht
  split at ht
  · cases ht
  next response rest hresponses =>
    obtain ⟨result, hresult, ht⟩ := Option.bind_eq_some_iff.mp ht
    obtain ⟨client, hclient, heq⟩ := Option.map_eq_some_iff.mp ht
    cases heq
    let request : StoreRequest := { type := response.type, key := response.key, thread }
    let before : IoThread := { n.threads thread with responses := rest }
    have hopen (r : StoreRequest) : (n.threads thread).openRequests r = before.openRequests r +
        if response.type = r.type ∧ response.key = r.key then 1 else 0 := by
      simp only [IoThread.openRequests, hresponses, answers, List.map_cons, List.countP_cons,
        slotsOf_slot, decide_eq_true_eq, before]
      exact (Nat.add_assoc ..).symm
    have hleft : before.openRequests request < a.issued.count request := by
      have hissued := (h.issued request).1
      rw [hopen, if_pos ⟨rfl, rfl⟩] at hissued
      exact hissued
    refine ⟨before.openRequests request, _, response, by rw [hresponses]; rfl,
      (if_pos hleft).trans (congrArg (Option.map _) hresult), h.node,
      congrArg (· ++ _) h.inbox, h.waiting, fun r => ?_⟩
    have hissued := h.issued r
    have hagain := reissue_pending hresult r hclient
    simp only [count_respond]
    by_cases hthread : r.thread = thread
    · rw [hthread, hopen] at hissued
      simp only [KvsNode.setThread, hthread, Function.update_self, if_true, Joins] at hagain ⊢
      obtain ⟨others, hbefore, hafter⟩ : ∃ others,
          before.openRequests r = others + (n.threads thread).client.pending (slotsOf r) ∧
            IoThread.openRequests ⟨(n.threads thread).queue, client, rest⟩ r =
              others + client.pending (slotsOf r) :=
        ⟨_, Nat.add_right_comm .., Nat.add_right_comm ..⟩
      by_cases heq : r = request
      · rw [if_pos heq, ← heq]
        simp only [Merged]
        omega
      · have hkind : ¬ (response.type = r.type ∧ response.key = r.key) := by
          rintro ⟨htype, hkey⟩
          exact heq (by simp only [request, htype, hkey, ← hthread])
        rw [if_neg hkind] at hissued
        rw [if_neg heq]
        simp only [Merged] at hissued ⊢
        omega
    · have hne : r ≠ request := fun heq => hthread (congrArg StoreRequest.thread heq)
      simp only [KvsNode.setThread, Function.update_of_ne hthread, hthread, if_false] at hagain ⊢
      rwa [if_neg hne, hagain]

/-! ## Runs -/

def KvsEvent.RightThread : KvsEvent → Prop
  | .receive _ _ _ response => ∀ message ∈ response, message.tupleError ≠ .wrongThread
  | _ => True

/-- The event fits as one of the contract does, where a put of unknown packing has to find a
response. -/
def KvsNode.Fits (n : KvsNode) (e : KvsEvent) : Prop :=
  let a : StoreNode := { node := n.node, inbox := n.inbox, waiting := n.waiting }
  match e with
  | .message e => a.Fits (.message e)
  | .passOn thread _ => ∀ response ∈ (n.threads thread).responses.head?,
      a.Fits (.respond thread 0 response.toKeyResponse)
  | .process i => a.Fits (.process i)
  | e => e.RightThread

theorem KvsNode.Refines.fits (h : n.Refines a) {e : StoreEvent}
    (hfits : StoreNode.Fits { node := n.node, inbox := n.inbox, waiting := n.waiting } e) :
    a.Fits e := by
  cases e with
  | message e =>
    refine ⟨hfits.1, fun put hput => ⟨(hfits.2 put hput).1, fun hother => ?_⟩⟩
    rcases (hfits.2 put hput).2 hother with ⟨r, hr, -⟩ | hinbox
    · cases hr
    · exact .inr (h.inbox ▸ hinbox)
  | respond thread left response =>
    simp only [StoreNode.Fits, h.waiting] at hfits ⊢
    exact hfits
  | process i =>
    simp only [StoreNode.Fits, h.inbox, h.waiting] at hfits ⊢
    exact hfits

theorem KvsNode.Refines.step {e : KvsEvent} (h : n.Refines a) (hright : e.RightThread)
    (hn : kvsStep env kvs n e = some n') :
    ∃ events a', run (storeStep env) a events = some a' ∧ n'.Refines a' ∧
      (n.Fits e → a.InOrder → a'.InOrder) := by
  have hstep (e' : StoreEvent) {a' : StoreNode} (ha' : storeStep env a e' = some a')
      (hrefines : n'.Refines a') (hfits : n.Fits e → a.Fits e') :
      ∃ events a', run (storeStep env) a events = some a' ∧ n'.Refines a' ∧
        (n.Fits e → a.InOrder → a'.InOrder) :=
    ⟨[e'], a', run_cons_eq_some.mpr ⟨a', ha', rfl⟩, hrefines,
      fun he ha => ha.step ((answers_iff_fits ha e').mpr (hfits he)) ha'⟩
  cases e with
  | message e =>
    simp only [kvsStep] at hn
    split at hn
    · cases hn
    next hresponse =>
      obtain ⟨a', ha', hrefines⟩ := h.handle hn
      exact hstep (.message e) ((if_neg hresponse).trans ha') hrefines fun hfits => h.fits hfits
  | take thread now timestamp =>
    obtain ⟨t, ht, rfl⟩ := Option.map_eq_some_iff.mp hn
    exact ⟨[], a, rfl, h.setThread (take_open ht), fun _ ha => ha⟩
  | receive thread clock addresses response =>
    obtain ⟨t, ht, rfl⟩ := Option.map_eq_some_iff.mp hn
    exact ⟨[], a, rfl, h.setThread (receive_open hright ht), fun _ ha => ha⟩
  | passOn thread now =>
    obtain ⟨left, a', response, hresponse, ha', hrefines⟩ := h.passOn hn
    exact hstep _ ha' hrefines fun hfits => h.fits (hfits response hresponse)
  | process i =>
    obtain ⟨e, he, hn⟩ := Option.bind_eq_some_iff.mp hn
    have hrest : KvsNode.Refines { n with inbox := n.inbox.eraseIdx i }
        { a with inbox := a.inbox.eraseIdx i } :=
      ⟨h.node, congrArg (·.eraseIdx i) h.inbox, h.waiting, h.issued⟩
    obtain ⟨a', ha', hrefines⟩ := hrest.handle hn
    exact hstep (.process i) (Option.bind_eq_some_iff.mpr ⟨e, h.inbox ▸ he, ha'⟩) hrefines
      fun hfits => h.fits hfits

/-- Whatever a scheduler does with its clients, as long as no server answers that it does not
have the key, it can do with a store that keeps to the contract: the main loop is in the same
state, and the requests that are open agree. -/
theorem store_clients_refine_contract (env : SchedEnv) (kvs : Nat → KvsEnv) (s : SchedState)
    (seeds : Nat → UInt32) (events : List KvsEvent) (hright : ∀ e ∈ events, e.RightThread) :
    Throughout (kvsStep env kvs)
      (fun n : KvsNode => ∃ events a,
        run (storeStep env) { node := s } events = some a ∧ n.Refines a)
      (.start s seeds) events := by
  refine throughout_of_along (fun _ h => h) ?_ ?_ (along_of_forall hright _)
  · rintro n e n' ⟨events, a, hrun, hrefines⟩ hright hn
    obtain ⟨events', a', hrun', hrefines', -⟩ := hrefines.step hright hn
    exact ⟨events ++ events', a', run_append_eq_some.mpr ⟨a, hrun, hrun'⟩, hrefines'⟩
  · exact ⟨[], { node := s }, rfl, rfl, rfl, rfl, fun _ => .refl 0⟩

def plainExchange : List KvsEvent :=
  [.message (putMessage 1 1 5), .take 0 0 1,
    .receive 0 (readings 0) (some { key := Bytes.lit "k", ips := [Bytes.lit "tcp://a:1"] }) none,
    .receive 0 (readings 0) none
      (some { type := .put, key := Bytes.lit "k", responseId := Bytes.lit "c:0_1" }),
    .passOn 0 0, .process 0]

theorem store_clients_refine_contract_put :
    (run (kvsStep ExecSystem.plainEnv fun _ => plainEnv)
        (.start (.new 0 1) fun _ => 0) plainExchange).isSome ∧
      Throughout (kvsStep ExecSystem.plainEnv fun _ => plainEnv)
        (fun n : KvsNode => ∃ events a, run (storeStep ExecSystem.plainEnv)
          { node := SchedState.new 0 1 } events = some a ∧ n.Refines a)
        (.start (.new 0 1) fun _ => 0) plainExchange := by
  refine ⟨by decide +kernel, store_clients_refine_contract _ _ _ (fun _ => 0) _ fun e he => ?_⟩
  simp only [plainExchange, List.mem_cons, List.not_mem_nil, or_false] at he
  rcases he with rfl | rfl | rfl | rfl | rfl | rfl <;> simp [KvsEvent.RightThread]

/-! ## Requests of executors -/

/-- The request is with a client or its io thread, or its response is on its way to the main
loop. -/
def KvsNode.Pursues (n : KvsNode) (w : StoreWait) : Prop :=
  (∃ thread, 0 < (n.threads thread).openRequests ⟨w.type, w.key, thread⟩) ∨
    ∃ e ∈ n.inbox, responseTo e = some (w.type, w.key)

/-- The contract allows a state in which the requests are in order. -/
def KvsNode.InOrder (n : KvsNode) : Prop := ∃ a, n.Refines a ∧ a.InOrder

theorem KvsNode.InOrder.start (s : SchedState) (seeds : Nat → UInt32) :
    (KvsNode.start s seeds).InOrder :=
  ⟨{ node := s }, ⟨rfl, rfl, rfl, fun _ => .refl 0⟩,
    ⟨fun _ hw => absurd hw List.not_mem_nil, fun _ hw => absurd hw List.not_mem_nil,
      fun _ he => absurd he List.not_mem_nil⟩, fun _ hw => absurd hw List.not_mem_nil⟩

theorem KvsNode.InOrder.pursues (h : n.InOrder) : ∀ w ∈ n.waiting, n.Pursues w := by
  intro w hw
  obtain ⟨a, hrefines, hinOrder⟩ := h
  rcases hinOrder.served w (hrefines.waiting ▸ hw) with ⟨r, hr, htype, hkey⟩ | hinbox
  · refine .inl ⟨r.thread, ?_⟩
    rw [← htype, ← hkey]
    exact (hrefines.issued r).2 (List.count_pos_iff.mpr hr)
  · exact .inr (hrefines.inbox ▸ hinbox)

theorem KvsNode.InOrder.step {e : KvsEvent} (h : n.InOrder) (hfits : n.Fits e)
    (hn : kvsStep env kvs n e = some n') : n'.InOrder := by
  obtain ⟨a, hrefines, hinOrder⟩ := h
  have hright : e.RightThread := by
    cases e with
    | receive thread clock addresses response => exact hfits
    | _ => trivial
  obtain ⟨_, a', _, hrefines', hkeeps⟩ := hrefines.step hright hn
  exact ⟨a', hrefines', hkeeps hfits hinOrder⟩

/-- In every run whose events fit, the request that an executor waits for is pursued. -/
theorem waiting_requests_pursued (env : SchedEnv) (kvs : Nat → KvsEnv) (s : SchedState)
    (seeds : Nat → UInt32) (events : List KvsEvent)
    (hfits : Along (kvsStep env kvs) KvsNode.Fits (.start s seeds) events) :
    Throughout (kvsStep env kvs) (fun n => ∀ w ∈ n.waiting, n.Pursues w) (.start s seeds)
      events :=
  throughout_of_along (fun _ hn => hn.pursues) (fun _ _ _ hn he h => hn.step he h)
    (KvsNode.InOrder.start s seeds) hfits

theorem waiting_requests_pursued_put :
    let events : List KvsEvent := [.message (putMessage 1 1 5), .take 0 0 1]
    (run (kvsStep ExecSystem.plainEnv fun _ => plainEnv) (.start (.new 0 1) fun _ => 0)
        events).map (fun n => n.waiting.length) = some 1 ∧
      Throughout (kvsStep ExecSystem.plainEnv fun _ => plainEnv)
        (fun n => ∀ w ∈ n.waiting, n.Pursues w) (.start (.new 0 1) fun _ => 0) events := by
  refine ⟨by decide +kernel, waiting_requests_pursued _ _ _ _ _ ⟨⟨?_, ?_⟩, fun _ _ => ?_⟩⟩
  · intro get hget
    cases hget
  · intro put hput
    cases hput
    exact ⟨⟨by decide, fun _ => by decide⟩, fun hother => absurd hother (by decide)⟩
  · exact ⟨trivial, fun _ _ => trivial⟩

end Pheromone.Kvs
