import Pheromone.Lib.Transition
import Pheromone.Coordinator.Notify
import Pheromone.Coordinator.Proofs.BatchSchedule

/-!
# The session of a scheduled call

What `func_call_handler` and `notify_handler` write into the calls they send to
nodes.  A call that is not split is sent on as it is; the parts of a split call
are built without a session.
-/

namespace Pheromone.Coordinator

open Lib Common

variable {randR : RandR} {c c' : CoordState} {msg : FunctionCall} {address : Address}
  {outs : List CoordOut}
variable {call : FunctionCall}

/-- The call is cut into parts: no node other than its source can take it, but all
of them together can. -/
def Splits (c : CoordState) (msg : FunctionCall) : Prop :=
  1 < msg.requests.length ∧
    (∀ node ∈ otherNodes msg.source c.nodeStatusMap.entries, node.2 < msg.requests.length) ∧
    (msg.requests.length : Int) ≤ totalAvail (otherNodes msg.source c.nodeStatusMap.entries)

instance (c : CoordState) (msg : FunctionCall) : Decidable (Splits c msg) :=
  inferInstanceAs (Decidable (_ ∧ _ ∧ _))

/-! ## The session of a call -/

theorem genRandom_length (randR : RandR) (len : Nat) (seed : UInt32) :
    (genRandom randR len seed).1.length = len := by
  induction len generalizing seed with
  | zero => rfl
  | succ len ih =>
    unfold genRandom
    simp only [List.length_cons, ih]

theorem withSession_of_session (randR : RandR) (seed : UInt32) (h : msg.sessionId ≠ []) :
    withSession randR seed msg = (msg, seed) := by
  unfold withSession
  rw [if_neg h]

theorem withSession_fresh (randR : RandR) (seed : UInt32) (h : msg.sessionId = []) :
    (withSession randR seed msg).1 = { msg with sessionId := (genRandom randR 16 seed).1 } := by
  unfold withSession
  rw [if_pos h]

theorem withSession_sessionId_ne (randR : RandR) (seed : UInt32) (msg : FunctionCall) :
    (withSession randR seed msg).1.sessionId ≠ [] := by
  by_cases h : msg.sessionId = []
  · rw [withSession_fresh randR seed h]
    apply List.ne_nil_of_length_pos
    simp only [genRandom_length]
    decide
  · rw [withSession_of_session randR seed h]
    exact h

theorem withSession_header (randR : RandR) (seed : UInt32) (msg : FunctionCall) :
    (withSession randR seed msg).1.appName = msg.appName ∧
      (withSession randR seed msg).1.respAddress = msg.respAddress := by
  unfold withSession
  split
  · exact ⟨rfl, rfl⟩
  · exact ⟨rfl, rfl⟩

/-! ## Calls that are not split -/

theorem scheduleBatch_whole (hbatch : 1 < msg.requests.length) (h : ¬ Splits c msg)
    {scheduled : UMap Address FunctionCall} (hscheduled :
      scheduleBatch c.nodeStatusMap (withSession randR c.seed msg).1 = some scheduled) :
    ∀ part ∈ scheduled.entries, part.2 = (withSession randR c.seed msg).1 := by
  unfold scheduleBatch at hscheduled
  simp only [scanNodes_eq, withSession_source, withSession_requests] at hscheduled
  split at hscheduled
  · cases hscheduled
    intro part hpart
    have hentries : (UMap.empty.set (scanBest msg.source c.nodeStatusMap.entries).node
        (withSession randR c.seed msg).1).entries =
          [((scanBest msg.source c.nodeStatusMap.entries).node,
            (withSession randR c.seed msg).1)] := rfl
    rw [hentries, List.mem_singleton] at hpart
    rw [hpart]
  next hone =>
    split at hscheduled
    next htotal =>
      exact absurd ⟨hbatch, (scanBest_lt_iff (by omega)).mp (by omega), htotal⟩ h
    next =>
      cases hscheduled
      intro part hpart
      cases hpart

theorem scheduleSingle_whole (randR : RandR) (seed : UInt32) (nodes : UMap Address NodeStatus)
    (call : FunctionCall) :
    ∀ part ∈ (scheduleSingle randR seed nodes call).1.entries, part.2 = call := by
  have hset : ∀ node, ∀ part ∈ (UMap.empty.set node call : UMap Address FunctionCall).entries,
      part.2 = call := by
    intro node part hpart
    have hentries : (UMap.empty.set node call : UMap Address FunctionCall).entries =
        [(node, call)] := rfl
    rw [hentries, List.mem_singleton] at hpart
    rw [hpart]
  unfold scheduleSingle
  simp only
  split
  · exact hset _
  · split
    · split
      · exact hset _
      · intro part hpart
        cases hpart
    · intro part hpart
      cases hpart

theorem mem_sendScheduled {ioThreadNum : Nat} {seed : UInt32}
    {parts : List (Address × FunctionCall)} {out : CoordOut}
    (h : out ∈ (sendScheduled randR ioThreadNum seed parts).1) :
    ∃ address, ∃ part ∈ parts, out = .call address part.2 := by
  induction parts generalizing seed with
  | nil => cases h
  | cons part parts ih =>
    rcases List.mem_cons.mp h with rfl | h
    · exact ⟨_, part, List.mem_cons_self, rfl⟩
    · obtain ⟨address, other, hother, heq⟩ := ih h
      exact ⟨address, other, List.mem_cons_of_mem _ hother, heq⟩

theorem funcCallHandler_whole (h : funcCallHandler randR c msg = some (c', outs))
    (hwhole : ¬ Splits c msg) (hcall : .call address call ∈ outs) :
    call = (withSession randR c.seed msg).1 := by
  unfold funcCallHandler at h
  simp only [Option.map_eq_some_iff] at h
  obtain ⟨result, hresult, heq⟩ := h
  have hparts : ∀ part ∈ result.1.entries, part.2 = (withSession randR c.seed msg).1 := by
    rw [withSession_requests] at hresult
    split at hresult
    next hbatch =>
      obtain ⟨scheduled, hscheduled, rfl⟩ := Option.map_eq_some_iff.mp hresult
      exact scheduleBatch_whole hbatch hwhole hscheduled
    next =>
      cases hresult
      exact scheduleSingle_whole randR _ _ _
  split at heq
  · cases heq
    split at hcall
    · cases hcall
    · rw [List.mem_singleton] at hcall
      cases hcall
  · cases heq
    obtain ⟨_, part, hpart, heq⟩ := mem_sendScheduled hcall
    cases heq
    exact hparts part hpart

theorem scheduleBatch_isSome (nodes : UMap Address NodeStatus) (call : FunctionCall) :
    (scheduleBatch nodes call).isSome := by
  by_cases hone : (call.requests.length : Int) ≤ (scanBest call.source nodes.entries).maxExecutors
  · unfold scheduleBatch
    simp only [scanNodes_eq]
    rw [if_pos hone]
    rfl
  · by_cases htotal : (call.requests.length : Int) ≤
        totalAvail (otherNodes call.source nodes.entries)
    · obtain ⟨scheduled, _, hscheduled, _⟩ :=
        scheduleBatch_split nodes call (not_le.mp hone) htotal
      rw [hscheduled]
      rfl
    · unfold scheduleBatch
      simp only [scanNodes_eq]
      rw [if_neg hone, if_neg htotal]
      rfl

theorem funcCallHandler_isSome (randR : RandR) (c : CoordState) (msg : FunctionCall) :
    (funcCallHandler randR c msg).isSome := by
  unfold funcCallHandler
  simp only [Option.isSome_map]
  split
  · rw [Option.isSome_map]
    exact scheduleBatch_isSome _ _
  · rfl

/-! ## Split calls -/

theorem funcCallHandler_split (h : funcCallHandler randR c msg = some (c', outs))
    (hsplit : Splits c msg) : ∃ address call, .call address call ∈ outs ∧ call.sessionId = [] := by
  obtain ⟨hbatch, hall, htotal⟩ := hsplit
  obtain ⟨c₁, outs₁, parts, hout, hparts⟩ := funcCallHandler_inParts randR c msg hbatch
    ((scanBest_lt_iff (by omega)).mpr hall) htotal
  rw [h] at hout
  cases hout
  cases parts with
  | nil =>
    rw [← hparts.joined] at hbatch
    simp at hbatch
  | cons part parts =>
    obtain ⟨out, rest, ⟨io, _, rfl⟩, _, houts⟩ := List.forall₂_cons_right_iff.mp hparts.sent
    refine ⟨getFuncExecAddress part.1 io, part.2, ?_, hparts.sessionless part List.mem_cons_self⟩
    rw [houts]
    exact List.mem_cons_self

/-! ## Calls of triggers -/

/-- What `notify_handler` sends to nodes: calls of the session of a notified
object, answered where the notification says. -/
def NotifiedCall (request : KeyNotifyRequest) (call : FunctionCall) : Prop :=
  ∃ address ∈ request.addresses,
    call.sessionId = address.session ∧ call.respAddress = request.responseAddress

theorem dispatchAction_calls {bk : BucketKey} {respAddress : Address} {trigger : Trigger}
    {acc acc' : CoordState × List CoordOut} {action : TriggerAction}
    (h : dispatchAction randR bk respAddress trigger acc action = some acc')
    (hcall : .call address call ∈ acc'.2) :
    .call address call ∈ acc.2 ∨
      call.sessionId = bk.session ∧ call.respAddress = respAddress := by
  obtain ⟨args, _, rfl⟩ := Option.map_eq_some_iff.mp h
  simp only at hcall
  split at hcall
  · rcases List.mem_append.mp hcall with hcall | hcall
    · exact Or.inl hcall
    · rw [List.mem_singleton] at hcall
      cases hcall
  · rcases List.mem_append.mp hcall with hcall | hcall
    · rcases List.mem_append.mp hcall with hcall | hcall
      · exact Or.inl hcall
      · rw [List.mem_singleton] at hcall
        cases hcall
    · rw [List.mem_singleton] at hcall
      cases hcall
      exact Or.inr ⟨rfl, rfl⟩

theorem checkTriggers_calls {now : TimePoint} {active : List Name} {bk : BucketKey}
    {respAddress : Address} (h : checkTriggers randR now active bk respAddress c = some (c', outs))
    (hcall : .call address call ∈ outs) :
    call.sessionId = bk.session ∧ call.respAddress = respAddress := by
  obtain ⟨pass, hpass, heq⟩ := Option.map_eq_some_iff.mp h
  have hinv : ∀ address call, .call address call ∈ pass.out →
      call.sessionId = bk.session ∧ call.respAddress = respAddress := by
    refine foldlM_preserves (Q := fun pass : TriggerPass => ∀ address call,
      .call address call ∈ pass.out →
        call.sessionId = bk.session ∧ call.respAddress = respAddress) ?_ hpass (by simp)
    intro pass trigger _ pass' hvisit hinv
    unfold TriggerPass.visit at hvisit
    simp only at hvisit
    split at hvisit
    · cases hvisit
      exact hinv
    · split at hvisit
      · cases hvisit
        exact hinv
      · obtain ⟨dispatched, hdispatched, rfl⟩ := Option.map_eq_some_iff.mp hvisit
        refine foldlM_preserves (Q := fun acc : CoordState × List CoordOut => ∀ address call,
          .call address call ∈ acc.2 →
            call.sessionId = bk.session ∧ call.respAddress = respAddress) ?_ hdispatched hinv
        intro acc action _ acc' hstep hacc address call hcall
        rcases dispatchAction_calls hstep hcall with hold | hnew
        · exact hacc address call hold
        · exact hnew
  simp only at heq
  split at heq
  · cases heq
    exact hinv address call hcall
  · cases heq
    rcases List.mem_append.mp hcall with hcall | hcall
    · exact hinv address call hcall
    · obtain ⟨ip, _, hbad⟩ := List.mem_map.mp hcall
      cases hbad

theorem notifyHandler_calls {now : TimePoint} {request : KeyNotifyRequest}
    (h : notifyHandler randR now c request = some (c', outs))
    (hcall : .call address call ∈ outs) : NotifiedCall request call := by
  have hloop : ∀ (rest : List BucketKeyAddress) (c : CoordState) (out : List CoordOut),
      (∀ object ∈ rest, object ∈ request.addresses) →
      (∀ address call, .call address call ∈ out → NotifiedCall request call) →
      notifyAddresses randR now request rest c out = some (c', outs) →
      NotifiedCall request call := by
    intro rest
    induction rest with
    | nil =>
      intro c out _ hout hrun
      cases hrun
      exact hout address call hcall
    | cons object rest ih =>
      intro c out hrest hout hrun
      unfold notifyAddresses at hrun
      split at hrun
      · cases hrun
      · split at hrun
        · cases hrun
          exact hout address call hcall
        · simp only [Option.bind_eq_some_iff] at hrun
          obtain ⟨nodeIp, _, result, hresult, hrun⟩ := hrun
          refine ih _ _ (fun o ho => hrest o (List.mem_cons_of_mem _ ho)) ?_ hrun
          intro address call hcall
          rcases List.mem_append.mp hcall with hcall | hcall
          · exact hout address call hcall
          · exact ⟨object, hrest object List.mem_cons_self, checkTriggers_calls hresult hcall⟩
  exact hloop request.addresses c [] (fun _ h => h) (by simp) h

end Pheromone.Coordinator
