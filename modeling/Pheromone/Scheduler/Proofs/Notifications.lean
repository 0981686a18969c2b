import Pheromone.Scheduler.Proofs.RequestIds
import Pheromone.Scheduler.Proofs.Told

/-!
# Notifications

A scheduler tells the coordinator about an object in one place: when a function has sent it
as ephemeral data and no direct dependency takes it.  No other event uses the counter of the
request ids, so that the notifications of a run are numbered one after the other.
-/

namespace Pheromone.Scheduler

open Lib Common

variable {appName : Name} {e : NodeEvent} {es : List NodeEvent} {executors : Nat} {out : SchedOut}
  {ramSeed : UInt32} {sessionId : Session}

variable {infos : SendInfos} {packing : Packing} {env : SchedEnv} {now : Stamp} {s s' : SchedState}

def SchedOut.notification : SchedOut → Option KeyNotifyRequest
  | .notify _ request => some request
  | _ => none

def SchedState.notifications (s : SchedState) : List KeyNotifyRequest :=
  s.sent.filterMap SchedOut.notification

/-- The object of a message with ephemeral data, as the scheduler finds its parts. -/
def rebuiltKey : Bytes → Option BucketKey
  | _ :: _ :: _ :: _ :: params =>
      (SendInfos.parse params).map fun infos => infos.bucketKey
  | _ => none

def NodeEvent.rebuiltKey : NodeEvent → Option BucketKey
  | .executor _ message => Scheduler.rebuiltKey message
  | _ => none

/-- The counter of the request ids, and the notifications. -/
def SchedState.notes (s : SchedState) : UInt32 × List KeyNotifyRequest := (s.rid, s.notifications)

theorem notes_append {outs : List SchedOut} (hrid : s'.rid = s.rid)
    (hsent : s'.sent = s.sent ++ outs) (houts : ∀ out ∈ outs, out.notification = none) :
    s'.notes = s.notes := by
  unfold SchedState.notes SchedState.notifications
  rw [hrid, hsent, List.filterMap_append, List.filterMap_eq_nil_iff.mpr houts, List.append_nil]

theorem notes_append_data {outs : List SchedOut} (hrid : s'.rid = s.rid)
    (hsent : s'.sent = s.sent ++ outs) (houts : ∀ out ∈ outs, out.IsData) :
    s'.notes = s.notes := by
  refine notes_append hrid hsent fun out hout => ?_
  cases out with
  | notify => exact (houts _ hout).elim
  | _ => rfl

/-! ## Scheduling -/

theorem forwardCallViaHelper_notes {sessionId : Session} {appName : Name}
    {calls : List SchedCall} {args : List (List Bytes)} {argFlag : Int}
    (h : forwardCallViaHelper env sessionId appName calls args argFlag s = some s') :
    s'.notes = s.notes := by
  obtain ⟨address, requests, touched, keyLenMap, id, -, rfl⟩ := forwardCallViaHelper_spec h
  exact notes_append rfl rfl (by simp [SchedOut.notification])

theorem scheduleFuncCall_notes {call : SchedCall}
    (h : scheduleFuncCall env now call s = some s') : s'.notes = s.notes := by
  rcases scheduleFuncCall_cases h with ⟨executor, seed, cold, -, rfl⟩ | ⟨-, -, rfl⟩ |
    ⟨-, -, -, rfl⟩ | ⟨-, -, -, args, -, hforward⟩
  · obtain ⟨triggers, queue, functionExecutorMap, -, heq⟩ :=
      sendToExecutor_spec now call executor seed cold s
    rw [heq]
    exact notes_append rfl rfl (by simp [SchedOut.notification])
  · rfl
  · rfl
  · exact forwardCallViaHelper_notes hforward

theorem submit_notes {callId : Option UInt32} {call : SchedCall}
    (h : submit env now callId call s = some s') : s'.notes = s.notes :=
  (scheduleFuncCall_notes h).trans (notes_append rfl rfl (by simp [SchedOut.notification]))

theorem checkObjectArrival_notes (now : Stamp) (bk : BucketKey) (s : SchedState) :
    (checkObjectArrival now bk s).1.notes = s.notes := by
  obtain ⟨keyLenMap, -, harrival, -⟩ := checkObjectArrival_spec now bk s
  rw [harrival]
  refine notes_append rfl rfl fun out hout => ?_
  obtain ⟨firing, -, rfl⟩ := List.mem_map.mp hout
  rfl

theorem notifyPut_notes (env : SchedEnv) (bk : BucketKey) (active : List Name)
    (respAddress : Address) (payload : Value) (s : SchedState) :
    (notifyPut env bk active respAddress payload s).notes = s.notes ∨
      ∃ request : KeyNotifyRequest, request.requestId = (getRequestId env s).2 ∧
        request.addresses.map BucketKeyAddress.bucketKey = [bk] ∧
        (notifyPut env bk active respAddress payload s).notes =
          ((getRequestId env s).1.rid, s.notifications ++ [request]) := by
  unfold notifyPut
  cases s.bucketCoordMap bk.bucket with
  | none => exact .inl rfl
  | some coord => exact .inr ⟨_, rfl, rfl, congrArg (Prod.mk _) List.filterMap_append⟩

/-! ## Events -/

theorem nodeStep_notes {Q : SchedState → Prop} {e : NodeEvent}
    (hsame : ∀ {s s'}, Q s → s'.notes = s.notes → Q s')
    (hnotify : ∀ bk ∈ e.rebuiltKey, ∀ active respAddress payload s, Q s →
      Q (notifyPut env bk active respAddress payload s))
    (h : nodeStep env s e = some s') (hs : Q s) : Q s' := by
  cases e with
  | executor now message =>
    refine executorMessage_preserves
      (fun _ _ _ _ _ _ _ houts hs => hsame hs (notes_append_data rfl rfl houts)) ?_ h hs
    intro address reqId packingByte params infos hmessage hparse hsend
    refine sendEphemeral_preserves (fun s₁ hstore => ?_)
      (fun _ _ _ _ h hs => hsame hs (submit_notes h))
      (fun _ _ _ _ _ _ h hs => hsame hs (forwardCallViaHelper_notes h))
      (fun _ _ hs => hsame hs (checkObjectArrival_notes _ _ _))
      (fun _ _ _ hs => hnotify _ ?_ _ _ _ _ (hsame hs rfl)) (fun _ _ hs => hsame hs rfl) hsend
    · obtain ⟨m, values, rfl, -⟩ := storeObject_spec hstore
      exact hsame hs rfl
    · rw [hmessage, NodeEvent.rebuiltKey, rebuiltKey, hparse]
      rfl
  | call now msg =>
    exact handleCall_preserves
      (fun _ _ _ _ _ _ houts hs => hsame hs (notes_append_data rfl rfl houts))
      (fun _ _ _ hs => hsame hs rfl) (fun _ _ _ _ h hs => hsame hs (submit_notes h)) h hs
  | dataResp now key size =>
    exact dataResp_preserves
      (fun _ _ _ _ _ _ houts hs => hsame hs (notes_append_data rfl rfl houts))
      (fun _ _ _ _ h hs => hsame hs (submit_notes h)) h hs
  | kvsGetResp key size =>
    cases h
    refine hsame hs ?_
    rw [kvsGetResp, answerGets_eq]
    exact notes_append rfl rfl (by simp [SchedOut.notification])
  | kvsPutResp key =>
    cases h
    refine hsame hs ?_
    rw [kvsPutResp_eq]
    exact notes_append rfl rfl (by simp [SchedOut.notification])
  | update now msg =>
    exact handleUpdate_preserves (fun _ _ _ _ _ _ _ _ hs => hsame hs rfl) h hs
  | delayPass clock stamp =>
    exact delayPass_preserves (fun _ _ _ _ h hs => hsame hs (scheduleFuncCall_notes h))
      (fun _ _ _ _ _ _ _ h hs => hsame hs (forwardCallViaHelper_notes h))
      (fun _ _ hs => hsame hs rfl) h hs
  | rerunCheck now reportEnd fuel =>
    exact rerunCheck_preserves (fun _ _ _ h hs => hsame hs (submit_notes h))
      (fun _ _ hs => hsame hs rfl) h hs

/-! ## Runs -/

/-- The notifications are numbered from the first on, and the counter is where the next one
needs it. -/
structure Numbered (env : SchedEnv) (s : SchedState) : Prop where
  rid : s.rid = UInt32.ofNat (2 * s.notifications.length)
  ids : s.notifications.map KeyNotifyRequest.requestId =
    (List.range s.notifications.length).map fun n => requestIdText env (UInt32.ofNat (2 * n) + 1)

theorem Numbered.of_notes (hs : Numbered env s) (h : s'.notes = s.notes) : Numbered env s' := by
  obtain ⟨hrid, hnotifications⟩ := Prod.mk.inj h
  constructor
  · rw [hrid, hnotifications]
    exact hs.rid
  · rw [hnotifications]
    exact hs.ids

theorem Numbered.notifyPut (hs : Numbered env s) (bk : BucketKey) (active : List Name)
    (respAddress : Address) (payload : Value) :
    Numbered env (notifyPut env bk active respAddress payload s) := by
  rcases notifyPut_notes env bk active respAddress payload s with
    hsame | ⟨request, hrequest, -, hnotes⟩
  · exact hs.of_notes hsame
  · obtain ⟨hrid, hsent⟩ := Prod.mk.inj hnotes
    have hid := getRequestId_of_even env hs.rid
    have hlength : (Scheduler.notifyPut env bk active respAddress payload s).notifications.length =
        s.notifications.length + 1 := by
      rw [hsent, List.length_append, List.length_singleton]
    constructor
    · rw [hrid, hid, hlength]
    · rw [hlength, hsent, List.map_append, hs.ids, List.map_singleton, hrequest, hid,
        List.range_succ, List.map_append, List.map_singleton]

theorem Numbered.nodeStep {e : NodeEvent} (hs : Numbered env s)
    (h : nodeStep env s e = some s') : Numbered env s' :=
  nodeStep_notes Numbered.of_notes
    (fun bk _ active respAddress payload _ hs => hs.notifyPut bk active respAddress payload) h hs

theorem Numbered.requestId (hs : Numbered env s) {n : Nat} {request : KeyNotifyRequest}
    (h : s.notifications[n]? = some request) (ramSeed : UInt32) (executors : Nat) :
    request.requestId = nthRequestId env (SchedState.new ramSeed executors) n := by
  have hlt : n < s.notifications.length := (List.getElem?_eq_some_iff.mp h).1
  have hids := congrArg (fun ids => ids[n]?) hs.ids
  simp only [List.getElem?_map, h, Option.map_some, List.getElem?_range hlt] at hids
  exact (Option.some.inj hids).trans (nthRequestId_eq env rfl n).symm

/-- In every run of a scheduler, notifications with the same request id are a multiple of
`2 ^ 31` notifications apart. -/
theorem notifications_same_id (env : SchedEnv) (ramSeed : UInt32) (executors : Nat)
    (es : List NodeEvent) :
    Throughout (nodeStep env) (fun s => ∀ i j request request',
      s.notifications[i]? = some request → s.notifications[j]? = some request' →
        request.requestId = request'.requestId → i % 2 ^ 31 = j % 2 ^ 31)
      (SchedState.new ramSeed executors) es := by
  refine throughout_of_along (fun s hs i j request request' hi hj hid => ?_)
    (fun _ _ _ hs _ hstep => Numbered.nodeStep hs hstep) ⟨rfl, rfl⟩ (along_true _ _)
  rw [hs.requestId hi ramSeed executors, hs.requestId hj ramSeed executors] at hid
  exact (nthRequestId_eq_iff env rfl i j).mp hid

end Pheromone.Scheduler
