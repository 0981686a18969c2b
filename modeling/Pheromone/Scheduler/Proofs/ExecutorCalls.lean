import Pheromone.Scheduler.Proofs.Effects
import Pheromone.Executor.Loop

/-!
# Unfinished calls of an executor

A scheduler and its executors.  The status map of the scheduler is a copy that
lags behind: an availability report that was sent before a call was dispatched
can be delivered after it.  An executor has at most one unfinished call exactly
as long as this does not happen.
-/

namespace Pheromone.Scheduler

open Lib Common Executor

variable {env : SchedEnv} {id : ExecutorId}

structure ExecSystem where
  sched : SchedState
  executors : ExecutorId → ExecutorState

inductive ExecEvent
  /-- A call is handed to `schedule_func_call`. -/
  | dispatch (now : Stamp) (call : SchedCall)
  | delayPass (clock : Nat → Stamp) (stamp : Stamp)
  | receive (executor : ExecutorId)
  | finish (executor : ExecutorId)
  | report (executor : ExecutorId)
  /-- The scheduler takes the next report of an executor. -/
  | deliver (executor : ExecutorId)
  /-- The status map of the scheduler changes its order. -/
  | rehash (m : UMap ExecutorId ExecutorStatus)

def callsTo (executor : ExecutorId) (outs : List SchedOut) : List SchedCall :=
  outs.filterMap fun out =>
    match out with
    | .toExecutor id call _ => if id = executor then some call else none
    | _ => none

namespace ExecSystem

def afterSched (s : ExecSystem) (sched : SchedState) : ExecSystem where
  sched := sched
  executors := fun id =>
    { s.executors id with
      inbox := (s.executors id).inbox ++ callsTo id (sched.sent.drop s.sched.sent.length) }

def afterExecutor (s : ExecSystem) (id : ExecutorId) (e : ExecutorState) : ExecSystem :=
  { s with executors := Function.update s.executors id e }

def deliver (s : ExecSystem) (id : ExecutorId) : Option ExecSystem :=
  match (s.executors id).reports with
  | [] => none
  | report :: rest =>
      let s := s.afterExecutor id { s.executors id with reports := rest }
      some { s with
        sched := match report with
          | .busy => executorBusy id s.sched
          | .available => executorAvailable id s.sched }

def step (env : SchedEnv) (s : ExecSystem) : ExecEvent → Option ExecSystem
  | .dispatch now call => (submit env now none call s.sched).map s.afterSched
  | .delayPass clock stamp => (Scheduler.delayPass env clock stamp s.sched).map s.afterSched
  | .receive id => ((s.executors id).receive).map (s.afterExecutor id)
  | .finish id => ((s.executors id).finish).map (s.afterExecutor id)
  | .report id => ((s.executors id).report).map (s.afterExecutor id)
  | .deliver id => s.deliver id
  | .rehash m => some { s with sched := s.sched.rehash m }

def Initial (s : ExecSystem) : Prop :=
  s.sched.sent = [] ∧ ∀ id, (s.executors id).inbox = [] ∧ (s.executors id).running = none

def SingleCall (s : ExecSystem) : Prop :=
  ∀ id, (s.executors id).unfinished ≤ 1 ∧
    ∀ status, s.sched.executorStatusMap.find? id = some status → isAvail status = true →
      (s.executors id).unfinished = 0

/-- An availability report is delivered only for an executor without an
unfinished call. -/
def TimelyReports (s : ExecSystem) : ExecEvent → Prop
  | .deliver id => (s.executors id).reports.head? = some .available →
      (s.executors id).unfinished = 0
  | _ => True

end ExecSystem

/-! ## Steps of the scheduler -/

/-- The calls for an executor besides the `load` it has. -/
def Single (load : ExecutorId → Nat) (start : Nat) (s : SchedState) : Prop :=
  ∀ id, load id + (callsTo id (s.sent.drop start)).length ≤ 1 ∧
    ∀ status, s.executorStatusMap.find? id = some status → isAvail status = true →
      load id + (callsTo id (s.sent.drop start)).length = 0

theorem callsTo_append (id : ExecutorId) (outs outs' : List SchedOut) :
    callsTo id (outs ++ outs') = callsTo id outs ++ callsTo id outs' :=
  List.filterMap_append

theorem scheduleFuncCall_single {now : Stamp} {call : SchedCall} {s s' : SchedState}
    {load : ExecutorId → Nat} {start : Nat} (hstart : start ≤ s.sent.length)
    (h : scheduleFuncCall env now call s = some s') (hs : Single load start s) :
    Single load start s' ∧ start ≤ s'.sent.length := by
  rcases scheduleFuncCall_cases h with ⟨id, seed, cold, hpick, rfl⟩ | ⟨_, _, rfl⟩ |
    ⟨_, _, _, rfl⟩ | ⟨_, _, _, args, _, hforward⟩
  · obtain ⟨status, hstatus, havail⟩ := pickExecutor_avail hpick
    have hidle := (hs id).2 status hstatus havail
    obtain ⟨_, _, _, _, heq⟩ := sendToExecutor_spec now call id seed cold s
    rw [heq]
    refine ⟨fun id' => ?_, by simp; omega⟩
    simp only [List.drop_append_of_le_length hstart, callsTo_append, List.length_append]
    by_cases hid : id' = id
    · subst hid
      have hone : (callsTo id' [.toExecutor id' call
          (callMessage call (s.clientAddr call.sessionId))]).length = 1 := by
        simp [callsTo]
      refine ⟨by omega, fun status' hstatus' havail' => ?_⟩
      rw [UMap.find?_set_self, Option.some.injEq] at hstatus'
      subst hstatus'
      cases havail'
    · have hnone : (callsTo id' [.toExecutor id call
          (callMessage call (s.clientAddr call.sessionId))]).length = 0 := by
        simp [callsTo, Ne.symm hid]
      have hold := hs id'
      refine ⟨by omega, fun status' hstatus' havail' => ?_⟩
      rw [UMap.find?_set_of_ne _ _ hid] at hstatus'
      have hzero := hold.2 status' hstatus' havail'
      omega
  · exact ⟨hs, hstart⟩
  · exact ⟨hs, hstart⟩
  · obtain ⟨_, _, _, _, _, _, rfl⟩ := forwardCallViaHelper_spec hforward
    refine ⟨fun id' => ?_, by simp; omega⟩
    simp only [List.drop_append_of_le_length hstart, callsTo_append, List.length_append]
    exact hs id'

theorem forwardCallViaHelper_single {sessionId : Session} {appName : Name} {calls : List SchedCall}
    {args : List (List Bytes)} {argFlag : Int} {s s' : SchedState} {load : ExecutorId → Nat}
    {start : Nat} (hstart : start ≤ s.sent.length)
    (h : forwardCallViaHelper env sessionId appName calls args argFlag s = some s')
    (hs : Single load start s) : Single load start s' ∧ start ≤ s'.sent.length := by
  obtain ⟨_, _, _, _, _, _, rfl⟩ := forwardCallViaHelper_spec h
  refine ⟨fun id' => ?_, by simp; omega⟩
  simp only [List.drop_append_of_le_length hstart, callsTo_append, List.length_append]
  exact hs id'

/-! ## Steps of the system -/

namespace ExecSystem

theorem afterSched_singleCall {s : ExecSystem} {sched : SchedState}
    (h : Single (fun id => (s.executors id).unfinished) s.sched.sent.length sched) :
    (s.afterSched sched).SingleCall := by
  have hcount : ∀ id, ((s.afterSched sched).executors id).unfinished =
      (s.executors id).unfinished +
        (callsTo id (sched.sent.drop s.sched.sent.length)).length := by
    intro id
    simp only [afterSched, ExecutorState.unfinished, List.length_append]
    omega
  intro id
  rw [hcount]
  exact h id

theorem single_start {s : ExecSystem} (h : s.SingleCall) :
    Single (fun id => (s.executors id).unfinished) s.sched.sent.length s.sched ∧
      s.sched.sent.length ≤ s.sched.sent.length := by
  refine ⟨fun id => ?_, le_refl _⟩
  rw [List.drop_length]
  exact h id

theorem afterExecutor_singleCall {s : ExecSystem} {e : ExecutorState} (h : s.SingleCall)
    (hle : e.unfinished ≤ (s.executors id).unfinished) :
    (s.afterExecutor id e).SingleCall := by
  intro id'
  by_cases hid : id' = id
  · subst hid
    obtain ⟨hone, havail⟩ := h id'
    simp only [afterExecutor, Function.update_self]
    refine ⟨by omega, fun status hstatus hav => ?_⟩
    have hzero := havail status hstatus hav
    omega
  · simp only [afterExecutor, Function.update_of_ne hid]
    exact h id'

theorem deliver_cases {s s' : ExecSystem} (h : s.deliver id = some s') :
    ∃ report rest, (s.executors id).reports = report :: rest ∧
      (∀ id', (s'.executors id').unfinished = (s.executors id').unfinished) ∧
      s'.sched = match report with
        | .busy => executorBusy id s.sched
        | .available => executorAvailable id s.sched := by
  unfold deliver at h
  split at h
  · cases h
  · rename_i report rest hreports
    cases h
    refine ⟨report, rest, hreports, fun id' => ?_, rfl⟩
    by_cases hid : id' = id
    · subst hid
      simp [afterExecutor, ExecutorState.unfinished]
    · simp [afterExecutor, hid]

theorem deliver_singleCall {s s' : ExecSystem} (hs : s.SingleCall)
    (hok : (s.executors id).reports.head? = some .available →
      (s.executors id).unfinished = 0)
    (h : s.deliver id = some s') : s'.SingleCall := by
  obtain ⟨report, rest, hreports, hsame, hsched⟩ := deliver_cases h
  intro id'
  rw [hsame, hsched]
  refine ⟨(hs id').1, fun status hstatus havail => ?_⟩
  by_cases hid : id' = id
  · subst hid
    cases report with
    | busy =>
      simp only [executorBusy, UMap.find?_set_self, Option.some.injEq] at hstatus
      subst hstatus
      cases havail
    | available => exact hok (by rw [hreports]; rfl)
  · cases report with
    | busy =>
      simp only [executorBusy, UMap.find?_set_of_ne _ _ hid] at hstatus
      exact (hs id').2 status hstatus havail
    | available =>
      simp only [executorAvailable, UMap.find?_set_of_ne _ _ hid] at hstatus
      exact (hs id').2 status hstatus havail

theorem step_singleCall (s : ExecSystem) (e : ExecEvent) (s' : ExecSystem) (hs : s.SingleCall)
    (hok : s.TimelyReports e) (h : s.step env e = some s') :
    s'.SingleCall := by
  have hforward : ∀ sessionId appName calls args argFlag (t t' : SchedState),
      forwardCallViaHelper env sessionId appName calls args argFlag t = some t' →
      (Single (fun id => (s.executors id).unfinished) s.sched.sent.length t ∧
        s.sched.sent.length ≤ t.sent.length) →
      (Single (fun id => (s.executors id).unfinished) s.sched.sent.length t' ∧
        s.sched.sent.length ≤ t'.sent.length) :=
    fun _ _ _ _ _ _ _ h ht => forwardCallViaHelper_single ht.2 h ht.1
  have hsched : ∀ now call (t t' : SchedState), scheduleFuncCall env now call t = some t' →
      (Single (fun id => (s.executors id).unfinished) s.sched.sent.length t ∧
        s.sched.sent.length ≤ t.sent.length) →
      (Single (fun id => (s.executors id).unfinished) s.sched.sent.length t' ∧
        s.sched.sent.length ≤ t'.sent.length) :=
    fun _ _ _ _ h ht => scheduleFuncCall_single ht.2 h ht.1
  cases e with
  | dispatch now call =>
    obtain ⟨sched, hsubmit, rfl⟩ := Option.map_eq_some_iff.mp h
    apply afterSched_singleCall
    refine (hsched _ _ _ _ hsubmit ?_).1
    refine ⟨fun id => ?_, by simp [SchedState.emit]⟩
    simp only [SchedState.emit, List.drop_left]
    exact hs id
  | delayPass clock stamp =>
    obtain ⟨sched, hpass, rfl⟩ := Option.map_eq_some_iff.mp h
    apply afterSched_singleCall
    exact (delayPass_preserves hsched hforward (fun _ _ ht => ht) hpass (single_start hs)).1
  | receive id =>
    obtain ⟨e, he, rfl⟩ := Option.map_eq_some_iff.mp h
    apply afterExecutor_singleCall hs
    unfold ExecutorState.receive at he
    split at he
    · rename_i call rest hrunning hinbox
      cases he
      simp [ExecutorState.unfinished, hrunning, hinbox]
    · cases he
  | finish id =>
    obtain ⟨e, he, rfl⟩ := Option.map_eq_some_iff.mp h
    apply afterExecutor_singleCall hs
    unfold ExecutorState.finish at he
    split at he
    · cases he
      simp [ExecutorState.unfinished]
    · cases he
  | report id =>
    obtain ⟨e, he, rfl⟩ := Option.map_eq_some_iff.mp h
    apply afterExecutor_singleCall hs
    unfold ExecutorState.report at he
    split at he
    · cases he
      exact le_refl _
    · cases he
  | deliver id => exact deliver_singleCall hs hok h
  | rehash m =>
    cases h
    obtain ⟨m', hm', hfind⟩ := rehash_eq m s.sched
    intro id
    refine ⟨(hs id).1, fun status hstatus havail => ?_⟩
    simp only [hm', hfind] at hstatus
    exact (hs id).2 status hstatus havail

theorem late_report_breaks (s : ExecSystem) (e : ExecEvent)
    (hnot : ¬ s.TimelyReports e) : ∃ s', s.step env e = some s' ∧ ¬ s'.SingleCall := by
  cases e with
  | dispatch | delayPass | receive | finish | report | rehash => exact absurd trivial hnot
  | deliver id =>
    simp only [TimelyReports, Classical.not_imp] at hnot
    obtain ⟨hhead, hunfinished⟩ := hnot
    obtain ⟨rest, hreports⟩ := List.head?_eq_some_iff.mp hhead
    obtain ⟨s', hs'⟩ : ∃ s', s.deliver id = some s' := by
      unfold deliver
      rw [hreports]
      exact ⟨_, rfl⟩
    refine ⟨s', hs', fun hsingle => hunfinished ?_⟩
    obtain ⟨report, rest', hreports', hsame, hsched⟩ := deliver_cases hs'
    rw [hreports, List.cons.injEq] at hreports'
    rw [← hreports'.1] at hsched
    rw [← hsame id]
    obtain ⟨status, hstatus, havail⟩ : ∃ status,
        s'.sched.executorStatusMap.find? id = some status ∧ isAvail status = true := by
      rw [hsched]
      simp only [executorAvailable, UMap.find?_set_self]
      split
      · exact ⟨_, rfl, rfl⟩
      · exact ⟨_, rfl, rfl⟩
    exact (hsingle id).2 status hstatus havail

/-- Every state of a run has at most one unfinished call on each executor, and
none on the executors regarded as available, exactly when every availability
report is delivered in time. -/
theorem singleCall_iff_timelyReports (env : SchedEnv) (s : ExecSystem) (hs : s.Initial)
    (es : List ExecEvent) :
    Throughout (step env) SingleCall s es ↔ Along (step env) TimelyReports s es := by
  have hstart : s.SingleCall := by
    intro id
    have hzero : (s.executors id).unfinished = 0 := by
      simp [ExecutorState.unfinished, (hs.2 id).1, (hs.2 id).2]
    exact ⟨by omega, fun _ _ _ => hzero⟩
  constructor
  · exact along_of_throughout fun s e _ hnot => late_report_breaks s e hnot
  · exact throughout_of_along (fun _ h => h) step_singleCall hstart

/-! ## Two reports before a call -/

def oneExecutor : ExecSystem where
  sched := SchedState.new 0 1
  executors := fun _ => {}

def plainEnv : SchedEnv where
  ip := []
  ioThreadCount := 1
  ioThreadCount_pos := Nat.one_pos
  schedDelayTime := 0
  sharedExecutor := false
  rejectExtraReq := false
  randR := fun seed => (0, seed)
  readShm := fun _ _ => []

def plainCall : SchedCall :=
  { sessionId := [], appName := [], funcName := [], funcArgs := [], argFlag := 0 }

theorem singleCall_iff_timelyReports_one :
    oneExecutor.Initial ∧
      Throughout (step plainEnv) SingleCall oneExecutor
        [.report 0, .deliver 0, .dispatch 0 plainCall, .receive 0, .finish 0] := by
  have hinit : oneExecutor.Initial := ⟨rfl, fun _ => ⟨rfl, rfl⟩⟩
  refine ⟨hinit, (singleCall_iff_timelyReports plainEnv oneExecutor hinit _).mpr ?_⟩
  refine ⟨trivial, fun s₁ h₁ => ⟨fun _ => ?_, fun _ _ =>
    ⟨trivial, fun _ _ => ⟨trivial, fun _ _ => ⟨trivial, fun _ _ => trivial⟩⟩⟩⟩⟩
  cases h₁
  rfl

/-- The second of two early reports is delivered after a call was dispatched, and
the executor is sent another call. -/
theorem two_unfinished_calls :
    oneExecutor.Initial ∧
      (run (step plainEnv) oneExecutor
        [.report 0, .report 0, .deliver 0, .dispatch 0 plainCall, .deliver 0,
          .dispatch 0 plainCall]).map (fun s => (s.executors 0).unfinished) = some 2 :=
  ⟨⟨rfl, fun _ => ⟨rfl, rfl⟩⟩, rfl⟩

end ExecSystem

end Pheromone.Scheduler
