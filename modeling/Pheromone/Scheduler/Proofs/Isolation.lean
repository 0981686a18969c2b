import Pheromone.Scheduler.Proofs.Schedules

/-!
# One function per executor

Without shared executors a call is sent to an executor that has run its function before,
or to one that has run nothing.  The scheduler knows the latter by the status `empty`,
which a report that comes too late gives back to an executor that is awaited.
-/

namespace Pheromone.Scheduler

open Lib Common Executor

variable {id executor : ExecutorId}

/-- The events of a scheduler, and changes of the order of its status map. -/
inductive SchedEvent
  | node (e : NodeEvent)
  | rehash (m : UMap ExecutorId ExecutorStatus)

def schedStep (env : SchedEnv) (s : SchedState) : SchedEvent → Option SchedState
  | .node e => nodeStep env s e
  | .rehash m => some (s.rehash m)

/-- No executor was sent calls of two functions. -/
def Isolated (s : SchedState) : Prop :=
  ∀ id, ∀ call ∈ callsTo id s.sent, ∀ call' ∈ callsTo id s.sent,
    call.funcName = call'.funcName

def Remembered (s : SchedState) : Prop :=
  ∀ id, callsTo id s.sent ≠ [] → s.executorStatusMap.getD id .empty ≠ .empty

/-- An availability report is not read while the executor is awaited after a call. -/
def ReportsOnTime (s : SchedState) : SchedEvent → Prop
  | .node e => ∀ id, reportOf e = some (id, .available) →
      s.executorStatusMap.getD id .empty = .await → callsTo id s.sent = []
  | .rehash _ => True

structure IsolationInv (s : SchedState) : Prop where
  isolated : Isolated s
  remembered : Remembered s
  warm : ∀ funcName id, id ∈ s.functionExecutorMap.getD funcName ∅ →
    ∃ call ∈ callsTo id s.sent, call.funcName = funcName

variable {env : SchedEnv} {now : Stamp} {s s' : SchedState}

theorem IsolationInv.same (h : IsolationInv s) (hsame : SameExecutors s s') :
    IsolationInv s' := by
  refine ⟨fun id => ?_, fun id => ?_, fun funcName id => ?_⟩
  · rw [hsame.calls]
    exact h.isolated id
  · rw [hsame.calls, hsame.status]
    exact h.remembered id
  · rw [hsame.calls, hsame.functions]
    exact h.warm funcName id

theorem callsTo_toExecutor (id executor : ExecutorId) (call : SchedCall) (message : Bytes) :
    callsTo id [.toExecutor executor call message] = if executor = id then [call] else [] := by
  unfold callsTo
  simp only [List.filterMap_cons, List.filterMap_nil]
  by_cases hid : executor = id
  · simp [hid]
  · simp [hid]

theorem IsolationInv.send (h : IsolationInv s) {call : SchedCall}
    (hsame : ∀ call' ∈ callsTo executor s.sent, call'.funcName = call.funcName)
    (hsent : ∃ message, s'.sent = s.sent ++ [.toExecutor executor call message])
    (hstatus : s'.executorStatusMap = s.executorStatusMap.set executor .await)
    (hwarm : ∀ funcName id, id ∈ s'.functionExecutorMap.getD funcName ∅ →
      id ∈ s.functionExecutorMap.getD funcName ∅ ∨ (id = executor ∧ funcName = call.funcName)) :
    IsolationInv s' := by
  obtain ⟨message, hsent⟩ := hsent
  have hcalls : ∀ id, callsTo id s'.sent =
      callsTo id s.sent ++ if executor = id then [call] else [] := by
    intro id
    rw [hsent, callsTo_append, callsTo_toExecutor]
  refine ⟨fun id c hc c' hc' => ?_, fun id hne => ?_, fun funcName id hmem => ?_⟩
  · rw [hcalls] at hc hc'
    by_cases hid : executor = id
    · subst hid
      have hname : ∀ c ∈ callsTo executor s.sent ++ (if executor = executor then [call] else []),
          c.funcName = call.funcName := by
        intro c hc
        rw [if_pos rfl] at hc
        rcases List.mem_append.mp hc with hc | hc
        · exact hsame c hc
        · rw [List.mem_singleton.mp hc]
      rw [hname c hc, hname c' hc']
    · rw [if_neg hid, List.append_nil] at hc hc'
      exact h.isolated id c hc c' hc'
  · rw [hstatus]
    unfold UMap.getD
    by_cases hid : id = executor
    · rw [hid, UMap.find?_set_self]
      exact fun heq => by cases heq
    · rw [hcalls, if_neg (Ne.symm hid), List.append_nil] at hne
      rw [UMap.find?_set_of_ne _ _ hid]
      exact h.remembered id hne
  · rw [hcalls]
    rcases hwarm funcName id hmem with hold | ⟨rfl, rfl⟩
    · obtain ⟨c, hc, hname⟩ := h.warm funcName id hold
      exact ⟨c, List.mem_append_left _ hc, hname⟩
    · exact ⟨call, List.mem_append_right _ (by simp), rfl⟩

theorem scheduleFuncCall_isolation (hshared : env.sharedExecutor = false) {call : SchedCall}
    (h : scheduleFuncCall env now call s = some s') (hs : IsolationInv s) :
    IsolationInv s' := by
  rcases scheduleFuncCall_cases h with ⟨id, seed, cold, hpick, rfl⟩ | ⟨_, _, rfl⟩ |
    ⟨_, _, _, rfl⟩ | ⟨_, _, _, args, _, hforward⟩
  · obtain ⟨_, _, _, _, heq⟩ := sendToExecutor_spec now call id seed cold s
    have hfunctions := sendToExecutor_functions now call id seed cold s
    rw [heq] at hfunctions ⊢
    refine hs.send ?_ ⟨_, rfl⟩ rfl ?_
    · rcases pickExecutor_spec hpick with ⟨_, _, hmem⟩ | ⟨_, hempty | ⟨hisShared, _⟩⟩
      · obtain ⟨c, hc, hname⟩ := hs.warm _ _ hmem
        exact fun c' hc' => (hs.isolated id c' hc' c hc).trans hname
      · -- an executor of status `empty` was sent nothing
        intro c' hc'
        refine absurd ?_ (hs.remembered id (List.ne_nil_of_mem hc'))
        unfold UMap.getD
        rw [hempty]
        rfl
      · rw [hshared] at hisShared
        cases hisShared
    · intro funcName id' hmem
      rw [hfunctions] at hmem
      split at hmem
      · rw [Map.getD_set] at hmem
        split at hmem
        next hname =>
          rcases Finset.mem_insert.mp hmem with rfl | hold
          · exact Or.inr ⟨rfl, hname⟩
          · exact Or.inl (hname ▸ hold)
        · exact Or.inl hmem
      · exact Or.inl hmem
  · exact ⟨hs.isolated, hs.remembered, hs.warm⟩
  · exact hs
  · exact hs.same (forwardCallViaHelper_same hforward)

/-! ## Events -/

theorem IsolationInv.withStatus (h : IsolationInv s) {m : UMap ExecutorId ExecutorStatus}
    (hm : ∀ id, callsTo id s.sent ≠ [] → m.getD id .empty ≠ .empty) :
    IsolationInv { s with executorStatusMap := m } :=
  ⟨h.isolated, hm, h.warm⟩

theorem IsolationInv.setStatus (h : IsolationInv s) {status : ExecutorStatus}
    (hstatus : callsTo executor s.sent ≠ [] → status ≠ .empty) :
    IsolationInv { s with executorStatusMap := s.executorStatusMap.set executor status } := by
  refine h.withStatus fun id hne => ?_
  unfold UMap.getD
  by_cases hid : id = executor
  · subst hid
    rw [UMap.find?_set_self]
    exact hstatus hne
  · rw [UMap.find?_set_of_ne _ _ hid]
    exact h.remembered id hne

theorem executorAvailable_isolation (hs : IsolationInv s)
    (hontime : s.executorStatusMap.getD id .empty = .await → callsTo id s.sent = []) :
    IsolationInv (executorAvailable id s) := by
  refine hs.setStatus fun hne => ?_
  have hnotEmpty := hs.remembered id hne
  have hnotAwait : s.executorStatusMap.getD id .empty ≠ .await := fun h => hne (hontime h)
  rw [if_neg (not_or.mpr ⟨hnotEmpty, hnotAwait⟩)]
  exact fun heq => by cases heq

theorem schedStep_isolation (hshared : env.sharedExecutor = false) (s : SchedState)
    (e : SchedEvent) (s' : SchedState) (hs : IsolationInv s) (hok : ReportsOnTime s e)
    (h : schedStep env s e = some s') : IsolationInv s' := by
  cases e with
  | node e =>
    rcases nodeStep_schedules h with h | ⟨id, _, rfl⟩ | ⟨id, hreport, rfl⟩
    · exact h.preserves (fun _ _ hsame hs => hs.same hsame)
        (fun _ _ _ _ h hs => scheduleFuncCall_isolation hshared h hs) hs
    · exact hs.setStatus fun _ heq => by cases heq
    · exact executorAvailable_isolation hs (hok id hreport)
  | rehash m =>
    cases h
    obtain ⟨m', hm', hfind⟩ := rehash_eq m s
    rw [hm']
    refine hs.withStatus fun id hne => ?_
    unfold UMap.getD
    rw [hfind]
    exact hs.remembered id hne

theorem isolationInv_new (ramSeed : UInt32) (executors : Nat) :
    IsolationInv (SchedState.new ramSeed executors) where
  isolated := fun _ _ hc => by cases hc
  remembered := fun _ hne => absurd rfl hne
  warm := fun _ _ hmem => by cases hmem

/-! ## A late report -/

def busyReport (id : ExecutorId) : SchedEvent := .node (.executor 0 [id + 1, 6])

def plainRequest (funcName : Name) : SchedEvent :=
  .node (.call 0 { requests := [{ name := funcName, arguments := [] }] })

theorem schedStep_busyReport (env : SchedEnv) (s : SchedState) (id : ExecutorId) :
    schedStep env s (busyReport id) = some (executorBusy id s) := by
  have hid : id + 1 - 1 = id := by simp
  show some (executorBusy (id + 1 - 1) s) = _
  rw [hid]

theorem busyReport_on_time (id : ExecutorId) (s : SchedState) :
    ReportsOnTime s (busyReport id) := by
  intro _ hreport
  cases hreport

theorem plainRequest_on_time (funcName : Name) (s : SchedState) :
    ReportsOnTime s (plainRequest funcName) := by
  intro _ hreport
  cases hreport

theorem run_busyReports (env : SchedEnv) (ids : List ExecutorId) (s : SchedState) :
    ∃ s', run (schedStep env) s (ids.map busyReport) = some s' ∧ s'.sent = s.sent ∧
      ∀ id, s'.executorStatusMap.find? id =
        if id ∈ ids then some .busy else s.executorStatusMap.find? id := by
  induction ids generalizing s with
  | nil => exact ⟨s, rfl, rfl, fun _ => rfl⟩
  | cons executor ids ih =>
    obtain ⟨s', hrun, hsent, hfind⟩ := ih (executorBusy executor s)
    refine ⟨s', run_cons_eq_some.mpr ⟨_, schedStep_busyReport env s executor, hrun⟩, hsent,
      fun id => ?_⟩
    rw [hfind]
    by_cases hid : id = executor
    · subst hid
      simp [executorBusy, UMap.find?_set_self]
    · simp [executorBusy, UMap.find?_set_of_ne _ _ hid, hid]

def otherExecutors (id : ExecutorId) : List ExecutorId :=
  ((List.range 256).map Nat.toUInt8).filter (· ≠ id)

theorem mem_otherExecutors {id' : ExecutorId} : id' ∈ otherExecutors id ↔ id' ≠ id := by
  have hall : id' ∈ (List.range 256).map Nat.toUInt8 :=
    List.mem_map.mpr ⟨id'.toNat, List.mem_range.mpr id'.toNat_lt, by simp⟩
  simp [otherExecutors, List.mem_filter, hall]

theorem scheduleFuncCall_to_empty (hempty : s.executorStatusMap.find? id = some .empty)
    (hbusy : ∀ id', id' ≠ id → s.executorStatusMap.find? id' = some .busy) (now : Stamp)
    (call : SchedCall) :
    ∃ s', scheduleFuncCall env now call s = some s' ∧
      callsTo id s'.sent = callsTo id s.sent ++ [call] := by
  have husable : Usable env s call.funcName := ⟨id, .empty, hempty, Or.inr (Or.inl rfl)⟩
  obtain ⟨⟨id', seed, cold⟩, hpick⟩ : ∃ pick, pickExecutor env call.funcName s = some pick :=
    Option.ne_none_iff_exists'.mp fun hnone => pickExecutor_none_iff.mp hnone husable
  have hid : id' = id := by
    by_contra hne
    obtain ⟨status, hstatus, havail⟩ := pickExecutor_avail hpick
    rw [hbusy id' hne] at hstatus
    cases hstatus
    cases havail
  subst hid
  refine ⟨sendToExecutor now call id' seed cold s, ?_, ?_⟩
  · unfold scheduleFuncCall
    rw [hpick]
    rfl
  · obtain ⟨_, _, _, _, heq⟩ := sendToExecutor_spec now call id' seed cold s
    rw [heq]
    simp only
    rw [callsTo_append, callsTo_toExecutor, if_pos rfl]

theorem plainRequest_to_empty (env : SchedEnv) (hempty : s.executorStatusMap.find? id = some .empty)
    (hbusy : ∀ id', id' ≠ id → s.executorStatusMap.find? id' = some .busy) (funcName : Name) :
    ∃ s' call, schedStep env s (plainRequest funcName) = some s' ∧ call.funcName = funcName ∧
      callsTo id s'.sent = callsTo id s.sent ++ [call] := by
  let request : FunctionRequest := { name := funcName, arguments := [] }
  let inflight := (inflightArgsOf env [] request s).2
  let call := inflight.readyCall [] s.keyLenMap
  let s₁ : SchedState := { s with sessionClientAddrMap := s.sessionClientAddrMap.set [] [] }
  let s₂ := (s₁.emit (.arrived s.callId inflight)).emit (.submit (some s.callId) call)
  obtain ⟨s', hs', hcalls⟩ := scheduleFuncCall_to_empty (s := s₂) hempty hbusy 0 call
  refine ⟨{ s' with callId := s'.callId + 1 }, call, ?_, rfl, ?_⟩
  · have hstep : schedStep env s (plainRequest funcName) =
        ((scheduleFuncCall env 0 call s₂ : Option SchedState).map fun s =>
          { s with callId := s.callId + 1 }).bind some := rfl
    rw [hstep, hs']
    rfl
  · simp only [hcalls]
    simp [s₂, s₁, SchedState.emit, callsTo]

/-- A report that comes too late lets the scheduler send a call of another function to
the executor: it does when the others are busy. -/
theorem late_report_breaks_isolation (env : SchedEnv) {e : SchedEvent}
    (hlate : ¬ ReportsOnTime s e) :
    ∃ after, (∀ e ∈ after, ∀ s, ReportsOnTime s e) ∧
      ¬ Throughout (schedStep env) Isolated s (e :: after) := by
  cases e with
  | rehash m => exact absurd trivial hlate
  | node e =>
    simp only [ReportsOnTime, not_forall] at hlate
    obtain ⟨id, hreport, hawait, hne⟩ := hlate
    obtain ⟨call, hcall⟩ := List.exists_mem_of_ne_nil _ hne
    let late := executorAvailable id s
    let after := (otherExecutors id).map busyReport ++ [plainRequest (0 :: call.funcName)]
    refine ⟨after, fun e he s => ?_, fun hall => ?_⟩
    · rcases List.mem_append.mp he with he | he
      · obtain ⟨id', _, rfl⟩ := List.mem_map.mp he
        exact busyReport_on_time id' s
      · rw [List.mem_singleton.mp he]
        exact plainRequest_on_time _ s
    · obtain ⟨s₁, hrun, hsent, hfind⟩ := run_busyReports env (otherExecutors id) late
      have hempty : s₁.executorStatusMap.find? id = some .empty := by
        rw [hfind, if_neg fun hmem => mem_otherExecutors.mp hmem rfl]
        simp [late, executorAvailable, hawait, UMap.find?_set_self]
      have hbusy : ∀ id', id' ≠ id → s₁.executorStatusMap.find? id' = some .busy :=
        fun id' hid => by rw [hfind, if_pos (mem_otherExecutors.mpr hid)]
      obtain ⟨s₂, call', hs₂, hname, hcalls⟩ :=
        plainRequest_to_empty env hempty hbusy (0 :: call.funcName)
      have hafter : run (schedStep env) late after = some s₂ :=
        run_append_eq_some.mpr ⟨s₁, hrun, run_cons_eq_some.mpr ⟨s₂, hs₂, rfl⟩⟩
      have hisolated := (hall.2 late (nodeStep_available hreport env s)).finish hafter id
      rw [hcalls, hsent] at hisolated
      have hsame := hisolated call (List.mem_append_left _ hcall) call' (by simp)
      exact absurd (hname.symm.trans hsame.symm) (List.cons_ne_self _ _)

/-! ## Runs -/

/-- Without shared executors, in a run whose availability reports are on time every
executor is sent calls of one function only. -/
theorem isolated_of_reports_on_time (env : SchedEnv) (hshared : env.sharedExecutor = false)
    (ramSeed : UInt32) (executors : Nat) (es : List SchedEvent)
    (hok : Along (schedStep env) ReportsOnTime (SchedState.new ramSeed executors) es) :
    Throughout (schedStep env) Isolated (SchedState.new ramSeed executors) es :=
  throughout_of_along (fun _ hs => hs.isolated) (schedStep_isolation hshared)
    (isolationInv_new ramSeed executors) hok

def availableReport (id : ExecutorId) : SchedEvent := .node (.executor 0 [id + 1, 7])

def namesSent (s : SchedState) : List Name := (callsTo 0 s.sent).map SchedCall.funcName

/-- Two calls of one function, and between them the reports of the executor. -/
theorem isolated_of_reports_on_time_two_calls :
    (run (schedStep ExecSystem.plainEnv) (SchedState.new 0 1)
        [availableReport 0, plainRequest [102], busyReport 0, availableReport 0,
          plainRequest [102]]).map namesSent = some [[102], [102]] ∧
      Throughout (schedStep ExecSystem.plainEnv) Isolated (SchedState.new 0 1)
        [availableReport 0, plainRequest [102], busyReport 0, availableReport 0,
          plainRequest [102]] := by
  refine ⟨by decide +kernel, isolated_of_reports_on_time _ rfl _ _ _ ?_⟩
  refine ⟨fun _ _ _ => rfl, fun s₁ _ => ⟨plainRequest_on_time _ _, fun s₂ _ =>
    ⟨busyReport_on_time _ _, fun s₃ h₃ => ⟨fun id hid hawait => ?_, fun _ _ =>
      ⟨plainRequest_on_time _ _, fun _ _ => trivial⟩⟩⟩⟩⟩
  cases hid
  cases h₃
  exact absurd hawait (by simp [executorBusy, UMap.getD, UMap.find?_set_self])

/-- An executor has reported twice when a call of `f` is sent to it.  The second report
is read after that, and a call of `g` is sent to the same executor. -/
theorem calls_of_two_functions :
    ExecSystem.plainEnv.sharedExecutor = false ∧
      (∃ s, run (schedStep ExecSystem.plainEnv) (SchedState.new 0 1)
          [availableReport 0, plainRequest [102], availableReport 0, plainRequest [103]] =
            some s ∧ namesSent s = [[102], [103]] ∧ ¬ Isolated s) ∧
      (run (ExecSystem.step ExecSystem.plainEnv) ExecSystem.oneExecutor
          [.report 0, .report 0, .deliver 0,
            .dispatch 0 { ExecSystem.plainCall with funcName := [102] }, .deliver 0,
            .dispatch 0 { ExecSystem.plainCall with funcName := [103] }]).map
        (fun s => namesSent s.sched) = some [[102], [103]] := by
  have hnames : (run (schedStep ExecSystem.plainEnv) (SchedState.new 0 1)
      [availableReport 0, plainRequest [102], availableReport 0, plainRequest [103]]).map
        namesSent = some [[102], [103]] := by
    decide +kernel
  obtain ⟨s, hs, hsent⟩ := Option.map_eq_some_iff.mp hnames
  refine ⟨rfl, ⟨s, hs, hsent, fun hisolated => ?_⟩, by decide +kernel⟩
  obtain ⟨c, hc, hf⟩ := List.mem_map.mp (hsent ▸ List.mem_cons_self : [102] ∈ namesSent s)
  obtain ⟨c', hc', hg⟩ :=
    List.mem_map.mp (hsent ▸ List.mem_cons_of_mem _ List.mem_cons_self : [103] ∈ namesSent s)
  have hsame := hisolated 0 c hc c' hc'
  rw [hf, hg] at hsame
  exact absurd hsame (by decide)

end Pheromone.Scheduler
