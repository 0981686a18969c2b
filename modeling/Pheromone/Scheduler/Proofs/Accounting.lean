import Pheromone.Scheduler.Proofs.Records

/-!
# No call is lost inside a scheduler

Every call handed to `schedule_func_call` is at any time sent to one executor,
waiting in the delay queue, or forwarded, as long as the calls that may have to
be forwarded are of an application that was announced and have arguments that
`forward_call_via_helper` can read.
-/

namespace Pheromone.Scheduler

open Lib Common

variable {env : SchedEnv} {s s' : SchedState} {now : Stamp} {delayed : DelayFunctionCall}
variable {call : SchedCall} {appName : Name}

/-! ## Where the calls are -/

def SchedOut.submitted : SchedOut → List SchedCall
  | .submit _ call => [call]
  | _ => []

def SchedOut.sentLocally : SchedOut → List SchedCall
  | .toExecutor _ call _ => [call]
  | _ => []

def SchedOut.forwarded : SchedOut → List SchedCall
  | .forward calls _ _ => calls
  | _ => []

namespace SchedState

def submitted (s : SchedState) : List SchedCall := s.sent.flatMap SchedOut.submitted

def sentLocally (s : SchedState) : List SchedCall := s.sent.flatMap SchedOut.sentLocally

def forwarded (s : SchedState) : List SchedCall := s.sent.flatMap SchedOut.forwarded

def waiting (s : SchedState) : List SchedCall := s.delayCallQueue.map DelayFunctionCall.call

def placed (s : SchedState) : List SchedCall := s.sentLocally ++ s.waiting ++ s.forwarded

def Accounted (s : SchedState) : Prop := s.submitted.Perm s.placed

end SchedState

/-! ## The runs of a scheduler -/

inductive DispatchEvent
  | submit (now : Stamp) (call : SchedCall)
  | busy (executor : ExecutorId)
  | available (executor : ExecutorId)
  | delayPass (clock : Nat → Stamp) (stamp : Stamp)
  /-- The status map changes its order. -/
  | rehash (m : UMap ExecutorId ExecutorStatus)

def dispatchStep (env : SchedEnv) (s : SchedState) : DispatchEvent → Option SchedState
  | .submit now call => submit env now none call s
  | .busy executor => some (executorBusy executor s)
  | .available executor => some (executorAvailable executor s)
  | .delayPass clock stamp => delayPass env clock stamp s
  | .rehash m => some (s.rehash m)

/-- A call can be forwarded on the path that the delay setting leads it on: the node was
told of its application, and arguments by key can be read in threes.  The delay queue
forwards them as they are. -/
def Forwardable (env : SchedEnv) (s : SchedState) (call : SchedCall) : Prop :=
  s.Announced call.appName ∧ (0 < call.argFlag →
    if 0 < env.schedDelayTime then ReadsTriples call.funcArgs
    else ∃ args, forwardArgs call = some args ∧ ReadsTriples args)

/-- A call finds an executor or can be forwarded. -/
def SubmitsForwardable (env : SchedEnv) (s : SchedState) : DispatchEvent → Prop
  | .submit _ call => Usable env s call.funcName ∨ Forwardable env s call
  | _ => True

/-! ## One call -/

theorem scheduleFuncCall_submitted
    (h : scheduleFuncCall env now call s = some s') : s'.submitted = s.submitted := by
  unfold SchedState.submitted
  rcases scheduleFuncCall_cases h with ⟨id, seed, cold, _, rfl⟩ | ⟨_, _, rfl⟩ | ⟨_, _, _, rfl⟩ |
    ⟨_, _, _, args, _, hforward⟩
  · obtain ⟨_, _, _, _, heq⟩ := sendToExecutor_spec now call id seed cold s
    rw [heq]
    simp [List.flatMap_append, SchedOut.submitted]
  · rfl
  · rfl
  · obtain ⟨_, _, _, _, _, _, rfl⟩ := forwardCallViaHelper_spec hforward
    simp [List.flatMap_append, SchedOut.submitted]

theorem submit_submitted {callId : Option UInt32}
    (h : submit env now callId call s = some s') : s'.submitted = s.submitted ++ [call] := by
  rw [scheduleFuncCall_submitted h]
  simp [SchedState.submitted, SchedState.emit, SchedOut.submitted]

theorem scheduleFuncCall_placed (hkeep : 0 < env.schedDelayTime ∨ env.rejectExtraReq = false)
    (h : scheduleFuncCall env now call s = some s') :
    s'.placed.Perm (call :: s.placed) := by
  unfold SchedState.placed SchedState.sentLocally SchedState.waiting SchedState.forwarded
  rcases scheduleFuncCall_cases h with ⟨id, seed, cold, _, rfl⟩ | ⟨_, _, rfl⟩ |
    ⟨_, hzero, hreject, _⟩ | ⟨_, _, _, args, _, hforward⟩
  · obtain ⟨_, _, _, _, heq⟩ := sendToExecutor_spec now call id seed cold s
    rw [heq]
    simp only [List.flatMap_append, List.flatMap_cons, List.flatMap_nil, SchedOut.sentLocally,
      SchedOut.forwarded, List.append_nil, List.append_assoc]
    exact List.perm_middle
  · simp only [List.map_append, List.map_cons, List.map_nil]
    rw [← List.append_assoc, List.append_assoc _ [call]]
    exact List.perm_middle
  · rw [hzero, hreject] at hkeep
    simp at hkeep
  · obtain ⟨_, _, _, _, _, _, rfl⟩ := forwardCallViaHelper_spec hforward
    simp only [List.flatMap_append, List.flatMap_cons, List.flatMap_nil, SchedOut.sentLocally,
      SchedOut.forwarded, List.append_nil]
    rw [← List.append_assoc]
    exact List.perm_append_singleton _ _

theorem scheduleFuncCall_sends_iff (h : scheduleFuncCall env now call s = some s') :
    Usable env s call.funcName ↔
      ∃ executor message status, s'.sent = s.sent ++ [.toExecutor executor call message] ∧
        s.executorStatusMap.find? executor = some status ∧ isAvail status = true ∧
        s'.executorStatusMap.find? executor = some .await := by
  constructor
  · intro husable
    rcases scheduleFuncCall_cases h with ⟨id, seed, cold, hpick, rfl⟩ | ⟨hnot, _⟩ | ⟨hnot, _⟩ |
      ⟨hnot, _⟩
    · obtain ⟨status, hstatus, havail⟩ := pickExecutor_avail hpick
      obtain ⟨_, _, _, _, heq⟩ := sendToExecutor_spec now call id seed cold s
      exact ⟨id, _, status, by rw [heq], hstatus, havail, by rw [heq]; simp⟩
    · exact absurd husable hnot
    · exact absurd husable hnot
    · exact absurd husable hnot
  · rintro ⟨executor, message, _, hsent, _⟩
    rcases scheduleFuncCall_cases h with ⟨id, seed, cold, hpick, _⟩ | ⟨_, _, rfl⟩ | ⟨_, _, _, rfl⟩ |
      ⟨_, _, _, args, _, hforward⟩
    · by_contra hnot
      rw [pickExecutor_none_iff.mpr hnot] at hpick
      cases hpick
    · simp at hsent
    · simp at hsent
    · obtain ⟨_, _, _, _, _, _, rfl⟩ := forwardCallViaHelper_spec hforward
      simp at hsent

theorem scheduleFuncCall_queue (h : scheduleFuncCall env now call s = some s') :
    s'.delayCallQueue = s.delayCallQueue ∨
      (0 < env.schedDelayTime ∧ ¬ Usable env s call.funcName ∧
        s'.delayCallQueue = s.delayCallQueue ++ [{ call, triggerTime := now }]) := by
  rcases scheduleFuncCall_cases h with ⟨id, seed, cold, _, rfl⟩ | ⟨hnot, hdelay, rfl⟩ |
    ⟨_, _, _, rfl⟩ | ⟨_, _, _, args, _, hforward⟩
  · obtain ⟨_, _, _, _, heq⟩ := sendToExecutor_spec now call id seed cold s
    rw [heq]
    exact Or.inl rfl
  · exact Or.inr ⟨hdelay, hnot, rfl⟩
  · exact Or.inl rfl
  · obtain ⟨_, _, _, _, _, _, rfl⟩ := forwardCallViaHelper_spec hforward
    exact Or.inl rfl

theorem scheduleFuncCall_isSome_iff (now : Stamp) (call : SchedCall) (s : SchedState) :
    (scheduleFuncCall env now call s).isSome ↔ Usable env s call.funcName ∨
      0 < env.schedDelayTime ∨ env.rejectExtraReq = true ∨ Forwardable env s call := by
  unfold scheduleFuncCall
  cases hpick : pickExecutor env call.funcName s with
  | some picked =>
    have husable : Usable env s call.funcName := by
      by_contra hnot
      rw [pickExecutor_none_iff.mpr hnot] at hpick
      cases hpick
    exact iff_of_true rfl (Or.inl husable)
  | none =>
    have hnot := pickExecutor_none_iff.mp hpick
    simp only [hnot, false_or]
    by_cases hdelay : 0 < env.schedDelayTime
    · simp [hdelay]
    by_cases hreject : env.rejectExtraReq = true
    · simp [hdelay, hreject]
    simp only [hdelay, hreject, if_false, Bool.false_eq_true, false_or, Forwardable]
    by_cases hflag : 0 < call.argFlag
    · cases hargs : forwardArgs call with
      | none => simp [hflag]
      | some args =>
        simp only [hflag, Option.some.injEq, exists_eq_left', forall_const]
        exact (forwardCallViaHelper_isSome ..).trans (by simp [hflag])
    · have hargs : forwardArgs call = some call.funcArgs := by
        unfold forwardArgs
        rw [if_neg hflag]
      rw [hargs]
      exact (forwardCallViaHelper_isSome ..).trans (by simp [hflag])

theorem scheduleFuncCall_announced
    (h : scheduleFuncCall env now call s = some s') : s'.appCoordMap = s.appCoordMap :=
  congrArg Records.appCoordMap (scheduleFuncCall_records h)

theorem forwardCallViaHelper_announced {sessionId : Session} {calls : List SchedCall}
    {args : List (List Bytes)} {argFlag : Int}
    (h : forwardCallViaHelper env sessionId appName calls args argFlag s = some s') :
    s'.appCoordMap = s.appCoordMap :=
  congrArg Records.appCoordMap (forwardCallViaHelper_records h)

theorem SchedState.Announced.congr (h : s.Announced appName)
    (happs : s'.appCoordMap = s.appCoordMap) : s'.Announced appName := by
  unfold SchedState.Announced
  rw [happs]
  exact h

theorem Forwardable.congr (h : Forwardable env s call)
    (happs : s'.appCoordMap = s.appCoordMap) : Forwardable env s' call :=
  ⟨h.1.congr happs, h.2⟩

/-! ## The delay queue -/

def QueueForwardable (env : SchedEnv) (s : SchedState) (queue : List DelayFunctionCall) : Prop :=
  ∀ delayed ∈ queue, 0 < env.schedDelayTime ∧ Forwardable env s delayed.call

theorem QueueForwardable.congr {queue : List DelayFunctionCall}
    (h : QueueForwardable env s queue) (happs : s'.appCoordMap = s.appCoordMap) :
    QueueForwardable env s' queue :=
  fun d hd => ⟨(h d hd).1, (h d hd).2.congr happs⟩

theorem placed_of_queue {rest : List DelayFunctionCall} (h : s.delayCallQueue = delayed :: rest) :
    s.placed.Perm (delayed.call :: { s with delayCallQueue := rest }.placed) := by
  unfold SchedState.placed SchedState.sentLocally SchedState.waiting SchedState.forwarded
  rw [h, List.map_cons]
  simp only [List.append_assoc, List.cons_append]
  exact List.perm_middle

structure Kept (env : SchedEnv) (s s' : SchedState) : Prop where
  submitted : s'.submitted = s.submitted
  placed : s'.placed.Perm s.placed
  queue : QueueForwardable env s' s'.delayCallQueue

theorem placed_of_retry (hdelay : 0 < env.schedDelayTime) {rest : List DelayFunctionCall}
    {s₁ : SchedState} (h : scheduleFuncCall env now delayed.call s = some s₁)
    (hqueue : s₁.delayCallQueue = delayed :: rest) :
    { s₁ with delayCallQueue := rest }.placed.Perm s.placed :=
  List.Perm.cons_inv
    ((placed_of_queue hqueue).symm.trans (scheduleFuncCall_placed (.inl hdelay) h))

theorem retryDelayed_kept (clock : Nat → Stamp) (n : Nat)
    (hqueue : QueueForwardable env s s.delayCallQueue) :
    ∃ s', retryDelayed env clock n s = some s' ∧ Kept env s s' := by
  induction n generalizing s with
  | zero => exact ⟨s, rfl, rfl, List.Perm.refl _, hqueue⟩
  | succ n ih =>
    unfold retryDelayed
    cases hq : s.delayCallQueue with
    | nil =>
      refine ⟨s, rfl, rfl, List.Perm.refl _, hqueue⟩
    | cons delayed rest =>
      have hdelay := (hqueue delayed (by rw [hq]; exact List.mem_cons_self)).1
      obtain ⟨s₁, hs₁⟩ := Option.isSome_iff_exists.mp
        ((scheduleFuncCall_isSome_iff (clock n) delayed.call s).mpr (.inr (.inl hdelay)))
      replace hqueue := hqueue.congr (scheduleFuncCall_announced hs₁)
      -- the retried call is still at the front, whether or not it was pushed again
      obtain ⟨rest', hrest'⟩ : ∃ rest', s₁.delayCallQueue = delayed :: rest' ∧
          QueueForwardable env s₁ rest' := by
        rcases scheduleFuncCall_queue hs₁ with hsame | ⟨_, _, hpush⟩
        · refine ⟨rest, by rw [hsame, hq], fun d hd => hqueue d ?_⟩
          rw [hq]
          exact List.mem_cons_of_mem _ hd
        · refine ⟨rest ++ [⟨delayed.call, clock n⟩], by rw [hpush, hq]; rfl, ?_⟩
          intro d hd
          rcases List.mem_append.mp hd with hd | hd
          · exact hqueue d (by rw [hq]; exact List.mem_cons_of_mem _ hd)
          · rw [List.mem_singleton] at hd
            subst hd
            exact hqueue delayed (by rw [hq]; exact List.mem_cons_self)
      have hplaced := placed_of_retry hdelay hs₁ hrest'.1
      obtain ⟨s', hs', hkept⟩ := ih (s := { s₁ with delayCallQueue := rest' }) hrest'.2
      refine ⟨s', ?_, ?_, hkept.placed.trans hplaced, hkept.queue⟩
      · simp only [hs₁, Option.bind_eq_bind, Option.bind_some, hrest'.1, List.tail_cons]
        exact hs'
      · rw [hkept.submitted, ← scheduleFuncCall_submitted hs₁]
        rfl

theorem placed_of_forward {sessionId : Session} {args : List (List Bytes)} {argFlag : Int}
    {s₁ : SchedState}
    (h : forwardCallViaHelper env sessionId appName [delayed.call] args argFlag s = some s₁)
    (rest : List DelayFunctionCall) :
    { s with delayCallQueue := delayed :: rest }.placed.Perm
      { s₁ with delayCallQueue := rest }.placed := by
  refine (placed_of_queue (s := { s with delayCallQueue := delayed :: rest }) rfl).trans ?_
  obtain ⟨_, _, _, _, _, _, rfl⟩ := forwardCallViaHelper_spec h
  simp only [SchedState.placed, SchedState.sentLocally, SchedState.waiting,
    SchedState.forwarded, List.flatMap_append, List.flatMap_cons, List.flatMap_nil,
    SchedOut.sentLocally, SchedOut.forwarded, List.append_nil]
  rw [← List.append_assoc]
  exact (List.perm_append_singleton _ _).symm

theorem forwardDelayed_kept (hreject : env.rejectExtraReq = false) (stamp : Stamp)
    (queue : List DelayFunctionCall) (hqueue : QueueForwardable env s queue) :
    ∃ s', forwardDelayed env stamp queue s = some s' ∧
      Kept env { s with delayCallQueue := queue } s' := by
  induction queue generalizing s with
  | nil => exact ⟨_, rfl, rfl, List.Perm.refl _, hqueue⟩
  | cons delayed rest ih =>
    unfold forwardDelayed
    by_cases hlate : (env.schedDelayTime : Int) < stamp - delayed.triggerTime
    · rw [if_pos hlate, if_neg (by simp [hreject])]
      obtain ⟨hdelay, happ, hreads⟩ := hqueue delayed List.mem_cons_self
      rw [if_pos hdelay] at hreads
      obtain ⟨s₁, hs₁⟩ := Option.isSome_iff_exists.mp ((forwardCallViaHelper_isSome
        env delayed.call.sessionId [delayed.call]).mpr ⟨happ, hreads⟩)
      obtain ⟨s', hs', hkept⟩ := ih (s := s₁) (QueueForwardable.congr
        (fun d hd => hqueue d (List.mem_cons_of_mem _ hd)) (forwardCallViaHelper_announced hs₁))
      refine ⟨s', by rw [forwardFrom, hs₁]; exact hs', ?_, ?_, hkept.queue⟩
      · rw [hkept.submitted]
        obtain ⟨_, _, _, _, _, _, rfl⟩ := forwardCallViaHelper_spec hs₁
        simp [SchedState.submitted, List.flatMap_append, SchedOut.submitted]
      · exact hkept.placed.trans (placed_of_forward hs₁ rest).symm
    · rw [if_neg hlate]
      exact ⟨_, rfl, rfl, List.Perm.refl _, hqueue⟩

theorem delayPass_kept (hreject : env.rejectExtraReq = false) (clock : Nat → Stamp) (stamp : Stamp)
    (hqueue : QueueForwardable env s s.delayCallQueue) :
    ∃ s', delayPass env clock stamp s = some s' ∧ Kept env s s' := by
  obtain ⟨s₁, hs₁, hkept₁⟩ := retryDelayed_kept clock (availExecutorNum s) hqueue
  obtain ⟨s', hs', hkept'⟩ := forwardDelayed_kept (s := s₁) hreject stamp s₁.delayCallQueue
    hkept₁.queue
  refine ⟨s', ?_, hkept'.submitted.trans hkept₁.submitted, hkept'.placed.trans hkept₁.placed,
    hkept'.queue⟩
  unfold delayPass
  rw [hs₁]
  exact hs'

/-! ## Whole runs -/

structure DispatchInv (env : SchedEnv) (s : SchedState) : Prop where
  accounted : s.Accounted
  queue : QueueForwardable env s s.delayCallQueue

theorem submit_dispatchInv (hreject : env.rejectExtraReq = false) (now : Stamp)
    (hinv : DispatchInv env s) (hok : Usable env s call.funcName ∨ Forwardable env s call) :
    ∃ s', submit env now none call s = some s' ∧ DispatchInv env s' := by
  obtain ⟨s', hs'⟩ := Option.isSome_iff_exists.mp ((scheduleFuncCall_isSome_iff now call
    (s.emit (.submit none call))).mpr (hok.imp_right fun h => .inr (.inr h)))
  refine ⟨s', hs', ?_, ?_⟩
  · have hsubmitted : s'.submitted = s.submitted ++ [call] := submit_submitted hs'
    have hplaced : (s.emit (.submit none call)).placed = s.placed := by
      simp [SchedState.placed, SchedState.emit, SchedState.sentLocally, SchedState.waiting,
        SchedState.forwarded, List.flatMap_append, SchedOut.sentLocally, SchedOut.forwarded]
    unfold SchedState.Accounted
    rw [hsubmitted]
    refine (List.perm_append_singleton _ _).trans ?_
    refine (hinv.accounted.cons call).trans ?_
    rw [← hplaced]
    exact (scheduleFuncCall_placed (.inr hreject) hs').symm
  · refine QueueForwardable.congr (s := s) ?_
      ((scheduleFuncCall_announced hs').trans rfl)
    rcases scheduleFuncCall_queue hs' with hsame | ⟨hdelay, hnot, hpush⟩
    · rw [hsame]
      exact hinv.queue
    · rw [hpush]
      intro d hd
      rcases List.mem_append.mp hd with hd | hd
      · exact hinv.queue d hd
      · rw [List.mem_singleton.mp hd]
        exact ⟨hdelay, hok.resolve_left hnot⟩

theorem dispatchStep_inv (hreject : env.rejectExtraReq = false) (s : SchedState) (e : DispatchEvent)
    (hinv : DispatchInv env s) (hok : SubmitsForwardable env s e) :
    ∃ s', dispatchStep env s e = some s' ∧ DispatchInv env s' := by
  cases e with
  | submit now call => exact submit_dispatchInv hreject now hinv hok
  | busy executor => exact ⟨_, rfl, hinv.accounted, hinv.queue⟩
  | available executor => exact ⟨_, rfl, hinv.accounted, hinv.queue⟩
  | delayPass clock stamp =>
    obtain ⟨s', hs', hkept⟩ := delayPass_kept hreject clock stamp hinv.queue
    refine ⟨s', hs', ?_, hkept.queue⟩
    unfold SchedState.Accounted
    rw [hkept.submitted]
    exact hinv.accounted.trans hkept.placed.symm
  | rehash m =>
    obtain ⟨m', hm', _⟩ := rehash_eq m s
    exact ⟨_, congrArg some hm', hinv.accounted, hinv.queue⟩

/-- Sending is decided by the executors alone, and in every run in which the
calls that find no executor can be forwarded, each submitted call is in exactly
one of the three places at any time. -/
theorem dispatch_accounts_every_call (env : SchedEnv) (hreject : env.rejectExtraReq = false) :
    (∀ now call s s', scheduleFuncCall env now call s = some s' →
      (Usable env s call.funcName ↔
        ∃ executor message status, s'.sent = s.sent ++ [.toExecutor executor call message] ∧
          s.executorStatusMap.find? executor = some status ∧ isAvail status = true ∧
          s'.executorStatusMap.find? executor = some .await)) ∧
      ∀ s es, s.sent = [] → s.delayCallQueue = [] →
        Along (dispatchStep env) (SubmitsForwardable env) s es →
          (run (dispatchStep env) s es).isSome ∧
            Throughout (dispatchStep env) SchedState.Accounted s es := by
  refine ⟨fun now call s s' h => scheduleFuncCall_sends_iff h, ?_⟩
  intro s es hsent hqueue hok
  have hstart : DispatchInv env s := by
    constructor
    · unfold SchedState.Accounted SchedState.submitted SchedState.placed SchedState.sentLocally
        SchedState.waiting SchedState.forwarded
      rw [hsent, hqueue]
      exact List.Perm.refl _
    · rw [hqueue]
      intro d hd
      cases hd
  refine ⟨run_isSome_of_along (dispatchStep_inv hreject) hstart hok, ?_⟩
  refine throughout_of_along (fun s hinv => hinv.accounted) ?_ hstart hok
  intro s e s' hinv hok hstep
  obtain ⟨s₁, hs₁, hinv₁⟩ := dispatchStep_inv hreject s e hinv hok
  rw [hstep, Option.some.injEq] at hs₁
  rw [hs₁]
  exact hinv₁

def delayingEnv : SchedEnv where
  ip := Bytes.lit "10.0.0.1"
  ioThreadCount := 1
  ioThreadCount_pos := Nat.one_pos
  schedDelayTime := 500
  sharedExecutor := false
  rejectExtraReq := false
  randR := fun seed => (0, seed)
  readShm := fun _ _ => []

def keyCall : SchedCall where
  sessionId := Bytes.lit "0123456789abcdef"
  appName := Bytes.lit "app"
  funcName := Bytes.lit "f"
  funcArgs := [Bytes.lit "b|k0123456789abcdef", Bytes.lit "2000"]
  argFlag := 1

def toldState : SchedState := { SchedState.new 0 1 with
  appCoordMap := Map.empty.set (Bytes.lit "app") { ip := Bytes.lit "10.0.0.9", tid := 0 } }

theorem dispatch_accounts_every_call_delayed :
    let es := [.submit 0 { keyCall with funcArgs := [], argFlag := 0 },
      .delayPass (fun _ => 0) 501]
    (run (dispatchStep delayingEnv) toldState es).isSome ∧
      Throughout (dispatchStep delayingEnv) SchedState.Accounted toldState es := by
  intro es
  apply (dispatch_accounts_every_call delayingEnv rfl).2 _ es rfl rfl
  refine ⟨.inr ⟨rfl, fun h => absurd h (by decide)⟩, fun s' _ => ⟨trivial, fun _ _ => trivial⟩⟩

/-- The delay queue takes the call on an object and cannot forward it: the pass
reads past the two arguments. -/
theorem delayed_keyCall_undefined :
    delayingEnv.rejectExtraReq = false ∧ toldState.Announced keyCall.appName ∧
      (run (dispatchStep delayingEnv) toldState [.submit 0 keyCall]).map
        SchedState.waiting = some [keyCall] ∧
      run (dispatchStep delayingEnv) toldState
        [.submit 0 keyCall, .delayPass (fun _ => 0) 501] = none := by
  refine ⟨rfl, rfl, rfl, rfl⟩

end Pheromone.Scheduler
