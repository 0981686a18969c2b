import Pheromone.Scheduler.Proofs.Accounting
import Pheromone.Scheduler.Proofs.Told

/-!
# The deadline of the delay queue

The pass over the delay queue forwards the calls that waited longer than
`schedDelayTime`.  A call that is tried again without success goes to the back of the
queue with a new time, so the queue itself does not tell how long a call has waited.
Here each call is followed from its first insertion.
-/

namespace Pheromone.Scheduler

open Lib Common

/-! ## First insertions -/

/-- A scheduler, the time at which each call of its delay queue was first put there, and the
last reading of the clock. -/
structure Aged where
  state : SchedState
  firsts : List Stamp
  time : Stamp

variable {env : SchedEnv} {a a' : Aged} {s s' : SchedState} {now time stamp : Stamp}
  {clock : Nat → Stamp} {queue : List DelayFunctionCall} {status : ExecutorStatus} {e : NodeEvent}
  {n : Nat} {b : SchedState × List Stamp}

def Aged.start (ramSeed : UInt32) (executors : Nat) (time : Stamp) : Aged where
  state := SchedState.new ramSeed executors
  firsts := []
  time := time

def agedRetry (env : SchedEnv) (clock : Nat → Stamp) :
    Nat → SchedState × List Stamp → Option (SchedState × List Stamp)
  | 0, a => some a
  | n + 1, a =>
      match a.1.delayCallQueue with
      | [] => some a
      | delayed :: _ =>
          (scheduleFuncCall env (clock n) delayed.call a.1).bind fun s =>
            agedRetry env clock n
              ({ s with delayCallQueue := s.delayCallQueue.tail },
                -- a call that is put back keeps the time of its first insertion
                (if s.delayCallQueue.length = a.1.delayCallQueue.length then a.2
                  else a.2 ++ a.2.head?.toList).tail)

def NodeEvent.reading : NodeEvent → Option Stamp
  | .executor now _ | .call now _ | .dataResp now _ _ | .update now _ | .rerunCheck now _ _ =>
      some now
  | .kvsGetResp _ _ | .kvsPutResp _ => none
  | .delayPass _ stamp => some stamp

/-- Every other event puts new calls at the back of the queue. -/
def agedStep (env : SchedEnv) (a : Aged) (e : NodeEvent) : Option Aged :=
  match e with
  | .delayPass clock stamp =>
      (agedRetry env clock (availExecutorNum a.state) (a.state, a.firsts)).bind fun b =>
        (forwardDelayed env stamp b.1.delayCallQueue b.1).map fun s =>
          { state := s
            firsts := b.2.drop (b.1.delayCallQueue.length - s.delayCallQueue.length)
            time := stamp }
  | e =>
      (nodeStep env a.state e).map fun s =>
        { state := s
          firsts := a.firsts ++ (s.delayCallQueue.drop a.state.delayCallQueue.length).map
            DelayFunctionCall.triggerTime
          time := e.reading.getD a.time }

/-- The clock does not go back.  The tries of a pass count down. -/
def OnTime (a : Aged) : NodeEvent → Prop
  | .delayPass clock stamp =>
      (∀ n < availExecutorNum a.state, a.time ≤ clock n ∧ clock n ≤ stamp) ∧
        (∀ m n, m ≤ n → n < availExecutorNum a.state → clock n ≤ clock m) ∧ a.time ≤ stamp
  | e => ∀ now ∈ e.reading, a.time ≤ now

inductive AgedEvent
  | node (e : NodeEvent)
  /-- The status map changes its order. -/
  | rehash (m : UMap ExecutorId ExecutorStatus)

def timedStep (env : SchedEnv) (a : Aged) : AgedEvent → Option Aged
  | .node e => agedStep env a e
  | .rehash m => some { a with state := a.state.rehash m }

def TimedRun (env : SchedEnv) (a : Aged) (es : List AgedEvent) (b : Aged) : Prop :=
  Along (timedStep env) (fun a e => ∀ n, e = .node n → OnTime a n) a es ∧
    run (timedStep env) a es = some b

theorem agedRetry_state (env : SchedEnv) (clock : Nat → Stamp) (n : Nat)
    (a : SchedState × List Stamp) :
    (agedRetry env clock n a).map Prod.fst = retryDelayed env clock n a.1 := by
  induction n generalizing a with
  | zero => rfl
  | succ n ih =>
    cases hqueue : a.1.delayCallQueue with
    | nil => simp only [agedRetry, retryDelayed, hqueue, Option.map_some, Option.pure_def]
    | cons delayed rest =>
      simp only [agedRetry, retryDelayed, hqueue, Option.map_bind, Option.bind_eq_bind]
      congr 1
      funext s
      exact ih _

theorem agedStep_state (env : SchedEnv) (a : Aged) (e : NodeEvent) :
    (agedStep env a e).map Aged.state = nodeStep env a.state e := by
  cases e with
  | delayPass clock stamp =>
    change _ = delayPass env clock stamp a.state
    unfold agedStep delayPass
    rw [← agedRetry_state env clock _ (a.state, a.firsts)]
    simp only [Option.map_bind, Option.bind_map, Option.bind_eq_bind]
    congr 1
    funext b
    simp only [Function.comp_apply, Option.map_map]
    exact Option.map_id'
  | _ =>
    unfold agedStep
    rw [Option.map_map]
    exact Option.map_id'

/-! ## New calls -/

def Queued (now : Stamp) (s s' : SchedState) : Prop :=
  ∃ new, s'.delayCallQueue = s.delayCallQueue ++ new ∧ ∀ d ∈ new, d.triggerTime = now

theorem Queued.of_eq (h : s'.delayCallQueue = s.delayCallQueue) : Queued now s s' :=
  ⟨[], by rw [h, List.append_nil], fun _ hd => absurd hd List.not_mem_nil⟩

theorem Queued.trans {s₁ s₂ s₃ : SchedState} (h : Queued now s₁ s₂) (h' : Queued now s₂ s₃) :
    Queued now s₁ s₃ := by
  obtain ⟨new, hqueue, hnew⟩ := h
  obtain ⟨new', hqueue', hnew'⟩ := h'
  refine ⟨new ++ new', by rw [hqueue', hqueue, List.append_assoc], ?_⟩
  intro d hd
  rcases List.mem_append.mp hd with hd | hd
  · exact hnew d hd
  · exact hnew' d hd

theorem submit_queued {callId : Option UInt32} {call : SchedCall}
    (h : submit env now callId call s = some s') : Queued now s s' := by
  rcases scheduleFuncCall_queue h with hsame | ⟨-, -, hpush⟩
  · exact .of_eq hsame
  · refine ⟨_, hpush, ?_⟩
    intro d hd
    rw [List.mem_singleton.mp hd]

theorem sendEphemeral_queued {packing : Packing} {infos : SendInfos}
    (h : sendEphemeral env now packing infos s = some s') : Queued now s s' := by
  refine sendEphemeral_preserves (Q := Queued now s) ?_
    (fun _ _ _ _ h hs => hs.trans (submit_queued h)) ?_ (fun _ _ hs => hs.trans (.of_eq rfl)) ?_
    (fun _ _ hs => hs.trans (.of_eq rfl)) h
  · intro s₁ hstore
    obtain ⟨_, _, rfl, _⟩ := storeObject_spec hstore
    exact .of_eq rfl
  · intro appName calls args argFlag s₁ s₂ hforward hs
    obtain ⟨_, _, _, _, _, _, rfl⟩ := forwardCallViaHelper_spec hforward
    exact hs.trans (.of_eq rfl)
  · intro active payload s₁ hs
    obtain ⟨rid, id, outs, heq, -⟩ := notifyPut_state env infos.bucketKey active
      (s₁.clientAddr infos.sessionId) payload (s₁.touchClientAddr infos.sessionId)
    rw [heq]
    exact hs.trans (.of_eq rfl)

theorem nodeStep_queued (h : nodeStep env s e = some s')
    (he : ∀ clock stamp, e ≠ .delayPass clock stamp) (hnow : ∀ t ∈ e.reading, t = now) :
    Queued now s s' := by
  cases e with
  | executor t message =>
    obtain rfl := hnow t rfl
    exact executorMessage_preserves (Q := Queued t s)
      (fun _ _ _ _ _ _ _ _ hs => hs.trans (.of_eq rfl))
      (fun _ _ hsend => sendEphemeral_queued hsend) h (.of_eq rfl)
  | call t msg =>
    obtain rfl := hnow t rfl
    exact handleCall_preserves (Q := Queued t s)
      (fun _ _ _ _ _ _ _ hs => hs.trans (.of_eq rfl))
      (fun _ _ _ hs => hs.trans (.of_eq rfl))
      (fun _ _ _ _ h hs => hs.trans (submit_queued h)) h (.of_eq rfl)
  | dataResp t key size =>
    obtain rfl := hnow t rfl
    exact dataResp_preserves (Q := Queued t s)
      (fun _ _ _ _ _ _ _ hs => hs.trans (.of_eq rfl))
      (fun _ _ _ _ h hs => hs.trans (submit_queued h)) h (.of_eq rfl)
  | kvsGetResp key size =>
    cases h
    rw [kvsGetResp, answerGets_eq]
    exact .of_eq rfl
  | kvsPutResp key =>
    cases h
    rw [kvsPutResp_eq]
    exact .of_eq rfl
  | update t msg =>
    exact handleUpdate_preserves (Q := Queued now s)
      (fun _ _ _ _ _ _ _ _ hs => hs.trans (.of_eq rfl)) h (.of_eq rfl)
  | delayPass clock stamp => exact absurd rfl (he clock stamp)
  | rerunCheck t reportEnd fuel =>
    obtain rfl := hnow t rfl
    exact rerunCheck_preserves (Q := Queued t s)
      (fun _ _ _ h hs => hs.trans (submit_queued h)) (fun _ _ hs => hs.trans (.of_eq rfl)) h
      (.of_eq rfl)

/-! ## The order of the queue -/

structure Orderly (queue : List DelayFunctionCall) (time : Stamp) : Prop where
  sorted : queue.Pairwise fun d d' => d.triggerTime ≤ d'.triggerTime
  past : ∀ d ∈ queue, d.triggerTime ≤ time

theorem Orderly.mono (h : Orderly queue time) (hnow : time ≤ now) : Orderly queue now :=
  ⟨h.sorted, fun d hd => (h.past d hd).trans hnow⟩

theorem Orderly.sublist {queue' : List DelayFunctionCall} (h : Orderly queue time)
    (hsub : queue'.Sublist queue) : Orderly queue' time :=
  ⟨h.sorted.sublist hsub, fun d hd => h.past d (hsub.subset hd)⟩

theorem Orderly.append {new : List DelayFunctionCall} (h : Orderly queue time) (hnow : time ≤ now)
    (hnew : ∀ d ∈ new, d.triggerTime = now) : Orderly (queue ++ new) now := by
  refine ⟨List.pairwise_append.mpr ⟨h.sorted, ?_, ?_⟩, ?_⟩
  · apply List.pairwise_of_forall_mem_list
    intro d hd d' hd'
    rw [hnew d hd, hnew d' hd']
  · intro d hd d' hd'
    rw [hnew d' hd']
    exact (h.past d hd).trans hnow
  · intro d hd
    rcases List.mem_append.mp hd with hd | hd
    · exact (h.past d hd).trans hnow
    · exact (hnew d hd).le

def late (env : SchedEnv) (stamp : Stamp) (delayed : DelayFunctionCall) : Bool :=
  (env.schedDelayTime : Int) < stamp - delayed.triggerTime

theorem forwardDelayed_queue (h : forwardDelayed env stamp queue s = some s') :
    s'.delayCallQueue = queue.dropWhile (late env stamp) := by
  induction queue generalizing s with
  | nil =>
    cases h
    rfl
  | cons delayed rest ih =>
    unfold forwardDelayed at h
    by_cases hlate : (env.schedDelayTime : Int) < stamp - delayed.triggerTime
    · rw [List.dropWhile_cons_of_pos (by simpa [late] using hlate)]
      rw [if_pos hlate] at h
      split at h
      · exact ih h
      · obtain ⟨s₁, -, h⟩ := Option.bind_eq_some_iff.mp h
        exact ih h
    · rw [List.dropWhile_cons_of_neg (by simpa [late] using hlate)]
      rw [if_neg hlate] at h
      cases h
      rfl

theorem Orderly.not_late (h : Orderly queue time) (env : SchedEnv) (stamp : Stamp) :
    ∀ d ∈ queue.dropWhile (late env stamp), late env stamp d = false := by
  induction queue with
  | nil => exact fun d hd => absurd hd List.not_mem_nil
  | cons delayed rest ih =>
    have hrest : Orderly rest time := h.sublist (List.sublist_cons_self _ _)
    cases hlate : late env stamp delayed with
    | true =>
      rw [List.dropWhile_cons_of_pos hlate]
      exact ih hrest
    | false =>
      rw [List.dropWhile_cons_of_neg (by simp [hlate])]
      intro d hd
      rcases List.mem_cons.mp hd with rfl | hd
      · exact hlate
      · have hle : delayed.triggerTime ≤ d.triggerTime :=
          List.rel_of_pairwise_cons h.sorted hd
        simp only [late, decide_eq_false_iff_not] at hlate ⊢
        exact fun hd => hlate (hd.trans_le (Int.sub_le_sub_left hle stamp))

/-! ## The first loop -/

theorem retry_queue {delayed : DelayFunctionCall} {rest : List DelayFunctionCall}
    (h : scheduleFuncCall env now delayed.call s = some s')
    (hqueue : s.delayCallQueue = delayed :: rest) :
    s'.delayCallQueue = delayed :: rest ∨
      (¬ Usable env s delayed.call.funcName ∧
        s'.delayCallQueue =
          delayed :: (rest ++ [{ call := delayed.call, triggerTime := now }])) := by
  rcases scheduleFuncCall_queue h with hsame | ⟨-, hnot, hpush⟩
  · exact Or.inl (hsame.trans hqueue)
  · refine Or.inr ⟨hnot, ?_⟩
    rw [hpush, hqueue]
    rfl

theorem agedRetry_succ_cases {a : SchedState × List Stamp}
    (h : agedRetry env clock (n + 1) a = some b) :
    b = a ∨ ∃ delayed rest s, a.1.delayCallQueue = delayed :: rest ∧
      scheduleFuncCall env (clock n) delayed.call a.1 = some s ∧
      agedRetry env clock n
        ({ s with delayCallQueue := s.delayCallQueue.tail },
          (if s.delayCallQueue.length = a.1.delayCallQueue.length then a.2
            else a.2 ++ a.2.head?.toList).tail) = some b := by
  rw [agedRetry] at h
  split at h
  · exact Or.inl (Option.some.inj h).symm
  next delayed rest hqueue =>
    obtain ⟨s, hs, h⟩ := Option.bind_eq_some_iff.mp h
    exact Or.inr ⟨delayed, rest, s, hqueue, hs, h⟩

theorem agedRetry_orderly {a : SchedState × List Stamp} (h : agedRetry env clock n a = some b)
    (hlength : a.2.length = a.1.delayCallQueue.length) (ha : Orderly a.1.delayCallQueue time)
    (hclock : ∀ m < n, time ≤ clock m ∧ clock m ≤ stamp)
    (hanti : ∀ m k, m ≤ k → k < n → clock k ≤ clock m) (htime : time ≤ stamp) :
    b.2.length = b.1.delayCallQueue.length ∧ Orderly b.1.delayCallQueue stamp := by
  induction n generalizing a time with
  | zero =>
    cases h
    exact ⟨hlength, ha.mono htime⟩
  | succ n ih =>
    rcases agedRetry_succ_cases h with rfl | ⟨delayed, rest, s, hqueue, hs, h⟩
    · exact ⟨hlength, ha.mono htime⟩
    · rw [hqueue] at ha hlength h
      have hrest : Orderly rest time := ha.sublist (List.sublist_cons_self _ _)
      obtain ⟨hlast, hle⟩ := hclock n (Nat.lt_succ_self n)
      have hqueue' : Orderly s.delayCallQueue.tail (clock n) := by
        rcases retry_queue hs hqueue with hsame | ⟨-, hback⟩
        · rw [hsame]
          exact hrest.mono hlast
        · rw [hback]
          exact hrest.append hlast fun d hd => by rw [List.mem_singleton.mp hd]
      refine ih h ?_ hqueue' ?_ ?_ hle
      · obtain ⟨first, firsts, hfirsts⟩ := List.exists_cons_of_length_eq_add_one hlength
        rcases retry_queue hs hqueue with hsame | ⟨-, hback⟩
        · simpa [hsame, hfirsts] using hlength
        · simpa [hback, hfirsts] using hlength
      · intro m hm
        exact ⟨hanti m n hm.le (Nat.lt_succ_self n), (hclock m (Nat.lt_succ_of_lt hm)).2⟩
      · intro m k hmk hk
        exact hanti m k hmk (Nat.lt_succ_of_lt hk)

/-! ## Shared executors -/

theorem availExecutorNum_eq_weight (s : SchedState) :
    availExecutorNum s =
      s.executorStatusMap.weight fun status => if isAvail status then 1 else 0 := by
  unfold availExecutorNum UMap.weight
  induction s.executorStatusMap.entries with
  | nil => rfl
  | cons entry entries ih =>
    rw [List.countP_cons, List.foldr_cons, ih]
    exact Nat.add_comm _ _

theorem availExecutorNum_sendToExecutor {call : SchedCall} {id : ExecutorId} {seed : UInt32}
    {cold : Bool} (h : pickExecutor env call.funcName s = some (id, seed, cold)) (now : Stamp) :
    availExecutorNum (sendToExecutor now call id seed cold s) + 1 = availExecutorNum s := by
  obtain ⟨status, hstatus, havail⟩ := pickExecutor_avail h
  obtain ⟨_, _, _, _, heq⟩ := sendToExecutor_spec now call id seed cold s
  have hweight := UMap.weight_set (fun status => if isAvail status then 1 else 0)
    s.executorStatusMap id .await
  have hawait : isAvail .await = false := rfl
  simp only [hstatus, Option.map_some, Option.getD_some, havail, hawait, if_true,
    Bool.false_eq_true, if_false] at hweight
  rw [availExecutorNum_eq_weight, availExecutorNum_eq_weight, heq]
  exact hweight

theorem usable_of_avail (hshared : env.sharedExecutor = true) (havail : 0 < availExecutorNum s)
    (funcName : Name) : Usable env s funcName := by
  obtain ⟨⟨id, status⟩, hentry, hstatus⟩ := List.countP_pos_iff.mp havail
  refine ⟨id, status, UMap.find?_eq_some_iff.mpr hentry, ?_⟩
  simp only [isAvail, Bool.or_eq_true, decide_eq_true_eq] at hstatus
  rcases hstatus with hempty | havailable
  · exact Or.inr (Or.inl hempty)
  · exact Or.inr (Or.inr ⟨hshared, havailable⟩)

theorem agedRetry_shared (hshared : env.sharedExecutor = true) {a : SchedState × List Stamp}
    (h : agedRetry env clock n a = some b) (hn : n ≤ availExecutorNum a.1)
    (ha : a.2 = a.1.delayCallQueue.map DelayFunctionCall.triggerTime) :
    b.2 = b.1.delayCallQueue.map DelayFunctionCall.triggerTime ∧
      b.1.delayCallQueue <:+ a.1.delayCallQueue ∧ b.1.appCoordMap = a.1.appCoordMap := by
  induction n generalizing a with
  | zero =>
    cases h
    exact ⟨ha, List.suffix_refl _, rfl⟩
  | succ n ih =>
    rcases agedRetry_succ_cases h with rfl | ⟨delayed, rest, s, hqueue, hs, h⟩
    · exact ⟨ha, List.suffix_refl _, rfl⟩
    · have husable : Usable env a.1 delayed.call.funcName :=
        usable_of_avail hshared (by omega) _
      have hsame : s.delayCallQueue = delayed :: rest :=
        (retry_queue hs hqueue).resolve_right fun hback => hback.1 husable
      rcases scheduleFuncCall_cases hs with ⟨id, seed, cold, hpick, rfl⟩ | ⟨hnot, _⟩ |
        ⟨hnot, _⟩ | ⟨hnot, _⟩
      · have havail := availExecutorNum_sendToExecutor hpick (clock n)
        have hsub : n ≤ availExecutorNum
            (sendToExecutor (clock n) delayed.call id seed cold a.1) := by omega
        obtain ⟨hfirsts, hsuffix, happs⟩ := ih h hsub (by
          simp only [hsame, ha, hqueue, List.length_cons, if_true, List.map_cons,
            List.tail_cons])
        have happs' := scheduleFuncCall_announced hs
        refine ⟨hfirsts, ?_, happs.trans happs'⟩
        rw [hsame, List.tail_cons] at hsuffix
        rw [hqueue]
        exact hsuffix.trans (List.suffix_cons delayed rest)
      · exact absurd husable hnot
      · exact absurd husable hnot
      · exact absurd husable hnot

/-! ## Runs -/

structure AgedInv (a : Aged) : Prop where
  length : a.firsts.length = a.state.delayCallQueue.length
  orderly : Orderly a.state.delayCallQueue a.time

def Unmoved (a : Aged) : Prop :=
  a.firsts = a.state.delayCallQueue.map DelayFunctionCall.triggerTime

theorem agedStart_inv (ramSeed : UInt32) (executors : Nat) (time : Stamp) :
    AgedInv (Aged.start ramSeed executors time) where
  length := rfl
  orderly := ⟨List.Pairwise.nil, fun _ hd => absurd hd List.not_mem_nil⟩

theorem agedStart_unmoved (ramSeed : UInt32) (executors : Nat) (time : Stamp) :
    Unmoved (Aged.start ramSeed executors time) :=
  rfl

theorem agedStep_pass (h : agedStep env a (.delayPass clock stamp) = some a') :
    ∃ b, agedRetry env clock (availExecutorNum a.state) (a.state, a.firsts) = some b ∧
      a'.state.delayCallQueue = b.1.delayCallQueue.dropWhile (late env stamp) ∧
      a'.firsts = b.2.drop (b.1.delayCallQueue.length - a'.state.delayCallQueue.length) ∧
      a'.time = stamp := by
  obtain ⟨b, hb, h⟩ := Option.bind_eq_some_iff.mp h
  obtain ⟨s, hs, rfl⟩ := Option.map_eq_some_iff.mp h
  exact ⟨b, hb, forwardDelayed_queue hs, rfl, rfl⟩

theorem agedStep_other (he : ∀ clock stamp, e ≠ .delayPass clock stamp)
    (h : agedStep env a e = some a') :
    ∃ new, a'.state.delayCallQueue = a.state.delayCallQueue ++ new ∧
      a'.firsts = a.firsts ++ new.map DelayFunctionCall.triggerTime ∧
      a'.time = e.reading.getD a.time ∧ ∀ d ∈ new, d.triggerTime = a'.time := by
  have hstep : agedStep env a e = (nodeStep env a.state e).map fun s =>
      { state := s
        firsts := a.firsts ++ (s.delayCallQueue.drop a.state.delayCallQueue.length).map
          DelayFunctionCall.triggerTime
        time := e.reading.getD a.time } := by
    cases e with
    | delayPass clock stamp => exact absurd rfl (he clock stamp)
    | _ => rfl
  rw [hstep] at h
  obtain ⟨s, hs, rfl⟩ := Option.map_eq_some_iff.mp h
  have hreading : ∀ t ∈ e.reading, t = e.reading.getD a.time := by
    intro t ht
    rw [Option.mem_def.mp ht]
    rfl
  obtain ⟨new, hqueue, hnew⟩ := nodeStep_queued hs he hreading
  refine ⟨new, hqueue, ?_, rfl, hnew⟩
  simp only [hqueue, List.drop_left]

theorem agedStep_inv (ha : AgedInv a) (htime : OnTime a e) (h : agedStep env a e = some a') :
    AgedInv a' := by
  by_cases hpass : ∃ clock stamp, e = .delayPass clock stamp
  · obtain ⟨clock, stamp, rfl⟩ := hpass
    obtain ⟨b, hb, hqueue, hfirsts, hstamp⟩ := agedStep_pass h
    obtain ⟨hclock, hanti, hle⟩ := htime
    obtain ⟨hlength, horderly⟩ := agedRetry_orderly hb ha.length ha.orderly hclock hanti hle
    have hsub := List.dropWhile_sublist (late env stamp) (l := b.1.delayCallQueue)
    refine ⟨?_, ?_⟩
    · have hshort := hsub.length_le
      rw [hfirsts, List.length_drop, hlength, hqueue]
      omega
    · rw [hqueue, hstamp]
      exact horderly.sublist hsub
  · rw [not_exists] at hpass
    obtain ⟨new, hqueue, hfirsts, hreading, hnew⟩ :=
      agedStep_other (fun clock stamp heq => hpass clock ⟨stamp, heq⟩) h
    have hle : a.time ≤ a'.time := by
      rw [hreading]
      cases e with
      | delayPass clock stamp => exact absurd ⟨stamp, rfl⟩ (hpass clock)
      | kvsGetResp _ _ | kvsPutResp _ => exact le_refl _
      | executor t _ | call t _ | dataResp t _ _ | update t _ | rerunCheck t _ _ =>
        exact htime t rfl
    refine ⟨?_, ?_⟩
    · rw [hfirsts, hqueue, List.length_append, List.length_append, List.length_map, ha.length]
    · rw [hqueue]
      exact ha.orderly.append hle hnew

theorem agedStep_unmoved (hshared : env.sharedExecutor = true) (ha : Unmoved a)
    (h : agedStep env a e = some a') : Unmoved a' := by
  unfold Unmoved at ha ⊢
  by_cases hpass : ∃ clock stamp, e = .delayPass clock stamp
  · obtain ⟨clock, stamp, rfl⟩ := hpass
    obtain ⟨b, hb, hqueue, hfirsts, -⟩ := agedStep_pass h
    have hsuffix : a'.state.delayCallQueue <:+ b.1.delayCallQueue := by
      rw [hqueue]
      exact List.dropWhile_suffix _
    rw [hfirsts, (agedRetry_shared hshared hb (le_refl _) ha).1, ← List.map_drop,
      ← List.suffix_iff_eq_drop.mp hsuffix]
  · rw [not_exists] at hpass
    obtain ⟨new, hqueue, hfirsts, -, -⟩ :=
      agedStep_other (fun clock stamp heq => hpass clock ⟨stamp, heq⟩) h
    rw [hfirsts, hqueue, ha, List.map_append]

/-! ## What leaves the queue -/

/-- The calls of `s` are sent here, waiting or forwarded in `s'`, apart from those that were
rejected. -/
def Leaves (env : SchedEnv) (s s' : SchedState) : Prop :=
  ∃ dropped, s.placed.Perm (s'.placed ++ dropped) ∧ (env.rejectExtraReq = false → dropped = [])

theorem retryDelayed_placed (hdelay : 0 < env.schedDelayTime)
    (h : retryDelayed env clock n s = some s') : s'.placed.Perm s.placed := by
  induction n generalizing s with
  | zero =>
    cases h
    exact List.Perm.refl _
  | succ n ih =>
    cases hqueue : s.delayCallQueue with
    | nil =>
      simp only [retryDelayed, hqueue] at h
      cases h
      exact List.Perm.refl _
    | cons delayed rest =>
      simp only [retryDelayed, hqueue] at h
      obtain ⟨s₁, hs₁, h⟩ := Option.bind_eq_some_iff.mp h
      obtain ⟨rest', hrest'⟩ : ∃ rest', s₁.delayCallQueue = delayed :: rest' := by
        rcases retry_queue hs₁ hqueue with hsame | ⟨-, hback⟩
        · exact ⟨_, hsame⟩
        · exact ⟨_, hback⟩
      rw [hrest', List.tail_cons] at h
      exact (ih h).trans (placed_of_retry hdelay hs₁ hrest')

theorem forwardDelayed_leaves (h : forwardDelayed env stamp queue s = some s') :
    Leaves env { s with delayCallQueue := queue } s' := by
  induction queue generalizing s with
  | nil =>
    cases h
    exact ⟨[], by rw [List.append_nil], fun _ => rfl⟩
  | cons delayed rest ih =>
    unfold forwardDelayed at h
    split at h
    · split at h
      next hreject =>
        obtain ⟨dropped, hperm, -⟩ := ih h
        refine ⟨delayed.call :: dropped, ?_, ?_⟩
        · refine (placed_of_queue (s := { s with delayCallQueue := delayed :: rest })
            rfl).trans ((hperm.cons _).trans ?_)
          exact List.perm_middle.symm
        · rw [hreject]
          exact fun hfalse => absurd hfalse (by decide)
      · obtain ⟨s₁, hs₁, h⟩ := Option.bind_eq_some_iff.mp h
        obtain ⟨dropped, hperm, hdropped⟩ := ih h
        exact ⟨dropped, (placed_of_forward hs₁ rest).trans hperm, hdropped⟩
    · cases h
      exact ⟨[], by rw [List.append_nil], fun _ => rfl⟩

theorem delayPass_leaves (hdelay : 0 < env.schedDelayTime)
    (h : delayPass env clock stamp s = some s') : Leaves env s s' := by
  obtain ⟨s₁, hs₁, h⟩ := Option.bind_eq_some_iff.mp h
  obtain ⟨dropped, hperm, hdropped⟩ := forwardDelayed_leaves h
  exact ⟨dropped, (retryDelayed_placed hdelay hs₁).symm.trans hperm, hdropped⟩

/-! ## The deadline -/

/-- No call in the queue was first put there more than `schedDelayTime` before `stamp`. -/
def Honours (env : SchedEnv) (stamp : Stamp) (a : Aged) : Prop :=
  a.firsts.length = a.state.delayCallQueue.length ∧
    ∀ first ∈ a.firsts, stamp - first ≤ (env.schedDelayTime : Int)

/-- The calls that have waited too long can be forwarded, unless they are rejected. -/
def DueForwardable (env : SchedEnv) (stamp : Stamp) (s : SchedState) : Prop :=
  env.rejectExtraReq = false →
    ∀ delayed ∈ s.delayCallQueue, late env stamp delayed = true → Forwardable env s delayed.call

theorem forwardDelayed_isSome (hdelay : 0 < env.schedDelayTime)
    (h : env.rejectExtraReq = false →
      ∀ delayed ∈ queue, late env stamp delayed = true → Forwardable env s delayed.call) :
    (forwardDelayed env stamp queue s).isSome := by
  induction queue generalizing s with
  | nil => rfl
  | cons delayed rest ih =>
    have hrest := fun hreject d hd => h hreject d (List.mem_cons_of_mem delayed hd)
    unfold forwardDelayed
    split
    next hlate =>
      split
      · exact ih hrest
      next hreject =>
        replace hreject := Bool.eq_false_iff.mpr hreject
        obtain ⟨happ, hreads⟩ :=
          h hreject delayed List.mem_cons_self (decide_eq_true hlate)
        rw [if_pos hdelay] at hreads
        obtain ⟨s₁, hs₁⟩ := Option.isSome_iff_exists.mp ((forwardCallViaHelper_isSome env
          delayed.call.sessionId [delayed.call]).mpr ⟨happ, hreads⟩)
        rw [forwardFrom, hs₁]
        exact ih (s := s₁) fun _ d hd hlate =>
          (hrest hreject d hd hlate).congr (forwardCallViaHelper_announced hs₁)
    · rfl

theorem agedRetry_isSome (hdelay : 0 < env.schedDelayTime) (clock : Nat → Stamp) (n : Nat)
    (a : SchedState × List Stamp) : (agedRetry env clock n a).isSome := by
  induction n generalizing a with
  | zero => rfl
  | succ n ih =>
    unfold agedRetry
    split
    · rfl
    next delayed rest hqueue =>
      obtain ⟨s, hs⟩ := Option.isSome_iff_exists.mp
        ((scheduleFuncCall_isSome_iff (clock n) delayed.call a.1).mpr (.inr (.inl hdelay)))
      rw [hs]
      exact ih _

theorem pass_isSome (hdelay : 0 < env.schedDelayTime) (hshared : env.sharedExecutor = true)
    (clock : Nat → Stamp) (ha : Unmoved a) (hdue : DueForwardable env stamp a.state) :
    (agedStep env a (.delayPass clock stamp)).isSome := by
  obtain ⟨b, hb⟩ := Option.isSome_iff_exists.mp
    (agedRetry_isSome hdelay clock (availExecutorNum a.state) (a.state, a.firsts))
  obtain ⟨-, hsuffix, happs⟩ := agedRetry_shared hshared hb (le_refl _) ha
  have hforward : (forwardDelayed env stamp b.1.delayCallQueue b.1).isSome :=
    forwardDelayed_isSome hdelay fun hreject d hd hlate =>
      (hdue hreject d (hsuffix.subset hd) hlate).congr happs
  simp only [agedStep, hb, Option.bind_some, Option.isSome_map, hforward]

theorem timedRun_inv {b : Aged} {es : List AgedEvent} (ha : AgedInv a) (h : TimedRun env a es b) :
    AgedInv b := by
  refine run_invariant ?_ ha h.1 h.2
  intro a e a' ha htime hstep
  cases e with
  | node e => exact agedStep_inv ha (htime e rfl) hstep
  | rehash m =>
    obtain ⟨m', hm', -⟩ := rehash_eq m a.state
    cases hstep
    exact ⟨by rw [hm']; exact ha.length, by rw [hm']; exact ha.orderly⟩

theorem timedRun_unmoved (hshared : env.sharedExecutor = true) {b : Aged} {es : List AgedEvent}
    (ha : Unmoved a) (h : TimedRun env a es b) : Unmoved b := by
  refine run_invariant ?_ ha h.1 h.2
  intro a e a' ha _ hstep
  cases e with
  | node e => exact agedStep_unmoved hshared ha hstep
  | rehash m =>
    obtain ⟨m', hm', -⟩ := rehash_eq m a.state
    cases hstep
    unfold Unmoved
    rw [hm']
    exact ha

theorem honours_of_unmoved (hshared : env.sharedExecutor = true) (hinv : AgedInv a)
    (hunmoved : Unmoved a) (hpass : OnTime a (.delayPass clock stamp))
    (h : agedStep env a (.delayPass clock stamp) = some a') : Honours env stamp a' := by
  have hunmoved' := agedStep_unmoved hshared hunmoved h
  refine ⟨(agedStep_inv hinv hpass h).length, ?_⟩
  obtain ⟨b, hb, hqueue, -, -⟩ := agedStep_pass h
  obtain ⟨hclock, hanti, hle⟩ := hpass
  have horderly := (agedRetry_orderly hb hinv.length hinv.orderly hclock hanti hle).2
  intro first hfirst
  rw [hunmoved', hqueue] at hfirst
  obtain ⟨d, hd, rfl⟩ := List.mem_map.mp hfirst
  have hyoung := horderly.not_late env stamp d hd
  simp only [late, decide_eq_false_iff_not, not_lt] at hyoung
  exact hyoung

/-! ## A call that misses its deadline -/

theorem TimedRun.cons {env : SchedEnv} {a a' b : Aged} {e : NodeEvent} {es : List AgedEvent}
    (htime : OnTime a e) (hstep : agedStep env a e = some a') (h : TimedRun env a' es b) :
    TimedRun env a (.node e :: es) b := by
  refine ⟨⟨?_, ?_⟩, run_cons_eq_some.mpr ⟨a', hstep, h.2⟩⟩
  · intro n hn
    cases hn
    exact htime
  · intro s hs
    cases hstep.symm.trans hs
    exact h.1

def callOf (name : Name) : FunctionCall where
  appName := Bytes.lit "app"
  requests := [{ name := name, arguments := [] }]
  sessionId := Bytes.lit "0123456789abcdef"

structure OneExecutor (status : ExecutorStatus) (a : Aged) : Prop where
  announced : a.state.Announced (Bytes.lit "app")
  entries : a.state.executorStatusMap.entries = [(0, status)]
  cold : a.state.functionExecutorMap.getD (Bytes.lit "g") ∅ = ∅
  queue : a.state.delayCallQueue = []
  firsts : a.firsts = []
  time : a.time = 0

theorem entries_set_one {m : UMap ExecutorId ExecutorStatus} (h : m.entries = [(0, status)])
    (status' : ExecutorStatus) : (m.set 0 status').entries = [(0, status')] := by
  simp [UMap.set, UMap.assign, h]

theorem find?_one {m : UMap ExecutorId ExecutorStatus} {status' : ExecutorStatus} {id : ExecutorId}
    (h : m.entries = [(0, status)]) : m.find? id = some status' ↔ id = 0 ∧ status' = status := by
  rw [UMap.find?_eq_some_iff, h, List.mem_singleton, Prod.mk.injEq]

theorem callOf_step (env : SchedEnv) (now : Stamp) (name : Name) (s : SchedState) :
    ∃ (s₀ : SchedState) (call : SchedCall),
      call.funcName = name ∧ call.appName = Bytes.lit "app" ∧ call.argFlag = 0 ∧
      s₀.appCoordMap = s.appCoordMap ∧ s₀.executorStatusMap = s.executorStatusMap ∧
      s₀.functionExecutorMap = s.functionExecutorMap ∧ s₀.delayCallQueue = s.delayCallQueue ∧
      nodeStep env s (.call now (callOf name)) =
        (scheduleFuncCall env now call s₀ : Option SchedState).map fun s =>
          { s with callId := s.callId + 1 } := by
  -- the state in which the single request is handled, and what it waits for
  set s₁ : SchedState := { cacheAddresses (callOf name) s with
    sessionClientAddrMap := s.sessionClientAddrMap.set (callOf name).sessionId [] } with hs₁
  set inflight : InflightFuncArgs :=
    { funcName := name, sessionId := (callOf name).sessionId, keyArgs := [], inflightArgs := ∅,
      argFlag := 0 } with hinflight
  set call := inflight.readyCall (Bytes.lit "app") s₁.keyLenMap with hcall
  refine ⟨(s₁.emit (.arrived s₁.callId inflight)).emit (.submit (some s₁.callId) call), call,
    rfl, rfl, rfl, rfl, rfl, rfl, rfl, ?_⟩
  have hrequest : callRequest env now (Bytes.lit "app") (callOf name).sessionId s₁
      { name := name, arguments := [] } =
      (submit env now (some s₁.callId) call (s₁.emit (.arrived s₁.callId inflight)) :
        Option SchedState).map fun s => { s with callId := s.callId + 1 } :=
    congrArg (Option.map _) (if_pos rfl)
  exact (Option.bind_fun_some _).trans hrequest

theorem OneExecutor.report {status' : ExecutorStatus} {message : Bytes} (ha : OneExecutor status a)
    (h : nodeStep env a.state (.executor 0 message) = some { a.state with
      executorStatusMap := a.state.executorStatusMap.set 0 status' }) :
    ∃ a', agedStep env a (.executor 0 message) = some a' ∧ OneExecutor status' a' := by
  refine ⟨_, congrArg (Option.map _) h, ?_⟩
  exact ⟨ha.announced, entries_set_one ha.entries status', ha.cold, ha.queue,
    by simp [ha.firsts, ha.queue], rfl⟩

theorem OneExecutor.available (env : SchedEnv) (ha : OneExecutor status a) :
    ∃ a', agedStep env a (.executor 0 [1, 7]) = some a' ∧
      OneExecutor (if status = .empty ∨ status = .await then .empty else .available) a' := by
  refine ha.report ?_
  have hstatus : a.state.executorStatusMap.getD 0 .empty = status := by
    unfold UMap.getD
    rw [(find?_one ha.entries).mpr ⟨rfl, rfl⟩]
    rfl
  rw [← hstatus]
  rfl

theorem OneExecutor.busy (env : SchedEnv) (ha : OneExecutor status a) :
    ∃ a', agedStep env a (.executor 0 [1, 6]) = some a' ∧ OneExecutor .busy a' :=
  ha.report rfl

theorem OneExecutor.takes (env : SchedEnv) (ha : OneExecutor .empty a) :
    ∃ a', agedStep env a (.call 0 (callOf (Bytes.lit "f"))) = some a' ∧ OneExecutor .await a' := by
  obtain ⟨s₀, call, hname, -, -, happs, hstatus, hfunctions, hqueue, hstep⟩ :=
    callOf_step env 0 (Bytes.lit "f") a.state
  have hentries : s₀.executorStatusMap.entries = [(0, .empty)] := by rw [hstatus, ha.entries]
  have husable : Usable env s₀ call.funcName :=
    ⟨0, .empty, (find?_one hentries).mpr ⟨rfl, rfl⟩, Or.inr (Or.inl rfl)⟩
  obtain ⟨s₁, hs₁⟩ := Option.isSome_iff_exists.mp
    ((scheduleFuncCall_isSome_iff 0 call s₀).mpr (.inl husable))
  have happs₁ := (scheduleFuncCall_announced hs₁).trans happs
  rw [hs₁] at hstep
  refine ⟨_, congrArg (Option.map _) hstep, ?_⟩
  rcases scheduleFuncCall_cases hs₁ with ⟨id, seed, cold, hpick, rfl⟩ | ⟨hnot, _⟩ | ⟨hnot, _⟩ |
    ⟨hnot, _⟩
  · obtain ⟨status, hfind, -⟩ := pickExecutor_avail hpick
    obtain ⟨rfl, -⟩ := (find?_one hentries).mp hfind
    obtain ⟨_, _, _, _, heq⟩ := sendToExecutor_spec 0 call 0 seed cold s₀
    have hsame : (sendToExecutor 0 call 0 seed cold s₀).delayCallQueue = [] := by
      rw [heq]
      exact hqueue.trans ha.queue
    refine ⟨?_, ?_, ?_, hsame, ?_, rfl⟩
    · exact ha.announced.congr happs₁
    · have hset : (sendToExecutor 0 call 0 seed cold s₀).executorStatusMap =
          s₀.executorStatusMap.set 0 .await := by rw [heq]
      exact (congrArg UMap.entries hset).trans (entries_set_one hentries .await)
    · have hmap := sendToExecutor_functions 0 call 0 seed cold s₀
      have hcold : (sendToExecutor 0 call 0 seed cold s₀).functionExecutorMap.getD
          (Bytes.lit "g") ∅ = ∅ := by
        rw [hmap, hfunctions, hname]
        split
        · rw [Map.getD_set, if_neg (by decide)]
          exact ha.cold
        · exact ha.cold
      exact hcold
    · simp [ha.firsts, hsame]
  · exact absurd husable hnot
  · exact absurd husable hnot
  · exact absurd husable hnot

theorem not_usable_of_cold (hshared : env.sharedExecutor = false) {name : Name}
    (hentries : s.executorStatusMap.entries = [(0, .available)])
    (hcold : s.functionExecutorMap.getD name ∅ = ∅) : ¬ Usable env s name := by
  rintro ⟨id, status, hfind, huse⟩
  obtain ⟨-, rfl⟩ := (find?_one hentries).mp hfind
  rcases huse with ⟨-, hwarm⟩ | hempty | ⟨hshares, -⟩
  · rw [hcold] at hwarm
    exact absurd hwarm (Finset.notMem_empty id)
  · cases hempty
  · rw [hshared] at hshares
    cases hshares

theorem scheduleFuncCall_delayed (hdelay : 0 < env.schedDelayTime) {call : SchedCall}
    (hnot : ¬ Usable env s call.funcName) :
    scheduleFuncCall env now call s = some { s with
      delayCallQueue := s.delayCallQueue ++ [{ call, triggerTime := now }] } := by
  unfold scheduleFuncCall
  rw [pickExecutor_none_iff.mpr hnot]
  exact if_pos hdelay

structure Delayed (entered : Stamp) (a : Aged) : Prop where
  announced : a.state.Announced (Bytes.lit "app")
  entries : a.state.executorStatusMap.entries = [(0, .available)]
  cold : a.state.functionExecutorMap.getD (Bytes.lit "g") ∅ = ∅
  queue : ∃ call, call.funcName = Bytes.lit "g" ∧ call.appName = Bytes.lit "app" ∧
    call.argFlag = 0 ∧ a.state.delayCallQueue = [{ call := call, triggerTime := entered }]
  firsts : a.firsts = [0]
  time : a.time = entered

theorem OneExecutor.delays (hdelay : 0 < env.schedDelayTime) (hshared : env.sharedExecutor = false)
    (ha : OneExecutor .available a) :
    ∃ a', agedStep env a (.call 0 (callOf (Bytes.lit "g"))) = some a' ∧ Delayed 0 a' := by
  obtain ⟨s₀, call, hname, happ, hflag, happs, hstatus, hfunctions, hqueue, hstep⟩ :=
    callOf_step env 0 (Bytes.lit "g") a.state
  have hentries : s₀.executorStatusMap.entries = [(0, .available)] := by rw [hstatus, ha.entries]
  have hcold : s₀.functionExecutorMap.getD call.funcName ∅ = ∅ := by
    rw [hfunctions, hname, ha.cold]
  rw [scheduleFuncCall_delayed hdelay (not_usable_of_cold hshared hentries hcold)] at hstep
  have hwaits : s₀.delayCallQueue ++ [{ call, triggerTime := 0 }] =
      [{ call, triggerTime := 0 }] := by rw [hqueue, ha.queue, List.nil_append]
  refine ⟨_, congrArg (Option.map _) hstep, ?_, hentries, ?_,
    ⟨call, hname, happ, hflag, hwaits⟩, ?_, rfl⟩
  · exact ha.announced.congr happs
  · rw [← hname]
    exact hcold
  · simp [ha.firsts, ha.queue, hwaits]

theorem Delayed.pass {env : SchedEnv} (hdelay : 0 < env.schedDelayTime)
    (hshared : env.sharedExecutor = false) {a : Aged} {entered : Stamp} (ha : Delayed entered a)
    (stamp : Stamp) :
    ∃ a', agedStep env a (.delayPass (fun _ => stamp) stamp) = some a' ∧ Delayed stamp a' := by
  obtain ⟨call, hname, happ, hflag, hqueue⟩ := ha.queue
  have havail : availExecutorNum a.state = 1 := by
    unfold availExecutorNum
    rw [ha.entries]
    rfl
  have hcold : a.state.functionExecutorMap.getD call.funcName ∅ = ∅ := by rw [hname, ha.cold]
  have hretry : agedRetry env (fun _ => stamp) 1 (a.state, a.firsts) =
      some ({ a.state with delayCallQueue := [{ call, triggerTime := stamp }] }, [0]) := by
    simp only [agedRetry, hqueue, Option.bind_some, ha.firsts,
      scheduleFuncCall_delayed hdelay (not_usable_of_cold hshared ha.entries hcold)]
    rfl
  have hyoung : ¬ (env.schedDelayTime : Int) < stamp - stamp := by
    rw [Int.sub_self]
    omega
  refine ⟨{ state := { a.state with delayCallQueue := [{ call, triggerTime := stamp }] }
            firsts := [0]
            time := stamp }, ?_, ha.announced, ha.entries, ha.cold,
    ⟨call, hname, happ, hflag, rfl⟩, rfl, rfl⟩
  simp only [agedStep, havail, hretry, Option.bind_some, forwardDelayed, if_neg hyoung,
    Option.pure_def, Option.map_some]
  rfl

def startupEvents : List NodeEvent :=
  [.update 0 { appName := Bytes.lit "app", functions := [Bytes.lit "f", Bytes.lit "g"] },
    .executor 0 [1, 7], .call 0 (callOf (Bytes.lit "f")), .executor 0 [1, 6], .executor 0 [1, 7],
    .call 0 (callOf (Bytes.lit "g"))]

theorem startup_delayed {env : SchedEnv} (hdelay : 0 < env.schedDelayTime)
    (hshared : env.sharedExecutor = false) :
    ∃ a, TimedRun env (Aged.start 0 1 0) (startupEvents.map .node) a ∧ Delayed 0 a := by
  obtain ⟨a₀, hs₀, h₀⟩ : ∃ a₀, agedStep env (Aged.start 0 1 0) (.update 0
      { appName := Bytes.lit "app", functions := [Bytes.lit "f", Bytes.lit "g"] }) = some a₀ ∧
      OneExecutor .await a₀ :=
    ⟨_, rfl, rfl, rfl, rfl, rfl, rfl, rfl⟩
  obtain ⟨a₁, hs₁, h₁⟩ := h₀.available env
  obtain ⟨a₂, hs₂, h₂⟩ := OneExecutor.takes env h₁
  obtain ⟨a₃, hs₃, h₃⟩ := h₂.busy env
  obtain ⟨a₄, hs₄, h₄⟩ := h₃.available env
  obtain ⟨a₅, hs₅, h₅⟩ := OneExecutor.delays hdelay hshared h₄
  have htime : ∀ {status} {a : Aged}, OneExecutor status a → ∀ now ∈ some (0 : Stamp),
      a.time ≤ now := by
    intro status a ha now hnow
    cases hnow
    exact ha.time.le
  have hstart : ∀ now ∈ some (0 : Stamp), (Aged.start 0 1 0).time ≤ now := by
    intro now hnow
    cases hnow
    exact le_refl _
  exact ⟨a₅, .cons hstart hs₀ (.cons (htime h₀) hs₁ (.cons (htime h₁) hs₂ (.cons (htime h₂) hs₃
    (.cons (htime h₃) hs₄ (.cons (htime h₄) hs₅ ⟨trivial, rfl⟩))))), h₅⟩

/-- The deadline on every pass of every run: where the overdue calls can be forwarded the pass
returns, and leaves none of them in the queue. -/
def DeadlineHeld (env : SchedEnv) : Prop :=
  ∀ ramSeed executors time es a clock stamp,
    TimedRun env (Aged.start ramSeed executors time) es a →
    OnTime a (.delayPass clock stamp) → DueForwardable env stamp a.state →
    ∃ a', agedStep env a (.delayPass clock stamp) = some a' ∧
      Honours env stamp a' ∧ Leaves env a.state a'.state

theorem Delayed.late (ha : Delayed stamp a) (hstamp : (env.schedDelayTime : Int) < stamp) :
    ¬ Honours env stamp a := by
  rintro ⟨-, hfirsts⟩
  have hwaited := hfirsts 0 (by rw [ha.firsts]; exact List.mem_singleton_self 0)
  rw [Int.sub_zero] at hwaited
  exact absurd hstamp (not_lt.mpr hwaited)

theorem Delayed.onTime {entered : Stamp} (ha : Delayed entered a) (hle : entered ≤ stamp) :
    OnTime a (.delayPass (fun _ => stamp) stamp) := by
  rw [← ha.time] at hle
  exact ⟨fun _ _ => ⟨hle, le_refl _⟩, fun _ _ _ _ => le_refl _, hle⟩

theorem Delayed.forwardable {entered : Stamp} (ha : Delayed entered a) (env : SchedEnv)
    (stamp : Stamp) : DueForwardable env stamp a.state := by
  intro _ delayed hdelayed _
  obtain ⟨call, -, happ, hflag, hqueue⟩ := ha.queue
  rw [hqueue] at hdelayed
  rw [List.mem_singleton.mp hdelayed]
  exact ⟨happ ▸ ha.announced, fun h => absurd (hflag ▸ h) (lt_irrefl 0)⟩

theorem not_deadlineHeld (hdelay : 0 < env.schedDelayTime) (hshared : env.sharedExecutor = false) :
    ¬ DeadlineHeld env := by
  intro hheld
  obtain ⟨a, hrun, ha⟩ := startup_delayed hdelay hshared
  obtain ⟨a', hpass, ha'⟩ := ha.pass hdelay hshared (env.schedDelayTime + 1)
  have hle : (0 : Int) ≤ env.schedDelayTime + 1 := by omega
  obtain ⟨a'', hpass', hhonours, -⟩ :=
    hheld 0 1 0 _ a _ _ hrun (ha.onTime hle) (ha.forwardable env _)
  cases hpass.symm.trans hpass'
  exact ha'.late (Int.lt_add_one_of_le (le_refl _)) hhonours

/-- The delay queue honours its deadline exactly when executors are shared: otherwise a pass
may try a call for which no executor is usable, and forget how long it has waited. -/
theorem delay_deadline_iff_shared (env : SchedEnv) (hdelay : 0 < env.schedDelayTime) :
    DeadlineHeld env ↔ env.sharedExecutor = true := by
  refine ⟨fun hheld => ?_, fun hshared => ?_⟩
  · by_contra hshared
    exact not_deadlineHeld hdelay (Bool.eq_false_iff.mpr hshared) hheld
  · intro ramSeed executors time es a clock stamp hrun htime hdue
    have hinv : AgedInv a := timedRun_inv (agedStart_inv ramSeed executors time) hrun
    have hunmoved : Unmoved a :=
      timedRun_unmoved hshared (agedStart_unmoved ramSeed executors time) hrun
    obtain ⟨a', hpass⟩ := Option.isSome_iff_exists.mp
      (pass_isSome hdelay hshared clock hunmoved hdue)
    refine ⟨a', hpass, honours_of_unmoved hshared hinv hunmoved htime hpass, ?_⟩
    apply delayPass_leaves hdelay
    have hstate := agedStep_state env a (.delayPass clock stamp)
    rw [hpass] at hstate
    exact hstate.symm

/-- Executors that are shared, with a delay of 500 microseconds. -/
theorem delay_deadline_shared :
    0 < { delayingEnv with sharedExecutor := true }.schedDelayTime ∧
      DeadlineHeld { delayingEnv with sharedExecutor := true } :=
  ⟨by decide, (delay_deadline_iff_shared _ (by decide)).mpr rfl⟩

/-- With a delay of 500 microseconds, the call of `g` is still in the queue after a pass 501
microseconds after it came, with the time of the pass. -/
theorem delay_deadline_missed :
    ∃ a a', TimedRun delayingEnv (Aged.start 0 1 0) (startupEvents.map .node) a ∧
      OnTime a (.delayPass (fun _ => 501) 501) ∧ DueForwardable delayingEnv 501 a.state ∧
      agedStep delayingEnv a (.delayPass (fun _ => 501) 501) = some a' ∧ a'.firsts = [0] ∧
      a'.state.delayCallQueue.map DelayFunctionCall.triggerTime = [501] ∧
      ¬ Honours delayingEnv 501 a' := by
  obtain ⟨a, hrun, ha⟩ := @startup_delayed delayingEnv (by decide) rfl
  obtain ⟨a', hpass, ha'⟩ := @Delayed.pass delayingEnv (by decide) rfl a 0 ha 501
  obtain ⟨call, -, -, -, hqueue⟩ := ha'.queue
  refine ⟨a, a', hrun, ha.onTime (by decide), ha.forwardable delayingEnv 501, hpass,
    ha'.firsts, ?_, ha'.late (by decide)⟩
  rw [hqueue]
  rfl

end Pheromone.Scheduler
