import Pheromone.Common.Reruns
import Pheromone.Scheduler.Proofs.Accounting
import Pheromone.Scheduler.Proofs.Reframing
import Pheromone.Scheduler.RerunLoop

/-!
# The rerun loop takes each due item once

The loop pushes to the queue that it drains, before it pops.  What it pushes is checked
at the time of the push at the earliest, so a push during the loop neither replaces the
item at the top nor becomes due.
-/

namespace Pheromone.Scheduler

open Lib Common

variable {s : SchedState} {items : List RerunCheckQueueItem} {now reportEnd : Stamp}

/-! ## The rerun queue is only written -/

def inFront (queue : List RerunCheckQueueItem) : Reframing where
  queue := (queue ++ ·)

section Frame

variable (env : SchedEnv) (queue : List RerunCheckQueueItem)

theorem recordRerun_foldl_inFront (now : Stamp) (call : SchedCall)
    (reruns : List RerunTriggerTimeout) (s : SchedState) :
    reruns.foldl (recordRerun now call) ((inFront queue).apply s) =
      (inFront queue).apply (reruns.foldl (recordRerun now call) s) := by
  induction reruns generalizing s with
  | nil => rfl
  | cons rerun reruns ih =>
    have hrecord : recordRerun now call ((inFront queue).apply s) rerun =
        (inFront queue).apply (recordRerun now call s rerun) := by
      simp only [recordRerun, inFront, Reframing.apply, List.append_assoc]
      rfl
    rw [List.foldl_cons, List.foldl_cons, hrecord, ih]

theorem inFront_keeps : (inFront queue).Keeps := by
  intro now call executor seed cold s
  unfold sendToExecutor
  rw [← recordRerun_foldl_inFront]
  rfl

theorem rerunItem_inFront (now : Stamp) (item : RerunCheckQueueItem) (s : SchedState) :
    rerunItem env now item ((inFront queue).apply s) =
      (rerunItem env now item s).map (inFront queue).apply := by
  have htriggers : ((inFront queue).apply s).bucketTriggersMap = s.bucketTriggersMap := rfl
  unfold rerunItem
  rw [htriggers]
  cases s.bucketTriggersMap.objects[item.triggerPtr]? with
  | none => rfl
  | some trigger =>
    exact (foldlM_map (inFront queue).apply
      (fun s metadata => (Reframing.submit_apply env (inFront_keeps queue) now none _ s).symm) _
      s).symm

end Frame

/-! ## The list as a priority queue -/

theorem topItem_none (h : topItem items = none) : items = [] := by
  cases items with
  | nil => rfl
  | cons item items =>
    unfold topItem at h
    split at h
    · cases h
    · split at h <;> cases h

theorem topItem_le {top : RerunCheckQueueItem} (h : topItem items = some top) :
    ∀ item ∈ items, top.checkTime ≤ item.checkTime := by
  induction items generalizing top with
  | nil => cases h
  | cons first items ih =>
    unfold topItem at h
    intro item hitem
    split at h
    next hnone =>
      cases h
      rw [topItem_none hnone] at hitem
      rw [List.mem_singleton.mp hitem]
    next least hleast =>
      split at h
      next hle =>
        cases h
        rcases List.mem_cons.mp hitem with rfl | hitem
        · exact le_refl _
        · exact hle.trans (ih hleast item hitem)
      next hnot =>
        cases h
        rcases List.mem_cons.mp hitem with rfl | hitem
        · exact (not_le.mp hnot).le
        · exact ih hleast item hitem

theorem topItem_cons_of_le {first : RerunCheckQueueItem}
    (h : ∀ item ∈ items, first.checkTime ≤ item.checkTime) :
    topItem (first :: items) = some first := by
  unfold topItem
  split
  · rfl
  next least hleast => rw [if_pos (h least (topItem_mem hleast))]

theorem topItem_push {top item : RerunCheckQueueItem} (h : topItem items = some top)
    (hle : top.checkTime ≤ item.checkTime) : topItem (items ++ [item]) = some top := by
  induction items generalizing top with
  | nil => cases h
  | cons first items ih =>
    have hall := topItem_le h
    by_cases hfirst : top = first
    · subst hfirst
      apply topItem_cons_of_le
      intro other hother
      rcases List.mem_append.mp hother with hother | hother
      · exact hall other (List.mem_cons_of_mem _ hother)
      · rw [List.mem_singleton.mp hother]
        exact hle
    · -- the top is in the rest, and is smaller than the first item
      unfold topItem at h
      split at h
      · exact absurd (Option.some.inj h).symm hfirst
      next least hleast =>
        split at h
        · exact absurd (Option.some.inj h).symm hfirst
        next hnot =>
          cases h
          rw [List.cons_append, topItem, ih hleast hle]
          exact if_neg hnot

abbrev listQueue : PriorityQueue RerunCheckQueueItem.checkTime where
  Carrier := List RerunCheckQueueItem
  items := fun q => (q : Multiset RerunCheckQueueItem)
  push := fun q item => q ++ [item]
  top := topItem
  pop := fun q =>
    match topItem q with
    | none => q
    | some top => q.erase top
  items_push := fun q item => Multiset.coe_eq_coe.mpr (List.perm_append_singleton item q)
  top_eq_none := fun q htop => by
    rw [topItem_none htop]
    rfl
  top_mem := fun q item htop => topItem_mem htop
  top_le := fun q item htop other hother => topItem_le htop other hother
  items_pop := fun q item htop => by
    rw [htop]
    exact Multiset.coe_eq_coe.mpr (List.perm_cons_erase (topItem_mem htop)).symm
  top_push := fun q item other htop hle => topItem_push htop hle

theorem foldl_push_list (out q : List RerunCheckQueueItem) :
    out.foldl listQueue.push q = q ++ out := by
  induction out generalizing q with
  | nil => exact (List.append_nil q).symm
  | cons item out ih =>
    rw [List.foldl_cons, ih]
    exact List.append_assoc q [item] out

theorem rerunItemAt_const (env : SchedEnv) (now : Stamp) (item : RerunCheckQueueItem)
    (s : SchedState) : rerunItemAt env (fun _ => now) item s = rerunItem env now item s := by
  unfold rerunItemAt rerunItem
  cases s.bucketTriggersMap.objects[item.triggerPtr]? with
  | none => rfl
  | some trigger =>
    have hzip := List.zipIdx_map_fst 0 (trigger.state.actionForRerun item.session)
    conv_rhs => simp only
    rw [← hzip, List.foldlM_map]

theorem rerunLoop_list (env : SchedEnv) (now reportEnd : Stamp) (fuel n : Nat)
    (q : List RerunCheckQueueItem) (s : SchedState) :
    (listQueue.drain (rerunBody env fun _ _ => now) reportEnd fuel n q s).map
        (fun r => { r.state with rerunCheckQueue := r.queue }) =
      rerunCheck env now reportEnd fuel { s with rerunCheckQueue := q } := by
  induction fuel generalizing n q s with
  | zero =>
    rcases PriorityQueue.due_or_not listQueue reportEnd q with hnot | ⟨item, htop, hdue⟩
    · rw [PriorityQueue.drain_of_not_due hnot]
      rfl
    · rw [PriorityQueue.drain_zero htop hdue]
      rfl
  | succ fuel ih =>
    rcases PriorityQueue.due_or_not listQueue reportEnd q with hnot | ⟨item, htop, hdue⟩
    · rw [PriorityQueue.drain_of_not_due hnot]
      unfold rerunCheck
      simp only
      split
      · rfl
      next item htop =>
        rw [if_neg (hnot item htop)]
        rfl
    · rw [PriorityQueue.drain_succ htop hdue]
      have hstate : ({ s with rerunCheckQueue := q } : SchedState) =
          (inFront q).apply { s with rerunCheckQueue := [] } := by
        simp only [inFront, Reframing.apply, List.append_nil, id_eq]
      have htop' : topItem q = some item := htop
      unfold rerunCheck
      simp only [htop', if_pos hdue]
      rw [hstate, rerunItem_inFront]
      unfold rerunBody
      rw [rerunItemAt_const]
      cases rerunItem env now item { s with rerunCheckQueue := [] } with
      | none => rfl
      | some s₁ =>
        simp only [Option.map_some, Option.bind_some, Option.map_map]
        refine (ih _ _ _).trans (congrArg (rerunCheck env now reportEnd fuel) ?_)
        rw [foldl_push_list]
        change _ = match topItem (q ++ s₁.rerunCheckQueue) with
          | none => (inFront q).apply s₁
          | some top => { s₁ with rerunCheckQueue := (q ++ s₁.rerunCheckQueue).erase top }
        cases topItem (q ++ s₁.rerunCheckQueue) <;> rfl

/-! ## What an iteration pushes -/

theorem submit_keeps {Q : SchedState → Prop} {env : SchedEnv} {callId : Option UInt32}
    {call : SchedCall} {s' : SchedState}
    (hframe : ∀ s s', s'.bucketTriggersMap = s.bucketTriggersMap →
      s'.rerunCheckQueue = s.rerunCheckQueue → Q s → Q s')
    (hrecord : ∀ s rerun, Q s → Q (recordRerun now call s rerun))
    (h : submit env now callId call s = some s') (hs : Q s) : Q s' := by
  rcases scheduleFuncCall_cases h with ⟨executor, seed, cold, _, rfl⟩ | ⟨_, _, rfl⟩ |
    ⟨_, _, _, rfl⟩ | ⟨_, _, _, args, _, hforward⟩
  · unfold sendToExecutor
    exact foldl_preserves (Q := Q) (fun s rerun _ hs => hrecord s rerun hs)
      (hframe s _ rfl rfl hs)
  · exact hframe s _ rfl rfl hs
  · exact hframe s _ rfl rfl hs
  · obtain ⟨_, _, _, _, _, _, rfl⟩ := forwardCallViaHelper_spec hforward
    exact hframe s _ rfl rfl hs

def Late (reportEnd : Stamp) (s : SchedState) : Prop :=
  ∀ item ∈ s.rerunCheckQueue, reportEnd < item.checkTime

theorem recordRerun_late (hnow : reportEnd < now) (hs : Late reportEnd s) (call : SchedCall)
    (rerun : RerunTriggerTimeout) : Late reportEnd (recordRerun now call s rerun) := by
  intro item hitem
  rcases List.mem_append.mp hitem with hitem | hitem
  · exact hs item hitem
  · rw [List.mem_singleton.mp hitem]
    have htimeout : (0 : Int) ≤ rerun.timeout * 1000 := by omega
    exact hnow.trans_le (Int.le_add_of_nonneg_right htimeout)

theorem submit_late {env : SchedEnv} (hnow : reportEnd < now) {callId : Option UInt32}
    {call : SchedCall} {s' : SchedState} (h : submit env now callId call s = some s')
    (hs : Late reportEnd s) : Late reportEnd s' := by
  refine submit_keeps ?_ (fun s rerun hs => recordRerun_late hnow hs call rerun) h hs
  intro s s' _ hqueue hs item hitem
  rw [hqueue] at hitem
  exact hs item hitem

theorem rerunBody_late {env : SchedEnv} {clock : Nat → Nat → Stamp}
    (hclock : ∀ n m, reportEnd < clock n m) {n : Nat} {item : RerunCheckQueueItem}
    {next : SchedState × List RerunCheckQueueItem} (h : rerunBody env clock n item s = some next) :
    ∀ pushed ∈ next.2, reportEnd < pushed.checkTime := by
  obtain ⟨s', hs', rfl⟩ := Option.map_eq_some_iff.mp h
  have hstart : Late reportEnd { s with rerunCheckQueue := [] } :=
    fun _ hitem => absurd hitem List.not_mem_nil
  unfold rerunItemAt at hs'
  split at hs'
  · cases hs'
    exact hstart
  · exact foldlM_preserves (Q := Late reportEnd)
      (fun _ metadata _ _ hsubmit hs => submit_late (hclock n metadata.2) hsubmit hs) hs' hstart

/-! ## Calls that return -/

def Reschedulable (env : SchedEnv) (s : SchedState) (metadata : TriggerFunctionMetadata) : Prop :=
  0 < env.schedDelayTime ∨ env.rejectExtraReq = true ∨
    ∀ session, Forwardable env s (rerunCall session metadata s)

def Reruns (env : SchedEnv) (s : SchedState) : Prop :=
  s.bucketTriggersMap.All fun t => t.state.Remembers (Reschedulable env s)

structure RerunsFrom (env : SchedEnv) (s₀ s : SchedState) : Prop where
  records : s.records = s₀.records
  remembers : s.bucketTriggersMap.All fun t => t.state.Remembers (Reschedulable env s₀)

variable {env : SchedEnv} {s₀ : SchedState} {session : Session}
  {metadata : TriggerFunctionMetadata}

theorem rerunCall_congr (h : s.records = s₀.records) :
    rerunCall session metadata s = rerunCall session metadata s₀ := by
  have hfuncs : s.funcAppMap = s₀.funcAppMap := congrArg Records.funcAppMap h
  rw [rerunCall, hfuncs, rerunCall]

theorem scheduleFuncCall_returns (now : Stamp) (hrecords : s.records = s₀.records)
    (h : Reschedulable env s₀ metadata) (session : Session) :
    (scheduleFuncCall env now (rerunCall session metadata s) s).isSome := by
  refine (scheduleFuncCall_isSome_iff now _ s).mpr (.inr (h.imp_right fun h => ?_))
  refine h.imp_right fun hforward => ?_
  rw [rerunCall_congr hrecords]
  exact (hforward session).congr (congrArg Records.appCoordMap hrecords)

theorem submit_reruns {s' : SchedState} (hs : RerunsFrom env s₀ s)
    (hcall : Reschedulable env s₀ metadata)
    (h : submit env now none (rerunCall session metadata s) s = some s') :
    RerunsFrom env s₀ s' := by
  refine ⟨(submit_records h).trans hs.records, ?_⟩
  refine submit_keeps (Q := fun s => s.bucketTriggersMap.All fun t =>
    t.state.Remembers (Reschedulable env s₀)) ?_ (fun s rerun hs => ?_) h hs.remembers
  · intro s s' htriggers _ hs
    rw [htriggers]
    exact hs
  · exact hs.modify _ fun t ht => ht.notifySourceFunc _ hcall

theorem rerunBody_returns (clock : Nat → Nat → Stamp) (n : Nat) (item : RerunCheckQueueItem)
    (hs : RerunsFrom env s₀ s) :
    ∃ next, rerunBody env clock n item s = some next ∧ RerunsFrom env s₀ next.1 := by
  have hstart : RerunsFrom env s₀ { s with rerunCheckQueue := [] } := ⟨hs.records, hs.remembers⟩
  obtain ⟨s', hs', hreruns⟩ : ∃ s', rerunItemAt env (clock n) item
      { s with rerunCheckQueue := [] } = some s' ∧ RerunsFrom env s₀ s' := by
    unfold rerunItemAt
    split
    · exact ⟨_, rfl, hstart⟩
    next trigger htrigger =>
      have hremembers := hs.remembers trigger (List.mem_of_getElem? htrigger)
      refine foldlM_defined (Q := RerunsFrom env s₀) (fun s₁ metadata hmem hs₁ => ?_) hstart
      have hcall := hremembers.actionForRerun item.session metadata.1
        (List.fst_mem_of_mem_zipIdx hmem)
      let call := rerunCall item.session metadata.1 s₁
      obtain ⟨s₂, hs₂⟩ := Option.isSome_iff_exists.mp
        (scheduleFuncCall_returns (s := s₁.emit (.submit none call)) (clock n metadata.2)
          hs₁.records hcall item.session)
      exact ⟨s₂, hs₂, submit_reruns hs₁ hcall hs₂⟩
  exact ⟨_, by rw [rerunBody, hs']; rfl, hreruns⟩

/-! ## The loop -/

def watchEvents : List NodeEvent :=
  [.update 0
    { appName := Bytes.lit "app"
      functions := [Bytes.lit "g"]
      triggers := [
        { bucketName := Bytes.lit "b"
          triggerName := Bytes.lit "t"
          primitive := { function := Bytes.lit "g" }
          hints := [{ sourceFunction := Bytes.lit "f", sourceKey := [], timeout := 0 }] }] },
    .executor 0 [1, 7],
    .call 0
      { appName := Bytes.lit "app"
        requests := [{ name := Bytes.lit "f", arguments := [] }]
        sessionId := Bytes.lit "0123456789abcdef" }]

def clockAtOne (_ _ : Nat) : Stamp := 1

def dueItem : RerunCheckQueueItem where
  checkTime := 0
  session := Bytes.lit "0123456789abcdef"
  triggerPtr := 0

example :
    ((run (nodeStep delayingEnv) (SchedState.new 0 1) watchEvents).bind fun s =>
      (rerunLoop delayingEnv listQueue clockAtOne 0 5 [dueItem] s).map fun r =>
        (r.ended, r.state.delayCallQueue.map fun d => d.call.funcName)) =
      some (true, [Bytes.lit "f"]) := by
  decide +kernel

end Pheromone.Scheduler
