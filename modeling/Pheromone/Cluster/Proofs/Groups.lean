import Pheromone.Cluster.Proofs.TriggerViews
import Pheromone.Lib.Groups

/-!
# Dynamic groups in a cluster

The replicas of a `DynamicGroupTrigger` gather data by group until they have seen
the control group.  A node that happens to get the whole control group passes on
the data that it has, and the coordinator then drops what it has gathered from
all the nodes.
-/

namespace Pheromone.Cluster

open Lib Common Coordinator Scheduler

/-! ## A dynamic group trigger as a machine -/

/-- The group of a key: what stands before the first `':'`. -/
def groupOf (key : Key) : Bytes := key.takeWhile (· ≠ groupDelimiter)

def isControl (key : Key) : Bool := groupOf key = controlGroupPrefix

/-- `data_group_keys_map_` and `cur_control_keys_` -/
def poolOf : TriggerState → Pool Bytes Key
  | .dynamicGroup t => ⟨t.dataGroupKeysMap, t.curControlKeys⟩
  | _ => Pool.empty

section Reading

variable {t₀ t : Trigger} {g : DynamicGroupTrigger}

theorem dynamicGroup_of_blank (hg : t₀.state = .dynamicGroup g) (ht : t.blank = t₀) :
    ∃ g', t.state = .dynamicGroup g' ∧ g'.controlGroup = g.controlGroup := by
  have hstate := state_of_blank ht
  rw [hg] at hstate
  obtain ⟨target, name, option, state⟩ := t
  cases state <;> cases hstate
  exact ⟨_, rfl, rfl⟩

theorem poolOf_of_blank (hg : t₀.state = .dynamicGroup g) (hblank : t₀.blank = t₀) :
    poolOf t₀.state = Pool.empty := by
  have hstate := state_of_blank hblank
  rw [hg] at hstate
  rw [hg, ← hstate]
  rfl

def keysOf (action : TriggerAction) : List Key := action.sessionKeys.map Prod.snd

theorem dynamicGroup_arrives (hg : t₀.state = .dynamicGroup g) (ht : t.blank = t₀)
    (now : TimePoint) (bk : BucketKey) :
    let result := t.actionForNewObject now bk
    (groups isControl groupOf g.controlGroup.elems.toFinset).arrive (poolOf t.state) bk.key =
      (poolOf result.1.state, result.2.map keysOf) := by
  obtain ⟨g', hstate, hcontrol⟩ := dynamicGroup_of_blank hg ht
  obtain ⟨target, name, option, state⟩ := t
  subst hstate
  have hcard : g.controlGroup.elems.toFinset.card = g'.controlGroup.size := by
    rw [← hcontrol, List.toFinset_card_of_nodup g'.controlGroup.nodup]
    rfl
  have hmem : bk.key ∈ g.controlGroup.elems.toFinset ↔ bk.key ∈ g'.controlGroup := by
    rw [List.mem_toFinset, ← hcontrol]
    rfl
  simp only [Trigger.actionForNewObject, TriggerState.actionForNewObject,
    DynamicGroupTrigger.actionForNewObject, poolOf, groups, hcard, hmem]
  generalize (if bk.key ∈ g'.controlGroup then insert bk.key g'.curControlKeys
    else g'.curControlKeys) = controls
  by_cases hgroup : bk.key.takeWhile (· ≠ groupDelimiter) = controlGroupPrefix
  · have hctrl : isControl bk.key = true := decide_eq_true hgroup
    by_cases hall : controls.card = g'.controlGroup.size
    · simp only [if_pos hgroup, if_pos hall, hctrl, if_true, Prod.map, id, List.map_map,
        Prod.mk.injEq]
      exact ⟨rfl, List.map_congr_left fun e _ => by simp [keysOf, Function.comp_def]⟩
    · simp only [if_pos hgroup, if_neg hall, hctrl, if_true]
      rfl
  · have hctrl : isControl bk.key = false := decide_eq_false hgroup
    simp only [if_neg hgroup, hctrl, Bool.false_eq_true, if_false]
    rfl

def groupReading (hg : t₀.state = .dynamicGroup g) : Reading t₀ (Pool Bytes Key) Key (List Key) :=
  Reading.total (groups isControl groupOf g.controlGroup.elems.toFinset) poolOf BucketKey.key keysOf
    (by
      unfold Trigger.type
      rw [hg]
      exact nofun)
    (fun now bk _ ht => dynamicGroup_arrives hg ht now bk)
    (by
      intro s t ht
      obtain ⟨g', hstate, -⟩ := dynamicGroup_of_blank hg ht
      obtain ⟨target, name, option, state⟩ := t
      subst hstate
      rfl)

end Reading

namespace TriggerCluster

variable {bucket : Bucket} {triggers : List Trigger} {c c' : TriggerCluster}
  {env : Address → SchedEnv} {randR : RandR} {t : Trigger} {g : DynamicGroupTrigger}

def passedKeys (t : Trigger) (c : TriggerCluster) : List Key :=
  (actionsOf t.triggerName c.fired).flatMap keysOf

/-- Every data key was passed to the target function in one action. -/
def PassedOnce (t : Trigger) (c : TriggerCluster) : Prop :=
  ∀ bk ∈ c.objects, isControl bk.key = false → (c.passedKeys t).count bk.key = 1

/-- A node that gets its last control key, with some data, has all the data that was
put; the coordinator gets its last control key, from a node that has not passed
data on with it, when no data is under way; and data is put before anybody has
passed data on. -/
def InTime (hg : t.state = .dynamicGroup g) (bucket : Bucket) (c : TriggerCluster) :
    TriggerEvent → Prop
  | .put ip _ object _ _ =>
      (c.view (groupReading hg) bucket).PutInTime isControl g.controlGroup.elems.toFinset ip
        object.key
  | .notify ip _ => ∀ key active rest,
      (c.view (groupReading hg) bucket).channels ip = (key, active) :: rest →
        (c.view (groupReading hg) bucket).ReportInTime isControl g.controlGroup.elems.toFinset key
          active
  | .update _ _ => True

theorem passedOnce_iff (hg : t.state = .dynamicGroup g) (bucket : Bucket) (c : TriggerCluster) :
    c.PassedOnce t ↔ (c.view (groupReading hg) bucket).AllPassed isControl := by
  have hfired : (c.view (groupReading hg) bucket).fired =
      (actionsOf t.triggerName c.fired).map keysOf := view_fired (fun _ => rfl) c
  have hobjects : (c.view (groupReading hg) bucket).puts.map Prod.snd =
      c.objects.map BucketKey.key := view_objects_total (fun _ => rfl) c
  simp only [PassedOnce, Replicas.AllPassed, hfired, hobjects, List.forall_mem_map, passedKeys,
    List.flatMap_def]

theorem dynamicGroup_step (h : c.Running bucket triggers) (ht : t ∈ triggers)
    (hg : t.state = .dynamicGroup g) {e : TriggerEvent} (he : e.Meets fun object =>
      object.bucket = bucket ∧ object.key ∉ c.objects.map BucketKey.key)
    (hstep : c.step env randR e = some c') :
    ((c.view (groupReading hg) bucket).Keeps isControl g.controlGroup.elems.toFinset →
      (c.InTime hg bucket e →
        (c'.view (groupReading hg) bucket).Keeps isControl g.controlGroup.elems.toFinset) ∧
      (¬ c.InTime hg bucket e →
        (c'.view (groupReading hg) bucket).Loses isControl g.controlGroup.elems.toFinset)) ∧
    ((c.view (groupReading hg) bucket).Loses isControl g.controlGroup.elems.toFinset →
      (c'.view (groupReading hg) bucket).Loses isControl g.controlGroup.elems.toFinset) := by
  cases e with
  | put ip now object respAddress payload =>
    rcases view_put (groupReading hg) h ht he.1 hstep with ⟨a, ha, hview⟩ | ⟨hnone, -⟩
    · cases ha
      have hnew : object.key ∉ (c.view (groupReading hg) bucket).puts.map Prod.snd := by
        have hobjects : (c.view (groupReading hg) bucket).puts.map Prod.snd =
          c.objects.map BucketKey.key := view_objects_total (fun _ => rfl) c
        rw [hobjects]
        exact he.2
      rw [hview]
      exact ⟨fun hkeeps => hkeeps.put hnew ip, fun hloses => hloses.put hnew ip⟩
    · cases hnone
  | notify ip now =>
    rcases view_notify (groupReading hg) h ht hstep with
      ⟨a, active, rest, receivers, hhead, hview⟩ | ⟨hnil | ⟨object, hnone⟩, hview⟩
    · rw [hview]
      refine ⟨fun hkeeps => ?_, fun hloses => hloses.report hhead receivers⟩
      have hiff : c.InTime hg bucket (.notify ip now) ↔
          (c.view (groupReading hg) bucket).ReportInTime isControl
            g.controlGroup.elems.toFinset a active := by
        refine ⟨fun hin => hin a active rest hhead, fun hin a' active' rest' hhead' => ?_⟩
        rw [hhead] at hhead'
        cases hhead'
        exact hin
      rw [hiff]
      exact hkeeps.report hhead receivers
    · rw [hview]
      refine ⟨fun hkeeps => ⟨fun _ => hkeeps, fun hout => absurd ?_ hout⟩, id⟩
      intro a active rest hhead
      simp [view, hnil] at hhead
    · cases hnone
  | update ip now =>
    rcases view_update (groupReading hg) h ht hstep with ⟨hpos, hview⟩ | hview
    · rw [hview]
      exact ⟨fun hkeeps => ⟨fun _ => hkeeps.clear hpos, fun hout => absurd trivial hout⟩,
        fun hloses => hloses.clear hpos⟩
    · rw [hview]
      exact ⟨fun hkeeps => ⟨fun _ => hkeeps, fun hout => absurd trivial hout⟩, id⟩

theorem Installed.keeps (h : c.Installed bucket triggers) (ht : t ∈ triggers)
    (hg : t.state = .dynamicGroup g) (hne : g.controlGroup.elems ≠ [])
    (hctrl : ∀ key ∈ g.controlGroup, isControl key = true) :
    (c.view (groupReading hg) bucket).Keeps isControl g.controlGroup.elems.toFinset := by
  have hempty := poolOf_of_blank hg (h.blank t ht)
  rw [h.view (groupReading hg) ht fun state => by cases state <;> rfl]
  exact Replicas.Keeps.initial (List.toFinset_nonempty_iff _ |>.mpr hne)
    (fun key hkey => hctrl key (List.mem_toFinset.mp hkey)) hempty (fun _ => hempty)
    (fun _ => rfl) (fun _ => rfl) rfl rfl rfl

/-- Every run that puts each key once goes through, and when the control group was
put and every message received, every data key was passed on in exactly one
action if and only if every event of the run was in time. -/
theorem groups_passed_once_iff_in_time {es : List TriggerEvent}
    (hc : c.Installed bucket triggers) (ht : t ∈ triggers) (hg : t.state = .dynamicGroup g)
    (hne : g.controlGroup.elems ≠ []) (hctrl : ∀ key ∈ g.controlGroup, isControl key = true)
    (hbucket : ∀ object ∈ putsOf es, object.bucket = bucket)
    (honce : ((putsOf es).map BucketKey.key).Nodup) :
    ∃ c', run (step env randR) c es = some c' ∧
      (c'.Delivered → (∀ key ∈ g.controlGroup, key ∈ c'.objects.map BucketKey.key) →
        (c'.PassedOnce t ↔ Along (step env randR) (InTime hg bucket) c es)) := by
  have hes : Along (TriggerCluster.step env randR) (fun c e => e.Meets fun object =>
      object.bucket = bucket ∧ object.key ∉ c.objects.map BucketKey.key) c es := by
    refine along_meets (Q := fun before object =>
      object.bucket = bucket ∧ object.key ∉ before.map BucketKey.key) ?_
    intro before object after hsplit
    refine ⟨hbucket object (by rw [hsplit]; simp), ?_⟩
    rw [hsplit, List.map_append, List.map_cons] at honce
    rw [objects, hc.puts, List.map_nil, List.nil_append]
    exact fun hmem => (List.nodup_append.mp honce).2.2 _ hmem _ List.mem_cons_self rfl
  have hsome := @run_isSome_of_along _ _ (TriggerCluster.step env randR) (Running bucket triggers)
    _ (fun _ _ h he => h.step env randR (he.imp fun _ ho => ho.1)) c es hc.running hes
  obtain ⟨c', hrun⟩ := Option.isSome_iff_exists.mp hsome
  refine ⟨c', hrun, fun hdelivered hcontrols => ?_⟩
  have hquiet : ∀ ip, (c'.view (groupReading hg) bucket).channels ip = [] := by
    intro ip
    simp [view, (hdelivered ip).1]
  have hcomplete :
      (c'.view (groupReading hg) bucket).Complete g.controlGroup.elems.toFinset := by
    intro key hkey
    have hobjects : (c'.view (groupReading hg) bucket).puts.map Prod.snd =
      c'.objects.map BucketKey.key := view_objects_total (fun _ => rfl) c'
    rw [hobjects]
    exact hcontrols key (List.mem_toFinset.mp hkey)
  have hstep : ∀ (c : TriggerCluster) (e : TriggerEvent) (c' : TriggerCluster),
      c.Running bucket triggers → e.Meets (fun object =>
        object.bucket = bucket ∧ object.key ∉ c.objects.map BucketKey.key) →
      c.step env randR e = some c' → c'.Running bucket triggers := by
    intro c e c' h he hstep
    obtain ⟨c₁, hc₁, hrunning⟩ := h.step env randR (he.imp fun _ ho => ho.1)
    cases hc₁.symm.trans hstep
    exact hrunning
  have hend := @along_or_bad _ _ (TriggerCluster.step env randR)
    (fun c => c.Running bucket triggers ∧
      (c.view (groupReading hg) bucket).Keeps isControl g.controlGroup.elems.toFinset)
    (fun c => c.Running bucket triggers ∧
      (c.view (groupReading hg) bucket).Loses isControl g.controlGroup.elems.toFinset) _
    (InTime hg bucket)
    (fun c e c' h he htime hs => ⟨hstep c e c' h.1 he hs,
      ((dynamicGroup_step h.1 ht hg he hs).1 h.2).1 htime⟩)
    (fun c e c' h he hlate hs => ⟨hstep c e c' h.1 he hs,
      ((dynamicGroup_step h.1 ht hg he hs).1 h.2).2 hlate⟩)
    (fun c e c' h he hs => ⟨hstep c e c' h.1 he hs,
      (dynamicGroup_step h.1 ht hg he hs).2 h.2⟩)
    c c' es ⟨hc.running, hc.keeps ht hg hne hctrl⟩ hes hrun
  rw [passedOnce_iff hg bucket]
  rcases hend with ⟨halong, -, hkeeps⟩ | ⟨halong, -, hloses⟩
  · exact ⟨fun _ => halong, fun _ => hkeeps.allPassed hcomplete hquiet⟩
  · exact ⟨fun hall => absurd hall hloses.not_allPassed, fun halong' => absurd halong' halong⟩

def groupTrigger : Trigger where
  targetFunction := Bytes.lit "f"
  triggerName := Bytes.lit "groups"
  triggerOption := 0
  state := .dynamicGroup (DynamicGroupTrigger.new (USet.ofList [Bytes.lit "ctrl:1"]))

/-- Data and control key on one node. -/
theorem groups_passed_once_one_node :
    ∃ c, run (step nodeEnv fun seed => (0, seed)) (fresh (Bytes.lit "x") [groupTrigger])
        [putOf "10.0.0.2" "a:1", putOf "10.0.0.2" "ctrl:1", .notify (Bytes.lit "10.0.0.2") 0,
          .notify (Bytes.lit "10.0.0.2") 0] = some c ∧
      (c.Delivered →
        (∀ key ∈ USet.ofList [Bytes.lit "ctrl:1"], key ∈ c.objects.map BucketKey.key) →
        c.PassedOnce groupTrigger) := by
  have hstate : groupTrigger.state =
    .dynamicGroup (DynamicGroupTrigger.new (USet.ofList [Bytes.lit "ctrl:1"])) := rfl
  obtain ⟨c, hrun, hiff⟩ := @groups_passed_once_iff_in_time (Bytes.lit "x") [groupTrigger]
    (fresh (Bytes.lit "x") [groupTrigger]) nodeEnv (fun seed => (0, seed)) groupTrigger
    (DynamicGroupTrigger.new (USet.ofList [Bytes.lit "ctrl:1"]))
    [putOf "10.0.0.2" "a:1", putOf "10.0.0.2" "ctrl:1", .notify (Bytes.lit "10.0.0.2") 0,
      .notify (Bytes.lit "10.0.0.2") 0]
    (fresh_installed_one _ rfl) List.mem_cons_self hstate (by decide)
    (by decide) (by decide) (by decide)
  refine ⟨c, hrun, fun hdelivered hcontrols => (hiff hdelivered hcontrols).mpr ?_⟩
  have hmissing : Bytes.lit "ctrl:1" ∈ (USet.ofList [Bytes.lit "ctrl:1"]).elems.toFinset := by
    decide
  have hdata : Bytes.lit "a:1" ∉ (USet.ofList [Bytes.lit "ctrl:1"]).elems.toFinset := by decide
  refine ⟨?_, fun c₁ hc₁ => ?_⟩
  · exact And.intro (fun hseen => absurd (hseen _ hmissing) List.not_mem_nil) rfl
  cases hc₁
  refine ⟨?_, fun c₂ hc₂ => ?_⟩
  · intro _ _ p hp _
    rw [List.mem_singleton.mp hp]
  cases hc₂
  refine ⟨fun key active rest hhead => ?_, fun c₃ hc₃ => ?_⟩
  · cases hhead
    exact fun _ hseals => absurd hseals.1 hdata
  cases hc₃
  refine ⟨fun key active rest hhead => ?_, fun _ _ => trivial⟩
  cases hhead
  exact nofun

/-- Two groups on two nodes, both notified.  The control key comes to one of the
nodes, which passes its own group on; the coordinator drops the other. -/
theorem group_of_other_node_lost :
    ∃ c, run (step nodeEnv fun seed => (0, seed)) (fresh (Bytes.lit "x") [groupTrigger])
        [putOf "10.0.0.2" "a:1", putOf "10.0.0.3" "b:1", .notify (Bytes.lit "10.0.0.2") 0,
          .notify (Bytes.lit "10.0.0.3") 0, putOf "10.0.0.2" "ctrl:1",
          .notify (Bytes.lit "10.0.0.2") 0] = some c ∧ c.Delivered ∧
      (∀ key ∈ USet.ofList [Bytes.lit "ctrl:1"], key ∈ c.objects.map BucketKey.key) ∧
      (c.passedKeys groupTrigger).count (Bytes.lit "b:1") = 0 := by
  refine ⟨_, rfl, fun ip => ?_, by decide, by decide⟩
  by_cases hfirst : ip = Bytes.lit "10.0.0.2"
  · subst hfirst
    exact ⟨rfl, rfl⟩
  by_cases hsecond : ip = Bytes.lit "10.0.0.3"
  · subst hsecond
    exact ⟨rfl, rfl⟩
  refine ⟨?_, rfl⟩
  simp only [Function.update_of_ne hfirst, Function.update_of_ne hsecond]
  rfl

end TriggerCluster

end Pheromone.Cluster
