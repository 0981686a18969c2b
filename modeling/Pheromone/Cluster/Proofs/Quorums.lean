import Pheromone.Cluster.Proofs.TriggerViews
import Pheromone.Lib.Quorum

/-!
# K out of N in a cluster

The replicas of a `RedundantTrigger` count the objects that they see, each on its
own.  A node acts when it has seen `k_` objects and the coordinator when it has
been notified of `k_`; the coordinator leaves the action to the node only if the
last of its `k_` notifications is the one that lists the trigger as active.
-/

namespace Pheromone.Cluster

open Lib Common Coordinator Scheduler

/-! ## A redundant trigger as a machine -/

/-- `count_` and `buffer_` -/
def tallyOf : TriggerState → Tally (Session × Key)
  | .redundant t => ⟨t.count.toNat, t.buffer⟩
  | _ => ⟨0, []⟩

section Reading

variable {t₀ t : Trigger} {q : RedundantTrigger}

theorem redundant_of_blank (hq : t₀.state = .redundant q) (ht : t.blank = t₀) :
    ∃ q', t.state = .redundant q' ∧ q'.k = q.k ∧ q'.n = q.n := by
  have hstate := state_of_blank ht
  rw [hq] at hstate
  obtain ⟨target, name, option, state⟩ := t
  cases state <;> cases hstate
  exact ⟨_, rfl, rfl, rfl⟩

theorem tallyOf_of_blank (hq : t₀.state = .redundant q) (hblank : t₀.blank = t₀) :
    tallyOf t₀.state = ⟨0, []⟩ := by
  have hstate := state_of_blank hblank
  rw [hq] at hstate
  rw [hq, ← hstate]
  rfl

theorem redundant_arrives (hq : t₀.state = .redundant q) (ht : t.blank = t₀) (now : TimePoint)
    (bk : BucketKey) :
    let result := t.actionForNewObject now bk
    (quorum (2 ^ 32) q.k.toNat q.n.toNat).arrive (tallyOf t.state) (bk.session, bk.key) =
      (tallyOf result.1.state, result.2.map TriggerAction.sessionKeys) := by
  obtain ⟨q', hstate, hk, hn⟩ := redundant_of_blank hq ht
  obtain ⟨target, name, option, state⟩ := t
  subst hstate
  have hcount : (q'.count.toNat + 1) % 2 ^ 32 = (q'.count + 1).toNat := by
    simp [UInt32.toNat_add]
  simp only [Trigger.actionForNewObject, TriggerState.actionForNewObject,
    RedundantTrigger.actionForNewObject, tallyOf, quorum, hcount, ← hk, ← hn,
    ← UInt32.le_iff_toNat_le, UInt32.toNat_inj]
  split
  · split <;> rfl
  · split <;> rfl

def redundantReading (hq : t₀.state = .redundant q) :
    Reading t₀ (Tally (Session × Key)) (Session × Key) (List (Session × Key)) :=
  Reading.total (quorum (2 ^ 32) q.k.toNat q.n.toNat) tallyOf (fun bk => (bk.session, bk.key))
    TriggerAction.sessionKeys
    (by
      unfold Trigger.type
      rw [hq]
      exact nofun)
    (fun now bk _ ht => redundant_arrives hq ht now bk)
    (by
      intro s t ht
      obtain ⟨q', hstate, hk, -⟩ := redundant_of_blank hq ht
      obtain ⟨target, name, option, state⟩ := t
      subst hstate
      simp [Trigger.clear, TriggerState.clear, RedundantTrigger.clear, tallyOf, quorum, hk,
        UInt32.toNat_add])

theorem redundant_function (hq : t₀.state = .redundant q) (ht : t.blank = t₀) (now : TimePoint)
    (bk : BucketKey) :
    ∀ action ∈ (t.actionForNewObject now bk).2, action.function = t₀.targetFunction := by
  obtain ⟨q', hstate, -, -⟩ := redundant_of_blank hq ht
  obtain ⟨target, name, option, state⟩ := t
  subst hstate
  subst ht
  simp only [Trigger.actionForNewObject, TriggerState.actionForNewObject,
    RedundantTrigger.actionForNewObject, Trigger.blank]
  split
  · split <;> simp
  · split <;> simp

end Reading

namespace TriggerCluster

variable {bucket : Bucket} {triggers : List Trigger} {c c' : TriggerCluster}
  {env : Address → SchedEnv} {randR : RandR} {t : Trigger} {q : RedundantTrigger}

/-- The target function was started once, with `k` of the objects. -/
def StartedOnce (t : Trigger) (k : Nat) (c : TriggerCluster) : Prop :=
  ∃ action, actionsOf t.triggerName c.fired = [action] ∧ action.function = t.targetFunction ∧
    action.sessionKeys.length = k ∧
    action.sessionKeys.Subperm (c.objects.map fun bk => (bk.session, bk.key))

/-- A node gets its object number `k` only when all that the coordinator has been
notified of are fewer than `k` objects of that node, and no other node has a
notification under way with the trigger active; and a notification of a node is
received only when no other node has such a one under way. -/
def InTurnOf (hq : t.state = .redundant q) (bucket : Bucket) (c : TriggerCluster) :
    TriggerEvent → Prop
  | .put ip _ object _ _ =>
      (c.view (redundantReading hq) bucket).PutInTurn (2 ^ 32) q.k.toNat q.n.toNat ip
        (object.session, object.key)
  | .notify ip _ => c.notifies ip ≠ [] → (c.view (redundantReading hq) bucket).Alone ip
  | .update _ _ => True

theorem startedOnce_iff (hq : t.state = .redundant q)
    (hfunction : ∀ action ∈ actionsOf t.triggerName c.fired, action.function = t.targetFunction)
    (k : Nat) : c.StartedOnce t k ↔ (c.view (redundantReading hq) bucket).ActedOnce k := by
  have hfired : (c.view (redundantReading hq) bucket).fired =
      (actionsOf t.triggerName c.fired).map TriggerAction.sessionKeys := view_fired (fun _ => rfl) c
  have hobjects : (c.view (redundantReading hq) bucket).puts.map Prod.snd =
      c.objects.map fun bk => (bk.session, bk.key) := view_objects_total (fun _ => rfl) c
  unfold Replicas.ActedOnce
  rw [hfired, hobjects]
  constructor
  · rintro ⟨action, haction, -, hlength, hsub⟩
    exact ⟨action.sessionKeys, by rw [haction]; rfl, hlength, hsub⟩
  · rintro ⟨objects, hmap, hlength, hsub⟩
    obtain ⟨action, haction, rfl⟩ := List.map_eq_singleton_iff.mp hmap
    exact ⟨action, haction, hfunction action (by rw [haction]; exact List.mem_singleton_self _),
      hlength, hsub⟩

theorem redundant_step (hs : QuorumSizes (2 ^ 32) q.k.toNat q.n.toNat)
    (h : c.Running bucket triggers) (ht : t ∈ triggers) (hq : t.state = .redundant q)
    {e : TriggerEvent}
    (he : e.Meets fun object => object.bucket = bucket ∧ c.objects.length < q.n.toNat)
    (hstep : c.step env randR e = some c') :
    ((c.view (redundantReading hq) bucket).OnTrack (2 ^ 32) q.k.toNat q.n.toNat →
      (c.InTurnOf hq bucket e →
        (c'.view (redundantReading hq) bucket).OnTrack (2 ^ 32) q.k.toNat q.n.toNat) ∧
      (¬ c.InTurnOf hq bucket e →
        (c'.view (redundantReading hq) bucket).OffTrack q.k.toNat q.n.toNat)) ∧
    ((c.view (redundantReading hq) bucket).OffTrack q.k.toNat q.n.toNat →
      (c'.view (redundantReading hq) bucket).OffTrack q.k.toNat q.n.toNat) := by
  cases e with
  | put ip now object respAddress payload =>
    rcases view_put (redundantReading hq) h ht he.1 hstep with ⟨a, ha, hview⟩ | ⟨hnone, -⟩
    · cases ha
      have hleft : (c.view (redundantReading hq) bucket).puts.length < q.n.toNat := by
        have hobjects : (c.view (redundantReading hq) bucket).puts.map Prod.snd =
          c.objects.map fun bk => (bk.session, bk.key) := view_objects_total (fun _ => rfl) c
        rw [← List.length_map Prod.snd, hobjects, List.length_map]
        exact he.2
      rw [hview]
      exact ⟨fun hon => hon.put hs hleft ip _, fun hoff => hoff.put hs hleft ip _⟩
    · cases hnone
  | notify ip now =>
    rcases view_notify (redundantReading hq) h ht hstep with
      ⟨a, active, rest, receivers, hhead, hview⟩ | ⟨hnil | ⟨object, hnone⟩, hview⟩
    · have hne : c.notifies ip ≠ [] := by
        intro hnil
        simp [view, hnil] at hhead
      rw [hview]
      refine ⟨fun hon => ?_, fun hoff => hoff.report hs hhead receivers⟩
      obtain ⟨hturn, hnot⟩ := hon.report hs hhead receivers
      exact ⟨fun hinTurn => hturn (hinTurn hne),
        fun hinTurn => hnot fun halone => hinTurn fun _ => halone⟩
    · rw [hview]
      exact ⟨fun hon => ⟨fun _ => hon, fun hinTurn => absurd (absurd hnil ·) hinTurn⟩, id⟩
    · cases hnone
  | update ip now =>
    rcases view_update (redundantReading hq) h ht hstep with ⟨hpos, hview⟩ | hview
    · rw [hview]
      exact ⟨fun hon => ⟨fun _ => hon.clear hs hpos, fun hinTurn => absurd trivial hinTurn⟩,
        fun hoff => hoff.clear hpos⟩
    · rw [hview]
      exact ⟨fun hon => ⟨fun _ => hon, fun hinTurn => absurd trivial hinTurn⟩, id⟩

structure Calling (bucket : Bucket) (triggers : List Trigger) (t : Trigger)
    (c : TriggerCluster) : Prop where
  running : c.Running bucket triggers
  function : ∀ action ∈ actionsOf t.triggerName c.fired, action.function = t.targetFunction

theorem Calling.step (h : c.Calling bucket triggers t) (ht : t ∈ triggers)
    (hq : t.state = .redundant q) {e : TriggerEvent}
    (he : e.Meets fun object => object.bucket = bucket) (hstep : c.step env randR e = some c') :
    c'.Calling bucket triggers t := by
  obtain ⟨c₁, hc₁, hrunning⟩ := h.running.step env randR he
  cases hc₁.symm.trans hstep
  exact ⟨hrunning, step_actions h.running ht
    (fun now bk _ ht' => redundant_function hq ht' now bk) he hstep h.function⟩

def OnCourse (hq : t.state = .redundant q) (bucket : Bucket) (triggers : List Trigger)
    (c : TriggerCluster) : Prop :=
  c.Calling bucket triggers t ∧
    (c.view (redundantReading hq) bucket).OnTrack (2 ^ 32) q.k.toNat q.n.toNat

def OffCourse (hq : t.state = .redundant q) (bucket : Bucket) (triggers : List Trigger)
    (c : TriggerCluster) : Prop :=
  c.Calling bucket triggers t ∧
    (c.view (redundantReading hq) bucket).OffTrack q.k.toNat q.n.toNat

theorem Installed.onTrack (h : c.Installed bucket triggers) (ht : t ∈ triggers)
    (hq : t.state = .redundant q) (hs : QuorumSizes (2 ^ 32) q.k.toNat q.n.toNat) :
    (c.view (redundantReading hq) bucket).OnTrack (2 ^ 32) q.k.toNat q.n.toNat := by
  have hempty := tallyOf_of_blank hq (h.blank t ht)
  rw [h.view (redundantReading hq) ht fun state => by cases state <;> rfl]
  exact Replicas.OnTrack.initial hs hempty (fun _ => hempty) (fun _ => rfl) (fun _ => rfl) rfl
    rfl rfl

/-- Every run that puts `n` objects goes through, and when every message was
received the target function was started exactly once, with `k` of the objects,
if and only if every event of the run was in turn. -/
theorem started_once_iff_in_turn {es : List TriggerEvent} (hc : c.Installed bucket triggers)
    (ht : t ∈ triggers) (hq : t.state = .redundant q) (hpos : 1 ≤ q.k) (hless : q.k < q.n)
    (hbucket : ∀ object ∈ putsOf es, object.bucket = bucket)
    (hputs : (putsOf es).length = q.n.toNat) :
    ∃ c', run (step env randR) c es = some c' ∧
      (c'.Delivered →
        (c'.StartedOnce t q.k.toNat ↔ Along (step env randR) (InTurnOf hq bucket) c es)) := by
  have hs : QuorumSizes (2 ^ 32) q.k.toNat q.n.toNat := by
    exact ⟨UInt32.le_iff_toNat_le.mp hpos, UInt32.lt_iff_toNat_lt.mp hless, q.n.toNat_lt⟩
  have hes : Along (TriggerCluster.step env randR)
      (fun c e => e.Meets fun object => object.bucket = bucket ∧ c.objects.length < q.n.toNat)
      c es := by
    refine along_meets (Q := fun before object =>
      object.bucket = bucket ∧ before.length < q.n.toNat) ?_
    intro before object after hsplit
    refine ⟨hbucket object (by rw [hsplit]; simp), ?_⟩
    rw [← hputs, hsplit, objects, hc.puts]
    simp
  have hstart : c.OnCourse hq bucket triggers := by
    refine ⟨⟨hc.running, ?_⟩, hc.onTrack ht hq hs⟩
    rw [hc.fired]
    exact fun _ hmem => absurd hmem List.not_mem_nil
  have hsome := @run_isSome_of_along _ _ (TriggerCluster.step env randR) (Running bucket triggers)
    _ (fun _ _ h he => h.step env randR (he.imp fun _ ho => ho.1)) c es hc.running hes
  obtain ⟨c', hrun⟩ := Option.isSome_iff_exists.mp hsome
  refine ⟨c', hrun, fun hdelivered => ?_⟩
  have hquiet : ∀ ip, (c'.view (redundantReading hq) bucket).channels ip = [] := by
    intro ip
    simp [view, (hdelivered ip).1]
  have hlength : (c'.view (redundantReading hq) bucket).puts.length = q.n.toNat := by
    have hobjects : (c'.view (redundantReading hq) bucket).puts.map Prod.snd =
      c'.objects.map fun bk => (bk.session, bk.key) := view_objects_total (fun _ => rfl) c'
    rw [← List.length_map Prod.snd, hobjects, List.length_map, run_objects hrun, objects, hc.puts,
      ← hputs]
    rfl
  have hend := @along_or_bad _ _ (TriggerCluster.step env randR) (OnCourse hq bucket triggers)
    (OffCourse hq bucket triggers) _ (InTurnOf hq bucket)
    (fun _ _ _ h he hturn hstep =>
      ⟨h.1.step ht hq (he.imp fun _ ho => ho.1) hstep,
        ((redundant_step hs h.1.running ht hq he hstep).1 h.2).1 hturn⟩)
    (fun _ _ _ h he hturn hstep =>
      ⟨h.1.step ht hq (he.imp fun _ ho => ho.1) hstep,
        ((redundant_step hs h.1.running ht hq he hstep).1 h.2).2 hturn⟩)
    (fun _ _ _ h he hstep =>
      ⟨h.1.step ht hq (he.imp fun _ ho => ho.1) hstep,
        (redundant_step hs h.1.running ht hq he hstep).2 h.2⟩) c c' es hstart hes hrun
  rcases hend with ⟨halong, hcalling, hon⟩ | ⟨halong, hcalling, hoff⟩
  · rw [startedOnce_iff hq hcalling.function]
    exact ⟨fun _ => halong, fun _ => hon.actedOnce hs hlength hquiet⟩
  · rw [startedOnce_iff hq hcalling.function]
    exact ⟨fun honce => absurd honce (hoff.not_actedOnce hquiet),
      fun halong' => absurd halong' halong⟩

def oneOfTwo : Trigger where
  targetFunction := Bytes.lit "f"
  triggerName := Bytes.lit "first"
  triggerOption := 0
  state := .redundant (RedundantTrigger.new 1 2)

/-- Two objects on one node. -/
theorem started_once_one_node :
    ∃ c, run (step nodeEnv fun seed => (0, seed)) (fresh (Bytes.lit "x") [oneOfTwo])
        [putOf "10.0.0.2" "a", putOf "10.0.0.2" "b", .notify (Bytes.lit "10.0.0.2") 0,
          .notify (Bytes.lit "10.0.0.2") 0] = some c ∧
      (c.Delivered → c.StartedOnce oneOfTwo 1) := by
  have hstate : oneOfTwo.state = .redundant (RedundantTrigger.new 1 2) := rfl
  obtain ⟨c, hrun, hiff⟩ := @started_once_iff_in_turn (Bytes.lit "x") [oneOfTwo]
    (fresh (Bytes.lit "x") [oneOfTwo]) nodeEnv (fun seed => (0, seed)) oneOfTwo
    (RedundantTrigger.new 1 2)
    [putOf "10.0.0.2" "a", putOf "10.0.0.2" "b", .notify (Bytes.lit "10.0.0.2") 0,
      .notify (Bytes.lit "10.0.0.2") 0]
    (fresh_installed_one _ rfl) List.mem_cons_self hstate (by decide) (by decide) (by decide)
    (by decide)
  refine ⟨c, hrun, fun hdelivered => (hiff hdelivered).mpr ?_⟩
  refine ⟨fun _ => ⟨nofun, Nat.zero_lt_one, fun _ _ _ he => nomatch he⟩, fun c₁ hc₁ => ?_⟩
  cases hc₁
  refine ⟨fun hact => absurd rfl hact, fun c₂ hc₂ => ?_⟩
  cases hc₂
  refine ⟨fun _ ip hip e he => ?_, fun c₃ hc₃ => ?_⟩
  · simp only [view, Function.update_of_ne hip] at he
    cases he
  cases hc₃
  refine ⟨fun _ ip hip e he => ?_, fun _ _ => trivial⟩
  simp only [view, Function.update_of_ne hip] at he
  cases he

/-- The first of two objects, put on two nodes: each node starts the function, and
the coordinator leaves it at that. -/
theorem started_on_both_nodes :
    ∃ c, run (step nodeEnv fun seed => (0, seed)) (fresh (Bytes.lit "x") [oneOfTwo])
        [putOf "10.0.0.2" "a", putOf "10.0.0.3" "b", .notify (Bytes.lit "10.0.0.2") 0,
          .notify (Bytes.lit "10.0.0.3") 0] = some c ∧ c.Delivered ∧
      (actionsOf oneOfTwo.triggerName c.fired).length = 2 := by
  refine ⟨_, rfl, fun ip => ?_, by decide⟩
  by_cases hfirst : ip = Bytes.lit "10.0.0.2"
  · subst hfirst
    exact ⟨rfl, rfl⟩
  by_cases hsecond : ip = Bytes.lit "10.0.0.3"
  · subst hsecond
    exact ⟨rfl, rfl⟩
  refine ⟨?_, rfl⟩
  simp only [Function.update_of_ne hfirst, Function.update_of_ne hsecond]
  rfl

end TriggerCluster

end Pheromone.Cluster
