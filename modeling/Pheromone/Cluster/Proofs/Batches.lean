import Pheromone.Cluster.Proofs.TriggerViews
import Pheromone.Lib.Batch

/-!
# Batches in a cluster

The replicas of a `ByBatchSizeTrigger` gather batches, each on its own.  The node
and the coordinator may put an object into different batches: the coordinator
skips a trigger by its name, without a look at the objects of the batch that the
node started.
-/

namespace Pheromone.Cluster

open Lib Common Coordinator Scheduler

/-! ## A batch trigger as a machine -/

/-- `buffer_` -/
def bufferOf : TriggerState → List (Session × Key)
  | .byBatchSize t => t.buffer
  | _ => []

section Reading

variable {t₀ t : Trigger} {b : ByBatchSizeTrigger}

theorem batch_of_blank (hb : t₀.state = .byBatchSize b) (ht : t.blank = t₀) :
    ∃ b', t.state = .byBatchSize b' ∧ b'.count = b.count := by
  have hstate := state_of_blank ht
  rw [hb] at hstate
  obtain ⟨target, name, option, state⟩ := t
  cases state <;> cases hstate
  exact ⟨_, rfl, rfl⟩

theorem bufferOf_of_blank (hb : t₀.state = .byBatchSize b) (hblank : t₀.blank = t₀) :
    bufferOf t₀.state = [] := by
  have hstate := state_of_blank hblank
  rw [hb] at hstate
  rw [hb, ← hstate]
  rfl

theorem batch_arrives (hb : t₀.state = .byBatchSize b) (ht : t.blank = t₀) (now : TimePoint)
    (bk : BucketKey) :
    let result := t.actionForNewObject now bk
    (batch (sizeOfInt b.count)).arrive (bufferOf t.state) (bk.session, bk.key) =
      (bufferOf result.1.state, result.2.map TriggerAction.sessionKeys) := by
  obtain ⟨b', hstate, hcount⟩ := batch_of_blank hb ht
  obtain ⟨target, name, option, state⟩ := t
  subst hstate
  simp only [Trigger.actionForNewObject, TriggerState.actionForNewObject,
    ByBatchSizeTrigger.actionForNewObject, bufferOf, batch, ← hcount, List.length_append,
    List.length_singleton]
  split <;> rfl

def batchReading (hb : t₀.state = .byBatchSize b) :
    Reading t₀ (List (Session × Key)) (Session × Key) (List (Session × Key)) :=
  Reading.total (batch (sizeOfInt b.count)) bufferOf (fun bk => (bk.session, bk.key))
    TriggerAction.sessionKeys
    (by
      unfold Trigger.type
      rw [hb]
      exact nofun)
    (fun now bk _ ht => batch_arrives hb ht now bk)
    (by
      intro s t ht
      obtain ⟨b', hstate, -⟩ := batch_of_blank hb ht
      obtain ⟨target, name, option, state⟩ := t
      subst hstate
      rfl)

end Reading

namespace TriggerCluster

variable {bucket : Bucket} {triggers : List Trigger} {k k' : TriggerCluster}
  {env : Address → SchedEnv} {randR : RandR} {t : Trigger} {b : ByBatchSizeTrigger}

def batched (t : Trigger) (k : TriggerCluster) : List (Session × Key) :=
  (actionsOf t.triggerName k.fired).flatMap TriggerAction.sessionKeys

/-- No object is in two batches; when every message was received each object is
in one batch or in the buffer of the coordinator. -/
structure BatchesOnce (bucket : Bucket) (t : Trigger) (k : TriggerCluster) : Prop where
  once : ∀ object, (k.batched t).count object ≤ 1
  kept : k.Delivered → ∀ bk ∈ k.objects,
    (k.batched t).count (bk.session, bk.key) +
      (bufferOf (copyOf t (k.coord.triggersOf bucket)).state).count (bk.session, bk.key) = 1

/-- A node fills a batch only when the buffer of the coordinator, after the
notifications of that node that are under way, will hold the same objects; and the
notification of a node is received only when no other node has one under way with
which it started a batch. -/
def InTurn (hb : t.state = .byBatchSize b) (bucket : Bucket) (k : TriggerCluster) :
    TriggerEvent → Prop
  | .put ip _ _ _ _ =>
      sizeOfInt b.count ≤ ((k.view (batchReading hb) bucket).nodes ip).length + 1 →
        (k.view (batchReading hb) bucket).Alone ip ∧
          (k.view (batchReading hb) bucket).InStep (sizeOfInt b.count) ip
  | .notify ip _ => k.notifies ip ≠ [] → (k.view (batchReading hb) bucket).Alone ip
  | .update _ _ => True

structure Gathering (hb : t.state = .byBatchSize b) (bucket : Bucket)
    (triggers : List Trigger) (k : TriggerCluster) : Prop where
  running : k.Running bucket triggers
  oncePut : k.OncePut bucket
  placed : (k.view (batchReading hb) bucket).Placed
  balanced : ∃ ip, (k.view (batchReading hb) bucket).Balanced (sizeOfInt b.count) ip

theorem Installed.gathering (h : k.Installed bucket triggers) (ht : t ∈ triggers)
    (hb : t.state = .byBatchSize b) : k.Gathering hb bucket triggers := by
  have hempty := bufferOf_of_blank hb (h.blank t ht)
  have hview := h.view (batchReading hb) ht fun state => by cases state <;> rfl
  refine ⟨h.running, ⟨by simp [objects, h.puts], by simp [objects, h.puts]⟩, ?_, [], ?_⟩
  · rw [hview]
    intro ip
    rfl
  · rw [hview]
    exact Replicas.Balanced.initial hempty (fun _ => rfl) rfl rfl []

theorem Gathering.step {hb : t.state = .byBatchSize b} (ht : t ∈ triggers)
    (h : k.Gathering hb bucket triggers) {e : TriggerEvent} (he : k.PutOnce bucket e)
    (hturn : k.InTurn hb bucket e) (hstep : k.step env randR e = some k') :
    k'.Gathering hb bucket triggers := by
  obtain ⟨k₁, hk₁, hrunning⟩ := h.running.step env randR he.meets
  cases hk₁.symm.trans hstep
  have hplaced : (k'.view (batchReading hb) bucket).Placed := by
    rcases step_view (batchReading hb) h.running ht he.meets hstep with hview | hview
    · exact h.placed.step hview
    · rw [hview]
      exact h.placed
  refine ⟨hrunning, h.oncePut.step he hstep, hplaced, ?_⟩
  obtain ⟨lead, hbalanced⟩ := h.balanced
  cases e with
  | put ip now object respAddress payload =>
    rcases view_put (batchReading hb) h.running ht he.1 hstep with ⟨a, -, hview⟩ | ⟨hnone, -⟩
    · rw [hview]
      by_cases hfull : sizeOfInt b.count ≤
          ((k.view (batchReading hb) bucket).nodes ip).length + 1
      · obtain ⟨halone, hinStep⟩ := hturn hfull
        exact ⟨ip, hbalanced.put_full hfull halone hinStep a⟩
      · exact ⟨lead, hbalanced.put_short hfull a⟩
    · cases hnone
  | notify ip now =>
    rcases view_notify (batchReading hb) h.running ht hstep with
      ⟨a, active, rest, receivers, hhead, hview⟩ | ⟨-, hview⟩
    · have hne : k.notifies ip ≠ [] := by
        intro hnil
        simp [view, hnil] at hhead
      rw [hview]
      exact ⟨ip, hbalanced.report (hturn hne) hhead receivers⟩
    · rw [hview]
      exact ⟨lead, hbalanced⟩
  | update ip now =>
    rcases view_update (batchReading hb) h.running ht hstep with ⟨-, hview⟩ | hview
    · rw [hview]
      exact ⟨lead, hbalanced.clear ip⟩
    · rw [hview]
      exact ⟨lead, hbalanced⟩

theorem batched_eq (hb : t.state = .byBatchSize b) (k : TriggerCluster) :
    k.batched t = (k.view (batchReading hb) bucket).fired.flatten := by
  rw [view_fired (f := TriggerAction.sessionKeys) (fun _ => rfl), batched, List.flatMap_def]

theorem Gathering.batchesOnce {hb : t.state = .byBatchSize b}
    (h : k.Gathering hb bucket triggers) : k.BatchesOnce bucket t := by
  obtain ⟨lead, hbalanced⟩ := h.balanced
  have honce : ((k.view (batchReading hb) bucket).puts.map Prod.snd).Nodup := by
    refine h.oncePut.view _ ?_
    rintro ⟨bucket₁, key₁, session₁⟩ ⟨bucket₂, key₂, session₂⟩ a hbucket hbk hbk'
    cases hbk
    cases hbk'
    simp only at hbucket
    rw [hbucket]
  refine ⟨fun object => ?_, fun hdelivered bk hbk => ?_⟩
  · rw [batched_eq hb]
    exact hbalanced.count_fired_le_one h.placed honce object
  · rw [batched_eq hb]
    refine hbalanced.count_of_quiet h.placed honce (fun ip => ?_) ?_
    · simp [view, (hdelivered ip).1]
    · rw [view_objects, List.mem_filterMap]
      exact ⟨bk, hbk, rfl⟩

/-- In every run in which nodes and coordinator fill their batches in turn, no
object is lost and none is in two batches. -/
theorem batches_once_in_turn {es : List TriggerEvent} (hk : k.Installed bucket triggers)
    (ht : t ∈ triggers) (hb : t.state = .byBatchSize b)
    (hbucket : ∀ object ∈ putsOf es, object.bucket = bucket) (honce : (putsOf es).Nodup)
    (hturn : Along (step env randR) (InTurn hb bucket) k es) :
    Throughout (step env randR) (BatchesOnce bucket t) k es := by
  have hes : Along (TriggerCluster.step env randR) (PutOnce bucket) k es := by
    refine along_putOnce hbucket ?_
    rw [objects, hk.puts]
    exact honce
  exact @throughout_of_along _ _ (TriggerCluster.step env randR) (Gathering hb bucket triggers)
    (BatchesOnce bucket t) (fun k e => k.PutOnce bucket e ∧ k.InTurn hb bucket e)
    (fun _ h => h.batchesOnce) (fun _ _ _ h he hstep => h.step ht he.1 he.2 hstep) k es
    (hk.gathering ht hb) (hes.and hturn)

/-! ## Puts on one node -/

/-- Everything was put on the node `ip`, which fills the same batches as the
coordinator. -/
structure OneNode (hb : t.state = .byBatchSize b) (bucket : Bucket) (triggers : List Trigger)
    (ip : Address) (k : TriggerCluster) : Prop where
  running : k.Running bucket triggers
  puts : ∀ p ∈ k.puts, p.1 = ip
  others : ∀ ip', ip' ≠ ip → k.notifies ip' = []
  synced : (k.view (batchReading hb) bucket).Synced (sizeOfInt b.count) ip

def PutOn (ip : Address) : TriggerEvent → Prop
  | .put ip' _ _ _ _ => ip' = ip
  | _ => True

theorem putOn_step {ip : Address} (hputs : ∀ p ∈ k.puts, p.1 = ip)
    (hothers : ∀ ip', ip' ≠ ip → k.notifies ip' = []) {e : TriggerEvent}
    (he : PutOn ip e) (hstep : k.step env randR e = some k') :
    (∀ p ∈ k'.puts, p.1 = ip) ∧ ∀ ip', ip' ≠ ip → k'.notifies ip' = [] := by
  cases e with
  | put ip' now object respAddress payload =>
    obtain rfl := he
    cases hstep
    refine ⟨fun p hp => ?_, fun ip'' hne => ?_⟩
    · rcases List.mem_append.mp hp with hp | hp
      · exact hputs p hp
      · rw [List.mem_singleton.mp hp]
    · simp only [Function.update_of_ne hne]
      exact hothers ip'' hne
  | notify ip' now =>
    simp only [step] at hstep
    split at hstep
    · cases hstep
      exact ⟨hputs, hothers⟩
    next request rest hhead =>
      obtain ⟨result, -, rfl⟩ := Option.map_eq_some_iff.mp hstep
      refine ⟨hputs, fun ip'' hne => ?_⟩
      by_cases hip : ip'' = ip'
      · subst hip
        rw [hothers ip'' hne] at hhead
        cases hhead
      · simp only [Function.update_of_ne hip]
        exact hothers ip'' hne
  | update ip' now =>
    simp only [step] at hstep
    split at hstep
    · cases hstep
      exact ⟨hputs, hothers⟩
    · obtain ⟨s, -, rfl⟩ := Option.map_eq_some_iff.mp hstep
      exact ⟨hputs, hothers⟩

theorem OneNode.step {hb : t.state = .byBatchSize b} (ht : t ∈ triggers) {ip : Address}
    (h : k.OneNode hb bucket triggers ip) {e : TriggerEvent} (he : k.PutOnce bucket e ∧ PutOn ip e)
    (hstep : k.step env randR e = some k') : k'.OneNode hb bucket triggers ip := by
  obtain ⟨k₁, hk₁, hrunning⟩ := h.running.step env randR he.1.meets
  cases hk₁.symm.trans hstep
  obtain ⟨hputs, hothers⟩ := putOn_step h.puts h.others he.2 hstep
  refine ⟨hrunning, hputs, hothers, ?_⟩
  rcases step_view (batchReading hb) h.running ht he.1.meets hstep with hview | hview
  · refine h.synced.step hview ?_
    intro p hp
    obtain ⟨q, hq, hplaced⟩ := List.mem_filterMap.mp hp
    cases hplaced
    exact hputs q hq
  · rw [hview]
    exact h.synced

theorem Installed.oneNode (h : k.Installed bucket triggers) (ht : t ∈ triggers)
    (hb : t.state = .byBatchSize b) (ip : Address) : k.OneNode hb bucket triggers ip := by
  have hempty := bufferOf_of_blank hb (h.blank t ht)
  refine ⟨h.running, by simp [h.puts], fun ip' _ => h.notifies ip', ?_⟩
  rw [h.view (batchReading hb) ht fun state => by cases state <;> rfl]
  exact ⟨fun _ _ => rfl, rfl, trivial, fun _ => rfl⟩

theorem along_inTurn_of_one_node {es : List TriggerEvent} (hk : k.Installed bucket triggers)
    (ht : t ∈ triggers) (hb : t.state = .byBatchSize b)
    (hes : Along (step env randR) (PutOnce bucket) k es) (ip : Address)
    (hone : ∀ e ∈ es, PutOn ip e) : Along (step env randR) (InTurn hb bucket) k es := by
  refine @along_of_invariant _ _ (TriggerCluster.step env randR) (OneNode hb bucket triggers ip)
    (fun k e => k.PutOnce bucket e ∧ PutOn ip e) (InTurn hb bucket) ?_
    (fun _ _ _ h he hstep => h.step ht he hstep) k es (hk.oneNode ht hb ip)
    (hes.and (along_of_forall hone k))
  intro k e h he
  cases e with
  | put ip' now object respAddress payload =>
    obtain rfl := he.2
    exact fun _ => ⟨h.synced.alone, h.synced.inStep⟩
  | notify ip' now =>
    intro hne
    have hip : ip' = ip := by
      by_contra hip
      exact hne (h.others ip' hip)
    subst hip
    exact h.synced.alone
  | update ip' now => trivial

def twoTrigger : Trigger where
  targetFunction := Bytes.lit "f"
  triggerName := Bytes.lit "two"
  triggerOption := 0
  state := .byBatchSize (ByBatchSizeTrigger.new 2)

/-- Two objects on one node, and both notifications. -/
theorem batches_once_in_turn_one_node :
    Throughout (step nodeEnv fun seed => (0, seed)) (BatchesOnce (Bytes.lit "x") twoTrigger)
      (fresh (Bytes.lit "x") [twoTrigger])
      [putOf "10.0.0.2" "a", putOf "10.0.0.2" "b", .notify (Bytes.lit "10.0.0.2") 0,
        .notify (Bytes.lit "10.0.0.2") 0] := by
  have hinstalled := fresh_installed_one (Bytes.lit "x") (t := twoTrigger) rfl
  have hstate : twoTrigger.state = .byBatchSize (ByBatchSizeTrigger.new 2) := rfl
  refine batches_once_in_turn hinstalled List.mem_cons_self hstate (by decide) (by decide) ?_
  refine along_inTurn_of_one_node hinstalled List.mem_cons_self hstate
    (along_putOnce (by decide) (by decide)) (Bytes.lit "10.0.0.2") ?_
  simp [PutOn, putOf]

/-- A node starts the batch of `a` and `b`.  The coordinator receives `a`, and
then `c` from another node before it is told about `b`, and starts the batch of `a`
and `c`: `a` is in both. -/
theorem object_in_two_batches :
    (run (step nodeEnv fun seed => (0, seed)) (fresh (Bytes.lit "x") [twoTrigger])
        [putOf "10.0.0.2" "a", putOf "10.0.0.2" "b", putOf "10.0.0.3" "c",
          .notify (Bytes.lit "10.0.0.2") 0, .notify (Bytes.lit "10.0.0.3") 0]).map
      (fun k => (k.batched twoTrigger).count (Bytes.lit "s", Bytes.lit "a")) = some 2 := by
  decide

end TriggerCluster

end Pheromone.Cluster
