import Pheromone.Cluster.Proofs.TriggerViews
import Pheromone.Lib.Collect

/-!
# Triggers that fire exactly once

`ImmediateTrigger` and `ByNameTrigger` act on an object wherever it is put, so
that the coordinator always skips them.  The replicas of a `BySetTrigger`, seen
in one session, collect a set.
-/

namespace Pheromone.Cluster

open Lib Common Coordinator Scheduler

/-! ## Triggers without memory -/

def objectAction (t : Trigger) (bk : BucketKey) : TriggerAction :=
  { function := t.targetFunction, sessionKeys := [(bk.session, bk.key)] }

theorem targetFunction_of_blank {t t₀ : Trigger} (h : t.blank = t₀) :
    t.targetFunction = t₀.targetFunction := by
  rw [← h]
  rfl

section Immediate

variable {t₀ t : Trigger}

theorem immediate_acts {i : ImmediateTrigger} (hi : t₀.state = .immediate i)
    (ht : t.blank = t₀) (now : TimePoint) (bk : BucketKey) :
    (t.actionForNewObject now bk).2 = [objectAction t₀ bk] := by
  have hstate := state_of_blank ht
  have htarget := targetFunction_of_blank ht
  obtain ⟨target, name, option, state⟩ := t
  rw [hi] at hstate
  cases state <;> cases hstate
  unfold objectAction
  rw [← htarget]
  rfl

theorem byName_acts {b : ByNameTrigger} (hb : t₀.state = .byName b) (ht : t.blank = t₀)
    (now : TimePoint) (bk : BucketKey) :
    (t.actionForNewObject now bk).2 = if bk.key = b.keyName then [objectAction t₀ bk] else [] := by
  have hstate := state_of_blank ht
  have htarget := targetFunction_of_blank ht
  obtain ⟨target, name, option, state⟩ := t
  rw [hb] at hstate
  cases state <;> cases hstate
  unfold objectAction
  rw [← htarget]
  rfl

def memorylessReading (t₀ : Trigger) (act : BucketKey → List TriggerAction)
    (htype : t₀.type ≠ .byTime)
    (hacts : ∀ now bk (t : Trigger), t.blank = t₀ → (t.actionForNewObject now bk).2 = act bk) :
    Reading t₀ Unit BucketKey TriggerAction where
  machine := { arrive := fun _ bk => ((), act bk), clear := id }
  state := fun _ => ()
  object := some
  action := some
  session := fun _ => true
  notByTime := htype
  arrives := by
    rintro now bk _ t ht ⟨⟩
    rw [hacts now bk t ht, List.filterMap_some]
  acts := by
    intro now bk _ t _ _
    rw [List.filterMap_some]
  concerns := fun _ _ _ => rfl
  ignores := fun _ _ _ _ h => nomatch h
  clears := fun _ _ _ _ => rfl
  keeps := fun _ _ _ h => nomatch h

end Immediate

/-! ## Sets of keys -/

def setAction (t : Trigger) (b : BySetTrigger) (session : Session) : TriggerAction :=
  { function := t.targetFunction, sessionKeys := b.keySet.elems.map fun key => (session, key) }

theorem setAction_inj {t : Trigger} {b : BySetTrigger} (hne : b.keySet.elems ≠ [])
    {s s' : Session} (h : setAction t b s = setAction t b s') : s = s' := by
  obtain ⟨key, keys, hkeys⟩ := List.exists_cons_of_ne_nil hne
  have hlist := congrArg TriggerAction.sessionKeys h
  simp only [setAction, hkeys, List.map_cons, List.cons.injEq, Prod.mk.injEq] at hlist
  exact hlist.1.1

section BySet

variable {t₀ t : Trigger} {b : BySetTrigger}

def preparedKeys (session : Session) : TriggerState → Finset Key
  | .bySet t => t.sessionPreparedKeysMap.getD session ∅
  | _ => ∅

theorem bySet_of_blank (hb : t₀.state = .bySet b) (ht : t.blank = t₀) :
    ∃ b', t.state = .bySet b' ∧ b'.keySet = b.keySet := by
  have hstate := state_of_blank ht
  rw [hb] at hstate
  obtain ⟨target, name, option, state⟩ := t
  cases state <;> cases hstate
  exact ⟨_, rfl, rfl⟩

theorem bySet_arrives (hb : t₀.state = .bySet b) (ht : t.blank = t₀) (now : TimePoint)
    (bk : BucketKey) (session : Session) :
    let result := t.actionForNewObject now bk
    if bk.key ∈ b.keySet then
      let prepared := insert bk.key (preparedKeys bk.session t.state)
      (preparedKeys session result.1.state =
          if session = bk.session then (if prepared.card = b.keySet.size then ∅ else prepared)
          else preparedKeys session t.state) ∧
        result.2 = if prepared.card = b.keySet.size then [setAction t₀ b bk.session] else []
    else preparedKeys session result.1.state = preparedKeys session t.state ∧ result.2 = [] := by
  obtain ⟨b', hstate, hkeys⟩ := bySet_of_blank hb ht
  have htarget := targetFunction_of_blank ht
  obtain ⟨target, name, option, state⟩ := t
  subst hstate
  simp only [Trigger.actionForNewObject, TriggerState.actionForNewObject,
    BySetTrigger.actionForNewObject, preparedKeys, setAction, ← hkeys, ← htarget]
  by_cases hkey : bk.key ∈ b'.keySet
  · rw [if_pos hkey, if_pos hkey]
    by_cases hcard : (insert bk.key (b'.sessionPreparedKeysMap.getD bk.session ∅)).card =
        b'.keySet.size
    · simp only [if_pos hcard, Prod.map, id, Map.getD_erase, and_self]
    · simp only [if_neg hcard, Prod.map, id, Map.getD_set, and_self]
  · simp only [if_neg hkey, Prod.map, id, and_self]

theorem card_keySet (b : BySetTrigger) : b.keySet.elems.toFinset.card = b.keySet.size :=
  List.toFinset_card_of_nodup b.keySet.nodup

def setReading (hb : t₀.state = .bySet b) (hne : b.keySet.elems ≠ []) (session : Session) :
    Reading t₀ (Finset Key) Key Unit where
  machine := collect b.keySet.elems.toFinset
  state := preparedKeys session
  object := fun bk => if bk.session = session ∧ bk.key ∈ b.keySet then some bk.key else none
  action := fun action => if action = setAction t₀ b session then some () else none
  session := fun s => s = session
  notByTime := by
    unfold Trigger.type
    rw [hb]
    exact fun h => by cases h
  arrives := by
    intro now bk a t ht hobject
    split at hobject
    next hboth =>
      obtain ⟨rfl, hkey⟩ := hboth
      cases hobject
      have hspec := bySet_arrives hb ht now bk bk.session
      simp only [if_pos hkey, if_true] at hspec
      rw [hspec.1, hspec.2]
      simp only [collect, card_keySet]
      split <;> simp
    · cases hobject
  acts := by
    intro now bk a t ht hobject
    split at hobject
    next hboth =>
      obtain ⟨rfl, hkey⟩ := hboth
      have hspec := bySet_arrives hb ht now bk bk.session
      simp only [if_pos hkey, if_true] at hspec
      rw [hspec.2]
      split <;> simp
    · cases hobject
  concerns := by
    intro bk a hobject
    split at hobject
    next hboth => exact decide_eq_true hboth.1
    · cases hobject
  ignores := by
    intro now bk t ht hobject
    have hspec := bySet_arrives hb ht now bk session
    split at hobject
    · cases hobject
    next hnot =>
      by_cases hkey : bk.key ∈ b.keySet
      · -- an object of another session
        have hsession : bk.session ≠ session := fun hs => hnot ⟨hs, hkey⟩
        simp only [if_pos hkey, if_neg (Ne.symm hsession)] at hspec
        refine ⟨hspec.1, ?_, fun hs => absurd (of_decide_eq_true hs) hsession⟩
        rw [hspec.2]
        split
        · have hother : setAction t₀ b bk.session ≠ setAction t₀ b session := fun heq =>
            hsession (setAction_inj hne heq)
          simp [hother]
        · rfl
      · simp only [if_neg hkey] at hspec
        rw [hspec.2]
        exact ⟨hspec.1, rfl, fun _ => rfl⟩
  clears := by
    intro s t ht hs
    obtain ⟨b', hstate, -⟩ := bySet_of_blank hb ht
    obtain ⟨target, name, option, state⟩ := t
    subst hstate
    rw [decide_eq_true_eq] at hs
    simp only [Trigger.clear, TriggerState.clear, BySetTrigger.clear, preparedKeys,
      Map.getD_erase, if_pos hs.symm]
    rfl
  keeps := by
    intro s t ht hs
    obtain ⟨b', hstate, -⟩ := bySet_of_blank hb ht
    obtain ⟨target, name, option, state⟩ := t
    subst hstate
    rw [decide_eq_false_iff_not] at hs
    simp only [Trigger.clear, TriggerState.clear, BySetTrigger.clear, preparedKeys,
      Map.getD_erase, if_neg (Ne.symm hs)]

theorem setReading_object {hb : t₀.state = .bySet b} {hne : b.keySet.elems ≠ []}
    {session : Session} {bk : BucketKey} {key : Key} :
    (setReading hb hne session).object bk = some key ↔
      bk.session = session ∧ bk.key = key ∧ key ∈ b.keySet := by
  simp only [setReading]
  split
  next hboth =>
    rw [Option.some.injEq]
    constructor
    · rintro rfl
      exact ⟨hboth.1, rfl, hboth.2⟩
    · exact fun h => h.2.1
  next hnot =>
    constructor
    · exact fun h => by cases h
    · rintro ⟨hs, rfl, hkey⟩
      exact absurd ⟨hs, hkey⟩ hnot

theorem preparedKeys_of_blank (hb : t₀.state = .bySet b) (hblank : t₀.blank = t₀)
    (session : Session) : preparedKeys session t₀.state = ∅ := by
  have hstate := state_of_blank hblank
  rw [hb] at hstate
  rw [hb, ← hstate]
  rfl

end BySet

/-! ## What holds in every state -/

namespace TriggerCluster

variable {bucket : Bucket} {triggers : List Trigger} {k k' : TriggerCluster}
  {env : Address → SchedEnv} {randR : RandR}

/-- Counting what a node or the coordinator really started: an immediate trigger
starts once for each object, a trigger by name once for each object of its key,
and a set at most once for a session, which it has done when all its keys were
put and every message was received. -/
structure FiresOnce (bucket : Bucket) (triggers : List Trigger) (k : TriggerCluster) : Prop where
  immediate : ∀ t ∈ triggers, ∀ i, t.state = .immediate i →
    actionsOf t.triggerName k.fired = k.objects.map (objectAction t)
  byName : ∀ t ∈ triggers, ∀ b, t.state = .byName b →
    actionsOf t.triggerName k.fired =
      (k.objects.filter fun bk => bk.key = b.keyName).map (objectAction t)
  bySet : ∀ t ∈ triggers, ∀ b, t.state = .bySet b →
    (∀ action ∈ actionsOf t.triggerName k.fired, ∃ session, action = setAction t b session) ∧
      ∀ session, (actionsOf t.triggerName k.fired).count (setAction t b session) ≤ 1 ∧
        ((∀ key ∈ b.keySet, { bucket, key, session } ∈ k.objects) → k.Delivered →
          (actionsOf t.triggerName k.fired).count (setAction t b session) = 1)

/-- What carries `FiresOnce` through a run: the replicas of every trigger without
memory act where an object is put, and those of a set collect it. -/
structure Exact (bucket : Bucket) (triggers : List Trigger) (k : TriggerCluster) : Prop where
  running : k.Running bucket triggers
  oncePut : k.OncePut bucket
  memoryless : ∀ t₀ ∈ triggers, ∀ act htype hacts,
    Replicas.Immediate act (k.view (memorylessReading t₀ act htype hacts) bucket)
  sets : ∀ t₀ ∈ triggers, ∀ b (hb : t₀.state = .bySet b) (hne : b.keySet.elems ≠ []) session,
    Replicas.Collecting b.keySet.elems.toFinset (k.view (setReading hb hne session) bucket)
  shapes : ∀ t₀ ∈ triggers, ∀ b, t₀.state = .bySet b →
    ∀ action ∈ actionsOf t₀.triggerName k.fired, ∃ session, action = setAction t₀ b session

theorem set_acts {t₀ t : Trigger} {b : BySetTrigger} (hb : t₀.state = .bySet b)
    (ht : t.blank = t₀) (now : TimePoint) (bk : BucketKey) :
    ∀ action ∈ (t.actionForNewObject now bk).2, ∃ session, action = setAction t₀ b session := by
  intro action hmem
  have hspec := bySet_arrives hb ht now bk bk.session
  by_cases hkey : bk.key ∈ b.keySet
  · simp only [if_pos hkey] at hspec
    rw [hspec.2] at hmem
    split at hmem
    · exact ⟨bk.session, List.mem_singleton.mp hmem⟩
    · cases hmem
  · simp only [if_neg hkey] at hspec
    rw [hspec.2] at hmem
    cases hmem

theorem Installed.exact (h : k.Installed bucket triggers) : k.Exact bucket triggers where
  running := h.running
  oncePut := ⟨by simp [objects, h.puts], by simp [objects, h.puts]⟩
  memoryless := by
    intro t₀ ht₀ act htype hacts
    rw [h.view (memorylessReading t₀ act htype hacts) ht₀ fun _ => rfl]
    exact ⟨rfl, by simp⟩
  sets := by
    intro t₀ ht₀ b hb hne session
    have hnew := preparedKeys_of_blank hb (h.blank t₀ ht₀) session
    rw [h.view (setReading hb hne session) ht₀ fun state => by cases state <;> rfl]
    exact Replicas.Collecting.initial (List.toFinset_nonempty_iff _ |>.mpr hne) hnew
      (fun _ => hnew) (fun _ => rfl) (fun _ => rfl) rfl rfl rfl
  shapes := by
    intro t₀ _ b _ action hmem
    simp [h.fired, actionsOf] at hmem

theorem Exact.step (h : k.Exact bucket triggers) {e : TriggerEvent} (he : k.PutOnce bucket e)
    (hstep : k.step env randR e = some k') : k'.Exact bucket triggers := by
  have honce := h.oncePut.step he hstep
  obtain ⟨k₁, hk₁, hrunning⟩ := h.running.step env randR he.meets
  cases hk₁.symm.trans hstep
  refine ⟨hrunning, honce, ?_, ?_, ?_⟩
  · intro t₀ ht₀ act htype hacts
    rcases step_view (memorylessReading t₀ act htype hacts) h.running ht₀ he.meets hstep with
      hview | hview
    · exact (h.memoryless t₀ ht₀ act htype hacts).step (fun _ _ => rfl) hview
    · rw [hview]
      exact h.memoryless t₀ ht₀ act htype hacts
  · intro t₀ ht₀ b hb hne session
    rcases step_view (setReading hb hne session) h.running ht₀ he.meets hstep with hview | hview
    · refine (h.sets t₀ ht₀ b hb hne session).step hview ?_ ?_
      · intro p hp
        have hobject := List.mem_map_of_mem (f := Prod.snd) hp
        rw [view_objects, List.mem_filterMap] at hobject
        obtain ⟨bk, -, hbk⟩ := hobject
        exact List.mem_toFinset.mpr (setReading_object.mp hbk).2.2
      · refine honce.view _ ?_
        rintro ⟨bucket₁, key₁, session₁⟩ ⟨bucket₂, key₂, session₂⟩ key hbucket hbk hbk'
        obtain ⟨hs, hk, -⟩ := setReading_object.mp hbk
        obtain ⟨hs', hk', -⟩ := setReading_object.mp hbk'
        simp only at hbucket hs hk hs' hk'
        rw [hbucket, hk, hs, hk', hs']
    · rw [hview]
      exact h.sets t₀ ht₀ b hb hne session
  · intro t₀ ht₀ b hb
    exact step_actions h.running ht₀ (fun now bk t ht => set_acts hb ht now bk) he.meets hstep
      (h.shapes t₀ ht₀ b hb)

/-! ## Reading the invariant -/

theorem length_filterMap_eq_count {α : Type} [DecidableEq α] (a : α) (l : List α) :
    (l.filterMap fun b => if b = a then some () else none).length = l.count a := by
  induction l with
  | nil => rfl
  | cons b l ih =>
    rw [List.count_cons]
    by_cases hb : b = a <;> simp [hb, ih]

theorem Exact.firesOnce (h : k.Exact bucket triggers)
    (hsets : ∀ t ∈ triggers, ∀ b, t.state = .bySet b → b.keySet.elems ≠ []) :
    k.FiresOnce bucket triggers where
  immediate := by
    intro t ht i hi
    have hview := (h.memoryless t ht (fun bk => [objectAction t bk])
      (by unfold Trigger.type; rw [hi]; exact fun h => by cases h)
      fun now bk t' ht' => immediate_acts hi ht' now bk).fired
    rw [view_objects] at hview
    simp only [view, memorylessReading, List.filterMap_some] at hview
    rw [hview]
    exact List.map_eq_flatMap.symm
  byName := by
    intro t ht b hb
    have hview := (h.memoryless t ht
      (fun bk => if bk.key = b.keyName then [objectAction t bk] else [])
      (by unfold Trigger.type; rw [hb]; exact fun h => by cases h)
      fun now bk t' ht' => byName_acts hb ht' now bk).fired
    rw [view_objects] at hview
    simp only [view, memorylessReading, List.filterMap_some] at hview
    rw [hview]
    induction k.objects with
    | nil => rfl
    | cons bk objects ih =>
      by_cases hkey : bk.key = b.keyName <;> simp [hkey, ih]
  bySet := by
    intro t ht b hb
    refine ⟨h.shapes t ht b hb, fun session => ?_⟩
    have hsets := h.sets t ht b hb (hsets t ht b hb) session
    have hcount := length_filterMap_eq_count (setAction t b session)
      (actionsOf t.triggerName k.fired)
    refine ⟨?_, fun hall hdelivered => ?_⟩
    · rw [← hcount]
      exact hsets.fired_le_one
    · rw [← hcount]
      refine hsets.fired_eq_one ?_ ?_
      · intro key hkey
        rw [view_objects, List.mem_filterMap]
        have hmem : key ∈ b.keySet := List.mem_toFinset.mp hkey
        exact ⟨_, hall key hmem, setReading_object.mpr ⟨rfl, rfl, hmem⟩⟩
      · intro ip
        simp [view, (hdelivered ip).1]

/-- In every run of the cluster that puts each object once, no event is undefined,
and in every state immediate triggers, triggers by name and sets have fired
exactly as often as they should. -/
theorem triggers_fire_exactly_once {es : List TriggerEvent}
    (hk : k.Installed bucket triggers)
    (hsets : ∀ t ∈ triggers, ∀ b, t.state = .bySet b → b.keySet.elems ≠ [])
    (hbucket : ∀ object ∈ putsOf es, object.bucket = bucket) (honce : (putsOf es).Nodup) :
    (run (step env randR) k es).isSome ∧
      Throughout (step env randR) (FiresOnce bucket triggers) k es := by
  have hes : Along (TriggerCluster.step env randR) (PutOnce bucket) k es := by
    refine along_putOnce hbucket ?_
    rw [objects, hk.puts]
    exact honce
  constructor
  · exact @run_isSome_of_along _ _ (TriggerCluster.step env randR) (Running bucket triggers)
      (PutOnce bucket) (fun _ _ h he => h.step env randR he.meets) k es hk.running hes
  · exact @throughout_of_along _ _ (TriggerCluster.step env randR) (Exact bucket triggers)
      (FiresOnce bucket triggers) (PutOnce bucket) (fun _ h => h.firesOnce hsets)
      (fun _ _ _ h he hstep => h.step he hstep) k es hk.exact hes

def pairTrigger : Trigger where
  targetFunction := Bytes.lit "f"
  triggerName := Bytes.lit "pair"
  triggerOption := 0
  state := .bySet (BySetTrigger.new (USet.ofList [Bytes.lit "a", Bytes.lit "b"]))

def pairRun : List TriggerEvent := [
  .put (Bytes.lit "10.0.0.2") 0
    { bucket := Bytes.lit "x", key := Bytes.lit "a", session := Bytes.lit "s" } [] [],
  .put (Bytes.lit "10.0.0.3") 0
    { bucket := Bytes.lit "x", key := Bytes.lit "b", session := Bytes.lit "s" } [] [],
  .notify (Bytes.lit "10.0.0.2") 0,
  .notify (Bytes.lit "10.0.0.3") 0]

theorem pair_fires_exactly_once :
    (fresh (Bytes.lit "x") [pairTrigger]).Installed (Bytes.lit "x") [pairTrigger] ∧
      (run (step nodeEnv fun seed => (0, seed)) (fresh (Bytes.lit "x") [pairTrigger])
        pairRun).isSome ∧
      Throughout (step nodeEnv fun seed => (0, seed)) (FiresOnce (Bytes.lit "x") [pairTrigger])
        (fresh (Bytes.lit "x") [pairTrigger]) pairRun := by
  have hblank : ∀ t ∈ [pairTrigger], t.blank = t := by
    intro t ht
    rw [List.mem_singleton.mp ht]
    rfl
  have hinstalled := fresh_installed (Bytes.lit "x") hblank (List.nodup_singleton _)
  refine ⟨hinstalled, triggers_fire_exactly_once hinstalled ?_ (by decide) (by decide)⟩
  intro t ht b hb
  rw [List.mem_singleton.mp ht] at hb
  cases hb
  decide

end TriggerCluster

end Pheromone.Cluster
