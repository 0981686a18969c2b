import Pheromone.Common.Trigger
import Pheromone.Lib.Outputs
import Mathlib.Data.Finset.Basic

/-!
# Completing a set

A `BySetTrigger` collects the keys of its set separately for each session, and acts
when the last missing key of a session arrives.
-/

namespace Pheromone.Common

open Lib

variable {t : BySetTrigger} {keys : Finset Key}

inductive SetEvent
  | arrive (object : BucketKey)
  | clear (session : Session)

def SetEvent.session : SetEvent → Session
  | .arrive object => object.session
  | .clear session => session

abbrev SetEntry := SetEvent × List TriggerAction

namespace BySetTrigger

def step (target : Name) (t : BySetTrigger) : SetEvent → BySetTrigger × List TriggerAction
  | .arrive object => t.actionForNewObject target object
  | .clear session => (t.clear session, [])

def prepared (t : BySetTrigger) (session : Session) : Finset Key :=
  t.sessionPreparedKeysMap.getD session ∅

def completion (target : Name) (keySet : USet Key) (session : Session) : TriggerAction :=
  { function := target, sessionKeys := keySet.elems.map fun key => (session, key) }

end BySetTrigger

/-! ## Since the last round -/

/-- The entry ends a round of the session: the trigger acted for it or was cleared. -/
def endsRound (session : Session) (entry : SetEntry) : Bool :=
  match entry.1 with
  | .arrive object => decide (object.session = session) && !entry.2.isEmpty
  | .clear session' => decide (session' = session)

def keyFor (session : Session) (entry : SetEntry) : Option Key :=
  match entry.1 with
  | .arrive object => if object.session = session then some object.key else none
  | .clear _ => none

/-- The keys that arrived for a session since the trigger last acted for it or was
cleared, the latest first. -/
def arrivedSince (session : Session) (entries : List SetEntry) : List Key :=
  (entries.reverse.takeWhile fun entry => !endsRound session entry).filterMap (keyFor session)

theorem arrivedSince_append (session : Session) (entries : List SetEntry) (entry : SetEntry) :
    arrivedSince session (entries ++ [entry]) =
      if endsRound session entry then []
      else (keyFor session entry).toList ++ arrivedSince session entries := by
  unfold arrivedSince
  rw [List.reverse_append, List.reverse_singleton, List.singleton_append, List.takeWhile_cons]
  cases endsRound session entry with
  | true => simp
  | false =>
    simp only [Bool.not_false, if_true, Bool.false_eq_true, if_false, List.filterMap_cons]
    cases keyFor session entry <;> rfl

/-! ## One session -/

def roundStep (target : Name) (keySet : USet Key) (keys : Finset Key) :
    SetEvent → Finset Key × List TriggerAction
  | .arrive object =>
      if object.key ∈ keySet then
        if insert object.key keys = keySet.elems.toFinset then
          (∅, [BySetTrigger.completion target keySet object.session])
        else (insert object.key keys, [])
      else (keys, [])
  | .clear _ => (∅, [])

namespace BySetTrigger

variable (target : Name) {keySet : USet Key}

/-- A trigger for the keys `keySet`; what it has collected is a part of them, and not
the whole unless there is nothing to collect. -/
structure Collects (keySet : USet Key) (t : BySetTrigger) : Prop where
  keys : t.keySet = keySet
  subset : ∀ session, t.prepared session ⊆ keySet.elems.toFinset
  proper : keySet.elems ≠ [] → ∀ session, t.prepared session ≠ keySet.elems.toFinset

theorem prepared_set (t : BySetTrigger) (session session' : Session) (keys : Finset Key) :
    (t.sessionPreparedKeysMap.set session keys).getD session' ∅ =
      if session' = session then keys else t.prepared session' :=
  Map.getD_set _ _ _ _ _

theorem prepared_erase (t : BySetTrigger) (session session' : Session) :
    (t.sessionPreparedKeysMap.erase session).getD session' ∅ =
      if session' = session then ∅ else t.prepared session' :=
  Map.getD_erase _ _ _ _

theorem actionForNewObject_eq (t : BySetTrigger) (object : BucketKey) :
    t.actionForNewObject target object = if object.key ∈ t.keySet then
        if (insert object.key (t.prepared object.session)).card = t.keySet.size then
          ({ t with
              sessionPreparedKeysMap := t.sessionPreparedKeysMap.erase object.session
              sessionStatusCache :=
                Map.erase t.sessionStatusCache (object.key ++ object.session) },
            [completion target t.keySet object.session])
        else
          ({ t with
              sessionPreparedKeysMap := t.sessionPreparedKeysMap.set object.session
                (insert object.key (t.prepared object.session))
              sessionStatusCache :=
                Map.erase t.sessionStatusCache (object.key ++ object.session) }, [])
      else (t, []) := rfl

theorem step_spec (h : Collects keySet t) (e : SetEvent) :
    (t.step target e).1.keySet = keySet ∧
      (t.step target e).2 = (roundStep target keySet (t.prepared e.session) e).2 ∧
      ∀ session, (t.step target e).1.prepared session =
        if session = e.session then (roundStep target keySet (t.prepared e.session) e).1
        else t.prepared session := by
  cases e with
  | clear session => exact ⟨h.keys, rfl, fun session' => prepared_erase t session session'⟩
  | arrive object =>
    obtain rfl := h.keys
    have hround : roundStep target t.keySet (t.prepared object.session) (.arrive object) =
        if object.key ∈ t.keySet then
          if insert object.key (t.prepared object.session) = t.keySet.elems.toFinset then
            (∅, [completion target t.keySet object.session])
          else (insert object.key (t.prepared object.session), [])
        else (t.prepared object.session, []) := rfl
    simp only [step]
    rw [actionForNewObject_eq]
    change _ ∧ _ = (roundStep target t.keySet (t.prepared object.session) (.arrive object)).2 ∧
      ∀ session, _ = if session = object.session then
        (roundStep target t.keySet (t.prepared object.session) (.arrive object)).1 else _
    rw [hround]
    by_cases hmem : object.key ∈ t.keySet
    · have hfull := USet.card_eq_size_iff (Finset.insert_subset
        (List.mem_toFinset.mpr hmem) (h.subset object.session))
      rw [if_pos hmem, if_pos hmem]
      by_cases hall : insert object.key (t.prepared object.session) =
          t.keySet.elems.toFinset
      · rw [if_pos hall, if_pos (hfull.mpr hall)]
        exact ⟨rfl, rfl, prepared_erase t object.session⟩
      · rw [if_neg hall, if_neg (mt hfull.mp hall)]
        exact ⟨rfl, rfl, fun session => prepared_set t object.session session _⟩
    · rw [if_neg hmem, if_neg hmem]
      refine ⟨rfl, rfl, fun session => ?_⟩
      split
      next hs => rw [hs]
      · rfl

theorem roundStep_part (hsub : keys ⊆ keySet.elems.toFinset)
    (hproper : keySet.elems ≠ [] → keys ≠ keySet.elems.toFinset) (e : SetEvent) :
    (roundStep target keySet keys e).1 ⊆ keySet.elems.toFinset ∧
      (keySet.elems ≠ [] → (roundStep target keySet keys e).1 ≠ keySet.elems.toFinset) := by
  have hempty : keySet.elems ≠ [] → (∅ : Finset Key) ≠ keySet.elems.toFinset :=
    fun hne heq => hne (List.toFinset_eq_empty_iff _ |>.mp heq.symm)
  cases e with
  | clear session => exact ⟨Finset.empty_subset _, hempty⟩
  | arrive object =>
    unfold roundStep
    simp only
    split
    next hmem =>
      split
      · exact ⟨Finset.empty_subset _, hempty⟩
      next hpart =>
        exact ⟨Finset.insert_subset (List.mem_toFinset.mpr hmem) hsub, fun _ => hpart⟩
    · exact ⟨hsub, hproper⟩

theorem Collects.step (h : Collects keySet t) (e : SetEvent) :
    Collects keySet (t.step target e).1 := by
  obtain ⟨hkeys, -, hprepared⟩ := step_spec target h e
  have hpart := roundStep_part target (h.subset e.session)
    (fun hne => h.proper hne e.session) e
  refine ⟨hkeys, fun session => ?_, fun hne session => ?_⟩
  · rw [hprepared]
    split
    · exact hpart.1
    · exact h.subset session
  · rw [hprepared]
    split
    · exact hpart.2 hne
    · exact h.proper hne session

theorem new_collects (keySet : USet Key) : Collects keySet (BySetTrigger.new keySet) where
  keys := rfl
  subset := fun _ => Finset.empty_subset _
  proper := fun hne _ heq => hne (List.toFinset_eq_empty_iff _ |>.mp heq.symm)

theorem collects_after (keySet : USet Key) (events : List SetEvent) :
    Collects keySet (stateAfter (step target) (BySetTrigger.new keySet) events) :=
  stateAfter_invariant (fun _ e h => h.step target e) (new_collects keySet) events

/-! ## Runs -/

theorem mem_roundStep_iff {since : List Key} (h : ∀ key, key ∈ keys ↔ key ∈ keySet ∧ key ∈ since)
    (e : SetEvent) (key : Key) :
    let entry : SetEntry := (e, (roundStep target keySet keys e).2)
    key ∈ (roundStep target keySet keys e).1 ↔
      key ∈ keySet ∧ key ∈ if endsRound e.session entry then []
        else (keyFor e.session entry).toList ++ since := by
  cases e with
  | clear session => simp [roundStep, endsRound, SetEvent.session]
  | arrive object =>
    by_cases hmem : object.key ∈ keySet
    · by_cases hfull : insert object.key keys = keySet.elems.toFinset
      · simp [roundStep, endsRound, SetEvent.session, hmem, hfull]
      · -- the key joins those of the round
        simp only [roundStep, if_pos hmem, if_neg hfull, Finset.mem_insert, h, endsRound,
          keyFor, SetEvent.session, List.isEmpty_nil, Bool.not_true, Bool.and_false,
          Bool.false_eq_true, if_false, if_true, Option.toList_some, List.singleton_append,
          List.mem_cons]
        constructor
        · rintro (rfl | ⟨hkey, hsince⟩)
          · exact ⟨hmem, .inl rfl⟩
          · exact ⟨hkey, .inr hsince⟩
        · rintro ⟨hkey, rfl | hsince⟩
          · exact .inl rfl
          · exact .inr ⟨hkey, hsince⟩
    · -- a foreign key arrives and is not counted
      simp only [roundStep, if_neg hmem, h, endsRound, keyFor, SetEvent.session,
        List.isEmpty_nil, Bool.not_true, Bool.and_false, Bool.false_eq_true, if_false, if_true,
        Option.toList_some, List.singleton_append, List.mem_cons]
      constructor
      · rintro ⟨hkey, hsince⟩
        exact ⟨hkey, .inr hsince⟩
      · rintro ⟨hkey, rfl | hsince⟩
        · exact absurd hkey hmem
        · exact ⟨hkey, hsince⟩

theorem arrivedSince_other {session : Session} {entry : SetEntry}
    (h : session ≠ entry.1.session) (entries : List SetEntry) :
    arrivedSince session (entries ++ [entry]) = arrivedSince session entries := by
  rw [arrivedSince_append]
  obtain ⟨e, actions⟩ := entry
  cases e with
  | clear session' =>
    have hne : ¬ session' = session := fun heq => h heq.symm
    simp [endsRound, keyFor, hne]
  | arrive object =>
    have hne : ¬ object.session = session := fun heq => h heq.symm
    simp [endsRound, keyFor, hne]

theorem mem_prepared_iff (keySet : USet Key) (events : List SetEvent)
    (session : Session) (key : Key) :
    key ∈ (stateAfter (step target) (BySetTrigger.new keySet) events).prepared session ↔
      key ∈ keySet ∧
        key ∈ arrivedSince session (trace (step target) (BySetTrigger.new keySet) events) := by
  induction events using List.reverseRecOn generalizing session key with
  | nil => exact iff_of_false (Finset.notMem_empty key) fun h => absurd h.2 List.not_mem_nil
  | append_singleton events e ih =>
    obtain ⟨-, hout, hprepared⟩ :=
      step_spec target (collects_after target keySet events) e
    have htrace : ∀ t : BySetTrigger, trace (step target) t [e] = [(e, (t.step target e).2)] :=
      fun _ => rfl
    rw [stateAfter_append, stateAfter_cons, stateAfter_nil, hprepared, trace_append, htrace,
      hout]
    split
    next hsession =>
      subst hsession
      rw [arrivedSince_append]
      exact mem_roundStep_iff target (ih e.session) e key
    next hsession =>
      rw [arrivedSince_other hsession]
      exact ih session key

theorem insert_eq_iff (hsub : keys ⊆ keySet.elems.toFinset) {key : Key} (hmem : key ∈ keySet) :
    insert key keys = keySet.elems.toFinset ↔
      ∀ key' ∈ keySet, key' ≠ key → key' ∈ keys := by
  constructor
  · intro heq key' hmem' hne
    have hin : key' ∈ insert key keys := heq ▸ List.mem_toFinset.mpr hmem'
    exact (Finset.mem_insert.mp hin).resolve_left hne
  · intro hall
    refine Finset.Subset.antisymm
      (Finset.insert_subset (List.mem_toFinset.mpr hmem) hsub) fun key' hmem' => ?_
    by_cases heq : key' = key
    · exact heq ▸ Finset.mem_insert_self key keys
    · exact Finset.mem_insert_of_mem (hall key' (List.mem_toFinset.mp hmem') heq)

theorem count_completion (keySet : USet Key) (session session' : Session)
    (key : Key) :
    (completion target keySet session).sessionKeys.count (session', key) =
      if session' = session ∧ key ∈ keySet then 1 else 0 := by
  have hnodup : (completion target keySet session).sessionKeys.Nodup :=
    keySet.nodup.map fun _ _ h => (Prod.mk.inj h).2
  rw [hnodup.count]
  refine if_congr ?_ rfl rfl
  simp only [completion, List.mem_map, Prod.mk.injEq]
  constructor
  · rintro ⟨key', hmem, rfl, rfl⟩
    exact ⟨rfl, hmem⟩
  · rintro ⟨rfl, hmem⟩
    exact ⟨key, hmem, rfl, rfl⟩

theorem arrival_answer (h : Collects keySet t) (object : BucketKey) :
    ((t.step target (.arrive object)).2 ≠ [] →
        (t.step target (.arrive object)).2 = [completion target keySet object.session]) ∧
      ((t.step target (.arrive object)).2 ≠ [] ↔ object.key ∈ keySet ∧
        ∀ key ∈ keySet, key ≠ object.key → key ∈ t.prepared object.session) := by
  obtain ⟨-, hout, -⟩ := step_spec target h (.arrive object)
  rw [hout]
  by_cases hmem : object.key ∈ keySet
  · rw [← insert_eq_iff (h.subset object.session) hmem]
    by_cases hfull : insert object.key (t.prepared object.session) = keySet.elems.toFinset
    · simp [roundStep, SetEvent.session, hmem, hfull]
    · simp [roundStep, SetEvent.session, hmem, hfull]
  · simp [roundStep, hmem]

theorem session_alone (keySet : USet Key) (events : List SetEvent) (session : Session) :
    ((trace (step target) (BySetTrigger.new keySet) events).filter fun entry =>
        decide (entry.1.session = session)).map Prod.snd =
      outputs (step target) (BySetTrigger.new keySet)
        (events.filter fun e => decide (e.session = session)) := by
  -- two triggers look alike to a session that counts the same keys in both
  let Alike (t t' : BySetTrigger) : Prop :=
    Collects keySet t ∧ Collects keySet t' ∧ t.prepared session = t'.prepared session
  have hown : ∀ t t' e, Alike t t' → decide (SetEvent.session e = session) = true →
      Alike (t.step target e).1 (t'.step target e).1 ∧
        (t.step target e).2 = (t'.step target e).2 := by
    rintro t t' e ⟨h, h', hsame⟩ hkind
    obtain rfl := of_decide_eq_true hkind
    obtain ⟨-, hout, hprepared⟩ := step_spec target h e
    obtain ⟨-, hout', hprepared'⟩ := step_spec target h' e
    refine ⟨⟨h.step target e, h'.step target e, ?_⟩, ?_⟩
    · rw [hprepared, hprepared', if_pos rfl, if_pos rfl, hsame]
    · rw [hout, hout', hsame]
  have hother : ∀ t t' e, Alike t t' → decide (SetEvent.session e = session) = false →
      Alike (t.step target e).1 t' := by
    rintro t t' e ⟨h, h', hsame⟩ hkind
    obtain ⟨-, -, hprepared⟩ := step_spec target h e
    refine ⟨h.step target e, h', ?_⟩
    rw [hprepared, if_neg fun heq => of_decide_eq_false hkind heq.symm, hsame]
  exact outputs_of_kind hown hother ⟨new_collects keySet, new_collects keySet, rfl⟩ events

/-- A trigger acts for a session exactly when the session has all keys of the set, with
every key once; what is collected is always a proper part of a set that has keys; and
the sessions do not see each other. -/
theorem acts_at_completion (keySet : USet Key) (events : List SetEvent) :
    (∀ before object after, events = before ++ SetEvent.arrive object :: after →
      let start := BySetTrigger.new keySet
      let actions := ((stateAfter (step target) start before).step target (.arrive object)).2
      (outputs (step target) start events)[before.length]? = some actions ∧
        (actions ≠ [] ↔ object.key ∈ keySet ∧ ∀ key ∈ keySet, key ≠ object.key →
          key ∈ arrivedSince object.session (trace (step target) start before)) ∧
        (actions ≠ [] → ∃ action, actions = [action] ∧ action.function = target ∧
          ∀ session key, action.sessionKeys.count (session, key) =
            if session = object.session ∧ key ∈ keySet then 1 else 0)) ∧
      (keySet.elems ≠ [] → ∀ session,
        (stateAfter (step target) (BySetTrigger.new keySet) events).prepared session ⊂
          keySet.elems.toFinset) ∧
      ∀ session,
        ((trace (step target) (BySetTrigger.new keySet) events).filter fun entry =>
            decide (entry.1.session = session)).map Prod.snd =
          outputs (step target) (BySetTrigger.new keySet)
            (events.filter fun e => decide (e.session = session)) := by
  refine ⟨?_, fun hne session => ?_, session_alone target keySet events⟩
  · rintro before object after rfl start actions
    have hcollects := collects_after target keySet before
    obtain ⟨haction, hactions⟩ := arrival_answer target hcollects object
    refine ⟨?_, hactions.trans (and_congr_right fun _ => ?_), fun hsome => ?_⟩
    · rw [outputs_append, List.getElem?_append_right (by rw [length_outputs]), length_outputs,
        Nat.sub_self]
      rfl
    · -- the keys of the set that were collected are those that arrived in the round
      refine forall_congr' fun key => forall_congr' fun hkey => imp_congr_right fun _ => ?_
      rw [mem_prepared_iff target keySet before object.session key]
      exact and_iff_right hkey
    · exact ⟨completion target keySet object.session, haction hsome, rfl,
        count_completion target keySet object.session⟩
  · have hcollects := collects_after target keySet events
    exact (hcollects.subset session).ssubset_of_ne (hcollects.proper hne session)

end BySetTrigger

end Pheromone.Common
