import Pheromone.Common.Trigger

/-!
# The triggers of a bucket and an object

What the triggers of one bucket do together on an object: which of them return
actions, and what happens to the trigger of a given name.
-/

namespace Pheromone.Common

open Lib

variable {triggers : List Trigger} {now : TimePoint} {t : Trigger}

variable {state : TriggerState}

def firings (now : TimePoint) (bk : BucketKey) (triggers : List Trigger) :
    List (Name × TriggerAction) :=
  triggers.flatMap fun t =>
    (t.actionForNewObject now bk).2.map fun action => (t.triggerName, action)

def activeNames (now : TimePoint) (bk : BucketKey) (triggers : List Trigger) : List Name :=
  (triggers.filter fun t => (t.actionForNewObject now bk).2 ≠ []).map Trigger.triggerName

theorem activeNames_length_le (now : TimePoint) (bk : BucketKey) (triggers : List Trigger) :
    (activeNames now bk triggers).length ≤ (firings now bk triggers).length := by
  induction triggers with
  | nil => exact le_refl _
  | cons t triggers ih =>
    unfold activeNames firings at ih ⊢
    simp only [List.flatMap_cons, List.length_append, List.length_map] at ih ⊢
    by_cases hnil : (t.actionForNewObject now bk).2 = []
    · rw [List.filter_cons_of_neg (by simp [hnil])]
      omega
    · have hpos : 0 < (t.actionForNewObject now bk).2.length := List.length_pos_iff.mpr hnil
      rw [List.filter_cons_of_pos (by simp [hnil]), List.length_cons]
      omega

/-! ## The trigger of a name -/

/-- The triggers called `name`: one, when the names are distinct. -/
def copies (name : Name) (triggers : List Trigger) : List Trigger :=
  triggers.filter fun t => t.triggerName = name

def actionsOf (name : Name) (log : List (Name × TriggerAction)) : List TriggerAction :=
  log.filterMap fun firing => if firing.1 = name then some firing.2 else none

theorem actionsOf_append (name : Name) (log log' : List (Name × TriggerAction)) :
    actionsOf name (log ++ log') = actionsOf name log ++ actionsOf name log' :=
  List.filterMap_append

theorem copies_map {f : Trigger → Trigger} (hf : ∀ t, (f t).triggerName = t.triggerName)
    (name : Name) (triggers : List Trigger) :
    copies name (triggers.map f) = (copies name triggers).map f := by
  unfold copies
  rw [List.filter_map]
  congr 1
  apply List.filter_congr
  intro t _
  simp [hf]

theorem copies_filter {q : Name → Bool} (name : Name) (triggers : List Trigger) :
    copies name (triggers.filter fun t => q t.triggerName) =
      if q name then copies name triggers else [] := by
  unfold copies
  rw [List.filter_filter]
  split
  · next hq =>
    apply List.filter_congr
    intro t _
    by_cases ht : t.triggerName = name <;> simp [ht, hq]
  · next hq =>
    rw [List.filter_eq_nil_iff]
    intro t _
    by_cases ht : t.triggerName = name <;> simp [ht, hq]

theorem copies_eq_singleton (hnodup : (triggers.map Trigger.triggerName).Nodup)
    (ht : t ∈ triggers) : copies t.triggerName triggers = [t] := by
  induction triggers with
  | nil => cases ht
  | cons u triggers ih =>
    rw [List.map_cons, List.nodup_cons] at hnodup
    unfold copies at ih ⊢
    rcases List.mem_cons.mp ht with rfl | ht
    · rw [List.filter_cons_of_pos (by simp)]
      congr 1
      rw [List.filter_eq_nil_iff]
      intro v hv heq
      exact hnodup.1 (List.mem_map.mpr ⟨v, hv, by simpa using heq⟩)
    · rw [List.filter_cons_of_neg, ih hnodup.2 ht]
      intro heq
      exact hnodup.1 (List.mem_map.mpr ⟨t, ht, by simpa using Eq.symm (by simpa using heq)⟩)

theorem actionsOf_firings (now : TimePoint) (bk : BucketKey) (name : Name)
    (triggers : List Trigger) :
    actionsOf name (firings now bk triggers) =
      (copies name triggers).flatMap fun t => (t.actionForNewObject now bk).2 := by
  induction triggers with
  | nil => rfl
  | cons t triggers ih =>
    have hsplit : firings now bk (t :: triggers) =
        ((t.actionForNewObject now bk).2.map fun action => (t.triggerName, action)) ++
          firings now bk triggers := rfl
    rw [hsplit, actionsOf_append, ih]
    unfold actionsOf copies
    by_cases hname : t.triggerName = name
    · rw [List.filter_cons_of_pos (by simp [hname]), List.flatMap_cons]
      simp [List.filterMap_map, hname]
    · rw [List.filter_cons_of_neg (by simp [hname])]
      simp [List.filterMap_map, hname]

theorem mem_names {p : Trigger → Prop} [DecidablePred p] {name : Name} :
    name ∈ (triggers.filter fun t => p t).map Trigger.triggerName ↔
      ∃ t ∈ copies name triggers, p t := by
  simp only [copies, List.mem_map, List.mem_filter, decide_eq_true_eq]
  constructor
  · rintro ⟨t, ⟨ht, hp⟩, hname⟩
    exact ⟨t, ⟨ht, hname⟩, hp⟩
  · rintro ⟨t, ⟨ht, hname⟩, hp⟩
    exact ⟨t, ⟨ht, hp⟩, hname⟩

theorem mem_activeNames {bk : BucketKey} {name : Name} :
    name ∈ activeNames now bk triggers ↔
      ∃ t ∈ copies name triggers, (t.actionForNewObject now bk).2 ≠ [] :=
  mem_names

/-! ## Fresh triggers -/

/-- The trigger as it was made, before its first object. -/
def TriggerState.blank : TriggerState → TriggerState
  | .immediate _ => .immediate ImmediateTrigger.new
  | .byName t => .byName (ByNameTrigger.new t.keyName)
  | .byBatchSize t => .byBatchSize (ByBatchSizeTrigger.new t.count)
  | .bySet t => .bySet (BySetTrigger.new t.keySet)
  | .dynamicGroup t => .dynamicGroup (DynamicGroupTrigger.new t.controlGroup)
  | .redundant t => .redundant (RedundantTrigger.new t.k t.n)
  | .byTime t => .byTime (ByTimeTrigger.new t.timeWindow 0)

namespace Trigger

def blank (t : Trigger) : Trigger := { t with state := t.state.blank }

theorem blank_actionForNewObject (now : TimePoint) (bk : BucketKey) (t : Trigger) :
    (t.actionForNewObject now bk).1.blank = t.blank := by
  obtain ⟨target, name, option, state⟩ := t
  unfold blank actionForNewObject
  simp only [mk.injEq, true_and]
  cases state with
  | immediate t => rfl
  | byName t => rfl
  | byBatchSize t =>
    simp only [TriggerState.actionForNewObject, ByBatchSizeTrigger.actionForNewObject]
    split <;> rfl
  | bySet t =>
    simp only [TriggerState.actionForNewObject, BySetTrigger.actionForNewObject]
    split
    · split <;> rfl
    · rfl
  | dynamicGroup t =>
    simp only [TriggerState.actionForNewObject, DynamicGroupTrigger.actionForNewObject]
    split
    · split <;> split <;> rfl
    · rfl
  | redundant t =>
    simp only [TriggerState.actionForNewObject, RedundantTrigger.actionForNewObject]
    split
    · split <;> rfl
    · split <;> rfl
  | byTime t =>
    simp only [TriggerState.actionForNewObject, ByTimeTrigger.actionForNewObject]
    split <;> rfl

theorem blank_clear (session : Session) (t : Trigger) : (t.clear session).blank = t.blank := by
  obtain ⟨target, name, option, state⟩ := t
  cases state <;> rfl

end Trigger

/-- A trigger without its records of source functions. -/
def TriggerState.withoutReruns : TriggerState → TriggerState
  | .immediate _ => .immediate ImmediateTrigger.new
  | .byName t => .byName (ByNameTrigger.new t.keyName)
  | .byBatchSize t => .byBatchSize { t with sessionStatusCache := Map.empty }
  | .bySet t => .bySet { t with funcKeyMap := UMap.empty, sessionStatusCache := Map.empty }
  | state => state

def Trigger.withoutReruns (t : Trigger) : Trigger :=
  { t with state := t.state.withoutReruns }

theorem Trigger.withoutReruns_notifySourceFunc (funcName : Name) (sessionId : Session)
    (funcArgs : List Bytes) (argFlag : Int) (t : Trigger) :
    (t.notifySourceFunc funcName sessionId funcArgs argFlag).withoutReruns =
      t.withoutReruns := by
  obtain ⟨target, name, option, state⟩ := t
  unfold Trigger.notifySourceFunc Trigger.withoutReruns
  congr 1
  cases state with
  | bySet t =>
    simp only [TriggerState.notifySourceFunc, BySetTrigger.notifySourceFunc]
    split <;> rfl
  | _ => rfl

theorem Trigger.blank_withoutReruns (t : Trigger) : t.withoutReruns.blank = t.blank := by
  obtain ⟨target, name, option, state⟩ := t
  cases state <;> rfl

/-! ## The objects in a trigger -/

/-- Every object that the trigger has kept was seen.  A dynamic group forgets the
session of its keys. -/
def TriggerState.Keeps (seen : Session → Key → Prop) : TriggerState → Prop
  | .immediate _ | .byName _ => True
  | .byBatchSize t => ∀ sessionKey ∈ t.buffer, seen sessionKey.1 sessionKey.2
  | .bySet t => ∀ session, ∀ key ∈ t.sessionPreparedKeysMap.getD session ∅,
      key ∈ t.keySet ∧ seen session key
  | .dynamicGroup t => ∀ group ∈ t.dataGroupKeysMap.entries, ∀ key ∈ group.2,
      ∃ session, seen session key
  | .redundant t => ∀ sessionKey ∈ t.buffer, seen sessionKey.1 sessionKey.2
  | .byTime t => ∀ sessionKey ∈ t.buffer, seen sessionKey.1 sessionKey.2

/-- Every object that an action passes on was seen. -/
def TriggerAction.Passes (seen : Session → Key → Prop) (action : TriggerAction) : Prop :=
  ∀ sessionKey ∈ action.sessionKeys, seen sessionKey.1 sessionKey.2

section Keeps

variable {seen : Session → Key → Prop} {bk : BucketKey}

theorem keeps_append {buffer : List (Session × Key)} (hbk : seen bk.session bk.key)
    (h : ∀ sessionKey ∈ buffer, seen sessionKey.1 sessionKey.2) :
    ∀ sessionKey ∈ buffer ++ [(bk.session, bk.key)], seen sessionKey.1 sessionKey.2 := by
  intro sessionKey hmem
  rcases List.mem_append.mp hmem with hold | hnew
  · exact h sessionKey hold
  · rw [List.mem_singleton.mp hnew]
    exact hbk

theorem keeps_nil :
    ∀ sessionKey ∈ ([] : List (Session × Key)), seen sessionKey.1 sessionKey.2 :=
  fun _ hmem => absurd hmem List.not_mem_nil

theorem BySetTrigger.keeps_actionForNewObject (hbk : seen bk.session bk.key) (target : Name)
    {t : BySetTrigger} (h : (TriggerState.bySet t).Keeps seen) :
    (TriggerState.bySet (t.actionForNewObject target bk).1).Keeps seen ∧
      ∀ action ∈ (t.actionForNewObject target bk).2, action.Passes seen := by
  unfold BySetTrigger.actionForNewObject
  split
  next hkey =>
    have hprepared : ∀ key ∈ insert bk.key (t.sessionPreparedKeysMap.getD bk.session ∅),
        key ∈ t.keySet ∧ seen bk.session key := by
      intro key hmem
      rcases Finset.mem_insert.mp hmem with rfl | hold
      · exact ⟨hkey, hbk⟩
      · exact h bk.session key hold
    simp only
    split
    next hcard =>
      refine ⟨?_, ?_⟩
      · intro session key hmem
        simp only [Map.getD_erase] at hmem
        split at hmem
        · simp at hmem
        · exact h session key hmem
      · -- as many keys as the set has, all of them in the set: every key is there
        intro action haction
        rw [List.mem_singleton.mp haction]
        intro sessionKey hmem
        obtain ⟨key, hkey', rfl⟩ := List.mem_map.mp hmem
        have hall : insert bk.key (t.sessionPreparedKeysMap.getD bk.session ∅) =
            t.keySet.elems.toFinset := by
          apply Finset.eq_of_subset_of_card_le
          · intro k hk
            exact List.mem_toFinset.mpr (hprepared k hk).1
          · rw [hcard, List.toFinset_card_of_nodup t.keySet.nodup]
            exact Nat.le_refl _
        exact (hprepared key (hall ▸ List.mem_toFinset.mpr hkey')).2
    · refine ⟨?_, by simp⟩
      intro session key hmem
      simp only [Map.getD_set] at hmem
      split at hmem
      next hsession =>
        rw [hsession]
        exact hprepared key hmem
      · exact h session key hmem
  · exact ⟨h, by simp⟩

theorem DynamicGroupTrigger.keeps_actionForNewObject (hbk : seen bk.session bk.key)
    (hsession : ∀ session key, seen session key → seen bk.session key) (target : Name)
    {t : DynamicGroupTrigger} (h : (TriggerState.dynamicGroup t).Keeps seen) :
    (TriggerState.dynamicGroup (t.actionForNewObject target bk).1).Keeps seen ∧
      ∀ action ∈ (t.actionForNewObject target bk).2, action.Passes seen := by
  unfold DynamicGroupTrigger.actionForNewObject
  simp only
  generalize (if bk.key ∈ t.controlGroup then insert bk.key t.curControlKeys
    else t.curControlKeys) = curControlKeys
  split
  · split
    · refine ⟨fun group hmem => absurd hmem List.not_mem_nil, ?_⟩
      intro action haction sessionKey hmem
      obtain ⟨group, hgroup, rfl⟩ := List.mem_map.mp haction
      obtain ⟨key, hkey, rfl⟩ := List.mem_map.mp hmem
      obtain ⟨session, hseen⟩ := h group hgroup key hkey
      exact hsession session key hseen
    · exact ⟨h, by simp⟩
  · refine ⟨?_, by simp⟩
    rintro ⟨group, keys⟩ hmem key hkey
    rw [UMap.mem_entries_set] at hmem
    split at hmem
    · subst hmem
      rcases USet.mem_insert.mp hkey with rfl | hold
      · exact ⟨bk.session, hbk⟩
      · cases hfind : t.dataGroupKeysMap.find?
            (bk.key.takeWhile fun b => decide (b ≠ groupDelimiter)) with
        | none =>
          rw [UMap.getD, hfind] at hold
          exact absurd hold (USet.not_mem_empty key)
        | some keys =>
          rw [UMap.getD, hfind] at hold
          exact h _ (UMap.find?_eq_some_iff.mp hfind) key hold
    · exact h _ hmem key hkey

theorem RedundantTrigger.keeps_actionForNewObject (hbk : seen bk.session bk.key)
    (target : Name) {t : RedundantTrigger} (h : (TriggerState.redundant t).Keeps seen) :
    (TriggerState.redundant (t.actionForNewObject target bk).1).Keeps seen ∧
      ∀ action ∈ (t.actionForNewObject target bk).2, action.Passes seen := by
  unfold RedundantTrigger.actionForNewObject
  simp only
  split
  · split
    · exact ⟨keeps_nil, by simpa [TriggerAction.Passes] using keeps_append hbk h⟩
    · exact ⟨keeps_append hbk h, by simp⟩
  · split
    · exact ⟨h, by simp⟩
    · exact ⟨h, by simp⟩

theorem Trigger.keeps_actionForNewObject (hbk : seen bk.session bk.key) (now : TimePoint)
    (hsession : t.type = .dynamicGroup →
      ∀ session key, seen session key → seen bk.session key) (h : t.state.Keeps seen) :
    (t.actionForNewObject now bk).1.state.Keeps seen ∧
      ∀ action ∈ (t.actionForNewObject now bk).2, action.Passes seen := by
  obtain ⟨target, name, option, state⟩ := t
  cases state with
  | immediate t => simpa [Trigger.actionForNewObject, TriggerState.actionForNewObject,
      ImmediateTrigger.actionForNewObject, TriggerAction.Passes, TriggerState.Keeps] using hbk
  | byName t =>
    simp only [Trigger.actionForNewObject, TriggerState.actionForNewObject,
      ByNameTrigger.actionForNewObject, Prod.map, id, TriggerState.Keeps, true_and]
    split
    · simpa [TriggerAction.Passes] using hbk
    · simp
  | byBatchSize t =>
    simp only [Trigger.actionForNewObject, TriggerState.actionForNewObject,
      ByBatchSizeTrigger.actionForNewObject]
    split
    · exact ⟨keeps_nil, by simpa [TriggerAction.Passes] using keeps_append hbk h⟩
    · exact ⟨keeps_append hbk h, by simp⟩
  | bySet t => exact BySetTrigger.keeps_actionForNewObject hbk target h
  | dynamicGroup t =>
    exact DynamicGroupTrigger.keeps_actionForNewObject hbk (hsession rfl) target h
  | redundant t => exact RedundantTrigger.keeps_actionForNewObject hbk target h
  | byTime t =>
    simp only [Trigger.actionForNewObject, TriggerState.actionForNewObject,
      ByTimeTrigger.actionForNewObject]
    split
    · exact ⟨keeps_nil, by simpa [TriggerAction.Passes] using keeps_append hbk h⟩
    · exact ⟨keeps_append hbk h, by simp⟩

theorem TriggerState.keeps_blank (seen : Session → Key → Prop) (state : TriggerState) :
    state.blank.Keeps seen := by
  cases state <;> simp [blank, Keeps, ByBatchSizeTrigger.new, BySetTrigger.new,
    DynamicGroupTrigger.new, RedundantTrigger.new, ByTimeTrigger.new, UMap.empty, Map.getD,
    Map.empty]

theorem TriggerState.keeps_new {type : PrimitiveType} {primitive : Primitive}
    (h : newTriggerState now type primitive = some state) : state.Keeps seen := by
  cases type <;> cases h <;> simp [Keeps, ByBatchSizeTrigger.new, BySetTrigger.new,
    DynamicGroupTrigger.new, RedundantTrigger.new, ByTimeTrigger.new, UMap.empty, Map.getD,
    Map.empty]

theorem TriggerState.Keeps.clear (h : state.Keeps seen) (session : Session) :
    (state.clear session).Keeps seen := by
  cases state with
  | immediate t | byName t => trivial
  | byBatchSize t | redundant t | byTime t => exact keeps_nil
  | bySet t =>
    intro session' key hmem
    simp only [BySetTrigger.clear, Map.getD_erase] at hmem
    split at hmem
    · simp at hmem
    · exact h session' key hmem
  | dynamicGroup t => exact fun group hmem => absurd hmem List.not_mem_nil

theorem TriggerState.Keeps.notifySourceFunc (h : state.Keeps seen) (funcName : Name)
    (sessionId : Session) (funcArgs : List Bytes) (argFlag : Int) :
    (state.notifySourceFunc funcName sessionId funcArgs argFlag).Keeps seen := by
  cases state with
  | bySet t =>
    simp only [TriggerState.notifySourceFunc, BySetTrigger.notifySourceFunc]
    split
    · exact h
    · exact h
  | _ => exact h

theorem TriggerState.Keeps.setRerunMetadata (h : state.Keeps seen)
    (rerunMetadata : List RerunMetadata) : (state.setRerunMetadata rerunMetadata).Keeps seen := by
  cases state <;> exact h

theorem TriggerState.Keeps.mono {seen' : Session → Key → Prop}
    (himp : ∀ session key, seen session key → seen' session key) (h : state.Keeps seen) :
    state.Keeps seen' := by
  cases state with
  | immediate t | byName t => trivial
  | byBatchSize t | redundant t | byTime t =>
    exact fun sessionKey hmem => himp _ _ (h sessionKey hmem)
  | bySet t => exact fun session key hmem => (h session key hmem).imp_right (himp session key)
  | dynamicGroup t =>
    intro group hgroup key hkey
    obtain ⟨session, hseen⟩ := h group hgroup key hkey
    exact ⟨session, himp session key hseen⟩

end Keeps

/-! ### Keys alone -/

/-- Every object that the trigger has kept has a key that was seen. -/
def TriggerState.Holds (seen : Key → Prop) : TriggerState → Prop
  | .immediate _ | .byName _ => True
  | .byBatchSize t => ∀ sessionKey ∈ t.buffer, seen sessionKey.2
  | .bySet t => ∀ session, ∀ key ∈ t.sessionPreparedKeysMap.getD session ∅,
      key ∈ t.keySet ∧ seen key
  | .dynamicGroup t => ∀ group ∈ t.dataGroupKeysMap.entries, ∀ key ∈ group.2, seen key
  | .redundant t => ∀ sessionKey ∈ t.buffer, seen sessionKey.2
  | .byTime t => ∀ sessionKey ∈ t.buffer, seen sessionKey.2

/-- Every object that an action passes on has a key that was seen. -/
def TriggerAction.Holds (seen : Key → Prop) (action : TriggerAction) : Prop :=
  ∀ sessionKey ∈ action.sessionKeys, seen sessionKey.2

theorem TriggerState.keeps_iff_holds {seen : Key → Prop} :
    state.Keeps (fun _ => seen) ↔ state.Holds seen := by
  cases state with
  | dynamicGroup t => simp only [Keeps, Holds, exists_const]
  | _ => exact Iff.rfl

theorem TriggerState.Holds.mono {seen seen' : Key → Prop} (himp : ∀ key, seen key → seen' key)
    (h : state.Holds seen) : state.Holds seen' :=
  keeps_iff_holds.mp ((keeps_iff_holds.mpr h).mono fun _ key => himp key)

theorem Trigger.holds_actionForNewObject {seen : Key → Prop} {bk : BucketKey}
    (hbk : seen bk.key) (now : TimePoint) {t : Trigger} (h : t.state.Holds seen) :
    (t.actionForNewObject now bk).1.state.Holds seen ∧
      ∀ action ∈ (t.actionForNewObject now bk).2, action.Holds seen := by
  obtain ⟨hkeeps, hpasses⟩ := Trigger.keeps_actionForNewObject hbk now
    (fun _ _ _ hseen => hseen) (TriggerState.keeps_iff_holds.mpr h)
  exact ⟨TriggerState.keeps_iff_holds.mp hkeeps, hpasses⟩

theorem TriggerState.holds_blank (seen : Key → Prop) (state : TriggerState) :
    state.blank.Holds seen :=
  keeps_iff_holds.mp (keeps_blank _ state)

end Pheromone.Common
