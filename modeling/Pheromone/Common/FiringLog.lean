import Pheromone.Common.Firing

/-!
# The firings of a sequence of objects

The triggers of all buckets see one object after the other.  The log of their
actions is additive in the triggers: those that are added to a bucket act as they
would alone.  A trigger that can fire at all does so on some sequence of objects.
-/

namespace Pheromone.Common

open Lib

variable {t : Trigger} {triggers triggers' : Bucket → List Trigger}

/-- An object that the triggers of its bucket see at the time `now`; those called one of
`active` have fired elsewhere, and their actions are dropped. -/
structure Check where
  now : TimePoint
  active : List Name
  object : BucketKey

namespace Check

def log (check : Check) (triggers : Bucket → List Trigger) : List (Name × TriggerAction) :=
  firings check.now check.object
    ((triggers check.object.bucket).filter fun t => t.triggerName ∉ check.active)

def after (check : Check) (triggers : Bucket → List Trigger) : Bucket → List Trigger :=
  Function.update triggers check.object.bucket
    ((triggers check.object.bucket).map fun t => (t.actionForNewObject check.now check.object).1)

end Check

def firedBy : List Check → (Bucket → List Trigger) → List (Name × TriggerAction)
  | [], _ => []
  | check :: checks, triggers => check.log triggers ++ firedBy checks (check.after triggers)

theorem firedBy_append (checks checks' : List Check) (triggers : Bucket → List Trigger) :
    firedBy (checks ++ checks') triggers =
      firedBy checks triggers ++
        firedBy checks' (checks.foldl (fun triggers check => check.after triggers) triggers) := by
  induction checks generalizing triggers with
  | nil => rfl
  | cons check checks ih =>
    rw [List.cons_append, firedBy, ih, firedBy, List.append_assoc]
    rfl

def timesFired (func : Name) (log : List (Name × TriggerAction)) : Nat :=
  log.countP fun firing => firing.2.function = func

theorem timesFired_append (func : Name) (log log' : List (Name × TriggerAction)) :
    timesFired func (log ++ log') = timesFired func log + timesFired func log' :=
  List.countP_append

theorem eq_nil_of_timesFired {log : List (Name × TriggerAction)}
    (h : ∀ func, timesFired func log = 0) : log = [] := by
  rw [List.eq_nil_iff_forall_not_mem]
  intro firing hmem
  have hnone := List.countP_eq_zero.mp (h firing.2.function) firing hmem
  simp at hnone

/-! ## More triggers -/

theorem Check.log_append (check : Check) (triggers added : Bucket → List Trigger) :
    check.log (fun b => triggers b ++ added b) = check.log triggers ++ check.log added := by
  unfold Check.log firings
  rw [List.filter_append, List.flatMap_append]

theorem Check.after_append (check : Check) (triggers added : Bucket → List Trigger) :
    check.after (fun b => triggers b ++ added b) =
      fun b => check.after triggers b ++ check.after added b := by
  funext b
  unfold Check.after
  by_cases hb : b = check.object.bucket
  · subst hb
    simp only [Function.update_self, List.map_append]
  · simp only [Function.update_of_ne hb]

theorem timesFired_firedBy_append (func : Name) (checks : List Check)
    (triggers added : Bucket → List Trigger) :
    timesFired func (firedBy checks fun b => triggers b ++ added b) =
      timesFired func (firedBy checks triggers) + timesFired func (firedBy checks added) := by
  induction checks generalizing triggers added with
  | nil => rfl
  | cons check checks ih =>
    simp only [firedBy, timesFired_append, Check.log_append, Check.after_append, ih]
    omega

theorem firedBy_none (checks : List Check) : firedBy checks (fun _ => []) = [] := by
  induction checks with
  | nil => rfl
  | cons check checks ih =>
    have hafter : check.after (fun _ => []) = fun _ => [] := Function.update_eq_self _ _
    rw [firedBy, hafter, ih]
    rfl

theorem timesFired_firedBy_flatMap {α : Type} (func : Name) (checks : List Check)
    (groups : List α) (triggers : α → Bucket → List Trigger) :
    timesFired func (firedBy checks fun b => groups.flatMap fun a => triggers a b) =
      (groups.map fun a => timesFired func (firedBy checks (triggers a))).sum := by
  induction groups with
  | nil =>
    simp only [List.flatMap_nil, firedBy_none]
    rfl
  | cons a groups ih =>
    simp only [List.flatMap_cons, timesFired_firedBy_append, List.map_cons, List.sum_cons, ih]

/-! ## Records of source functions -/

theorem Trigger.actionForNewObject_withoutReruns (now : TimePoint) (bk : BucketKey)
    (t : Trigger) :
    (t.withoutReruns.actionForNewObject now bk).2 = (t.actionForNewObject now bk).2 ∧
      (t.withoutReruns.actionForNewObject now bk).1.withoutReruns =
        (t.actionForNewObject now bk).1.withoutReruns := by
  obtain ⟨target, name, option, state⟩ := t
  cases state with
  | byBatchSize b =>
    simp only [Trigger.actionForNewObject, TriggerState.actionForNewObject,
      ByBatchSizeTrigger.actionForNewObject, Trigger.withoutReruns,
      TriggerState.withoutReruns]
    split <;> exact ⟨rfl, rfl⟩
  | bySet b =>
    simp only [Trigger.actionForNewObject, TriggerState.actionForNewObject,
      BySetTrigger.actionForNewObject, Trigger.withoutReruns, TriggerState.withoutReruns]
    split
    · split <;> exact ⟨rfl, rfl⟩
    · exact ⟨rfl, rfl⟩
  | immediate _ | byName _ | dynamicGroup _ | redundant _ | byTime _ => exact ⟨rfl, rfl⟩

def SameActions (l l' : List Trigger) : Prop :=
  l.map Trigger.withoutReruns = l'.map Trigger.withoutReruns

theorem SameActions.after (h : ∀ b, SameActions (triggers b) (triggers' b)) (check : Check)
    (b : Bucket) : SameActions (check.after triggers b) (check.after triggers' b) := by
  have hstep : ∀ l : List Trigger,
      (l.map fun t => (t.actionForNewObject check.now check.object).1).map
          Trigger.withoutReruns =
        (l.map Trigger.withoutReruns).map fun t =>
          (t.actionForNewObject check.now check.object).1.withoutReruns := by
    intro l
    rw [List.map_map, List.map_map]
    apply List.map_congr_left
    intro t _
    exact (Trigger.actionForNewObject_withoutReruns check.now check.object t).2.symm
  unfold SameActions Check.after
  by_cases hb : b = check.object.bucket
  · subst hb
    rw [Function.update_self, Function.update_self, hstep, hstep, h]
  · rw [Function.update_of_ne hb, Function.update_of_ne hb]
    exact h b

/-! ## Triggers that never fire -/

/-- A set without keys, or a quorum of none: the counter of the latter is reset before it
wraps around to the quorum. -/
def Trigger.Silent (t : Trigger) : Prop :=
  match t.state with
  | .bySet b => b.keySet = USet.empty
  | .redundant r => r.k = 0 ∧ (r.count = 0 ∨ r.count < r.n)
  | _ => False

theorem Trigger.Silent.step (h : t.Silent) (now : TimePoint) (bk : BucketKey) :
    (t.actionForNewObject now bk).2 = [] ∧ (t.actionForNewObject now bk).1.Silent := by
  obtain ⟨target, name, option, state⟩ := t
  cases state with
  | bySet b =>
    have hempty : b.keySet = USet.empty := h
    have hkey : bk.key ∉ b.keySet := by
      rw [hempty]
      exact USet.not_mem_empty _
    simp only [Trigger.actionForNewObject, TriggerState.actionForNewObject,
      BySetTrigger.actionForNewObject, if_neg hkey]
    exact ⟨rfl, hempty⟩
  | redundant r =>
    obtain ⟨hk, hcount⟩ := h
    have hnext : ¬ r.count + 1 ≤ r.k := by
      rw [hk, UInt32.le_iff_toNat_le, UInt32.toNat_add]
      rcases hcount with hzero | hlt
      · rw [hzero]
        decide
      · have hn := r.n.toNat_lt
        have hlt := UInt32.lt_iff_toNat_lt.mp hlt
        simp only [UInt32.reduceToNat]
        omega
    simp only [Trigger.actionForNewObject, TriggerState.actionForNewObject,
      RedundantTrigger.actionForNewObject, if_neg hnext]
    by_cases hfull : r.n ≤ r.count + 1
    · rw [if_pos hfull]
      exact ⟨rfl, hk, Or.inl rfl⟩
    · rw [if_neg hfull]
      exact ⟨rfl, hk, Or.inr (UInt32.not_le.mp hfull)⟩
  | immediate _ | byName _ | byBatchSize _ | dynamicGroup _ | byTime _ => exact absurd h id

theorem silent_after (h : ∀ b, ∀ t ∈ triggers b, t.Silent) (check : Check) :
    ∀ b, ∀ t ∈ check.after triggers b, t.Silent := by
  intro b t ht
  unfold Check.after at ht
  by_cases hb : b = check.object.bucket
  · subst hb
    rw [Function.update_self] at ht
    obtain ⟨u, hu, rfl⟩ := List.mem_map.mp ht
    exact ((h _ u hu).step check.now check.object).2
  · rw [Function.update_of_ne hb] at ht
    exact h b t ht

theorem sameActions_beside_silent {silent : Bucket → List Trigger}
    (hsilent : ∀ b, ∀ t ∈ silent b, t.Silent)
    (h : ∀ b, SameActions (triggers' b) (triggers b ++ silent b)) (checks : List Check) :
    ∃ silent' : Bucket → List Trigger, (∀ b, ∀ t ∈ silent' b, t.Silent) ∧
      ∀ b, SameActions (checks.foldl (fun triggers check => check.after triggers) triggers' b)
        (checks.foldl (fun triggers check => check.after triggers) triggers b ++ silent' b) := by
  induction checks generalizing triggers triggers' silent with
  | nil => exact ⟨silent, hsilent, h⟩
  | cons check checks ih =>
    refine ih (silent_after hsilent check) fun b => ?_
    have hafter := SameActions.after h check b
    rw [Check.after_append] at hafter
    exact hafter

theorem firedBy_silent (h : ∀ b, ∀ t ∈ triggers b, t.Silent) (checks : List Check) :
    firedBy checks triggers = [] := by
  induction checks generalizing triggers with
  | nil => rfl
  | cons check checks ih =>
    have hlog : check.log triggers = [] := by
      unfold Check.log firings
      rw [List.flatMap_eq_nil_iff]
      intro t ht
      rw [((h _ t (List.mem_of_mem_filter ht)).step check.now check.object).1]
      rfl
    rw [firedBy, hlog, List.nil_append]
    exact ih (silent_after h check)

/-! ## Triggers that fire -/

def alone (bucket : Bucket) (t : Trigger) : Bucket → List Trigger :=
  fun b => if b = bucket then [t] else []

/-- Some objects put into the bucket make the trigger fire. -/
def Trigger.Fires (bucket : Bucket) (t : Trigger) : Prop :=
  ∃ checks : List Check, (∀ check ∈ checks, check.object.bucket = bucket ∧ check.active = []) ∧
    firedBy checks (alone bucket t) ≠ []

theorem firedBy_alone_cons (check : Check) (checks : List Check) (t : Trigger)
    (hactive : check.active = []) :
    firedBy (check :: checks) (alone check.object.bucket t) =
      ((t.actionForNewObject check.now check.object).2.map fun action =>
          (t.triggerName, action)) ++
        firedBy checks (alone check.object.bucket
          (t.actionForNewObject check.now check.object).1) := by
  have hafter : check.after (alone check.object.bucket t) =
      alone check.object.bucket (t.actionForNewObject check.now check.object).1 := by
    funext b
    unfold Check.after alone
    by_cases hb : b = check.object.bucket
    · subst hb
      simp
    · simp [hb]
  rw [firedBy, hafter]
  congr 1
  simp [Check.log, firings, alone, hactive]

theorem Trigger.Fires.of_step (now : TimePoint) (bk : BucketKey)
    (h : (t.actionForNewObject now bk).2 ≠ [] ∨
      (t.actionForNewObject now bk).1.Fires bk.bucket) : t.Fires bk.bucket := by
  rcases h with hact | ⟨checks, hchecks, hfired⟩
  · refine ⟨[{ now, active := [], object := bk }], by simp, ?_⟩
    rw [firedBy_alone_cons _ _ _ rfl]
    simpa using fun hnil => absurd hnil hact
  · refine ⟨{ now, active := [], object := bk } :: checks, ?_, ?_⟩
    · intro check hcheck
      rcases List.mem_cons.mp hcheck with rfl | hcheck
      · exact ⟨rfl, rfl⟩
      · exact hchecks check hcheck
    · rw [firedBy_alone_cons _ _ _ rfl]
      intro hnil
      exact hfired (List.append_eq_nil_iff.mp hnil).2

theorem fires_of_missing (bucket : Bucket) {b : BySetTrigger} (hstate : t.state = .bySet b)
    {missing : List Key} (hne : missing ≠ []) (hkeys : ∀ key ∈ missing, key ∈ b.keySet)
    (hnodup : missing.Nodup) (hnew : ∀ key ∈ missing, key ∉ b.sessionPreparedKeysMap.getD [] ∅)
    (hcard : (b.sessionPreparedKeysMap.getD [] ∅).card + missing.length = b.keySet.size) :
    t.Fires bucket := by
  induction missing generalizing t b with
  | nil => exact absurd rfl hne
  | cons key missing ih =>
    obtain ⟨target, name, option, state⟩ := t
    subst hstate
    have hkey : key ∈ b.keySet := hkeys key List.mem_cons_self
    have hcard' : (insert key (b.sessionPreparedKeysMap.getD [] ∅)).card =
        (b.sessionPreparedKeysMap.getD [] ∅).card + 1 :=
      Finset.card_insert_of_notMem (hnew key List.mem_cons_self)
    rw [List.length_cons] at hcard
    rw [List.nodup_cons] at hnodup
    refine Trigger.Fires.of_step 0 { bucket, key, session := [] } ?_
    by_cases hlast : missing = []
    · left
      rw [hlast, List.length_nil] at hcard
      have hfull : (insert key (b.sessionPreparedKeysMap.getD [] ∅)).card = b.keySet.size := by
        omega
      simp [Trigger.actionForNewObject, TriggerState.actionForNewObject,
        BySetTrigger.actionForNewObject, hkey, hfull]
    · right
      have hpos : 0 < missing.length := List.length_pos_iff.mpr hlast
      have hpart : (insert key (b.sessionPreparedKeysMap.getD [] ∅)).card ≠ b.keySet.size := by
        omega
      simp only [Trigger.actionForNewObject, TriggerState.actionForNewObject,
        BySetTrigger.actionForNewObject, if_pos hkey, if_neg hpart, Prod.map]
      apply ih rfl hlast
      · exact fun k hk => hkeys k (List.mem_cons_of_mem _ hk)
      · exact hnodup.2
      · intro k hk hmem
        simp only [Map.getD_set, if_pos] at hmem
        rcases Finset.mem_insert.mp hmem with rfl | hold
        · exact hnodup.1 hk
        · exact hnew k (List.mem_cons_of_mem _ hk) hold
      · simp only [Map.getD_set, if_pos]
        omega

theorem bySet_fires (bucket : Bucket) {keySet : USet Key}
    (hstate : t.state = .bySet (BySetTrigger.new keySet)) (hne : keySet.elems ≠ []) :
    t.Fires bucket := by
  refine fires_of_missing bucket hstate hne (fun key hkey => hkey) keySet.nodup ?_ ?_
  · exact fun key _ => Finset.notMem_empty key
  · exact Nat.zero_add _

theorem redundant_fires (bucket : Bucket) {r : RedundantTrigger} (hstate : t.state = .redundant r)
    (hcount : r.count < r.k) : t.Fires bucket := by
  obtain ⟨m, hm⟩ : ∃ m, r.count.toNat + m + 1 = r.k.toNat := by
    have hlt := UInt32.lt_iff_toNat_lt.mp hcount
    exact ⟨r.k.toNat - r.count.toNat - 1, by omega⟩
  clear hcount
  induction m generalizing t r with
  | zero =>
    obtain ⟨target, name, option, state⟩ := t
    subst hstate
    have hk := r.k.toNat_lt
    have hnext : r.count + 1 = r.k := by
      rw [← UInt32.toNat_inj, UInt32.toNat_add]
      simp only [UInt32.reduceToNat]
      omega
    refine Trigger.Fires.of_step 0 { bucket, key := [], session := [] } (Or.inl ?_)
    simp [Trigger.actionForNewObject, TriggerState.actionForNewObject,
      RedundantTrigger.actionForNewObject, hnext]
  | succ m ih =>
    obtain ⟨target, name, option, state⟩ := t
    subst hstate
    have hk := r.k.toNat_lt
    have hnext : (r.count + 1).toNat = r.count.toNat + 1 := by
      rw [UInt32.toNat_add]
      simp only [UInt32.reduceToNat]
      omega
    have hle : r.count + 1 ≤ r.k := by
      rw [UInt32.le_iff_toNat_le]
      omega
    have hpart : r.count + 1 ≠ r.k := by
      intro heq
      rw [heq] at hnext
      omega
    refine Trigger.Fires.of_step 0 { bucket, key := [], session := [] } (Or.inr ?_)
    simp only [Trigger.actionForNewObject, TriggerState.actionForNewObject,
      RedundantTrigger.actionForNewObject, if_pos hle, if_neg hpart, Prod.map]
    apply ih rfl
    simp only
    omega

theorem byTime_fires (bucket : Bucket) {b : ByTimeTrigger} (hstate : t.state = .byTime b) :
    t.Fires bucket := by
  obtain ⟨target, name, option, state⟩ := t
  subst hstate
  refine Trigger.Fires.of_step (b.lastTriggerStamp + b.timeWindow.toNat * 1000000)
    { bucket, key := [], session := [] } (Or.inl ?_)
  have hwindow : millisecondsOf (b.timeWindow.toNat * 1000000) = b.timeWindow.toNat :=
    Int.mul_tdiv_cancel _ (by decide)
  simp [Trigger.actionForNewObject, TriggerState.actionForNewObject,
    ByTimeTrigger.actionForNewObject, hwindow]

end Pheromone.Common
