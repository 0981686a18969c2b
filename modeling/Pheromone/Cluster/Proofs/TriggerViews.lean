import Pheromone.Cluster.Proofs.TriggerRuns
import Pheromone.Lib.Replicas

/-!
# One trigger in a cluster

The replicas of one trigger, seen apart from the other triggers of the bucket,
are the replicas of a machine behind FIFO reports.  A reading says which machine,
which objects it sees, which of its actions count, and which sessions clear it.
-/

namespace Pheromone.Cluster

open Lib Common Coordinator Scheduler

variable {ip : Address} {e : TriggerEvent} {es : List TriggerEvent} {now : Stamp}
variable {object : BucketKey}

/-- The trigger `t₀` read as a machine. -/
structure Reading (t₀ : Trigger) (σ α β : Type) where
  machine : Machine σ α β
  state : TriggerState → σ
  object : BucketKey → Option α
  action : TriggerAction → Option β
  session : Session → Bool
  notByTime : t₀.type ≠ .byTime
  arrives : ∀ now bk a (t : Trigger), t.blank = t₀ → object bk = some a →
    machine.arrive (state t.state) a =
      (state (t.actionForNewObject now bk).1.state,
        (t.actionForNewObject now bk).2.filterMap action)
  acts : ∀ now bk a (t : Trigger), t.blank = t₀ → object bk = some a →
    ((t.actionForNewObject now bk).2.filterMap action = [] ↔
      (t.actionForNewObject now bk).2 = [])
  concerns : ∀ bk a, object bk = some a → session bk.session = true
  ignores : ∀ now bk (t : Trigger), t.blank = t₀ → object bk = none →
    state (t.actionForNewObject now bk).1.state = state t.state ∧
      (t.actionForNewObject now bk).2.filterMap action = [] ∧
      (session bk.session = true → (t.actionForNewObject now bk).2 = [])
  clears : ∀ s (t : Trigger), t.blank = t₀ → session s = true →
    state (t.clear s).state = machine.clear (state t.state)
  keeps : ∀ s (t : Trigger), t.blank = t₀ → session s = false →
    state (t.clear s).state = state t.state

def Reading.total {t₀ : Trigger} {σ α β : Type} (machine : Machine σ α β)
    (state : TriggerState → σ) (object : BucketKey → α) (action : TriggerAction → β)
    (notByTime : t₀.type ≠ .byTime)
    (arrives : ∀ now bk (t : Trigger), t.blank = t₀ →
      machine.arrive (state t.state) (object bk) =
        (state (t.actionForNewObject now bk).1.state, (t.actionForNewObject now bk).2.map action))
    (clears : ∀ s (t : Trigger), t.blank = t₀ →
      state (t.clear s).state = machine.clear (state t.state)) : Reading t₀ σ α β where
  machine
  state
  object := fun bk => some (object bk)
  action := fun a => some (action a)
  session := fun _ => true
  notByTime
  arrives := by
    rintro now bk _ t ht ⟨⟩
    rw [arrives now bk t ht, ← List.filterMap_eq_map]
    rfl
  acts := by
    intro now bk _ t _ _
    have hmap : (fun a : TriggerAction => some (action a)) = some ∘ action := rfl
    rw [hmap, List.filterMap_eq_map, List.map_eq_nil_iff]
  concerns := fun _ _ _ => rfl
  ignores := fun _ _ _ _ h => nomatch h
  clears := fun s t ht _ => clears s t ht
  keeps := fun _ _ _ h => nomatch h

def copyOf (t₀ : Trigger) (triggers : List Trigger) : Trigger :=
  (copies t₀.triggerName triggers).headD t₀

namespace Reading

variable {t₀ : Trigger} {σ α β : Type} (R : Reading t₀ σ α β)

def placed (p : Address × BucketKey) : Option (Address × α) :=
  (R.object p.2).map fun a => (p.1, a)

def report (request : KeyNotifyRequest) : List (α × Bool) :=
  (request.addresses.map BucketKeyAddress.bucketKey).filterMap fun bk =>
    (R.object bk).map fun a => (a, decide (t₀.triggerName ∈ request.activeTriggerNames))

def mentions (msg : UpdateCoordMsg) : Bool :=
  msg.triggers.any fun entity => entity.triggerName = t₀.triggerName && R.session entity.session

end Reading

namespace TriggerCluster

def view {t₀ : Trigger} {σ α β : Type} (R : Reading t₀ σ α β) (bucket : Bucket)
    (k : TriggerCluster) : Replicas Address σ α β where
  coord := R.state (copyOf t₀ (k.coord.triggersOf bucket)).state
  nodes := fun ip => R.state (copyOf t₀ ((k.nodes ip).triggersOf bucket)).state
  channels := fun ip => (k.notifies ip).flatMap R.report
  clears := fun ip => (k.updates ip).countP R.mentions
  puts := k.puts.filterMap R.placed
  reported := k.reported.filterMap R.placed
  fired := (actionsOf t₀.triggerName k.fired).filterMap R.action

end TriggerCluster

/-! ## The replica of a trigger -/

section Copies

variable {t₀ t : Trigger} {l : List Trigger}

theorem state_of_blank (h : t.blank = t₀) : t.state.blank = t₀.state := by
  rw [← h]
  rfl

theorem copies_of_blank {triggers : List Trigger}
    (hnames : (triggers.map Trigger.triggerName).Nodup) (hl : l.map Trigger.blank = triggers)
    (ht₀ : t₀ ∈ triggers) : ∃ t, copies t₀.triggerName l = [t] ∧ t.blank = t₀ := by
  have hmap : copies t₀.triggerName (l.map Trigger.blank) =
      (copies t₀.triggerName l).map Trigger.blank :=
    copies_map (f := Trigger.blank) (fun _ => rfl) _ _
  rw [hl, copies_eq_singleton hnames ht₀] at hmap
  obtain ⟨t, ht, hblank⟩ := List.map_eq_singleton_iff.mp hmap.symm
  exact ⟨t, ht, hblank⟩

theorem copyOf_eq (h : copies t₀.triggerName l = [t]) : copyOf t₀ l = t := by
  rw [copyOf, h]
  rfl

theorem copyOf_map (h : copies t₀.triggerName l = [t]) {f : Trigger → Trigger}
    (hf : ∀ t, (f t).triggerName = t.triggerName) : copyOf t₀ (l.map f) = f t := by
  rw [copyOf, copies_map hf, h]
  rfl

theorem copyOf_arrived (h : copies t₀.triggerName l = [t]) (now : TimePoint) (bk : BucketKey) :
    copyOf t₀ (l.map fun t => (t.actionForNewObject now bk).1) =
      (t.actionForNewObject now bk).1 :=
  copyOf_map (f := fun t => (t.actionForNewObject now bk).1) h fun _ => rfl

theorem copies_unskipped (h : copies t₀.triggerName l = [t]) (active : List Name) :
    copies t₀.triggerName (unskipped active l) =
      if t₀.triggerName ∈ active then [] else [t] := by
  have hfilter := copies_filter (q := fun name => decide (name ∉ active)) t₀.triggerName l
  unfold unskipped
  rw [hfilter, h]
  by_cases hmem : t₀.triggerName ∈ active <;> simp [hmem]

theorem actionsOf_firings_copy (h : copies t₀.triggerName l = [t]) (now : TimePoint)
    (bk : BucketKey) :
    actionsOf t₀.triggerName (firings now bk l) = (t.actionForNewObject now bk).2 := by
  rw [actionsOf_firings, h]
  exact List.flatMap_singleton _ _

theorem mem_activeNames_copy (h : copies t₀.triggerName l = [t]) (now : TimePoint)
    (bk : BucketKey) :
    t₀.triggerName ∈ activeNames now bk l ↔ (t.actionForNewObject now bk).2 ≠ [] := by
  rw [mem_activeNames, h]
  simp

theorem actionsOf_firings_unskipped (h : copies t₀.triggerName l = [t]) (now : TimePoint)
    (bk : BucketKey) (active : List Name) :
    actionsOf t₀.triggerName (firings now bk (unskipped active l)) =
      if t₀.triggerName ∈ active then [] else (t.actionForNewObject now bk).2 := by
  rw [actionsOf_firings, copies_unskipped h]
  split
  · rfl
  · exact List.flatMap_singleton _ _

theorem mem_clearedNames_unskipped (h : copies t₀.triggerName l = [t])
    (htype : t.type ≠ .byTime) (now : TimePoint) (bk : BucketKey) (active : List Name) :
    t₀.triggerName ∈ clearedNames now bk (unskipped active l) ↔
      t₀.triggerName ∉ active ∧ (t.actionForNewObject now bk).2 ≠ [] := by
  rw [mem_clearedNames, copies_unskipped h]
  by_cases hmem : t₀.triggerName ∈ active <;> simp [hmem, htype]

end Copies

/-! ## Messages under a reading -/

namespace Reading

variable {t₀ : Trigger} {σ α β : Type} (R : Reading t₀ σ α β)

theorem report_some {request : KeyNotifyRequest} {a : α}
    (hobject : request.addresses.map BucketKeyAddress.bucketKey = [object])
    (ha : R.object object = some a) :
    R.report request = [(a, decide (t₀.triggerName ∈ request.activeTriggerNames))] := by
  simp [report, hobject, ha]

theorem report_none {request : KeyNotifyRequest}
    (hobject : request.addresses.map BucketKeyAddress.bucketKey = [object])
    (ha : R.object object = none) : R.report request = [] := by
  simp [report, hobject, ha]

theorem mentions_clearMessage (object : BucketKey) (names : List Name) :
    R.mentions (clearMessage object names) =
      (decide (t₀.triggerName ∈ names) && R.session object.session) := by
  unfold mentions clearMessage
  rw [Bool.eq_iff_iff]
  simp only [List.any_eq_true, List.mem_map, Bool.and_eq_true, decide_eq_true_eq]
  constructor
  · rintro ⟨entity, ⟨name, hname, rfl⟩, hentity, hsession⟩
    exact ⟨hentity ▸ hname, hsession⟩
  · rintro ⟨hname, hsession⟩
    exact ⟨_, ⟨t₀.triggerName, hname, rfl⟩, rfl, hsession⟩

theorem countP_mentions (msgs : List UpdateCoordMsg) (object : BucketKey) (names : List Name)
    (receives : Bool) :
    (msgs ++ if names ≠ [] ∧ receives then [clearMessage object names] else []).countP
        R.mentions = msgs.countP R.mentions +
      if (t₀.triggerName ∈ names ∧ R.session object.session) ∧ receives then 1 else 0 := by
  rw [List.countP_append]
  congr 1
  by_cases hmention : t₀.triggerName ∈ names ∧ R.session object.session
  · have hnames : names ≠ [] := List.ne_nil_of_mem hmention.1
    cases receives <;> simp [hnames, hmention, R.mentions_clearMessage]
  · have hnot : R.mentions (clearMessage object names) = false := by
      rw [R.mentions_clearMessage, Bool.eq_false_iff]
      simpa using hmention
    have hneither : ¬ ((t₀.triggerName ∈ names ∧ R.session object.session) ∧ receives) :=
      fun hboth => hmention hboth.1
    rw [if_neg hneither]
    split
    · simp [hnot]
    · rfl

theorem type_of_blank (R : Reading t₀ σ α β) {t : Trigger} (h : t.blank = t₀) :
    t.type ≠ .byTime := by
  have htype : t.type = t₀.type := by
    rw [← h]
    obtain ⟨target, name, option, state⟩ := t
    cases state <;> rfl
  rw [htype]
  exact R.notByTime

end Reading

/-! ## Steps of the view -/

namespace TriggerCluster

variable {bucket : Bucket} {triggers : List Trigger} {k k' : TriggerCluster}
  {env : Address → SchedEnv} {randR : RandR} {t₀ : Trigger} {σ α β : Type}
  (R : Reading t₀ σ α β)

theorem read_update {δ γ : Type} (read : δ → γ) (nodes : Address → δ) (ip : Address) (node : δ) :
    (fun ip' => read (Function.update nodes ip node ip')) =
      Function.update (fun ip' => read (nodes ip')) ip (read node) :=
  funext (Function.apply_update (fun _ => read) nodes ip node)

theorem view_put (h : k.Running bucket triggers) (ht₀ : t₀ ∈ triggers) {respAddress : Address}
    {payload : Value} (hbucket : object.bucket = bucket)
    (hstep : k.step env randR (.put ip now object respAddress payload) = some k') :
    (∃ a, R.object object = some a ∧ k'.view R bucket = (k.view R bucket).put R.machine ip a) ∨
      (R.object object = none ∧ k'.view R bucket = k.view R bucket) := by
  obtain ⟨s, requestId, address, -, htriggers, -, hput⟩ :=
    step_put env randR ip now respAddress payload h hbucket
  rw [hput] at hstep
  cases hstep
  obtain ⟨t, hcopy, hblank⟩ := copies_of_blank h.names (h.nodes ip) ht₀
  have hstate : R.state (copyOf t₀ (s.triggersOf bucket)).state =
      R.state (t.actionForNewObject (now * 1000) object).1.state := by
    rw [htriggers, copyOf_arrived hcopy]
  have hbefore : R.state (copyOf t₀ ((k.nodes ip).triggersOf bucket)).state = R.state t.state := by
    rw [copyOf_eq hcopy]
  have hfired := actionsOf_firings_copy hcopy (now * 1000) object
  have hactive := mem_activeNames_copy hcopy (now * 1000) object
  have hnodes : (fun ip' => R.state (copyOf t₀ ((Function.update k.nodes ip s ip').triggersOf
      bucket)).state) = Function.update (k.view R bucket).nodes ip
        (R.state (t.actionForNewObject (now * 1000) object).1.state) := by
    rw [← hstate]
    exact read_update (fun s => R.state (copyOf t₀ (s.triggersOf bucket)).state) k.nodes ip s
  cases hobject : R.object object with
  | some a =>
    have harrive := R.arrives (now * 1000) object a t hblank hobject
    have hacts := R.acts (now * 1000) object a t hblank hobject
    refine .inl ⟨a, rfl, ?_⟩
    apply Replicas.ext
    · rfl
    · rw [Replicas.put]
      simp only [view, hbefore, harrive]
      exact hnodes
    · funext ip'
      by_cases hip : ip' = ip
      · subst hip
        have hflag : decide (t₀.triggerName ∈ activeNames (now * 1000) object
            ((k.nodes ip').triggersOf bucket)) = decide
              (((t.actionForNewObject (now * 1000) object).2.filterMap R.action).length ≠ 0) := by
          rw [decide_eq_decide, hactive, ne_eq, ne_eq, List.length_eq_zero_iff, hacts]
        simp only [view, Replicas.put, Function.update_self, List.flatMap_append,
          List.flatMap_singleton, hbefore, harrive, ← hflag]
        rw [R.report_some rfl hobject]
        rfl
      · simp only [view, Replicas.put, Function.update_of_ne hip]
    · rfl
    · simp [view, Replicas.put, Reading.placed, hobject]
    · rfl
    · simp only [view, Replicas.put, actionsOf_append, List.filterMap_append, hfired, hbefore,
        harrive]
  | none =>
    obtain ⟨hsame, hnothing, -⟩ := R.ignores (now * 1000) object t hblank hobject
    refine .inr ⟨rfl, ?_⟩
    apply Replicas.ext
    · rfl
    · refine hnodes.trans (Function.update_eq_self_iff.mpr ?_)
      simp only [view, hbefore, hsame]
    · funext ip'
      by_cases hip : ip' = ip
      · subst hip
        simp only [view, Function.update_self, List.flatMap_append, List.flatMap_singleton]
        rw [R.report_none rfl hobject, List.append_nil]
      · simp only [view, Function.update_of_ne hip]
    · rfl
    · simp [view, Reading.placed, hobject]
    · rfl
    · simp only [view, actionsOf_append, List.filterMap_append, hfired, hnothing,
        List.append_nil]

theorem view_notify (h : k.Running bucket triggers) (ht₀ : t₀ ∈ triggers) {now : TimePoint}
    (hstep : k.step env randR (.notify ip now) = some k') :
    (∃ a active rest receivers, (k.view R bucket).channels ip = (a, active) :: rest ∧
        k'.view R bucket = (k.view R bucket).report R.machine ip a active rest receivers) ∨
      (k.notifies ip = [] ∨ ∃ object, R.object object = none) ∧
        k'.view R bucket = k.view R bucket := by
  cases hhead : k.notifies ip with
  | nil =>
    simp only [step, hhead] at hstep
    cases hstep
    exact .inr ⟨.inl rfl, rfl⟩
  | cons request rest =>
    obtain ⟨c, object, receivers, -, hrequest, hreceived, hnotify⟩ :=
      step_notify env randR now h hhead
    rw [hnotify] at hstep
    cases hstep
    obtain ⟨t, hcopy, hblank⟩ := copies_of_blank h.names h.coord ht₀
    have hstate : R.state (copyOf t₀ (c.triggersOf bucket)).state =
        R.state (t.actionForNewObject now object).1.state := by
      rw [hreceived.triggers, copyOf_arrived hcopy]
    have hbefore : R.state (copyOf t₀ (k.coord.triggersOf bucket)).state = R.state t.state := by
      rw [copyOf_eq hcopy]
    have hfired := actionsOf_firings_unskipped hcopy now object request.activeTriggerNames
    have hcleared := mem_clearedNames_unskipped hcopy (R.type_of_blank hblank) now object
      request.activeTriggerNames
    have hchannels : (fun ip' => (Function.update k.notifies ip rest ip').flatMap R.report) =
        Function.update (k.view R bucket).channels ip (rest.flatMap R.report) :=
      read_update (fun requests => requests.flatMap R.report) k.notifies ip rest
    have hhead' : (k.view R bucket).channels ip = R.report request ++ rest.flatMap R.report := by
      simp only [view, hhead, List.flatMap_cons]
    cases hobject : R.object object with
    | some a =>
      have harrive := R.arrives now object a t hblank hobject
      have hacts := R.acts now object a t hblank hobject
      have hsession := R.concerns object a hobject
      refine .inl ⟨a, decide (t₀.triggerName ∈ request.activeTriggerNames),
        rest.flatMap R.report, receivers, ?_, ?_⟩
      · rw [hhead', R.report_some hrequest hobject]
        rfl
      apply Replicas.ext
      · simp only [view, Replicas.report, hbefore, harrive, hstate]
      · rfl
      · exact hchannels
      · funext ip'
        simp only [view, Replicas.report, hbefore, harrive, R.countP_mentions, hcleared,
          hsession]
        congr 1
        by_cases hmem : t₀.triggerName ∈ request.activeTriggerNames
        · simp [hmem]
        · simp [hmem, hacts]
      · rfl
      · simp [view, Replicas.report, Reading.placed, hobject]
      · simp only [view, Replicas.report, actionsOf_append, List.filterMap_append, hfired,
          hbefore, harrive]
        by_cases hmem : t₀.triggerName ∈ request.activeTriggerNames <;> simp [hmem]
    | none =>
      obtain ⟨hsame, hnothing, hquiet⟩ := R.ignores now object t hblank hobject
      refine .inr ⟨.inr ⟨object, hobject⟩, ?_⟩
      apply Replicas.ext
      · simp only [view, hbefore, hstate, hsame]
      · rfl
      · refine hchannels.trans (Function.update_eq_self_iff.mpr ?_)
        rw [hhead', R.report_none hrequest hobject, List.nil_append]
      · funext ip'
        simp only [view, R.countP_mentions, hcleared]
        rw [if_neg, Nat.add_zero]
        rintro ⟨⟨⟨-, hacted⟩, hsession⟩, -⟩
        exact hacted (hquiet hsession)
      · rfl
      · simp [view, Reading.placed, hobject]
      · simp only [view, actionsOf_append, List.filterMap_append, hfired]
        split
        · exact List.append_nil _
        · rw [hnothing, List.append_nil]

theorem clearIf_state {names : List Name} {t : Trigger} (hblank : t.blank = t₀) :
    R.state (clearIf object.session names t).state =
      if R.mentions (clearMessage object names) then R.machine.clear (R.state t.state)
      else R.state t.state := by
  have hname : t.triggerName = t₀.triggerName := by
    rw [← hblank]
    rfl
  rw [R.mentions_clearMessage]
  unfold clearIf
  rw [hname]
  by_cases hmem : t₀.triggerName ∈ names
  · cases hsession : R.session object.session with
    | true => simp [hmem, R.clears object.session t hblank hsession]
    | false => simp [hmem, R.keeps object.session t hblank hsession]
  · simp [hmem]

theorem view_update (h : k.Running bucket triggers) (ht₀ : t₀ ∈ triggers)
    (hstep : k.step env randR (.update ip now) = some k') :
    (0 < (k.view R bucket).clears ip ∧
        k'.view R bucket = (k.view R bucket).clear R.machine ip) ∨
      k'.view R bucket = k.view R bucket := by
  cases hhead : k.updates ip with
  | nil =>
    simp only [step, hhead] at hstep
    cases hstep
    exact .inr rfl
  | cons msg rest =>
    obtain ⟨object, names, rfl, rfl, hnodup⟩ :=
      h.updates ip msg (by rw [hhead]; exact List.mem_cons_self)
    obtain ⟨htriggers, -⟩ := clearUpdate_spec object hnodup (k.nodes ip)
    rw [step_update env randR now hhead] at hstep
    cases hstep
    obtain ⟨t, hcopy, hblank⟩ := copies_of_blank h.names (h.nodes ip) ht₀
    have hstate : R.state (copyOf t₀ ((clearUpdate (clearMessage object names)
        (k.nodes ip)).triggersOf object.bucket)).state =
          R.state (clearIf object.session names t).state := by
      rw [htriggers, copyOf_map hcopy (clearIf_triggerName _ _)]
    have hbefore : R.state (copyOf t₀ ((k.nodes ip).triggersOf object.bucket)).state =
        R.state t.state := by
      rw [copyOf_eq hcopy]
    have hnodes := read_update (fun s => R.state (copyOf t₀ (s.triggersOf object.bucket)).state)
      k.nodes ip (clearUpdate (clearMessage object names) (k.nodes ip))
    have hclears := read_update (fun updates => updates.countP R.mentions) k.updates ip rest
    rw [hstate, clearIf_state R hblank] at hnodes
    by_cases hmention : R.mentions (clearMessage object names)
    · left
      rw [if_pos hmention, ← hbefore] at hnodes
      refine ⟨?_, ?_⟩
      · simp [view, hhead, hmention]
      apply Replicas.ext
      · rfl
      · exact hnodes
      · rfl
      · refine hclears.trans ?_
        simp [view, Replicas.clear, hhead, hmention]
      · rfl
      · rfl
      · rfl
    · right
      rw [if_neg hmention, ← hbefore] at hnodes
      apply Replicas.ext
      · rfl
      · exact hnodes.trans (Function.update_eq_self ip _)
      · rfl
      · refine hclears.trans (Function.update_eq_self_iff.mpr ?_)
        simp [hhead, hmention]
      · rfl
      · rfl
      · rfl

theorem step_view (h : k.Running bucket triggers) (ht₀ : t₀ ∈ triggers)
    (he : e.Meets fun object => object.bucket = bucket) (hstep : k.step env randR e = some k') :
    Replicas.Step R.machine (k.view R bucket) (k'.view R bucket) ∨
      k'.view R bucket = k.view R bucket := by
  cases e with
  | put ip now object respAddress payload =>
    rcases view_put R h ht₀ he hstep with ⟨a, -, hview⟩ | ⟨-, hview⟩
    · exact .inl (hview ▸ Replicas.Step.put ip a)
    · exact .inr hview
  | notify ip now =>
    rcases view_notify R h ht₀ hstep with ⟨a, active, rest, receivers, hhead, hview⟩ | ⟨-, hview⟩
    · exact .inl (hview ▸ Replicas.Step.report ip a active rest receivers hhead)
    · exact .inr hview
  | update ip now =>
    rcases view_update R h ht₀ hstep with ⟨hpos, hview⟩ | hview
    · exact .inl (hview ▸ Replicas.Step.clear ip hpos)
    · exact .inr hview

theorem step_actions (h : k.Running bucket triggers) (ht₀ : t₀ ∈ triggers)
    {P : TriggerAction → Prop}
    (hP : ∀ now bk (t : Trigger), t.blank = t₀ → ∀ action ∈ (t.actionForNewObject now bk).2,
      P action) (he : e.Meets fun object => object.bucket = bucket)
    (hstep : k.step env randR e = some k')
    (hold : ∀ action ∈ actionsOf t₀.triggerName k.fired, P action) :
    ∀ action ∈ actionsOf t₀.triggerName k'.fired, P action := by
  cases e with
  | put ip now object respAddress payload =>
    obtain ⟨s, requestId, address, -, -, -, hput⟩ :=
      step_put env randR ip now respAddress payload h he
    rw [hput] at hstep
    cases hstep
    obtain ⟨t, hcopy, hblank⟩ := copies_of_blank h.names (h.nodes ip) ht₀
    intro action hmem
    rw [actionsOf_append, List.mem_append, actionsOf_firings_copy hcopy] at hmem
    rcases hmem with hmem | hmem
    · exact hold action hmem
    · exact hP _ _ t hblank action hmem
  | notify ip now =>
    cases hhead : k.notifies ip with
    | nil =>
      simp only [step, hhead] at hstep
      cases hstep
      exact hold
    | cons request rest =>
      obtain ⟨c, object, receivers, -, -, -, hnotify⟩ := step_notify env randR now h hhead
      rw [hnotify] at hstep
      cases hstep
      obtain ⟨t, hcopy, hblank⟩ := copies_of_blank h.names h.coord ht₀
      intro action hmem
      rw [actionsOf_append, List.mem_append, actionsOf_firings_unskipped hcopy] at hmem
      rcases hmem with hmem | hmem
      · exact hold action hmem
      · split at hmem
        · cases hmem
        · exact hP _ _ t hblank action hmem
  | update ip now =>
    simp only [step] at hstep
    split at hstep
    · cases hstep
      exact hold
    · obtain ⟨s, -, rfl⟩ := Option.map_eq_some_iff.mp hstep
      exact hold

/-! ## The objects of a run -/

def objects (k : TriggerCluster) : List BucketKey := k.puts.map Prod.snd

structure OncePut (bucket : Bucket) (k : TriggerCluster) : Prop where
  bucket : ∀ bk ∈ k.objects, bk.bucket = bucket
  once : k.objects.Nodup

theorem notify_objects {now : TimePoint} (hstep : k.step env randR (.notify ip now) = some k') :
    k'.objects = k.objects := by
  simp only [TriggerCluster.step] at hstep
  split at hstep
  · cases hstep
    rfl
  · obtain ⟨result, -, rfl⟩ := Option.map_eq_some_iff.mp hstep
    rfl

theorem update_objects (hstep : k.step env randR (.update ip now) = some k') :
    k'.objects = k.objects := by
  simp only [TriggerCluster.step] at hstep
  split at hstep
  · cases hstep
    rfl
  · obtain ⟨s, -, rfl⟩ := Option.map_eq_some_iff.mp hstep
    rfl

theorem OncePut.step (h : k.OncePut bucket) (he : k.PutOnce bucket e)
    (hstep : k.step env randR e = some k') : k'.OncePut bucket := by
  cases e with
  | put ip now object respAddress payload =>
    cases hstep
    obtain ⟨hbucket, hnew⟩ := he
    have hobjects : (k.puts ++ [(ip, object)]).map Prod.snd = k.objects ++ [object] := by
      simp [objects]
    refine ⟨?_, ?_⟩
    · intro bk hmem
      simp only [objects, hobjects, List.mem_append, List.mem_singleton] at hmem
      rcases hmem with hmem | rfl
      · exact h.bucket bk hmem
      · exact hbucket
    · simp only [objects, hobjects]
      exact h.once.append (List.nodup_singleton _) (by simpa [objects] using hnew)
  | notify ip now =>
    have hsame := notify_objects hstep
    exact ⟨hsame ▸ h.bucket, hsame ▸ h.once⟩
  | update ip now =>
    have hsame := update_objects hstep
    exact ⟨hsame ▸ h.bucket, hsame ▸ h.once⟩

theorem run_objects (hrun : run (TriggerCluster.step env randR) k es = some k') :
    k'.objects = k.objects ++ putsOf es := by
  induction es generalizing k with
  | nil =>
    cases hrun
    exact (List.append_nil _).symm
  | cons e es ih =>
    obtain ⟨k₁, hstep, hrun⟩ := run_cons_eq_some.mp hrun
    rw [ih hrun]
    cases e with
    | put ip now object respAddress payload =>
      cases hstep
      simp [objects, putsOf]
    | notify ip now =>
      rw [notify_objects hstep]
      rfl
    | update ip now =>
      rw [update_objects hstep]
      rfl

theorem along_meets {Q : List BucketKey → BucketKey → Prop}
    (h : ∀ before object after, putsOf es = before ++ object :: after →
      Q (k.objects ++ before) object) :
    Along (TriggerCluster.step env randR) (fun k e => e.Meets (Q k.objects)) k es := by
  induction es generalizing k with
  | nil => trivial
  | cons e es ih =>
    cases e with
    | put ip now object respAddress payload =>
      have hputs : putsOf (.put ip now object respAddress payload :: es) =
          object :: putsOf es := rfl
      refine ⟨?_, ?_⟩
      · have hfirst := h [] object (putsOf es) hputs
        rwa [List.append_nil] at hfirst
      · intro k₁ hk₁
        cases hk₁
        refine ih fun before object' after hsplit => ?_
        have hputs' : putsOf (.put ip now object respAddress payload :: es) =
            object :: before ++ object' :: after := by
          rw [hputs, hsplit, List.cons_append]
        have hnext := h (object :: before) object' after hputs'
        simpa [objects] using hnext
    | notify ip now =>
      refine ⟨trivial, fun k₁ hk₁ => ih ?_⟩
      rw [notify_objects hk₁]
      exact h
    | update ip now =>
      refine ⟨trivial, fun k₁ hk₁ => ih ?_⟩
      rw [update_objects hk₁]
      exact h

theorem along_putOnce (hbucket : ∀ object ∈ putsOf es, object.bucket = bucket)
    (hnodup : (k.objects ++ putsOf es).Nodup) :
    Along (TriggerCluster.step env randR) (PutOnce bucket) k es := by
  have hes : Along (TriggerCluster.step env randR)
      (fun k e => e.Meets fun object => object.bucket = bucket ∧ object ∉ k.objects) k es := by
    refine along_meets (Q := fun before object => object.bucket = bucket ∧ object ∉ before) ?_
    intro before object after hsplit
    refine ⟨hbucket object (by rw [hsplit]; simp), fun hmem => ?_⟩
    rw [hsplit, ← List.append_assoc] at hnodup
    exact (List.nodup_append.mp hnodup).2.2 object hmem object List.mem_cons_self rfl
  refine hes.mono fun k e he => ?_
  cases e <;> exact he

theorem view_objects (k : TriggerCluster) :
    (k.view R bucket).puts.map Prod.snd = k.objects.filterMap R.object := by
  simp only [view, objects, List.map_filterMap, List.filterMap_map]
  congr 1
  funext p
  cases hobject : R.object p.2 <;> simp [Reading.placed, hobject]

section Total

variable {R} {f : TriggerAction → β} {g : BucketKey → α}

theorem view_fired (hR : ∀ action, R.action action = some (f action)) (k : TriggerCluster) :
    (k.view R bucket).fired = (actionsOf t₀.triggerName k.fired).map f := by
  have haction : R.action = some ∘ f := funext hR
  simp only [view, haction, List.filterMap_eq_map]

theorem view_objects_total (hR : ∀ bk, R.object bk = some (g bk)) (k : TriggerCluster) :
    (k.view R bucket).puts.map Prod.snd = k.objects.map g := by
  have hobject : R.object = some ∘ g := funext hR
  rw [view_objects, hobject, List.filterMap_eq_map]

end Total

theorem OncePut.view (h : k.OncePut bucket)
    (hinj : ∀ bk bk' a, bk.bucket = bk'.bucket → R.object bk = some a → R.object bk' = some a →
      bk = bk') : ((k.view R bucket).puts.map Prod.snd).Nodup := by
  rw [view_objects]
  unfold List.Nodup
  rw [List.pairwise_filterMap]
  refine h.once.imp_of_mem ?_
  intro bk bk' hmem hmem' hne a ha a' ha' heq
  subst heq
  exact hne (hinj bk bk' a ((h.bucket bk hmem).trans (h.bucket bk' hmem').symm) ha ha')

/-! ## The first state -/

theorem state_of_installed {l : List Trigger} (hnames : (triggers.map Trigger.triggerName).Nodup)
    (hl : l.map Trigger.withoutReruns = triggers) (ht₀ : t₀ ∈ triggers)
    (hreruns : ∀ state : TriggerState, R.state state.withoutReruns = R.state state) :
    R.state (copyOf t₀ l).state = R.state t₀.state := by
  have hmap : copies t₀.triggerName (l.map Trigger.withoutReruns) =
      (copies t₀.triggerName l).map Trigger.withoutReruns :=
    copies_map (f := Trigger.withoutReruns) (fun _ => rfl) _ _
  rw [hl, copies_eq_singleton hnames ht₀] at hmap
  obtain ⟨t, hcopy, ht⟩ := List.map_eq_singleton_iff.mp hmap.symm
  have hstate : t₀.state = t.state.withoutReruns := (congrArg Trigger.state ht).symm
  rw [copyOf_eq hcopy, hstate]
  exact (hreruns t.state).symm

theorem Installed.view (h : k.Installed bucket triggers) (ht₀ : t₀ ∈ triggers)
    (hreruns : ∀ state : TriggerState, R.state state.withoutReruns = R.state state) :
    k.view R bucket =
      { coord := R.state t₀.state, nodes := fun _ => R.state t₀.state, channels := fun _ => []
        clears := fun _ => 0, puts := [], reported := [], fired := [] } := by
  apply Replicas.ext
  · exact state_of_installed R h.names h.coord ht₀ hreruns
  · funext ip
    exact state_of_installed R h.names (h.nodes ip) ht₀ hreruns
  · funext ip
    simp [TriggerCluster.view, h.notifies ip]
  · funext ip
    simp [TriggerCluster.view, h.updates ip]
  · simp [TriggerCluster.view, h.puts]
  · simp [TriggerCluster.view, h.reported]
  · simp [TriggerCluster.view, h.fired, actionsOf]

end TriggerCluster

end Pheromone.Cluster
