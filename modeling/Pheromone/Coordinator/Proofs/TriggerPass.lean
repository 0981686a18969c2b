import Pheromone.Common.Firing
import Pheromone.Coordinator.Notify
import Pheromone.Lib.Transition

/-!
# The triggers of a notified object

What `notify_handler` does with the triggers of the bucket: every trigger sees
the object, those that are not skipped as active start their actions, and their
names are sent to the nodes of the bucket.
-/

namespace Pheromone.Coordinator

open Lib Common

variable {acc' : CoordState × List CoordOut} {action : TriggerAction} {triggers : List Trigger}

variable {bk : BucketKey} {randR : RandR} {respAddress : Address} {now : TimePoint}
  {activeTriggers : List Name} {trigger : Trigger} {c : CoordState} {pass pass' : TriggerPass}
  {acc : CoordState × List CoordOut} {bucket : Bucket}

/-! ## Starting an action -/

def CoordOut.IsUpdate : CoordOut → Prop
  | .update _ _ => True
  | _ => False

theorem firedOf_append (outs outs' : List CoordOut) :
    firedOf (outs ++ outs') = firedOf outs ++ firedOf outs' := List.filterMap_append

/-- Starting actions changes only the status of the nodes, the seed and the
application of the bucket, which `operator[]` may add. -/
structure Routed (c c' : CoordState) : Prop where
  privateIp : c'.privateIp = c.privateIp
  threadId : c'.threadId = c.threadId
  keyAddresses : c'.bucketKeyAddressMap = c.bucketKeyAddressMap
  values : c'.bucketKeyValMap = c.bucketKeyValMap
  nodes : c'.bucketNodeMap = c.bucketNodeMap
  triggers : c'.bucketTriggersMap = c.bucketTriggersMap
  apps : ∀ bucket, (c.bucketAppMap bucket).isSome → (c'.bucketAppMap bucket).isSome

theorem Routed.refl (c : CoordState) : Routed c c :=
  ⟨rfl, rfl, rfl, rfl, rfl, rfl, fun _ h => h⟩

theorem Routed.trans {c₁ c₂ c₃ : CoordState} (h₁ : Routed c₁ c₂) (h₂ : Routed c₂ c₃) :
    Routed c₁ c₃ where
  privateIp := h₂.privateIp.trans h₁.privateIp
  threadId := h₂.threadId.trans h₁.threadId
  keyAddresses := h₂.keyAddresses.trans h₁.keyAddresses
  values := h₂.values.trans h₁.values
  nodes := h₂.nodes.trans h₁.nodes
  triggers := h₂.triggers.trans h₁.triggers
  apps := fun bucket h => h₂.apps bucket (h₁.apps bucket h)

structure Started (firings : List (Name × TriggerAction)) (acc acc' : CoordState × List CoordOut) :
    Prop where
  routed : Routed acc.1 acc'.1
  fired : firedOf acc'.2 = firedOf acc.2 ++ firings
  updates : ∀ out ∈ acc'.2, out.IsUpdate → out ∈ acc.2

theorem Started.trans {f₁ f₂ : List (Name × TriggerAction)}
    {acc₁ acc₂ acc₃ : CoordState × List CoordOut} (h₁ : Started f₁ acc₁ acc₂)
    (h₂ : Started f₂ acc₂ acc₃) : Started (f₁ ++ f₂) acc₁ acc₃ where
  routed := h₁.routed.trans h₂.routed
  fired := by rw [h₂.fired, h₁.fired, List.append_assoc]
  updates := fun out hout hupdate => h₁.updates out (h₂.updates out hout hupdate) hupdate

theorem Started.refl (acc : CoordState × List CoordOut) : Started [] acc acc where
  routed := Routed.refl acc.1
  fired := (List.append_nil _).symm
  updates := fun _ hout _ => hout

theorem touch_isSome {m : Map Bucket Name} (bucket bucket' : Bucket) (d : Name)
    (h : (m bucket').isSome) : (m.touch bucket d bucket').isSome := by
  by_cases hb : bucket' = bucket
  · subst hb
    simp
  · rw [Map.touch_of_ne m d hb]
    exact h

theorem dispatchAction_started
    (h : dispatchAction randR bk respAddress trigger acc action = some acc') :
    Started [(trigger.triggerName, action)] acc acc' := by
  obtain ⟨args, -, rfl⟩ := Option.map_eq_some_iff.mp h
  simp only
  split
  · refine ⟨⟨rfl, rfl, rfl, rfl, rfl, rfl, fun b hb => touch_isSome _ b _ hb⟩, ?_, ?_⟩
    · exact firedOf_append _ _
    · intro out hout hupdate
      rcases List.mem_append.mp hout with hold | hnew
      · exact hold
      · rw [List.mem_singleton.mp hnew] at hupdate
        cases hupdate
  · refine ⟨⟨rfl, rfl, rfl, rfl, rfl, rfl, fun b hb => touch_isSome _ b _ hb⟩, ?_, ?_⟩
    · rw [firedOf_append, firedOf_append]
      exact List.append_nil _
    · intro out hout hupdate
      rcases List.mem_append.mp hout with hout | hnew
      · rcases List.mem_append.mp hout with hold | hnew
        · exact hold
        · rw [List.mem_singleton.mp hnew] at hupdate
          cases hupdate
      · rw [List.mem_singleton.mp hnew] at hupdate
        cases hupdate

theorem dispatchAction_foldlM {actions : List TriggerAction}
    (h : actions.foldlM (dispatchAction randR bk respAddress trigger) acc = some acc') :
    Started (actions.map fun action => (trigger.triggerName, action)) acc acc' := by
  induction actions generalizing acc with
  | nil =>
    cases h
    exact Started.refl _
  | cons action actions ih =>
    obtain ⟨acc₁, hfirst, hrest⟩ := foldlM_cons_eq_some.mp h
    exact (dispatchAction_started hfirst).trans (ih hrest)

/-! ## The loop over the triggers -/

def unskipped (activeTriggers : List Name) (triggers : List Trigger) : List Trigger :=
  triggers.filter fun t => t.triggerName ∉ activeTriggers

def clearedNames (now : TimePoint) (bk : BucketKey) (triggers : List Trigger) : List Name :=
  (triggers.filter fun t =>
    (t.actionForNewObject now bk).2 ≠ [] ∧ t.type ≠ .byTime).map Trigger.triggerName

theorem mem_clearedNames {name : Name} :
    name ∈ clearedNames now bk triggers ↔
      ∃ t ∈ copies name triggers, (t.actionForNewObject now bk).2 ≠ [] ∧ t.type ≠ .byTime :=
  mem_names

/-- What the loop over `triggers` adds to a pass. -/
structure Passed (now : TimePoint) (activeTriggers : List Name) (bk : BucketKey)
    (triggers : List Trigger) (pass pass' : TriggerPass) : Prop where
  started : Started (firings now bk (unskipped activeTriggers triggers))
    (pass.state, pass.out) (pass'.state, pass'.out)
  visited : pass'.visited =
    pass.visited ++ triggers.map fun t => (t.actionForNewObject now bk).1
  names : pass'.triggeredName =
    pass.triggeredName ++ clearedNames now bk (unskipped activeTriggers triggers)

theorem visit_actions
    (h : pass.visit randR now activeTriggers bk respAddress trigger = some pass') :
    ∃ actions, actions ⊆ (trigger.actionForNewObject now bk).2 ∧
      actions.foldlM (dispatchAction randR bk respAddress trigger) (pass.state, pass.out) =
        some (pass'.state, pass'.out) := by
  unfold TriggerPass.visit at h
  simp only at h
  split at h
  · cases h
    exact ⟨[], List.nil_subset _, rfl⟩
  split at h
  · cases h
    exact ⟨[], List.nil_subset _, rfl⟩
  obtain ⟨dispatched, hdispatched, rfl⟩ := Option.map_eq_some_iff.mp h
  exact ⟨_, List.Subset.refl _, hdispatched⟩

theorem visit_passed (h : pass.visit randR now activeTriggers bk respAddress trigger = some pass') :
    Passed now activeTriggers bk [trigger] pass pass' := by
  unfold TriggerPass.visit at h
  simp only at h
  split at h
  next hactive =>
    cases h
    have hskip : unskipped activeTriggers [trigger] = [] := by simp [unskipped, hactive]
    refine ⟨?_, rfl, ?_⟩
    · rw [hskip]
      exact Started.refl _
    · rw [hskip]
      simp [clearedNames]
  next hactive =>
    have hkeep : unskipped activeTriggers [trigger] = [trigger] := by simp [unskipped, hactive]
    split at h
    next hnil =>
      cases h
      refine ⟨?_, rfl, ?_⟩
      · rw [hkeep]
        have hnone : firings now bk [trigger] = [] := by simp [firings, hnil]
        rw [hnone]
        exact Started.refl _
      · rw [hkeep]
        simp [clearedNames, hnil]
    next hne =>
      obtain ⟨dispatched, hdispatched, rfl⟩ := Option.map_eq_some_iff.mp h
      refine ⟨?_, rfl, ?_⟩
      · rw [hkeep]
        have hall : firings now bk [trigger] =
            (trigger.actionForNewObject now bk).2.map fun action =>
              (trigger.triggerName, action) := by
          simp [firings]
        rw [hall]
        exact dispatchAction_foldlM hdispatched
      · rw [hkeep]
        by_cases htype : trigger.type = .byTime <;> simp [clearedNames, hne, htype]

theorem visit_foldlM
    (h : triggers.foldlM (TriggerPass.visit randR now activeTriggers bk respAddress) pass =
      some pass') : Passed now activeTriggers bk triggers pass pass' := by
  induction triggers generalizing pass with
  | nil =>
    cases h
    exact ⟨Started.refl _, by simp, by simp [unskipped, clearedNames]⟩
  | cons t triggers ih =>
    obtain ⟨pass₁, hfirst, hrest⟩ := foldlM_cons_eq_some.mp h
    obtain ⟨hstart, hvisited, hnames⟩ := visit_passed hfirst
    obtain ⟨hstart', hvisited', hnames'⟩ := ih hrest
    have hsplit : unskipped activeTriggers (t :: triggers) =
        unskipped activeTriggers [t] ++ unskipped activeTriggers triggers :=
      List.filter_append [t] triggers
    refine ⟨?_, ?_, ?_⟩
    · rw [hsplit]
      have hfirings := hstart.trans hstart'
      unfold firings at hfirings ⊢
      rw [List.flatMap_append]
      exact hfirings
    · rw [hvisited', hvisited]
      simp
    · rw [hnames', hnames, hsplit]
      simp [clearedNames]

/-! ## Checking the triggers of a bucket -/

def clearOuts (bk : BucketKey) (nodes : USet Address) (names : List Name) : List CoordOut :=
  if names = [] then []
  else nodes.elems.map fun ip => .update (triggerUpdateAddress ip) (clearMessage bk names)

structure Checked (now : TimePoint) (activeTriggers : List Name) (bk : BucketKey)
    (c c' : CoordState) (outs : List CoordOut) : Prop where
  privateIp : c'.privateIp = c.privateIp
  threadId : c'.threadId = c.threadId
  keyAddresses : c'.bucketKeyAddressMap = c.bucketKeyAddressMap
  apps : ∀ bucket, (c.bucketAppMap bucket).isSome → (c'.bucketAppMap bucket).isSome
  triggers : c'.triggersOf bk.bucket =
    (c.triggersOf bk.bucket).map fun t => (t.actionForNewObject now bk).1
  others : ∀ bucket, bucket ≠ bk.bucket → c'.triggersOf bucket = c.triggersOf bucket
  fired : firedOf outs = firings now bk (unskipped activeTriggers (c.triggersOf bk.bucket))
  updates : ∃ before, outs = before ++ clearOuts bk (c.bucketNodeMap.getD bk.bucket USet.empty)
      (clearedNames now bk (unskipped activeTriggers (c.triggersOf bk.bucket))) ∧
    ∀ out ∈ before, ¬ out.IsUpdate

theorem firedOf_clearOuts (bk : BucketKey) (nodes : USet Address) (names : List Name) :
    firedOf (clearOuts bk nodes names) = [] := by
  unfold clearOuts firedOf
  split
  · rfl
  · simp [List.filterMap_map]

theorem checkTriggers_checked {c' : CoordState} {outs : List CoordOut}
    (h : checkTriggers randR now activeTriggers bk respAddress c = some (c', outs)) :
    Checked now activeTriggers bk c c' outs := by
  obtain ⟨pass, hpass, heq⟩ := Option.map_eq_some_iff.mp h
  obtain ⟨⟨hrouted, hfired, hupdates⟩, hvisited, hnames⟩ := visit_foldlM hpass
  rw [List.nil_append] at hvisited hnames
  have hbefore : ∀ out ∈ pass.out, ¬ out.IsUpdate := fun out hout hupdate =>
    absurd (hupdates out hout hupdate) List.not_mem_nil
  have hfirings : firedOf pass.out =
      firings now bk (unskipped activeTriggers (c.triggersOf bk.bucket)) := hfired
  have hself : ∀ m : Map Bucket (List Trigger),
      (m.set bk.bucket pass.visited).getD bk.bucket [] = pass.visited := by
    intro m
    rw [Map.getD_set, if_pos rfl]
  have hother : ∀ bucket, bucket ≠ bk.bucket →
      (c.bucketTriggersMap.set bk.bucket pass.visited).getD bucket [] = c.triggersOf bucket := by
    intro bucket hne
    rw [Map.getD_set, if_neg hne]
    rfl
  simp only [hnames] at heq
  split at heq
  next hnone =>
    cases heq
    refine ⟨hrouted.privateIp, hrouted.threadId, hrouted.keyAddresses, hrouted.apps,
      (hself _).trans hvisited, hother, hfirings, pass.out, ?_, hbefore⟩
    rw [hnone]
    exact (List.append_nil _).symm
  next hsome =>
    cases heq
    refine ⟨hrouted.privateIp, hrouted.threadId, hrouted.keyAddresses, hrouted.apps,
      (hself _).trans hvisited, hother, ?_, pass.out, ?_, hbefore⟩
    · have hnone := firedOf_clearOuts bk (pass.state.bucketNodeMap.getD bk.bucket USet.empty)
        (clearedNames now bk (unskipped activeTriggers (c.triggersOf bk.bucket)))
      unfold clearOuts at hnone
      rw [if_neg hsome] at hnone
      rw [firedOf_append, hnone, List.append_nil]
      exact hfirings
    · unfold clearOuts
      rw [if_neg hsome, hrouted.nodes]

/-! ## When the handler is defined -/

def addressesOf (m : Map Bucket (Map Key (USet Address))) (bucket : Bucket) (key : Key) :
    List Address :=
  ((m.getD bucket Map.empty).getD key USet.empty).elems

def Addressed (m : Map Bucket (Map Key (USet Address))) (bucket : Bucket) : Prop :=
  ∀ key, ∀ address ∈ addressesOf m bucket key, (ipOfAddress address).isSome

theorem mem_addressesOf_updateAddress {m : Map Bucket (Map Key (USet Address))}
    {address address' : Address} {key : Key} :
    address' ∈ addressesOf (updateAddress bk address m) bucket key ↔
      (bucket = bk.bucket ∧ key = bk.key ∧ address' = address) ∨
        address' ∈ addressesOf m bucket key := by
  unfold addressesOf updateAddress
  rw [Map.getD_set]
  by_cases hb : bucket = bk.bucket
  · subst hb
    rw [if_pos rfl, Map.getD_set]
    by_cases hk : key = bk.key
    · subst hk
      simp
    · simp [hk]
  · simp [hb]

theorem keyArgument_isSome {sessionKey : Session × Key}
    (hvalid : Addressed c.bucketKeyAddressMap bucket)
    (h : addressesOf c.bucketKeyAddressMap bucket sessionKey.2 ≠ []) (argFlag : Int) :
    (keyArgument c bucket argFlag sessionKey).isSome := by
  obtain ⟨address, rest, helems⟩ := List.exists_cons_of_ne_nil h
  obtain ⟨ip, hip⟩ := Option.isSome_iff_exists.mp
    (hvalid sessionKey.2 address (by rw [helems]; exact List.mem_cons_self))
  unfold addressesOf at helems
  cases hkeys : c.bucketKeyAddressMap bucket with
  | none => simp [Map.getD, hkeys, Map.empty, USet.empty] at helems
  | some keys =>
    rw [Map.getD_of_some _ hkeys] at helems
    cases haddresses : keys sessionKey.2 with
    | none => simp [Map.getD, haddresses, USet.empty] at helems
    | some addresses =>
      rw [Map.getD_of_some _ haddresses] at helems
      simp [keyArgument, hkeys, haddresses, helems, hip]

theorem mapM_isSome {α β : Type} {f : α → Option β} {l : List α}
    (h : ∀ a ∈ l, (f a).isSome) : (l.mapM f).isSome := by
  induction l with
  | nil => rfl
  | cons a l ih =>
    obtain ⟨b, hb⟩ := Option.isSome_iff_exists.mp (h a List.mem_cons_self)
    obtain ⟨bs, hbs⟩ := Option.isSome_iff_exists.mp
      (ih fun a' ha' => h a' (List.mem_cons_of_mem _ ha'))
    simp [hb, hbs]

theorem actionArguments_isSome {argFlag : Int} {sessionKeys : List (Session × Key)}
    (hvalid : Addressed c.bucketKeyAddressMap bucket) (h : ∀ sessionKey ∈ sessionKeys,
      addressesOf c.bucketKeyAddressMap bucket sessionKey.2 ≠ []) :
    (actionArguments c bucket argFlag sessionKeys).isSome := by
  unfold actionArguments
  split
  · rfl
  · rw [Option.isSome_map]
    exact mapM_isSome fun sessionKey hmem => keyArgument_isSome hvalid (h sessionKey hmem) argFlag

theorem dispatchAction_defined (hvalid : Addressed acc.1.bucketKeyAddressMap bk.bucket)
    (h : action.Holds fun key => addressesOf acc.1.bucketKeyAddressMap bk.bucket key ≠ []) :
    ∃ acc', dispatchAction randR bk respAddress trigger acc action = some acc' := by
  rw [← Option.isSome_iff_exists]
  unfold dispatchAction
  simp only [Option.isSome_map]
  exact actionArguments_isSome hvalid h

theorem visit_defined (hvalid : Addressed pass.state.bucketKeyAddressMap bk.bucket)
    (h : ∀ action ∈ (trigger.actionForNewObject now bk).2,
      action.Holds fun key => addressesOf pass.state.bucketKeyAddressMap bk.bucket key ≠ []) :
    ∃ pass', pass.visit randR now activeTriggers bk respAddress trigger = some pass' := by
  rw [← Option.isSome_iff_exists]
  unfold TriggerPass.visit
  simp only
  split
  · rfl
  split
  · rfl
  obtain ⟨acc, hacc, -⟩ := foldlM_defined (f := dispatchAction randR bk respAddress trigger)
    (l := (trigger.actionForNewObject now bk).2) (s := (pass.state, pass.out))
    (Q := fun acc : CoordState × List CoordOut =>
      acc.1.bucketKeyAddressMap = pass.state.bucketKeyAddressMap)
    (by
      intro acc action haction hsame
      have hlocated := h action haction
      rw [← hsame] at hlocated hvalid
      obtain ⟨acc', hacc'⟩ := dispatchAction_defined hvalid hlocated
      exact ⟨acc', hacc', (dispatchAction_started hacc').routed.keyAddresses.trans hsame⟩)
    rfl
  rw [hacc]
  rfl

theorem checkTriggers_defined (hvalid : Addressed c.bucketKeyAddressMap bk.bucket)
    (h : ∀ t ∈ c.triggersOf bk.bucket, ∀ action ∈ (t.actionForNewObject now bk).2,
      action.Holds fun key => addressesOf c.bucketKeyAddressMap bk.bucket key ≠ []) :
    ∃ result, checkTriggers randR now activeTriggers bk respAddress c = some result := by
  obtain ⟨pass, hpass, -⟩ := foldlM_defined
    (f := TriggerPass.visit randR now activeTriggers bk respAddress)
    (l := c.triggersOf bk.bucket)
    (s := { state := c, out := [], visited := [], triggeredName := [] })
    (Q := fun pass : TriggerPass => pass.state.bucketKeyAddressMap = c.bucketKeyAddressMap)
    (by
      intro pass t ht hsame
      have hlocated := h t ht
      rw [← hsame] at hlocated hvalid
      obtain ⟨pass', hpass'⟩ : ∃ pass',
          pass.visit randR now activeTriggers bk respAddress t = some pass' :=
        visit_defined hvalid hlocated
      exact ⟨pass', hpass', (visit_passed hpass').started.routed.keyAddresses.trans hsame⟩)
    rfl
  unfold checkTriggers
  rw [hpass]
  exact ⟨_, rfl⟩

/-! ## A request about one object -/

theorem notifyHandler_single {request : KeyNotifyRequest} {address : BucketKeyAddress}
    {ip nodeIp : Address} (haddresses : request.addresses = [address]) (hips : address.ips = [ip])
    (hip : ipOfAddress ip = some nodeIp) (happ : (c.bucketAppMap address.bucket).isSome)
    (randR : RandR) (now : TimePoint) :
    notifyHandler randR now c request =
      checkTriggers randR now request.activeTriggerNames address.bucketKey
        request.responseAddress
        (recordObject c address.bucketKey ip nodeIp address.payload) := by
  have hexists : ¬ (address.payload = [] ∧ c.bucketAppMap address.bucket = none) := by
    rintro ⟨-, hnone⟩
    rw [hnone] at happ
    cases happ
  unfold notifyHandler
  rw [haddresses]
  simp only [notifyAddresses, hips, List.head?_cons, if_neg hexists, hip, Option.bind_some,
    List.nil_append]
  exact Option.bind_fun_some _

end Pheromone.Coordinator
