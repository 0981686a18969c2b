import Pheromone.Common.Completion

/-!
# Re-execution for a set

Besides the keys that have arrived, a `BySetTrigger` remembers the last call of the source
function of each key, in one map for all sessions under the key followed by the session.
As sessions have one length, every session has a view of its own, and a call concerns the
view of its session only.
-/

namespace Pheromone.Common

open Lib

inductive SetCall
  | arrive (object : BucketKey)
  | notify (funcName : Name) (session : Session) (funcArgs : List Bytes) (argFlag : Int)
  | rerun (session : Session)
  | clear (session : Session)

inductive SetAnswer
  | actions (actions : List TriggerAction)
  | functions (functions : List TriggerFunctionMetadata)
  | done
  deriving DecidableEq

variable {calls : List SetCall} {session' : Session} {c : SetCall} {key : Key} {t : BySetTrigger}

namespace SetCall

def session : SetCall → Session
  | .arrive object => object.session
  | .notify _ session _ _ | .rerun session | .clear session => session

/-- The session has the length of generated ones. -/
def Sized (call : SetCall) : Prop := call.session.length = 16

def IsClear : SetCall → Prop
  | .clear _ => True
  | _ => False

end SetCall

theorem append_session_inj {key' : Key} {session : Session} (h : session.length = 16)
    (h' : session'.length = 16) :
    key ++ session = key' ++ session' ↔ key = key' ∧ session = session' := by
  constructor
  · intro heq
    exact List.append_inj' heq (h.trans h'.symm)
  · rintro ⟨rfl, rfl⟩
    rfl

/-! ## One session -/

/-- What a trigger has of one session: the keys that it counts, and the last call of the
source function of a key. -/
structure SetView where
  prepared : Finset Key
  status : Map Key TriggerFunctionMetadata

/-- What stays as it is: the keys, the key of each source function, and whether there are
source functions at all. -/
structure SetConfig where
  keySet : USet Key
  sourceKey : Name → Key
  active : Bool

namespace SetView

def fresh : SetView := ⟨∅, Map.empty⟩

def call (target : Name) (config : SetConfig) (view : SetView) : SetCall → SetView × SetAnswer
  | .arrive object =>
      if object.key ∈ config.keySet then
        let prepared := insert object.key view.prepared
        let status := view.status.erase object.key
        if prepared.card = config.keySet.size then
          (⟨∅, status⟩, .actions [BySetTrigger.completion target config.keySet object.session])
        else (⟨prepared, status⟩, .actions [])
      else (view, .actions [])
  | .notify funcName _ funcArgs argFlag =>
      (if config.active then
        { view with
          status := view.status.set (config.sourceKey funcName) { funcName, funcArgs, argFlag } }
        else view, .done)
  | .rerun _ =>
      (view, .functions (if config.active then config.keySet.elems.filterMap view.status else []))
  | .clear _ => (⟨∅, view.status.erase []⟩, .done)

end SetView

namespace BySetTrigger

def call (target : Name) (t : BySetTrigger) : SetCall → BySetTrigger × SetAnswer
  | .arrive object => (t.actionForNewObject target object).map id .actions
  | .notify funcName session funcArgs argFlag =>
      (t.notifySourceFunc funcName session funcArgs argFlag, .done)
  | .rerun session => (t, .functions (t.actionForRerun session))
  | .clear session => (t.clear session, .done)

def view (t : BySetTrigger) (session : Session) : SetView :=
  ⟨t.prepared session, fun key => t.sessionStatusCache (key ++ session)⟩

def config (t : BySetTrigger) : SetConfig where
  keySet := t.keySet
  sourceKey := fun funcName => t.funcKeyMap.getD funcName []
  active := decide (t.funcKeyMap.entries ≠ [])

variable (target : Name)

theorem status_set {session : Session} (hsession : session.length = 16)
    (hsession' : session'.length = 16) (cache : StatusCache) (key : Key)
    (metadata : TriggerFunctionMetadata) :
    (fun key' => Map.set cache (key ++ session) metadata (key' ++ session')) =
      if session' = session then
        Map.set (fun key' => cache (key' ++ session)) key metadata
      else fun key' => cache (key' ++ session') := by
  funext key'
  simp only [Map.set_apply, append_session_inj hsession' hsession]
  by_cases hsame : session' = session
  · subst hsame
    simp [Map.set_apply]
  · simp [hsame]

theorem status_erase {session : Session} (hsession : session.length = 16)
    (hsession' : session'.length = 16) (cache : StatusCache) (key : Key) :
    (fun key' => Map.erase cache (key ++ session) (key' ++ session')) =
      if session' = session then Map.erase (fun key' => cache (key' ++ session)) key
      else fun key' => cache (key' ++ session') := by
  funext key'
  simp only [Map.erase_apply, append_session_inj hsession' hsession]
  by_cases hsame : session' = session
  · subst hsame
    simp [Map.erase_apply]
  · simp [hsame]

theorem view_call_arrive (t : BySetTrigger) (object : BucketKey) :
    (t.view object.session).call target t.config (.arrive object) =
      if object.key ∈ t.keySet then
        if (insert object.key (t.prepared object.session)).card = t.keySet.size then
          (⟨∅, (t.view object.session).status.erase object.key⟩,
            .actions [completion target t.keySet object.session])
        else (⟨insert object.key (t.prepared object.session),
          (t.view object.session).status.erase object.key⟩, .actions [])
      else (t.view object.session, .actions []) := rfl

theorem view_arrive (t : BySetTrigger) {object : BucketKey} (hobject : object.session.length = 16)
    {session : Session} (hsession : session.length = 16) :
    (t.actionForNewObject target object).1.view session =
      if session = object.session then
        ((t.view object.session).call target t.config (.arrive object)).1
      else t.view session := by
  have hstatus := status_erase hobject hsession t.sessionStatusCache object.key
  rw [view_call_arrive, actionForNewObject_eq]
  by_cases hmem : object.key ∈ t.keySet
  · rw [if_pos hmem, if_pos hmem]
    by_cases hall : (insert object.key (t.prepared object.session)).card = t.keySet.size
    · rw [if_pos hall, if_pos hall]
      simp only [view, prepared, Map.getD_erase, hstatus]
      split <;> rfl
    · rw [if_neg hall, if_neg hall]
      simp only [view, prepared, Map.getD_set, hstatus]
      split <;> rfl
  · rw [if_neg hmem, if_neg hmem]
    split
    next hsame => rw [hsame]
    · rfl

theorem view_notify (t : BySetTrigger) (funcName : Name) {session : Session}
    (hsession : session.length = 16) (hsession' : session'.length = 16) (funcArgs : List Bytes)
    (argFlag : Int) :
    (t.notifySourceFunc funcName session funcArgs argFlag).view session' =
      if session' = session then
        ((t.view session).call target t.config (.notify funcName session funcArgs argFlag)).1
      else t.view session' := by
  have hstatus := status_set hsession hsession' t.sessionStatusCache
    (t.funcKeyMap.getD funcName []) { funcName, funcArgs, argFlag }
  unfold notifySourceFunc SetView.call
  simp only [config, view]
  by_cases hempty : t.funcKeyMap.entries = []
  · simp only [hempty, if_true]
    split
    next hsame => simp [hsame]
    · rfl
  · simp only [if_neg hempty, prepared, hstatus]
    split
    next hsame => simp [hsame, hempty]
    · rfl

theorem view_clear (t : BySetTrigger) {session : Session} (hsession : session.length = 16)
    (hsession' : session'.length = 16) :
    (t.clear session).view session' =
      if session' = session then ⟨∅, (t.view session).status.erase []⟩
      else t.view session' := by
  have hstatus := status_erase hsession hsession' t.sessionStatusCache []
  rw [List.nil_append] at hstatus
  unfold clear view
  simp only [prepared, Map.getD_erase, hstatus]
  split <;> rfl

theorem config_call (t : BySetTrigger) (c : SetCall) : (t.call target c).1.config = t.config := by
  cases c with
  | arrive object =>
    simp only [call, actionForNewObject]
    split
    · split <;> rfl
    · rfl
  | notify funcName session funcArgs argFlag =>
    simp only [call, notifySourceFunc]
    split
    · rfl
    next hentries =>
      have htouch : (t.funcKeyMap.touch funcName []).entries ≠ [] :=
        UMap.entries_set_ne_nil _ _ _
      simp [config, hentries, htouch]
  | rerun session => rfl
  | clear session => rfl

theorem call_spec (t : BySetTrigger) (hc : c.Sized) :
    (t.call target c).2 = ((t.view c.session).call target t.config c).2 ∧
      ∀ session, session.length = 16 → (t.call target c).1.view session =
        if session = c.session then ((t.view c.session).call target t.config c).1
        else t.view session := by
  cases c with
  | arrive object =>
    refine ⟨?_, fun session hsession => view_arrive target t hc hsession⟩
    change SetAnswer.actions (t.actionForNewObject target object).2 =
      ((t.view object.session).call target t.config (.arrive object)).2
    rw [view_call_arrive, actionForNewObject_eq]
    by_cases hmem : object.key ∈ t.keySet
    · rw [if_pos hmem, if_pos hmem]
      by_cases hall : (insert object.key (t.prepared object.session)).card = t.keySet.size
      · rw [if_pos hall, if_pos hall]
      · rw [if_neg hall, if_neg hall]
    · rw [if_neg hmem, if_neg hmem]
  | notify funcName session funcArgs argFlag =>
    exact ⟨rfl, fun session' hsession' =>
      view_notify target t funcName hc hsession' funcArgs argFlag⟩
  | rerun session =>
    constructor
    · simp [call, SetView.call, actionForRerun, config, view, SetCall.session]
    · intro session' _
      change t.view session' = if session' = session then t.view session else t.view session'
      split
      next hsame => rw [hsame]
      · rfl
  | clear session =>
    exact ⟨rfl, fun session' hsession' => view_clear t hc hsession'⟩

theorem view_call_of_ne (t : BySetTrigger) (hc : c.Sized) {session : Session}
    (hsession : session.length = 16) (hne : c.session ≠ session) :
    (t.call target c).1.view session = t.view session := by
  rw [(call_spec target t hc).2 session hsession, if_neg (Ne.symm hne)]

theorem view_call_self (t : BySetTrigger) (hc : c.Sized) :
    (t.call target c).1.view c.session = ((t.view c.session).call target t.config c).1 := by
  rw [(call_spec target t hc).2 c.session hc, if_pos rfl]

theorem config_stateAfter (t : BySetTrigger) (calls : List SetCall) :
    (stateAfter (call target) t calls).config = t.config :=
  stateAfter_invariant (Q := fun u => u.config = t.config)
    (fun u c hu => (config_call target u c).trans hu) rfl calls

theorem view_new (keySet : USet Key) (metadata : List RerunMetadata) (session : Session) :
    ((new keySet).setRerunMetadata metadata).view session = .fresh := rfl

theorem actionForRerun_eq (t : BySetTrigger) (session : Session) :
    t.actionForRerun session =
      if t.config.active then t.keySet.elems.filterMap (t.view session).status else [] := by
  unfold actionForRerun config view
  by_cases h : t.funcKeyMap.entries = [] <;> simp [h]

end BySetTrigger

/-! ## What a session can tell -/

/-- The views answer the calls of their session alike from now on. -/
structure SetView.Alike (config : SetConfig) (view view' : SetView) : Prop where
  prepared : view.prepared = view'.prepared
  status : config.active = true → ∀ key ∈ config.keySet, view.status key = view'.status key

theorem SetView.Alike.call {config : SetConfig} {view view' : SetView}
    (h : Alike config view view') (target : Name) (c : SetCall) :
    Alike config (view.call target config c).1 (view'.call target config c).1 ∧
      (view.call target config c).2 = (view'.call target config c).2 := by
  have herase : ∀ key, config.active = true → ∀ key' ∈ config.keySet,
      view.status.erase key key' = view'.status.erase key key' := by
    intro key hactive key' hkey'
    rw [Map.erase_apply, Map.erase_apply, h.status hactive key' hkey']
  cases c with
  | arrive object =>
    simp only [SetView.call, h.prepared]
    split
    · split
      · exact ⟨⟨rfl, herase object.key⟩, rfl⟩
      · exact ⟨⟨rfl, herase object.key⟩, rfl⟩
    · exact ⟨h, rfl⟩
  | notify funcName session funcArgs argFlag =>
    refine ⟨?_, rfl⟩
    simp only [SetView.call]
    split
    · refine ⟨h.prepared, fun hactive key hkey => ?_⟩
      simp only [Map.set_apply, h.status hactive key hkey]
    · exact h
  | rerun session =>
    refine ⟨h, ?_⟩
    simp only [SetView.call]
    split
    next hactive => rw [List.filterMap_congr (h.status hactive)]
    · rfl
  | clear session => exact ⟨⟨rfl, herase []⟩, rfl⟩

theorem SetView.alike_fresh {config : SetConfig} (hkeys : [] ∉ config.keySet) {view : SetView}
    (h : config.active = true → config.keySet.elems.filterMap view.status = []) :
    Alike config ⟨∅, view.status.erase []⟩ fresh := by
  refine ⟨rfl, fun hactive key hkey => ?_⟩
  have hne : key ≠ [] := by
    rintro rfl
    exact hkeys hkey
  calc view.status.erase [] key
      = view.status key := Map.erase_of_ne _ hne
    _ = none := List.filterMap_eq_nil_iff.mp (h hactive) key hkey

namespace BySetTrigger

variable (target : Name)

def answersFor (t : BySetTrigger) (calls : List SetCall) (session : Session) : List SetAnswer :=
  ((trace (call target) t calls).filter fun entry => decide (entry.1.session = session)).map
    Prod.snd

theorem answersFor_other {t' : BySetTrigger} {session : Session} (hconfig : t.config = t'.config)
    (hview : ∀ other, other.length = 16 → other ≠ session → t.view other = t'.view other)
    (hcalls : ∀ c ∈ calls, c.Sized) {other : Session} (hother : other ≠ session) :
    answersFor target t calls other = answersFor target t' calls other := by
  refine congrArg (List.map Prod.snd) (@trace_filter_eq _ _ _ (call target)
    (fun u u' => u.config = u'.config ∧
      ∀ other, other.length = 16 → other ≠ session → u.view other = u'.view other)
    SetCall.Sized (fun c => decide (c.session = other)) ?_ ?_ _ hcalls _ _ ⟨hconfig, hview⟩)
  · rintro u u' c hc ⟨hconf, hviews⟩
    refine ⟨by rw [config_call, config_call, hconf], fun other hlen hne => ?_⟩
    by_cases hsame : c.session = other
    · subst hsame
      rw [view_call_self target u hc, view_call_self target u' hc, hconf, hviews _ hlen hne]
    · rw [view_call_of_ne target u hc hlen hsame, view_call_of_ne target u' hc hlen hsame,
        hviews other hlen hne]
  · rintro u u' c hc ⟨hconf, hviews⟩ hkind
    have hsame : c.session = other := of_decide_eq_true hkind
    rw [(call_spec target u hc).1, (call_spec target u' hc).1, hconf,
      hviews _ hc (hsame ▸ hother)]

theorem answersFor_of_alike {t' : BySetTrigger} {session : Session} (hsession : session.length = 16)
    (hconfig : t.config = t'.config) (hview : (t.view session).Alike t.config (t'.view session))
    (hcalls : ∀ c ∈ calls, c.Sized) :
    answersFor target t calls session = answersFor target t' calls session := by
  refine congrArg (List.map Prod.snd) (@trace_filter_eq _ _ _ (call target)
    (fun u u' => u.config = u'.config ∧ (u.view session).Alike u.config (u'.view session))
    SetCall.Sized (fun c => decide (c.session = session)) ?_ ?_ _ hcalls _ _ ⟨hconfig, hview⟩)
  · rintro u u' c hc ⟨hconf, halike⟩
    rw [config_call, config_call]
    refine ⟨hconf, ?_⟩
    by_cases hsame : c.session = session
    · subst hsame
      rw [view_call_self target u hc, view_call_self target u' hc, ← hconf]
      exact (halike.call target c).1
    · rw [view_call_of_ne target u hc hsession hsame, view_call_of_ne target u' hc hsession hsame]
      exact halike
  · rintro u u' c hc ⟨hconf, halike⟩ hkind
    obtain rfl : c.session = session := of_decide_eq_true hkind
    rw [(call_spec target u hc).1, (call_spec target u' hc).1, ← hconf]
    exact (halike.call target c).2

theorem answersFor_rerun (t : BySetTrigger) (session : Session) :
    answersFor target t [.rerun session] session = [.functions (t.actionForRerun session)] := by
  simp [answersFor, trace, outputs_cons, call, SetCall.session]

theorem actionForRerun_new (keySet : USet Key) (metadata : List RerunMetadata)
    (session : Session) :
    ((new keySet).setRerunMetadata metadata).actionForRerun session = [] := by
  rw [actionForRerun_eq, view_new]
  split
  · exact List.filterMap_eq_nil_iff.mpr fun _ _ => rfl
  · rfl

theorem actionForRerun_clear (hkeys : [] ∉ t.keySet) (session : Session) :
    (t.clear session).actionForRerun session = t.actionForRerun session := by
  have hstatus : ∀ key ∈ t.keySet.elems,
      Map.erase t.sessionStatusCache session (key ++ session) =
        t.sessionStatusCache (key ++ session) := by
    intro key hkey
    apply Map.erase_of_ne
    intro heq
    rw [List.append_left_eq_self.mp heq] at hkey
    exact hkeys hkey
  unfold actionForRerun clear
  rw [List.filterMap_congr hstatus]

/-- Clearing a session leaves the answers to the other sessions as they are, and makes the
session new unless a call of it is remembered: the cache is erased at the session alone and
not at the keys followed by it. -/
theorem clear_fresh_iff {keySet : USet Key} (hkeys : [] ∉ keySet)
    (metadata : List RerunMetadata) (calls : List SetCall) {session : Session}
    (hsession : session.length = 16) :
    let start := (new keySet).setRerunMetadata metadata
    let t := stateAfter (call target) start calls
    (∀ later : List SetCall, (∀ c ∈ later, c.Sized ∧ ¬ c.IsClear) → ∀ other, other ≠ session →
        answersFor target (t.clear session) later other = answersFor target t later other) ∧
      ((∀ later : List SetCall, (∀ c ∈ later, c.Sized ∧ ¬ c.IsClear) →
          answersFor target (t.clear session) later session =
            answersFor target start later session) ↔
        t.actionForRerun session = []) := by
  intro start t
  have hconfig : t.config = start.config := config_stateAfter target start calls
  have hempty : [] ∉ t.config.keySet := by
    rw [hconfig]
    exact hkeys
  have hother : ∀ other, other.length = 16 → other ≠ session →
      (t.clear session).view other = t.view other := by
    intro other hlen hne
    rw [view_clear t hsession hlen, if_neg hne]
  have hself : (t.clear session).view session = ⟨∅, (t.view session).status.erase []⟩ := by
    rw [view_clear t hsession hsession, if_pos rfl]
  refine ⟨fun later hlater other hne => ?_, fun h => ?_, fun h later hlater => ?_⟩
  · have hclear : (t.clear session).config = t.config := rfl
    exact answersFor_other target hclear hother (fun c hc => (hlater c hc).1) hne
  · -- a single request for the calls to repeat shows what is left
    have hone := h [.rerun session] (by
      intro c hc
      rw [List.mem_singleton.mp hc]
      exact ⟨hsession, id⟩)
    rw [answersFor_rerun, answersFor_rerun, actionForRerun_new,
      actionForRerun_clear hempty] at hone
    injection List.head_eq_of_cons_eq hone
  · have hclear : (t.clear session).config = start.config := hconfig
    refine answersFor_of_alike target hsession hclear ?_ fun c hc => (hlater c hc).1
    rw [hself, view_new]
    refine SetView.alike_fresh hempty fun hactive => ?_
    rw [actionForRerun_eq, if_pos hactive] at h
    exact h

/-- A function of the set is called, the session is cleared, and the call is still
repeated. -/
theorem clear_keeps_call :
    let session := List.replicate 16 48
    let start := (new (USet.ofList [[107]])).setRerunMetadata [⟨[102], [107], 0⟩]
    let t := stateAfter (call [103]) start [.notify [102] session [] 0]
    answersFor [103] (t.clear session) [.rerun session] session ≠
      answersFor [103] start [.rerun session] session := by
  decide +kernel

theorem clear_fresh_iff_arrived :
    let session := List.replicate 16 48
    let start := (new (USet.ofList [[107], [108]])).setRerunMetadata [⟨[102], [107], 0⟩]
    let t := stateAfter (call [103]) start
      [.notify [102] session [] 0, .arrive ⟨[98], [107], session⟩]
    t.actionForRerun session = [] ∧
      answersFor [103] (t.clear session) [.arrive ⟨[98], [108], session⟩] session =
        answersFor [103] start [.arrive ⟨[98], [108], session⟩] session := by
  intro session start t
  have hnone : t.actionForRerun session = [] := by decide +kernel
  have hlater : ∀ c ∈ [SetCall.arrive ⟨[98], [108], session⟩], c.Sized ∧ ¬ c.IsClear := by
    intro c hc
    rw [List.mem_singleton.mp hc]
    exact ⟨rfl, id⟩
  exact ⟨hnone, (clear_fresh_iff [103] (by decide) [⟨[102], [107], 0⟩] _ rfl).2.mpr hnone _ hlater⟩

end BySetTrigger

/-! ## Which calls are repeated -/

/-- The call is a notification of one of the `sources` of a key or an arrival of the key. -/
def SetCall.concerns (sources : Name → Bool) (key : Key) (session : Session) : SetCall → Bool
  | .arrive object => decide (object.key = key ∧ object.session = session)
  | .notify funcName session' _ _ => sources funcName && decide (session' = session)
  | .rerun _ | .clear _ => false

def SetCall.record : SetCall → Option TriggerFunctionMetadata
  | .notify funcName _ funcArgs argFlag => some { funcName, funcArgs, argFlag }
  | _ => none

/-- The latest notification of the `sources` of a key for a session, if the key has not
arrived after it. -/
def missing (sources : Name → Bool) (key : Key) (session : Session) (calls : List SetCall) :
    Option TriggerFunctionMetadata :=
  (calls.reverse.find? (SetCall.concerns sources key session)).bind SetCall.record

theorem missing_append (sources : Name → Bool) (key : Key) (session : Session)
    (calls : List SetCall) (c : SetCall) :
    missing sources key session (calls ++ [c]) =
      if c.concerns sources key session then c.record else missing sources key session calls := by
  unfold missing
  rw [List.reverse_append, List.reverse_singleton, List.singleton_append, List.find?_cons]
  cases c.concerns sources key session <;> rfl

theorem missing_source {sources : Name → Bool} {session : Session}
    {metadata : TriggerFunctionMetadata} (h : missing sources key session calls = some metadata) :
    sources metadata.funcName = true := by
  obtain ⟨c, hfind, hrecord⟩ := Option.bind_eq_some_iff.mp h
  have hc := List.find?_some hfind
  cases c with
  | notify funcName session' funcArgs argFlag =>
    cases hrecord
    exact (Bool.and_eq_true_iff.mp hc).1
  | arrive object => cases hrecord
  | rerun session' => cases hrecord
  | clear session' => cases hrecord

theorem missing_eq_none {sources : Name → Bool} (h : ∀ funcName, sources funcName = false)
    (key : Key) (session : Session) (calls : List SetCall) :
    missing sources key session calls = none := by
  apply Option.eq_none_iff_forall_ne_some.mpr
  intro metadata hmetadata
  have hsource := missing_source hmetadata
  rw [h] at hsource
  cases hsource

theorem SetView.status_call {config : SetConfig} (hactive : config.active = true)
    (hkey : key ∈ config.keySet) (target : Name) (view : SetView) (hc : ¬ c.IsClear) :
    (view.call target config c).1.status key =
      if c.concerns (fun funcName => decide (config.sourceKey funcName = key)) key c.session then
        c.record
      else view.status key := by
  cases c with
  | arrive object =>
    have hstatus : ((view.call target config (.arrive object)).1.status key) =
        if object.key ∈ config.keySet then view.status.erase object.key key
        else view.status key := by
      simp only [SetView.call]
      split
      · split <;> rfl
      · rfl
    rw [hstatus, Map.erase_apply]
    by_cases heq : object.key = key
    · subst heq
      simp [SetCall.concerns, SetCall.session, SetCall.record, hkey]
    · simp [SetCall.concerns, heq, Ne.symm heq]
  | notify funcName session funcArgs argFlag =>
    simp only [SetView.call, hactive, if_true, Map.set_apply, SetCall.concerns,
      SetCall.session, SetCall.record, decide_true, Bool.and_true, decide_eq_true_eq]
    simp only [eq_comm]
  | rerun session => rfl
  | clear session => exact absurd trivial hc

namespace BySetTrigger

variable (target : Name)

theorem status_stateAfter (hactive : t.config.active = true)
    (hnone : ∀ session, (t.view session).status = Map.empty) (hkey : key ∈ t.config.keySet)
    {session : Session} (hsession : session.length = 16)
    (hcalls : ∀ c ∈ calls, c.Sized ∧ ¬ c.IsClear) :
    ((stateAfter (call target) t calls).view session).status key =
      missing (fun funcName => decide (t.config.sourceKey funcName = key)) key session calls := by
  induction calls using List.reverseRecOn with
  | nil =>
    rw [stateAfter_nil, hnone]
    rfl
  | append_singleton calls c ih =>
    have hbefore := ih fun c' hc' => hcalls c' (List.mem_append_left _ hc')
    obtain ⟨hsized, hclear⟩ := hcalls c (by simp)
    have hconfig := config_stateAfter target t calls
    rw [stateAfter_append, stateAfter_cons, stateAfter_nil, missing_append, ← hbefore]
    by_cases hsame : c.session = session
    · subst hsame
      rw [view_call_self target _ hsized, hconfig,
        SetView.status_call hactive hkey target _ hclear]
    · have hother : c.concerns (fun funcName => decide (t.config.sourceKey funcName = key)) key
          session = false := by
        cases c with
        | arrive object => exact decide_eq_false fun h => hsame h.2
        | notify funcName session' funcArgs argFlag =>
          exact Bool.and_eq_false_imp.mpr fun _ => decide_eq_false hsame
        | rerun session' => rfl
        | clear session' => rfl
      rw [view_call_of_ne target _ hsized hsession hsame, hother]
      rfl

end BySetTrigger

def Produces (metadata : List RerunMetadata) (funcName : Name) (key : Key) : Prop :=
  ∃ entry ∈ metadata, entry.sourceFunc = funcName ∧ entry.sourceKey = key

instance (metadata : List RerunMetadata) (funcName : Name) (key : Key) :
    Decidable (Produces metadata funcName key) :=
  inferInstanceAs (Decidable (∃ entry ∈ metadata, _))

theorem find?_foldl_sources {metadata : List RerunMetadata}
    (hfuncs : (metadata.map RerunMetadata.sourceFunc).Nodup) (m : UMap Name Key)
    (funcName : Name) (key : Key) :
    (metadata.foldl (fun m rerun => m.set rerun.sourceFunc rerun.sourceKey) m).find? funcName =
        some key ↔
      Produces metadata funcName key ∨
        funcName ∉ metadata.map RerunMetadata.sourceFunc ∧ m.find? funcName = some key := by
  induction metadata generalizing m with
  | nil => simp [Produces]
  | cons entry metadata ih =>
    obtain ⟨hentry, hrest⟩ := List.nodup_cons.mp hfuncs
    rw [List.foldl_cons, ih hrest, UMap.find?_set]
    by_cases heq : funcName = entry.sourceFunc
    · subst heq
      have hnot : ¬ Produces metadata entry.sourceFunc key := by
        rintro ⟨other, hmem, hfunc, -⟩
        exact hentry (hfunc ▸ List.mem_map_of_mem hmem)
      have hcons : Produces (entry :: metadata) entry.sourceFunc key ↔
          entry.sourceKey = key := by
        constructor
        · rintro ⟨other, hmem, hfunc, hkey⟩
          rcases List.mem_cons.mp hmem with rfl | hmem
          · exact hkey
          · exact absurd ⟨other, hmem, hfunc, hkey⟩ hnot
        · intro hkey
          exact ⟨entry, List.mem_cons_self, rfl, hkey⟩
      simp [hnot, hcons, hentry]
    · have hcons : Produces (entry :: metadata) funcName key ↔
          Produces metadata funcName key := by
        simp [Produces, Ne.symm heq]
      simp [hcons, heq]

namespace BySetTrigger

variable (target : Name)

section Metadata

variable {metadata : List RerunMetadata}
  (hfuncs : (metadata.map RerunMetadata.sourceFunc).Nodup)
  (hkeys : ∀ entry ∈ metadata, entry.sourceKey ≠ [])
include hfuncs

theorem find?_setRerunMetadata (keySet : USet Key) (funcName : Name) (key : Key) :
    ((new keySet).setRerunMetadata metadata).funcKeyMap.find? funcName = some key ↔
      Produces metadata funcName key :=
  (find?_foldl_sources hfuncs UMap.empty funcName key).trans (by simp [UMap.find?, UMap.empty])

theorem active_setRerunMetadata (keySet : USet Key) :
    ((new keySet).setRerunMetadata metadata).config.active = decide (metadata ≠ []) := by
  cases metadata with
  | nil => rfl
  | cons entry metadata =>
    have hfind := (find?_setRerunMetadata hfuncs keySet entry.sourceFunc entry.sourceKey).mpr
      ⟨entry, List.mem_cons_self, rfl, rfl⟩
    have hentries := List.ne_nil_of_mem (UMap.find?_eq_some_iff.mp hfind)
    simp [config, hentries]

include hkeys

theorem sourceKey_setRerunMetadata (keySet : USet Key) (funcName : Name) (key : Key) :
    ((new keySet).setRerunMetadata metadata).config.sourceKey funcName = key ↔
      if key = [] then funcName ∉ metadata.map RerunMetadata.sourceFunc
      else Produces metadata funcName key := by
  have hfind := find?_setRerunMetadata hfuncs keySet funcName
  have hlisted : funcName ∈ metadata.map RerunMetadata.sourceFunc ↔
      ∃ key, Produces metadata funcName key := by
    simp only [List.mem_map, Produces]
    constructor
    · rintro ⟨entry, hmem, hfunc⟩
      exact ⟨entry.sourceKey, entry, hmem, hfunc, rfl⟩
    · rintro ⟨_, entry, hmem, hfunc, -⟩
      exact ⟨entry, hmem, hfunc⟩
  change ((UMap.find? _ funcName).getD []) = key ↔ _
  simp only [hlisted, ← hfind]
  cases hcase : ((new keySet).setRerunMetadata metadata).funcKeyMap.find? funcName with
  | none => simp [eq_comm]
  | some found =>
    have hne : found ≠ [] := by
      obtain ⟨entry, hmem, -, rfl⟩ := (hfind found).mp hcase
      exact hkeys entry hmem
    by_cases hkey : key = []
    · simp [hkey, hne]
    · simp [hkey]

theorem actionForRerun_stateAfter (hsome : metadata ≠ []) (keySet : USet Key) {session : Session}
    (hsession : session.length = 16) (hcalls : ∀ c ∈ calls, c.Sized ∧ ¬ c.IsClear) :
    (stateAfter (call target) ((new keySet).setRerunMetadata metadata) calls).actionForRerun
        session =
      keySet.elems.filterMap (fun key =>
        missing (fun funcName => decide (if key = [] then
          funcName ∉ metadata.map RerunMetadata.sourceFunc
          else Produces metadata funcName key)) key session calls) := by
  have hconfig := config_stateAfter target ((new keySet).setRerunMetadata metadata) calls
  have hset : (stateAfter (call target) ((new keySet).setRerunMetadata metadata) calls).keySet =
      keySet := congrArg SetConfig.keySet hconfig
  have hactive : ((new keySet).setRerunMetadata metadata).config.active = true := by
    rw [active_setRerunMetadata hfuncs]
    exact decide_eq_true hsome
  rw [actionForRerun_eq, hconfig, hset, if_pos hactive]
  apply List.filterMap_congr
  intro key hkey
  rw [status_stateAfter target hactive (fun _ => rfl) hkey hsession hcalls]
  simp only [sourceKey_setRerunMetadata hfuncs hkeys]

/-- The calls to repeat for a session are, key by key, the latest notification of a source of
the key if the key has not arrived after it.  It is so unless the empty key is in the set and
a function without an entry waits for it. -/
theorem actionForRerun_missing_iff (keySet : USet Key) {session : Session}
    (hsession : session.length = 16) {calls : List SetCall}
    (hcalls : ∀ c ∈ calls, c.Sized ∧ ¬ c.IsClear) :
    (stateAfter (call target) ((new keySet).setRerunMetadata metadata) calls).actionForRerun
        session =
        keySet.elems.filterMap (fun key =>
          missing (fun funcName => decide (Produces metadata funcName key)) key session calls) ↔
      ([] ∈ keySet → metadata ≠ [] →
        missing (fun funcName => decide (funcName ∉ metadata.map RerunMetadata.sourceFunc)) []
          session calls = none) := by
  by_cases hempty : metadata = []
  · subst hempty
    refine iff_of_true ?_ fun _ h => absurd rfl h
    have hinactive := active_setRerunMetadata hfuncs keySet
    rw [actionForRerun_eq, config_stateAfter, hinactive]
    refine (List.filterMap_eq_nil_iff.mpr fun key _ => ?_).symm
    exact missing_eq_none (fun funcName => by simp [Produces]) key session calls
  · rw [actionForRerun_stateAfter target hfuncs hkeys hempty keySet hsession hcalls]
    constructor
    · -- a function without an entry would be returned, and it is a source of nothing
      intro heq hmem _
      refine Option.eq_none_iff_forall_ne_some.mpr fun record hrecord => ?_
      have hreturned : record ∈ keySet.elems.filterMap (fun key =>
          missing (fun funcName => decide (Produces metadata funcName key)) key session calls) := by
        rw [← heq]
        exact List.mem_filterMap.mpr ⟨[], hmem, by simpa using hrecord⟩
      obtain ⟨key, -, hkey⟩ := List.mem_filterMap.mp hreturned
      obtain ⟨entry, hentry, hfunc, -⟩ := of_decide_eq_true (missing_source hkey)
      exact of_decide_eq_true (missing_source hrecord) (hfunc ▸ List.mem_map_of_mem hentry)
    · intro hnone
      apply List.filterMap_congr
      intro key hkey
      by_cases hnil : key = []
      · subst hnil
        have hsources : ∀ funcName, decide (Produces metadata funcName []) = false := by
          intro funcName
          apply decide_eq_false
          rintro ⟨entry, hentry, -, hnil⟩
          exact hkeys entry hentry hnil
        rw [missing_eq_none hsources]
        simpa using hnone hkey hempty
      · simp only [hnil, if_false]

end Metadata

/-- With the empty key in the set, a function that produces no key of it is called again. -/
theorem rerun_of_stranger :
    let session := List.replicate 16 48
    let metadata : List RerunMetadata := [⟨[102], [107], 0⟩]
    let calls : List SetCall := [.notify [103] session [] 0]
    (stateAfter (call [104]) ((new (USet.ofList [[], [107]])).setRerunMetadata metadata)
        calls).actionForRerun session = [⟨[103], [], 0⟩] ∧
      (USet.ofList [[], [107]]).elems.filterMap (fun key =>
        missing (fun funcName => decide (Produces metadata funcName key)) key session calls) =
        [] := by
  decide +kernel

/-- The source of the key that has not arrived again is called again, in its latest form. -/
theorem actionForRerun_missing_iff_round :
    let session := List.replicate 16 48
    let metadata : List RerunMetadata := [⟨[102], [107], 0⟩, ⟨[103], [108], 0⟩]
    let calls : List SetCall := [.notify [102] session [] 0, .notify [103] session [] 0,
      .arrive ⟨[98], [107], session⟩, .notify [103] session [[49]] 0]
    (stateAfter (call [104]) ((new (USet.ofList [[107], [108]])).setRerunMetadata metadata)
        calls).actionForRerun session = [⟨[103], [[49]], 0⟩] := by
  intro session metadata calls
  have hcalls : ∀ c ∈ calls, c.Sized ∧ ¬ c.IsClear := by
    simp [calls, SetCall.Sized, SetCall.session, SetCall.IsClear, session]
  exact ((actionForRerun_missing_iff [104] (by decide) (by decide) (USet.ofList [[107], [108]])
    (by decide) hcalls).mpr fun h => absurd h (by decide)).trans (by decide +kernel)

end BySetTrigger

end Pheromone.Common
