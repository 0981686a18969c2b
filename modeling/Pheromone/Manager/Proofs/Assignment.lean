import Pheromone.Lib.AssignOnce
import Pheromone.Lib.Transition
import Pheromone.Manager.Run

/-!
# The assignment of coordinators

The manager assigns each application once, to a coordinator that is known at the first query,
and repeats the assignment from then on.  It has nothing to choose from when a query is the
first message of all.
-/

namespace Pheromone.Manager

open Lib Common

variable {c : Address × UInt32} {state : ManagerState} {x : Handled}

variable {env : ManagerEnv} {m m' : ManagerLog} {coord : CoordIp} {e : ManagerEvent}
  {es : List ManagerEvent}

/-! ## One step -/

theorem pickCoord_mem {pick : CoordIp × UInt32} (h : pickCoord env state = some pick) :
    pick.1 ∈ state.coordIps := by
  unfold pickCoord at h
  simp only at h
  split at h
  · cases h
  · obtain ⟨coord, hcoord, rfl⟩ := Option.map_eq_some_iff.mp h
    exact List.mem_of_getElem? hcoord

theorem pickCoord_isSome (h : coord ∈ state.coordIps) : (pickCoord env state).isSome := by
  have hpos : 0 < state.coordIps.size := List.length_pos_of_mem h
  have hlt : (env.randR state.seed).1 % state.coordIps.size < state.coordIps.elems.length :=
    Nat.mod_lt _ hpos
  unfold pickCoord
  simp only
  rw [if_neg (by omega), List.getElem?_eq_getElem hlt]
  rfl

def response (query : CoordQuery) (coord : Address × UInt32) : CoordResponse where
  coordIp := coord.1
  threadId := coord.2
  requestId := query.requestId

theorem managerStep_cases (h : managerStep env m e = some m') :
    (∃ msg, e = .sync msg ∧
        m' = { state := coordSync msg m.state, handled := m.handled ++ [.synced msg] }) ∨
      (∃ query coord, e = .query query ∧ m.state.appCoordMap query.application = some coord ∧
        m' = { m with handled := m.handled ++ [.answered query (response query coord)] }) ∨
      (∃ query coord seed, e = .query query ∧ m.state.appCoordMap query.application = none ∧
        coord ∈ m.state.coordIps ∧
        m' = {
          state := { m.state with
            appCoordMap := m.state.appCoordMap.set query.application (ipToSend env coord), seed }
          handled := m.handled ++ [.answered query (response query (ipToSend env coord))] }) ∨
      ∃ coords coordIps, e = .rehash coords ∧
        (∀ coord, coord ∈ coordIps ↔ coord ∈ m.state.coordIps) ∧
        m' = { m with state := { m.state with coordIps } } := by
  cases e with
  | sync msg =>
    cases h
    exact Or.inl ⟨msg, rfl, rfl⟩
  | query query =>
    obtain ⟨result, hresult, rfl⟩ := Option.map_eq_some_iff.mp h
    obtain ⟨assigned, hassigned, rfl⟩ := Option.map_eq_some_iff.mp hresult
    unfold assignCoord at hassigned
    cases hcoord : m.state.appCoordMap query.application with
    | some coord =>
      rw [hcoord] at hassigned
      cases hassigned
      exact Or.inr (Or.inl ⟨query, coord, rfl, hcoord, rfl⟩)
    | none =>
      rw [hcoord] at hassigned
      obtain ⟨pick, hpick, rfl⟩ := Option.map_eq_some_iff.mp hassigned
      exact Or.inr (Or.inr (Or.inl
        ⟨query, pick.1, pick.2, rfl, hcoord, pickCoord_mem hpick, rfl⟩))
  | rehash coords =>
    cases h
    right; right; right
    by_cases hperm : coords.elems.Perm m.state.coordIps.elems
    · refine ⟨coords, coords, rfl, fun coord => hperm.mem_iff, ?_⟩
      rw [if_pos hperm]
    · refine ⟨coords, m.state.coordIps, rfl, fun coord => Iff.rfl, ?_⟩
      rw [if_neg hperm]

/-! ## The history -/

def Handled.event : Handled → ManagerEvent
  | .synced msg => .sync msg
  | .answered query _ => .query query

def ManagerEvent.isMessage : ManagerEvent → Bool
  | .rehash _ => false
  | _ => true

def Handled.assignEvent (env : ManagerEnv) : Handled → AssignEvent Name (Address × UInt32)
  | .synced msg => .offer (if env.externalUser then msg.publicIp else msg.privateIp, msg.threadId)
  | .answered query response => .ask query.application (response.coordIp, response.threadId)

/-- The state of the manager is that of an assignment with the handled messages as its
history. -/
structure Accounted (env : ManagerEnv) (es : List ManagerEvent) (m : ManagerLog) : Prop where
  complete : m.handled.map Handled.event = es.filter ManagerEvent.isMessage
  ownId : ∀ query response, .answered query response ∈ m.handled →
    response.requestId = query.requestId
  tracks : Tracks m.state.appCoordMap
    (fun c => ∃ coord ∈ m.state.coordIps, ipToSend env coord = c)
    (m.handled.map (Handled.assignEvent env))

theorem Accounted.new (env : ManagerEnv) (seed : UInt32) : Accounted env [] (.new seed) where
  complete := rfl
  ownId := fun _ _ h => absurd h List.not_mem_nil
  tracks :=
    { history := .nil
      assigned_iff := fun _ _ => ⟨nofun, nofun⟩
      available_iff := fun _ =>
        ⟨fun ⟨coord, hcoord, _⟩ => absurd hcoord (USet.not_mem_empty coord), nofun⟩ }

theorem ownId_concat {handled : List Handled} {last : Handled}
    (h : ∀ query response, .answered query response ∈ handled →
      response.requestId = query.requestId)
    (hlast : ∀ query response, last = .answered query response →
      response.requestId = query.requestId) :
    ∀ query response, .answered query response ∈ handled ++ [last] →
      response.requestId = query.requestId := by
  intro query response hmem
  rcases List.mem_append.mp hmem with hmem | hmem
  · exact h query response hmem
  · exact hlast query response (List.mem_singleton.mp hmem).symm

theorem Accounted.step (hm : Accounted env es m) (h : managerStep env m e = some m') :
    Accounted env (es ++ [e]) m' := by
  rcases managerStep_cases h with ⟨msg, rfl, rfl⟩ | ⟨query, coord, rfl, hcoord, rfl⟩ |
    ⟨query, coord, seed, rfl, hnone, hcoord, rfl⟩ | ⟨coords, coordIps, rfl, hsame, rfl⟩
  · refine ⟨?_, ownId_concat hm.ownId nofun, ?_⟩
    · rw [List.map_append, List.filter_append, hm.complete]
      rfl
    · rw [List.map_append]
      apply hm.tracks.offer
      intro c
      simp only [coordSync, USet.mem_insert]
      constructor
      · rintro ⟨other, rfl | hother, rfl⟩
        · exact Or.inr rfl
        · exact Or.inl ⟨other, hother, rfl⟩
      · rintro (⟨other, hother, rfl⟩ | rfl)
        · exact ⟨other, Or.inr hother, rfl⟩
        · exact ⟨_, Or.inl rfl, rfl⟩
  · refine ⟨?_, ownId_concat hm.ownId ?_, ?_⟩
    · rw [List.map_append, List.filter_append, hm.complete]
      rfl
    · rintro query' response' ⟨⟩
      rfl
    · rw [List.map_append]
      exact hm.tracks.again hcoord
  · refine ⟨?_, ownId_concat hm.ownId ?_, ?_⟩
    · rw [List.map_append, List.filter_append, hm.complete]
      rfl
    · rintro query' response' ⟨⟩
      rfl
    · rw [List.map_append]
      exact hm.tracks.first hnone ⟨coord, hcoord, rfl⟩ (fun app => Map.set_apply _ _ _ _)
  · refine ⟨?_, hm.ownId, hm.tracks.history, hm.tracks.assigned_iff, fun c => ?_⟩
    · rw [List.filter_append, hm.complete]
      exact (List.append_nil _).symm
    · rw [← hm.tracks.available_iff]
      simp only [hsame]

theorem run_accounted {seed : UInt32} (h : run (managerStep env) (.new seed) es = some m) :
    Accounted env es m :=
  run_history (fun _ _ _ _ hm hstep => hm.step hstep) (Accounted.new env seed) h

/-! ## When the manager stops -/

theorem managerStep_keeps_coord (h : managerStep env m e = some m')
    (hcoord : coord ∈ m.state.coordIps) : coord ∈ m'.state.coordIps := by
  rcases managerStep_cases h with ⟨msg, rfl, rfl⟩ | ⟨query, assigned, rfl, -, rfl⟩ |
    ⟨query, assigned, seed, rfl, -, -, rfl⟩ | ⟨coords, coordIps, rfl, hsame, rfl⟩
  · exact USet.mem_insert.mpr (Or.inr hcoord)
  · exact hcoord
  · exact hcoord
  · exact (hsame coord).mpr hcoord

theorem managerStep_isSome (h : coord ∈ m.state.coordIps) (e : ManagerEvent) :
    (managerStep env m e).isSome := by
  cases e with
  | sync msg => rfl
  | query query =>
    unfold managerStep coordQuery assignCoord
    rw [Option.isSome_map, Option.isSome_map]
    split
    · rfl
    · rw [Option.isSome_map]
      exact pickCoord_isSome h
  | rehash coords => rfl

theorem run_isSome_of_coord (h : coord ∈ m.state.coordIps) (es : List ManagerEvent) :
    (run (managerStep env) m es).isSome := by
  refine @run_isSome_of_along _ _ _ (fun m => coord ∈ m.state.coordIps) (fun _ _ => True)
    (fun m e hm _ => ?_) m es h (along_true m es)
  obtain ⟨m', hm'⟩ := Option.isSome_iff_exists.mp (managerStep_isSome hm e)
  exact ⟨m', hm', managerStep_keeps_coord hm' hm⟩

theorem run_isSome_iff (hempty : ∀ coord, coord ∉ m.state.coordIps)
    (hnone : m.state.appCoordMap = Map.empty) (es : List ManagerEvent) :
    (run (managerStep env) m es).isSome ↔
      ∀ query, (es.filter ManagerEvent.isMessage).head? ≠ some (.query query) := by
  induction es generalizing m with
  | nil => simp
  | cons e es ih =>
    cases e with
    | sync msg =>
      have hknown : { publicIp := msg.publicIp, privateIp := msg.privateIp
                      threadId := msg.threadId } ∈ (coordSync msg m.state).coordIps :=
        USet.mem_insert.mpr (Or.inl rfl)
      constructor
      · intro _ query hquery
        cases hquery
      · intro _
        exact run_isSome_of_coord hknown es
    | query query =>
      have hsize : m.state.coordIps.size = 0 :=
        List.length_eq_zero_iff.mpr (List.eq_nil_iff_forall_not_mem.mpr hempty)
      have hstop : managerStep env m (.query query) = none := by
        simp [managerStep, coordQuery, assignCoord, pickCoord, hsize, hnone, Map.empty]
      rw [run, hstop]
      constructor
      · intro h
        cases h
      · intro h
        exact absurd rfl (h query)
    | rehash coords =>
      obtain ⟨m', hstep⟩ : ∃ m', managerStep env m (.rehash coords) = some m' := ⟨_, rfl⟩
      rw [run, hstep]
      rcases managerStep_cases hstep with ⟨msg, heq, -⟩ | ⟨query, coord, heq, -⟩ |
        ⟨query, coord, seed, heq, -⟩ | ⟨coords', coordIps, -, hsame, rfl⟩
      · cases heq
      · cases heq
      · cases heq
      · exact ih (fun coord hcoord => hempty coord ((hsame coord).mp hcoord)) hnone

/-! ## The result -/

/-- Every message is handled in its turn, every query is answered under its own id with a
coordinator thread that was known before the first query of the application, and the answers
for an application are the same. -/
structure AssignedForGood (env : ManagerEnv) (es : List ManagerEvent) (handled : List Handled) :
    Prop where
  complete : handled.map Handled.event = es.filter ManagerEvent.isMessage
  ownId : ∀ query response, .answered query response ∈ handled →
    response.requestId = query.requestId
  synced : ∀ query response, .answered query response ∈ handled →
    ∃ before first response' after,
      handled = before ++ .answered first response' :: after ∧
      first.application = query.application ∧
      (∀ other response'', .answered other response'' ∈ before →
        other.application ≠ query.application) ∧
      ∃ msg, .synced msg ∈ before ∧
        response.coordIp = (if env.externalUser then msg.publicIp else msg.privateIp) ∧
        response.threadId = msg.threadId
  equal : ∀ query response query' response', .answered query response ∈ handled →
    .answered query' response' ∈ handled → query.application = query'.application →
    response' = { response with requestId := query'.requestId }

theorem assignEvent_eq_ask {app : Name} (h : x.assignEvent env = .ask app c) :
    ∃ query response, x = .answered query response ∧ query.application = app ∧
      (response.coordIp, response.threadId) = c := by
  cases x with
  | synced msg => cases h
  | answered query response =>
    cases h
    exact ⟨query, response, rfl, rfl, rfl⟩

theorem assignEvent_eq_offer (h : x.assignEvent env = .offer c) :
    ∃ msg, x = .synced msg ∧
      c = (if env.externalUser then msg.publicIp else msg.privateIp, msg.threadId) := by
  cases x with
  | synced msg =>
    cases h
    exact ⟨msg, rfl, rfl⟩
  | answered query response => cases h

theorem ask_mem_of_answered {handled : List Handled} {query : CoordQuery}
    {response : CoordResponse} (h : .answered query response ∈ handled) :
    .ask query.application (response.coordIp, response.threadId) ∈
      handled.map (Handled.assignEvent env) :=
  List.mem_map.mpr ⟨_, h, rfl⟩

theorem Accounted.assignedForGood (h : Accounted env es m) :
    AssignedForGood env es m.handled where
  complete := h.complete
  ownId := h.ownId
  synced := by
    intro query response hmem
    obtain ⟨before, after, hsplit, hfirst, hoffer⟩ :=
      h.tracks.history.offered_before (ask_mem_of_answered hmem)
    -- the same place in the list of the handled messages
    obtain ⟨handled, rest, hhandled, rfl, hrest⟩ := List.map_eq_append_iff.mp hsplit
    obtain ⟨x, tail, rfl, hx, -⟩ := List.map_eq_cons_iff.mp hrest
    obtain ⟨first, response', rfl, happ, -⟩ := assignEvent_eq_ask hx
    obtain ⟨y, hy, hknown⟩ := List.mem_map.mp hoffer
    obtain ⟨msg, rfl, hcoord⟩ := assignEvent_eq_offer hknown
    obtain ⟨hip, hthread⟩ := Prod.mk.inj hcoord
    refine ⟨handled, first, response', tail, hhandled, happ, ?_, msg, hy, hip, hthread⟩
    intro other response'' hother heq
    have hask := @ask_mem_of_answered env _ _ _ hother
    rw [heq] at hask
    exact hfirst _ hask
  equal := by
    intro query response query' response' hmem hmem' happ
    have hask := @ask_mem_of_answered env _ _ _ hmem
    rw [happ] at hask
    have hagree := h.tracks.history.agree hask (ask_mem_of_answered hmem')
    obtain ⟨hip, hthread⟩ := Prod.mk.inj hagree
    rw [← h.ownId query' response' hmem', hip, hthread]

/-- The manager assigns every application for good, whatever the order of the messages, unless
a query comes before any coordinator is known. -/
theorem coordinators_assigned_iff (env : ManagerEnv) (seed : UInt32) (es : List ManagerEvent) :
    (∃ m, run (managerStep env) (.new seed) es = some m ∧ AssignedForGood env es m.handled) ↔
      ∀ query, (es.filter ManagerEvent.isMessage).head? ≠ some (.query query) := by
  rw [← run_isSome_iff (m := .new seed) USet.not_mem_empty rfl, Option.isSome_iff_exists]
  constructor
  · rintro ⟨m, hrun, -⟩
    exact ⟨m, hrun⟩
  · rintro ⟨m, hrun⟩
    exact ⟨m, hrun, (run_accounted hrun).assignedForGood⟩

def internalEnv : ManagerEnv where
  externalUser := false
  randR := fun seed => (seed.toNat, seed + 1)

def earlyQuery : CoordQuery where
  application := Bytes.lit "app"

theorem early_query_stops_manager :
    ¬ ∃ m, run (managerStep internalEnv) (.new 0) [.query earlyQuery] = some m ∧
      AssignedForGood internalEnv [.query earlyQuery] m.handled := by
  rintro ⟨m, hrun, -⟩
  cases hrun

end Pheromone.Manager
