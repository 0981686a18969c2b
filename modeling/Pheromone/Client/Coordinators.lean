import Pheromone.Manager.Proofs.Assignment

/-!
# The coordinator of an application at the clients

`PheromoneClient::get_coord` asks the manager for the coordinator of an application and
remembers the answer.  An application is registered, called and changed through that
coordinator, so all clients have to get the same one.
-/

namespace Pheromone.Client

open Lib Common Manager

abbrev ClientId := Nat

/-- The manager, the `app_coord_map_` of every client, and what `get_coord` has returned. -/
structure CoordLookup where
  manager : ManagerLog
  caches : ClientId → Map Name (Address × UInt32) := fun _ => Map.empty
  returned : List (ClientId × Name × Address × UInt32) := []

def CoordLookup.new (seed : UInt32) : CoordLookup where
  manager := .new seed

/-- `get_coord`; the client waits for the response of the manager. -/
def getCoord (env : ManagerEnv) (client : ClientId) (appName : Name) (k : CoordLookup) :
    Option CoordLookup :=
  match k.caches client appName with
  | some coord => some { k with returned := k.returned ++ [(client, appName, coord)] }
  | none =>
      let query : CoordQuery := { application := appName }
      (coordQuery env query k.manager.state).map fun result =>
        let coord := (result.2.coordIp, result.2.threadId)
        { manager :=
            { state := result.1, handled := k.manager.handled ++ [.answered query result.2] }
          caches := Function.update k.caches client ((k.caches client).set appName coord)
          returned := k.returned ++ [(client, appName, coord)] }

inductive LookupEvent
  | manager (e : ManagerEvent)
  | getCoord (client : ClientId) (appName : Name)

def lookupStep (env : ManagerEnv) (k : CoordLookup) : LookupEvent → Option CoordLookup
  | .manager e => (managerStep env k.manager e).map fun m => { k with manager := m }
  | .getCoord client appName => getCoord env client appName k

variable {env : ManagerEnv} {seed : UInt32} {m m' : ManagerLog} {k k' : CoordLookup}
  {client : ClientId} {app : Name} {coord : Address × UInt32}

/-! ## Assignments stay -/

theorem managerStep_keeps_assignment {e : ManagerEvent} (h : managerStep env m e = some m')
    (hcoord : m.state.appCoordMap app = some coord) : m'.state.appCoordMap app = some coord := by
  rcases managerStep_cases h with ⟨msg, rfl, rfl⟩ | ⟨query, assigned, rfl, -, rfl⟩ |
    ⟨query, assigned, seed, rfl, hnone, -, rfl⟩ | ⟨coords, coordIps, rfl, -, rfl⟩
  · exact hcoord
  · exact hcoord
  · have hne : app ≠ query.application := by
      rintro rfl
      rw [hnone] at hcoord
      cases hcoord
    exact (Map.set_of_ne _ _ hne).trans hcoord
  · exact hcoord

theorem coordQuery_assigned {query : CoordQuery} {result : ManagerState × CoordResponse}
    (h : coordQuery env query m.state = some result) :
    result.1.appCoordMap query.application = some (result.2.coordIp, result.2.threadId) := by
  obtain ⟨assigned, hassigned, rfl⟩ := Option.map_eq_some_iff.mp h
  unfold assignCoord at hassigned
  split at hassigned
  next hcoord =>
    cases hassigned
    exact hcoord
  · obtain ⟨pick, -, rfl⟩ := Option.map_eq_some_iff.mp hassigned
    exact Map.set_self _ _ _

theorem getCoord_cases (h : getCoord env client app k = some k') :
    (∃ coord, k.caches client app = some coord ∧
        k' = { k with returned := k.returned ++ [(client, app, coord)] }) ∨
      ∃ m' coord, managerStep env k.manager (.query { application := app }) = some m' ∧
        m'.state.appCoordMap app = some coord ∧
        k' = {
          manager := m'
          caches := Function.update k.caches client ((k.caches client).set app coord)
          returned := k.returned ++ [(client, app, coord)] } := by
  unfold getCoord at h
  split at h
  next coord hcache =>
    cases h
    exact Or.inl ⟨coord, hcache, rfl⟩
  · obtain ⟨result, hresult, rfl⟩ := Option.map_eq_some_iff.mp h
    refine Or.inr ⟨_, _, ?_, coordQuery_assigned hresult, rfl⟩
    rw [managerStep, hresult, Option.map_some]

theorem getCoord_keeps_assignment {app' : Name} (h : getCoord env client app' k = some k')
    (hcoord : k.manager.state.appCoordMap app = some coord) :
    k'.manager.state.appCoordMap app = some coord := by
  rcases getCoord_cases h with ⟨coord, -, rfl⟩ | ⟨m', coord, hstep, -, rfl⟩
  · exact hcoord
  · exact managerStep_keeps_assignment hstep hcoord

/-! ## The clients agree -/

/-- The manager runs as it does alone, and the clients have its assignments. -/
structure Agrees (env : ManagerEnv) (seed : UInt32) (k : CoordLookup) : Prop where
  manager : ∃ es, run (managerStep env) (.new seed) es = some k.manager
  caches : ∀ client app coord, k.caches client app = some coord →
    k.manager.state.appCoordMap app = some coord
  returned : ∀ client app coord, (client, app, coord) ∈ k.returned →
    k.manager.state.appCoordMap app = some coord

theorem Agrees.managerStep {e : ManagerEvent} (hk : Agrees env seed k)
    (h : managerStep env k.manager e = some m') : Agrees env seed { k with manager := m' } where
  manager := by
    obtain ⟨es, hrun⟩ := hk.manager
    refine ⟨es ++ [e], run_append_eq_some.mpr ⟨k.manager, hrun, ?_⟩⟩
    rw [run, h]
    rfl
  caches := fun client app coord hcache =>
    managerStep_keeps_assignment h (hk.caches client app coord hcache)
  returned := fun client app coord hmem =>
    managerStep_keeps_assignment h (hk.returned client app coord hmem)

theorem Agrees.return (hk : Agrees env seed k)
    (hcoord : k.manager.state.appCoordMap app = some coord) :
    Agrees env seed { k with returned := k.returned ++ [(client, app, coord)] } where
  manager := hk.manager
  caches := hk.caches
  returned := by
    intro client' app' coord' hmem
    rcases List.mem_append.mp hmem with hmem | hmem
    · exact hk.returned client' app' coord' hmem
    · cases List.mem_singleton.mp hmem
      exact hcoord

theorem Agrees.cache (hk : Agrees env seed k)
    (hcoord : k.manager.state.appCoordMap app = some coord) :
    Agrees env seed { k with
      caches := Function.update k.caches client ((k.caches client).set app coord) } where
  manager := hk.manager
  caches := by
    intro client' app' coord' hcache
    change Function.update k.caches client _ client' app' = some coord' at hcache
    by_cases hclient : client' = client
    · subst hclient
      rw [Function.update_self, Map.set_apply] at hcache
      split at hcache
      next happ =>
        cases hcache
        rw [happ]
        exact hcoord
      · exact hk.caches client' app' coord' hcache
    · rw [Function.update_of_ne hclient] at hcache
      exact hk.caches client' app' coord' hcache
  returned := hk.returned

theorem Agrees.getCoord (hk : Agrees env seed k) (h : getCoord env client app k = some k') :
    Agrees env seed k' := by
  rcases getCoord_cases h with ⟨coord, hcache, rfl⟩ | ⟨m', coord, hstep, hcoord, rfl⟩
  · exact hk.return (hk.caches client app coord hcache)
  · exact ((hk.managerStep hstep).cache hcoord).return hcoord

theorem Agrees.step {e : LookupEvent} (hk : Agrees env seed k)
    (h : lookupStep env k e = some k') : Agrees env seed k' := by
  cases e with
  | manager e =>
    obtain ⟨m, hm, rfl⟩ := Option.map_eq_some_iff.mp h
    exact hk.managerStep hm
  | getCoord client app => exact hk.getCoord h

theorem Agrees.new (env : ManagerEnv) (seed : UInt32) : Agrees env seed (.new seed) :=
  ⟨⟨[], rfl⟩, fun _ _ _ => nofun, fun _ _ _ hmem => absurd hmem List.not_mem_nil⟩

/-- In every run, the clients get one coordinator for an application, whenever they ask, and it
has synced with the manager. -/
theorem clients_agree (env : ManagerEnv) (seed : UInt32) (es : List LookupEvent) :
    Throughout (lookupStep env) (fun k => ∀ client client' app coord coord',
      (client, app, coord) ∈ k.returned → (client', app, coord') ∈ k.returned →
        coord = coord' ∧ ∃ msg, .synced msg ∈ k.manager.handled ∧
          coord = (if env.externalUser then msg.publicIp else msg.privateIp, msg.threadId))
      (.new seed) es := by
  refine throughout_of_along (fun k hk client client' app coord coord' hcoord hcoord' => ?_)
    (fun _ _ _ hk _ hstep => Agrees.step hk hstep) (.new env seed) (along_true _ _)
  have hassigned := hk.returned client app coord hcoord
  have hassigned' := hk.returned client' app coord' hcoord'
  rw [hassigned] at hassigned'
  refine ⟨Option.some.inj hassigned', ?_⟩
  obtain ⟨es', hrun⟩ := hk.manager
  have htracks := (run_accounted hrun).tracks
  obtain ⟨before, after, hsplit, -, hoffer⟩ :=
    htracks.history.offered_before ((htracks.assigned_iff app coord).mp hassigned)
  have hmem : .offer coord ∈ k.manager.handled.map (Handled.assignEvent env) := by
    rw [hsplit]
    exact List.mem_append_left _ hoffer
  obtain ⟨x, hx, hknown⟩ := List.mem_map.mp hmem
  obtain ⟨msg, rfl, heq⟩ := assignEvent_eq_offer hknown
  exact ⟨msg, hx, heq⟩

end Pheromone.Client
