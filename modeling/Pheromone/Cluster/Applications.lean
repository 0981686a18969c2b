import Pheromone.Client.Coordinators
import Pheromone.Coordinator.Proofs.Deletion

/-!
# The coordinator of an application

The clients, the manager and the threads of the coordinators.  A client sends every message
about an application to the thread that `get_coord` returns, and all messages are under way
for any time and in any order.  The buckets of an application are then known to one thread
alone.
-/

namespace Pheromone.Cluster

open Lib Common Coordinator Manager Client

abbrev CoordAddress := Address × UInt32

structure AppCluster where
  lookup : CoordLookup
  coords : CoordAddress → CoordState
  /-- The messages of clients that are under way. -/
  mail : List (CoordAddress × CoordEvent) := []

inductive AppEvent
  | manager (e : ManagerEvent)
  /-- A client asks for the coordinator of an application and sends a message about it. -/
  | request (client : ClientId) (appName : Name) (e : CoordEvent)
    (named : e.application = some appName)
  /-- A message of a client arrives. -/
  | deliver (i : Nat)
  /-- A thread handles any other message. -/
  | coord (address : CoordAddress) (e : CoordEvent) (other : e.application = none)

namespace AppCluster

def start (seed : UInt32) (coords : CoordAddress → CoordState) : AppCluster where
  lookup := .new seed
  coords := coords

def handle (randR : RandR) (k : AppCluster) (address : CoordAddress) (e : CoordEvent) :
    Option AppCluster :=
  (coordStep randR (k.coords address) e).map fun c =>
    { k with coords := Function.update k.coords address c }

def step (env : ManagerEnv) (randR : RandR) (k : AppCluster) : AppEvent → Option AppCluster
  | .manager e =>
      (managerStep env k.lookup.manager e).map fun m =>
        { k with lookup := { k.lookup with manager := m } }
  | .request client appName e _ =>
      (getCoord env client appName k.lookup).map fun lookup =>
        -- get_coord returns the entry that it finds or makes in app_coord_map_
        { k with
          lookup := lookup
          mail := k.mail ++ (lookup.caches client appName).toList.map fun address => (address, e) }
  | .deliver i =>
      match k.mail[i]? with
      | none => some k
      | some (address, e) => { k with mail := k.mail.eraseIdx i }.handle randR address e
  | .coord address e _ => k.handle randR address e

def assigned (k : AppCluster) (app : Name) : Option CoordAddress :=
  k.lookup.manager.state.appCoordMap app

/-- The messages about an application and its buckets are with the thread that it is assigned
to. -/
structure Placed (env : ManagerEnv) (seed : UInt32) (k : AppCluster) : Prop where
  agrees : Agrees env seed k.lookup
  owned : ∀ address, (k.coords address).TriggersOwned
  mail : ∀ address e app, (address, e) ∈ k.mail → e.application = some app →
    k.assigned app = some address
  buckets : ∀ address bucket app, (k.coords address).bucketAppMap bucket = some app →
    k.assigned app = some address

variable {env : ManagerEnv} {seed : UInt32} {randR : RandR} {k k' : AppCluster}

theorem Placed.handle {address : CoordAddress} {e : CoordEvent} (hk : Placed env seed k)
    (he : ∀ app, e.application = some app → k.assigned app = some address)
    (h : k.handle randR address e = some k') : Placed env seed k' := by
  obtain ⟨c, hc, rfl⟩ := Option.map_eq_some_iff.mp h
  obtain ⟨⟨_, outs⟩, hmsg, rfl⟩ := Option.map_eq_some_iff.mp hc
  refine ⟨hk.agrees, ?_, hk.mail, ?_⟩
  · apply (Function.forall_update_iff k.coords fun _ c => c.TriggersOwned).mpr
    exact ⟨(coordStep_owners hc (hk.owned address)).1, fun address' _ => hk.owned address'⟩
  · apply (Function.forall_update_iff k.coords fun address c => ∀ bucket app,
      c.bucketAppMap bucket = some app → k.assigned app = some address).mpr
    refine ⟨fun bucket app howner => ?_, fun address' _ => hk.buckets address'⟩
    rcases handleMessage_owner hmsg (hk.owned address) bucket with hold | hnone | ⟨-, hnamed⟩
    · exact hk.buckets address bucket app (hold.symm.trans howner)
    · exact absurd (hnone.symm.trans howner) nofun
    · exact he app (hnamed.symm.trans howner)

theorem Placed.step {e : AppEvent} (hk : Placed env seed k) (h : k.step env randR e = some k') :
    Placed env seed k' := by
  cases e with
  | manager e =>
    obtain ⟨m, hm, rfl⟩ := Option.map_eq_some_iff.mp h
    exact ⟨hk.agrees.managerStep hm, hk.owned,
      fun address e app hmem he =>
        managerStep_keeps_assignment hm (hk.mail address e app hmem he),
      fun address bucket app howner =>
        managerStep_keeps_assignment hm (hk.buckets address bucket app howner)⟩
  | request client appName e named =>
    obtain ⟨lookup, hlookup, rfl⟩ := Option.map_eq_some_iff.mp h
    have hagrees := hk.agrees.getCoord hlookup
    refine ⟨hagrees, hk.owned, fun address e' app hmem he => ?_, fun address bucket app howner =>
      getCoord_keeps_assignment hlookup (hk.buckets address bucket app howner)⟩
    rcases List.mem_append.mp hmem with hmem | hmem
    · exact getCoord_keeps_assignment hlookup (hk.mail address e' app hmem he)
    · obtain ⟨address', hcache, heq⟩ := List.mem_map.mp hmem
      cases heq
      cases named.symm.trans he
      exact hagrees.caches client appName address (Option.mem_toList.mp hcache)
  | deliver i =>
    simp only [AppCluster.step] at h
    split at h
    · cases h
      exact hk
    next address e hmail =>
      have hrest : Placed env seed { k with mail := k.mail.eraseIdx i } :=
        ⟨hk.agrees, hk.owned, fun address e app hmem => hk.mail address e app
          ((List.eraseIdx_sublist _ _).subset hmem), hk.buckets⟩
      exact hrest.handle
        (fun app happ => hk.mail address e app (List.mem_of_getElem? hmail) happ) h
  | coord address e other =>
    refine hk.handle (fun app happ => ?_) h
    rw [other] at happ
    cases happ

/-- In every run, no two threads have buckets of the same application. -/
theorem application_on_one_coordinator (env : ManagerEnv) (randR : RandR) (seed : UInt32)
    (ips : CoordAddress → Address) (ioThreads : CoordAddress → Nat)
    (seeds : CoordAddress → UInt32) (es : List AppEvent) :
    Throughout (step env randR) (fun k => ∀ address address' bucket bucket' app,
      (k.coords address).bucketAppMap bucket = some app →
        (k.coords address').bucketAppMap bucket' = some app → address = address')
      (start seed fun address => .new (ips address) address.2.toNat (ioThreads address + 1)
        (Nat.succ_pos _) (seeds address)) es := by
  have hstart : Placed env seed (start seed fun address => .new (ips address) address.2.toNat
      (ioThreads address + 1) (Nat.succ_pos _) (seeds address)) := by
    refine ⟨.new env seed, fun _ bucket htriggers => absurd rfl htriggers,
      fun _ _ _ hmem => absurd hmem List.not_mem_nil, fun address bucket app howner => ?_⟩
    cases howner
  refine throughout_of_along (fun k hk address address' bucket bucket' app howner howner' => ?_)
    (fun _ _ _ hk _ hstep => hk.step hstep) hstart (along_true _ _)
  have hassigned := hk.buckets address bucket app howner
  rw [hk.buckets address' bucket' app howner'] at hassigned
  exact (Option.some.inj hassigned).symm

end AppCluster

end Pheromone.Cluster
