import Pheromone.Coordinator.Registry
import Pheromone.Scheduler.Comm
import Pheromone.Lib.Channel
import Pheromone.Lib.Transition

/-!
# A coordinator that announces applications and triggers

The coordinator handles registrations, trigger operations, bucket operations and
status reports.  What it broadcasts waits in one FIFO channel for each node.
-/

namespace Pheromone.Cluster

open Lib Common Coordinator Scheduler

variable {ip ip' : Address} {k k' : RegistryCluster} {now : Stamp}

structure RegistryCluster where
  coord : CoordState
  nodes : Address → SchedState
  /-- The updates that a node has not received yet, oldest first. -/
  channels : Address → List UpdateCoordMsg

inductive RegistryEvent
  | register (now : TimePoint) (registration : AppRegistration)
  | triggerOp (now : TimePoint) (request : TriggerOperationRequest)
  | bucketOp (request : BucketOperationRequest)
  | status (msg : UpdateStatusMessage)
  | deliver (ip : Address) (now : Stamp)

def updatesFor (ip : Address) (outs : List CoordOut) : List UpdateCoordMsg :=
  outs.filterMap fun out =>
    match out with
    | .update address msg => if address = triggerUpdateAddress ip then some msg else none
    | _ => none

namespace RegistryCluster

def handled (k : RegistryCluster) (result : CoordState × List CoordOut) : RegistryCluster :=
  { k with
    coord := result.1
    channels := fun ip => k.channels ip ++ updatesFor ip result.2 }

def step (k : RegistryCluster) : RegistryEvent → Option RegistryCluster
  | .register now registration => (appRegisterHandler now k.coord registration).map k.handled
  | .triggerOp now request => (triggerOpHandler now k.coord request).map k.handled
  | .bucketOp request => some (k.handled (bucketOpHandler k.coord request))
  | .status msg => some { k with coord := updateStatus k.coord msg }
  | .deliver ip now =>
      match k.channels ip with
      | [] => some k
      | msg :: rest =>
          (handleUpdate now msg (k.nodes ip)).map fun s =>
            { k with
              nodes := Function.update k.nodes ip s
              channels := Function.update k.channels ip rest }

theorem deliver_cases (h : k.step (.deliver ip now) = some k') :
    (k.channels ip = [] ∧ k' = k) ∨
      ∃ msg rest s, k.channels ip = msg :: rest ∧ handleUpdate now msg (k.nodes ip) = some s ∧
        k' = { k with
          nodes := Function.update k.nodes ip s
          channels := Function.update k.channels ip rest } := by
  simp only [step] at h
  split at h
  next hchannel => exact Or.inl ⟨hchannel, (Option.some.inj h).symm⟩
  next msg rest hchannel =>
    obtain ⟨s, hs, heq⟩ := Option.map_eq_some_iff.mp h
    exact Or.inr ⟨msg, rest, s, hchannel, hs, heq.symm⟩

theorem mem_channels_of_deliver {msg : UpdateCoordMsg} (h : k.step (.deliver ip now) = some k')
    (hmsg : msg ∈ k'.channels ip') : msg ∈ k.channels ip' := by
  rcases deliver_cases h with ⟨_, rfl⟩ | ⟨first, rest, s, hchannel, _, rfl⟩
  · exact hmsg
  · exact mem_of_mem_update_rest hchannel hmsg

def members (k : RegistryCluster) : List Address := k.coord.nodeStatusMap.keys

end RegistryCluster

/-! ## Who gets a broadcast -/

theorem triggerUpdateAddress_inj :
    triggerUpdateAddress ip = triggerUpdateAddress ip' ↔ ip = ip' := by
  unfold triggerUpdateAddress tcpAddress
  constructor
  · intro h
    exact List.append_cancel_left (List.append_cancel_right (List.append_cancel_right h))
  · intro h
    rw [h]

theorem updatesFor_append (ip : Address) (outs outs' : List CoordOut) :
    updatesFor ip (outs ++ outs') = updatesFor ip outs ++ updatesFor ip outs' :=
  List.filterMap_append

theorem updatesFor_map (ip : Address) (msg : UpdateCoordMsg) {ips : List Address}
    (hnodup : ips.Nodup) :
    updatesFor ip (ips.map fun a => .update (triggerUpdateAddress a) msg) =
      if ip ∈ ips then [msg] else [] := by
  induction ips with
  | nil => simp [updatesFor]
  | cons a ips ih =>
    rw [List.nodup_cons] at hnodup
    have hsplit : updatesFor ip ((a :: ips).map fun a => .update (triggerUpdateAddress a) msg) =
        updatesFor ip [.update (triggerUpdateAddress a) msg] ++
          updatesFor ip (ips.map fun a => .update (triggerUpdateAddress a) msg) :=
      updatesFor_append ip [_] _
    rw [hsplit, ih hnodup.2]
    by_cases hip : ip = a
    · subst hip
      rw [if_neg hnodup.1]
      simp [updatesFor]
    · have hhead : updatesFor ip [.update (triggerUpdateAddress a) msg] = [] := by
        simp [updatesFor, triggerUpdateAddress_inj, Ne.symm hip]
      rw [hhead, List.nil_append]
      simp only [List.mem_cons, hip, false_or]

theorem updatesFor_broadcast (ip : Address) (c : CoordState) (msg : UpdateCoordMsg) :
    updatesFor ip (broadcast c msg) = if ip ∈ c.nodeStatusMap.keys then [msg] else [] := by
  have hmap : broadcast c msg = c.nodeStatusMap.keys.map fun a =>
      .update (triggerUpdateAddress a) msg := by
    simp [broadcast, UMap.keys]
  rw [hmap]
  exact updatesFor_map ip msg c.nodeStatusMap.nodup

end Pheromone.Cluster
