import Pheromone.Coordinator.Proofs.Registrations

/-!
# Registrations of the client library

`PheromoneClient::register_app` makes the message of a registration out of tuples of
source functions, target functions and a dependency type.  The message also has a
description for each dependency, which `app_register_handler` parses for some types and
which the client never fills.
-/

namespace Pheromone.Client

open Lib Common Coordinator

/-- `TUPLE` -/
structure DependencyTuple where
  sources : List Name
  targets : List Name
  type : DependencyType
  deriving DecidableEq, Repr

def DependencyTuple.dependency (d : DependencyTuple) : DataDependency :=
  { type := d.type, srcFunctions := d.sources, tgtFunctions := d.targets }

/-- `register_app` -/
def registerApp (appName : Name) (funcs : List Name) (dependencies : List DependencyTuple) :
    AppRegistration where
  appName := appName
  functions := funcs
  dependencies := dependencies.map DependencyTuple.dependency

/-! ## What the coordinator can handle -/

theorem described_dependency_iff (d : DependencyTuple) :
    Described d.dependency ↔ d.type ≠ .kOutOfN ∧ d.type ≠ .periodic := by
  obtain ⟨sources, targets, type⟩ := d
  unfold Described DependencyTuple.dependency
  cases type with
  | kOutOfN => simp [Bytes.split, Bytes.splitFrom]
  | periodic => simp [Bytes.stoi, Bytes.readDigits]
  | direct => simp
  | manyToOne => simp
  | unrecognized number => simp

/-- A registration of the client is handled unless it has a dependency whose type needs a
description. -/
theorem registerApp_handled_iff (now : TimePoint) (c : CoordState) (appName : Name)
    (funcs : List Name) (dependencies : List DependencyTuple)
    (htargets : ∀ d ∈ dependencies, d.targets ≠ []) :
    (appRegisterHandler now c (registerApp appName funcs dependencies)).isSome ↔
      ∀ d ∈ dependencies, d.type ≠ .kOutOfN ∧ d.type ≠ .periodic := by
  rw [appRegisterHandler_isSome_iff]
  unfold registerApp
  simp only [List.forall_mem_map]
  apply forall_congr'
  intro d
  apply imp_congr_right
  intro hd
  rw [← described_dependency_iff]
  constructor
  · intro h
    by_cases hdirect : d.type = .direct
    · rw [described_dependency_iff]
      simp [hdirect]
    · exact (h hdirect).2
  · intro h _
    exact ⟨htargets d hd, h⟩

def tupleOf (type : DependencyType) : DependencyTuple :=
  { sources := [Bytes.lit "f"], targets := [Bytes.lit "t"], type }

theorem registerApp_handled_join :
    let c := CoordState.new (Bytes.lit "10.0.0.1") 0 1 Nat.one_pos 0
    (∀ d ∈ [tupleOf .direct, tupleOf .manyToOne], d.targets ≠ []) ∧
      (appRegisterHandler 0 c (registerApp (Bytes.lit "app") [Bytes.lit "f", Bytes.lit "t"]
        [tupleOf .direct, tupleOf .manyToOne])).isSome := by
  intro c
  refine ⟨by decide, (registerApp_handled_iff 0 c _ _ _ (by decide)).mpr (by decide)⟩

/-- The two types that need a description end the coordinator: the first reads an element
of an empty vector, the second converts an empty string. -/
theorem registerApp_undescribed :
    let c := CoordState.new (Bytes.lit "10.0.0.1") 0 1 Nat.one_pos 0
    (tupleOf .kOutOfN).targets ≠ [] ∧ (tupleOf .periodic).targets ≠ [] ∧
      Bytes.split 44 (tupleOf .kOutOfN).dependency.description = [] ∧
      (appRegisterHandler 0 c
        (registerApp (Bytes.lit "app") [Bytes.lit "f"] [tupleOf .kOutOfN])).isNone ∧
      Bytes.stoi (tupleOf .periodic).dependency.description = none ∧
      (appRegisterHandler 0 c
        (registerApp (Bytes.lit "app") [Bytes.lit "f"] [tupleOf .periodic])).isNone := by
  decide +kernel

end Pheromone.Client
