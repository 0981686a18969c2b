import Pheromone.Coordinator.Proofs.Ownership

/-!
# What a registration needs and adds

`app_register_handler` reads a target of every dependency other than `DIRECT`, and the
description of some.  It adds triggers to the buckets of the targets, after those that
are there.
-/

namespace Pheromone.Coordinator

open Lib Common

variable {now : TimePoint} {acc acc' : CoordState × UpdateCoordMsg} {appName : Name}
  {c : CoordState} {registration : AppRegistration}

/-! ## Registrations that are handled -/

/-- The description of a dependency is one that its type asks for. -/
def Described (dependency : DataDependency) : Prop :=
  match dependency.type with
  | .kOutOfN => ∃ k n rest, Bytes.split 44 dependency.description = k :: n :: rest ∧
      (Bytes.stoi k).isSome ∧ (Bytes.stoi n).isSome
  | .periodic => (Bytes.stoi dependency.description).isSome
  | _ => True

theorem triggerOfDependency_isSome_iff (now : TimePoint) (dependency : DataDependency)
    (tgtFunction : Name) :
    (triggerOfDependency now dependency tgtFunction).isSome ↔ Described dependency := by
  unfold triggerOfDependency Described
  cases dependency.type with
  | direct => simp
  | manyToOne => simp
  | kOutOfN =>
    simp only
    split
    next k n rest hsplit =>
      rw [hsplit]
      have hparsed : (∃ k' n' rest', k :: n :: rest = k' :: n' :: rest' ∧
          (Bytes.stoi k').isSome ∧ (Bytes.stoi n').isSome) ↔
            (Bytes.stoi k).isSome ∧ (Bytes.stoi n).isSome := by
        constructor
        · rintro ⟨k', n', rest', heq, hk, hn⟩
          cases heq
          exact ⟨hk, hn⟩
        · intro h
          exact ⟨k, n, rest, rfl, h⟩
      rw [hparsed]
      cases Bytes.stoi k <;> cases Bytes.stoi n <;> simp
    next hshort =>
      constructor
      · intro h
        cases h
      · rintro ⟨k, n, rest, hsplit, -⟩
        exact absurd hsplit (hshort k n rest)
  | periodic =>
    cases Bytes.stoi dependency.description <;> simp
  | unrecognized number => simp

theorem registerDependency_isSome_iff (now : TimePoint) (appName : Name)
    (acc : CoordState × UpdateCoordMsg) (dependency : DataDependency) :
    (registerDependency now appName acc dependency).isSome ↔
      (dependency.type ≠ .direct → dependency.tgtFunctions ≠ [] ∧ Described dependency) := by
  unfold registerDependency
  simp only
  by_cases hdirect : dependency.type = .direct
  · rw [if_pos hdirect]
    simp [hdirect]
  · rw [if_neg hdirect]
    cases htgt : dependency.tgtFunctions with
    | nil => simp [hdirect]
    | cons tgt rest =>
      simp only [List.head?_cons, Option.bind_eq_bind, Option.bind_some]
      rw [← triggerOfDependency_isSome_iff now dependency tgt]
      cases triggerOfDependency now dependency tgt with
      | none => simp [hdirect]
      | some trigger => cases trigger <;> simp

theorem appRegisterHandler_isSome_iff (now : TimePoint) (c : CoordState)
    (registration : AppRegistration) :
    (appRegisterHandler now c registration).isSome ↔
      ∀ d ∈ registration.dependencies,
        d.type ≠ .direct → d.tgtFunctions ≠ [] ∧ Described d := by
  unfold appRegisterHandler
  rw [Option.isSome_map]
  exact foldlM_isSome_iff (registerDependency_isSome_iff now registration.appName) _ _

/-! ## What is added -/

def dependencyTriggers (now : TimePoint) (dependency : DataDependency) (bucket : Bucket) :
    List Trigger :=
  if dependency.type = .direct then []
  else
    match dependency.tgtFunctions.head? with
    | none => []
    | some tgt =>
        if bucketOfTarget tgt = bucket then
          (triggerOfDependency now dependency tgt).join.toList
        else []

def dependencyEntities (now : TimePoint) (dependency : DataDependency) : List TriggerEntity :=
  if dependency.type = .direct then []
  else
    match dependency.tgtFunctions.head? with
    | none => []
    | some tgt =>
        (triggerOfDependency now dependency tgt).toList.map (entityOf (bucketOfTarget tgt))

theorem registerDependency_adds {dependency : DataDependency}
    (h : registerDependency now appName acc dependency = some acc') :
    (∀ b, acc'.1.triggersOf b = acc.1.triggersOf b ++ dependencyTriggers now dependency b) ∧
      acc'.2.triggers = acc.2.triggers ++ dependencyEntities now dependency := by
  unfold dependencyTriggers dependencyEntities
  rcases registerDependency_cases h with ⟨hdirect, rfl⟩ |
    ⟨hdirect, tgt, trigger, htgt, htrigger, rfl⟩
  · simp [hdirect]
  · simp only [if_neg hdirect, htgt, htrigger]
    exact ⟨fun b => triggersOf_addDependency .., rfl⟩

theorem registerDependency_foldlM_adds {dependencies : List DataDependency}
    (h : dependencies.foldlM (registerDependency now appName) acc = some acc') :
    (∀ b, acc'.1.triggersOf b =
        acc.1.triggersOf b ++ dependencies.flatMap fun d => dependencyTriggers now d b) ∧
      acc'.2.triggers = acc.2.triggers ++ dependencies.flatMap (dependencyEntities now) := by
  induction dependencies generalizing acc with
  | nil =>
    cases h
    simp
  | cons d dependencies ih =>
    obtain ⟨acc₁, hstep, h⟩ := foldlM_cons_eq_some.mp h
    obtain ⟨htriggers₁, hentities₁⟩ := registerDependency_adds hstep
    obtain ⟨htriggers, hentities⟩ := ih h
    refine ⟨fun b => ?_, ?_⟩
    · rw [htriggers, htriggers₁, List.append_assoc, List.flatMap_cons]
    · rw [hentities, hentities₁, List.append_assoc, List.flatMap_cons]

theorem appRegisterHandler_adds {c' : CoordState} {outs : List CoordOut}
    (h : appRegisterHandler now c registration = some (c', outs)) :
    (∀ b, c'.triggersOf b =
        c.triggersOf b ++ registration.dependencies.flatMap fun d => dependencyTriggers now d b) ∧
      ∃ msg, outs = broadcast c' msg ∧
        msg.triggers = registration.dependencies.flatMap (dependencyEntities now) := by
  obtain ⟨⟨c₁, msg⟩, hfold, heq⟩ := Option.map_eq_some_iff.mp h
  cases heq
  obtain ⟨htriggers, hentities⟩ := registerDependency_foldlM_adds hfold
  exact ⟨htriggers, msg, rfl, hentities⟩

theorem appRegisterHandler_again {now₁ : TimePoint} {c₁ : CoordState} {outs₁ : List CoordOut}
    (h : appRegisterHandler now₁ c registration = some (c₁, outs₁)) (now₂ : TimePoint) :
    ∃ c₂ outs₂, appRegisterHandler now₂ c₁ registration = some (c₂, outs₂) ∧
      c₂.bucketAppMap = c₁.bucketAppMap := by
  have hsome : (appRegisterHandler now₂ c₁ registration).isSome := by
    rw [appRegisterHandler_isSome_iff, ← appRegisterHandler_isSome_iff now₁ c, h]
    rfl
  obtain ⟨⟨c₂, outs₂⟩, h₂⟩ := Option.isSome_iff_exists.mp hsome
  refine ⟨c₂, outs₂, h₂, ?_⟩
  funext b
  rw [(appRegisterHandler_registers h₂).owner]
  split
  next hmem => rw [(appRegisterHandler_registers h).owner, if_pos hmem]
  · rfl

end Pheromone.Coordinator
