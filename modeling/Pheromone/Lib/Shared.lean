import Mathlib.Data.List.Nodup
import Mathlib.Logic.Function.Basic

/-!
# Lists of shared objects

A map from keys to lists of shared pointers, `map<K, vector<shared_ptr<T>>>`,
whose objects may also be reached by pointers kept elsewhere.  Objects are never
freed here: an object that was taken out of its list stays reachable by the
other pointers to it.  A pointer stands in at most one list, and there once, so
that work on one list does not change another.
-/

namespace Pheromone.Lib

structure Shared (κ α : Type) where
  objects : List α
  pointers : κ → List Nat
  valid : ∀ k, ∀ p ∈ pointers k, p < objects.length
  nodup : ∀ k, (pointers k).Nodup
  disjoint : ∀ k k' p, p ∈ pointers k → p ∈ pointers k' → k = k'

namespace Shared

variable {κ α β : Type} [DecidableEq κ]

def empty : Shared κ α where
  objects := []
  pointers := fun _ => []
  valid := by simp
  nodup := by simp
  disjoint := by simp

def list (m : Shared κ α) (k : κ) : List α := (m.pointers k).filterMap (m.objects[·]?)

def modify (m : Shared κ α) (p : Nat) (f : α → α) : Shared κ α where
  objects := m.objects.modify p f
  pointers := m.pointers
  valid := fun k q hq => by
    rw [List.length_modify]
    exact m.valid k q hq
  nodup := m.nodup
  disjoint := m.disjoint

/-- `push_back` of a new object, which gets the pointer `m.objects.length`. -/
def push (m : Shared κ α) (k : κ) (a : α) : Shared κ α where
  objects := m.objects ++ [a]
  pointers := Function.update m.pointers k (m.pointers k ++ [m.objects.length])
  valid := fun k' p hp => by
    rw [List.length_append, List.length_singleton]
    by_cases hk : k' = k
    · subst hk
      rw [Function.update_self, List.mem_append, List.mem_singleton] at hp
      rcases hp with hp | rfl
      · have hlt := m.valid k' p hp
        omega
      · omega
    · rw [Function.update_of_ne hk] at hp
      have hlt := m.valid k' p hp
      omega
  nodup := fun k' => by
    by_cases hk : k' = k
    · subst hk
      rw [Function.update_self, List.nodup_append]
      refine ⟨m.nodup k', List.nodup_singleton _, ?_⟩
      intro p hp q hq heq
      have hlt := m.valid k' p hp
      rw [List.mem_singleton] at hq
      omega
    · rw [Function.update_of_ne hk]
      exact m.nodup k'
  disjoint := fun k₁ k₂ p h₁ h₂ => by
    have old : ∀ k', p ∈ Function.update m.pointers k (m.pointers k ++ [m.objects.length]) k' →
        p ∈ m.pointers k' ∨ (k' = k ∧ p = m.objects.length) := by
      intro k' hp
      by_cases hk : k' = k
      · subst hk
        rw [Function.update_self, List.mem_append, List.mem_singleton] at hp
        exact hp.imp id fun h => ⟨rfl, h⟩
      · rw [Function.update_of_ne hk] at hp
        exact Or.inl hp
    rcases old k₁ h₁ with hold₁ | hnew₁
    · rcases old k₂ h₂ with hold₂ | hnew₂
      · exact m.disjoint k₁ k₂ p hold₁ hold₂
      · have hlt := m.valid k₁ p hold₁
        omega
    · rcases old k₂ h₂ with hold₂ | hnew₂
      · have hlt := m.valid k₂ p hold₂
        omega
      · rw [hnew₁.1, hnew₂.1]

/-- Leave only the pointers `ps` in a list. -/
def restrict (m : Shared κ α) (k : κ) (ps : List Nat) (hsub : ps.Sublist (m.pointers k)) :
    Shared κ α where
  objects := m.objects
  pointers := Function.update m.pointers k ps
  valid := fun k' p hp => by
    by_cases hk : k' = k
    · subst hk
      rw [Function.update_self] at hp
      exact m.valid k' p (hsub.subset hp)
    · rw [Function.update_of_ne hk] at hp
      exact m.valid k' p hp
  nodup := fun k' => by
    by_cases hk : k' = k
    · subst hk
      rw [Function.update_self]
      exact hsub.nodup (m.nodup k')
    · rw [Function.update_of_ne hk]
      exact m.nodup k'
  disjoint := fun k₁ k₂ p h₁ h₂ => by
    have old : ∀ k', p ∈ Function.update m.pointers k ps k' → p ∈ m.pointers k' := by
      intro k' hp
      by_cases hk : k' = k
      · subst hk
        rw [Function.update_self] at hp
        exact hsub.subset hp
      · rwa [Function.update_of_ne hk] at hp
    exact m.disjoint k₁ k₂ p (old k₁ h₁) (old k₂ h₂)

/-- Whether the object behind a pointer satisfies `q`. -/
def holds (m : Shared κ α) (q : α → Bool) (p : Nat) : Bool := (m.objects[p]?).any q

/-- Erase the first object that satisfies `q` from its list.  `none` when there
is no such object. -/
def eraseFirst (m : Shared κ α) (k : κ) (q : α → Bool) : Option (Shared κ α) :=
  if (m.pointers k).any (m.holds q) then
    some (m.restrict k ((m.pointers k).eraseP (m.holds q)) List.eraseP_sublist)
  else none

/-- Run `f` on the objects behind the pointers `ps`, in order. -/
def visitPointers (f : α → α × β) : List Nat → Shared κ α → Shared κ α × List β
  | [], m => (m, [])
  | p :: ps, m =>
      match m.objects[p]? with
      | none => visitPointers f ps m
      | some a =>
          let rest := visitPointers f ps (m.modify p fun _ => (f a).1)
          (rest.1, (f a).2 :: rest.2)

def visit (m : Shared κ α) (k : κ) (f : α → α × β) : Shared κ α × List β :=
  visitPointers f (m.pointers k) m

/-! ## What the operations do to the lists -/

omit [DecidableEq κ] in
theorem list_modify_map {γ : Type} (m : Shared κ α) (k : κ) (p : Nat) (f : α → α) (g : α → γ)
    (hg : ∀ a, g (f a) = g a) : ((m.modify p f).list k).map g = (m.list k).map g := by
  unfold list modify
  rw [List.map_filterMap, List.map_filterMap]
  apply List.filterMap_congr
  intro q _
  rw [List.getElem?_modify]
  by_cases hq : p = q
  · cases m.objects[q]? with
    | none => simp
    | some a => simp [hq, hg]
  · simp [hq]

@[simp] theorem list_push_self (m : Shared κ α) (k : κ) (a : α) :
    (m.push k a).list k = m.list k ++ [a] := by
  unfold list push
  simp only [Function.update_self, List.filterMap_append]
  congr 1
  · apply List.filterMap_congr
    intro p hp
    rw [List.getElem?_append_left (m.valid k p hp)]
  · simp

theorem list_push_of_ne (m : Shared κ α) {k k' : κ} (a : α) (h : k' ≠ k) :
    (m.push k a).list k' = m.list k' := by
  unfold list push
  simp only [Function.update_of_ne h]
  apply List.filterMap_congr
  intro p hp
  rw [List.getElem?_append_left (m.valid k' p hp)]

omit [DecidableEq κ] in
@[simp] theorem visitPointers_pointers (f : α → α × β) (ps : List Nat) (m : Shared κ α) :
    (visitPointers f ps m).1.pointers = m.pointers := by
  induction ps generalizing m with
  | nil => rfl
  | cons p ps ih =>
    unfold visitPointers
    cases m.objects[p]? with
    | none => exact ih m
    | some a => exact ih (m.modify p fun _ => (f a).1)

omit [DecidableEq κ] in
theorem visitPointers_spec (f : α → α × β) (ps : List Nat) (m : Shared κ α) (hps : ps.Nodup) :
    (visitPointers f ps m).2 = (ps.filterMap (m.objects[·]?)).map (fun a => (f a).2) ∧
      ∀ q, (visitPointers f ps m).1.objects[q]? =
        if q ∈ ps then (m.objects[q]?).map (fun a => (f a).1) else m.objects[q]? := by
  induction ps generalizing m with
  | nil => simp [visitPointers]
  | cons p ps ih =>
    rw [List.nodup_cons] at hps
    unfold visitPointers
    cases hobj : m.objects[p]? with
    | none =>
      obtain ⟨hout, hobjects⟩ := ih m hps.2
      refine ⟨by simp [hout, hobj], fun q => ?_⟩
      simp only [hobjects q, List.mem_cons]
      by_cases hq : q = p
      · subst hq
        simp [hobj]
      · simp [hq]
    | some a =>
      obtain ⟨hout, hobjects⟩ := ih (m.modify p fun _ => (f a).1) hps.2
      constructor
      · simp only [hout, List.filterMap_cons, hobj, List.map_cons, List.cons.injEq,
          true_and]
        congr 1
        apply List.filterMap_congr
        intro q hq
        have hne : p ≠ q := fun h => hps.1 (h ▸ hq)
        simp [modify, hne]
      · intro q
        simp only [hobjects q, List.mem_cons]
        by_cases hq : q = p
        · subst hq
          simp [hps.1, modify, hobj]
        · have hne : p ≠ q := Ne.symm hq
          simp [hq, modify, hne]

omit [DecidableEq κ] in
theorem visit_snd (m : Shared κ α) (k : κ) (f : α → α × β) :
    (m.visit k f).2 = (m.list k).map fun a => (f a).2 :=
  (visitPointers_spec f (m.pointers k) m (m.nodup k)).1

omit [DecidableEq κ] in
theorem list_visit_self (m : Shared κ α) (k : κ) (f : α → α × β) :
    (m.visit k f).1.list k = (m.list k).map fun a => (f a).1 := by
  have hspec := (visitPointers_spec f (m.pointers k) m (m.nodup k)).2
  unfold list visit
  rw [visitPointers_pointers, List.map_filterMap]
  apply List.filterMap_congr
  intro p hp
  rw [hspec p, if_pos hp]

omit [DecidableEq κ] in
theorem list_visit_of_ne (m : Shared κ α) {k k' : κ} (f : α → α × β) (h : k' ≠ k) :
    (m.visit k f).1.list k' = m.list k' := by
  have hspec := (visitPointers_spec f (m.pointers k) m (m.nodup k)).2
  unfold list visit
  rw [visitPointers_pointers]
  apply List.filterMap_congr
  intro p hp
  have hnot : p ∉ m.pointers k := fun hpk => h (m.disjoint k' k p hp hpk)
  rw [hspec p, if_neg hnot]

theorem list_restrict_of_ne (m : Shared κ α) {k k' : κ} {ps : List Nat}
    (hsub : ps.Sublist (m.pointers k)) (h : k' ≠ k) :
    (m.restrict k ps hsub).list k' = m.list k' := by
  unfold list restrict
  simp only [Function.update_of_ne h]

omit [DecidableEq κ] in
theorem list_eraseP_pointers (m : Shared κ α) (q : α → Bool) (ps : List Nat)
    (hvalid : ∀ p ∈ ps, p < m.objects.length) :
    (ps.eraseP (m.holds q)).filterMap (m.objects[·]?) =
      (ps.filterMap (m.objects[·]?)).eraseP q := by
  induction ps with
  | nil => rfl
  | cons p ps ih =>
    have hp := hvalid p List.mem_cons_self
    have hobj : m.objects[p]? = some (m.objects.get ⟨p, hp⟩) := List.getElem?_eq_getElem hp
    have hrest := ih fun r hr => hvalid r (List.mem_cons_of_mem _ hr)
    by_cases hq : q (m.objects.get ⟨p, hp⟩) = true
    · have hholds : m.holds q p = true := by
        rw [holds, hobj]
        exact hq
      rw [List.eraseP_cons_of_pos hholds, List.filterMap_cons, hobj]
      simp only
      rw [List.eraseP_cons_of_pos hq]
    · have hholds : ¬ m.holds q p = true := by
        rw [holds, hobj]
        exact hq
      rw [List.eraseP_cons_of_neg hholds, List.filterMap_cons, List.filterMap_cons, hobj]
      simp only
      rw [List.eraseP_cons_of_neg hq, hrest]

omit [DecidableEq κ] in
theorem any_holds_iff (m : Shared κ α) (k : κ) (q : α → Bool) :
    (m.pointers k).any (m.holds q) = (m.list k).any q := by
  rw [Bool.eq_iff_iff]
  simp only [List.any_eq_true, list, List.mem_filterMap, holds, Option.any_eq_true]
  constructor
  · rintro ⟨p, hp, a, ha, hq⟩
    exact ⟨a, ⟨p, hp, ha⟩, hq⟩
  · rintro ⟨a, ⟨p, hp, ha⟩, hq⟩
    exact ⟨p, hp, a, ha, hq⟩

theorem eraseFirst_eq_some {m m' : Shared κ α} {k : κ} {q : α → Bool}
    (h : m.eraseFirst k q = some m') :
    (m.list k).any q = true ∧ m'.list k = (m.list k).eraseP q ∧
      ∀ k', k' ≠ k → m'.list k' = m.list k' := by
  unfold eraseFirst at h
  by_cases hany : (m.pointers k).any (m.holds q) = true
  · rw [if_pos hany, Option.some.injEq] at h
    subst h
    refine ⟨by rw [← any_holds_iff]; exact hany, ?_, fun k' hk' => list_restrict_of_ne m _ hk'⟩
    unfold list restrict
    simp only [Function.update_self]
    exact list_eraseP_pointers m q (m.pointers k) (m.valid k)
  · rw [if_neg hany] at h
    cases h

theorem eraseFirst_eq_none_iff {m : Shared κ α} {k : κ} {q : α → Bool} :
    m.eraseFirst k q = none ↔ ∀ a ∈ m.list k, q a = false := by
  unfold eraseFirst
  rw [any_holds_iff]
  by_cases hany : (m.list k).any q = true
  · rw [if_pos hany]
    simp only [reduceCtorEq, false_iff, not_forall]
    obtain ⟨a, ha, hq⟩ := List.any_eq_true.mp hany
    exact ⟨a, ha, by simp [hq]⟩
  · rw [if_neg hany]
    simpa using hany

/-! ## What holds of all objects -/

def All (Q : α → Prop) (m : Shared κ α) : Prop := ∀ a ∈ m.objects, Q a

section All

omit [DecidableEq κ]

variable {Q : α → Prop} {m : Shared κ α}

theorem All.modify (h : m.All Q) (p : Nat) {f : α → α} (hf : ∀ a, Q a → Q (f a)) :
    (m.modify p f).All Q := by
  intro a ha
  obtain ⟨q, hq⟩ := List.mem_iff_getElem?.mp ha
  change (m.objects.modify p f)[q]? = some a at hq
  rw [List.getElem?_modify] at hq
  obtain ⟨b, hb, rfl⟩ := Option.map_eq_some_iff.mp hq
  have hQ := h b (List.mem_of_getElem? hb)
  split
  · exact hf b hQ
  · exact hQ

theorem All.visit {f : α → α × β} (h : m.All Q) (k : κ) (hf : ∀ a, Q a → Q (f a).1) :
    (m.visit k f).1.All Q := by
  intro a ha
  obtain ⟨q, hq⟩ := List.mem_iff_getElem?.mp ha
  unfold Shared.visit at hq
  rw [(visitPointers_spec f (m.pointers k) m (m.nodup k)).2 q] at hq
  split at hq
  · obtain ⟨b, hb, rfl⟩ := Option.map_eq_some_iff.mp hq
    exact hf b (h b (List.mem_of_getElem? hb))
  · exact h a (List.mem_of_getElem? hq)

theorem All.list (h : m.All Q) (k : κ) : ∀ a ∈ m.list k, Q a := by
  intro a ha
  obtain ⟨p, _, hp⟩ := List.mem_filterMap.mp ha
  exact h a (List.mem_of_getElem? hp)

end All

theorem All.push {Q : α → Prop} {m : Shared κ α} (h : m.All Q) (k : κ) {a : α} (ha : Q a) :
    (m.push k a).All Q := by
  intro b hb
  rcases List.mem_append.mp hb with hb | hb
  · exact h b hb
  · rw [List.mem_singleton.mp hb]
    exact ha

theorem All.eraseFirst {Q : α → Prop} {m m' : Shared κ α} (h : m.All Q) {k : κ} {q : α → Bool}
    (herase : m.eraseFirst k q = some m') : m'.All Q := by
  unfold Shared.eraseFirst at herase
  split at herase
  · cases herase
    exact h
  · cases herase

end Shared

end Pheromone.Lib
