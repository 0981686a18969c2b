import Mathlib.Data.List.Basic

/-!
# Assigning once

Candidates are offered over time, and keys are asked for.  The first answer for a key is any
candidate offered so far, and every later answer for it is the same.  The rules say how a
machine that remembers its answers in a map stays within such histories.
-/

namespace Pheromone.Lib

/-- A candidate is offered, or a key is asked for and answered with a candidate. -/
inductive AssignEvent (κ γ : Type)
  | offer (c : γ)
  | ask (k : κ) (c : γ)

section AssignOnce

variable {κ γ : Type}

/-- The histories, from the first event on, in which every key is assigned once. -/
inductive AssignsOnce : List (AssignEvent κ γ) → Prop
  | nil : AssignsOnce []
  | offer {es : List (AssignEvent κ γ)} (c : γ) : AssignsOnce es → AssignsOnce (es ++ [.offer c])
  | first {es : List (AssignEvent κ γ)} {k : κ} {c : γ} : AssignsOnce es →
      (∀ c', .ask k c' ∉ es) → .offer c ∈ es → AssignsOnce (es ++ [.ask k c])
  | again {es : List (AssignEvent κ γ)} {k : κ} {c : γ} : AssignsOnce es → .ask k c ∈ es →
      AssignsOnce (es ++ [.ask k c])

theorem ask_mem_concat {es : List (AssignEvent κ γ)} {e : AssignEvent κ γ} {k : κ} {c : γ} :
    .ask k c ∈ es ++ [e] ↔ .ask k c ∈ es ∨ .ask k c = e := by
  rw [List.mem_append, List.mem_singleton]

theorem offer_mem_concat {es : List (AssignEvent κ γ)} {e : AssignEvent κ γ} {c : γ} :
    .offer c ∈ es ++ [e] ↔ .offer c ∈ es ∨ .offer c = e := by
  rw [List.mem_append, List.mem_singleton]

theorem offer_mem_concat_ask {es : List (AssignEvent κ γ)} {k : κ} {c d : γ} :
    .offer d ∈ es ++ [.ask k c] ↔ .offer d ∈ es := by
  rw [offer_mem_concat]
  exact ⟨fun hd => hd.resolve_right nofun, Or.inl⟩

namespace AssignsOnce

theorem agree {es : List (AssignEvent κ γ)} (h : AssignsOnce es) {k : κ} {c c' : γ}
    (hc : .ask k c ∈ es) (hc' : .ask k c' ∈ es) : c = c' := by
  induction h with
  | nil => exact absurd hc List.not_mem_nil
  | offer d _ ih =>
    rw [ask_mem_concat] at hc hc'
    exact ih (hc.resolve_right nofun) (hc'.resolve_right nofun)
  | first _ hfirst _ ih =>
    rw [ask_mem_concat] at hc hc'
    rcases hc with hc | hc <;> rcases hc' with hc' | hc'
    · exact ih hc hc'
    · cases hc'
      exact absurd hc (hfirst _)
    · cases hc
      exact absurd hc' (hfirst _)
    · cases hc
      cases hc'
      rfl
  | again _ hask ih =>
    rw [ask_mem_concat] at hc hc'
    rcases hc with hc | hc <;> rcases hc' with hc' | hc'
    · exact ih hc hc'
    · cases hc'
      exact ih hc hask
    · cases hc
      exact ih hask hc'
    · cases hc
      cases hc'
      rfl

theorem offered_before {es : List (AssignEvent κ γ)} (h : AssignsOnce es) {k : κ} {c : γ}
    (hc : .ask k c ∈ es) :
    ∃ before after, es = before ++ .ask k c :: after ∧ (∀ c', .ask k c' ∉ before) ∧
      .offer c ∈ before := by
  have hextend : ∀ {es : List (AssignEvent κ γ)} (e : AssignEvent κ γ) {c : γ},
      (∃ before after, es = before ++ .ask k c :: after ∧ (∀ c', .ask k c' ∉ before) ∧
        .offer c ∈ before) →
      ∃ before after, es ++ [e] = before ++ .ask k c :: after ∧ (∀ c', .ask k c' ∉ before) ∧
        .offer c ∈ before := by
    rintro es e c ⟨before, after, rfl, hfirst, hoffer⟩
    exact ⟨before, after ++ [e], by simp, hfirst, hoffer⟩
  induction h with
  | nil => exact absurd hc List.not_mem_nil
  | offer d _ ih =>
    rw [ask_mem_concat] at hc
    exact hextend _ (ih (hc.resolve_right nofun))
  | @first es k' c' hes hfirst hoffer ih =>
    rw [ask_mem_concat] at hc
    rcases hc with hc | hc
    · exact hextend _ (ih hc)
    · cases hc
      exact ⟨es, [], rfl, hfirst, hoffer⟩
  | again _ hask ih =>
    rw [ask_mem_concat] at hc
    rcases hc with hc | hc
    · exact hextend _ (ih hc)
    · cases hc
      exact hextend _ (ih hask)

end AssignsOnce

/-- A map that remembers the answers of a history and a set of the candidates offered. -/
structure Tracks (assigned : κ → Option γ) (available : γ → Prop)
    (es : List (AssignEvent κ γ)) : Prop where
  history : AssignsOnce es
  assigned_iff : ∀ k c, assigned k = some c ↔ .ask k c ∈ es
  available_iff : ∀ c, available c ↔ .offer c ∈ es

namespace Tracks

variable {assigned : κ → Option γ} {available : γ → Prop} {es : List (AssignEvent κ γ)}

theorem offer (h : Tracks assigned available es) (c : γ) {available' : γ → Prop}
    (havailable : ∀ d, available' d ↔ available d ∨ d = c) :
    Tracks assigned available' (es ++ [.offer c]) where
  history := h.history.offer c
  assigned_iff := by
    intro k d
    rw [h.assigned_iff, ask_mem_concat]
    exact ⟨Or.inl, fun hd => hd.resolve_right nofun⟩
  available_iff := by
    intro d
    rw [havailable, h.available_iff, offer_mem_concat, AssignEvent.offer.injEq]

theorem first [DecidableEq κ] (h : Tracks assigned available es) {k : κ} {c : γ}
    (hnone : assigned k = none) (hc : available c) {assigned' : κ → Option γ}
    (hassigned : ∀ k', assigned' k' = if k' = k then some c else assigned k') :
    Tracks assigned' available (es ++ [.ask k c]) where
  history := by
    apply h.history.first _ ((h.available_iff c).mp hc)
    intro c' hmem
    rw [← h.assigned_iff, hnone] at hmem
    cases hmem
  assigned_iff := by
    intro k' d
    rw [hassigned, ask_mem_concat, ← h.assigned_iff, AssignEvent.ask.injEq]
    by_cases hk : k' = k
    · subst hk
      simp [hnone, eq_comm]
    · simp [hk]
  available_iff := by
    intro d
    rw [h.available_iff, offer_mem_concat_ask]

theorem again (h : Tracks assigned available es) {k : κ} {c : γ} (hsome : assigned k = some c) :
    Tracks assigned available (es ++ [.ask k c]) where
  history := h.history.again ((h.assigned_iff k c).mp hsome)
  assigned_iff := by
    intro k' d
    rw [ask_mem_concat, ← h.assigned_iff, AssignEvent.ask.injEq]
    constructor
    · exact Or.inl
    · rintro (hd | ⟨rfl, rfl⟩)
      · exact hd
      · exact hsome
  available_iff := by
    intro d
    rw [h.available_iff, offer_mem_concat_ask]

end Tracks

end AssignOnce

end Pheromone.Lib
