import Mathlib.Data.List.Basic
import Mathlib.Logic.Function.Basic

/-!
# Replicas behind FIFO channels

A primary sends messages to a replica that applies them in order.  `Leads` says
that the messages under way take the replica to the state of the primary.
-/

namespace Pheromone.Lib

section Family

variable {ι μ : Type} [DecidableEq ι] {channels : ι → List μ} {i j : ι} {message : μ}

theorem mem_update_send {messages : List μ}
    (h : message ∈ Function.update channels i (channels i ++ messages) j) :
    message ∈ channels j ∨ j = i ∧ message ∈ messages := by
  by_cases hj : j = i
  · subst hj
    rw [Function.update_self] at h
    exact (List.mem_append.mp h).imp_right fun hmem => ⟨rfl, hmem⟩
  · rw [Function.update_of_ne hj] at h
    exact .inl h

theorem mem_of_mem_update_rest {first : μ} {rest : List μ} (hhead : channels i = first :: rest)
    (h : message ∈ Function.update channels i rest j) : message ∈ channels j := by
  by_cases hj : j = i
  · subst hj
    rw [Function.update_self] at h
    rw [hhead]
    exact List.mem_cons_of_mem _ h
  · rwa [Function.update_of_ne hj] at h

end Family

variable {σ μ : Type} (apply : σ → μ → Option σ)

/-- Applying the messages of `queue` to `replica` gives `primary`. -/
def Leads (replica : σ) (queue : List μ) (primary : σ) : Prop :=
  queue.foldlM apply replica = some primary

variable {apply}

@[simp] theorem leads_nil_iff {replica primary : σ} :
    Leads apply replica [] primary ↔ replica = primary := by
  simp [Leads]

/-- The primary takes a step and sends the messages that take its old state to
the new one. -/
theorem Leads.send {replica primary primary' : σ} {queue messages : List μ}
    (h : Leads apply replica queue primary) (hstep : Leads apply primary messages primary') :
    Leads apply replica (queue ++ messages) primary' := by
  unfold Leads at h hstep ⊢
  rw [List.foldlM_append, h]
  exact hstep

theorem Leads.deliver {replica primary : σ} {message : μ} {queue : List μ}
    (h : Leads apply replica (message :: queue) primary) :
    ∃ replica', apply replica message = some replica' ∧ Leads apply replica' queue primary := by
  unfold Leads at h
  rw [List.foldlM_cons, Option.bind_eq_bind, Option.bind_eq_some_iff] at h
  exact h

end Pheromone.Lib
