import Mathlib.Data.List.Basic
import Mathlib.Data.List.Induction

/-!
# What a machine puts out

A machine takes one input after another and answers each with an output.  The
rules say where an output comes from, what a machine does that follows a plan or
returns to its start, and when the inputs of one kind are answered as if they were alone.
-/

namespace Pheromone.Lib

section Outputs

variable {σ α β : Type} (step : σ → α → σ × β)

def outputs : σ → List α → List β
  | _, [] => []
  | s, a :: as => (step s a).2 :: outputs (step s a).1 as

def stateAfter (s : σ) (as : List α) : σ := as.foldl (fun s a => (step s a).1) s

def trace (s : σ) (as : List α) : List (α × β) := as.zip (outputs step s as)

variable {step}

@[simp] theorem outputs_nil (s : σ) : outputs step s [] = [] := rfl

theorem outputs_cons (s : σ) (a : α) (as : List α) :
    outputs step s (a :: as) = (step s a).2 :: outputs step (step s a).1 as := rfl

@[simp] theorem stateAfter_nil (s : σ) : stateAfter step s [] = s := rfl

theorem stateAfter_cons (s : σ) (a : α) (as : List α) :
    stateAfter step s (a :: as) = stateAfter step (step s a).1 as := rfl

@[simp] theorem length_outputs (s : σ) (as : List α) :
    (outputs step s as).length = as.length := by
  induction as generalizing s with
  | nil => rfl
  | cons a as ih => rw [outputs_cons, List.length_cons, List.length_cons, ih]

theorem stateAfter_append (s : σ) (as bs : List α) :
    stateAfter step s (as ++ bs) = stateAfter step (stateAfter step s as) bs :=
  List.foldl_append

theorem outputs_append (s : σ) (as bs : List α) :
    outputs step s (as ++ bs) =
      outputs step s as ++ outputs step (stateAfter step s as) bs := by
  induction as generalizing s with
  | nil => rfl
  | cons a as ih => rw [List.cons_append, outputs_cons, outputs_cons, ih]; rfl

theorem trace_append (s : σ) (as bs : List α) :
    trace step s (as ++ bs) = trace step s as ++ trace step (stateAfter step s as) bs := by
  unfold trace
  rw [outputs_append, List.zip_append (length_outputs s as).symm]

theorem stateAfter_invariant {Q : σ → Prop} (hstep : ∀ s a, Q s → Q (step s a).1) {s : σ}
    (hs : Q s) (as : List α) : Q (stateAfter step s as) := by
  induction as generalizing s with
  | nil => exact hs
  | cons a as ih => exact ih (hstep s a hs)

theorem outputs_invariant {Q : σ → Prop} {P : β → Prop} (hstep : ∀ s a, Q s → Q (step s a).1)
    (hout : ∀ s a, Q s → P (step s a).2) {s : σ} (hs : Q s) (as : List α) :
    ∀ out ∈ outputs step s as, P out := by
  induction as generalizing s with
  | nil =>
    intro out hmem
    exact absurd hmem List.not_mem_nil
  | cons a as ih =>
    intro out hmem
    rcases List.mem_cons.mp hmem with rfl | hmem
    · exact hout s a hs
    · exact ih (hstep s a hs) out hmem

/-- A machine that holds each item until it puts it out neither loses, repeats nor
reorders items. -/
theorem outputs_conserve {γ : Type} {item : α → γ} {passed : β → List γ} {held : σ → List γ}
    (hstep : ∀ s a, passed (step s a).2 ++ held (step s a).1 = held s ++ [item a]) (s : σ)
    (as : List α) :
    (outputs step s as).flatMap passed ++ held (stateAfter step s as) =
      held s ++ as.map item := by
  induction as generalizing s with
  | nil => simp
  | cons a as ih =>
    calc (outputs step s (a :: as)).flatMap passed ++ held (stateAfter step s (a :: as))
        = passed (step s a).2 ++ (held (step s a).1 ++ as.map item) := by
          rw [outputs_cons, List.flatMap_cons, stateAfter_cons, List.append_assoc, ih]
      _ = held s ++ (a :: as).map item := by
          rw [← List.append_assoc, hstep, List.append_assoc, List.map_cons,
            List.singleton_append]

theorem outputs_of_plan {plan : Nat → σ} {answer : Nat → β} {as : List α}
    (h : ∀ j a, as[j]? = some a → step (plan j) a = (plan (j + 1), answer j)) :
    outputs step (plan 0) as = (List.range as.length).map answer ∧
      stateAfter step (plan 0) as = plan as.length := by
  induction as using List.reverseRecOn with
  | nil => exact ⟨rfl, rfl⟩
  | append_singleton as a ih =>
    obtain ⟨hout, hstate⟩ := ih fun j b hb => h j b (by
      rw [List.getElem?_append_left (List.getElem?_eq_some_iff.mp hb).1]
      exact hb)
    have hlast : step (plan as.length) a = (plan (as.length + 1), answer as.length) :=
      h as.length a (by simp)
    constructor
    · rw [outputs_append, hout, hstate, outputs_cons, hlast]
      simp [List.range_succ]
    · rw [stateAfter_append, hstate, stateAfter_cons, hlast]
      simp

theorem stateAfter_of_period {s : σ} {n : Nat}
    (h : ∀ block : List α, block.length = n → stateAfter step s block = s) (i : Nat)
    {as : List α} (hlen : i * n ≤ as.length) : stateAfter step s (as.take (i * n)) = s := by
  induction i with
  | zero => rw [Nat.zero_mul, List.take_zero, stateAfter_nil]
  | succ i ih =>
    rw [Nat.succ_mul] at hlen
    have hblock : ((as.drop (i * n)).take n).length = n := by
      rw [List.length_take, List.length_drop]
      omega
    rw [Nat.succ_mul, List.take_add, stateAfter_append, ih (by omega), h _ hblock]

/-- It answers each block of `n` inputs as if it were the first. -/
theorem outputs_of_period {s : σ} {n : Nat}
    (h : ∀ block : List α, block.length = n → stateAfter step s block = s) {as : List α}
    {i j : Nat} (hlen : i * n + n ≤ as.length) (hj : j < n) :
    (outputs step s as)[i * n + j]? =
      (outputs step s ((as.drop (i * n)).take n))[j]? := by
  have hfront : (as.take (i * n)).length = i * n := by
    rw [List.length_take]
    omega
  have hsplit : as = as.take (i * n) ++
      ((as.drop (i * n)).take n ++ (as.drop (i * n)).drop n) := by
    rw [List.take_append_drop, List.take_append_drop]
  have hback := stateAfter_of_period h i (Nat.le_of_add_right_le hlen)
  conv_lhs => rw [hsplit, outputs_append, hback, outputs_append]
  rw [List.getElem?_append_right (by rw [length_outputs, hfront]; omega), length_outputs, hfront,
    Nat.add_sub_cancel_left, List.getElem?_append_left]
  rw [length_outputs, List.length_take, List.length_drop]
  omega

/-- The inputs after the last one whose output ends a round. -/
def sinceLast (ends : β → Bool) (entries : List (α × β)) : List α :=
  entries.foldl (fun since entry => if ends entry.2 then [] else since ++ [entry.1]) []

theorem sinceLast_append (ends : β → Bool) (entries : List (α × β)) (entry : α × β) :
    sinceLast ends (entries ++ [entry]) =
      if ends entry.2 then [] else sinceLast ends entries ++ [entry.1] := by
  unfold sinceLast
  rw [List.foldl_append, List.foldl_cons, List.foldl_nil]

/-- What holds of the state and the inputs of the round that it is in. -/
theorem stateAfter_round {ends : β → Bool} {Q : List α → σ → Prop}
    (hends : ∀ since s a, Q since s → ends (step s a).2 = true → Q [] (step s a).1)
    (hgoes : ∀ since s a, Q since s → ends (step s a).2 = false →
      Q (since ++ [a]) (step s a).1) {s : σ} (hs : Q [] s) (as : List α) :
    Q (sinceLast ends (trace step s as)) (stateAfter step s as) := by
  induction as using List.reverseRecOn with
  | nil => exact hs
  | append_singleton as a ih =>
    have htrace : trace step (stateAfter step s as) [a] =
        [(a, (step (stateAfter step s as) a).2)] := rfl
    rw [trace_append, htrace, sinceLast_append, stateAfter_append, stateAfter_cons,
      stateAfter_nil]
    cases hround : ends (step (stateAfter step s as) a).2 with
    | true => exact hends _ _ a ih hround
    | false => exact hgoes _ _ a ih hround

/-- The inputs of one kind are answered as if they were alone, if there is a relation
between states that they keep and answer alike under and that the others cannot break. -/
theorem outputs_of_kind {R : σ → σ → Prop} {kind : α → Bool}
    (hkind : ∀ s s' a, R s s' → kind a = true →
      R (step s a).1 (step s' a).1 ∧ (step s a).2 = (step s' a).2)
    (hother : ∀ s s' a, R s s' → kind a = false → R (step s a).1 s') {s s' : σ} (hs : R s s')
    (as : List α) :
    ((trace step s as).filter fun entry => kind entry.1).map Prod.snd =
      outputs step s' (as.filter kind) := by
  induction as generalizing s s' with
  | nil => rfl
  | cons a as ih =>
    have htrace : trace step s (a :: as) = (a, (step s a).2) :: trace step (step s a).1 as := rfl
    rw [htrace]
    cases ha : kind a with
    | true =>
      obtain ⟨hnext, hout⟩ := hkind s s' a hs ha
      simp only [List.filter_cons, ha, if_true, List.map_cons, outputs_cons, ih hnext, hout]
    | false =>
      simp only [List.filter_cons, ha, Bool.false_eq_true, if_false,
        ih (hother s s' a hs ha)]

/-- Two runs answer the inputs of one kind alike, if their states stay related and related
states answer them alike. -/
theorem trace_filter_eq {R : σ → σ → Prop} {ok : α → Prop} {kind : α → Bool}
    (hkeep : ∀ s s' a, ok a → R s s' → R (step s a).1 (step s' a).1)
    (hout : ∀ s s' a, ok a → R s s' → kind a = true → (step s a).2 = (step s' a).2)
    {as : List α} (has : ∀ a ∈ as, ok a) {s s' : σ} (hs : R s s') :
    (trace step s as).filter (fun entry => kind entry.1) =
      (trace step s' as).filter fun entry => kind entry.1 := by
  induction as generalizing s s' with
  | nil => rfl
  | cons a as ih =>
    have ha : ok a := has a List.mem_cons_self
    have hrest := ih (fun b hb => has b (List.mem_cons_of_mem a hb)) (hkeep s s' a ha hs)
    have htrace : ∀ u, trace step u (a :: as) =
        (a, (step u a).2) :: trace step (step u a).1 as := fun _ => rfl
    rw [htrace, htrace, List.filter_cons, List.filter_cons, hrest]
    cases hk : kind a with
    | true => rw [hout s s' a ha hs hk]
    | false => rfl

end Outputs

end Pheromone.Lib
