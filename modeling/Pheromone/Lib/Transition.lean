import Mathlib.Data.List.Basic
import Mathlib.Data.List.Forall2

/-!
# Runs of an event-driven system

A system is a partial step function: `step s e` is the state after event `e`,
or `none` when `e` cannot happen in `s` or has no defined effect there.  The
rules below are the only inductions over runs that the rest of the development
uses: a condition along a run, an invariant along a run, and what the end of a
run says about its events.
-/

namespace Pheromone.Lib

variable {α β γ : Type}

section Runs

variable {σ ε : Type} (step : σ → ε → Option σ)

def run : σ → List ε → Option σ
  | s, [] => some s
  | s, e :: es => (step s e).bind fun s' => run s' es

/-- Every event of the run meets `ok` in the state in which it happens. -/
def Along (ok : σ → ε → Prop) : σ → List ε → Prop
  | _, [] => True
  | s, e :: es => ok s e ∧ ∀ s', step s e = some s' → Along ok s' es

/-- `P` holds in every state of the run, the first and the last included. -/
def Throughout (P : σ → Prop) : σ → List ε → Prop
  | s, [] => P s
  | s, e :: es => P s ∧ ∀ s', step s e = some s' → Throughout P s' es

variable {step}

@[simp] theorem run_nil (s : σ) : run step s [] = some s := rfl

theorem run_cons_eq_some {s t : σ} {e : ε} {es : List ε} :
    run step s (e :: es) = some t ↔
      ∃ s', step s e = some s' ∧ run step s' es = some t := by
  simp [run, Option.bind_eq_some_iff]

theorem run_append_eq_some {s t : σ} {es fs : List ε} :
    run step s (es ++ fs) = some t ↔
      ∃ s', run step s es = some s' ∧ run step s' fs = some t := by
  induction es generalizing s with
  | nil => simp
  | cons e es ih =>
    rw [List.cons_append, run_cons_eq_some]
    constructor
    · rintro ⟨s₁, hstep, hrun⟩
      obtain ⟨s₂, hes, hfs⟩ := ih.mp hrun
      exact ⟨s₂, run_cons_eq_some.mpr ⟨s₁, hstep, hes⟩, hfs⟩
    · rintro ⟨s₂, hes, hfs⟩
      obtain ⟨s₁, hstep, hes⟩ := run_cons_eq_some.mp hes
      exact ⟨s₁, hstep, ih.mpr ⟨s₂, hes, hfs⟩⟩

theorem Along.mono {ok ok' : σ → ε → Prop} (h : ∀ s e, ok s e → ok' s e) {s : σ}
    {es : List ε} (halong : Along step ok s es) : Along step ok' s es := by
  induction es generalizing s with
  | nil => trivial
  | cons e es ih => exact ⟨h s e halong.1, fun s' hs' => ih (halong.2 s' hs')⟩

theorem Along.and {ok ok' : σ → ε → Prop} {s : σ} {es : List ε} (h : Along step ok s es)
    (h' : Along step ok' s es) : Along step (fun s e => ok s e ∧ ok' s e) s es := by
  induction es generalizing s with
  | nil => trivial
  | cons e es ih => exact ⟨⟨h.1, h'.1⟩, fun s' hs' => ih (h.2 s' hs') (h'.2 s' hs')⟩

/-- A condition that an invariant makes true at every admissible event. -/
theorem along_of_invariant {Inv : σ → Prop} {ok ok' : σ → ε → Prop}
    (himp : ∀ s e, Inv s → ok s e → ok' s e)
    (hstep : ∀ s e s', Inv s → ok s e → step s e = some s' → Inv s')
    {s : σ} {es : List ε} (hs : Inv s) (hok : Along step ok s es) : Along step ok' s es := by
  induction es generalizing s with
  | nil => trivial
  | cons e es ih =>
    exact ⟨himp s e hs hok.1, fun s' hs' => ih (hstep s e s' hs hok.1 hs') (hok.2 s' hs')⟩

theorem along_of_forall {ok : ε → Prop} {es : List ε} (h : ∀ e ∈ es, ok e) (s : σ) :
    Along step (fun _ e => ok e) s es := by
  induction es generalizing s with
  | nil => trivial
  | cons e es ih =>
    refine ⟨h e List.mem_cons_self, fun s' _ => ih (fun f hf => ?_) s'⟩
    exact h f (List.mem_cons_of_mem _ hf)

theorem along_true (s : σ) (es : List ε) : Along step (fun _ _ => True) s es :=
  along_of_forall (fun _ _ => trivial) s

/-- An invariant that every admissible step preserves holds at the end of every
admissible run. -/
theorem run_invariant {Inv : σ → Prop} {ok : σ → ε → Prop}
    (hstep : ∀ s e s', Inv s → ok s e → step s e = some s' → Inv s')
    {s t : σ} {es : List ε} (hs : Inv s) (hok : Along step ok s es)
    (hrun : run step s es = some t) : Inv t := by
  induction es generalizing s with
  | nil =>
    cases hrun
    exact hs
  | cons e es ih =>
    obtain ⟨s', hs', hrun⟩ := run_cons_eq_some.mp hrun
    exact ih (hstep s e s' hs hok.1 hs') (hok.2 s' hs') hrun

/-- An invariant that relates a state to the events so far. -/
theorem run_history {Inv : List ε → σ → Prop}
    (hstep : ∀ es s e s', Inv es s → step s e = some s' → Inv (es ++ [e]) s')
    {s t : σ} {es : List ε} (hs : Inv [] s) (hrun : run step s es = some t) : Inv es t := by
  have general : ∀ (before : List ε) (s : σ), Inv before s → run step s es = some t →
      Inv (before ++ es) t := by
    clear hs hrun
    induction es with
    | nil =>
      intro before s hs hrun
      cases hrun
      rwa [List.append_nil]
    | cons e es ih =>
      intro before s hs hrun
      obtain ⟨s', hs', hrun⟩ := run_cons_eq_some.mp hrun
      have hrest := ih (before ++ [e]) s' (hstep before s e s' hs hs') hrun
      rwa [List.append_assoc, List.singleton_append] at hrest
  exact general [] s hs hrun

/-- What the most recent of the events that have an `entry` brought. -/
def latest {β : Type} (entry : ε → Option β) (es : List ε) : Option β :=
  es.reverse.findSome? entry

theorem latest_concat (entry : ε → Option β) (es : List ε) (e : ε) :
    latest entry (es ++ [e]) = (entry e).or (latest entry es) := by
  unfold latest
  rw [List.reverse_concat, List.findSome?_cons]
  cases entry e <;> rfl

theorem latest_isSome_of_imp {entry : ε → Option β} {entry' : ε → Option γ}
    (h : ∀ e, (entry e).isSome → (entry' e).isSome) {es : List ε}
    (hlatest : (latest entry es).isSome) : (latest entry' es).isSome := by
  unfold latest at hlatest ⊢
  rw [List.isSome_findSome?, List.any_eq_true] at hlatest ⊢
  obtain ⟨e, he, hentry⟩ := hlatest
  exact ⟨e, he, h e hentry⟩

/-- An invariant that relates a state to the most recent entry of the events so far. -/
theorem run_latest {β : Type} {entry : ε → Option β} {Inv : Option β → σ → Prop}
    (hstep : ∀ last s e s', Inv last s → step s e = some s' → Inv ((entry e).or last) s')
    {s t : σ} {es : List ε} (hs : Inv none s) (hrun : run step s es = some t) :
    Inv (latest entry es) t := by
  have hall : ∀ es s e s', Inv (latest entry es) s → step s e = some s' →
      Inv (latest entry (es ++ [e])) s' := by
    intro es s e s' hinv he
    rw [latest_concat]
    exact hstep (latest entry es) s e s' hinv he
  exact run_history hall hs hrun

/-- A run whose events meet `ok` goes through when `ok` makes every step defined. -/
theorem run_isSome_of_along {Inv : σ → Prop} {ok : σ → ε → Prop}
    (hstep : ∀ s e, Inv s → ok s e → ∃ s', step s e = some s' ∧ Inv s')
    {s : σ} {es : List ε} (hs : Inv s) (hok : Along step ok s es) :
    (run step s es).isSome := by
  induction es generalizing s with
  | nil => rfl
  | cons e es ih =>
    obtain ⟨s', hs', hinv⟩ := hstep s e hs hok.1
    unfold run
    rw [hs']
    exact ih hinv (hok.2 s' hs')

theorem Throughout.start {P : σ → Prop} {s : σ} {es : List ε}
    (h : Throughout step P s es) : P s := by
  cases es with
  | nil => exact h
  | cons e es => exact h.1

theorem Throughout.finish {P : σ → Prop} {s t : σ} {es : List ε}
    (h : Throughout step P s es) (hrun : run step s es = some t) : P t := by
  induction es generalizing s with
  | nil =>
    cases hrun
    exact h
  | cons e es ih =>
    obtain ⟨s', hs', hrun⟩ := run_cons_eq_some.mp hrun
    exact ih (h.2 s' hs') hrun

/-- The invariant rule for all the states of an admissible run. -/
theorem throughout_of_along {Inv P : σ → Prop} {ok : σ → ε → Prop}
    (himp : ∀ s, Inv s → P s)
    (hstep : ∀ s e s', Inv s → ok s e → step s e = some s' → Inv s')
    {s : σ} {es : List ε} (hs : Inv s) (hok : Along step ok s es) :
    Throughout step P s es := by
  induction es generalizing s with
  | nil => exact himp s hs
  | cons e es ih =>
    exact ⟨himp s hs, fun s' hs' => ih (hstep s e s' hs hok.1 hs') (hok.2 s' hs')⟩

/-- When a step from a good state is good exactly if it meets `turn`, and nothing
mends a bad state, the end of a run says whether all its events met `turn`. -/
theorem along_or_bad {Good Bad : σ → Prop} {ok turn : σ → ε → Prop}
    (hgood : ∀ s e s', Good s → ok s e → turn s e → step s e = some s' → Good s')
    (hleave : ∀ s e s', Good s → ok s e → ¬ turn s e → step s e = some s' → Bad s')
    (hbad : ∀ s e s', Bad s → ok s e → step s e = some s' → Bad s')
    {s t : σ} {es : List ε} (hs : Good s) (hok : Along step ok s es)
    (hrun : run step s es = some t) :
    (Along step turn s es ∧ Good t) ∨ (¬ Along step turn s es ∧ Bad t) := by
  induction es generalizing s with
  | nil =>
    cases hrun
    exact .inl ⟨trivial, hs⟩
  | cons e es ih =>
    obtain ⟨s', hs', hrun⟩ := run_cons_eq_some.mp hrun
    by_cases hturn : turn s e
    · rcases ih (hgood s e s' hs hok.1 hturn hs') (hok.2 s' hs') hrun with h | h
      · refine .inl ⟨⟨hturn, fun s₁ hs₁ => ?_⟩, h.2⟩
        cases hs'.symm.trans hs₁
        exact h.1
      · exact .inr ⟨fun halong => h.1 (halong.2 s' hs'), h.2⟩
    · refine .inr ⟨fun halong => hturn halong.1, ?_⟩
      exact run_invariant hbad (hleave s e s' hs hok.1 hturn hs') (hok.2 s' hs') hrun

/-- If an event outside `ok` always leaves the states in which `P` holds, a run
that stays in `P` meets `ok` at every event. -/
theorem along_of_throughout {P : σ → Prop} {ok : σ → ε → Prop}
    (hbad : ∀ s e, P s → ¬ ok s e → ∃ s', step s e = some s' ∧ ¬ P s')
    {s : σ} {es : List ε} (h : Throughout step P s es) : Along step ok s es := by
  induction es generalizing s with
  | nil => trivial
  | cons e es ih =>
    refine ⟨?_, fun s' hs' => ih (h.2 s' hs')⟩
    by_contra hnot
    obtain ⟨s', hs', hP⟩ := hbad s e h.1 hnot
    exact hP (h.2 s' hs').start

end Runs

/-! ## Loops -/

theorem foldl_unchanged {σ : Type} {f : σ → α → σ} (g : σ → γ) (h : ∀ s a, g (f s a) = g s)
    (l : List α) (s : σ) : g (l.foldl f s) = g s := by
  induction l generalizing s with
  | nil => rfl
  | cons a l ih => rw [List.foldl_cons, ih, h]

/-- What every iteration of a loop keeps, the loop keeps. -/
theorem foldl_preserves {σ : Type} {f : σ → α → σ} {Q : σ → Prop} {l : List α} {s : σ}
    (hf : ∀ s, ∀ a ∈ l, Q s → Q (f s a)) (hs : Q s) : Q (l.foldl f s) := by
  induction l generalizing s with
  | nil => exact hs
  | cons a l ih =>
    exact ih (fun s b hb => hf s b (List.mem_cons_of_mem _ hb))
      (hf s a List.mem_cons_self hs)

theorem foldlM_cons_eq_some {σ : Type} {f : σ → α → Option σ} {a : α} {l : List α} {s s' : σ} :
    (a :: l).foldlM f s = some s' ↔ ∃ s₁, f s a = some s₁ ∧ l.foldlM f s₁ = some s' := by
  rw [List.foldlM_cons, Option.bind_eq_bind, Option.bind_eq_some_iff]

/-- The same for a loop whose iterations may be undefined. -/
theorem foldlM_preserves {σ : Type} {f : σ → α → Option σ} {Q : σ → Prop} {l : List α} {s s' : σ}
    (hf : ∀ s, ∀ a ∈ l, ∀ s', f s a = some s' → Q s → Q s') (h : l.foldlM f s = some s')
    (hs : Q s) : Q s' := by
  induction l generalizing s with
  | nil =>
    cases h
    exact hs
  | cons a l ih =>
    obtain ⟨s₁, hs₁, h⟩ := foldlM_cons_eq_some.mp h
    exact ih (fun s b hb => hf s b (List.mem_cons_of_mem _ hb)) h
      (hf s a List.mem_cons_self s₁ hs₁ hs)

theorem foldlM_map {σ τ : Type} {f : σ → α → Option σ} {f' : τ → α → Option τ} (g : σ → τ)
    (h : ∀ s a, (f s a).map g = f' (g s) a) (l : List α) (s : σ) :
    (l.foldlM f s).map g = l.foldlM f' (g s) := by
  induction l generalizing s with
  | nil => rfl
  | cons a l ih =>
    rw [List.foldlM_cons, List.foldlM_cons, ← h s a]
    cases f s a with
    | none => rfl
    | some s₁ => exact ih s₁

/-- A loop goes through when what every iteration keeps makes the next one
defined. -/
theorem foldlM_defined {σ : Type} {f : σ → α → Option σ} {Q : σ → Prop} {l : List α} {s : σ}
    (hf : ∀ s, ∀ a ∈ l, Q s → ∃ s', f s a = some s' ∧ Q s') (hs : Q s) :
    ∃ s', l.foldlM f s = some s' ∧ Q s' := by
  induction l generalizing s with
  | nil => exact ⟨s, rfl, hs⟩
  | cons a l ih =>
    obtain ⟨s₁, hs₁, hQ⟩ := hf s a List.mem_cons_self hs
    obtain ⟨s', hs', hQ'⟩ := ih (fun s b hb => hf s b (List.mem_cons_of_mem _ hb)) hQ
    refine ⟨s', ?_, hQ'⟩
    rw [List.foldlM_cons, hs₁]
    exact hs'

theorem foldlM_isSome {σ : Type} {f : σ → α → Option σ} (hf : ∀ s a, (f s a).isSome) (l : List α)
    (s : σ) : (l.foldlM f s).isSome := by
  induction l generalizing s with
  | nil => rfl
  | cons a l ih =>
    obtain ⟨s', hs'⟩ := Option.isSome_iff_exists.mp (hf s a)
    rw [List.foldlM_cons, hs']
    exact ih s'

theorem foldlM_isSome_iff {σ : Type} {f : σ → α → Option σ} {D : α → Prop}
    (hf : ∀ s a, (f s a).isSome ↔ D a) (l : List α) (s : σ) :
    (l.foldlM f s).isSome ↔ ∀ a ∈ l, D a := by
  induction l generalizing s with
  | nil => simp
  | cons a l ih =>
    rw [List.foldlM_cons, List.forall_mem_cons, ← hf s a]
    cases hstep : f s a with
    | none => simp
    | some s' => simpa using ih s'

theorem forall₂_of_mapM {f : α → Option β} {l : List α} {r : List β} (h : l.mapM f = some r) :
    List.Forall₂ (fun a b => f a = some b) l r := by
  induction l generalizing r with
  | nil =>
    cases h
    exact .nil
  | cons a l ih =>
    simp only [List.mapM_cons, Option.bind_eq_bind, Option.bind_eq_some_iff,
      Option.pure_def, Option.some.injEq] at h
    obtain ⟨b, hb, bs, hbs, rfl⟩ := h
    exact .cons hb (ih hbs)

theorem exists_of_mem_mapM {f : α → Option β} {l : List α} {r : List β} {b : β}
    (h : l.mapM f = some r) (hb : b ∈ r) : ∃ a, f a = some b := by
  have hall := forall₂_of_mapM h
  clear h
  induction hall with
  | nil => cases hb
  | cons hfirst hrest ih =>
    rcases List.mem_cons.mp hb with rfl | hb
    · exact ⟨_, hfirst⟩
    · exact ih hb

theorem mapM_eq_none_of_mem {f : α → Option β} {l : List α} {a : α} (ha : a ∈ l) (h : f a = none) :
    l.mapM f = none := by
  induction l with
  | nil => cases ha
  | cons b l ih =>
    rw [List.mapM_cons]
    rcases List.mem_cons.mp ha with rfl | ha
    · rw [h]
      rfl
    · rw [ih ha]
      cases f b <;> rfl

end Pheromone.Lib
