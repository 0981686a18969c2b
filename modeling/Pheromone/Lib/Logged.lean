import Mathlib.Data.List.Basic

/-!
# Partial computations with a log

A computation that may fail and writes a log on the way.  The log survives a failure,
so that the calls a computation makes can be judged also when one of them is undefined.
A computation in any `LogMonad` can be run with the log or without it.  The rules derive
what holds of everything that is logged together with what holds of the result.
-/

namespace Pheromone.Lib

/-- Partial computations that may keep a log. -/
class LogMonad (ω : Type) (m : Type → Type) extends Monad m where
  /-- Write to the log before the computation `x`. -/
  tell {α : Type} (log : List ω) (x : Option α) : m α

@[default_instance]
instance {ω : Type} : LogMonad ω Option where
  tell _ x := x

structure Logged (ω α : Type) where
  log : List ω
  result : Option α

namespace Logged

variable {ω α β : Type}

instance : LogMonad ω (Logged ω) where
  pure a := ⟨[], some a⟩
  bind x f := ⟨x.log ++ x.result.elim [] fun a => (f a).log, x.result.bind fun a => (f a).result⟩
  tell log x := ⟨log, x⟩

/-! ## Forgetting the log -/

@[simp] theorem result_pure (a : α) : (pure a : Logged ω α).result = some a := rfl

@[simp] theorem result_bind (x : Logged ω α) (f : α → Logged ω β) :
    (x >>= f).result = x.result.bind fun a => (f a).result := rfl

@[simp] theorem result_map (f : α → β) (x : Logged ω α) :
    (f <$> x).result = x.result.map f := by
  cases hx : x.result <;> simp [Functor.map, hx]

@[simp] theorem result_foldlM (f : β → α → Logged ω β) (l : List α) (b : β) :
    (l.foldlM f b).result = l.foldlM (fun b a => (f b a).result) b := by
  induction l generalizing b with
  | nil => rfl
  | cons a l ih =>
    rw [List.foldlM_cons, List.foldlM_cons, result_bind]
    cases (f b a).result with
    | none => rfl
    | some b' => exact ih b'

/-! ## Rules -/

/-- Everything that is logged meets `P`, and the result, if there is one, meets `Q`. -/
structure Holds (P : ω → Prop) (Q : α → Prop) (x : Logged ω α) : Prop where
  log : ∀ w ∈ x.log, P w
  result : ∀ a, x.result = some a → Q a

variable {P : ω → Prop} {Q : α → Prop} {R : β → Prop}

theorem holds_pure {a : α} (h : Q a) : Holds P Q (pure a) :=
  ⟨fun _ hw => absurd hw List.not_mem_nil, fun _ ha => Option.some.inj ha ▸ h⟩

theorem holds_tell {log : List ω} {x : Option α} (hlog : ∀ w ∈ log, P w)
    (h : ∀ a, x = some a → Q a) : Holds P Q (LogMonad.tell log x) :=
  ⟨hlog, h⟩

theorem Holds.bind {x : Logged ω β} {f : β → Logged ω α} (hx : Holds P R x)
    (hf : ∀ b, R b → Holds P Q (f b)) : Holds P Q (x >>= f) := by
  cases hresult : x.result with
  | none =>
    refine ⟨fun w hw => hx.log w ?_, fun a ha => ?_⟩
    · change w ∈ x.log ++ x.result.elim [] _ at hw
      simpa [hresult] using hw
    · rw [result_bind, hresult] at ha
      cases ha
  | some b =>
    have hb := hf b (hx.result b hresult)
    refine ⟨fun w hw => ?_, fun a ha => hb.result a ?_⟩
    · change w ∈ x.log ++ x.result.elim [] _ at hw
      rw [hresult] at hw
      exact (List.mem_append.mp hw).elim (hx.log w) (hb.log w)
    · rwa [result_bind, hresult] at ha

theorem Holds.map {x : Logged ω β} {f : β → α} (hx : Holds P R x) (hf : ∀ b, R b → Q (f b)) :
    Holds P Q (f <$> x) :=
  hx.bind fun b hb => holds_pure (hf b hb)

/-- A loop whose iterations keep the invariant `Q` and log only what meets `P`. -/
theorem holds_foldlM {f : α → β → Logged ω α} {l : List β} {a : α}
    (hf : ∀ a, ∀ b ∈ l, Q a → Holds P Q (f a b)) (ha : Q a) : Holds P Q (l.foldlM f a) := by
  induction l generalizing a with
  | nil => exact holds_pure ha
  | cons b l ih =>
    rw [List.foldlM_cons]
    exact (hf a b List.mem_cons_self ha).bind fun a' ha' =>
      ih (fun a c hc => hf a c (List.mem_cons_of_mem _ hc)) ha'

end Logged

end Pheromone.Lib
