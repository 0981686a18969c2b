import Mathlib.Data.Multiset.Filter
import Mathlib.Order.Basic

/-!
# Priority queues

A queue of items with a key, which shows an item with the least key.  Which one it shows
among items with the same key depends on the implementation; the last law says that an
item is not replaced at the top by one that is not smaller, as in a binary heap, where a new
item moves up past larger ones only.

`drain` is the loop that takes the items up to a limit off such a queue, while the body
of the loop may push new items before the top is removed.
-/

namespace Pheromone.Lib

structure PriorityQueue {α κ : Type} [LinearOrder κ] (key : α → κ) where
  Carrier : Type
  items : Carrier → Multiset α
  push : Carrier → α → Carrier
  top : Carrier → Option α
  pop : Carrier → Carrier
  items_push : ∀ q a, items (push q a) = a ::ₘ items q
  top_eq_none : ∀ q, top q = none → items q = 0
  top_mem : ∀ q a, top q = some a → a ∈ items q
  top_le : ∀ q a, top q = some a → ∀ b ∈ items q, key a ≤ key b
  items_pop : ∀ q a, top q = some a → a ::ₘ items (pop q) = items q
  top_push : ∀ q a b, top q = some a → key a ≤ key b → top (push q b) = some a

namespace PriorityQueue

variable {α κ σ : Type} [LinearOrder κ] {key : α → κ} (P : PriorityQueue key)

theorem items_foldl_push (out : List α) (q : P.Carrier) :
    P.items (out.foldl P.push q) = P.items q + out := by
  induction out generalizing q with
  | nil => rw [List.foldl_nil, Multiset.coe_nil, Multiset.add_zero]
  | cons b out ih =>
    rw [List.foldl_cons, ih, P.items_push, ← Multiset.cons_coe, Multiset.cons_add,
      Multiset.add_cons]

variable {P} in
theorem top_foldl_push {out : List α} {q : P.Carrier} {a : α} (htop : P.top q = some a)
    (hout : ∀ b ∈ out, key a ≤ key b) : P.top (out.foldl P.push q) = some a := by
  induction out generalizing q with
  | nil => exact htop
  | cons b out ih =>
    exact ih (P.top_push q a b htop (hout b List.mem_cons_self))
      fun c hc => hout c (List.mem_cons_of_mem b hc)

/-! ## Draining up to a limit -/

/-- One iteration: the item at the top, what the body pushed, and the item that the pop
then removed. -/
structure Round (α : Type) where
  item : α
  pushed : List α
  popped : Option α

structure Drained (σ : Type) where
  rounds : List (Round α)
  queue : P.Carrier
  state : σ
  /-- The loop ended by its condition, not for want of fuel. -/
  ended : Bool

/-- The loop `while (!empty() && top() <= limit) { item = top(); body(item); pop(); }`, with
`fuel` iterations at most.  The body gets the number of the iteration, and returns what it
pushes. -/
def drain (body : Nat → α → σ → Option (σ × List α)) (limit : κ) :
    Nat → Nat → P.Carrier → σ → Option (P.Drained σ)
  | fuel, n, q, s =>
      match P.top q with
      | none => some { rounds := [], queue := q, state := s, ended := true }
      | some a =>
          if key a ≤ limit then
            match fuel with
            | 0 => some { rounds := [], queue := q, state := s, ended := false }
            | fuel + 1 =>
                (body n a s).bind fun next =>
                  let q' := next.2.foldl P.push q
                  (drain body limit fuel (n + 1) (P.pop q') next.1).map fun r =>
                    { r with
                      rounds := { item := a, pushed := next.2, popped := P.top q' } :: r.rounds }
          else some { rounds := [], queue := q, state := s, ended := true }

/-- The items of `q` up to the limit. -/
def due (limit : κ) (q : P.Carrier) : Multiset α := (P.items q).filter (key · ≤ limit)

/-- The loop took exactly the due items off the queue, each one in the iteration that handled
it, and left the others and what was pushed. -/
structure Exhausts (limit : κ) (q : P.Carrier) (r : P.Drained σ) : Prop where
  ended : r.ended = true
  iterations : r.rounds.length = (P.due limit q).card
  handled : (r.rounds.map Round.item : Multiset α) = P.due limit q
  popped : ∀ round ∈ r.rounds, round.popped = some round.item
  remaining : P.items r.queue =
    (P.items q).filter (fun a => ¬ key a ≤ limit) + (r.rounds.flatMap Round.pushed : List α)

variable {P} {body : Nat → α → σ → Option (σ × List α)} {limit : κ}

theorem exhausts_nil {q : P.Carrier} (hq : ∀ a ∈ P.items q, ¬ key a ≤ limit) (s : σ) :
    P.Exhausts limit q { rounds := [], queue := q, state := s, ended := true } := by
  have hdue : P.due limit q = 0 := Multiset.filter_eq_nil.mpr hq
  refine ⟨rfl, ?_, ?_, ?_, ?_⟩
  · rw [hdue]
    rfl
  · rw [hdue]
    rfl
  · intro round hround
    cases hround
  · rw [Multiset.filter_eq_self.mpr hq]
    exact (Multiset.add_zero _).symm

section Iteration

variable {q : P.Carrier} {a : α} {out : List α} (htop : P.top q = some a) (hdue : key a ≤ limit)
  (hout : ∀ b ∈ out, limit < key b)

include htop hdue hout

theorem top_pushed : P.top (out.foldl P.push q) = some a :=
  top_foldl_push htop fun b hb => hdue.trans (hout b hb).le

theorem items_popped :
    P.items q + out = a ::ₘ P.items (P.pop (out.foldl P.push q)) := by
  rw [P.items_pop _ a (top_pushed htop hdue hout), items_foldl_push]

theorem due_popped : P.due limit q = a ::ₘ P.due limit (P.pop (out.foldl P.push q)) := by
  have hlate : Multiset.filter (key · ≤ limit) (out : Multiset α) = 0 :=
    Multiset.filter_eq_nil.mpr fun b hb => (hout b hb).not_ge
  have hfilter := congrArg (Multiset.filter (key · ≤ limit)) (items_popped htop hdue hout)
  rwa [Multiset.filter_add, hlate, Multiset.add_zero,
    Multiset.filter_cons_of_pos (p := (key · ≤ limit)) _ hdue] at hfilter

theorem rest_popped :
    (P.items (P.pop (out.foldl P.push q))).filter (fun b => ¬ key b ≤ limit) =
      (P.items q).filter (fun b => ¬ key b ≤ limit) + out := by
  have hkept : Multiset.filter (fun b => ¬ key b ≤ limit) (out : Multiset α) = out :=
    Multiset.filter_eq_self.mpr fun b hb => (hout b hb).not_ge
  have hfilter := congrArg (Multiset.filter fun b => ¬ key b ≤ limit)
    (items_popped htop hdue hout)
  rw [Multiset.filter_add, hkept,
    Multiset.filter_cons_of_neg (p := fun b => ¬ key b ≤ limit) _ (not_not.mpr hdue)] at hfilter
  exact hfilter.symm

theorem Exhausts.cons {r : P.Drained σ}
    (h : P.Exhausts limit (P.pop (out.foldl P.push q)) r) :
    P.Exhausts limit q { r with
      rounds := { item := a, pushed := out, popped := P.top (out.foldl P.push q) } ::
        r.rounds } := by
  have hnow := due_popped htop hdue hout
  refine ⟨h.ended, ?_, ?_, ?_, ?_⟩
  · rw [hnow, Multiset.card_cons, ← h.iterations]
    rfl
  · rw [hnow, ← h.handled]
    rfl
  · intro round hround
    rcases List.mem_cons.mp hround with rfl | hround
    · exact top_pushed htop hdue hout
    · exact h.popped round hround
  · change P.items r.queue = _
    rw [h.remaining, rest_popped htop hdue hout, Multiset.add_assoc, List.flatMap_cons,
      Multiset.coe_add]

end Iteration

/-! ### The loop -/

theorem drain_of_not_due {q : P.Carrier} (h : ∀ a, P.top q = some a → ¬ key a ≤ limit)
    (fuel n : Nat) (s : σ) :
    P.drain body limit fuel n q s =
      some { rounds := [], queue := q, state := s, ended := true } := by
  unfold drain
  cases htop : P.top q with
  | none => rfl
  | some a => simp only [if_neg (h a htop)]

theorem drain_zero {q : P.Carrier} {a : α} (htop : P.top q = some a) (hdue : key a ≤ limit)
    (n : Nat) (s : σ) :
    P.drain body limit 0 n q s =
      some { rounds := [], queue := q, state := s, ended := false } := by
  unfold drain
  simp only [htop, if_pos hdue]

theorem drain_succ {q : P.Carrier} {a : α} (htop : P.top q = some a) (hdue : key a ≤ limit)
    (fuel n : Nat) (s : σ) :
    P.drain body limit (fuel + 1) n q s =
      (body n a s).bind fun next =>
        (P.drain body limit fuel (n + 1) (P.pop (next.2.foldl P.push q)) next.1).map fun r =>
          { r with
            rounds := { item := a, pushed := next.2, popped := P.top (next.2.foldl P.push q) } ::
              r.rounds } := by
  rw [drain]
  simp only [htop, if_pos hdue]

variable (P limit) in
theorem due_or_not (q : P.Carrier) :
    (∀ a, P.top q = some a → ¬ key a ≤ limit) ∨ ∃ a, P.top q = some a ∧ key a ≤ limit := by
  by_cases h : ∃ a, P.top q = some a ∧ key a ≤ limit
  · exact Or.inr h
  · exact Or.inl fun a htop hdue => h ⟨a, htop, hdue⟩

theorem not_due_of_top {q : P.Carrier} (h : ∀ a, P.top q = some a → ¬ key a ≤ limit) :
    ∀ b ∈ P.items q, ¬ key b ≤ limit := by
  intro b hb
  cases htop : P.top q with
  | none =>
    rw [P.top_eq_none q htop] at hb
    exact absurd hb (Multiset.notMem_zero b)
  | some a => exact fun hle => h a htop ((P.top_le q a htop b hb).trans hle)

/-- With fuel for the due items, and a body that pushes only items beyond the limit, the loop
exhausts the queue. -/
theorem drain_exhausts
    (hbody : ∀ n a s next, body n a s = some next → ∀ b ∈ next.2, limit < key b)
    {fuel n : Nat} {q : P.Carrier} {s : σ} {r : P.Drained σ}
    (hfuel : (P.due limit q).card ≤ fuel) (h : P.drain body limit fuel n q s = some r) :
    P.Exhausts limit q r := by
  induction fuel generalizing n q s r with
  | zero =>
    have hnone := Multiset.filter_eq_nil.mp (Multiset.card_eq_zero.mp (Nat.le_zero.mp hfuel))
    rw [drain_of_not_due fun a htop => hnone a (P.top_mem q a htop)] at h
    cases h
    exact exhausts_nil hnone s
  | succ fuel ih =>
    rcases due_or_not P limit q with hnot | ⟨a, htop, hdue⟩
    · rw [drain_of_not_due hnot] at h
      cases h
      exact exhausts_nil (not_due_of_top hnot) s
    · rw [drain_succ htop hdue] at h
      obtain ⟨next, hnext, h⟩ := Option.bind_eq_some_iff.mp h
      obtain ⟨r', hr', rfl⟩ := Option.map_eq_some_iff.mp h
      have hout := hbody n a s next hnext
      rw [due_popped htop hdue hout, Multiset.card_cons] at hfuel
      exact (ih (Nat.le_of_succ_le_succ hfuel) hr').cons htop hdue hout

/-- The loop is defined when its body is, on the states that the body keeps to. -/
theorem drain_isSome {Inv : σ → Prop}
    (hbody : ∀ n a s, Inv s → ∃ next, body n a s = some next ∧ Inv next.1)
    (fuel n : Nat) (q : P.Carrier) {s : σ} (hs : Inv s) :
    (P.drain body limit fuel n q s).isSome := by
  induction fuel generalizing n q s with
  | zero =>
    rcases due_or_not P limit q with hnot | ⟨a, htop, hdue⟩
    · rw [drain_of_not_due hnot]
      rfl
    · rw [drain_zero htop hdue]
      rfl
  | succ fuel ih =>
    rcases due_or_not P limit q with hnot | ⟨a, htop, hdue⟩
    · rw [drain_of_not_due hnot]
      rfl
    · obtain ⟨next, hnext, hinv⟩ := hbody n a s hs
      rw [drain_succ htop hdue, hnext, Option.bind_some, Option.isSome_map]
      exact ih _ _ hinv

end PriorityQueue

end Pheromone.Lib
