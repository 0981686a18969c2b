import Pheromone.Lib.Replicas

/-!
# Batches of a fixed size

The machine that gathers objects and acts on them as soon as it has `c`.  Its
replicas do not agree by themselves on where a batch ends.  They do as long as a
node fills a batch only when the coordinator, after the reports of that node
that are under way, will have gathered the same objects, and as long as no other
report overtakes a flagged one.
-/

namespace Pheromone.Lib

variable {α : Type}
variable {buffer : List α} {reports : List (α × Bool)} {c : Nat} {a : α}

def batch (c : Nat) : Machine (List α) α (List α) where
  arrive buffer a :=
    if c ≤ buffer.length + 1 then ([], [buffer ++ [a]]) else (buffer ++ [a], [])
  clear _ := []

def receive (c : Nat) (buffer : List α) (e : α × Bool) : List α :=
  ((batch c).arrive buffer e.1).1

theorem batch_arrive_full (h : c ≤ buffer.length + 1) (a : α) :
    (batch c).arrive buffer a = ([], [buffer ++ [a]]) := if_pos h

theorem batch_arrive_short (h : ¬ c ≤ buffer.length + 1) (a : α) :
    (batch c).arrive buffer a = (buffer ++ [a], []) := if_neg h

/-! ## A buffer and the reports that it is about to get -/

def Aligned (c : Nat) : List α → List (α × Bool) → Prop
  | _, [] => True
  | buffer, e :: rest =>
      (e.2 = true → c ≤ buffer.length + 1) ∧ Aligned c (receive c buffer e) rest

/-- The objects of the buffer and of the reports that no node has acted on. -/
def live (c : Nat) : List α → List (α × Bool) → List α
  | buffer, [] => buffer
  | buffer, e :: rest =>
      if c ≤ buffer.length + 1 then (if e.2 then [] else buffer ++ [e.1]) ++ live c [] rest
      else live c (buffer ++ [e.1]) rest

theorem live_full (h : c ≤ buffer.length + 1) (e : α × Bool) (rest : List (α × Bool)) :
    live c buffer (e :: rest) = (if e.2 then [] else buffer ++ [e.1]) ++ live c [] rest := if_pos h

theorem live_short (h : ¬ c ≤ buffer.length + 1) (e : α × Bool)
    (rest : List (α × Bool)) : live c buffer (e :: rest) = live c (buffer ++ [e.1]) rest := if_neg h

theorem receive_full (h : c ≤ buffer.length + 1) (e : α × Bool) :
    receive c buffer e = [] := by
  rw [receive, batch_arrive_full h]

theorem receive_short (h : ¬ c ≤ buffer.length + 1)
    (e : α × Bool) : receive c buffer e = buffer ++ [e.1] := by
  rw [receive, batch_arrive_short h]

theorem aligned_append {e : α × Bool} (h : Aligned c buffer reports)
    (he : e.2 = true → c ≤ (reports.foldl (receive c) buffer).length + 1) :
    Aligned c buffer (reports ++ [e]) := by
  induction reports generalizing buffer with
  | nil => exact ⟨he, trivial⟩
  | cons e' reports ih => exact ⟨h.1, ih h.2 he⟩

theorem aligned_of_unflagged (h : ∀ e ∈ reports, e.2 = false) : Aligned c buffer reports := by
  induction reports generalizing buffer with
  | nil => trivial
  | cons e reports ih =>
    refine ⟨fun he => ?_, ih fun e' he' => h e' (List.mem_cons_of_mem _ he')⟩
    rw [h e List.mem_cons_self] at he
    cases he

theorem live_append_unflagged (c : Nat) (buffer : List α) (reports : List (α × Bool)) (a : α) :
    live c buffer (reports ++ [(a, false)]) = live c buffer reports ++ [a] := by
  induction reports generalizing buffer with
  | nil =>
    by_cases hfull : c ≤ buffer.length + 1 <;> simp [live, hfull]
  | cons e reports ih =>
    rw [List.cons_append]
    by_cases hfull : c ≤ buffer.length + 1
    · rw [live_full hfull, live_full hfull, ih, List.append_assoc]
    · rw [live_short hfull, live_short hfull, ih]

theorem live_append_flagged (a : α) (h : c ≤ (reports.foldl (receive c) buffer).length + 1) :
    live c buffer reports =
      live c buffer (reports ++ [(a, true)]) ++ reports.foldl (receive c) buffer := by
  induction reports generalizing buffer with
  | nil =>
    rw [List.foldl_nil] at h
    simp [live, h]
  | cons e reports ih =>
    rw [List.foldl_cons] at h
    rw [List.cons_append, List.foldl_cons]
    by_cases hfull : c ≤ buffer.length + 1
    · rw [receive_full hfull] at h ⊢
      rw [live_full hfull, live_full hfull, ih h, List.append_assoc]
    · rw [receive_short hfull] at h ⊢
      rw [live_short hfull, live_short hfull, ih h]

theorem live_of_unflagged (h : ∀ e ∈ reports, e.2 = false) :
    live c buffer reports = buffer ++ reports.map Prod.fst := by
  induction reports generalizing buffer with
  | nil => simp [live]
  | cons e reports ih =>
    have hrest := fun e' he' => h e' (List.mem_cons_of_mem _ he')
    have he : e.2 = false := h e List.mem_cons_self
    by_cases hfull : c ≤ buffer.length + 1
    · rw [live_full hfull, ih hrest]
      simp [he]
    · rw [live_short hfull, ih hrest]
      simp

/-! ## Balance -/

namespace Replicas

variable {ι : Type}

/-- The node `i` has gathered what the coordinator will have gathered after the
reports of `i` that are under way. -/
def InStep (c : Nat) (r : Replicas ι (List α) α (List α)) (i : ι) : Prop :=
  r.nodes i = (r.channels i).foldl (receive c) r.coord

section Balance

variable [BEq α]

/-- Only reports of `i` may be flagged.  Every object that the coordinator has
seen, or will see from `i`, is in one batch that really fired or is live. -/
structure Balanced (c : Nat) (r : Replicas ι (List α) α (List α)) (i : ι) : Prop where
  alone : r.Alone i
  aligned : Aligned c r.coord (r.channels i)
  balance : ∀ a, r.fired.flatten.count a + (live c r.coord (r.channels i)).count a =
    ((r.channels i).map Prod.fst).count a + (r.reported.map Prod.snd).count a

namespace Balanced

variable {c : Nat} {r : Replicas ι (List α) α (List α)} {i : ι}

theorem initial (hcoord : r.coord = []) (hchannels : ∀ i, r.channels i = [])
    (hreported : r.reported = []) (hfired : r.fired = []) (i : ι) : Balanced c r i := by
  refine ⟨?_, ?_, ?_⟩
  · intro j _ e he
    rw [hchannels j] at he
    cases he
  · rw [hchannels i]
    trivial
  · intro a
    simp [hcoord, hchannels, hreported, hfired, live]

variable [DecidableEq ι]

theorem switch (h : Balanced c r i) {j : ι} (hj : r.Alone j) : Balanced c r j := by
  by_cases hji : j = i
  · subst hji
    exact h
  · have hunflagged := h.alone j hji
    have hbalance := h.balance
    rw [live_of_unflagged (hj i (Ne.symm hji))] at hbalance
    refine ⟨hj, aligned_of_unflagged hunflagged, fun a => ?_⟩
    have ha := hbalance a
    rw [live_of_unflagged hunflagged]
    rw [List.count_append] at ha ⊢
    omega

theorem put_short (h : Balanced c r i) {j : ι} (hshort : ¬ c ≤ (r.nodes j).length + 1)
    (a : α) : Balanced c (r.put (batch c) j a) i := by
  by_cases hij : i = j
  · subst hij
    refine ⟨?_, ?_, fun b => ?_⟩
    · intro l hl e he
      simp only [Replicas.put, Function.update_of_ne hl] at he
      exact h.alone l hl e he
    · simp only [Replicas.put, Function.update_self, batch_arrive_short hshort]
      exact aligned_append h.aligned (fun he => by cases he)
    · have hb := h.balance b
      simp only [Replicas.put, Function.update_self, batch_arrive_short hshort, List.append_nil]
      change _ + List.count b (live c r.coord (r.channels i ++ [(a, false)])) = _
      rw [live_append_unflagged, List.count_append, List.map_append, List.count_append]
      simp only [List.map_cons, List.map_nil]
      omega
  · refine ⟨?_, ?_, fun b => ?_⟩
    · intro l hl e he
      exact (put_channels_unflagged (by rw [batch_arrive_short hshort]) he).elim (h.alone l hl e) id
    · simp only [Replicas.put, Function.update_of_ne hij]
      exact h.aligned
    · simp only [Replicas.put, Function.update_of_ne hij, batch_arrive_short hshort,
        List.append_nil]
      exact h.balance b

theorem clear (h : Balanced c r i) (j : ι) : Balanced c (r.clear (batch c) j) i :=
  ⟨h.alone, h.aligned, h.balance⟩

theorem put_full (h : Balanced c r i) {j : ι} (hfull : c ≤ (r.nodes j).length + 1)
    (halone : r.Alone j) (hstep : r.InStep c j) (a : α) :
    Balanced c (r.put (batch c) j a) j := by
  have hj := h.switch halone
  have hgathered : c ≤ ((r.channels j).foldl (receive c) r.coord).length + 1 := by
    rw [← hstep]
    exact hfull
  refine ⟨?_, ?_, fun b => ?_⟩
  · intro l hl e he
    simp only [Replicas.put, Function.update_of_ne hl] at he
    exact halone l hl e he
  · simp only [Replicas.put, Function.update_self]
    exact aligned_append hj.aligned fun _ => hgathered
  · have hb := hj.balance b
    rw [live_append_flagged a hgathered, List.count_append, ← hstep] at hb
    simp only [Replicas.put, Function.update_self, batch_arrive_full hfull]
    change _ + List.count b (live c r.coord (r.channels j ++ [(a, true)])) = _
    simp only [List.flatten_append, List.flatten_cons, List.flatten_nil, List.append_nil,
      List.count_append, List.map_append, List.map_cons, List.map_nil] at hb ⊢
    omega

theorem report (h : Balanced c r i) {j : ι} (halone : r.Alone j) {a : α} {active : Bool}
    {rest : List (α × Bool)} (hhead : r.channels j = (a, active) :: rest)
    (receivers : ι → Bool) :
    Balanced c (r.report (batch c) j a active rest receivers) j := by
  obtain ⟨-, haligned, hbalance⟩ := h.switch halone
  rw [hhead] at haligned hbalance
  refine ⟨?_, ?_, fun b => ?_⟩
  · intro l hl e he
    simp only [Replicas.report, Function.update_of_ne hl] at he
    exact halone l hl e he
  · simp only [Replicas.report, Function.update_self]
    exact haligned.2
  · have hb := hbalance b
    simp only [Replicas.report, Function.update_self]
    by_cases hfull : c ≤ r.coord.length + 1
    · rw [live_full hfull] at hb
      rw [batch_arrive_full hfull]
      cases active <;>
        simp only [if_true, Bool.false_eq_true, if_false, List.flatten_append,
          List.flatten_cons, List.flatten_nil, List.append_nil, List.nil_append,
          List.count_append, List.map_append, List.map_cons, List.map_nil,
          List.count_cons, List.count_nil] at hb ⊢ <;>
        omega
    · have hunflagged : active = false := by
        cases active with
        | false => rfl
        | true => exact absurd (haligned.1 rfl) hfull
      subst hunflagged
      rw [live_short hfull] at hb
      rw [batch_arrive_short hfull]
      simp only [Bool.false_eq_true, if_false, List.append_nil, List.map_append, List.map_cons,
        List.map_nil, List.count_append, List.count_cons, List.count_nil] at hb ⊢
      omega

/-! ## What balance means -/

variable [LawfulBEq α]

theorem count_fired_le_one (h : Balanced c r i) (hplaced : r.Placed)
    (honce : (r.puts.map Prod.snd).Nodup) (a : α) : r.fired.flatten.count a ≤ 1 := by
  have hseen := List.nodup_iff_count_le_one.mp (hplaced.nodup honce i) a
  have ha := h.balance a
  rw [List.count_append] at hseen
  omega

theorem count_of_quiet (h : Balanced c r i) (hplaced : r.Placed)
    (honce : (r.puts.map Prod.snd).Nodup) (hquiet : ∀ j, r.channels j = []) {a : α}
    (ha : a ∈ r.puts.map Prod.snd) : r.fired.flatten.count a + r.coord.count a = 1 := by
  have hbalance := h.balance a
  have hall := ((hplaced.perm_of_quiet hquiet).map Prod.snd).count_eq a
  rw [hquiet i] at hbalance
  rw [List.count_eq_one_of_mem honce ha] at hall
  simp only [live, List.map_nil, List.count_nil, Nat.zero_add] at hbalance
  omega

end Balanced

end Balance

/-! ## A single node -/

def Exactly (c : Nat) : List α → List (α × Bool) → Prop
  | _, [] => True
  | buffer, e :: rest =>
      (e.2 = true ↔ c ≤ buffer.length + 1) ∧ Exactly c (receive c buffer e) rest

theorem exactly_append {c : Nat} {buffer : List α} {reports : List (α × Bool)} {e : α × Bool}
    (h : Exactly c buffer reports)
    (he : e.2 = true ↔ c ≤ (reports.foldl (receive c) buffer).length + 1) :
    Exactly c buffer (reports ++ [e]) := by
  induction reports generalizing buffer with
  | nil => exact ⟨he, trivial⟩
  | cons e' reports ih => exact ⟨h.1, ih h.2 he⟩

/-- Only the node `i` has put objects, and it and the coordinator fill the same
batches. -/
structure Synced (c : Nat) (r : Replicas ι (List α) α (List α)) (i : ι) : Prop where
  others : ∀ j, j ≠ i → r.channels j = []
  inStep : r.InStep c i
  exactly : Exactly c r.coord (r.channels i)
  clears : ∀ j, r.clears j = 0

namespace Synced

variable {c : Nat} {r : Replicas ι (List α) α (List α)} {i : ι}

theorem alone (h : Synced c r i) : r.Alone i := by
  intro j hj e he
  rw [h.others j hj] at he
  cases he

variable [DecidableEq ι]

theorem put (h : Synced c r i) (a : α) : Synced c (r.put (batch c) i a) i := by
  have hstep := h.inStep
  unfold InStep at hstep
  refine ⟨?_, ?_, ?_, h.clears⟩
  · intro j hj
    simp only [Replicas.put, Function.update_of_ne hj]
    exact h.others j hj
  · unfold InStep
    simp only [Replicas.put, Function.update_self, List.foldl_append, List.foldl_cons,
      List.foldl_nil, ← hstep]
    rfl
  · simp only [Replicas.put, Function.update_self]
    refine exactly_append h.exactly ?_
    rw [← hstep]
    by_cases hfull : c ≤ (r.nodes i).length + 1
    · simp [batch_arrive_full hfull, hfull]
    · simp [batch_arrive_short hfull, hfull]

theorem report (h : Synced c r i) {j : ι} {a : α} {active : Bool} {rest : List (α × Bool)}
    (hhead : r.channels j = (a, active) :: rest) (receivers : ι → Bool) :
    Synced c (r.report (batch c) j a active rest receivers) i := by
  have hj : j = i := by
    by_contra hne
    rw [h.others j hne] at hhead
    cases hhead
  subst hj
  have hstep := h.inStep
  have hexactly := h.exactly
  unfold InStep at hstep
  rw [hhead] at hstep hexactly
  -- the coordinator never acts on its own
  have hnothing : (if active then [] else ((batch c).arrive r.coord a).2) = [] := by
    cases active with
    | true => rfl
    | false =>
      have hshort : ¬ c ≤ r.coord.length + 1 := fun hfull =>
        Bool.false_ne_true (hexactly.1.mpr hfull)
      rw [batch_arrive_short hshort]
      rfl
  refine ⟨?_, ?_, ?_, ?_⟩
  · intro l hl
    simp only [Replicas.report, Function.update_of_ne hl]
    exact h.others l hl
  · unfold InStep
    simp only [Replicas.report, Function.update_self]
    exact hstep
  · simp only [Replicas.report, Function.update_self]
    exact hexactly.2
  · intro l
    simp [Replicas.report, hnothing, h.clears l]

theorem step (h : Synced c r i) {r' : Replicas ι (List α) α (List α)}
    (hstep : Step (batch c) r r') (hputs : ∀ p ∈ r'.puts, p.1 = i) : Synced c r' i := by
  cases hstep with
  | put j a =>
    have hj : j = i := hputs (j, a) (by simp [Replicas.put])
    subst hj
    exact h.put a
  | report j a active rest receivers hhead => exact h.report hhead receivers
  | clear j hj =>
    rw [h.clears j] at hj
    exact absurd hj (Nat.lt_irrefl 0)

end Synced

end Replicas

end Pheromone.Lib
