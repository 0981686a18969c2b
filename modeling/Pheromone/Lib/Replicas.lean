import Mathlib.Data.Finset.Defs
import Mathlib.Data.List.Count
import Mathlib.Data.List.Nodup
import Mathlib.Data.List.Perm.Subperm
import Pheromone.Lib.Channel

/-!
# Replicas of a machine behind FIFO reports

A machine sees objects one by one and acts on some of them.  One copy of it runs
on every node and one on a coordinator.  A node runs its own copy on an object
that is put there and reports the object, with a flag that says whether its copy
acted.  The coordinator runs its copy on each report; it ignores what its copy
does on a flagged report, and otherwise acts and asks some nodes to clear their
copies.
-/

namespace Pheromone.Lib

structure Machine (σ α β : Type) where
  arrive : σ → α → σ × List β
  clear : σ → σ

@[ext] structure Replicas (ι σ α β : Type) where
  coord : σ
  nodes : ι → σ
  /-- The reports under way from each node, oldest first. -/
  channels : ι → List (α × Bool)
  /-- How many requests to clear are under way to each node. -/
  clears : ι → Nat
  /-- Where each object was put, oldest first. -/
  puts : List (ι × α)
  /-- The objects that the coordinator has seen, with their nodes. -/
  reported : List (ι × α)
  /-- What the nodes and the coordinator really did. -/
  fired : List β

namespace Replicas

variable {ι σ α β : Type} [DecidableEq ι]

def put (M : Machine σ α β) (r : Replicas ι σ α β) (i : ι) (a : α) : Replicas ι σ α β :=
  let result := M.arrive (r.nodes i) a
  { r with
    nodes := Function.update r.nodes i result.1
    channels := Function.update r.channels i (r.channels i ++ [(a, decide (result.2.length ≠ 0))])
    puts := r.puts ++ [(i, a)]
    fired := r.fired ++ result.2 }

def report (M : Machine σ α β) (r : Replicas ι σ α β) (i : ι) (a : α) (active : Bool)
    (rest : List (α × Bool)) (receivers : ι → Bool) : Replicas ι σ α β :=
  let result := M.arrive r.coord a
  let really := if active then [] else result.2
  { r with
    coord := result.1
    channels := Function.update r.channels i rest
    clears := fun j => r.clears j + if really.length ≠ 0 ∧ receivers j then 1 else 0
    reported := r.reported ++ [(i, a)]
    fired := r.fired ++ really }

def clear (M : Machine σ α β) (r : Replicas ι σ α β) (i : ι) : Replicas ι σ α β :=
  { r with
    nodes := Function.update r.nodes i (M.clear (r.nodes i))
    clears := Function.update r.clears i (r.clears i - 1) }

/-- One step that is possible in `r`. -/
inductive Step (M : Machine σ α β) (r : Replicas ι σ α β) : Replicas ι σ α β → Prop
  | put (i : ι) (a : α) : Step M r (r.put M i a)
  | report (i : ι) (a : α) (active : Bool) (rest : List (α × Bool)) (receivers : ι → Bool)
      (h : r.channels i = (a, active) :: rest) : Step M r (r.report M i a active rest receivers)
  | clear (i : ι) (h : 0 < r.clears i) : Step M r (r.clear M i)

section Fields

variable (M : Machine σ α β) (r : Replicas ι σ α β) (i : ι) (a : α)

theorem put_puts : (r.put M i a).puts = r.puts ++ [(i, a)] := rfl

theorem put_objects : (r.put M i a).puts.map Prod.snd = r.puts.map Prod.snd ++ [a] :=
  List.map_append

theorem put_fired : (r.put M i a).fired = r.fired ++ (M.arrive (r.nodes i) a).2 := rfl

theorem put_nodes_self : (r.put M i a).nodes i = (M.arrive (r.nodes i) a).1 :=
  Function.update_self i _ r.nodes

variable {M r i a} in
theorem put_nodes_of_ne {j : ι} (h : j ≠ i) : (r.put M i a).nodes j = r.nodes j :=
  Function.update_of_ne h _ r.nodes

variable (active : Bool) (rest : List (α × Bool)) (receivers : ι → Bool)

theorem report_coord : (r.report M i a active rest receivers).coord = (M.arrive r.coord a).1 := rfl

theorem report_reported :
    (r.report M i a active rest receivers).reported = r.reported ++ [(i, a)] := rfl

theorem report_fired : (r.report M i a active rest receivers).fired =
    r.fired ++ if active then [] else (M.arrive r.coord a).2 := rfl

theorem report_channels_self : (r.report M i a active rest receivers).channels i = rest :=
  Function.update_self i _ r.channels

variable {M r i a active rest receivers}

theorem put_channels_self (h : (M.arrive (r.nodes i) a).2 = []) :
    (r.put M i a).channels i = r.channels i ++ [(a, false)] := by
  simp [put, h]

theorem put_channels_of_ne {j : ι} (h : j ≠ i) : (r.put M i a).channels j = r.channels j :=
  Function.update_of_ne h _ r.channels

theorem put_channels_unflagged (h : (M.arrive (r.nodes i) a).2 = []) {j : ι} {e : α × Bool}
    (he : e ∈ (r.put M i a).channels j) : e ∈ r.channels j ∨ e.2 = false := by
  refine (mem_update_send he).imp_right fun hnew => ?_
  rw [List.mem_singleton.mp hnew.2, h]
  rfl

theorem report_channels_of_ne {j : ι} (h : j ≠ i) :
    (r.report M i a active rest receivers).channels j = r.channels j :=
  Function.update_of_ne h _ r.channels

theorem mem_of_report_channels (hhead : r.channels i = (a, active) :: rest) {j : ι}
    {e : α × Bool} (he : e ∈ (r.report M i a active rest receivers).channels j) :
    e ∈ r.channels j :=
  mem_of_mem_update_rest hhead he

theorem report_clears (h : active = false → (M.arrive r.coord a).2 = []) (j : ι) :
    (r.report M i a active rest receivers).clears j = r.clears j := by
  cases active with
  | false => simp [report, h rfl]
  | true => simp [report]

end Fields

/-- No report of another node than `i` is flagged. -/
def Alone (r : Replicas ι σ α β) (i : ι) : Prop := ∀ j, j ≠ i → ∀ e ∈ r.channels j, e.2 = false

/-! ## Objects and reports -/

def objectsAt (i : ι) (log : List (ι × α)) : List α :=
  (log.filter fun p => p.1 = i).map Prod.snd

theorem mem_objectsAt {i : ι} {log : List (ι × α)} {a : α} :
    a ∈ objectsAt i log ↔ (i, a) ∈ log := by
  simp [objectsAt]

theorem objectsAt_append (i : ι) (log log' : List (ι × α)) :
    objectsAt i (log ++ log') = objectsAt i log ++ objectsAt i log' := by
  simp [objectsAt]

theorem objectsAt_self (i : ι) (a : α) : objectsAt i [(i, a)] = [a] := by
  simp [objectsAt]

theorem objectsAt_of_ne {i j : ι} (h : j ≠ i) (a : α) : objectsAt j [(i, a)] = [] := by
  simp [objectsAt, Ne.symm h]

theorem length_objectsAt_le (i : ι) (log : List (ι × α)) :
    (objectsAt i log).length ≤ log.length := by
  rw [objectsAt, List.length_map]
  exact List.length_filter_le _ log

theorem length_objectsAt_eq_iff {i : ι} {log : List (ι × α)} :
    (objectsAt i log).length = log.length ↔ ∀ p ∈ log, p.1 = i := by
  rw [objectsAt, List.length_map, List.length_filter_eq_length_iff]
  simp

/-- What was put on a node is what the coordinator has seen of it, followed by
what is under way, in the order of the puts. -/
def Placed (r : Replicas ι σ α β) : Prop :=
  ∀ i, objectsAt i r.puts = objectsAt i r.reported ++ (r.channels i).map Prod.fst

theorem Placed.mem_iff {r : Replicas ι σ α β} (h : r.Placed) (i : ι) (a : α) :
    (i, a) ∈ r.puts ↔ (i, a) ∈ r.reported ∨ a ∈ (r.channels i).map Prod.fst := by
  rw [← mem_objectsAt, h i, List.mem_append, mem_objectsAt]

theorem Placed.mem_puts_of_channel {r : Replicas ι σ α β} (h : r.Placed) {i : ι} {e : α × Bool}
    (he : e ∈ r.channels i) : (i, e.1) ∈ r.puts :=
  (h.mem_iff i e.1).mpr (.inr (List.mem_map_of_mem he))

theorem Placed.mem_puts_of_reported {r : Replicas ι σ α β} (h : r.Placed) {a : α}
    (ha : a ∈ r.reported.map Prod.snd) : a ∈ r.puts.map Prod.snd := by
  obtain ⟨⟨i, b⟩, hp, rfl⟩ := List.mem_map.mp ha
  exact List.mem_map.mpr ⟨(i, b), (h.mem_iff i b).mpr (.inl hp), rfl⟩

omit [DecidableEq ι] in
theorem same_node {r : Replicas ι σ α β} (honce : (r.puts.map Prod.snd).Nodup) {i j : ι} {a : α}
    (hi : (i, a) ∈ r.puts) (hj : (j, a) ∈ r.puts) : i = j :=
  congrArg Prod.fst (List.inj_on_of_nodup_map honce hi hj rfl)

theorem Placed.step {M : Machine σ α β} {r r' : Replicas ι σ α β} (h : r.Placed)
    (hstep : Step M r r') : r'.Placed := by
  intro j
  cases hstep with
  | put i a =>
    by_cases hj : j = i
    · subst hj
      simp [Replicas.put, objectsAt_append, objectsAt_self, h j]
    · simp [Replicas.put, objectsAt_append, objectsAt_of_ne hj, h j, Function.update_of_ne hj]
  | report i a active rest receivers hhead =>
    by_cases hj : j = i
    · subst hj
      simp [Replicas.report, objectsAt_append, objectsAt_self, h j, hhead]
    · simp [Replicas.report, objectsAt_append, objectsAt_of_ne hj, h j,
        Function.update_of_ne hj]
  | clear i _ => exact h j

theorem count_objectsAt [BEq α] [LawfulBEq α] (i : ι) (log : List (ι × α)) (a : α) :
    (objectsAt i log).count a = log.count (i, a) := by
  induction log with
  | nil => rfl
  | cons p log ih =>
    have hsplit : objectsAt i (p :: log) = objectsAt i [p] ++ objectsAt i log :=
      objectsAt_append i [p] log
    rw [hsplit, List.count_append, ih, List.count_cons, Nat.add_comm]
    obtain ⟨j, b⟩ := p
    by_cases hj : i = j
    · subst hj
      by_cases hb : b = a <;> simp [objectsAt_self, hb]
    · simp [objectsAt_of_ne hj, Ne.symm hj]

theorem Placed.subperm {r : Replicas ι σ α β} (h : r.Placed) (i : ι) :
    List.Subperm (r.reported ++ (r.channels i).map fun e => (i, e.1)) r.puts := by
  classical
  rw [List.subperm_ext_iff]
  rintro ⟨j, a⟩ -
  have hcount := congrArg (List.count a) (h j)
  rw [List.count_append, count_objectsAt, count_objectsAt] at hcount
  rw [List.count_append, hcount]
  by_cases hj : j = i
  · subst hj
    have hinj : Function.Injective fun b : α => (j, b) := fun _ _ hb => (Prod.mk.inj hb).2
    have hmap : ((r.channels j).map fun e => (j, e.1)) =
        ((r.channels j).map Prod.fst).map fun b => (j, b) := by
      simp
    have hcopy := List.count_map_of_injective ((r.channels j).map Prod.fst) _ hinj a
    rw [hmap]
    omega
  · have hzero : ((r.channels i).map fun e => (i, e.1)).count (j, a) = 0 := by
      rw [List.count_eq_zero]
      simp [Ne.symm hj]
    omega

theorem Placed.subperm_objects {r : Replicas ι σ α β} (h : r.Placed) (i : ι) :
    List.Subperm (r.reported.map Prod.snd ++ (r.channels i).map Prod.fst)
      (r.puts.map Prod.snd) := by
  obtain ⟨l, hperm, hsub⟩ := h.subperm i
  have hmap := hperm.map Prod.snd
  rw [List.map_append, List.map_map] at hmap
  exact ⟨l.map Prod.snd, hmap, hsub.map Prod.snd⟩

theorem Placed.nodup {r : Replicas ι σ α β} (h : r.Placed)
    (honce : (r.puts.map Prod.snd).Nodup) (i : ι) :
    (r.reported.map Prod.snd ++ (r.channels i).map Prod.fst).Nodup := by
  obtain ⟨l, hperm, hsub⟩ := h.subperm_objects i
  exact hperm.nodup_iff.mp (hsub.nodup honce)

theorem Placed.not_reported {r : Replicas ι σ α β} (h : r.Placed)
    (honce : (r.puts.map Prod.snd).Nodup) {i : ι} {e : α × Bool} (he : e ∈ r.channels i) :
    e.1 ∉ r.reported.map Prod.snd := fun hmem =>
  (List.nodup_append.mp (h.nodup honce i)).2.2 e.1 hmem e.1 (List.mem_map_of_mem he) rfl

theorem Placed.perm_of_quiet {r : Replicas ι σ α β} (h : r.Placed)
    (hquiet : ∀ i, r.channels i = []) : r.reported.Perm r.puts := by
  classical
  rw [List.perm_iff_count]
  rintro ⟨i, a⟩
  have hi := h i
  rw [hquiet i, List.map_nil, List.append_nil] at hi
  rw [← count_objectsAt, ← count_objectsAt, hi]

/-! ## Sets of objects -/

section Sets

variable (K : Finset α) (r : Replicas ι σ α β)

/-- The node `i` alone got the whole set. -/
def Whole (i : ι) : Prop := ∀ a ∈ K, (i, a) ∈ r.puts

/-- The coordinator has seen the whole set. -/
def Seen : Prop := ∀ a ∈ K, a ∈ r.reported.map Prod.snd

def Complete : Prop := ∀ a ∈ K, a ∈ r.puts.map Prod.snd

variable {K r}

theorem Placed.complete_of_seen (h : r.Placed) (hseen : r.Seen K) : r.Complete K :=
  fun a ha => h.mem_puts_of_reported (hseen a ha)

end Sets

/-! ## Machines without memory -/

/-- When what a machine does depends on the object alone, every object is acted
on where it is put and the coordinator never acts. -/
structure Immediate (act : α → List β) (r : Replicas ι σ α β) : Prop where
  fired : r.fired = (r.puts.map Prod.snd).flatMap act
  flags : ∀ i, ∀ e ∈ r.channels i, e.2 = decide ((act e.1).length ≠ 0)

theorem Immediate.step {M : Machine σ α β} {act : α → List β}
    (hact : ∀ s a, (M.arrive s a).2 = act a) {r r' : Replicas ι σ α β} (h : Immediate act r)
    (hstep : Step M r r') : Immediate act r' := by
  cases hstep with
  | put i a =>
    refine ⟨?_, ?_⟩
    · simp [Replicas.put, h.fired, hact]
    · intro j e he
      rcases mem_update_send he with hold | ⟨-, hnew⟩
      · exact h.flags j e hold
      · rw [List.mem_singleton.mp hnew, hact]
  | report i a active rest receivers hhead =>
    have hflag : active = decide ((act a).length ≠ 0) :=
      h.flags i (a, active) (by rw [hhead]; exact List.mem_cons_self)
    have hnothing : (if active then [] else (M.arrive r.coord a).2) = [] := by
      rw [hact, hflag]
      by_cases hnil : act a = [] <;> simp [hnil]
    refine ⟨?_, ?_⟩
    · simp only [Replicas.report, hnothing, List.append_nil]
      exact h.fired
    · exact fun j e he => h.flags j e (mem_of_report_channels hhead he)
  | clear i _ => exact ⟨h.fired, h.flags⟩

end Replicas

end Pheromone.Lib
