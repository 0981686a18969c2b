import Mathlib.Data.Finset.Card
import Pheromone.Lib.Replicas

/-!
# Collecting a set exactly once

The machine that collects the items of a finite set and acts when it has as many
as the set.  If every item is put once, on whichever node, its replicas act at
most once in all, and they have acted once as soon as the coordinator has seen
every item.
-/

namespace Pheromone.Lib

section Machine

variable {α : Type} [DecidableEq α]

def collect (K : Finset α) : Machine (Finset α) α Unit where
  arrive s a :=
    let prepared := insert a s
    if prepared.card = K.card then (∅, [()]) else (prepared, [])
  clear _ := ∅

theorem collect_arrive {K s : Finset α} {a : α} (h : insert a s ⊆ K) :
    (collect K).arrive s a = if insert a s = K then (∅, [()]) else (insert a s, []) := by
  have hcard : (insert a s).card = K.card ↔ insert a s = K :=
    ⟨fun hc => Finset.eq_of_subset_of_card_le h hc.ge, fun hc => by rw [hc]⟩
  simp only [collect, hcard]

end Machine

namespace Replicas

variable {ι α : Type} [DecidableEq ι]

def Done (K : Finset α) (r : Replicas ι (Finset α) α Unit) : Prop :=
  (∃ i, r.Whole K i) ∨ r.Seen K

structure Collecting (K : Finset α) (r : Replicas ι (Finset α) α Unit) : Prop where
  placed : r.Placed
  items : ∀ p ∈ r.puts, p.2 ∈ K
  once : (r.puts.map Prod.snd).Nodup
  node : ∀ i, ((∀ a, a ∈ r.nodes i ↔ (i, a) ∈ r.puts) ∧ ¬ r.Whole K i) ∨
    (r.nodes i = ∅ ∧ r.Complete K)
  coord : ((∀ a, a ∈ r.coord ↔ a ∈ r.reported.map Prod.snd) ∧ ¬ r.Seen K) ∨
    (r.coord = ∅ ∧ r.Seen K)
  -- only the last report of a node that got the whole set is flagged
  flags : ∀ i front a active rest, r.channels i = front ++ (a, active) :: rest →
    (active = true ↔ rest = [] ∧ r.Whole K i)
  clears : ∀ i, 0 < r.clears i → r.Seen K
  firedOnce : r.Done K → r.fired.length = 1
  firedNever : ¬ r.Done K → r.fired.length = 0

namespace Collecting

variable {K : Finset α} {r : Replicas ι (Finset α) α Unit}

theorem fired_le_one (h : Collecting K r) : r.fired.length ≤ 1 := by
  by_cases hdone : r.Done K
  · exact le_of_eq (h.firedOnce hdone)
  · rw [h.firedNever hdone]
    exact Nat.zero_le 1

theorem fired_eq_one (h : Collecting K r) (hcomplete : r.Complete K)
    (hquiet : ∀ i, r.channels i = []) : r.fired.length = 1 := by
  refine h.firedOnce (.inr ?_)
  intro a ha
  obtain ⟨⟨i, b⟩, hp, rfl⟩ := List.mem_map.mp (hcomplete a ha)
  rcases (h.placed.mem_iff i b).mp hp with hseen | hunder
  · exact List.mem_map.mpr ⟨(i, b), hseen, rfl⟩
  · rw [hquiet i] at hunder
    cases hunder

theorem initial (hK : K.Nonempty) (hcoord : r.coord = ∅) (hnodes : ∀ i, r.nodes i = ∅)
    (hchannels : ∀ i, r.channels i = []) (hclears : ∀ i, r.clears i = 0) (hputs : r.puts = [])
    (hreported : r.reported = []) (hfired : r.fired = []) : Collecting K r := by
  obtain ⟨a, ha⟩ := hK
  have hwhole : ∀ i, ¬ r.Whole K i := fun i hi => by simpa [hputs] using hi a ha
  have hseen : ¬ r.Seen K := fun hs => by simpa [hreported] using hs a ha
  constructor
  · intro i
    simp [objectsAt, hputs, hreported, hchannels]
  · simp [hputs]
  · simp [hputs]
  · intro i
    left
    exact ⟨by simp [hnodes, hputs], hwhole i⟩
  · left
    exact ⟨by simp [hcoord, hreported], hseen⟩
  · intro i front b active rest hsplit
    simp [hchannels] at hsplit
  · intro i hi
    rw [hclears i] at hi
    exact absurd hi (Nat.lt_irrefl 0)
  · rintro (⟨i, hi⟩ | hs)
    · exact absurd hi (hwhole i)
    · exact absurd hs hseen
  · intro _
    rw [hfired]
    rfl

theorem mem_of_mem_puts (h : Collecting K r) {a : α} (ha : a ∈ r.puts.map Prod.snd) :
    a ∈ K := by
  obtain ⟨p, hp, rfl⟩ := List.mem_map.mp ha
  exact h.items p hp

theorem not_done (h : Collecting K r) {a : α} (ha : a ∈ K)
    (hnew : a ∉ r.puts.map Prod.snd) : ¬ r.Done K := by
  rintro (⟨i, hwhole⟩ | hseen)
  · exact hnew (List.mem_map.mpr ⟨(i, a), hwhole a ha, rfl⟩)
  · exact hnew (h.placed.complete_of_seen hseen a ha)

theorem mem_node_iff (h : Collecting K r) {a : α} (ha : a ∈ K)
    (hnew : a ∉ r.puts.map Prod.snd) (i : ι) (b : α) : b ∈ r.nodes i ↔ (i, b) ∈ r.puts := by
  rcases h.node i with ⟨hi, -⟩ | ⟨-, hcomplete⟩
  · exact hi b
  · exact absurd (hcomplete a ha) hnew

theorem unflagged (h : Collecting K r) {i : ι} (hwhole : ¬ r.Whole K i) :
    ∀ e ∈ r.channels i, e.2 = false := by
  intro e he
  obtain ⟨front, rest, hsplit⟩ := List.append_of_mem he
  cases hactive : e.2 with
  | false => rfl
  | true =>
    have hflag := h.flags i front e.1 e.2 rest hsplit
    exact absurd (hflag.mp hactive).2 hwhole

theorem flags_append {l front rest : List (α × Bool)} {a b : α} {active full : Bool}
    (hl : ∀ e ∈ l, e.2 = false) (h : l ++ [(a, full)] = front ++ (b, active) :: rest) :
    active = true ↔ rest = [] ∧ full = true := by
  rcases List.eq_nil_or_concat rest with rfl | ⟨rest', e, rfl⟩
  · obtain ⟨-, hlast⟩ := List.append_inj' h rfl
    cases hlast
    simp
  · rw [List.concat_eq_append, ← List.cons_append, ← List.append_assoc] at h
    obtain ⟨rfl, -⟩ := List.append_inj' h rfl
    have hold : active = false := hl (b, active) (by simp)
    simp [hold]

/-! ## Putting an item -/

section Put

variable [DecidableEq α]

theorem insert_node_sub (h : Collecting K r) {a : α} (ha : a ∈ K)
    (hnew : a ∉ r.puts.map Prod.snd) (i : ι) : insert a (r.nodes i) ⊆ K := by
  intro b hb
  rcases Finset.mem_insert.mp hb with rfl | hb
  · exact ha
  · exact h.items _ ((h.mem_node_iff ha hnew i b).mp hb)

theorem put_whole_iff (h : Collecting K r) {a : α} (ha : a ∈ K)
    (hnew : a ∉ r.puts.map Prod.snd) (i : ι) :
    (r.put (collect K) i a).Whole K i ↔ insert a (r.nodes i) = K := by
  have hmem : ∀ b, b ∈ insert a (r.nodes i) ↔ (i, b) ∈ (r.put (collect K) i a).puts := by
    intro b
    rw [Finset.mem_insert, h.mem_node_iff ha hnew]
    simp [Replicas.put, or_comm]
  constructor
  · intro hall
    exact Finset.Subset.antisymm (h.insert_node_sub ha hnew i) fun b hb => (hmem b).mpr (hall b hb)
  · intro hK b hb
    exact (hmem b).mp (hK ▸ hb)

theorem put_not_whole {a : α} (ha : a ∈ K)
    (hnew : a ∉ r.puts.map Prod.snd) {i j : ι} (hj : j ≠ i) :
    ¬ (r.put (collect K) i a).Whole K j := by
  intro hall
  have hput := hall a ha
  simp only [Replicas.put, List.mem_append, List.mem_singleton, Prod.mk.injEq, hj, false_and,
    or_false] at hput
  exact hnew (List.mem_map.mpr ⟨(j, a), hput, rfl⟩)

theorem put (h : Collecting K r) {a : α} (ha : a ∈ K) (hnew : a ∉ r.puts.map Prod.snd)
    (i : ι) : Collecting K (r.put (collect K) i a) := by
  have hdone := h.not_done ha hnew
  have hwhole : ∀ j, ¬ r.Whole K j := fun j hj => hdone (.inl ⟨j, hj⟩)
  have hseen : ¬ (r.put (collect K) i a).Seen K := fun hs => hdone (.inr hs)
  have harrive := collect_arrive (h.insert_node_sub ha hnew i)
  have hiff := h.put_whole_iff ha hnew i
  have hothers := fun j (hj : j ≠ i) => put_not_whole ha hnew hj
  refine ⟨h.placed.step (.put i a), ?_, ?_, ?_, h.coord, ?_, h.clears, ?_, ?_⟩
  · intro p hp
    rcases List.mem_append.mp hp with hp | hp
    · exact h.items p hp
    · rw [List.mem_singleton.mp hp]
      exact ha
  · change ((r.puts ++ [(i, a)]).map Prod.snd).Nodup
    rw [List.map_append]
    exact h.once.append (List.nodup_singleton a) (by simpa using hnew)
  · intro j
    by_cases hj : j = i
    · subst hj
      by_cases hK : insert a (r.nodes j) = K
      · right
        refine ⟨by simp [Replicas.put, harrive, hK], fun b hb => ?_⟩
        exact List.mem_map.mpr ⟨(j, b), hiff.mpr hK b hb, rfl⟩
      · left
        refine ⟨fun b => ?_, fun hw => hK (hiff.mp hw)⟩
        simp [Replicas.put, harrive, hK, h.mem_node_iff ha hnew, or_comm]
    · left
      refine ⟨fun b => ?_, hothers j hj⟩
      simp [Replicas.put, h.mem_node_iff ha hnew, hj]
  · intro j front b active rest hsplit
    by_cases hj : j = i
    · subst hj
      simp only [Replicas.put, Function.update_self] at hsplit
      rw [flags_append (h.unflagged (hwhole j)) hsplit, hiff, harrive]
      by_cases hK : insert a (r.nodes j) = K <;> simp [hK]
    · simp only [Replicas.put, Function.update_of_ne hj] at hsplit
      rw [h.flags j front b active rest hsplit]
      simp [hwhole j, hothers j hj]
  · rintro (⟨j, hj⟩ | hs)
    · have hji : j = i := by
        by_contra hne
        exact hothers j hne hj
      subst hji
      simp [Replicas.put, harrive, hiff.mp hj, List.length_eq_zero_iff.mp (h.firedNever hdone)]
    · exact absurd hs hseen
  · intro hnot
    have hK : insert a (r.nodes i) ≠ K := fun hK => hnot (.inl ⟨i, hiff.mpr hK⟩)
    simp [Replicas.put, harrive, hK, List.length_eq_zero_iff.mp (h.firedNever hdone)]

end Put

/-! ## Reporting an item -/

section Report

variable {i : ι} {a : α} {active : Bool} {rest : List (α × Bool)}

theorem put_of_head (h : Collecting K r) (hhead : r.channels i = (a, active) :: rest) :
    (i, a) ∈ r.puts :=
  h.placed.mem_puts_of_channel (hhead ▸ List.mem_cons_self)

theorem not_reported (h : Collecting K r) (hhead : r.channels i = (a, active) :: rest) :
    a ∉ r.reported.map Prod.snd :=
  h.placed.not_reported h.once (hhead ▸ List.mem_cons_self)

theorem mem_coord_iff (h : Collecting K r) (hhead : r.channels i = (a, active) :: rest)
    (b : α) : b ∈ r.coord ↔ b ∈ r.reported.map Prod.snd := by
  rcases h.coord with ⟨hcoord, -⟩ | ⟨-, hseen⟩
  · exact hcoord b
  · exact absurd (hseen a (h.items _ (h.put_of_head hhead))) (h.not_reported hhead)

variable [DecidableEq α]

theorem mem_reported_iff (receivers : ι → Bool) (b : α) :
    b ∈ (r.report (collect K) i a active rest receivers).reported.map Prod.snd ↔
      b = a ∨ b ∈ r.reported.map Prod.snd := by
  simp [Replicas.report, or_comm]

theorem insert_coord_sub (h : Collecting K r) (hhead : r.channels i = (a, active) :: rest) :
    insert a r.coord ⊆ K := by
  intro b hb
  rcases Finset.mem_insert.mp hb with rfl | hb
  · exact h.items _ (h.put_of_head hhead)
  · exact h.mem_of_mem_puts (h.placed.mem_puts_of_reported ((h.mem_coord_iff hhead b).mp hb))

theorem report_seen_iff (h : Collecting K r) (hhead : r.channels i = (a, active) :: rest)
    (receivers : ι → Bool) :
    (r.report (collect K) i a active rest receivers).Seen K ↔ insert a r.coord = K := by
  have hmem : ∀ b, b ∈ insert a r.coord ↔
      b ∈ (r.report (collect K) i a active rest receivers).reported.map Prod.snd := by
    intro b
    rw [Finset.mem_insert, h.mem_coord_iff hhead, mem_reported_iff]
  constructor
  · intro hall
    exact Finset.Subset.antisymm (h.insert_coord_sub hhead) fun b hb => (hmem b).mpr (hall b hb)
  · intro hK b hb
    exact (hmem b).mp (hK ▸ hb)

theorem not_whole_of_unflagged (h : Collecting K r)
    (hhead : r.channels i = (a, false) :: rest) (hK : insert a r.coord = K) (j : ι) :
    ¬ r.Whole K j := by
  intro hwhole
  have ha : a ∈ K := hK ▸ Finset.mem_insert_self a r.coord
  have hji : j = i := same_node h.once (hwhole a ha) (h.put_of_head hhead)
  subst hji
  cases rest with
  | nil =>
    have hflag := h.flags j [] a false [] hhead
    exact Bool.false_ne_true (hflag.mpr ⟨rfl, hwhole⟩)
  | cons e rest =>
    -- the next report of the node is about an item that the coordinator has not seen
    have hput : (j, e.1) ∈ r.puts := by
      rw [h.placed.mem_iff, hhead]
      simp
    have he : e.1 ∈ insert a r.coord := by
      rw [hK]
      exact h.items _ hput
    have hnodup := h.placed.nodup h.once j
    rw [hhead] at hnodup
    simp only [List.map_cons, List.nodup_append, List.nodup_cons, List.mem_cons] at hnodup
    rcases Finset.mem_insert.mp he with hea | hcoord
    · exact hnodup.2.1.1 (.inl hea.symm)
    · have hseen := (h.mem_coord_iff hhead e.1).mp hcoord
      exact hnodup.2.2 e.1 hseen e.1 (.inr (.inl rfl)) rfl

theorem report (h : Collecting K r) (hhead : r.channels i = (a, active) :: rest)
    (receivers : ι → Bool) :
    Collecting K (r.report (collect K) i a active rest receivers) := by
  have harrive := collect_arrive (h.insert_coord_sub hhead)
  have hiff := h.report_seen_iff hhead receivers
  have hmem := h.mem_coord_iff hhead
  have hseen : ¬ r.Seen K := fun hs =>
    h.not_reported hhead (hs a (h.items _ (h.put_of_head hhead)))
  refine ⟨h.placed.step (.report i a active rest receivers hhead), h.items, h.once, h.node,
    ?_, ?_, ?_, ?_, ?_⟩
  · by_cases hK : insert a r.coord = K
    · right
      exact ⟨by simp [Replicas.report, harrive, hK], hiff.mpr hK⟩
    · left
      refine ⟨fun b => ?_, fun hs => hK (hiff.mp hs)⟩
      rw [mem_reported_iff]
      simp [Replicas.report, harrive, hK, hmem]
  · intro j front b flag last hsplit
    by_cases hj : j = i
    · subst hj
      simp only [Replicas.report, Function.update_self] at hsplit
      exact h.flags j ((a, active) :: front) b flag last (by rw [hhead, hsplit]; rfl)
    · simp only [Replicas.report, Function.update_of_ne hj] at hsplit
      exact h.flags j front b flag last hsplit
  · intro j hj
    by_contra hnot
    have hK : insert a r.coord ≠ K := fun hK => hnot (hiff.mpr hK)
    have hold : 0 < r.clears j := by simpa [Replicas.report, harrive, hK] using hj
    exact hseen (h.clears j hold)
  · intro hdone
    by_cases hK : insert a r.coord = K
    · cases active with
      | true =>
        have hwhole := ((h.flags i [] a true rest hhead).mp rfl).2
        simpa [Replicas.report] using h.firedOnce (.inl ⟨i, hwhole⟩)
      | false =>
        have hnot : ¬ r.Done K := by
          rintro (⟨j, hj⟩ | hs)
          · exact h.not_whole_of_unflagged hhead hK j hj
          · exact hseen hs
        simp [Replicas.report, harrive, hK, List.length_eq_zero_iff.mp (h.firedNever hnot)]
    · have hbefore : r.Done K := hdone.imp id fun hs => absurd (hiff.mp hs) hK
      simpa [Replicas.report, harrive, hK] using h.firedOnce hbefore
  · intro hnot
    have hK : insert a r.coord ≠ K := fun hK => hnot (.inr (hiff.mpr hK))
    have hbefore : ¬ r.Done K := fun hdone =>
      hnot (hdone.imp id fun hs => absurd hs hseen)
    simpa [Replicas.report, harrive, hK] using h.firedNever hbefore

end Report

/-! ## Clearing a node -/

theorem clear [DecidableEq α] (h : Collecting K r) {i : ι} (hi : 0 < r.clears i) :
    Collecting K (r.clear (collect K) i) := by
  have hseen := h.clears i hi
  refine ⟨h.placed.step (.clear i hi), h.items, h.once, ?_, h.coord, h.flags,
    fun _ _ => hseen, h.firedOnce, h.firedNever⟩
  intro j
  by_cases hj : j = i
  · subst hj
    exact .inr ⟨by simp [Replicas.clear, collect], h.placed.complete_of_seen hseen⟩
  · have hsame : (r.clear (collect K) i).nodes j = r.nodes j := Function.update_of_ne hj ..
    rw [hsame]
    exact h.node j

theorem step [DecidableEq α] (h : Collecting K r) {r' : Replicas ι (Finset α) α Unit}
    (hstep : Step (collect K) r r') (hitems : ∀ p ∈ r'.puts, p.2 ∈ K)
    (honce : (r'.puts.map Prod.snd).Nodup) : Collecting K r' := by
  cases hstep with
  | put i a =>
    have ha : a ∈ K := hitems (i, a) (by simp [Replicas.put])
    have hnew : a ∉ r.puts.map Prod.snd := by
      intro hmem
      simp only [Replicas.put, List.map_append, List.map_cons, List.map_nil] at honce
      exact (List.nodup_append.mp honce).2.2 a hmem a List.mem_cons_self rfl
    exact h.put ha hnew i
  | report i a active rest receivers hhead => exact h.report hhead receivers
  | clear i hi => exact h.clear hi

end Collecting

end Replicas

end Pheromone.Lib
