import Pheromone.Lib.Containers
import Pheromone.Lib.Replicas

/-!
# Groups of data behind a set of control objects

The machine that gathers data by group and passes all the groups on as soon as it
has seen every control object of a set.  When every object is put once, its
replicas pass on each datum exactly once if and only if the one of them that acts
has all the data at that time: the node that got every control object and some
data, or else the coordinator.
-/

namespace Pheromone.Lib

/-! ## Sets by group -/

section Flat

variable {γ κ : Type} [DecidableEq γ] [DecidableEq κ]

namespace UMap

/-- The elements of all the sets of a map. -/
def flat (m : UMap γ (USet κ)) : List κ := m.entries.flatMap fun e => e.2.elems

def insertAt (m : UMap γ (USet κ)) (g : γ) (a : κ) : UMap γ (USet κ) :=
  m.set g ((m.getD g USet.empty).insert a)

omit [DecidableEq κ] in
theorem flatMap_assign {l : List (γ × USet κ)} (hnodup : (l.map Prod.fst).Nodup) {g : γ}
    {s s' : USet κ} {a : κ} (hmem : (g, s) ∈ l) (hs : s'.elems.Perm (a :: s.elems)) :
    ((assign l g s').flatMap fun e => e.2.elems).Perm (a :: l.flatMap fun e => e.2.elems) := by
  induction l with
  | nil => cases hmem
  | cons e l ih =>
    obtain ⟨hnot, hl⟩ := List.nodup_cons.mp hnodup
    rcases List.mem_cons.mp hmem with rfl | hmem
    · -- the entry itself; the others have other keys
      have hrest : assign l g s' = l := by
        refine (List.map_congr_left (g := id) fun e he => if_neg fun heq => hnot ?_).trans
          (List.map_id l)
        exact List.mem_map.mpr ⟨e, he, heq⟩
      simp only [assign, List.map_cons, if_true, List.flatMap_cons] at hrest ⊢
      rw [hrest]
      exact hs.append_right _
    · have hne : e.1 ≠ g := fun heq => hnot (heq ▸ List.mem_map_of_mem hmem)
      simp only [assign, List.map_cons, if_neg hne, List.flatMap_cons] at ih ⊢
      exact ((ih hl hmem).append_left _).trans List.perm_middle

theorem flat_insertAt {m : UMap γ (USet κ)} {a : κ} (hnew : a ∉ m.flat) (g : γ) :
    (m.insertAt g a).flat.Perm (a :: m.flat) := by
  by_cases hmem : g ∈ m.entries.map Prod.fst
  · obtain ⟨⟨g', s⟩, hs, rfl⟩ := List.mem_map.mp hmem
    have hget : m.getD g' USet.empty = s := by
      rw [getD, find?_eq_some_iff.mpr hs]
      rfl
    have hnot : a ∉ s.elems := fun ha => hnew (List.mem_flatMap.mpr ⟨(g', s), hs, ha⟩)
    have hinsert : (s.insert a).elems.Perm (a :: s.elems) := by
      rw [USet.insert, dif_neg hnot]
      exact List.perm_append_singleton a s.elems
    simp only [insertAt, set, dif_pos hmem, flat, hget]
    exact flatMap_assign m.nodup hs hinsert
  · have hget : m.getD g USet.empty = USet.empty := by
      rw [getD, find?_eq_none_iff.mpr hmem]
      rfl
    have hentries := set_entries_of_not_mem ((m.getD g USet.empty).insert a) hmem
    rw [flat, insertAt, hentries, List.flatMap_append, hget]
    exact List.perm_append_singleton a m.flat

theorem insertAt_nonempty {m : UMap γ (USet κ)} (h : ∀ e ∈ m.entries, e.2.elems ≠ []) (g : γ)
    (a : κ) : ∀ e ∈ (m.insertAt g a).entries, e.2.elems ≠ [] := by
  rintro ⟨g', s⟩ he
  rw [insertAt, mem_entries_set] at he
  split at he
  · subst he
    exact List.ne_nil_of_mem (USet.mem_elems.mpr (USet.mem_insert.mpr (.inl rfl)))
  · exact h _ he

end UMap

end Flat

/-! ## The machine -/

/-- The data of a replica by group, and the control objects that it has seen. -/
structure Pool (γ κ : Type) where
  data : UMap γ (USet κ)
  controls : Finset κ

section Machine

variable {γ κ : Type}

def Pool.empty : Pool γ κ := ⟨UMap.empty, ∅⟩

def groups [DecidableEq γ] [DecidableEq κ] (control : κ → Bool) (group : κ → γ) (C : Finset κ) :
    Machine (Pool γ κ) κ (List κ) where
  arrive s a :=
    if control a then
      let controls := if a ∈ C then insert a s.controls else s.controls
      if controls.card = C.card then (Pool.empty, s.data.entries.map fun e => e.2.elems)
      else (⟨s.data, controls⟩, [])
    else (⟨s.data.insertAt (group a) a, s.controls⟩, [])
  clear _ := Pool.empty

def dataOf (control : κ → Bool) (l : List κ) : List κ := l.filter fun a => !control a

/-- The pool `s` has the objects `l`. -/
structure Pool.Has (control : κ → Bool) (C : Finset κ) (l : List κ) (s : Pool γ κ) : Prop where
  controls : ∀ c, c ∈ s.controls ↔ c ∈ C ∧ c ∈ l
  data : s.data.flat.Perm (dataOf control l)
  nonempty : ∀ e ∈ s.data.entries, e.2.elems ≠ []

variable {control : κ → Bool} {C : Finset κ} {l : List κ} {s : Pool γ κ} {a : κ}

theorem Pool.has_nil : (Pool.empty : Pool γ κ).Has control C [] where
  controls := by simp [Pool.empty]
  data := List.Perm.refl _
  nonempty := fun e he => absurd he List.not_mem_nil

theorem Pool.Has.not_mem_flat (h : s.Has control C l) (hnew : a ∉ l) : a ∉ s.data.flat := by
  rw [h.data.mem_iff]
  exact fun ha => hnew (List.mem_of_mem_filter ha)

variable [DecidableEq κ]

theorem Pool.Has.mem_controls (h : s.Has control C l) (hcontrol : ∀ c ∈ C, control c = true)
    (c : κ) :
    c ∈ (if control a ∧ a ∈ C then insert a s.controls else s.controls) ↔
      c ∈ C ∧ c ∈ l ++ [a] := by
  by_cases ha : a ∈ C
  · rw [if_pos ⟨hcontrol a ha, ha⟩, Finset.mem_insert, h.controls, List.mem_append,
      List.mem_singleton]
    constructor
    · rintro (rfl | ⟨hc, hl⟩)
      · exact ⟨ha, .inr rfl⟩
      · exact ⟨hc, .inl hl⟩
    · rintro ⟨hc, hl | rfl⟩
      · exact .inr ⟨hc, hl⟩
      · exact .inl rfl
  · rw [if_neg fun hboth => ha hboth.2, h.controls, List.mem_append, List.mem_singleton]
    constructor
    · exact fun hc => ⟨hc.1, .inl hc.2⟩
    · rintro ⟨hc, hl | rfl⟩
      · exact ⟨hc, hl⟩
      · exact absurd hc ha

variable [DecidableEq γ]

theorem Pool.Has.arrive (h : s.Has control C l) (hcontrol : ∀ c ∈ C, control c = true)
    (hnew : a ∉ l) (hpart : ¬ ∀ c ∈ C, c ∈ l ++ [a]) (group : κ → γ) :
    ((groups control group C).arrive s a).2 = [] ∧
      ((groups control group C).arrive s a).1.Has control C (l ++ [a]) := by
  have hmem := h.mem_controls (a := a) hcontrol
  cases ha : control a with
  | true =>
    simp only [ha, true_and] at hmem
    have hcard : ¬ (if a ∈ C then insert a s.controls else s.controls).card = C.card := by
      intro heq
      have hsub : (if a ∈ C then insert a s.controls else s.controls) ⊆ C :=
        fun c hc => ((hmem c).mp hc).1
      have hall := Finset.eq_of_subset_of_card_le hsub heq.ge
      exact hpart fun c hc => ((hmem c).mp (Finset.subset_of_eq hall.symm hc)).2
    simp only [groups, ha, if_true, if_neg hcard]
    refine ⟨trivial, hmem, ?_, h.nonempty⟩
    simpa [dataOf, ha] using h.data
  | false =>
    simp only [ha, Bool.false_eq_true, false_and, if_false] at hmem
    simp only [groups, ha, Bool.false_eq_true, if_false]
    refine ⟨trivial, hmem, ?_, UMap.insertAt_nonempty h.nonempty _ a⟩
    have hdata : dataOf control (l ++ [a]) = dataOf control l ++ [a] := by simp [dataOf, ha]
    rw [hdata]
    refine (UMap.flat_insertAt (h.not_mem_flat hnew) (group a)).trans ?_
    exact (h.data.cons a).trans (List.perm_append_singleton a _).symm

theorem Pool.Has.arrive_last (h : s.Has control C l) (hcontrol : ∀ c ∈ C, control c = true)
    (hpart : ¬ ∀ c ∈ C, c ∈ l) (hlast : ∀ c ∈ C, c ∈ l ++ [a]) (group : κ → γ) :
    a ∈ C ∧ ((groups control group C).arrive s a).1 = Pool.empty ∧
      ((groups control group C).arrive s a).2.flatten.Perm (dataOf control l) ∧
      (((groups control group C).arrive s a).2 = [] ↔ dataOf control l = []) := by
  have haC : a ∈ C := by
    by_contra hnot
    refine hpart fun c hc => ?_
    rcases List.mem_append.mp (hlast c hc) with hl | hl
    · exact hl
    · exact absurd (List.mem_singleton.mp hl ▸ hc) hnot
  have ha := hcontrol a haC
  have hmem := h.mem_controls (a := a) hcontrol
  simp only [ha, true_and] at hmem
  have heq : (if a ∈ C then insert a s.controls else s.controls) = C := by
    ext c
    rw [hmem]
    exact ⟨fun hc => hc.1, fun hc => ⟨hc, hlast c hc⟩⟩
  have hact : (groups control group C).arrive s a =
      (Pool.empty, s.data.entries.map fun e => e.2.elems) := by
    simp only [groups, ha, if_true, heq]
  have hflat : (s.data.entries.map fun e => e.2.elems).flatten = s.data.flat := rfl
  rw [hact]
  refine ⟨haC, rfl, hflat ▸ h.data, ?_⟩
  rw [List.map_eq_nil_iff]
  constructor
  · intro hnil
    have hdata := h.data
    rw [UMap.flat, hnil] at hdata
    exact List.nil_perm.mp hdata
  · intro hnil
    have hdata := h.data
    rw [hnil, List.perm_nil, UMap.flat, List.flatMap_eq_nil_iff] at hdata
    exact List.eq_nil_iff_forall_not_mem.mpr fun e he => h.nonempty e he (hdata e he)

theorem groups_arrive_idle (hC : C.Nonempty) (hempty : s.controls = ∅) (ha : a ∉ C)
    (control : κ → Bool) (group : κ → γ) :
    ((groups control group C).arrive s a).2 = [] ∧
      ((groups control group C).arrive s a).1.controls = ∅ := by
  have hcard : ¬ 0 = C.card := fun heq => hC.card_pos.ne heq
  cases hcontrol : control a with
  | true => simp [groups, hcontrol, ha, hempty, hcard]
  | false => simp [groups, hcontrol, hempty]

end Machine

namespace Replicas

variable {ι γ κ : Type} [DecidableEq ι] {control : κ → Bool} {C : Finset κ}
  {r : Replicas ι (Pool γ κ) κ (List κ)} {i : ι} {a : κ}

/-! ## What the replicas have -/

structure Pooling (control : κ → Bool) (C : Finset κ) (r : Replicas ι (Pool γ κ) κ (List κ)) :
    Prop where
  placed : r.Placed
  once : (r.puts.map Prod.snd).Nodup
  node : ∀ i, (r.nodes i).Has control C (objectsAt i r.puts) ∧ ¬ r.Whole C i ∨
    (r.nodes i).controls = ∅ ∧ r.Complete C
  coord : r.coord.Has control C (r.reported.map Prod.snd) ∧ ¬ r.Seen C ∨
    r.coord.controls = ∅ ∧ r.Seen C
  clears : ∀ i, 0 < r.clears i → r.Seen C
  passed : ∀ d ∈ r.fired.flatten, d ∈ r.puts.map Prod.snd
  nonempty : C.Nonempty
  control : ∀ c ∈ C, control c = true

/-- The object `a` is the last control object of the node `i`. -/
def Fills (C : Finset κ) (r : Replicas ι (Pool γ κ) κ (List κ)) (i : ι) (a : κ) : Prop :=
  a ∈ C ∧ ∀ c ∈ C, c = a ∨ (i, c) ∈ r.puts

/-- The object `a` is the last control object that the coordinator sees. -/
def Seals (C : Finset κ) (r : Replicas ι (Pool γ κ) κ (List κ)) (a : κ) : Prop :=
  a ∈ C ∧ ∀ c ∈ C, c = a ∨ c ∈ r.reported.map Prod.snd

namespace Pooling

section Put

variable [DecidableEq γ] [DecidableEq κ] {group : κ → γ}

theorem put_node (h : r.Pooling control C) (hnew : a ∉ r.puts.map Prod.snd) (i : ι)
    (group : κ → γ) :
    let result := (groups control group C).arrive (r.nodes i) a
    (¬ r.Fills C i a → result.2 = [] ∧
      (result.1.Has control C (objectsAt i r.puts ++ [a]) ∧
          ¬ (∀ c ∈ C, c ∈ objectsAt i r.puts ++ [a]) ∨
        result.1.controls = ∅ ∧ r.Complete C)) ∧
    (r.Fills C i a → result.1 = Pool.empty ∧
      result.2.flatten.Perm (dataOf control (objectsAt i r.puts)) ∧
      (result.2 = [] ↔ dataOf control (objectsAt i r.puts) = [])) := by
  have hnot : a ∉ objectsAt i r.puts := fun ha =>
    hnew (List.mem_map.mpr ⟨(i, a), mem_objectsAt.mp ha, rfl⟩)
  have hfills : r.Fills C i a ↔ a ∈ C ∧ ∀ c ∈ C, c ∈ objectsAt i r.puts ++ [a] := by
    simp only [Fills, List.mem_append, List.mem_singleton, mem_objectsAt, or_comm]
  rcases h.node i with ⟨hhas, hpart⟩ | ⟨hempty, hcomplete⟩
  · have hpart' : ¬ ∀ c ∈ C, c ∈ objectsAt i r.puts := fun hall =>
      hpart fun c hc => mem_objectsAt.mp (hall c hc)
    by_cases hall : ∀ c ∈ C, c ∈ objectsAt i r.puts ++ [a]
    · obtain ⟨haC, hresult⟩ := hhas.arrive_last h.control hpart' hall group
      exact ⟨fun hno => absurd (hfills.mpr ⟨haC, hall⟩) hno, fun _ => hresult⟩
    · obtain ⟨hnil, hhas'⟩ := hhas.arrive h.control hnot hall group
      exact ⟨fun _ => ⟨hnil, .inl ⟨hhas', hall⟩⟩, fun hyes => absurd (hfills.mp hyes).2 hall⟩
  · have haC : a ∉ C := fun ha => hnew (hcomplete a ha)
    obtain ⟨hnil, hempty'⟩ := groups_arrive_idle h.nonempty hempty haC control group
    exact ⟨fun _ => ⟨hnil, .inr ⟨hempty', hcomplete⟩⟩, fun hyes => absurd hyes.1 haC⟩

theorem put (h : r.Pooling control C) (hnew : a ∉ r.puts.map Prod.snd) (i : ι) :
    (r.put (groups control group C) i a).Pooling control C := by
  obtain ⟨hkeeps, hfills⟩ := h.put_node hnew i group
  have hself : objectsAt i (r.put (groups control group C) i a).puts =
      objectsAt i r.puts ++ [a] := by
    rw [put_puts, objectsAt_append, objectsAt_self]
  have hcomplete : r.Complete C → (r.put (groups control group C) i a).Complete C := by
    intro hall c hc
    rw [put_objects]
    exact List.mem_append_left _ (hall c hc)
  refine ⟨h.placed.step (.put i a), ?_, fun j => ?_, h.coord, h.clears, ?_, h.nonempty,
    h.control⟩
  · rw [put_objects]
    exact h.once.append (List.nodup_singleton a) (by simpa using hnew)
  · by_cases hj : j = i
    · subst hj
      rw [hself, put_nodes_self]
      by_cases hf : r.Fills C j a
      · refine .inr ⟨by rw [(hfills hf).1]; rfl, fun c hc => ?_⟩
        rw [put_objects, List.mem_append, List.mem_singleton]
        exact (hf.2 c hc).symm.imp_left fun hp => List.mem_map.mpr ⟨(j, c), hp, rfl⟩
      · refine (hkeeps hf).2.imp (fun hhas => ⟨hhas.1, fun hwhole => hhas.2 fun c hc => ?_⟩)
          fun hidle => ⟨hidle.1, hcomplete hidle.2⟩
        rw [← hself]
        exact mem_objectsAt.mpr (hwhole c hc)
    · rw [put_nodes_of_ne hj]
      refine (h.node j).imp (fun hhas => ⟨?_, fun hwhole => hhas.2 fun c hc => ?_⟩)
        fun hidle => ⟨hidle.1, hcomplete hidle.2⟩
      · rw [put_puts, objectsAt_append, objectsAt_of_ne hj, List.append_nil]
        exact hhas.1
      · have hput := hwhole c hc
        rw [put_puts, List.mem_append, List.mem_singleton, Prod.mk.injEq] at hput
        exact hput.resolve_right fun heq => hj heq.1
  · intro d hd
    rw [put_objects]
    rw [put_fired, List.flatten_append, List.mem_append] at hd
    refine List.mem_append_left _ (hd.elim (h.passed d) fun hd => ?_)
    by_cases hf : r.Fills C i a
    · have hmem := List.mem_of_mem_filter ((hfills hf).2.1.mem_iff.mp hd)
      exact List.mem_map.mpr ⟨(i, d), mem_objectsAt.mp hmem, rfl⟩
    · rw [(hkeeps hf).1] at hd
      cases hd

end Put

section Report

variable {active : Bool} {rest : List (κ × Bool)}

theorem seen_report (h : ¬ r.Seen C) {M : Machine (Pool γ κ) κ (List κ)} (i : ι) (a : κ)
    (active : Bool) (rest : List (κ × Bool)) (receivers : ι → Bool) :
    (r.report M i a active rest receivers).Seen C ↔ r.Seals C a := by
  have hreported : ∀ c, c ∈ (r.report M i a active rest receivers).reported.map Prod.snd ↔
      c = a ∨ c ∈ r.reported.map Prod.snd := by
    simp [report_reported, or_comm]
  constructor
  · intro hseen
    have hall : ∀ c ∈ C, c = a ∨ c ∈ r.reported.map Prod.snd := fun c hc =>
      (hreported c).mp (hseen c hc)
    refine ⟨?_, hall⟩
    by_contra ha
    exact h fun c hc => (hall c hc).resolve_left fun heq => ha (heq ▸ hc)
  · exact fun hseals c hc => (hreported c).mpr (hseals.2 c hc)

variable [DecidableEq γ] [DecidableEq κ] {group : κ → γ}

theorem report_coord_node (h : r.Pooling control C) (hhead : r.channels i = (a, active) :: rest)
    (group : κ → γ) :
    let result := (groups control group C).arrive r.coord a
    (¬ r.Seals C a → result.2 = [] ∧
      (result.1.Has control C (r.reported.map Prod.snd ++ [a]) ∧ ¬ r.Seen C ∨
        result.1.controls = ∅ ∧ r.Seen C)) ∧
    (r.Seals C a → ¬ r.Seen C ∧ result.1 = Pool.empty ∧
      result.2.flatten.Perm (dataOf control (r.reported.map Prod.snd))) := by
  have hnot : a ∉ r.reported.map Prod.snd :=
    h.placed.not_reported h.once (e := (a, active)) (by rw [hhead]; exact List.mem_cons_self)
  have hseals : r.Seals C a ↔ a ∈ C ∧ ∀ c ∈ C, c ∈ r.reported.map Prod.snd ++ [a] := by
    simp only [Seals, List.mem_append, List.mem_singleton, or_comm]
  rcases h.coord with ⟨hhas, hpart⟩ | ⟨hempty, hseen⟩
  · by_cases hall : ∀ c ∈ C, c ∈ r.reported.map Prod.snd ++ [a]
    · obtain ⟨haC, hresult⟩ := hhas.arrive_last h.control hpart hall group
      exact ⟨fun hno => absurd (hseals.mpr ⟨haC, hall⟩) hno,
        fun _ => ⟨hpart, hresult.1, hresult.2.1⟩⟩
    · obtain ⟨hnil, hhas'⟩ := hhas.arrive h.control hnot hall group
      exact ⟨fun _ => ⟨hnil, .inl ⟨hhas', hpart⟩⟩, fun hyes => absurd (hseals.mp hyes).2 hall⟩
  · have haC : a ∉ C := fun ha => hnot (hseen a ha)
    obtain ⟨hnil, hempty'⟩ := groups_arrive_idle h.nonempty hempty haC control group
    exact ⟨fun _ => ⟨hnil, .inr ⟨hempty', hseen⟩⟩, fun hyes => absurd hyes.1 haC⟩

theorem report (h : r.Pooling control C) (hhead : r.channels i = (a, active) :: rest)
    (receivers : ι → Bool) :
    (r.report (groups control group C) i a active rest receivers).Pooling control C := by
  obtain ⟨hkeeps, hseals⟩ := h.report_coord_node hhead group
  have hreported : (r.report (groups control group C) i a active rest receivers).reported.map
      Prod.snd = r.reported.map Prod.snd ++ [a] := by
    rw [report_reported, List.map_append]
    rfl
  have hmono : r.Seen C → (r.report (groups control group C) i a active rest receivers).Seen C := by
    intro hall c hc
    rw [hreported]
    exact List.mem_append_left _ (hall c hc)
  have hiff := fun hpart => seen_report (M := groups control group C) (r := r) (C := C) hpart i a
    active rest receivers
  refine ⟨h.placed.step (.report i a active rest receivers hhead), h.once, h.node, ?_,
    fun j hj => ?_, ?_, h.nonempty, h.control⟩
  · rw [hreported, report_coord]
    by_cases hs : r.Seals C a
    · refine .inr ⟨by rw [(hseals hs).2.1]; rfl, (hiff (hseals hs).1).mpr hs⟩
    · exact (hkeeps hs).2.imp (fun hhas => ⟨hhas.1, fun hseen => hs ((hiff hhas.2).mp hseen)⟩)
        fun hidle => ⟨hidle.1, hmono hidle.2⟩
  · by_cases hs : r.Seals C a
    · exact (hiff (hseals hs).1).mpr hs
    · rw [report_clears fun _ => (hkeeps hs).1] at hj
      exact hmono (h.clears j hj)
  · intro d hd
    rw [report_fired, List.flatten_append, List.mem_append] at hd
    refine hd.elim (h.passed d) fun hd => ?_
    by_cases hs : r.Seals C a
    · cases active with
      | true => cases hd
      | false =>
        have hmem := List.mem_of_mem_filter ((hseals hs).2.2.mem_iff.mp hd)
        exact h.placed.mem_puts_of_reported hmem
    · simp [(hkeeps hs).1] at hd

theorem clear (h : r.Pooling control C) (hpos : 0 < r.clears i) :
    (r.clear (groups control group C) i).Pooling control C := by
  have hseen := h.clears i hpos
  refine ⟨h.placed, h.once, fun j => ?_, h.coord, fun _ _ => hseen, h.passed, h.nonempty,
    h.control⟩
  by_cases hj : j = i
  · subst hj
    refine .inr ⟨?_, h.placed.complete_of_seen hseen⟩
    simp only [Replicas.clear, Function.update_self]
    rfl
  · simp only [Replicas.clear, Function.update_of_ne hj]
    exact h.node j

end Report

end Pooling

/-! ## Who passes the data on -/

/-- Nobody has passed anything on. -/
structure Open (C : Finset κ) (r : Replicas ι (Pool γ κ) κ (List κ)) : Prop where
  unseen : ¬ r.Seen C
  fired : r.fired = []
  unflagged : ∀ i, ∀ e ∈ r.channels i, e.2 = false

/-- A node got every control object and passed its data on, and its report about
that is under way. -/
structure Taken (C : Finset κ) (r : Replicas ι (Pool γ κ) κ (List κ)) (j : ι) : Prop where
  unseen : ¬ r.Seen C
  fired : r.fired ≠ []
  whole : r.Whole C j
  channel : ∃ front c rest, r.channels j = front ++ (c, true) :: rest ∧ c ∈ C ∧
    ∀ e ∈ rest, e.1 ∉ C

/-- No replica will pass anything on any more. -/
def Decided (C : Finset κ) (r : Replicas ι (Pool γ κ) κ (List κ)) : Prop :=
  r.Seen C ∨ ∃ j, r.Taken C j

def AllPassed [BEq κ] (control : κ → Bool) (r : Replicas ι (Pool γ κ) κ (List κ)) : Prop :=
  ∀ d ∈ r.puts.map Prod.snd, control d = false → r.fired.flatten.count d = 1

def SomeLost (control : κ → Bool) (r : Replicas ι (Pool γ κ) κ (List κ)) : Prop :=
  ∃ d ∈ r.puts.map Prod.snd, control d = false ∧ d ∉ r.fired.flatten

section Decided

variable {active : Bool} {rest : List (κ × Bool)}

theorem Decided.complete (hd : r.Decided C) (h : r.Pooling control C) : r.Complete C := by
  rcases hd with hseen | ⟨j, htaken⟩
  · exact h.placed.complete_of_seen hseen
  · exact fun c hc => List.mem_map.mpr ⟨(j, c), htaken.whole c hc, rfl⟩

variable [DecidableEq γ] [DecidableEq κ] (group : κ → γ)

theorem Decided.put (hd : r.Decided C) (h : r.Pooling control C) (hnew : a ∉ r.puts.map Prod.snd)
    (i : ι) :
    ((groups control group C).arrive (r.nodes i) a).2 = [] ∧
      (r.put (groups control group C) i a).Decided C := by
  have haC : a ∉ C := fun ha => hnew (hd.complete h a ha)
  have hnil := ((h.put_node hnew i group).1 fun hf => haC hf.1).1
  refine ⟨hnil, hd.imp id ?_⟩
  rintro ⟨j, hunseen, hfired, hwhole, front, c, rest, hchannel, hc, hrest⟩
  refine ⟨j, hunseen, ?_, fun c hc => List.mem_append_left _ (hwhole c hc), ?_⟩
  · rw [put_fired, hnil, List.append_nil]
    exact hfired
  · by_cases hj : j = i
    · subst hj
      refine ⟨front, c, rest ++ [(a, false)], ?_, hc, fun e he => ?_⟩
      · simp [put_channels_self hnil, hchannel]
      · rcases List.mem_append.mp he with he | he
        · exact hrest e he
        · rw [List.mem_singleton.mp he]
          exact haC
    · exact ⟨front, c, rest, by rw [put_channels_of_ne hj, hchannel], hc, hrest⟩

theorem Decided.report (hd : r.Decided C) (h : r.Pooling control C)
    (hhead : r.channels i = (a, active) :: rest) (receivers : ι → Bool) :
    (active = false → ¬ r.Seals C a ∧ ((groups control group C).arrive r.coord a).2 = []) ∧
      (r.report (groups control group C) i a active rest receivers).Decided C := by
  obtain ⟨hkeeps, hseals⟩ := h.report_coord_node hhead group
  have hin : (a, active) ∈ r.channels i := by
    rw [hhead]
    exact List.mem_cons_self
  rcases hd with hseen | ⟨j, htaken⟩
  · have hno : ¬ r.Seals C a := fun hs => (hseals hs).1 hseen
    refine ⟨fun _ => ⟨hno, (hkeeps hno).1⟩, .inl fun c hc => ?_⟩
    rw [report_reported, List.map_append]
    exact List.mem_append_left _ (hseen c hc)
  · obtain ⟨front, c, rest', hchannel, hc, hrest⟩ := htaken.channel
    have hiff := Pooling.seen_report (M := groups control group C) htaken.unseen i a active rest
      receivers
    have hcin : (c, true) ∈ r.channels j := by
      rw [hchannel]
      simp
    -- the coordinator is not done before it has seen `c`
    have honly : r.Seals C a → a = c := fun hs =>
      ((hs.2 c hc).resolve_right (h.placed.not_reported h.once hcin)).symm
    have hstays : a ≠ c → (∃ front', (r.report (groups control group C) i a active rest
          receivers).channels j = front' ++ (c, true) :: rest') →
        (active = false → ¬ r.Seals C a ∧ ((groups control group C).arrive r.coord a).2 = []) ∧
          (r.report (groups control group C) i a active rest receivers).Decided C := by
      rintro hne ⟨front', hchannel'⟩
      have hno : ¬ r.Seals C a := fun hs => hne (honly hs)
      refine ⟨fun _ => ⟨hno, (hkeeps hno).1⟩, .inr ⟨j, fun hseen => hno (hiff.mp hseen), ?_,
        htaken.whole, front', c, rest', hchannel', hc, hrest⟩⟩
      rw [report_fired]
      exact fun hnil => htaken.fired (List.append_eq_nil_iff.mp hnil).1
    by_cases hi : i = j
    · subst hi
      cases front with
      | nil =>
        -- the flagged report itself
        rw [hhead, List.nil_append] at hchannel
        cases hchannel
        refine ⟨nofun, .inl (hiff.mpr ⟨hc, fun c' hc' => ?_⟩)⟩
        rcases (h.placed.mem_iff i c').mp (htaken.whole c' hc') with hold | hunder
        · exact .inr (List.mem_map.mpr ⟨(i, c'), hold, rfl⟩)
        · rw [hhead, List.map_cons, List.mem_cons] at hunder
          refine hunder.imp id fun hmem => ?_
          obtain ⟨e, he, rfl⟩ := List.mem_map.mp hmem
          exact absurd hc' (hrest e he)
      | cons e front =>
        rw [hhead, List.cons_append] at hchannel
        have htail := (List.cons.inj hchannel).2
        have hnodup := (List.nodup_append.mp (h.placed.nodup h.once i)).2.1
        rw [hhead, List.map_cons, List.nodup_cons, htail] at hnodup
        refine hstays ?_ ⟨front, by rw [report_channels_self, htail]⟩
        rintro rfl
        exact hnodup.1 (by simp)
    · refine hstays ?_ ⟨front, by rw [report_channels_of_ne (Ne.symm hi), hchannel]⟩
      rintro rfl
      have hhere := h.placed.mem_puts_of_channel hin
      have hthere := h.placed.mem_puts_of_channel hcin
      exact hi (same_node h.once hhere hthere)

end Decided

/-! ## In time -/

/-- A control object with which the node `i` passes data on finds all the data on
`i`; and a datum is put before anybody has passed data on. -/
def PutInTime (control : κ → Bool) (C : Finset κ) (r : Replicas ι (Pool γ κ) κ (List κ)) (i : ι)
    (a : κ) : Prop :=
  if control a then
    r.Fills C i a → (∃ d, (i, d) ∈ r.puts ∧ control d = false) →
      ∀ p ∈ r.puts, control p.2 = false → p.1 = i
  else ¬ r.Seen C ∧ r.fired = []

/-- When the coordinator passes the data on, no datum is under way. -/
def ReportInTime (control : κ → Bool) (C : Finset κ) (r : Replicas ι (Pool γ κ) κ (List κ))
    (a : κ) (active : Bool) : Prop :=
  active = false → r.Seals C a → ∀ i, ∀ e ∈ r.channels i, control e.1 = true

def Keeps [BEq κ] (control : κ → Bool) (C : Finset κ) (r : Replicas ι (Pool γ κ) κ (List κ)) :
    Prop :=
  r.Pooling control C ∧ (r.Open C ∨ r.Decided C ∧ r.AllPassed control)

def Loses (control : κ → Bool) (C : Finset κ) (r : Replicas ι (Pool γ κ) κ (List κ)) : Prop :=
  r.Pooling control C ∧ r.Decided C ∧ r.SomeLost control

omit [DecidableEq ι] in
theorem count_of_perm [BEq κ] [LawfulBEq κ] {l passed : List κ} (hnodup : l.Nodup)
    (hpassed : passed.Perm (dataOf control l)) {d : κ} (hd : d ∈ l) (hdata : control d = false) :
    passed.count d = 1 := by
  rw [hpassed.count_eq]
  refine List.count_eq_one_of_mem (hnodup.filter _) ?_
  exact List.mem_filter.mpr ⟨hd, by simp [hdata]⟩

section Steps

variable [DecidableEq γ] [DecidableEq κ] {group : κ → γ} {active : Bool} {rest : List (κ × Bool)}

theorem Loses.put (h : r.Loses control C) (hnew : a ∉ r.puts.map Prod.snd) (i : ι) :
    (r.put (groups control group C) i a).Loses control C := by
  obtain ⟨hpool, hdecided, d, hd, hdata, hlost⟩ := h
  obtain ⟨hnil, hdecided'⟩ := hdecided.put group hpool hnew i
  refine ⟨hpool.put hnew i, hdecided', d, ?_, hdata, ?_⟩
  · rw [put_objects]
    exact List.mem_append_left _ hd
  · rw [put_fired, hnil, List.append_nil]
    exact hlost

theorem report_fired_of_decided (hd : r.Decided C) (h : r.Pooling control C)
    (hhead : r.channels i = (a, active) :: rest) (receivers : ι → Bool) :
    (r.report (groups control group C) i a active rest receivers).fired = r.fired := by
  rw [report_fired]
  cases active with
  | true => simp
  | false =>
    have hnil := ((hd.report group h hhead receivers).1 rfl).2
    simp [hnil]

theorem Loses.report (h : r.Loses control C) (hhead : r.channels i = (a, active) :: rest)
    (receivers : ι → Bool) :
    (r.report (groups control group C) i a active rest receivers).Loses control C := by
  obtain ⟨hpool, hdecided, d, hd, hdata, hlost⟩ := h
  refine ⟨hpool.report hhead receivers,
    (hdecided.report group hpool hhead receivers).2, d, hd, hdata, ?_⟩
  rw [report_fired_of_decided hdecided hpool hhead]
  exact hlost

theorem Open.put_quiet (hopen : r.Open C)
    (hnil : ((groups control group C).arrive (r.nodes i) a).2 = []) :
    (r.put (groups control group C) i a).Open C := by
  refine ⟨hopen.unseen, ?_, fun j e he => ?_⟩
  · rw [put_fired, hnil, hopen.fired]
    rfl
  · exact (put_channels_unflagged hnil he).elim (hopen.unflagged j e) id

theorem Open.put_fills (hopen : r.Open C) (hpool : r.Pooling control C)
    (hnew : a ∉ r.puts.map Prod.snd) (hfills : r.Fills C i a)
    (hdata : dataOf control (objectsAt i r.puts) ≠ []) (group : κ → γ) :
    (r.put (groups control group C) i a).Decided C ∧
      (r.put (groups control group C) i a).fired.flatten.Perm
        (dataOf control (objectsAt i r.puts)) := by
  obtain ⟨-, hperm, hiff⟩ := (hpool.put_node hnew i group).2 hfills
  have hact : ((groups control group C).arrive (r.nodes i) a).2 ≠ [] :=
    fun hnil => hdata (hiff.mp hnil)
  have hfired : (r.put (groups control group C) i a).fired =
      ((groups control group C).arrive (r.nodes i) a).2 := by
    rw [put_fired, hopen.fired, List.nil_append]
  refine ⟨.inr ⟨i, hopen.unseen, by rw [hfired]; exact hact, fun c hc => ?_, r.channels i, a, [],
    ?_, hfills.1, nofun⟩, by rw [hfired]; exact hperm⟩
  · rw [put_puts, List.mem_append, List.mem_singleton]
    exact (hfills.2 c hc).symm.imp_right fun heq => by rw [heq]
  · simp [Replicas.put, hact]

variable [BEq κ] [LawfulBEq κ]

theorem Open.put (hopen : r.Open C) (hpool : r.Pooling control C) (hnew : a ∉ r.puts.map Prod.snd)
    (i : ι) :
    (r.PutInTime control C i a → (r.put (groups control group C) i a).Keeps control C) ∧
      (¬ r.PutInTime control C i a → (r.put (groups control group C) i a).Loses control C) := by
  have hpool' : (r.put (groups control group C) i a).Pooling control C :=
    hpool.put hnew i
  obtain ⟨hkeeps, hfills⟩ := hpool.put_node hnew i group
  by_cases hf : r.Fills C i a
  · have ha := hpool.control a hf.1
    by_cases hempty : dataOf control (objectsAt i r.puts) = []
    · -- nothing to pass on: the coordinator will
      have hquiet := (hfills hf).2.2.mpr hempty
      refine ⟨fun _ => ⟨hpool', .inl (hopen.put_quiet hquiet)⟩, fun hlate => ?_⟩
      rw [PutInTime, if_pos ha] at hlate
      refine absurd (fun _ hsome => ?_) hlate
      obtain ⟨d, hd, hdata⟩ := hsome
      have hmem : d ∈ dataOf control (objectsAt i r.puts) :=
        List.mem_filter.mpr ⟨mem_objectsAt.mpr hd, by simp [hdata]⟩
      rw [hempty] at hmem
      cases hmem
    · obtain ⟨hdecided, hperm⟩ := hopen.put_fills hpool hnew hf hempty group
      have hputs : ∀ d, d ∈ (r.put (groups control group C) i a).puts.map Prod.snd →
          control d = false → d ∈ r.puts.map Prod.snd := by
        intro d hd hdata
        rw [put_objects, List.mem_append, List.mem_singleton] at hd
        refine hd.resolve_right fun heq => ?_
        rw [heq, ha] at hdata
        cases hdata
      have hsome : ∃ d, (i, d) ∈ r.puts ∧ control d = false := by
        obtain ⟨d, hd⟩ := List.exists_mem_of_ne_nil _ hempty
        obtain ⟨hmem, hdata⟩ := List.mem_filter.mp hd
        exact ⟨d, mem_objectsAt.mp hmem, by simpa using hdata⟩
      refine ⟨fun htime => ⟨hpool', .inr ⟨hdecided, fun d hd hdata => ?_⟩⟩,
        fun hlate => ⟨hpool', hdecided, ?_⟩⟩
      · rw [PutInTime, if_pos ha] at htime
        obtain ⟨p, hp, rfl⟩ := List.mem_map.mp (hputs d hd hdata)
        have hnode := htime hf hsome p hp hdata
        have hnodup : (objectsAt i r.puts).Nodup :=
          (List.filter_sublist.map Prod.snd).nodup hpool.once
        exact count_of_perm hnodup hperm (mem_objectsAt.mpr (hnode ▸ hp)) hdata
      · rw [PutInTime, if_pos ha] at hlate
        push Not at hlate
        obtain ⟨-, -, p, hp, hdata, hnode⟩ := hlate
        refine ⟨p.2, ?_, hdata, fun hpassed => ?_⟩
        · rw [put_objects]
          exact List.mem_append_left _ (List.mem_map_of_mem hp)
        · have hmem := List.mem_of_mem_filter (hperm.mem_iff.mp hpassed)
          exact hnode (same_node hpool.once hp (mem_objectsAt.mp hmem))
  · refine ⟨fun _ => ⟨hpool', .inl (hopen.put_quiet (hkeeps hf).1)⟩, fun hlate => ?_⟩
    cases ha : control a with
    | true =>
      rw [PutInTime, if_pos ha] at hlate
      exact absurd (fun hyes => absurd hyes hf) hlate
    | false =>
      rw [PutInTime, ha, if_neg Bool.false_ne_true] at hlate
      exact absurd ⟨hopen.unseen, hopen.fired⟩ hlate

theorem Open.report (hopen : r.Open C) (hpool : r.Pooling control C)
    (hhead : r.channels i = (a, active) :: rest) (receivers : ι → Bool) :
    (r.ReportInTime control C a active →
        (r.report (groups control group C) i a active rest receivers).Keeps control C) ∧
      (¬ r.ReportInTime control C a active →
        (r.report (groups control group C) i a active rest receivers).Loses control C) := by
  have hpool' : (r.report (groups control group C) i a active rest receivers).Pooling control C :=
    hpool.report hhead receivers
  obtain ⟨hkeeps, hseals⟩ := hpool.report_coord_node hhead group
  have hactive : active = false :=
    hopen.unflagged i (a, active) (by rw [hhead]; exact List.mem_cons_self)
  subst hactive
  have hfired : (r.report (groups control group C) i a false rest receivers).fired =
      ((groups control group C).arrive r.coord a).2 := by
    rw [report_fired, hopen.fired]
    rfl
  by_cases hs : r.Seals C a
  · obtain ⟨hunseen, -, hperm⟩ := hseals hs
    have hdecided : (r.report (groups control group C) i a false rest receivers).Decided C :=
      .inl ((Pooling.seen_report hunseen i a false rest receivers).mpr hs)
    rw [← hfired] at hperm
    refine ⟨fun htime => ⟨hpool', .inr ⟨hdecided, fun d hd hdata => ?_⟩⟩,
      fun hlate => ⟨hpool', hdecided, ?_⟩⟩
    · obtain ⟨⟨j, d'⟩, hp, rfl⟩ := List.mem_map.mp hd
      have hseen : d' ∈ r.reported.map Prod.snd := by
        rcases (hpool.placed.mem_iff j d').mp hp with hold | hunder
        · exact List.mem_map.mpr ⟨(j, d'), hold, rfl⟩
        · obtain ⟨e, he, rfl⟩ := List.mem_map.mp hunder
          rw [htime rfl hs j e he] at hdata
          cases hdata
      have hnodup := (List.nodup_append.mp (hpool.placed.nodup hpool.once i)).1
      exact count_of_perm hnodup hperm hseen hdata
    · unfold ReportInTime at hlate
      push Not at hlate
      obtain ⟨-, -, j, e, he, hdata⟩ := hlate
      refine ⟨e.1, List.mem_map.mpr ⟨_, hpool.placed.mem_puts_of_channel he, rfl⟩,
        by simpa using hdata, fun hpassed => ?_⟩
      exact hpool.placed.not_reported hpool.once he
        (List.mem_of_mem_filter (hperm.mem_iff.mp hpassed))
  · have hnil := (hkeeps hs).1
    refine ⟨fun _ => ⟨hpool', .inl ⟨?_, by rw [hfired, hnil], fun j e he => ?_⟩⟩,
      fun hlate => absurd (fun _ hyes => absurd hyes hs) hlate⟩
    · exact fun hseen => hs ((Pooling.seen_report hopen.unseen i a false rest receivers).mp hseen)
    · exact hopen.unflagged j e (mem_of_report_channels hhead he)

theorem Keeps.put (h : r.Keeps control C) (hnew : a ∉ r.puts.map Prod.snd) (i : ι) :
    (r.PutInTime control C i a → (r.put (groups control group C) i a).Keeps control C) ∧
      (¬ r.PutInTime control C i a → (r.put (groups control group C) i a).Loses control C) := by
  obtain ⟨hpool, hopen | ⟨hdecided, hall⟩⟩ := h
  · exact hopen.put hpool hnew i
  · have hpool' : (r.put (groups control group C) i a).Pooling control C :=
      hpool.put hnew i
    obtain ⟨hnil, hdecided'⟩ := hdecided.put group hpool hnew i
    have hfired : (r.put (groups control group C) i a).fired = r.fired := by
      rw [put_fired, hnil, List.append_nil]
    cases ha : control a with
    | true =>
      refine ⟨fun _ => ⟨hpool', .inr ⟨hdecided', fun d hd hdata => ?_⟩⟩, fun hlate => ?_⟩
      · rw [put_objects, List.mem_append, List.mem_singleton] at hd
        rw [hfired]
        rcases hd with hd | rfl
        · exact hall d hd hdata
        · rw [ha] at hdata
          cases hdata
      · rw [PutInTime, if_pos ha] at hlate
        exact absurd (fun hf => absurd (hdecided.complete hpool a hf.1) hnew) hlate
    | false =>
      refine ⟨fun htime => ?_, fun _ => ⟨hpool', hdecided', a, ?_, ha, ?_⟩⟩
      · rw [PutInTime, ha, if_neg Bool.false_ne_true] at htime
        rcases hdecided with hseen | ⟨j, htaken⟩
        · exact absurd hseen htime.1
        · exact absurd htime.2 htaken.fired
      · rw [put_objects]
        exact List.mem_append_right _ (List.mem_singleton_self a)
      · rw [hfired]
        exact fun hmem => hnew (hpool.passed a hmem)

theorem Keeps.report (h : r.Keeps control C) (hhead : r.channels i = (a, active) :: rest)
    (receivers : ι → Bool) :
    (r.ReportInTime control C a active →
        (r.report (groups control group C) i a active rest receivers).Keeps control C) ∧
      (¬ r.ReportInTime control C a active →
        (r.report (groups control group C) i a active rest receivers).Loses control C) := by
  obtain ⟨hpool, hopen | ⟨hdecided, hall⟩⟩ := h
  · exact hopen.report hpool hhead receivers
  · have hpool' : (r.report (groups control group C) i a active rest receivers).Pooling control C :=
      hpool.report hhead receivers
    have hdecided' := hdecided.report group hpool hhead receivers
    refine ⟨fun _ => ⟨hpool', .inr ⟨hdecided'.2, fun d hd hdata => ?_⟩⟩, fun hlate => ?_⟩
    · rw [report_fired_of_decided hdecided hpool hhead]
      exact hall d hd hdata
    · exact absurd (fun hactive hs => absurd hs (hdecided'.1 hactive).1) hlate

omit [LawfulBEq κ] in
theorem Keeps.clear (h : r.Keeps control C) (hpos : 0 < r.clears i) :
    (r.clear (groups control group C) i).Keeps control C := by
  obtain ⟨hpool, hopen | ⟨hdecided, hall⟩⟩ := h
  · exact absurd (hpool.clears i hpos) hopen.unseen
  · refine ⟨hpool.clear hpos, .inr ⟨.inl (hpool.clears i hpos), hall⟩⟩

omit [BEq κ] [LawfulBEq κ] in
theorem Loses.clear (h : r.Loses control C) (hpos : 0 < r.clears i) :
    (r.clear (groups control group C) i).Loses control C :=
  ⟨h.1.clear hpos, .inl (h.1.clears i hpos), h.2.2⟩

end Steps

/-! ## The end of a run -/

section End

variable [BEq κ] [LawfulBEq κ]

omit [LawfulBEq κ] in
theorem Keeps.initial (hC : C.Nonempty) (hcontrol : ∀ c ∈ C, control c = true)
    (hcoord : r.coord = Pool.empty) (hnodes : ∀ i, r.nodes i = Pool.empty)
    (hchannels : ∀ i, r.channels i = []) (hclears : ∀ i, r.clears i = 0) (hputs : r.puts = [])
    (hreported : r.reported = []) (hfired : r.fired = []) : r.Keeps control C := by
  obtain ⟨c, hc⟩ := id hC
  have hunseen : ¬ r.Seen C := fun hs => by simpa [hreported] using hs c hc
  refine ⟨⟨fun i => ?_, ?_, fun i => .inl ⟨?_, fun hw => ?_⟩, .inl ⟨?_, hunseen⟩, fun i hi => ?_,
    ?_, hC, hcontrol⟩, .inl ⟨hunseen, hfired, fun i e he => ?_⟩⟩
  · simp [objectsAt, hputs, hreported, hchannels]
  · simp [hputs]
  · rw [hnodes, hputs]
    exact Pool.has_nil
  · simpa [hputs] using hw c hc
  · rw [hcoord, hreported]
    exact Pool.has_nil
  · rw [hclears i] at hi
    cases hi
  · simp [hfired]
  · rw [hchannels i] at he
    cases he

omit [LawfulBEq κ] in
theorem Keeps.allPassed (h : r.Keeps control C) (hcomplete : r.Complete C)
    (hquiet : ∀ i, r.channels i = []) : r.AllPassed control := by
  obtain ⟨hpool, hopen | ⟨-, hall⟩⟩ := h
  · have hperm := hpool.placed.perm_of_quiet hquiet
    exact absurd (fun c hc => (hperm.map Prod.snd).mem_iff.mpr (hcomplete c hc)) hopen.unseen
  · exact hall

theorem Loses.not_allPassed (h : r.Loses control C) : ¬ r.AllPassed control := by
  obtain ⟨-, -, d, hd, hdata, hlost⟩ := h
  intro hall
  have hone := hall d hd hdata
  rw [List.count_eq_zero_of_not_mem hlost] at hone
  cases hone

end End

end Replicas

end Pheromone.Lib
