import Pheromone.Lib.Replicas

/-!
# The first k of n objects

The machine that acts on the first `k` of every `n` objects and drops the others.
Its counter is a machine word, and a request to clear adds `k` to it.  When `n`
objects are put, its replicas act exactly once if and only if a node that gets `k`
objects gets them before anybody else has reported one, and no other report
overtakes the one with which it says so.
-/

namespace Pheromone.Lib

/-- How many objects a replica has counted, and those that it will act on. -/
structure Tally (α : Type) where
  count : Nat
  buffer : List α

def quorum {α : Type} (m k n : Nat) : Machine (Tally α) α (List α) where
  arrive s a :=
    let count := (s.count + 1) % m
    if count ≤ k then
      let buffer := s.buffer ++ [a]
      if count = k then (⟨count, []⟩, [buffer]) else (⟨count, buffer⟩, [])
    else if n ≤ count then (⟨0, s.buffer⟩, [])
    else (⟨count, s.buffer⟩, [])
  clear s := ⟨(s.count + k) % m, []⟩

structure QuorumSizes (m k n : Nat) : Prop where
  pos : 1 ≤ k
  less : k < n
  word : n < m

section Arrivals

variable {α : Type} {m k n : Nat} {s : Tally α}

theorem quorum_arrive_short (hs : QuorumSizes m k n) (h : s.count + 1 < k) (a : α) :
    (quorum m k n).arrive s a = (⟨s.count + 1, s.buffer ++ [a]⟩, []) := by
  have hmod : (s.count + 1) % m = s.count + 1 :=
    Nat.mod_eq_of_lt (by have := hs.less; have := hs.word; omega)
  simp [quorum, hmod, Nat.le_of_lt h, Nat.ne_of_lt h]

theorem quorum_arrive_full (hs : QuorumSizes m k n) (h : s.count + 1 = k) (a : α) :
    (quorum m k n).arrive s a = (⟨k, []⟩, [s.buffer ++ [a]]) := by
  have hmod : (s.count + 1) % m = k := by
    rw [h]
    exact Nat.mod_eq_of_lt (Nat.lt_trans hs.less hs.word)
  simp [quorum, hmod]

theorem quorum_arrive_late (hs : QuorumSizes m k n) (h : k ≤ s.count) (hn : s.count < n)
    (a : α) :
    (quorum m k n).arrive s a =
      (⟨if n ≤ s.count + 1 then 0 else s.count + 1, s.buffer⟩, []) := by
  have hmod : (s.count + 1) % m = s.count + 1 :=
    Nat.mod_eq_of_lt (by have := hs.word; omega)
  have hlate : ¬ s.count + 1 ≤ k := by omega
  simp only [quorum, hmod, if_neg hlate]
  split <;> rfl

/-- With `left` more objects a counter at `x` does not reach `k`. -/
def OutOfReach (m k n left x : Nat) : Prop :=
  x < m ∧ (x < k ∧ left < k - x ∨ k ≤ x ∧ left < max 1 (n - x) + k)

theorem OutOfReach.fewer {left left' x : Nat} (h : OutOfReach m k n left x)
    (hle : left' ≤ left) : OutOfReach m k n left' x := by
  unfold OutOfReach at h ⊢
  omega

theorem OutOfReach.arrive (hs : QuorumSizes m k n) {left : Nat}
    (h : OutOfReach m k n (left + 1) s.count) (a : α) :
    ((quorum m k n).arrive s a).2 = [] ∧
      OutOfReach m k n left ((quorum m k n).arrive s a).1.count := by
  obtain ⟨hpos, hless, hword⟩ := hs
  obtain ⟨hm, h⟩ := h
  have hcount : (s.count + 1) % m = s.count + 1 ∨ (s.count + 1) % m = 0 ∧ s.count + 1 = m := by
    rcases Nat.lt_or_ge (s.count + 1) m with hlt | hge
    · exact .inl (Nat.mod_eq_of_lt hlt)
    · have heq : s.count + 1 = m := by omega
      exact .inr ⟨by rw [heq, Nat.mod_self], heq⟩
  unfold OutOfReach
  simp only [quorum]
  generalize (s.count + 1) % m = count at hcount ⊢
  by_cases hk : count = k
  · omega
  · split
    · simp only
      exact ⟨trivial, by omega⟩
    · split
      · refine ⟨rfl, ?_⟩
        simp only
        omega
      · refine ⟨rfl, ?_⟩
        simp only
        omega

theorem outOfReach_clear (hs : QuorumSizes m k n) {left x : Nat} (hx : x < k)
    (hleft : left + k ≤ n) : OutOfReach m k n left ((x + k) % m) := by
  obtain ⟨hpos, hless, hword⟩ := hs
  have hmod : (x + k) % m = x + k ∧ x + k < m ∨ (x + k) % m + m = x + k := by
    rcases Nat.lt_or_ge (x + k) m with hlt | hge
    · exact .inl ⟨Nat.mod_eq_of_lt hlt, hlt⟩
    · have hsub : x + k - m < m := by omega
      rw [Nat.mod_eq_sub_mod hge, Nat.mod_eq_of_lt hsub]
      exact .inr (by omega)
  unfold OutOfReach
  generalize (x + k) % m = y at hmod ⊢
  omega

end Arrivals

namespace Replicas

variable {ι α : Type} [DecidableEq ι] {m k n : Nat} {r : Replicas ι (Tally α) α (List α)}
  {i j : ι} {a : α}

/-! ## The nodes -/

/-- The node `i` has counted all its objects, which are fewer than `k`. -/
structure Fresh (k : Nat) (r : Replicas ι (Tally α) α (List α)) (i : ι) : Prop where
  state : r.nodes i = ⟨(objectsAt i r.puts).length, objectsAt i r.puts⟩
  few : (objectsAt i r.puts).length < k

/-- The node `i` has acted and goes on counting. -/
structure Spent (k n : Nat) (r : Replicas ι (Tally α) α (List α)) (i : ι) : Prop where
  enough : k ≤ (objectsAt i r.puts).length
  count : (objectsAt i r.puts).length < n → (r.nodes i).count = (objectsAt i r.puts).length

/-- The node `i` will not act on what is left of the `n` objects. -/
def Retired (m k n : Nat) (r : Replicas ι (Tally α) α (List α)) (i : ι) : Prop :=
  OutOfReach m k n (n - r.puts.length) (r.nodes i).count

theorem Fresh.put_of_ne {M : Machine (Tally α) α (List α)} (h : r.Fresh k j) (hj : j ≠ i) :
    (r.put M i a).Fresh k j := by
  refine ⟨?_, ?_⟩ <;> simp only [put_puts, objectsAt_append, objectsAt_of_ne hj, List.append_nil,
    put_nodes_of_ne hj]
  · exact h.state
  · exact h.few

theorem Fresh.put (hs : QuorumSizes m k n) (h : r.Fresh k i) (a : α) :
    ((quorum m k n).arrive (r.nodes i) a).2 = [] ∧ (r.put (quorum m k n) i a).Fresh k i ∨
      ((quorum m k n).arrive (r.nodes i) a).2 = [objectsAt i r.puts ++ [a]] ∧
        (objectsAt i r.puts).length + 1 = k ∧ (r.put (quorum m k n) i a).Spent k n i := by
  have hfew := h.few
  rcases Nat.lt_or_ge ((objectsAt i r.puts).length + 1) k with hlt | hge
  · have harrive := quorum_arrive_short hs (s := r.nodes i) (by rw [h.state]; exact hlt) a
    refine .inl ⟨by rw [harrive], ?_, ?_⟩
    · rw [put_nodes_self, harrive, h.state]
      simp [put_puts, objectsAt_append, objectsAt_self]
    · simpa [put_puts, objectsAt_append, objectsAt_self] using hlt
  · have heq : (objectsAt i r.puts).length + 1 = k := by omega
    have harrive := quorum_arrive_full hs (s := r.nodes i) (by rw [h.state]; exact heq) a
    refine .inr ⟨by rw [harrive, h.state], heq, ?_, ?_⟩
    · simpa [put_puts, objectsAt_append, objectsAt_self] using hge
    · intro _
      simp [put_puts, objectsAt_append, objectsAt_self, put_nodes_self, harrive, heq]

theorem Spent.put_of_ne {M : Machine (Tally α) α (List α)} (h : r.Spent k n j) (hj : j ≠ i) :
    (r.put M i a).Spent k n j := by
  refine ⟨?_, ?_⟩ <;> simp only [put_puts, objectsAt_append, objectsAt_of_ne hj, List.append_nil,
    put_nodes_of_ne hj]
  · exact h.enough
  · exact h.count

theorem Spent.put (hs : QuorumSizes m k n) (h : r.Spent k n i) (hleft : r.puts.length < n)
    (a : α) :
    ((quorum m k n).arrive (r.nodes i) a).2 = [] ∧ (r.put (quorum m k n) i a).Spent k n i := by
  have hlt : (objectsAt i r.puts).length < n :=
    Nat.lt_of_le_of_lt (length_objectsAt_le i r.puts) hleft
  have hcount := h.count hlt
  have harrive := quorum_arrive_late hs (s := r.nodes i) (by rw [hcount]; exact h.enough)
    (by rw [hcount]; exact hlt) a
  refine ⟨by rw [harrive], ?_, ?_⟩ <;>
    simp only [put_puts, objectsAt_append, objectsAt_self, List.length_append,
      List.length_singleton, put_nodes_self, harrive]
  · exact Nat.le_succ_of_le h.enough
  · intro hn
    rw [hcount, if_neg (by omega)]

theorem Retired.put_of_ne {M : Machine (Tally α) α (List α)} (h : r.Retired m k n j)
    (hj : j ≠ i) : (r.put M i a).Retired m k n j := by
  unfold Retired
  rw [put_nodes_of_ne hj]
  refine OutOfReach.fewer h ?_
  simp only [put_puts, List.length_append]
  omega

theorem Retired.put (hs : QuorumSizes m k n) (h : r.Retired m k n i)
    (hleft : r.puts.length < n) (a : α) :
    ((quorum m k n).arrive (r.nodes i) a).2 = [] ∧
      (r.put (quorum m k n) i a).Retired m k n i := by
  have hsucc : n - r.puts.length = n - (r.puts.length + 1) + 1 := by omega
  unfold Retired at h ⊢
  rw [hsucc] at h
  simpa [put_puts, put_nodes_self] using h.arrive hs a

/-! ## The coordinator -/

structure Counting (k n : Nat) (r : Replicas ι (Tally α) α (List α)) : Prop where
  placed : r.Placed
  within : r.puts.length ≤ n
  count : r.reported.length < n → r.coord.count = r.reported.length
  buffer : r.reported.length < k → r.coord.buffer = r.reported.map Prod.snd

namespace Counting

theorem reported_lt (h : r.Counting k n) {e : α × Bool} {rest : List (α × Bool)}
    (hhead : r.channels i = e :: rest) : r.reported.length < n := by
  have hle := (h.placed.subperm i).length_le
  have hwithin := h.within
  simp only [hhead, List.length_append, List.length_map, List.length_cons] at hle
  omega

theorem arrive_short (hs : QuorumSizes m k n) (h : r.Counting k n)
    (hlt : r.reported.length + 1 < k) (a : α) :
    (quorum m k n).arrive r.coord a =
      (⟨r.reported.length + 1, r.reported.map Prod.snd ++ [a]⟩, []) := by
  have hcount := h.count (by have := hs.less; omega)
  have hbuffer := h.buffer (by omega)
  rw [quorum_arrive_short hs (by rw [hcount]; exact hlt), hcount, hbuffer]

theorem arrive_full (hs : QuorumSizes m k n) (h : r.Counting k n)
    (heq : r.reported.length + 1 = k) (a : α) :
    (quorum m k n).arrive r.coord a = (⟨k, []⟩, [r.reported.map Prod.snd ++ [a]]) := by
  have hcount := h.count (by have := hs.less; omega)
  have hbuffer := h.buffer (by omega)
  rw [quorum_arrive_full hs (by rw [hcount]; exact heq), hbuffer]

theorem arrive_late (hs : QuorumSizes m k n) (h : r.Counting k n) (hge : k ≤ r.reported.length)
    (hlt : r.reported.length < n) (a : α) :
    (quorum m k n).arrive r.coord a =
      (⟨if n ≤ r.reported.length + 1 then 0 else r.reported.length + 1, r.coord.buffer⟩, []) := by
  have hcount := h.count hlt
  rw [quorum_arrive_late hs (by rw [hcount]; exact hge) (by rw [hcount]; exact hlt), hcount]

theorem put {M : Machine (Tally α) α (List α)} (h : r.Counting k n) (hleft : r.puts.length < n)
    (i : ι) (a : α) : (r.put M i a).Counting k n where
  placed := h.placed.step (.put i a)
  within := by
    rw [put_puts, List.length_append]
    exact hleft
  count := h.count
  buffer := h.buffer

theorem report (hs : QuorumSizes m k n) (h : r.Counting k n) {active : Bool}
    {rest : List (α × Bool)} (hhead : r.channels i = (a, active) :: rest)
    (receivers : ι → Bool) :
    (r.report (quorum m k n) i a active rest receivers).Counting k n := by
  have hlt := h.reported_lt hhead
  refine ⟨h.placed.step (.report i a active rest receivers hhead), h.within, ?_, ?_⟩ <;>
    simp only [report_reported, report_coord, List.length_append, List.length_singleton]
  · intro hn
    rcases Nat.lt_trichotomy (r.reported.length + 1) k with hshort | hfull | hlate
    · rw [h.arrive_short hs hshort]
    · rw [h.arrive_full hs hfull, hfull]
    · rw [h.arrive_late hs (by omega) hlt, if_neg (by omega)]
  · intro hk
    rw [h.arrive_short hs hk, List.map_append]
    rfl

theorem clear {M : Machine (Tally α) α (List α)} (h : r.Counting k n) (i : ι) :
    (r.clear M i).Counting k n :=
  ⟨h.placed, h.within, h.count, h.buffer⟩

end Counting

/-! ## Phases of a round -/

/-- There was one action, on `k` of the objects. -/
def ActedOnce (k : Nat) (r : Replicas ι (Tally α) α (List α)) : Prop :=
  ∃ objects, r.fired = [objects] ∧ objects.length = k ∧ objects.Subperm (r.puts.map Prod.snd)

def Unflagged (r : Replicas ι (Tally α) α (List α)) : Prop :=
  ∀ i, ∀ e ∈ r.channels i, e.2 = false

/-- Nobody has acted. -/
structure Idle (k : Nat) (r : Replicas ι (Tally α) α (List α)) : Prop where
  fired : r.fired = []
  unflagged : r.Unflagged
  few : r.reported.length < k
  fresh : ∀ i, r.Fresh k i
  clears : ∀ i, r.clears i = 0

/-- The node `j` has acted, and its report about that is under way behind `front`. -/
structure Leading (k n : Nat) (r : Replicas ι (Tally α) α (List α)) (j : ι)
    (front : List (α × Bool)) : Prop where
  acted : r.ActedOnce k
  channel : ∃ a rest, r.channels j = front ++ (a, true) :: rest ∧ ∀ e ∈ rest, e.2 = false
  front : ∀ e ∈ front, e.2 = false
  alone : r.Alone j
  few : r.reported.length < k
  spent : r.Spent k n j
  fresh : ∀ i, i ≠ j → r.Fresh k i
  clears : ∀ i, r.clears i = 0

/-- The flagged report will be the one with number `k`. -/
def Ahead (k n : Nat) (r : Replicas ι (Tally α) α (List α)) : Prop :=
  ∃ j front, r.Leading k n j front ∧ r.reported.length + front.length + 1 = k

/-- Another report will be the one with number `k`. -/
def Overtaken (k n : Nat) (r : Replicas ι (Tally α) α (List α)) : Prop :=
  ∃ j front, r.Leading k n j front ∧ k ≤ r.reported.length + front.length

/-- The node that acted goes on counting, or the coordinator acted and its
requests to clear are under way or received. -/
def Calm (m k n : Nat) (r : Replicas ι (Tally α) α (List α)) : Prop :=
  ((∀ i, r.clears i = 0) ∧ ∃ j, r.Spent k n j ∧ ∀ i, i ≠ j → r.Fresh k i) ∨
    ∀ i, r.Fresh k i ∧ r.clears i ≤ 1 ∨ r.Retired m k n i ∧ r.clears i = 0

/-- There was one action, and the coordinator knows. -/
structure Settled (m k n : Nat) (r : Replicas ι (Tally α) α (List α)) : Prop where
  acted : r.ActedOnce k
  unflagged : r.Unflagged
  enough : k ≤ r.reported.length
  calm : r.Calm m k n

section Put

theorem ActedOnce.put {M : Machine (Tally α) α (List α)} (h : r.ActedOnce k)
    (hnil : (M.arrive (r.nodes i) a).2 = []) : (r.put M i a).ActedOnce k := by
  obtain ⟨objects, hfired, hlength, hsub⟩ := h
  refine ⟨objects, by rw [put_fired, hnil, List.append_nil, hfired], hlength, ?_⟩
  rw [put_objects]
  exact hsub.trans (List.sublist_append_left _ _).subperm

theorem ActedOnce.put_again {M : Machine (Tally α) α (List α)} (h : r.ActedOnce k)
    (hact : (M.arrive (r.nodes i) a).2 ≠ []) : 2 ≤ (r.put M i a).fired.length := by
  obtain ⟨objects, hfired, -⟩ := h
  have hpos := List.length_pos_iff.mpr hact
  rw [put_fired, hfired, List.length_append, List.length_singleton]
  omega

theorem Unflagged.put {M : Machine (Tally α) α (List α)} (h : r.Unflagged)
    (hnil : (M.arrive (r.nodes i) a).2 = []) : (r.put M i a).Unflagged := by
  intro j e he
  exact (put_channels_unflagged hnil he).elim (h j e) id

theorem Idle.put (hs : QuorumSizes m k n) (hc : r.Counting k n) (h : r.Idle k) (i : ι) (a : α) :
    ((quorum m k n).arrive (r.nodes i) a).2 = [] ∧ (r.put (quorum m k n) i a).Idle k ∨
      ((quorum m k n).arrive (r.nodes i) a).2 ≠ [] ∧
        (r.put (quorum m k n) i a).Leading k n i (r.channels i) ∧
        (objectsAt i r.reported).length + (r.channels i).length + 1 = k := by
  rcases (h.fresh i).put hs a with ⟨hnil, hfresh⟩ | ⟨hact, hlength, hspent⟩
  · refine .inl ⟨hnil, ?_, h.unflagged.put hnil, h.few, fun j => ?_, h.clears⟩
    · rw [put_fired, hnil, List.append_nil, h.fired]
    · by_cases hj : j = i
      · rw [hj]
        exact hfresh
      · exact (h.fresh j).put_of_ne hj
  · refine .inr ⟨by rw [hact]; exact List.cons_ne_nil _ _, ⟨?_, ?_, h.unflagged i, ?_, h.few,
      hspent, fun j hj => (h.fresh j).put_of_ne hj, h.clears⟩, ?_⟩
    · refine ⟨objectsAt i r.puts ++ [a], ?_, ?_, ?_⟩
      · rw [put_fired, h.fired, List.nil_append, hact]
      · rw [List.length_append, List.length_singleton, hlength]
      · rw [put_objects]
        exact ((List.filter_sublist.map Prod.snd).append_right [a]).subperm
    · exact ⟨a, [], by simp [Replicas.put, hact], nofun⟩
    · intro j hj e he
      rw [put_channels_of_ne hj] at he
      exact h.unflagged j e he
    · have hplaced := congrArg List.length (hc.placed i)
      rw [List.length_append, List.length_map] at hplaced
      omega

theorem Leading.put (hs : QuorumSizes m k n) {front : List (α × Bool)}
    (h : r.Leading k n j front) (hleft : r.puts.length < n) (i : ι) (a : α) :
    ((quorum m k n).arrive (r.nodes i) a).2 = [] ∧
        (r.put (quorum m k n) i a).Leading k n j front ∨
      ((quorum m k n).arrive (r.nodes i) a).2 ≠ [] ∧ i ≠ j := by
  obtain ⟨b, rest, hchannel, hrest⟩ := h.channel
  by_cases hi : i = j
  · subst hi
    obtain ⟨hnil, hspent⟩ := h.spent.put hs hleft a
    refine .inl ⟨hnil, h.acted.put hnil, ⟨b, rest ++ [(a, false)], ?_, ?_⟩, h.front, ?_, h.few,
      hspent, fun j hj => (h.fresh j hj).put_of_ne hj, h.clears⟩
    · simp [put_channels_self hnil, hchannel]
    · intro e he
      rcases List.mem_append.mp he with he | he
      · exact hrest e he
      · rw [List.mem_singleton.mp he]
    · intro j hj e he
      exact (put_channels_unflagged hnil he).elim (h.alone j hj e) id
  · rcases (h.fresh i hi).put hs a with ⟨hnil, hfresh⟩ | ⟨hact, -, -⟩
    · refine .inl ⟨hnil, h.acted.put hnil, ⟨b, rest, ?_, hrest⟩, h.front, ?_, h.few,
        h.spent.put_of_ne (Ne.symm hi), ?_, h.clears⟩
      · rw [put_channels_of_ne (Ne.symm hi), hchannel]
      · intro j' hj' e he
        exact (put_channels_unflagged hnil he).elim (h.alone j' hj' e) id
      · intro j' hj'
        by_cases hij : j' = i
        · rw [hij]
          exact hfresh
        · exact (h.fresh j' hj').put_of_ne hij
    · exact .inr ⟨by rw [hact]; exact List.cons_ne_nil _ _, hi⟩

theorem Calm.put (hs : QuorumSizes m k n) (h : r.Calm m k n) (hleft : r.puts.length < n)
    (hnil : ((quorum m k n).arrive (r.nodes i) a).2 = []) :
    (r.put (quorum m k n) i a).Calm m k n := by
  have hfresh : r.Fresh k i → (r.put (quorum m k n) i a).Fresh k i := by
    intro hi
    rcases hi.put hs a with ⟨-, hi'⟩ | ⟨hact, -, -⟩
    · exact hi'
    · rw [hnil] at hact
      cases hact
  rcases h with ⟨hclears, j, hspent, hothers⟩ | hnodes
  · refine .inl ⟨hclears, j, ?_, fun i' hi' => ?_⟩
    · by_cases hj : j = i
      · subst hj
        exact (hspent.put hs hleft a).2
      · exact hspent.put_of_ne hj
    · by_cases hi : i' = i
      · subst hi
        exact hfresh (hothers i' hi')
      · exact (hothers i' hi').put_of_ne hi
  · refine .inr fun j => ?_
    by_cases hj : j = i
    · subst hj
      exact (hnodes j).imp (fun hj => ⟨hfresh hj.1, hj.2⟩)
        fun hj => ⟨(hj.1.put hs hleft a).2, hj.2⟩
    · exact (hnodes j).imp (fun h' => ⟨h'.1.put_of_ne hj, h'.2⟩)
        fun h' => ⟨h'.1.put_of_ne hj, h'.2⟩

end Put

section Report

variable {active : Bool} {rest : List (α × Bool)}

theorem ActedOnce.report {M : Machine (Tally α) α (List α)} (h : r.ActedOnce k)
    (hnil : active = false → (M.arrive r.coord a).2 = []) (receivers : ι → Bool) :
    (r.report M i a active rest receivers).ActedOnce k := by
  obtain ⟨objects, hfired, hrest⟩ := h
  refine ⟨objects, ?_, hrest⟩
  rw [report_fired, hfired]
  cases active with
  | false => simp [hnil rfl]
  | true => rfl

theorem ActedOnce.report_again {M : Machine (Tally α) α (List α)} (h : r.ActedOnce k)
    (hact : (M.arrive r.coord a).2 ≠ []) (receivers : ι → Bool) :
    2 ≤ (r.report M i a false rest receivers).fired.length := by
  obtain ⟨objects, hfired, -⟩ := h
  have hpos := List.length_pos_iff.mpr hact
  simp only [report_fired, hfired, Bool.false_eq_true, if_false, List.length_append,
    List.length_singleton]
  omega

theorem Unflagged.report {M : Machine (Tally α) α (List α)} (h : r.Unflagged)
    (hhead : r.channels i = (a, active) :: rest) (receivers : ι → Bool) :
    (r.report M i a active rest receivers).Unflagged :=
  fun j e he => h j e (mem_of_report_channels hhead he)

omit [DecidableEq ι] in
theorem Unflagged.head (h : r.Unflagged) (hhead : r.channels i = (a, active) :: rest) :
    active = false :=
  h i (a, active) (by rw [hhead]; exact List.mem_cons_self)

theorem Idle.report (hs : QuorumSizes m k n) (hc : r.Counting k n) (h : r.Idle k)
    (hhead : r.channels i = (a, active) :: rest) (receivers : ι → Bool) :
    (r.report (quorum m k n) i a active rest receivers).Idle k ∨
      (r.report (quorum m k n) i a active rest receivers).Settled m k n := by
  obtain rfl := h.unflagged.head hhead
  have hfew := h.few
  rcases Nat.lt_or_ge (r.reported.length + 1) k with hshort | hfull
  · have harrive := hc.arrive_short hs hshort a
    refine .inl ⟨?_, h.unflagged.report hhead receivers, ?_, fun j => ?_, fun j => ?_⟩
    · simp [report_fired, harrive, h.fired]
    · simpa [report_reported] using hshort
    · exact ⟨(h.fresh j).state, (h.fresh j).few⟩
    · rw [report_clears fun _ => by rw [harrive]]
      exact h.clears j
  · have harrive := hc.arrive_full hs (by omega) a
    refine .inr ⟨⟨r.reported.map Prod.snd ++ [a], ?_, ?_, ?_⟩, h.unflagged.report hhead receivers,
      ?_, .inr fun j => .inl ⟨⟨(h.fresh j).state, (h.fresh j).few⟩, ?_⟩⟩
    · simp [report_fired, harrive, h.fired]
    · simp only [List.length_append, List.length_map, List.length_singleton]
      omega
    · -- the reports so far and this one were put separately
      have hsub := hc.placed.subperm_objects i
      rw [hhead] at hsub
      exact (List.Sublist.append_left (by simp) _).subperm.trans hsub
    · simpa [report_reported] using hfull
    · simp only [Replicas.report, h.clears j, Nat.zero_add, Bool.false_eq_true, if_false]
      split
      · exact Nat.le_refl 1
      · exact Nat.zero_le 1

theorem Leading.head {front : List (α × Bool)} (h : r.Leading k n j front)
    (hhead : r.channels i = (a, active) :: rest) (hpos : i = j → front ≠ []) :
    active = false := by
  by_cases hi : i = j
  · subst hi
    obtain ⟨b, rest', hchannel, -⟩ := h.channel
    cases front with
    | nil => exact absurd rfl (hpos rfl)
    | cons e front =>
      rw [hhead, List.cons_append] at hchannel
      have he := h.front e List.mem_cons_self
      rw [← (List.cons.inj hchannel).1] at he
      exact he
  · exact h.alone i hi (a, active) (by rw [hhead]; exact List.mem_cons_self)

theorem Leading.report_full (hs : QuorumSizes m k n) (hc : r.Counting k n)
    {front : List (α × Bool)} (h : r.Leading k n j front)
    (hhead : r.channels i = (a, active) :: rest) (hpos : i = j → front ≠ [])
    (hfull : r.reported.length + 1 = k) (receivers : ι → Bool) :
    2 ≤ (r.report (quorum m k n) i a active rest receivers).fired.length := by
  obtain rfl := h.head hhead hpos
  refine h.acted.report_again ?_ receivers
  rw [hc.arrive_full hs hfull a]
  exact List.cons_ne_nil _ _

theorem Leading.report_short (hs : QuorumSizes m k n) (hc : r.Counting k n)
    {front : List (α × Bool)} (h : r.Leading k n j front)
    (hhead : r.channels i = (a, active) :: rest) (hpos : i = j → front ≠ [])
    (hshort : r.reported.length + 1 < k) (receivers : ι → Bool) :
    (r.report (quorum m k n) i a active rest receivers).Leading k n j
      (if i = j then front.tail else front) := by
  have harrive := hc.arrive_short hs hshort a
  have hnil : active = false → ((quorum m k n).arrive r.coord a).2 = [] := fun _ => by rw [harrive]
  obtain ⟨b, rest', hchannel, hrest⟩ := h.channel
  refine ⟨h.acted.report hnil receivers, ?_, ?_, ?_, ?_, ⟨h.spent.enough, h.spent.count⟩,
    fun i' hi' => ⟨(h.fresh i' hi').state, (h.fresh i' hi').few⟩, fun i' => ?_⟩
  · refine ⟨b, rest', ?_, hrest⟩
    by_cases hi : i = j
    · subst hi
      cases front with
      | nil => exact absurd rfl (hpos rfl)
      | cons e front =>
        rw [hhead, List.cons_append] at hchannel
        rw [report_channels_self, if_pos rfl]
        exact (List.cons.inj hchannel).2
    · rw [report_channels_of_ne (Ne.symm hi), if_neg hi, hchannel]
  · intro e he
    split at he
    · exact h.front e (List.mem_of_mem_tail he)
    · exact h.front e he
  · exact fun i' hi' e he => h.alone i' hi' e (mem_of_report_channels hhead he)
  · simpa [report_reported] using hshort
  · rw [report_clears hnil]
    exact h.clears i'

theorem Settled.report (hs : QuorumSizes m k n) (hc : r.Counting k n) (h : r.Settled m k n)
    (hhead : r.channels i = (a, active) :: rest) (receivers : ι → Bool) :
    (r.report (quorum m k n) i a active rest receivers).Settled m k n := by
  have hnil : active = false → ((quorum m k n).arrive r.coord a).2 = [] := by
    intro _
    rw [hc.arrive_late hs h.enough (hc.reported_lt hhead)]
  refine ⟨h.acted.report hnil receivers, h.unflagged.report hhead receivers, ?_, ?_⟩
  · rw [report_reported, List.length_append]
    exact Nat.le_add_right_of_le h.enough
  · rcases h.calm with ⟨hclears, j, hspent, hothers⟩ | hnodes
    · refine .inl ⟨fun i' => ?_, j, ⟨hspent.enough, hspent.count⟩,
        fun i' hi' => ⟨(hothers i' hi').state, (hothers i' hi').few⟩⟩
      rw [report_clears hnil]
      exact hclears i'
    · refine .inr fun j => ?_
      rw [report_clears hnil]
      exact (hnodes j).imp (fun h' => ⟨⟨h'.1.state, h'.1.few⟩, h'.2⟩) id

end Report

theorem Settled.clear (hs : QuorumSizes m k n) (hc : r.Counting k n) (h : r.Settled m k n)
    (hpos : 0 < r.clears i) : (r.clear (quorum m k n) i).Settled m k n := by
  refine ⟨h.acted, h.unflagged, h.enough, ?_⟩
  rcases h.calm with ⟨hclears, -⟩ | hnodes
  · exact absurd (hclears i) (Nat.ne_of_gt hpos)
  refine .inr fun j => ?_
  by_cases hj : j = i
  · subst hj
    right
    rcases hnodes j with ⟨hfresh, hle⟩ | ⟨-, hzero⟩
    · have hreported := (hc.placed.subperm j).length_le
      have henough := h.enough
      have hwithin := hc.within
      rw [List.length_append] at hreported
      refine ⟨?_, ?_⟩
      · simp only [Retired, Replicas.clear, Function.update_self, hfresh.state]
        exact outOfReach_clear hs hfresh.few (by omega)
      · simp only [Replicas.clear, Function.update_self]
        omega
    · omega
  · refine (hnodes j).imp (fun h' => ⟨⟨?_, h'.1.few⟩, ?_⟩) fun h' => ⟨?_, ?_⟩ <;>
      simp only [Retired, Replicas.clear, Function.update_of_ne hj]
    · exact h'.1.state
    · exact h'.2
    · exact h'.1
    · exact h'.2

/-! ## Rounds in turn -/

/-- The replicas act once if they have not yet. -/
def OnTrack (m k n : Nat) (r : Replicas ι (Tally α) α (List α)) : Prop :=
  r.Counting k n ∧ (r.Idle k ∨ r.Ahead k n ∨ r.Settled m k n)

/-- The replicas have acted twice, or will. -/
def OffTrack (k n : Nat) (r : Replicas ι (Tally α) α (List α)) : Prop :=
  r.Counting k n ∧ (r.Overtaken k n ∨ 2 ≤ r.fired.length)

/-- When the node `i` acts on `a`, all that the coordinator has seen are fewer than
`k` objects of `i`, and no other node has told it that it acted. -/
def PutInTurn (m k n : Nat) (r : Replicas ι (Tally α) α (List α)) (i : ι) (a : α) : Prop :=
  ((quorum m k n).arrive (r.nodes i) a).2 ≠ [] →
    (∀ p ∈ r.reported, p.1 = i) ∧ r.reported.length < k ∧ r.Alone i

theorem OnTrack.put (hs : QuorumSizes m k n) (h : r.OnTrack m k n) (hleft : r.puts.length < n)
    (i : ι) (a : α) :
    (r.PutInTurn m k n i a → (r.put (quorum m k n) i a).OnTrack m k n) ∧
      (¬ r.PutInTurn m k n i a → (r.put (quorum m k n) i a).OffTrack k n) := by
  obtain ⟨hc, hidle | ⟨j, front, hlead, hfront⟩ | hsettled⟩ := h
  · have hc' := hc.put (M := quorum m k n) hleft i a
    rcases hidle.put hs hc i a with ⟨hnil, hidle'⟩ | ⟨hact, hlead, hlength⟩
    · exact ⟨fun _ => ⟨hc', .inl hidle'⟩, fun hturn => absurd (fun hact => absurd hnil hact) hturn⟩
    · refine ⟨fun hturn => ⟨hc', .inr (.inl ⟨i, _, hlead, ?_⟩)⟩,
        fun hturn => ⟨hc', .inl ⟨i, _, hlead, ?_⟩⟩⟩
      · rw [← hlength, length_objectsAt_eq_iff.mpr (hturn hact).1]
        rfl
      · -- some report of another node is ahead of those of `i`
        have hne : (objectsAt i r.reported).length ≠ r.reported.length := by
          intro heq
          refine hturn fun _ => ⟨length_objectsAt_eq_iff.mp heq, hidle.few, ?_⟩
          exact fun j _ => hidle.unflagged j
        have hle := length_objectsAt_le i r.reported
        change k ≤ r.reported.length + (r.channels i).length
        omega
  · have hc' := hc.put (M := quorum m k n) hleft i a
    rcases hlead.put hs hleft i a with ⟨hnil, hlead'⟩ | ⟨hact, hi⟩
    · exact ⟨fun _ => ⟨hc', .inr (.inl ⟨j, front, hlead', hfront⟩)⟩,
        fun hturn => absurd (fun hact => absurd hnil hact) hturn⟩
    · refine ⟨fun hturn => ?_, fun _ => ⟨hc', .inr (hlead.acted.put_again hact)⟩⟩
      obtain ⟨b, rest, hchannel, -⟩ := hlead.channel
      have hflag := (hturn hact).2.2 j (Ne.symm hi) (b, true) (by rw [hchannel]; simp)
      cases hflag
  · have hc' := hc.put (M := quorum m k n) hleft i a
    by_cases hact : ((quorum m k n).arrive (r.nodes i) a).2 = []
    · refine ⟨fun _ => ⟨hc', .inr (.inr ⟨hsettled.acted.put hact, hsettled.unflagged.put hact,
        hsettled.enough, hsettled.calm.put hs hleft hact⟩)⟩, ?_⟩
      exact fun hturn => absurd (fun hne => absurd hact hne) hturn
    · refine ⟨fun hturn => ?_, fun _ => ⟨hc', .inr (hsettled.acted.put_again hact)⟩⟩
      exact absurd (hturn hact).2.1 (Nat.not_lt.mpr hsettled.enough)

theorem OffTrack.put (hs : QuorumSizes m k n) (h : r.OffTrack k n) (hleft : r.puts.length < n)
    (i : ι) (a : α) : (r.put (quorum m k n) i a).OffTrack k n := by
  refine ⟨h.1.put hleft i a, ?_⟩
  rcases h.2 with ⟨j, front, hlead, hfront⟩ | htwice
  · rcases hlead.put hs hleft i a with ⟨-, hlead'⟩ | ⟨hact, -⟩
    · exact .inl ⟨j, front, hlead', hfront⟩
    · exact .inr (hlead.acted.put_again hact)
  · right
    rw [put_fired, List.length_append]
    omega

section Report

variable {active : Bool} {rest : List (α × Bool)}

theorem OnTrack.report (hs : QuorumSizes m k n) (h : r.OnTrack m k n)
    (hhead : r.channels i = (a, active) :: rest) (receivers : ι → Bool) :
    (r.Alone i → (r.report (quorum m k n) i a active rest receivers).OnTrack m k n) ∧
      (¬ r.Alone i → (r.report (quorum m k n) i a active rest receivers).OffTrack k n) := by
  obtain ⟨hc, hidle | ⟨j, front, hlead, hfront⟩ | hsettled⟩ := h
  · have hc' := hc.report hs hhead receivers
    refine ⟨fun _ => ⟨hc', ?_⟩, fun hnot => absurd (fun j _ => hidle.unflagged j) hnot⟩
    exact (hidle.report hs hc hhead receivers).imp_right .inr
  · have hc' := hc.report hs hhead receivers
    have hfew := hlead.few
    by_cases hi : i = j
    · subst hi
      refine ⟨fun _ => ⟨hc', .inr ?_⟩, fun hnot => absurd hlead.alone hnot⟩
      cases front with
      | nil =>
        -- the flagged report itself, with number `k`
        obtain ⟨b, rest', hchannel, hrest⟩ := hlead.channel
        rw [hhead, List.nil_append] at hchannel
        cases hchannel
        have hskip : true = false → ((quorum m k n).arrive r.coord a).2 = [] := nofun
        right
        refine ⟨hlead.acted.report hskip receivers, ?_, ?_, .inl ⟨fun j => ?_, i,
          ⟨hlead.spent.enough, hlead.spent.count⟩, fun j hj => ⟨(hlead.fresh j hj).state,
            (hlead.fresh j hj).few⟩⟩⟩
        · intro j e he
          by_cases hj : j = i
          · subst hj
            rw [report_channels_self] at he
            exact hrest e he
          · rw [report_channels_of_ne hj] at he
            exact hlead.alone j hj e he
        · rw [report_reported, List.length_append]
          exact Nat.le_of_eq hfront.symm
        · rw [report_clears hskip]
          exact hlead.clears j
      | cons e front =>
        have hpos : i = i → e :: front ≠ [] := fun _ => List.cons_ne_nil _ _
        rw [List.length_cons] at hfront
        refine .inl ⟨i, front, ?_, ?_⟩
        · simpa using hlead.report_short hs hc hhead hpos (by omega) receivers
        · rw [report_reported, List.length_append, List.length_singleton]
          omega
    · -- a report of another node overtakes
      have hpos : i = j → front ≠ [] := fun heq => absurd heq hi
      refine ⟨fun halone => ?_, fun _ => ⟨hc', ?_⟩⟩
      · obtain ⟨b, rest', hchannel, -⟩ := hlead.channel
        have hflag := halone j (Ne.symm hi) (b, true) (by rw [hchannel]; simp)
        cases hflag
      · rcases Nat.lt_or_ge (r.reported.length + 1) k with hshort | hfull
        · have hlead' := hlead.report_short hs hc hhead hpos hshort receivers
          rw [if_neg hi] at hlead'
          refine .inl ⟨j, front, hlead', ?_⟩
          rw [report_reported, List.length_append, List.length_singleton]
          omega
        · exact .inr (hlead.report_full hs hc hhead hpos (by omega) receivers)
  · have hc' := hc.report hs hhead receivers
    exact ⟨fun _ => ⟨hc', .inr (.inr (hsettled.report hs hc hhead receivers))⟩,
      fun hnot => absurd (fun j _ => hsettled.unflagged j) hnot⟩

theorem OffTrack.report (hs : QuorumSizes m k n) (h : r.OffTrack k n)
    (hhead : r.channels i = (a, active) :: rest) (receivers : ι → Bool) :
    (r.report (quorum m k n) i a active rest receivers).OffTrack k n := by
  refine ⟨h.1.report hs hhead receivers, ?_⟩
  rcases h.2 with ⟨j, front, hlead, hfront⟩ | htwice
  · have hfew := hlead.few
    have hpos : i = j → front ≠ [] := by
      rintro - rfl
      rw [List.length_nil] at hfront
      omega
    rcases Nat.lt_or_ge (r.reported.length + 1) k with hshort | hfull
    · refine .inl ⟨j, _, hlead.report_short hs h.1 hhead hpos hshort receivers, ?_⟩
      rw [report_reported, List.length_append, List.length_singleton]
      split
      · rw [List.length_tail]
        omega
      · omega
    · exact .inr (hlead.report_full hs h.1 hhead hpos (by omega) receivers)
  · right
    rw [report_fired, List.length_append]
    omega

end Report

theorem OnTrack.clear (hs : QuorumSizes m k n) (h : r.OnTrack m k n) (hpos : 0 < r.clears i) :
    (r.clear (quorum m k n) i).OnTrack m k n := by
  obtain ⟨hc, hidle | ⟨j, front, hlead, -⟩ | hsettled⟩ := h
  · exact absurd (hidle.clears i) (Nat.ne_of_gt hpos)
  · exact absurd (hlead.clears i) (Nat.ne_of_gt hpos)
  · exact ⟨hc.clear i, .inr (.inr (hsettled.clear hs hc hpos))⟩

theorem OffTrack.clear {M : Machine (Tally α) α (List α)} (h : r.OffTrack k n)
    (hpos : 0 < r.clears i) : (r.clear M i).OffTrack k n := by
  obtain ⟨hc, ⟨j, front, hlead, -⟩ | htwice⟩ := h
  · exact absurd (hlead.clears i) (Nat.ne_of_gt hpos)
  · exact ⟨hc.clear i, .inr htwice⟩

/-! ## The end of a round -/

theorem OnTrack.initial (hs : QuorumSizes m k n) (hcoord : r.coord = ⟨0, []⟩)
    (hnodes : ∀ i, r.nodes i = ⟨0, []⟩) (hchannels : ∀ i, r.channels i = [])
    (hclears : ∀ i, r.clears i = 0) (hputs : r.puts = []) (hreported : r.reported = [])
    (hfired : r.fired = []) : r.OnTrack m k n := by
  refine ⟨⟨fun i => ?_, ?_, fun _ => ?_, fun _ => ?_⟩, .inl ⟨hfired, fun i e he => ?_, ?_,
    fun i => ⟨?_, ?_⟩, hclears⟩⟩
  · simp [objectsAt, hputs, hreported, hchannels]
  · simp [hputs]
  · simp [hcoord, hreported]
  · simp [hcoord, hreported]
  · rw [hchannels i] at he
    cases he
  · rw [hreported]
    exact hs.pos
  · simp [hnodes, hputs, objectsAt]
  · rw [hputs]
    exact hs.pos

theorem OnTrack.actedOnce (hs : QuorumSizes m k n) (h : r.OnTrack m k n)
    (hputs : r.puts.length = n) (hquiet : ∀ i, r.channels i = []) : r.ActedOnce k := by
  obtain ⟨hc, hidle | ⟨j, front, hlead, -⟩ | hsettled⟩ := h
  · have hlength := (hc.placed.perm_of_quiet hquiet).length_eq
    have hfew := hidle.few
    have hless := hs.less
    omega
  · obtain ⟨b, rest, hchannel, -⟩ := hlead.channel
    rw [hquiet j] at hchannel
    simp at hchannel
  · exact hsettled.acted

theorem OffTrack.not_actedOnce (h : r.OffTrack k n) (hquiet : ∀ i, r.channels i = []) :
    ¬ r.ActedOnce k := by
  rintro ⟨objects, hfired, -⟩
  rcases h.2 with ⟨j, front, hlead, -⟩ | htwice
  · obtain ⟨b, rest, hchannel, -⟩ := hlead.channel
    rw [hquiet j] at hchannel
    simp at hchannel
  · rw [hfired, List.length_singleton] at htwice
    omega

end Replicas

end Pheromone.Lib
