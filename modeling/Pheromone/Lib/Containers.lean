import Mathlib.Data.List.Nodup
import Mathlib.Data.List.Perm.Basic
import Mathlib.Data.Finset.Card
import Mathlib.Logic.Function.Basic

/-!
# Hash containers

`std::unordered_map` and `std::unordered_set` at two levels of detail.  A map
that is only looked up and assigned is a `Map`, a function to `Option`.  A
container that is also iterated keeps its entries in a list: the list order
stands for the iteration order, which the standard leaves unspecified, so
results are stated for every order.  Assigning to a key that is present keeps
its place; a new key goes to the end.
-/

namespace Pheromone.Lib

/-! ## Maps that are only looked up -/

abbrev Map (κ ν : Type) := κ → Option ν

namespace Map

variable {κ ν : Type} [DecidableEq κ]
variable {k k' : κ} {v v' : ν}

def empty : Map κ ν := fun _ => none

def set (m : Map κ ν) (k : κ) (v : ν) : Map κ ν := Function.update m k (some v)

def erase (m : Map κ ν) (k : κ) : Map κ ν := Function.update m k none

/-- The value `m[k]` reads, which is `d` for a new entry. -/
def getD (m : Map κ ν) (k : κ) (d : ν) : ν := (m k).getD d

/-- The map after `m[k]` was evaluated: a missing key gets the value `d`. -/
def touch (m : Map κ ν) (k : κ) (d : ν) : Map κ ν := m.set k (m.getD k d)

@[simp] theorem set_self (m : Map κ ν) (k : κ) (v : ν) : m.set k v k = some v := by
  simp [set]

@[simp] theorem set_of_ne (m : Map κ ν) (v : ν) (h : k' ≠ k) :
    m.set k v k' = m k' := by
  simp [set, h]

@[simp] theorem erase_self (m : Map κ ν) (k : κ) : m.erase k k = none := by
  simp [erase]

@[simp] theorem erase_of_ne (m : Map κ ν) (h : k' ≠ k) :
    m.erase k k' = m k' := by
  simp [erase, h]

theorem set_apply (m : Map κ ν) (k k' : κ) (v : ν) :
    m.set k v k' = if k' = k then some v else m k' := by
  by_cases h : k' = k
  · subst h
    simp
  · simp [h]

theorem foldl_set_apply (keys : List κ) (v : ν) (m : Map κ ν) (k : κ) :
    keys.foldl (fun m key => m.set key v) m k = if k ∈ keys then some v else m k := by
  induction keys generalizing m with
  | nil => simp
  | cons key keys ih =>
    rw [List.foldl_cons, ih, set_apply]
    by_cases hk : k ∈ keys <;> simp [hk]

theorem set_eq_or (m : Map κ ν) (k k' : κ) (v : ν) :
    m.set k v k' = (if k = k' then some v else none).or (m k') := by
  rw [set_apply]
  by_cases h : k' = k
  · rw [if_pos h, if_pos h.symm, Option.some_or]
  · rw [if_neg h, if_neg (Ne.symm h), Option.none_or]

theorem erase_apply (m : Map κ ν) (k k' : κ) :
    m.erase k k' = if k' = k then none else m k' := by
  by_cases h : k' = k
  · subst h
    simp
  · rw [erase_of_ne _ h, if_neg h]

theorem set_eq_self_iff (m : Map κ ν) (k : κ) (v : ν) : m.set k v = m ↔ m k = some v := by
  constructor
  · intro h
    rw [← h, set_apply, if_pos rfl]
  · intro h
    funext k'
    rw [set_apply]
    split
    next heq => rw [heq, h]
    · rfl

theorem getD_set (m : Map κ ν) (k k' : κ) (v d : ν) :
    (m.set k v).getD k' d = if k' = k then v else m.getD k' d := by
  unfold getD
  rw [set_apply]
  split <;> rfl

theorem erase_eq_self {m : Map κ ν} (h : m k = none) : m.erase k = m := by
  unfold erase
  rw [← h]
  exact Function.update_eq_self k m

theorem getD_erase (m : Map κ ν) (k k' : κ) (d : ν) :
    (m.erase k).getD k' d = if k' = k then d else m.getD k' d := by
  unfold getD
  by_cases h : k' = k
  · subst h
    simp
  · simp [h]

omit [DecidableEq κ] in
theorem getD_of_some {m : Map κ ν} (d : ν) (h : m k = some v) :
    m.getD k d = v := by
  simp [getD, h]

theorem touch_of_some {m : Map κ ν} (d : ν) (h : m k = some v) :
    m.touch k d = m := by
  funext k'
  by_cases hk : k' = k
  · subst hk
    simp [touch, getD_of_some d h, h]
  · simp [touch, hk]

theorem touch_of_ne (m : Map κ ν) (d : ν) (h : k' ≠ k) :
    m.touch k d k' = m k' := by
  simp [touch, h]

@[simp] theorem touch_self (m : Map κ ν) (k : κ) (d : ν) :
    m.touch k d k = some (m.getD k d) := by
  simp [touch]

@[simp] theorem getD_touch (m : Map κ ν) (k k' : κ) (d : ν) :
    (m.touch k d).getD k' d = m.getD k' d := by
  by_cases h : k' = k
  · subst h
    simp [getD, touch]
  · simp [getD, touch, h]

omit [DecidableEq κ] in
theorem mapM_of_forall {m : Map κ ν} (d : ν) {ks : List κ} (h : ∀ k ∈ ks, m k ≠ none) :
    ks.mapM (fun k => m k) = some (ks.map fun k => m.getD k d) := by
  induction ks with
  | nil => rfl
  | cons k ks ih =>
    obtain ⟨v, hv⟩ := Option.ne_none_iff_exists'.mp (h k List.mem_cons_self)
    rw [List.mapM_cons, ih fun k' hk' => h k' (List.mem_cons_of_mem k hk'), List.map_cons,
      getD_of_some d hv, hv]
    rfl

def All (Q : ν → Prop) (m : Map κ ν) : Prop := ∀ k v, m k = some v → Q v

omit [DecidableEq κ] in
theorem all_empty (Q : ν → Prop) : (empty : Map κ ν).All Q := fun _ _ h => by cases h

theorem All.set {Q : ν → Prop} {m : Map κ ν} (h : m.All Q) (k : κ) (hv : Q v) :
    (m.set k v).All Q := by
  intro k' v' heq
  rw [set_apply] at heq
  split at heq
  · cases heq
    exact hv
  · exact h k' v' heq

theorem All.erase {Q : ν → Prop} {m : Map κ ν} (h : m.All Q) (k : κ) : (m.erase k).All Q := by
  intro k' v' heq
  by_cases hk : k' = k
  · rw [hk, erase_self] at heq
    cases heq
  · rw [erase_of_ne _ hk] at heq
    exact h k' v' heq

end Map

/-! ## Sets with an iteration order -/

structure USet (α : Type) where
  elems : List α
  nodup : elems.Nodup

namespace USet

variable {α : Type} [DecidableEq α]
variable {a : α}

instance : DecidableEq (USet α) := fun s t =>
  decidable_of_iff (s.elems = t.elems) (by cases s; cases t; simp)

instance : Membership α (USet α) := ⟨fun s a => a ∈ s.elems⟩

instance (a : α) (s : USet α) : Decidable (a ∈ s) :=
  inferInstanceAs (Decidable (a ∈ s.elems))

def empty : USet α := ⟨[], List.nodup_nil⟩

def insert (s : USet α) (a : α) : USet α :=
  if h : a ∈ s.elems then s
  else ⟨s.elems ++ [a], List.nodup_append.mpr
    ⟨s.nodup, List.nodup_singleton a, by
      intro b hb c hc
      rw [List.mem_singleton.mp hc]
      exact fun hba => h (hba ▸ hb)⟩⟩

def ofList (l : List α) : USet α := l.foldl insert empty

def size (s : USet α) : Nat := s.elems.length

omit [DecidableEq α] in
@[simp] theorem mem_elems {s : USet α} : a ∈ s.elems ↔ a ∈ s := Iff.rfl

omit [DecidableEq α] in
@[simp] theorem not_mem_empty (a : α) : a ∉ (empty : USet α) := List.not_mem_nil

@[simp] theorem mem_insert {s : USet α} {b : α} : b ∈ s.insert a ↔ b = a ∨ b ∈ s := by
  unfold insert
  split
  · rename_i h
    constructor
    · exact Or.inr
    · rintro (rfl | hb)
      · exact h
      · exact hb
  · change b ∈ s.elems ++ [a] ↔ _
    simp [or_comm]

@[simp] theorem mem_ofList {l : List α} : a ∈ ofList l ↔ a ∈ l := by
  have general : ∀ s : USet α, a ∈ l.foldl insert s ↔ a ∈ l ∨ a ∈ s := by
    induction l with
    | nil => simp
    | cons b l ih =>
      intro s
      rw [List.foldl_cons, ih, mem_insert, List.mem_cons]
      tauto
  simpa [ofList] using general empty

omit [DecidableEq α] in
theorem ext_elems {s t : USet α} (h : s.elems = t.elems) : s = t := by
  cases s
  cases t
  simpa using h

theorem foldl_insert_elems (l : List α) (s : USet α) (h : (s.elems ++ l).Nodup) :
    (l.foldl insert s).elems = s.elems ++ l := by
  induction l generalizing s with
  | nil => simp
  | cons a l ih =>
    have hnot : a ∉ s.elems := by
      intro ha
      exact (List.nodup_append.mp h).2.2 a ha a List.mem_cons_self rfl
    have hinsert : (s.insert a).elems = s.elems ++ [a] := by
      unfold insert
      rw [dif_neg hnot]
    have hnodup : ((s.insert a).elems ++ l).Nodup := by
      rw [hinsert, List.append_assoc]
      exact h
    rw [List.foldl_cons, ih (s.insert a) hnodup, hinsert, List.append_assoc,
      List.singleton_append]

@[simp] theorem ofList_elems (s : USet α) : ofList s.elems = s := by
  apply ext_elems
  rw [ofList, foldl_insert_elems s.elems empty (by simpa [empty] using s.nodup)]
  rfl

theorem card_eq_size_iff {s : USet α} {part : Finset α} (h : part ⊆ s.elems.toFinset) :
    part.card = s.size ↔ part = s.elems.toFinset := by
  have hsize : s.elems.toFinset.card = s.size := List.toFinset_card_of_nodup s.nodup
  rw [← hsize]
  exact ⟨fun hcard => Finset.eq_of_subset_of_card_le h hcard.ge, fun heq => by rw [heq]⟩

end USet

/-! ## Maps with an iteration order -/

structure UMap (κ ν : Type) where
  entries : List (κ × ν)
  nodup : (entries.map Prod.fst).Nodup

namespace UMap

variable {κ ν : Type} [DecidableEq κ]
variable {k k' : κ} {v v' : ν} {m : UMap κ ν}

def empty : UMap κ ν := ⟨[], List.nodup_nil⟩

def keys (m : UMap κ ν) : List κ := m.entries.map Prod.fst

def find? (m : UMap κ ν) (k : κ) : Option ν :=
  (m.entries.find? fun e => e.1 = k).map Prod.snd

/-- Replace the value of every entry with key `k`. -/
def assign (l : List (κ × ν)) (k : κ) (v : ν) : List (κ × ν) :=
  l.map fun e => if e.1 = k then (e.1, v) else e

theorem assign_keys (l : List (κ × ν)) (k : κ) (v : ν) :
    (assign l k v).map Prod.fst = l.map Prod.fst := by
  unfold assign
  rw [List.map_map]
  apply List.map_congr_left
  intro e _
  simp only [Function.comp_apply]
  split <;> rfl

def set (m : UMap κ ν) (k : κ) (v : ν) : UMap κ ν :=
  if h : k ∈ m.entries.map Prod.fst then
    ⟨assign m.entries k v, by rw [assign_keys]; exact m.nodup⟩
  else
    ⟨m.entries ++ [(k, v)], by
      rw [List.map_append, List.nodup_append]
      refine ⟨m.nodup, List.nodup_singleton _, ?_⟩
      intro a ha b hb hab
      rw [List.map_cons, List.map_nil, List.mem_singleton] at hb
      rw [hab, hb] at ha
      exact h ha⟩

def getD (m : UMap κ ν) (k : κ) (d : ν) : ν := (m.find? k).getD d

/-- The map after `m[k]` was evaluated. -/
def touch (m : UMap κ ν) (k : κ) (d : ν) : UMap κ ν := m.set k (m.getD k d)

theorem find?_eq_some_iff :
    m.find? k = some v ↔ (k, v) ∈ m.entries := by
  obtain ⟨entries, nodup⟩ := m
  simp only [find?]
  induction entries with
  | nil => simp
  | cons e es ih =>
    rw [List.map_cons, List.nodup_cons] at nodup
    by_cases he : e.1 = k
    · have hnot : ∀ w, (k, w) ∉ es := by
        intro w hw
        exact nodup.1 (he ▸ List.mem_map_of_mem hw)
      obtain ⟨k', v'⟩ := e
      simp only at he
      subst he
      simp [hnot, eq_comm]
    · obtain ⟨k', v'⟩ := e
      simp only at he
      have hk : k ≠ k' := Ne.symm he
      simpa [he, hk] using ih nodup.2

theorem find?_eq_none_iff : m.find? k = none ↔ k ∉ m.keys := by
  simp only [find?, keys, Option.map_eq_none_iff, List.find?_eq_none, List.mem_map]
  constructor
  · rintro h ⟨e, he, rfl⟩
    exact h e he (by simp)
  · intro h e he
    simpa using fun hk => h ⟨e, he, hk⟩

theorem mem_keys_iff : k ∈ m.keys ↔ ∃ v, m.find? k = some v := by
  rw [← not_iff_not, ← find?_eq_none_iff, Option.eq_none_iff_forall_ne_some]
  push Not
  rfl

private theorem mem_assign {l : List (κ × ν)} :
    (k', v') ∈ assign l k v ↔
      (k' ≠ k ∧ (k', v') ∈ l) ∨ (k' = k ∧ v' = v ∧ k ∈ l.map Prod.fst) := by
  simp only [assign, List.mem_map, Prod.exists]
  constructor
  · rintro ⟨a, b, hab, heq⟩
    split at heq
    · rename_i hak
      subst hak
      cases heq
      exact Or.inr ⟨rfl, rfl, _, b, hab, rfl⟩
    · rename_i hak
      cases heq
      exact Or.inl ⟨hak, hab⟩
  · rintro (⟨hk, hmem⟩ | ⟨rfl, rfl, a, b, hab, rfl⟩)
    · exact ⟨k', v', hmem, by simp [hk]⟩
    · exact ⟨a, b, hab, by simp⟩

theorem find?_set (m : UMap κ ν) (k k' : κ) (v : ν) :
    (m.set k v).find? k' = if k' = k then some v else m.find? k' := by
  ext w
  rw [find?_eq_some_iff]
  by_cases hmem : k ∈ m.entries.map Prod.fst
  · simp only [set, dif_pos hmem, mem_assign]
    by_cases hk : k' = k
    · subst hk
      simp only [ne_eq, not_true_eq_false, false_and, true_and, false_or, if_true,
        Option.some.injEq]
      exact ⟨fun h => h.1.symm, fun h => ⟨h.symm, hmem⟩⟩
    · simp [hk, find?_eq_some_iff]
  · simp only [set, dif_neg hmem, List.mem_append, List.mem_singleton, Prod.mk.injEq]
    by_cases hk : k' = k
    · subst hk
      have hnot : (k', w) ∉ m.entries := fun h => hmem (List.mem_map_of_mem h)
      simp [hnot, eq_comm]
    · simp [hk, find?_eq_some_iff]

@[simp] theorem find?_set_self (m : UMap κ ν) (k : κ) (v : ν) :
    (m.set k v).find? k = some v := by
  simp [find?_set]

theorem find?_set_of_ne (m : UMap κ ν) (v : ν) (h : k' ≠ k) :
    (m.set k v).find? k' = m.find? k' := by
  simp [find?_set, h]

theorem mem_entries_set :
    (k', v') ∈ (m.set k v).entries ↔ if k' = k then v' = v else (k', v') ∈ m.entries := by
  rw [← find?_eq_some_iff, find?_set]
  split
  · rw [Option.some.injEq, eq_comm]
  · exact find?_eq_some_iff

theorem entries_set_ne_nil (m : UMap κ ν) (k : κ) (v : ν) : (m.set k v).entries ≠ [] :=
  List.ne_nil_of_mem ((@mem_entries_set _ _ _ k k v v m).mpr (by simp))

theorem keys_set_of_mem (v : ν) (h : k ∈ m.keys) :
    (m.set k v).keys = m.keys := by
  unfold keys at h ⊢
  simp only [set, dif_pos h, assign_keys]

theorem set_entries_of_not_mem (v : ν) (h : k ∉ m.keys) :
    (m.set k v).entries = m.entries ++ [(k, v)] := by
  unfold keys at h
  simp only [set, dif_neg h]

theorem getD_set (m : UMap κ ν) (k k' : κ) (v d : ν) :
    (m.set k v).getD k' d = if k' = k then v else m.getD k' d := by
  unfold getD
  rw [find?_set]
  split <;> rfl

@[simp] theorem getD_touch (m : UMap κ ν) (k k' : κ) (d : ν) :
    (m.touch k d).getD k' d = m.getD k' d := by
  unfold touch
  rw [getD_set]
  split
  next h => rw [h]
  · rfl

theorem getD_of_mem (d : ν) (h : (k, v) ∈ m.entries) :
    m.getD k d = v := by
  unfold getD
  rw [find?_eq_some_iff.mpr h]
  rfl

theorem find?_eq_of_perm {m' : UMap κ ν} (h : m'.entries.Perm m.entries) (k : κ) :
    m'.find? k = m.find? k := by
  ext v
  rw [find?_eq_some_iff, find?_eq_some_iff, h.mem_iff]

/-! ### The weight of a map -/

/-- The sum of the weights of the values. -/
def weight (f : ν → Nat) (m : UMap κ ν) : Nat := m.entries.foldr (fun e n => f e.2 + n) 0

private theorem assign_of_not_mem {l : List (κ × ν)} (v : ν) (h : k ∉ l.map Prod.fst) :
    assign l k v = l := by
  unfold assign
  conv_rhs => rw [← List.map_id l]
  apply List.map_congr_left
  intro e he
  have hne : e.1 ≠ k := by
    rintro rfl
    exact h (List.mem_map_of_mem he)
  rw [if_neg hne]
  rfl

private theorem sum_assign (f : ν → Nat) {l : List (κ × ν)} (v : ν)
    (hnodup : (l.map Prod.fst).Nodup) (h : (k, v') ∈ l) :
    (assign l k v).foldr (fun e n => f e.2 + n) 0 + f v' =
      l.foldr (fun e n => f e.2 + n) 0 + f v := by
  induction l with
  | nil => cases h
  | cons e l ih =>
    rw [List.map_cons, List.nodup_cons] at hnodup
    have hcons : assign (e :: l) k v = (if e.1 = k then (e.1, v) else e) :: assign l k v := rfl
    rw [hcons]
    rcases List.mem_cons.mp h with rfl | h
    · rw [assign_of_not_mem v hnodup.1, if_pos rfl]
      simp only [List.foldr_cons]
      omega
    · have hne : e.1 ≠ k := fun hk => hnodup.1 (hk ▸ List.mem_map_of_mem h)
      rw [if_neg hne]
      have hrest := ih hnodup.2 h
      simp only [List.foldr_cons]
      omega

theorem weight_set (f : ν → Nat) (m : UMap κ ν) (k : κ) (v : ν) :
    (m.set k v).weight f + ((m.find? k).map f).getD 0 = m.weight f + f v := by
  unfold weight
  cases hfind : m.find? k with
  | none =>
    have hend : ∀ l : List (κ × ν), l.foldr (fun e n => f e.2 + n) (f v) =
        l.foldr (fun e n => f e.2 + n) 0 + f v := by
      intro l
      induction l with
      | nil => simp
      | cons e l ih => simp only [List.foldr_cons, ih, Nat.add_assoc]
    rw [set_entries_of_not_mem v (find?_eq_none_iff.mp hfind), List.foldr_append]
    exact hend m.entries
  | some v' =>
    have hmem : k ∈ m.entries.map Prod.fst := mem_keys_iff.mpr ⟨v', hfind⟩
    have hset : (m.set k v).entries = assign m.entries k v := by
      unfold set
      rw [dif_pos hmem]
    rw [hset]
    exact sum_assign f v m.nodup (find?_eq_some_iff.mp hfind)

omit [DecidableEq κ] in
theorem weight_eq_zero_iff (f : ν → Nat) (m : UMap κ ν) :
    m.weight f = 0 ↔ ∀ e ∈ m.entries, f e.2 = 0 := by
  unfold weight
  induction m.entries with
  | nil => simp
  | cons e l ih => simp only [List.foldr_cons, Nat.add_eq_zero_iff, ih, List.forall_mem_cons]

omit [DecidableEq κ] in
theorem weight_countP (p : α → Bool) (g : ν → List α) (m : UMap κ ν) :
    m.weight (fun v => (g v).countP p) = (m.entries.flatMap fun e => g e.2).countP p := by
  unfold weight
  induction m.entries with
  | nil => rfl
  | cons e l ih => rw [List.foldr_cons, ih, List.flatMap_cons, List.countP_append]

/-! ### Taking entries away -/

def filter (m : UMap κ ν) (p : κ × ν → Bool) : UMap κ ν :=
  ⟨m.entries.filter p, m.nodup.sublist (List.filter_sublist.map _)⟩

/-- `erase` of a key. -/
def erase (m : UMap κ ν) (k : κ) : UMap κ ν :=
  ⟨m.entries.eraseP fun e => e.1 = k, m.nodup.sublist (List.eraseP_sublist.map _)⟩

omit [DecidableEq κ] in
theorem weight_filter (f : ν → Nat) (m : UMap κ ν) (p : κ × ν → Bool) :
    (m.filter fun e => !p e).weight f + (m.filter p).weight f = m.weight f := by
  simp only [weight, filter]
  induction m.entries with
  | nil => rfl
  | cons e l ih =>
    rw [List.foldr_cons, ← ih]
    cases hp : p e <;> simp [hp] <;> omega

theorem weight_erase (f : ν → Nat) (h : m.find? k = some v) :
    (m.erase k).weight f + f v = m.weight f := by
  obtain ⟨e, l₁, l₂, -, hk, heq, herase⟩ := List.exists_of_eraseP
    (p := fun e : κ × ν => e.1 = k) (find?_eq_some_iff.mp h) (decide_eq_true rfl)
  have hv : e.2 = v := by
    have hfind : m.find? k = some e.2 := by
      rw [find?_eq_some_iff, heq, ← of_decide_eq_true hk]
      exact List.mem_append_right _ List.mem_cons_self
    exact Option.some.inj (hfind.symm.trans h)
  have hsum (l : List (κ × ν)) :
      l.foldr (fun e n => f e.2 + n) 0 = (l.map fun e => f e.2).sum := by
    rw [List.sum_eq_foldr, List.foldr_map]
  simp only [weight, erase]
  rw [herase, heq, ← hv, hsum, hsum]
  simp only [List.map_append, List.map_cons, List.sum_append, List.sum_cons]
  omega

end UMap

end Pheromone.Lib
