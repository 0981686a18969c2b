import Pheromone.Coordinator.FuncCall
import Mathlib.Algebra.BigOperators.Group.List.Basic
import Mathlib.Data.Nat.Find

/-!
# The round-robin load loop

The loads that `func_call_handler` computes have a closed form.  After some
number of placed requests the loop is in round `r` at position `p`: every node
before `p` has been offered `r + 1` requests, every other node `r`, and a node
takes what it is offered up to its capacity.  The loop keeps this form, so it
never searches in vain while a slot is left.
-/

namespace Pheromone.Coordinator

open Lib Common

variable {avail nodes : List (Address × Int)} {fuel load : Nat}

variable {i j p r idx : Nat} {node : Address × Int}

/-- The load of node `j` with capacity `cap` in round `r` at position `p`. -/
def roundLoad (r p j : Nat) (cap : Int) : Nat :=
  min cap.toNat (if j < p then r + 1 else r)

/-- The state of the loop in round `r` at position `p`. -/
def LoadState.ofRound (nodes : List (Address × Int)) (r p : Nat) : LoadState where
  avail := nodes.mapIdx fun j node => (node.1, node.2 - roundLoad r p j node.2)
  loads := nodes.mapIdx fun j node => roundLoad r p j node.2
  idx := p

def FreeAt (nodes : List (Address × Int)) (r p j : Nat) : Prop :=
  ∃ node, nodes[j]? = some node ∧ (roundLoad r p j node.2 : Int) < node.2

/-! ## The search for a free node -/

theorem nextFree_of_pos (hnode : avail[idx]? = some node) (hpos : 0 < node.2) (fuel : Nat) :
    nextFree avail (fuel + 1) idx = some idx := by
  unfold nextFree
  rw [hnode]
  simp only
  rw [if_neg (by omega)]

theorem nextFree_skip (avail : List (Address × Int)) (d : Nat) :
    ∀ (fuel idx : Nat), idx + d ≤ avail.length →
      (∀ j, idx ≤ j → j < idx + d → ∃ node, avail[j]? = some node ∧ node.2 ≤ 0) → 0 < d →
      nextFree avail (fuel + d) idx = nextFree avail fuel ((idx + d) % avail.length) := by
  induction d with
  | zero =>
    intro fuel idx _ _ hpos
    omega
  | succ d ih =>
    intro fuel idx hle hused _
    obtain ⟨node, hnode, hneg⟩ := hused idx (by omega) (by omega)
    have hstep : nextFree avail (fuel + (d + 1)) idx =
        nextFree avail (fuel + d) ((idx + 1) % avail.length) := by
      rw [← Nat.add_assoc]
      rw [nextFree, hnode]
      simp only
      rw [if_pos hneg]
    rw [hstep]
    by_cases hd : d = 0
    · subst hd
      rfl
    · have hlt : idx + 1 < avail.length := by omega
      rw [Nat.mod_eq_of_lt hlt, ih fuel (idx + 1) (by omega)
        (fun j hj hj' => hused j (by omega) (by omega)) (by omega)]
      congr 2
      omega

theorem nextFree_ahead (node : Address × Int) (hidx : idx ≤ i) (hfuel : i - idx < fuel)
    (hnode : avail[i]? = some node) (hpos : 0 < node.2)
    (hused : ∀ j, idx ≤ j → j < i → ∃ node, avail[j]? = some node ∧ node.2 ≤ 0) :
    nextFree avail fuel idx = some i := by
  have hi : i < avail.length := (List.getElem?_eq_some_iff.mp hnode).1
  obtain ⟨rest, hrest⟩ : ∃ rest, fuel = rest + 1 + (i - idx) :=
    ⟨fuel - 1 - (i - idx), by omega⟩
  by_cases hd : i - idx = 0
  · have heq : idx = i := by omega
    subst heq
    rw [hrest, hd]
    exact nextFree_of_pos hnode hpos rest
  · rw [hrest, nextFree_skip avail (i - idx) (rest + 1) idx (by omega)
      (fun j hj hj' => hused j hj (by omega)) (by omega)]
    rw [show idx + (i - idx) = i by omega, Nat.mod_eq_of_lt hi]
    exact nextFree_of_pos hnode hpos rest

/-! ## One placement -/

@[simp] theorem ofRound_avail_length (nodes : List (Address × Int)) (r p : Nat) :
    (LoadState.ofRound nodes r p).avail.length = nodes.length := by
  simp [LoadState.ofRound]

@[simp] theorem ofRound_idx (nodes : List (Address × Int)) (r p : Nat) :
    (LoadState.ofRound nodes r p).idx = p := rfl

theorem ofRound_avail_getElem? (nodes : List (Address × Int)) (r p j : Nat) :
    (LoadState.ofRound nodes r p).avail[j]? =
      nodes[j]?.map fun node => (node.1, node.2 - (roundLoad r p j node.2 : Int)) := by
  simp [LoadState.ofRound]

theorem ofRound_loads_getElem? (nodes : List (Address × Int)) (r p j : Nat) :
    (LoadState.ofRound nodes r p).loads[j]? =
      nodes[j]?.map fun node => roundLoad r p j node.2 := by
  simp [LoadState.ofRound]

theorem ofRound_full (nodes : List (Address × Int)) (r : Nat) :
    { LoadState.ofRound nodes r nodes.length with idx := 0 } =
      LoadState.ofRound nodes (r + 1) 0 := by
  have hload : ∀ j, j < nodes.length → ∀ cap,
      roundLoad r nodes.length j cap = roundLoad (r + 1) 0 j cap := by
    intro j hj cap
    simp [roundLoad, hj]
  simp only [LoadState.ofRound, LoadState.mk.injEq, and_true]
  constructor
  · apply List.ext_getElem
    · simp
    · intro j hj _
      simp only [List.length_mapIdx] at hj
      simp [hload j hj]
  · apply List.ext_getElem
    · simp
    · intro j hj _
      simp only [List.length_mapIdx] at hj
      simp [hload j hj]

theorem modify_ofRound (nodes : List (Address × Int)) (r p r' p' i : Nat)
    (hother : ∀ j node, nodes[j]? = some node → j ≠ i →
      roundLoad r' p' j node.2 = roundLoad r p j node.2)
    (hat : ∀ node, nodes[i]? = some node →
      roundLoad r' p' i node.2 = roundLoad r p i node.2 + 1) :
    (LoadState.ofRound nodes r p).avail.modify i (fun node => (node.1, node.2 - 1)) =
        (LoadState.ofRound nodes r' p').avail ∧
      (LoadState.ofRound nodes r p).loads.modify i (· + 1) =
        (LoadState.ofRound nodes r' p').loads := by
  constructor
  · apply List.ext_getElem?
    intro j
    rw [List.getElem?_modify, ofRound_avail_getElem?, ofRound_avail_getElem?]
    cases hnode : nodes[j]? with
    | none => simp
    | some node =>
      by_cases hj : i = j
      · subst hj
        simp only [Option.map_some, if_true, Option.map_eq_map, hat node hnode, Int.sub_sub]
        push_cast
        rfl
      · simp [hj, hother j node hnode (Ne.symm hj)]
  · apply List.ext_getElem?
    intro j
    rw [List.getElem?_modify, ofRound_loads_getElem?, ofRound_loads_getElem?]
    cases hnode : nodes[j]? with
    | none => simp
    | some node =>
      by_cases hj : i = j
      · subst hj
        simp [hat node hnode]
      · simp [hj, hother j node hnode (Ne.symm hj)]

theorem place_result (nodes : List (Address × Int)) (r i : Nat) (hi : i < nodes.length) :
    ∃ r' p', p' < nodes.length ∧
      { avail := (LoadState.ofRound nodes r (i + 1)).avail
        loads := (LoadState.ofRound nodes r (i + 1)).loads
        idx := (i + 1) % nodes.length } = LoadState.ofRound nodes r' p' := by
  by_cases hlast : i + 1 = nodes.length
  · refine ⟨r + 1, 0, by omega, ?_⟩
    rw [← ofRound_full, hlast, Nat.mod_self]
  · refine ⟨r, i + 1, by omega, ?_⟩
    rw [Nat.mod_eq_of_lt (by omega)]
    rfl

theorem used_of_not_free (hj : j < nodes.length) (h : ¬ FreeAt nodes r p j) :
    ∃ node, (LoadState.ofRound nodes r p).avail[j]? = some node ∧ node.2 ≤ 0 := by
  refine ⟨(nodes[j].1, nodes[j].2 - roundLoad r p j nodes[j].2), ?_, ?_⟩
  · rw [ofRound_avail_getElem?, List.getElem?_eq_getElem hj]
    rfl
  · simp only [FreeAt, not_exists, not_and, not_lt] at h
    have hle := h nodes[j] (List.getElem?_eq_getElem hj)
    simp only
    omega

theorem cap_of_not_free (hnode : nodes[j]? = some node)
    (h : ¬ FreeAt nodes r p j) : node.2.toNat ≤ if j < p then r + 1 else r := by
  simp only [FreeAt, not_exists, not_and, not_lt, roundLoad] at h
  have hle := h node hnode
  omega

theorem nextFree_ofRound (hidx : idx ≤ i) (hfuel : i - idx < fuel) (hfree : FreeAt nodes r p i)
    (hnot : ∀ j, idx ≤ j → j < i → ¬ FreeAt nodes r p j) :
    nextFree (LoadState.ofRound nodes r p).avail fuel idx = some i := by
  obtain ⟨node, hnode, hlt⟩ := hfree
  have hi : i < nodes.length := (List.getElem?_eq_some_iff.mp hnode).1
  refine nextFree_ahead (node.1, node.2 - roundLoad r p i node.2) hidx hfuel ?_
    (by simp only; omega) ?_
  · rw [ofRound_avail_getElem?, hnode]
    rfl
  · exact fun j hj hji => used_of_not_free (by omega) (hnot j hj hji)

/-- The next request goes to the node `i`, and the loop stays in the closed form. -/
def PlacesAt (nodes : List (Address × Int)) (r p i : Nat) : Prop :=
  ∃ r' p', p' < nodes.length ∧
    (LoadState.ofRound nodes r p).place = some (LoadState.ofRound nodes r' p') ∧
    (LoadState.ofRound nodes r p).loads.modify i (· + 1) =
      (LoadState.ofRound nodes r' p').loads

theorem place_of_nextFree {r p r₁ i : Nat} (hi : i < nodes.length)
    (hsearch : nextFree (LoadState.ofRound nodes r p).avail nodes.length p = some i)
    (hother : ∀ j node, nodes[j]? = some node → j ≠ i →
      roundLoad r₁ (i + 1) j node.2 = roundLoad r p j node.2)
    (hat : ∀ node, nodes[i]? = some node →
      roundLoad r₁ (i + 1) i node.2 = roundLoad r p i node.2 + 1) :
    PlacesAt nodes r p i := by
  obtain ⟨havail, hloads⟩ := modify_ofRound nodes r p r₁ (i + 1) i hother hat
  obtain ⟨r', p', hp', hres⟩ := place_result nodes r₁ i hi
  refine ⟨r', p', hp', ?_, ?_⟩
  · unfold LoadState.place
    rw [ofRound_avail_length, ofRound_idx, hsearch, Option.map_some, havail, hloads, hres]
  · rw [hloads, ← hres]

theorem place_ahead (hpi : p ≤ i) (hfree : FreeAt nodes r p i)
    (hnot : ∀ j, p ≤ j → j < i → ¬ FreeAt nodes r p j) :
    PlacesAt nodes r p i := by
  obtain ⟨node, hnode, hlt⟩ := id hfree
  have hi : i < nodes.length := (List.getElem?_eq_some_iff.mp hnode).1
  apply @place_of_nextFree _ _ _ r _ hi (nextFree_ofRound hpi (by omega) hfree hnot)
  · intro j node' hnode' hj
    by_cases hjp : j < p
    · have hji : j < i + 1 := by omega
      simp [roundLoad, hjp, hji]
    · by_cases hji : j < i
      · have hcap := cap_of_not_free hnode' (hnot j (by omega) hji)
        rw [if_neg hjp] at hcap
        simp only [roundLoad, if_neg hjp, if_pos (show j < i + 1 by omega)]
        omega
      · have hji' : ¬ j < i + 1 := by omega
        simp [roundLoad, hjp, hji']
  · intro node' hnode'
    rw [hnode] at hnode'
    cases hnode'
    simp only [roundLoad, if_neg (show ¬ i < p by omega)] at hlt ⊢
    rw [if_pos (show i < i + 1 by omega)]
    omega

theorem place_wrapped (hp : p < nodes.length) (hip : i < p)
    (hnone : ∀ j, p ≤ j → ¬ FreeAt nodes r p j) (hfree : FreeAt nodes r p i)
    (hmin : ∀ j, j < i → ¬ FreeAt nodes r p j) :
    PlacesAt nodes r p i := by
  have hsearch : nextFree (LoadState.ofRound nodes r p).avail nodes.length p = some i := by
    have hwrap := nextFree_skip (LoadState.ofRound nodes r p).avail
      (nodes.length - p) p p (by rw [ofRound_avail_length]; omega)
      (fun j hj hj' => used_of_not_free (by omega) (hnone j hj)) (by omega)
    rw [show p + (nodes.length - p) = nodes.length by omega, ofRound_avail_length,
      Nat.mod_self] at hwrap
    rw [hwrap]
    exact nextFree_ofRound (Nat.zero_le i) (by omega) hfree (fun j _ hji => hmin j hji)
  apply @place_of_nextFree _ _ _ (r + 1) _ (by omega) hsearch
  · intro j node' hnode' hj
    by_cases hji : j < i
    · have hcap := cap_of_not_free hnode' (hmin j hji)
      rw [if_pos (show j < p by omega)] at hcap
      simp only [roundLoad, if_pos (show j < p by omega), if_pos (show j < i + 1 by omega)]
      omega
    · by_cases hjp : j < p
      · simp [roundLoad, hjp, show ¬ j < i + 1 by omega]
      · have hcap := cap_of_not_free hnode' (hnone j (by omega))
        rw [if_neg hjp] at hcap
        simp only [roundLoad, if_neg hjp, if_neg (show ¬ j < i + 1 by omega)]
        omega
  · intro node' hnode'
    obtain ⟨node, hnode, hlt⟩ := hfree
    rw [hnode] at hnode'
    cases hnode'
    simp only [roundLoad, if_pos hip] at hlt ⊢
    rw [if_pos (show i < i + 1 by omega)]
    omega

theorem place_ofRound (hp : p < nodes.length) (hfree : ∃ j, FreeAt nodes r p j) :
    ∃ i, i < nodes.length ∧ PlacesAt nodes r p i := by
  classical
  have hlength : ∀ {i}, FreeAt nodes r p i → i < nodes.length := by
    rintro i ⟨node, hnode, -⟩
    exact (List.getElem?_eq_some_iff.mp hnode).1
  -- either a node from `p` on is free, or the search wraps around to one before `p`
  by_cases hahead : ∃ j, p ≤ j ∧ FreeAt nodes r p j
  · obtain ⟨hpi, hspec⟩ := Nat.find_spec hahead
    exact ⟨_, hlength hspec, place_ahead hpi hspec
      fun j hj hji hf => Nat.find_min hahead hji ⟨hj, hf⟩⟩
  · have hnone : ∀ j, p ≤ j → ¬ FreeAt nodes r p j := fun j hj hf => hahead ⟨j, hj, hf⟩
    have hspec := Nat.find_spec hfree
    have hip : Nat.find hfree < p := by
      by_contra hge
      exact hnone _ (by omega) hspec
    exact ⟨_, hlength hspec, place_wrapped hp hip hnone hspec
      fun j hji => Nat.find_min hfree hji⟩

/-! ## The whole loop -/

theorem sum_modify_succ {loads : List Nat} (hi : i < loads.length) :
    (loads.modify i (· + 1)).sum = loads.sum + 1 := by
  induction loads generalizing i with
  | nil => simp at hi
  | cons load loads ih =>
    cases i with
    | zero =>
      simp only [List.modify_zero_cons, List.sum_cons]
      omega
    | succ i =>
      simp only [List.modify_succ_cons, List.sum_cons]
      rw [ih (by simpa using hi)]
      omega

theorem sum_loads_of_not_free (hnot : ∀ j, ¬ FreeAt nodes r p j) :
    (nodes.map fun node => node.2.toNat).sum ≤ (LoadState.ofRound nodes r p).loads.sum := by
  have heq : (LoadState.ofRound nodes r p).loads = nodes.map fun node => node.2.toNat := by
    apply List.ext_getElem?
    intro j
    rw [ofRound_loads_getElem?, List.getElem?_map]
    cases hnode : nodes[j]? with
    | none => rfl
    | some node =>
      have hcap := cap_of_not_free hnode (hnot j)
      simp only [Option.map_some, roundLoad, Option.some.injEq]
      omega
  rw [heq]

theorem loadLoop_ofRound (reqNum : Nat) (hp : p < nodes.length)
    (hcap : (LoadState.ofRound nodes r p).loads.sum + reqNum ≤
      (nodes.map fun node => node.2.toNat).sum) :
    ∃ r' p', p' < nodes.length ∧
      loadLoop reqNum (LoadState.ofRound nodes r p) = some (LoadState.ofRound nodes r' p') ∧
      (LoadState.ofRound nodes r' p').loads.sum =
        (LoadState.ofRound nodes r p).loads.sum + reqNum := by
  induction reqNum generalizing r p with
  | zero => exact ⟨r, p, hp, rfl, rfl⟩
  | succ reqNum ih =>
    have hfree : ∃ j, FreeAt nodes r p j := by
      by_contra hnone
      have hfull := sum_loads_of_not_free (not_exists.mp hnone)
      omega
    obtain ⟨i, hi, r₁, p₁, hp₁, hplace, hloads⟩ := place_ofRound hp hfree
    have hsum : (LoadState.ofRound nodes r₁ p₁).loads.sum =
        (LoadState.ofRound nodes r p).loads.sum + 1 := by
      rw [← hloads, sum_modify_succ (by simpa [LoadState.ofRound] using hi)]
    obtain ⟨r', p', hp', hloop, hsum'⟩ := ih (r := r₁) hp₁ (by omega)
    refine ⟨r', p', hp', ?_, by omega⟩
    rw [loadLoop, hplace]
    exact hloop

theorem ofRound_start (nodes : List (Address × Int)) :
    LoadState.ofRound nodes 0 0 =
      { avail := nodes, loads := List.replicate nodes.length 0, idx := 0 } := by
  simp only [LoadState.ofRound, LoadState.mk.injEq, and_true]
  constructor
  · apply List.ext_getElem
    · simp
    · intro j hj _
      simp [roundLoad]
  · apply List.ext_getElem
    · simp
    · intro j hj _
      simp [roundLoad]

/-! ## Fairness -/

/-- Loads that place the requests within the availabilities of the nodes, from the first
node on and evenly: a node gets less than another one only when its slots are used up, apart
from the one request by which the last round may favour the nodes at the front. -/
structure FairLoads (nodes : List (Address × Int)) (reqNum : Nat) (loads : List Nat) : Prop where
  length : loads.length = nodes.length
  sum : loads.sum = reqNum
  within : ∀ (i load : Nat) (node : Address × Int), nodes[i]? = some node →
    loads[i]? = some load → (load : Int) ≤ node.2
  zeros_last : ∀ i j load : Nat, i ≤ j → loads[i]? = some 0 → loads[j]? = some load → load = 0
  balanced : ∀ (i j load load' : Nat) (node : Address × Int), nodes[i]? = some node →
    loads[i]? = some load → (load : Int) < node.2 → loads[j]? = some load' → load' ≤ load + 1

theorem ofRound_load (hnode : nodes[i]? = some node)
    (hload : (LoadState.ofRound nodes r p).loads[i]? = some load) :
    load = roundLoad r p i node.2 := by
  rw [ofRound_loads_getElem?, hnode] at hload
  exact (Option.some.inj hload).symm

theorem exists_node_of_load (hload : (LoadState.ofRound nodes r p).loads[i]? = some load) :
    ∃ node, nodes[i]? = some node ∧ load = roundLoad r p i node.2 := by
  rw [ofRound_loads_getElem?] at hload
  obtain ⟨node, hnode, rfl⟩ := Option.map_eq_some_iff.mp hload
  exact ⟨node, hnode, rfl⟩

theorem roundLoad_eq_zero {cap : Int} (hcap : 0 < cap) (hij : i ≤ j) (h : roundLoad r p i cap = 0)
    (cap' : Int) : roundLoad r p j cap' = 0 := by
  unfold roundLoad at h ⊢
  have hround : ¬ i < p ∧ r = 0 := by
    by_cases hip : i < p
    · rw [if_pos hip] at h
      omega
    · rw [if_neg hip] at h
      exact ⟨hip, by omega⟩
  rw [if_neg (by omega)]
  omega

theorem fairLoads_ofRound (hpos : ∀ node ∈ nodes, 0 < node.2) (r p : Nat) :
    FairLoads nodes (LoadState.ofRound nodes r p).loads.sum
      (LoadState.ofRound nodes r p).loads where
  length := by simp [LoadState.ofRound]
  sum := rfl
  within := by
    intro i load node hnode hload
    have hcap := hpos node (List.mem_of_getElem? hnode)
    rw [ofRound_load hnode hload]
    unfold roundLoad
    omega
  zeros_last := by
    intro i j load hij hzero hload
    obtain ⟨node, hnode, hi⟩ := exists_node_of_load hzero
    obtain ⟨node', -, rfl⟩ := exists_node_of_load hload
    exact roundLoad_eq_zero (hpos node (List.mem_of_getElem? hnode)) hij hi.symm node'.2
  balanced := by
    intro i j load load' node hnode hload hspare hload'
    obtain ⟨node', -, rfl⟩ := exists_node_of_load hload'
    rw [ofRound_load hnode hload] at hspare ⊢
    unfold roundLoad at hspare ⊢
    split at hspare <;> split <;> omega

theorem loadLoop_start {reqNum : Nat}
    (hreq : reqNum ≤ (nodes.map fun node => node.2.toNat).sum) :
    ∃ r p, loadLoop reqNum (LoadState.ofRound nodes 0 0) = some (LoadState.ofRound nodes r p) ∧
      (LoadState.ofRound nodes r p).loads.sum = reqNum := by
  have hzero : (LoadState.ofRound nodes 0 0).loads.sum = 0 := by
    rw [ofRound_start]
    simp
  by_cases hnodes : nodes = []
  · subst hnodes
    have hnone : reqNum = 0 := Nat.le_zero.mp hreq
    subst hnone
    exact ⟨0, 0, rfl, rfl⟩
  · obtain ⟨r, p, -, hloop, hsum⟩ := loadLoop_ofRound reqNum
      (List.length_pos_iff.mpr hnodes) (by rw [hzero, Nat.zero_add]; exact hreq)
    exact ⟨r, p, hloop, by rw [hsum, hzero, Nat.zero_add]⟩

theorem sum_toNat_of_pos (hpos : ∀ node ∈ nodes, 0 < node.2) :
    (((nodes.map fun node => node.2.toNat).sum : Nat) : Int) = (nodes.map Prod.snd).sum := by
  induction nodes with
  | nil => rfl
  | cons node nodes ih =>
    have hnode := hpos node List.mem_cons_self
    have hrest := ih fun other hother => hpos other (List.mem_cons_of_mem _ hother)
    rw [List.map_cons, List.sum_cons, List.map_cons, List.sum_cons, Int.natCast_add, hrest]
    omega

/-- The load loop of `func_call_handler` ends and is fair, for any nodes with free slots and
any number of requests up to the number of slots. -/
theorem load_loop_fair {reqNum : Nat} (hpos : ∀ node ∈ nodes, 0 < node.2)
    (hreq : (reqNum : Int) ≤ (nodes.map Prod.snd).sum) :
    ∃ s, loadLoop reqNum
        { avail := nodes, loads := List.replicate nodes.length 0, idx := 0 } = some s ∧
      FairLoads nodes reqNum s.loads := by
  have hslots := sum_toNat_of_pos hpos
  obtain ⟨r, p, hloop, hsum⟩ := @loadLoop_start nodes reqNum (by omega)
  rw [ofRound_start] at hloop
  have hfair := fairLoads_ofRound hpos r p
  rw [hsum] at hfair
  exact ⟨_, hloop, hfair⟩

/-- Seven requests over nodes with one, four and two free executors. -/
theorem load_loop_fair_seven :
    ∃ s, loadLoop 7
        { avail := [(Bytes.lit "10.0.0.1", 1), (Bytes.lit "10.0.0.2", 4),
            (Bytes.lit "10.0.0.3", 2)]
          loads := [0, 0, 0]
          idx := 0 } = some s ∧
      FairLoads [(Bytes.lit "10.0.0.1", 1), (Bytes.lit "10.0.0.2", 4), (Bytes.lit "10.0.0.3", 2)]
        7 s.loads :=
  load_loop_fair (by decide) (by decide)

end Pheromone.Coordinator
