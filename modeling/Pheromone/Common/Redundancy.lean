import Pheromone.Common.Trigger
import Pheromone.Lib.Outputs

/-!
# K out of n

A `RedundantTrigger` takes the first `k` of every `n` objects and drops the others.
The counter is reset by an object that is dropped: if `k` is `n` there is none to
drop, and one more object is lost before the next round starts.
-/

namespace Pheromone.Common.RedundantTrigger

open Lib

variable {j : Nat} {objects : List BucketKey}

def step (target : Name) (t : RedundantTrigger) (object : BucketKey) :
    RedundantTrigger × List TriggerAction :=
  t.actionForNewObject target object

def pairs (objects : List BucketKey) : List (Session × Key) :=
  objects.map fun object => (object.session, object.key)

/-- What one round of `k` out of `n` objects should be answered: the `k`-th of them with
the first `k`, the others with nothing. -/
def roundAnswer (target : Name) (k : Nat) (round : List BucketKey) (j : Nat) :
    List TriggerAction :=
  if j + 1 = k then [{ function := target, sessionKeys := pairs (round.take k) }] else []

/-- Each complete block of `n` objects is answered as a round. -/
def FiresPerBlock (k n : UInt32) (target : Name) (objects : List BucketKey) : Prop :=
  ∀ i j, i * n.toNat + n.toNat ≤ objects.length → j < n.toNat →
    (outputs (step target) (RedundantTrigger.new k n) objects)[i * n.toNat + j]? =
      some (roundAnswer target k.toNat ((objects.drop (i * n.toNat)).take n.toNat) j)

/-! ## One object -/

variable (target : Name) {k n : UInt32}

theorem ofNat_succ (j : Nat) : UInt32.ofNat j + 1 = UInt32.ofNat (j + 1) := by
  rw [UInt32.ofNat_add]
  rfl

theorem ofNat_le_iff (hj : j < 4294967296) : UInt32.ofNat j ≤ k ↔ j ≤ k.toNat := by
  rw [UInt32.le_iff_toNat_le, UInt32.toNat_ofNat_of_lt' hj]

theorem ofNat_eq_iff (hj : j < 4294967296) : UInt32.ofNat j = k ↔ j = k.toNat := by
  rw [← UInt32.toNat_inj, UInt32.toNat_ofNat_of_lt' hj]

theorem step_taken (hj : j + 1 ≤ k.toNat) (buffer : List (Session × Key)) (object : BucketKey) :
    step target ⟨k, n, .ofNat j, buffer⟩ object =
      if j + 1 = k.toNat then
        (⟨k, n, .ofNat (j + 1), []⟩,
          [{ function := target, sessionKeys := buffer ++ [(object.session, object.key)] }])
      else (⟨k, n, .ofNat (j + 1), buffer ++ [(object.session, object.key)]⟩, []) := by
  have hlt : j + 1 < 4294967296 := Nat.lt_of_le_of_lt hj k.toNat_lt
  unfold step actionForNewObject
  simp only [ofNat_succ, ofNat_le_iff hlt, ofNat_eq_iff hlt, if_pos hj]

theorem step_dropped (hk : k.toNat ≤ j) (hj : j + 1 ≤ n.toNat) (buffer : List (Session × Key))
    (object : BucketKey) :
    step target ⟨k, n, .ofNat j, buffer⟩ object =
      (⟨k, n, .ofNat (if j + 1 = n.toNat then 0 else j + 1), buffer⟩, []) := by
  have hlt : j + 1 < 4294967296 := Nat.lt_of_le_of_lt hj n.toNat_lt
  have hle : n ≤ UInt32.ofNat (j + 1) ↔ j + 1 = n.toNat := by
    rw [UInt32.le_iff_toNat_le, UInt32.toNat_ofNat_of_lt' hlt]
    omega
  unfold step actionForNewObject
  simp only [ofNat_succ, ofNat_le_iff hlt, if_neg (Nat.not_le.mpr (Nat.lt_succ_of_le hk)), hle]
  split <;> rfl

/-! ## One round -/

theorem pairs_take_succ {object : BucketKey} (h : objects[j]? = some object) :
    pairs (objects.take (j + 1)) = pairs (objects.take j) ++ [(object.session, object.key)] := by
  simp only [pairs, List.take_add_one, h, Option.toList_some, List.map_append, List.map_singleton]

theorem round_taken (hk : 0 < k.toNat) (hlen : objects.length ≤ k.toNat)
    (buffer : List (Session × Key)) :
    outputs (step target) ⟨k, n, .ofNat 0, buffer⟩ objects =
        (List.range objects.length).map (fun j => if j + 1 = k.toNat then
          [{ function := target, sessionKeys := buffer ++ pairs (objects.take k.toNat) }]
          else []) ∧
      stateAfter (step target) ⟨k, n, .ofNat 0, buffer⟩ objects =
        ⟨k, n, .ofNat objects.length,
          if objects.length = k.toNat then [] else buffer ++ pairs objects⟩ := by
  let plan (j : Nat) : RedundantTrigger :=
    ⟨k, n, .ofNat j, if j = k.toNat then [] else buffer ++ pairs (objects.take j)⟩
  have hstart : plan 0 = ⟨k, n, .ofNat 0, buffer⟩ := by
    simp only [plan, if_neg (Nat.ne_of_lt hk), List.take_zero, pairs, List.map_nil,
      List.append_nil]
  have hplan : ∀ j object, objects[j]? = some object → step target (plan j) object =
      (plan (j + 1), if j + 1 = k.toNat then
        [{ function := target, sessionKeys := buffer ++ pairs (objects.take k.toNat) }]
        else []) := by
    intro j object hobject
    have hj : j + 1 ≤ k.toNat :=
      Nat.le_trans (List.getElem?_eq_some_iff.mp hobject).1 hlen
    simp only [plan, if_neg (Nat.ne_of_lt hj), step_taken target hj, List.append_assoc]
    rw [← pairs_take_succ hobject]
    split
    next hlast => rw [hlast]
    · rfl
  obtain ⟨hout, hstate⟩ := outputs_of_plan hplan
  rw [hstart] at hout hstate
  refine ⟨hout, hstate.trans ?_⟩
  simp only [plan, List.take_length]

theorem round_dropped (hkn : k.toNat < n.toNat) (hlen : objects.length = n.toNat - k.toNat)
    (buffer : List (Session × Key)) :
    outputs (step target) ⟨k, n, .ofNat k.toNat, buffer⟩ objects =
        (List.range objects.length).map (fun _ => []) ∧
      stateAfter (step target) ⟨k, n, .ofNat k.toNat, buffer⟩ objects =
        ⟨k, n, .ofNat 0, buffer⟩ := by
  let plan (j : Nat) : RedundantTrigger :=
    ⟨k, n, .ofNat (if k.toNat + j = n.toNat then 0 else k.toNat + j), buffer⟩
  have hstart : plan 0 = ⟨k, n, .ofNat k.toNat, buffer⟩ := by
    simp only [plan, Nat.add_zero, if_neg (Nat.ne_of_lt hkn)]
  have hplan : ∀ j object, objects[j]? = some object → step target (plan j) object =
      (plan (j + 1), []) := by
    intro j object hobject
    have hj : k.toNat + j + 1 ≤ n.toNat := by
      have := (List.getElem?_eq_some_iff.mp hobject).1
      omega
    simp only [plan, if_neg (Nat.ne_of_lt hj)]
    exact step_dropped target (Nat.le_add_right _ _) hj buffer object
  obtain ⟨hout, hstate⟩ := outputs_of_plan hplan
  rw [hstart] at hout hstate
  refine ⟨hout, hstate.trans ?_⟩
  simp only [plan, hlen, Nat.add_sub_of_le (Nat.le_of_lt hkn), if_true]

theorem round_complete (hk : 0 < k.toNat) (hkn : k.toNat < n.toNat) {round : List BucketKey}
    (hlen : round.length = n.toNat) :
    (∀ j < n.toNat, (outputs (step target) (RedundantTrigger.new k n) round)[j]? =
        some (roundAnswer target k.toNat round j)) ∧
      stateAfter (step target) (RedundantTrigger.new k n) round = RedundantTrigger.new k n := by
  have hfront : (round.take k.toNat).length = k.toNat := by
    rw [List.length_take]
    omega
  have hrest : (round.drop k.toNat).length = n.toNat - k.toNat := by
    rw [List.length_drop, hlen]
  obtain ⟨hout, hstate⟩ :=
    round_taken target (n := n) hk (Nat.le_of_eq hfront) []
  rw [hfront, if_pos rfl] at hstate
  obtain ⟨hout', hstate'⟩ := round_dropped target hkn hrest []
  have hnew : RedundantTrigger.new k n = ⟨k, n, .ofNat 0, []⟩ := rfl
  rw [hnew]
  constructor
  · intro j hj
    have hsplit : outputs (step target) ⟨k, n, .ofNat 0, []⟩ round =
        (List.range k.toNat).map (roundAnswer target k.toNat round) ++
          (List.range (n.toNat - k.toNat)).map fun _ => [] := by
      conv_lhs => rw [← List.take_append_drop k.toNat round, outputs_append, hstate, hout, hout']
      rw [hfront, hrest, List.take_take, Nat.min_self]
      rfl
    rw [hsplit]
    by_cases hjk : j < k.toNat
    · rw [List.getElem?_append_left (by simpa using hjk)]
      simp [hjk]
    · rw [List.getElem?_append_right (by simpa using hjk), roundAnswer, if_neg (by omega)]
      simp only [List.length_map, List.length_range, List.getElem?_map]
      rw [List.getElem?_range (by omega), Option.map_some]
  · rw [← List.take_append_drop k.toNat round, stateAfter_append, hstate, hstate']

/-! ## No object to drop -/

theorem step_lost (hk : 0 < k.toNat) (object : BucketKey) :
    ∃ buffer, step target ⟨k, k, .ofNat k.toNat, []⟩ object =
      (⟨k, k, .ofNat 0, buffer⟩, []) := by
  have hcount : UInt32.ofNat k.toNat = k := UInt32.ofNat_toNat
  unfold step actionForNewObject
  simp only [hcount]
  by_cases hwrap : k + 1 ≤ k
  · have hzero : k + 1 = UInt32.ofNat 0 := by
      have hlt := k.toNat_lt
      rw [UInt32.le_iff_toNat_le, UInt32.toNat_add] at hwrap
      rw [← UInt32.toNat_inj, UInt32.toNat_add]
      simp only [UInt32.toNat_one, UInt32.toNat_ofNat'] at hwrap ⊢
      omega
    have hne : UInt32.ofNat 0 ≠ k := by
      rintro rfl
      exact absurd hk (by decide)
    rw [if_pos hwrap, hzero, if_neg hne]
    exact ⟨_, rfl⟩
  · have hle : k ≤ k + 1 := by
      rw [UInt32.le_iff_toNat_le] at hwrap ⊢
      omega
    rw [if_neg hwrap, if_pos hle]
    exact ⟨[], rfl⟩

theorem block_lost (hk : 0 < k.toNat) (hlen : 2 * k.toNat ≤ objects.length) :
    (outputs (step target) (RedundantTrigger.new k k) objects)[k.toNat + (k.toNat - 1)]? =
      some [] := by
  have hfront : (objects.take k.toNat).length = k.toNat := by
    rw [List.length_take]
    omega
  obtain ⟨-, hstate⟩ := round_taken target (n := k) hk (Nat.le_of_eq hfront) []
  rw [hfront, if_pos rfl] at hstate
  have hnew : RedundantTrigger.new k k = ⟨k, k, .ofNat 0, []⟩ := rfl
  rw [hnew, ← List.take_append_drop k.toNat objects, outputs_append, hstate,
    List.getElem?_append_right (by rw [length_outputs, hfront]; omega), length_outputs, hfront,
    Nat.add_sub_cancel_left]
  have hrest : k.toNat ≤ (objects.drop k.toNat).length := by
    rw [List.length_drop]
    omega
  generalize objects.drop k.toNat = rest at hrest ⊢
  cases rest with
  | nil => exact absurd hrest (Nat.not_le.mpr hk)
  | cons object rest =>
    obtain ⟨buffer, hlost⟩ := step_lost target hk object
    rw [outputs_cons, hlost]
    obtain hone | ⟨m, hm⟩ : k.toNat - 1 = 0 ∨ ∃ m, k.toNat - 1 = m + 1 := by
      cases k.toNat - 1 with
      | zero => exact .inl rfl
      | succ m => exact .inr ⟨m, rfl⟩
    · rw [hone, List.getElem?_cons_zero]
    · have htake : (rest.take (m + 1)).length = m + 1 := by
        rw [List.length_take]
        rw [List.length_cons] at hrest
        omega
      have hshort : (rest.take (m + 1)).length ≤ k.toNat := by omega
      obtain ⟨hout, -⟩ := round_taken target (n := k) hk hshort buffer
      rw [hm, List.getElem?_cons_succ, ← List.take_append_drop (m + 1) rest, outputs_append,
        hout, htake, List.getElem?_append_left (by simp)]
      simp only [List.getElem?_map, List.getElem?_range (Nat.lt_succ_self m), Option.map_some]
      rw [if_neg (by omega)]

theorem first_block (hk : 0 < k.toNat) (hlen : k.toNat ≤ objects.length) (hj : j < k.toNat) :
    (outputs (step target) (RedundantTrigger.new k k) objects)[j]? =
      some (roundAnswer target k.toNat (objects.take k.toNat) j) := by
  have hfront : (objects.take k.toNat).length = k.toNat := by
    rw [List.length_take]
    omega
  obtain ⟨hout, -⟩ := round_taken target (n := k) hk (Nat.le_of_eq hfront) []
  have hnew : RedundantTrigger.new k k = ⟨k, k, .ofNat 0, []⟩ := rfl
  conv_lhs => rw [hnew, ← List.take_append_drop k.toNat objects, outputs_append]
  rw [List.getElem?_append_left (by rw [length_outputs, hfront]; exact hj), hout, hfront,
    List.getElem?_map, List.getElem?_range hj, Option.map_some]
  rfl

/-! ## All blocks -/

/-- Every complete block is a round exactly if rounds have an object to drop, or there
is no second block. -/
theorem firesPerBlock_iff (target : Name) (k n : UInt32) (hk : 1 ≤ k) (hkn : k ≤ n)
    (objects : List BucketKey) :
    FiresPerBlock k n target objects ↔ k < n ∨ objects.length < 2 * n.toNat := by
  have hpos : 0 < k.toNat := UInt32.le_iff_toNat_le.mp hk
  have hle : k.toNat ≤ n.toNat := UInt32.le_iff_toNat_le.mp hkn
  constructor
  · intro hfires
    by_contra hnot
    obtain ⟨hnlt, hlen⟩ := not_or.mp hnot
    obtain rfl : k = n := UInt32.le_antisymm hkn (UInt32.not_lt.mp hnlt)
    have hlast := hfires 1 (k.toNat - 1) (by omega) (by omega)
    rw [Nat.one_mul, block_lost target hpos (by omega), roundAnswer, if_pos (by omega)] at hlast
    exact absurd (Option.some.inj hlast) (List.cons_ne_nil _ _).symm
  · intro hcond i j hblock hj
    by_cases hlt : k < n
    · have hlt' : k.toNat < n.toNat := UInt32.lt_iff_toNat_lt.mp hlt
      rw [outputs_of_period (fun round hlen => (round_complete target hpos hlt' hlen).2) hblock hj]
      refine (round_complete target hpos hlt' ?_).1 j hj
      rw [List.length_take, List.length_drop]
      omega
    · obtain rfl : k = n := UInt32.le_antisymm hkn (UInt32.not_lt.mp hlt)
      have hshort := hcond.resolve_left hlt
      have hi : i = 0 := by
        have : i * k.toNat < 1 * k.toNat := by omega
        exact Nat.lt_one_iff.mp (Nat.lt_of_mul_lt_mul_right this)
      subst hi
      rw [Nat.zero_mul, Nat.zero_add, List.drop_zero] at *
      exact first_block target hpos hblock hj

def arrival (key : Key) : BucketKey := { bucket := [], key, session := [] }

/-- One out of two: both rounds are complete. -/
theorem firesPerBlock_one_of_two :
    FiresPerBlock 1 2 [] [arrival [1], arrival [2], arrival [3], arrival [4]] :=
  (firesPerBlock_iff [] 1 2 (by decide) (by decide) _).mpr (.inl (by decide))

/-- Two out of two: the third object is lost, and the second pair starts nothing. -/
theorem second_pair_lost :
    let objects := [arrival [1], arrival [2], arrival [3], arrival [4]]
    ¬ FiresPerBlock 2 2 [] objects ∧ outputs (step []) (RedundantTrigger.new 2 2) objects =
      [[], [{ function := [], sessionKeys := [([], [1]), ([], [2])] }], [], []] := by
  refine ⟨fun hfires => ?_, by decide⟩
  have hlast := hfires 1 1 (by decide) (by decide)
  revert hlast
  decide

end Pheromone.Common.RedundantTrigger
