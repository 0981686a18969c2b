import Pheromone.Common.Trigger
import Pheromone.Lib.Outputs
import Mathlib.Algebra.Order.Group.Unbundled.Int

/-!
# Batches

`ByBatchSizeTrigger` and `ByTimeTrigger` keep the objects that arrive in a buffer, and
pass the buffer on as a whole: when it has `count` objects, or when the time window is
over at an arrival.
-/

namespace Pheromone.Common

open Lib

/-- How an object is listed in an action. -/
def BucketKey.sessionKey (object : BucketKey) : Session × Key := (object.session, object.key)

def listedBy (actions : List TriggerAction) : List (Session × Key) :=
  actions.flatMap TriggerAction.sessionKeys

/-! ## By size -/

namespace ByBatchSizeTrigger

variable (target : Name)

def step (t : ByBatchSizeTrigger) (object : BucketKey) :
    ByBatchSizeTrigger × List TriggerAction :=
  t.actionForNewObject target object

theorem step_conserves (t : ByBatchSizeTrigger) (object : BucketKey) :
    listedBy (t.step target object).2 ++ (t.step target object).1.buffer =
      t.buffer ++ [object.sessionKey] := by
  unfold step actionForNewObject
  simp only
  split
  · simp [listedBy, BucketKey.sessionKey]
  · simp [listedBy, BucketKey.sessionKey]

/-- A trigger for batches of `n` objects; its buffer is not full. -/
structure Fills (n : Nat) (t : ByBatchSizeTrigger) : Prop where
  size : sizeOfInt t.count = n
  short : t.buffer.length < n

theorem Fills.step {n : Nat} {t : ByBatchSizeTrigger} (h : Fills n t) (object : BucketKey) :
    Fills n (t.step target object).1 ∧
      ∀ action ∈ (t.step target object).2, action.sessionKeys.length = n := by
  obtain ⟨hsize, hshort⟩ := h
  unfold ByBatchSizeTrigger.step actionForNewObject
  simp only [hsize, List.length_append, List.length_singleton]
  split
  next hfull =>
    refine ⟨⟨hsize, by simp only [List.length_nil]; omega⟩, ?_⟩
    intro action haction
    rw [List.mem_singleton.mp haction]
    simp only [List.length_append, List.length_singleton]
    omega
  next hpart =>
    refine ⟨⟨hsize, ?_⟩, fun action haction => absurd haction List.not_mem_nil⟩
    simp only [List.length_append, List.length_singleton]
    omega

theorem new_fills {count : Int} (hpos : 1 ≤ count) (hint : count < 2 ^ 31) :
    Fills count.toNat (ByBatchSizeTrigger.new count) := by
  constructor
  · simp only [ByBatchSizeTrigger.new, sizeOfInt]
    omega
  · simp only [ByBatchSizeTrigger.new, List.length_nil]
    omega

theorem batches {count : Int} (hpos : 1 ≤ count) (hint : count < 2 ^ 31)
    (objects : List BucketKey) :
    let start := ByBatchSizeTrigger.new count
    let answers := outputs (step target) start objects
    let buffer := (stateAfter (step target) start objects).buffer
    answers.flatMap listedBy ++ buffer = objects.map BucketKey.sessionKey ∧
      (∀ actions ∈ answers, ∀ action ∈ actions, (action.sessionKeys.length : Int) = count) ∧
      (buffer.length : Int) < count := by
  intro start answers buffer
  have hnew := new_fills hpos hint
  have hfills := stateAfter_invariant (Q := Fills count.toNat)
    (fun _ object h => (Fills.step target h object).1) hnew objects
  refine ⟨?_, ?_, ?_⟩
  · exact outputs_conserve (step_conserves target) start objects
  · intro actions hactions action haction
    have hlength := outputs_invariant (Q := Fills count.toNat)
      (P := fun actions => ∀ action ∈ actions, action.sessionKeys.length = count.toNat)
      (fun _ object h => (Fills.step target h object).1)
      (fun _ object h => (Fills.step target h object).2) hnew objects actions hactions action
      haction
    omega
  · have hshort : buffer.length < count.toNat := hfills.short
    omega

end ByBatchSizeTrigger

/-! ## By time -/

namespace ByTimeTrigger

variable (target : Name)

def step (t : ByTimeTrigger) (arrival : BucketKey × TimePoint) :
    ByTimeTrigger × List TriggerAction :=
  t.actionForNewObject arrival.2 target arrival.1

theorem step_conserves (t : ByTimeTrigger) (arrival : BucketKey × TimePoint) :
    listedBy (t.step target arrival).2 ++ (t.step target arrival).1.buffer =
      t.buffer ++ [arrival.1.sessionKey] := by
  unfold step actionForNewObject
  simp only
  split
  · simp [listedBy, BucketKey.sessionKey]
  · simp [listedBy, BucketKey.sessionKey]

theorem step_timeWindow (t : ByTimeTrigger) (arrival : BucketKey × TimePoint) :
    (t.step target arrival).1.timeWindow = t.timeWindow := by
  unfold step actionForNewObject
  simp only
  split
  · rfl
  · rfl

theorem step_stamp (t : ByTimeTrigger) (arrival : BucketKey × TimePoint) :
    (t.step target arrival).1.lastTriggerStamp =
      if (t.step target arrival).2 = [] then t.lastTriggerStamp else arrival.2 := by
  unfold step actionForNewObject
  simp only
  split
  · simp
  · simp

theorem step_elapsed {t : ByTimeTrigger} {arrival : BucketKey × TimePoint}
    (h : (t.step target arrival).2 ≠ []) :
    (t.timeWindow.toNat : Int) ≤ millisecondsOf (arrival.2 - t.lastTriggerStamp) := by
  unfold step actionForNewObject at h
  simp only at h
  split at h
  next hwindow => exact hwindow
  · exact absurd rfl h

theorem stateAfter_timeWindow (t : ByTimeTrigger) (arrivals : List (BucketKey × TimePoint)) :
    (stateAfter (step target) t arrivals).timeWindow = t.timeWindow :=
  stateAfter_invariant (Q := fun t' => t'.timeWindow = t.timeWindow)
    (fun t' arrival h => (step_timeWindow target t' arrival).trans h) rfl arrivals

theorem stateAfter_stamp {t : ByTimeTrigger} {arrivals : List (BucketKey × TimePoint)}
    (h : ∀ actions ∈ outputs (step target) t arrivals, actions = []) :
    (stateAfter (step target) t arrivals).lastTriggerStamp = t.lastTriggerStamp := by
  induction arrivals generalizing t with
  | nil => rfl
  | cons arrival arrivals ih =>
    rw [outputs_cons, List.forall_mem_cons] at h
    rw [stateAfter_cons, ih h.2, step_stamp, if_pos h.1]

theorem le_of_le_millisecondsOf {window : Nat} {duration : Int}
    (h : (window : Int) ≤ millisecondsOf duration) :
    (window : Int) * 1000000 ≤ |duration| ∧ (0 < window → (window : Int) * 1000000 ≤ duration) := by
  unfold millisecondsOf at h
  rcases Int.le_total 0 duration with hsign | hsign
  · rw [Int.tdiv_eq_ediv_of_nonneg hsign] at h
    rw [abs_of_nonneg hsign]
    omega
  · have hround : duration.tdiv 1000000 = -((-duration) / 1000000) := by
      rw [← Int.tdiv_eq_ediv_of_nonneg (by omega), Int.neg_tdiv, Int.neg_neg]
    rw [hround] at h
    rw [abs_of_nonpos hsign]
    omega

theorem batches (timeWindow : UInt32) (created : TimePoint)
    (arrivals : List (BucketKey × TimePoint)) :
    let start := ByTimeTrigger.new timeWindow created
    (outputs (step target) start arrivals).flatMap listedBy ++
        (stateAfter (step target) start arrivals).buffer =
      arrivals.map fun arrival => arrival.1.sessionKey :=
  outputs_conserve (step_conserves target) _ arrivals

theorem window_between {t : ByTimeTrigger} {first last : BucketKey × TimePoint}
    {between : List (BucketKey × TimePoint)}
    (hfirst : (t.step target first).2 ≠ [])
    (hbetween : ∀ actions ∈ outputs (step target) (t.step target first).1 between, actions = [])
    (hlast : ((stateAfter (step target) (t.step target first).1 between).step target last).2 ≠ []) :
    (t.timeWindow.toNat : Int) ≤ millisecondsOf (last.2 - first.2) := by
  have helapsed := step_elapsed target hlast
  rw [stateAfter_timeWindow, stateAfter_stamp target hbetween, step_timeWindow, step_stamp,
    if_neg hfirst] at helapsed
  exact helapsed

end ByTimeTrigger

/-- What was passed on, and then what is in the buffer, are the objects that arrived, in
order.  Batches by size have their size, and batches by time are a window apart. -/
theorem batching_keeps_arrivals (target : Name) :
    (∀ (count : Int), 1 ≤ count → count < 2 ^ 31 → ∀ objects : List BucketKey,
      let step := ByBatchSizeTrigger.step target
      let start := ByBatchSizeTrigger.new count
      let buffer := (stateAfter step start objects).buffer
      (outputs step start objects).flatMap listedBy ++ buffer =
          objects.map BucketKey.sessionKey ∧
        (∀ actions ∈ outputs step start objects, ∀ action ∈ actions,
          (action.sessionKeys.length : Int) = count) ∧
        (buffer.length : Int) < count) ∧
    ∀ (timeWindow : UInt32) (created : TimePoint) (arrivals : List (BucketKey × TimePoint)),
      let step := ByTimeTrigger.step target
      let start := ByTimeTrigger.new timeWindow created
      (outputs step start arrivals).flatMap listedBy ++ (stateAfter step start arrivals).buffer =
          (arrivals.map fun arrival => arrival.1.sessionKey) ∧
        ∀ before first between last after,
          arrivals = before ++ first :: (between ++ last :: after) →
          let opening := step (stateAfter step start before) first
          opening.2 ≠ [] → (∀ actions ∈ outputs step opening.1 between, actions = []) →
          (step (stateAfter step opening.1 between) last).2 ≠ [] →
          (timeWindow.toNat : Int) * 1000000 ≤ |last.2 - first.2| ∧
            (0 < timeWindow.toNat → (timeWindow.toNat : Int) * 1000000 ≤ last.2 - first.2) := by
  constructor
  · intro count hpos hint objects
    exact ByBatchSizeTrigger.batches target hpos hint objects
  · intro timeWindow created arrivals step start
    refine ⟨ByTimeTrigger.batches target timeWindow created arrivals, ?_⟩
    intro before first between last after _ opening hfirst hbetween hlast
    have hwindow := ByTimeTrigger.window_between target hfirst hbetween hlast
    rw [ByTimeTrigger.stateAfter_timeWindow] at hwindow
    exact ByTimeTrigger.le_of_le_millisecondsOf hwindow

/-- Three objects in batches of two, and two windows of a millisecond. -/
theorem batching_keeps_arrivals_pairs :
    let object (key : String) : BucketKey :=
      { bucket := Bytes.lit "b", key := Bytes.lit key, session := Bytes.lit "s" }
    let objects := [object "x", object "y", object "z"]
    let bySize := ByBatchSizeTrigger.new 2
    (outputs (ByBatchSizeTrigger.step []) bySize objects).flatMap listedBy ++
        (stateAfter (ByBatchSizeTrigger.step []) bySize objects).buffer =
      objects.map BucketKey.sessionKey ∧
    (1 : Int) * 1000000 ≤ |3000000 - 1000000| := by
  intro object objects bySize
  have hlaws := batching_keeps_arrivals []
  refine ⟨(hlaws.1 2 (by decide) (by decide) objects).1, ?_⟩
  have hwindow := (hlaws.2 1 0 [(object "x", 1000000), (object "y", 1500000),
    (object "z", 3000000)]).2 [] (object "x", 1000000) [(object "y", 1500000)]
    (object "z", 3000000) [] rfl (by decide) (by decide) (by decide)
  exact hwindow.1

end Pheromone.Common
