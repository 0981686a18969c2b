import Pheromone.Scheduler.Proofs.DataAccess
import Mathlib.Logic.Function.Iterate

/-!
# Request ids

`get_request_id` increments the counter before it is printed and again afterwards.  From
zero on the counter is even between two calls, also across the wrap-around at `2 ^ 32`, so
that an odd number is printed and the reset at multiples of 10000 never happens.
-/

namespace Pheromone.Scheduler

open Lib Common

variable {s : SchedState}

def afterRequestIds (env : SchedEnv) (s : SchedState) (n : Nat) : SchedState :=
  (fun s => (getRequestId env s).1)^[n] s

def nthRequestId (env : SchedEnv) (s : SchedState) (n : Nat) : Bytes :=
  (getRequestId env (afterRequestIds env s n)).2

def requestIdText (env : SchedEnv) (counter : UInt32) : Bytes :=
  env.ip ++ Bytes.lit ":0_" ++ Bytes.toDecimal counter.toNat

theorem requestIdText_inj {env : SchedEnv} {counter counter' : UInt32}
    (h : requestIdText env counter = requestIdText env counter') : counter = counter' :=
  UInt32.toNat_inj.mp (Bytes.toDecimal_inj (List.append_cancel_left h))

/-! ## The counter -/

theorem toNat_double (n : Nat) : (UInt32.ofNat (2 * n)).toNat = 2 * (n % 2 ^ 31) := by
  rw [UInt32.toNat_ofNat']
  omega

theorem toNat_double_succ (n : Nat) :
    (UInt32.ofNat (2 * n) + 1).toNat = 2 * (n % 2 ^ 31) + 1 := by
  rw [UInt32.toNat_add, toNat_double]
  change (2 * (n % 2 ^ 31) + 1) % 2 ^ 32 = _
  omega

theorem double_succ_no_reset (n : Nat) : (UInt32.ofNat (2 * n) + 1) % 10000 ≠ 0 := by
  intro h
  have hmod : (UInt32.ofNat (2 * n) + 1).toNat % 10000 = 0 := by
    rw [← UInt32.toNat_zero, ← h, UInt32.toNat_mod]
    rfl
  rw [toNat_double_succ] at hmod
  omega

theorem getRequestId_of_even (env : SchedEnv) {n : Nat} (h : s.rid = UInt32.ofNat (2 * n)) :
    getRequestId env s =
      ({ s with rid := UInt32.ofNat (2 * (n + 1)) },
        requestIdText env (UInt32.ofNat (2 * n) + 1)) := by
  have hnext : UInt32.ofNat (2 * n) + 1 + 1 = UInt32.ofNat (2 * (n + 1)) := by
    rw [Nat.mul_add, UInt32.ofNat_add, UInt32.add_assoc]
    rfl
  unfold getRequestId
  simp only [h, if_neg (double_succ_no_reset n), hnext]
  rfl

theorem afterRequestIds_rid (env : SchedEnv) (h : s.rid = 0) (n : Nat) :
    (afterRequestIds env s n).rid = UInt32.ofNat (2 * n) := by
  induction n with
  | zero => exact h
  | succ n ih =>
    have hstep : afterRequestIds env s (n + 1) =
        (getRequestId env (afterRequestIds env s n)).1 := Function.iterate_succ_apply' _ n s
    rw [hstep, getRequestId_of_even env ih]

theorem nthRequestId_eq (env : SchedEnv) (h : s.rid = 0) (n : Nat) :
    nthRequestId env s n = requestIdText env (UInt32.ofNat (2 * n) + 1) := by
  unfold nthRequestId
  rw [getRequestId_of_even env (afterRequestIds_rid env h n)]

theorem nthRequestId_eq_iff (env : SchedEnv) (h : s.rid = 0) (i j : Nat) :
    nthRequestId env s i = nthRequestId env s j ↔ i % 2 ^ 31 = j % 2 ^ 31 := by
  rw [nthRequestId_eq env h, nthRequestId_eq env h]
  constructor
  · intro htext
    have hcounter := congrArg UInt32.toNat (requestIdText_inj htext)
    rw [toNat_double_succ, toNat_double_succ] at hcounter
    omega
  · intro hmod
    have hcounter : UInt32.ofNat (2 * i) + 1 = UInt32.ofNat (2 * j) + 1 := by
      apply UInt32.toNat_inj.mp
      rw [toNat_double_succ, toNat_double_succ, hmod]
    rw [hcounter]

/-- From a counter at zero on, the number in a request id is odd, the counter is never
reset, and `2 ^ 31` calls in a row return different ids. -/
theorem request_ids_do_not_repeat (env : SchedEnv) {s : SchedState} (h : s.rid = 0) :
    (∀ n, ∃ counter : UInt32, nthRequestId env s n = requestIdText env counter ∧
        counter.toNat % 2 = 1) ∧
      (∀ n, ((afterRequestIds env s n).rid + 1) % 10000 ≠ 0) ∧
      ∀ i j, i < j → j < i + 2 ^ 31 → nthRequestId env s i ≠ nthRequestId env s j := by
  refine ⟨fun n => ⟨_, nthRequestId_eq env h n, ?_⟩, fun n => ?_, fun i j hij hj heq => ?_⟩
  · rw [toNat_double_succ]
    omega
  · rw [afterRequestIds_rid env h]
    exact double_succ_no_reset n
  · have hmod := (nthRequestId_eq_iff env h i j).mp heq
    omega

/-- The ids before and after ten thousand calls. -/
theorem request_ids_do_not_repeat_new :
    nthRequestId oneIoThread (SchedState.new 0 1) 0 ≠
      nthRequestId oneIoThread (SchedState.new 0 1) 10000 :=
  (@request_ids_do_not_repeat oneIoThread (SchedState.new 0 1) rfl).2.2 0 10000 (by omega)
    (by omega)

end Pheromone.Scheduler
