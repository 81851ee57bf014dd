import Mathlib.Algebra.Order.Field.Basic
import Mathlib.Tactic.Linarith
import Mathlib.Tactic.Positivity

/-!
# Runge-Kutta with adaptive steps

`rk4` of `RCutil.c`. It tries a step at once and as two half steps; while the two
results are too far apart it tries again with a smaller step. It returns the
temperatures after the step it accepted, that step, and the step to try next.

* `nextStep_pos`, `nextStep_le_maxup`: the bounds on the step size to try next.
* `rk4_spec`: what an accepted step satisfies.
-/

namespace GpuHotSpot.HotSpotTool

variable {K : Type*} [Field K] [LinearOrder K] {n : ℕ}

def RK4_SAFETY : K := 95 / 100
def RK4_MAXUP : K := 5
def RK4_MAXDOWN : K := 10
def RK4_PRECISION : K := 1 / 100

/-- A slope function, applied to its model and its power vector. -/
abbrev SlopeFn (K : Type*) (n : ℕ) := (Fin n → K) → Fin n → K

/-- One fourth-order step of length `h` from `y`, where the slope is `k1`. -/
def rk4Core (f : SlopeFn K n) (y k1 : Fin n → K) (h : K) : Fin n → K :=
  let k2 := f fun i => y i + h / 2 * k1 i
  let k3 := f fun i => y i + h / 2 * k2 i
  let k4 := f fun i => y i + h * k3 i
  fun i => y i + h * (k1 i + 2 * k2 i + 2 * k3 i + k4 i) / 6

/-- The largest difference between the one step and the two half steps. -/
def maxDiff (ytemp t2 : Fin (n + 1) → K) : K :=
  (List.ofFn fun i : Fin n => |ytemp i.succ - t2 i.succ|).foldl max |ytemp 0 - t2 0|

/-- The step size to try next, by the largest difference. Where there is none, the quotient
and its power are infinite and the upper bound applies. -/
def nextStep (pow : K → K → K) (h max : K) : K :=
  if max ≤ RK4_PRECISION then
    if max = 0 then RK4_MAXUP * h
    else min (RK4_SAFETY * h * pow |RK4_PRECISION / max| (1 / 5)) (RK4_MAXUP * h)
  else
    Max.max (RK4_SAFETY * h * pow |RK4_PRECISION / max| (1 / 4)) (h / RK4_MAXDOWN)

/-- What a call of `rk4` leaves: the accepted step, the state after it, the step to try next. -/
structure Rk4Result (K : Type*) (n : ℕ) where
  h : K
  yout : Fin n → K
  newH : K

/-- The loop of `rk4`, at most `tries` times. The slope at the start is overwritten by the
slope at the midpoint, also for the tries that follow. -/
def rk4Tries (pow : K → K → K) (f : SlopeFn K (n + 1)) (y : Fin (n + 1) → K) :
    ℕ → (Fin (n + 1) → K) → K → Option (Rk4Result K (n + 1))
  | 0, _, _ => none
  | tries + 1, k1, h =>
    let ytemp := rk4Core f y k1 h
    let t1 := rk4Core f y k1 (h / 2)
    let k1' := f t1
    let t2 := rk4Core f t1 k1' (h / 2)
    let newH := nextStep pow h (maxDiff ytemp t2)
    if newH < h then rk4Tries pow f y tries k1' newH else some ⟨h, ytemp, newH⟩

def rk4 (pow : K → K → K) (tries : ℕ) (f : SlopeFn K (n + 1)) (y : Fin (n + 1) → K) (h : K) :
    Option (Rk4Result K (n + 1)) :=
  rk4Tries pow f y tries (f y) h

/-! ## Bounds on steps -/

variable [IsStrictOrderedRing K] {pow : K → K → K} {h : K}

theorem nextStep_pos (pow_pos : ∀ x e, 0 < x → 0 < pow x e) (positive : 0 < h) (max : K) :
    0 < nextStep pow h max := by
  unfold nextStep
  split_ifs with accurate exactly
  · exact mul_pos (by norm_num [RK4_MAXUP]) positive
  · have quotient : 0 < |RK4_PRECISION / max| := by
      apply abs_pos.mpr
      exact div_ne_zero (by norm_num [RK4_PRECISION]) exactly
    refine lt_min (mul_pos (mul_pos ?_ positive) (pow_pos _ _ quotient)) (mul_pos ?_ positive)
    · norm_num [RK4_SAFETY]
    · norm_num [RK4_MAXUP]
  · exact lt_max_of_lt_right (div_pos positive (by norm_num [RK4_MAXDOWN]))

/-- The step to try next is at most `RK4_MAXUP` times as long, if the power of a number below
one is below one. -/
theorem nextStep_le_maxup (pow_le_one : ∀ x, 0 ≤ x → x ≤ 1 → pow x (1 / 4) ≤ 1)
    (positive : 0 < h) {max : K} : nextStep pow h max ≤ RK4_MAXUP * h := by
  unfold nextStep
  split_ifs with accurate exactly
  · exact le_rfl
  · exact min_le_right _ _
  · have above : RK4_PRECISION < max := lt_of_not_ge accurate
    have quotient : |RK4_PRECISION / max| ≤ 1 := by
      have small : (0 : K) < RK4_PRECISION := by norm_num [RK4_PRECISION]
      rw [abs_of_pos (div_pos small (small.trans above)), div_le_one (small.trans above)]
      exact above.le
    have power := pow_le_one _ (abs_nonneg _) quotient
    refine max_le ?_ ?_
    · calc RK4_SAFETY * h * pow |RK4_PRECISION / max| (1 / 4)
          ≤ RK4_SAFETY * h * 1 :=
            mul_le_mul_of_nonneg_left power (mul_nonneg (by norm_num [RK4_SAFETY]) positive.le)
        _ ≤ RK4_MAXUP * h := by
            simp only [RK4_SAFETY, RK4_MAXUP]
            linarith
    · simp only [RK4_MAXDOWN, RK4_MAXUP]
      linarith

variable {f : SlopeFn K (n + 1)} {y : Fin (n + 1) → K} {r : Rk4Result K (n + 1)}

theorem rk4Tries_spec (pow_pos : ∀ x e, 0 < x → 0 < pow x e)
    (pow_le_one : ∀ x, 0 ≤ x → x ≤ 1 → pow x (1 / 4) ≤ 1) {tries : ℕ} {k1 : Fin (n + 1) → K}
    (positive : 0 < h) (accepted : rk4Tries pow f y tries k1 h = some r) :
    0 < r.h ∧ r.h ≤ h ∧ r.h ≤ r.newH ∧ r.newH ≤ RK4_MAXUP * r.h := by
  induction tries generalizing k1 h with
  | zero => simp [rk4Tries] at accepted
  | succ tries ih =>
    simp only [rk4Tries] at accepted
    split_ifs at accepted with shorter
    · obtain ⟨pos, below, bounds⟩ := ih (nextStep_pos pow_pos positive _) accepted
      exact ⟨pos, below.trans shorter.le, bounds⟩
    · cases accepted
      exact ⟨positive, le_rfl, le_of_not_gt shorter, nextStep_le_maxup pow_le_one positive⟩

/-- **An accepted step**: it is positive and no longer than the step asked for, and the step
to try next is at least as long, but not more than `RK4_MAXUP` times. -/
theorem rk4_spec (pow_pos : ∀ x e, 0 < x → 0 < pow x e)
    (pow_le_one : ∀ x, 0 ≤ x → x ≤ 1 → pow x (1 / 4) ≤ 1) {tries : ℕ} (positive : 0 < h)
    (accepted : rk4 pow tries f y h = some r) :
    0 < r.h ∧ r.h ≤ h ∧ r.h ≤ r.newH ∧ r.newH ≤ RK4_MAXUP * r.h :=
  rk4Tries_spec pow_pos pow_le_one positive accepted

end GpuHotSpot.HotSpotTool
