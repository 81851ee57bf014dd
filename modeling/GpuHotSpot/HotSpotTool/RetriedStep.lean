import GpuHotSpot.HotSpotTool.TransientSteps

/-!
# Steps that are tried again

`rk4` computes the slope `k1` at the start once, and an attempt leaves the slope at its
half-step point there. An attempt that is rejected, and followed by a shorter one, so
hands on a slope that belongs to another point.

* `nextStep_lt_iff`: which attempts are rejected.
* `rk4_classical`: what `rk4` returns if rejected attempts leave the slope as it was.
-/

namespace GpuHotSpot.HotSpotTool

open scoped Literals

variable {n : ℕ} {f : SlopeFn ℝ (n + 1)} {y : Fin (n + 1) → ℝ} {h : ℝ}

/-! ## The step that should be returned -/

/-- The half-step point of a step from `y`. -/
noncomputable def halfStep (f : SlopeFn ℝ (n + 1)) (y : Fin (n + 1) → ℝ) (h : ℝ) :
    Fin (n + 1) → ℝ :=
  rk4Core f y (f y) (h / 2)

/-- Two steps of half the length. -/
noncomputable def twoHalves (f : SlopeFn ℝ (n + 1)) (y : Fin (n + 1) → ℝ) (h : ℝ) :
    Fin (n + 1) → ℝ :=
  rk4Core f (halfStep f y h) (f (halfStep f y h)) (h / 2)

/-- A classical step of fourth order and close to two half steps, with a step size to try next that
is not shorter and at most `RK4_MAXUP` times as long. -/
structure Classical (f : SlopeFn ℝ (n + 1)) (y : Fin (n + 1) → ℝ) (r : Rk4Result ℝ (n + 1)) :
    Prop where
  step : r.yout = rk4Core f y (f y) r.h
  accurate : ∀ i, |r.yout i - twoHalves f y r.h i| ≤ RK4_PRECISION
  longer : r.h ≤ r.newH
  maxup : r.newH ≤ RK4_MAXUP * r.h

/-! ## Rejected attempts -/

/-- The largest error of an attempt that is accepted. -/
noncomputable def ACCEPTED : ℝ := RK4_SAFETY ^ 5 * RK4_PRECISION

noncomputable def stepError (f : SlopeFn ℝ (n + 1)) (y : Fin (n + 1) → ℝ) (h : ℝ) : ℝ :=
  maxDiff (rk4Core f y (f y) h) (twoHalves f y h)

/-- Every attempt that is rejected finds the slope of the start at its half-step point. -/
def KeepsSlope (f : SlopeFn ℝ (n + 1)) (y : Fin (n + 1) → ℝ) : ℕ → ℝ → Prop
  | 0, _ => True
  | tries + 1, h => ACCEPTED < stepError f y h →
      f (halfStep f y h) = f y ∧ KeepsSlope f y tries (nextStep (· ^ ·) h (stepError f y h))

/-- **Which attempts are rejected**: those whose error is above a limit that is stricter than the
precision. -/
theorem nextStep_lt_iff (positive : 0 < h) {error : ℝ} (nonneg : 0 ≤ error) :
    nextStep (· ^ ·) h error < h ↔ ACCEPTED < error := by
  have limit : ACCEPTED ≤ RK4_PRECISION := by norm_num [ACCEPTED, RK4_SAFETY, RK4_PRECISION]
  have safety : (0 : ℝ) < RK4_SAFETY := by norm_num [RK4_SAFETY]
  have precision : (0 : ℝ) < RK4_PRECISION := by norm_num [RK4_PRECISION]
  rw [nextStep]
  split_ifs with accurate exactly
  · refine iff_of_false (not_lt.mpr ?_) (not_lt.mpr ?_)
    · rw [RK4_MAXUP]
      linarith
    · rw [exactly]
      exact mul_nonneg (pow_nonneg safety.le 5) precision.le
  · have above : 0 < error := lt_of_le_of_ne nonneg (Ne.symm exactly)
    have up : ¬RK4_MAXUP * h < h := by
      rw [RK4_MAXUP]
      linarith
    have quotient : |RK4_PRECISION / error| = RK4_PRECISION / error :=
      abs_of_pos (div_pos precision above)
    rw [min_lt_iff, or_iff_left up, quotient, mul_right_comm, ← lt_div_iff₀ positive,
      div_self positive.ne', ← lt_div_iff₀' safety, one_div, one_div,
      Real.rpow_inv_lt_iff_of_pos (div_pos precision above).le (inv_pos.mpr safety).le (by norm_num),
      div_lt_iff₀ above, Real.rpow_ofNat, inv_pow, inv_mul_eq_div, lt_div_iff₀' (pow_pos safety 5),
      ACCEPTED]
  · refine iff_of_true (max_lt ?_ ?_) (limit.trans_lt (lt_of_not_ge accurate))
    · have below : |RK4_PRECISION / error| ≤ 1 := by
        have above := precision.trans (lt_of_not_ge accurate)
        rw [abs_of_pos (div_pos precision above), div_le_one above]
        exact (lt_of_not_ge accurate).le
      calc RK4_SAFETY * h * |RK4_PRECISION / error| ^ (1 / 4 : ℝ) ≤ RK4_SAFETY * h * 1 :=
            mul_le_mul_of_nonneg_left (rpow_quarter_le_one _ (abs_nonneg _) below)
              (mul_pos safety positive).le
        _ < h := by
            rw [RK4_SAFETY]
            linarith
    · rw [RK4_MAXDOWN]
      linarith

/-! ## The loop -/

/-- An attempt with the slope of `y`. -/
theorem rk4Tries_succ (tries : ℕ) : rk4Tries (· ^ ·) f y (tries + 1) (f y) h =
    if nextStep (· ^ ·) h (stepError f y h) < h then
      rk4Tries (· ^ ·) f y tries (f (halfStep f y h)) (nextStep (· ^ ·) h (stepError f y h))
    else some ⟨h, rk4Core f y (f y) h, nextStep (· ^ ·) h (stepError f y h)⟩ :=
  rfl

/-- A loop that starts with the slope of `y`. -/
theorem rk4Tries_classical {tries : ℕ} {r : Rk4Result ℝ (n + 1)} (positive : 0 < h)
    (keeps : KeepsSlope f y tries h) (accepted : rk4Tries (· ^ ·) f y tries (f y) h = some r) :
    Classical f y r := by
  have pow_pos : ∀ x e : ℝ, 0 < x → 0 < x ^ e := fun x e above => Real.rpow_pos_of_pos above e
  induction tries generalizing h with
  | zero => simp [rk4Tries] at accepted
  | succ tries ih =>
    have rejected := nextStep_lt_iff positive (maxDiff_nonneg (rk4Core f y (f y) h) (twoHalves f y h))
    rw [rk4Tries_succ] at accepted
    split_ifs at accepted with shorter
    · obtain ⟨same, later⟩ := keeps (rejected.mp shorter)
      rw [same] at accepted
      exact ih (nextStep_pos pow_pos positive _) later accepted
    · obtain rfl := Option.some.inj accepted
      have small : stepError f y h ≤ RK4_PRECISION :=
        (not_lt.mp (mt rejected.mpr shorter)).trans
          (by norm_num [ACCEPTED, RK4_SAFETY, RK4_PRECISION])
      exact ⟨rfl, maxDiff_le_iff.1 small, not_lt.mp shorter,
        nextStep_le_maxup rpow_quarter_le_one positive⟩

/-- **What `rk4` returns** is a classical step, if every attempt that it rejected found the slope of
the start at its half-step point; in particular if the first attempt is accepted. -/
theorem rk4_classical {tries : ℕ} {r : Rk4Result ℝ (n + 1)} (positive : 0 < h)
    (keeps : KeepsSlope f y tries h) (accepted : rk4 (· ^ ·) tries f y h = some r) :
    Classical f y r :=
  rk4Tries_classical positive keeps accepted

/-! ## A step that is not classical -/

/-- A node that cools towards zero. -/
def decay : SlopeFn ℝ 1 := fun v i => -v i

/-- What a step of length `h` from `a` makes of a slope `k`. -/
noncomputable def decayStep (a k h : ℝ) : ℝ :=
  let k2 := -(a + h / 2 * k)
  let k3 := -(a + h / 2 * k2)
  let k4 := -(a + h * k3)
  a + h * (k + 2 * k2 + 2 * k3 + k4) / 6

/-- One attempt of the loop from `a` with the slope `k`. -/
theorem rk4Tries_decay (tries : ℕ) (a k h : ℝ) :
    let t1 := decayStep a k (h / 2)
    let error := |decayStep a k h - decayStep t1 (-t1) (h / 2)|
    rk4Tries (· ^ ·) decay (fun _ => a) (tries + 1) (fun _ => k) h =
      if nextStep (· ^ ·) h error < h then
        rk4Tries (· ^ ·) decay (fun _ => a) tries (fun _ => -t1) (nextStep (· ^ ·) h error)
      else some ⟨h, fun _ => decayStep a k h, nextStep (· ^ ·) h error⟩ := by
  rfl

/-- A large error makes the next attempt ten times shorter. -/
theorem nextStep_maxdown (positive : 0 < h) {error : ℝ} (large : 82 ≤ error) :
    nextStep (· ^ ·) h error = h / RK4_MAXDOWN := by
  have above : (0 : ℝ) < error := by linarith
  have inaccurate : ¬error ≤ RK4_PRECISION := by
    rw [RK4_PRECISION]
    linarith
  have quotient : 0 ≤ RK4_PRECISION / error := by
    rw [RK4_PRECISION]
    positivity
  rw [nextStep, if_neg inaccurate, abs_of_nonneg quotient, max_eq_right]
  have root : (RK4_PRECISION / error) ^ (1 / 4 : ℝ) ≤ 2 / 19 := by
    rw [one_div, Real.rpow_inv_le_iff_of_pos quotient (by norm_num) (by norm_num),
      Real.rpow_ofNat, div_le_iff₀ above, RK4_PRECISION]
    linarith
  calc RK4_SAFETY * h * (RK4_PRECISION / error) ^ (1 / 4 : ℝ) ≤ RK4_SAFETY * h * (2 / 19) :=
        mul_le_mul_of_nonneg_left root (by rw [RK4_SAFETY]; positivity)
    _ = h / RK4_MAXDOWN := by
        rw [RK4_SAFETY, RK4_MAXDOWN]
        ring

/-- Cooling from four degrees with an initial step that is too long: the second attempt is
accepted, with the slope at the half-step point of the first. -/
theorem exists_unclassical : ∃ (f : SlopeFn ℝ 1) (y : Fin 1 → ℝ) (h : ℝ) (r : Rk4Result ℝ 1),
    0 < h ∧ rk4 (· ^ ·) 2 f y h = some r ∧ ¬Classical f y r := by
  have first := rk4Tries_decay 1 4 (-4) (28 / 5)
  have second := rk4Tries_decay 0 4 (-decayStep 4 (-4) (28 / 5 / 2)) (14 / 25)
  dsimp only at first second
  rw [nextStep_maxdown (by norm_num) (by norm_num [decayStep, abs_of_pos]),
    if_pos (by norm_num [RK4_MAXDOWN]),
    (by norm_num [RK4_MAXDOWN] : (28 / 5 : ℝ) / RK4_MAXDOWN = 14 / 25)] at first
  rw [if_neg (mt (nextStep_lt_iff (by norm_num) (abs_nonneg _)).mp
    (by norm_num [decayStep, ACCEPTED, RK4_SAFETY, RK4_PRECISION, abs_of_pos, abs_of_neg]))] at second
  refine ⟨decay, fun _ => 4, 28 / 5, _, by norm_num, first.trans second, fun classical => ?_⟩
  have value := congrFun classical.step 0
  norm_num [rk4Core, decay, decayStep] at value

/-- A node that warms up steadily, but for one temperature. -/
noncomputable def spike : SlopeFn ℝ 1 := fun v i => if v i = 15 / 2 then 301 else 1

/-- From 0 with a step of 10 the spike is met behind the half-step point: the first attempt is
rejected, and the second one has the slope at 0 again. -/
theorem rk4_classical_spike :
    ∃ r, rk4 (· ^ ·) 2 spike 0 10 = some r ∧ r.h = 1 ∧ Classical spike 0 r := by
  have error : stepError spike 0 10 = 500 := by
    norm_num [stepError, twoHalves, halfStep, maxDiff, rk4Core, spike, abs_of_neg]
  have none : stepError spike 0 1 = 0 := by
    norm_num [stepError, twoHalves, halfStep, maxDiff, rk4Core, spike]
  have shorter : nextStep (· ^ ·) 10 (stepError spike 0 10) = 1 := by
    rw [error, nextStep_maxdown (by norm_num) (by norm_num), RK4_MAXDOWN]
    norm_num
  have same : spike (halfStep spike 0 10) = spike 0 := by
    funext i
    norm_num [halfStep, rk4Core, spike]
  have accepted : ¬ ACCEPTED < stepError spike 0 1 := by
    norm_num [none, ACCEPTED, RK4_SAFETY, RK4_PRECISION]
  have keeps : KeepsSlope spike 0 2 10 := by
    refine fun _ => ⟨same, ?_⟩
    rw [shorter]
    exact fun rejected => absurd rejected accepted
  have ran : rk4 (· ^ ·) 2 spike 0 10 = some ⟨1, rk4Core spike 0 (spike 0) 1,
      nextStep (· ^ ·) 1 (stepError spike 0 1)⟩ := by
    rw [rk4, rk4Tries_succ, shorter, if_pos (by norm_num), same, rk4Tries_succ, if_neg]
    rwa [nextStep_lt_iff one_pos none.ge]
  exact ⟨_, ran, rfl, rk4_classical (by norm_num) keeps ran⟩

end GpuHotSpot.HotSpotTool
