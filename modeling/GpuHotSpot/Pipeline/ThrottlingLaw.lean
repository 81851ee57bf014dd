import GpuHotSpot.Pipeline.Feedback

/-!
# The throttling law

What `ThrottlingPolicy` promises for a bank at each temperature, and what `_apply_throttle` makes
of it. The constructor accepts every pair of thresholds. Where the span between the two is
positive the law holds, whatever action comes in; where it is not, `evaluate` hands that action
back as it is.

* `throttling_law`: the two cases, for each argument list of the constructor.
-/

namespace GpuHotSpot.Pipeline

open scoped Literals

variable {K : Type*} [ExactFloat K] {p : ThrottlingPolicy K}

/-! ## The law -/

/-- Each bank gets a factor in `[0, 1]`, zero from `critical_temp` on, one below both thresholds
and no larger for a hotter bank; its count goes down to one between zero and what it was, however
products are rounded, if the count is a float itself. -/
structure ThrottlingPolicy.Law (p : ThrottlingPolicy K) (currentAction : Option (DTMAction K)) :
    Prop where
  bounds : ∀ T b, (p.evaluate T currentAction).throttleFactors b ∈ Set.Icc 0 1
  critical : ∀ T b, p.criticalTemp ≤ T b → (p.evaluate T currentAction).throttleFactors b = 0
  below : ∀ T b, T b < p.throttleTemp → T b < p.criticalTemp →
    (p.evaluate T currentAction).throttleFactors b = 1
  antitone : ∀ T T' b, T b ≤ T' b →
    (p.evaluate T' currentAction).throttleFactors b ≤
      (p.evaluate T currentAction).throttleFactors b
  counts : ∀ fl : K → K, Monotone fl → fl 0 = 0 →
    ∀ T (counts : List ℤ) (b : Bank) (c : ℤ), counts[(b : ℕ)]? = some c → 0 ≤ c → fl c = c →
      ∃ c', (applyThrottle fl (p.evaluate T currentAction).throttleFactors counts)[(b : ℕ)]? =
        some c' ∧ 0 ≤ c' ∧ c' ≤ c

/-! ## A positive span -/

/-- Every bank is assigned its own factor. -/
theorem ThrottlingPolicy.evaluate_factors (span : p.throttleTemp < p.criticalTemp) (T : Bank → K)
    (currentAction : Option (DTMAction K)) :
    (p.evaluate T currentAction).throttleFactors = fun b => p.factor (T b) := by
  have positive : ¬ p.criticalTemp - p.throttleTemp ≤ 0 := not_le.mpr (sub_pos.mpr span)
  rw [evaluate, if_neg positive]

theorem ThrottlingPolicy.factor_le_one (span : p.throttleTemp < p.criticalTemp) (t : K) :
    p.factor t ≤ 1 := by
  have cool : p.factor (min t (p.throttleTemp - 1)) = 1 := by
    have below : min t (p.throttleTemp - 1) < p.throttleTemp :=
      (min_le_right _ _).trans_lt (sub_one_lt _)
    rw [factor, if_neg (not_le.mpr (below.trans span)), if_neg (not_le.mpr below)]
  exact cool ▸ ThrottlingPolicy.factor_antitone span (min_le_left _ _)

/-- A factor of at most one leaves a count between zero and what it was. -/
theorem pyInt_mul_mem_Icc {fl : K → K} (mono : Monotone fl) (zero : fl 0 = 0) {c : ℤ} {f : K}
    (count : 0 ≤ c) (isFloat : fl c = c) (share : f ∈ Set.Icc 0 1) :
    pyInt (fl (fl c * f)) ∈ Set.Icc 0 c := by
  have countNonneg : (0 : K) ≤ c := by exact_mod_cast count
  have scaled : 0 ≤ fl (c * f) := by
    rw [← zero]
    exact mono (mul_nonneg countNonneg share.1)
  have below : fl (c * f) ≤ c := by
    calc fl (c * f) ≤ fl c := mono (mul_le_of_le_one_right countNonneg share.2)
      _ = c := isFloat
  rw [isFloat]
  refine ⟨pyInt_nonneg scaled, ?_⟩
  calc pyInt (fl (c * f)) ≤ pyInt (c : K) := pyInt_mono_of_nonneg scaled below
    _ = c := by rw [pyInt_of_nonneg countNonneg, Int.floor_intCast]

theorem ThrottlingPolicy.law_of_span (span : p.throttleTemp < p.criticalTemp)
    (currentAction : Option (DTMAction K)) : p.Law currentAction := by
  have shares (t : K) : p.factor t ∈ Set.Icc 0 1 := ⟨p.factor_nonneg t, factor_le_one span t⟩
  constructor
  all_goals simp only [evaluate_factors span]
  case bounds => exact fun T b => shares (T b)
  case critical =>
    intro T b hot
    rw [factor, if_pos hot]
  case below =>
    intro T b cool notCritical
    rw [factor, if_neg (not_le.mpr notCritical), if_neg (not_le.mpr cool)]
  case antitone => exact fun T T' b le => factor_antitone span le
  case counts =>
    intro fl mono zero T counts b c count nonneg isFloat
    rw [applyThrottle_getElem?, count]
    exact ⟨_, rfl, pyInt_mul_mem_Icc mono zero nonneg isFloat (shares (T b))⟩

/-! ## Every pair of thresholds -/

/-- **The throttling law.** It holds for each pair of thresholds in order, wherever the two come
from and whatever action comes in; a pair out of order throttles nothing: the action that comes in,
or a fresh one, goes out. -/
theorem throttling_law (cfg : PipelineConfig K) (throttleTemp criticalTemp : Option K)
    (currentAction : Option (DTMAction K)) :
    ((ThrottlingPolicy.new cfg throttleTemp criticalTemp).throttleTemp <
        (ThrottlingPolicy.new cfg throttleTemp criticalTemp).criticalTemp →
      (ThrottlingPolicy.new cfg throttleTemp criticalTemp).Law currentAction) ∧
    ((ThrottlingPolicy.new cfg throttleTemp criticalTemp).criticalTemp ≤
        (ThrottlingPolicy.new cfg throttleTemp criticalTemp).throttleTemp →
      ∀ T, (ThrottlingPolicy.new cfg throttleTemp criticalTemp).evaluate T currentAction =
        currentAction.getD .init) := by
  refine ⟨fun span => ThrottlingPolicy.law_of_span span currentAction, fun outOfOrder T => ?_⟩
  rw [ThrottlingPolicy.evaluate, if_pos (sub_nonpos.mpr outOfOrder)]

/-- Rounding to doubles up to `2 ^ 54`: from `2 ^ 53` on they are the even integers. -/
def toDouble (x : K) : K := if x ≤ 2 ^ 53 then x else 2 * roundHalfEven (x / 2)

theorem applyThrottle_toDouble :
    (applyThrottle toDouble (fun _ => (1 : ℝ)) (List.replicate numBanks 9007199254740995))[
      ((0 : Bank) : ℕ)]? = some 9007199254740996 := by
  have up : toDouble ((9007199254740995 : ℤ) : ℝ) = 9007199254740996 := by
    have tie : roundHalfEven (((9007199254740995 : ℤ) : ℝ) / 2) = 4503599627370498 :=
      roundHalfEven_eq_iff.2 ⟨by norm_num [abs_of_neg], fun _ => by decide⟩
    rw [toDouble, if_neg (by norm_num), tie]
    norm_num
  have stays : toDouble (9007199254740996 : ℝ) = 9007199254740996 := by
    have whole : (9007199254740996 : ℝ) / 2 = ((4503599627370498 : ℤ) : ℝ) := by norm_num
    rw [toDouble, if_neg (by norm_num), whole, roundHalfEven_intCast]
    norm_num
  rw [applyThrottle_getElem?, List.getElem?_replicate, if_pos (by decide), Option.map_some, up,
    mul_one, stays, pyInt_of_nonneg (by norm_num)]
  norm_num

/-- A throttle temperature of 90 against the shipped critical temperature of 85: a bank at 95 keeps
all its accesses.  A factor of 1 makes one more of a count that is no double. -/
theorem not_law_of_high_throttleTemp :
    ¬ (ThrottlingPolicy.new (.default []) (some 90) none : ThrottlingPolicy ℝ).Law none ∧
      (applyThrottle toDouble (fun _ => (1 : ℝ)) (List.replicate numBanks 9007199254740995))[
        ((0 : Bank) : ℕ)]? = some 9007199254740996 := by
  refine ⟨?_, applyThrottle_toDouble⟩
  have throttle : (ThrottlingPolicy.new (.default []) (some 90) none :
      ThrottlingPolicy ℝ).throttleTemp = 90 := by
    rw [ThrottlingPolicy.new, Option.filter_some_pos (by norm_num), Option.getD_some]
  have critical : (ThrottlingPolicy.new (.default []) (some 90) none :
      ThrottlingPolicy ℝ).criticalTemp = 85 := by
    simp only [ThrottlingPolicy.new, PipelineConfig.default, Option.filter_none, Option.getD_none]
    norm_num
  intro law
  have blocked := law.critical (fun _ => 95) 0 (by rw [critical]; norm_num)
  rw [ThrottlingPolicy.evaluate, if_pos (by rw [throttle, critical]; norm_num)] at blocked
  exact one_ne_zero blocked

end GpuHotSpot.Pipeline
