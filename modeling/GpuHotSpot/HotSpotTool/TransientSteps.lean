import Mathlib.Algebra.BigOperators.Fin
import Mathlib.Algebra.Order.Archimedean.Basic
import Mathlib.Analysis.SpecialFunctions.Pow.Real
import GpuHotSpot.HotSpotTool.Util
import GpuHotSpot.HotSpotTool.RungeKutta
import GpuHotSpot.Lib.Largest

/-!
# The steps of the transient solvers

`compute_temp_block`, and `compute_temp_grid` without SuperLU, advance the state by
`rk4` from the time zero to `time_elapsed`, starting with a step of `MIN_STEP`. The
step to try next is cut to the time that remains, except for the first one, and
the loop ends when it falls below `MIN_STEP * DELTA`, for whichever reason.

With SuperLU, `compute_temp_grid` makes one step of length `time_elapsed`.

* `integrate_terminates`: the loop ends if its calls of `rk4` return.
* `integrate_iff`: a run covers the interval if and only if no pass `Overshoots` or
  `GivesUp`.
-/

namespace GpuHotSpot.HotSpotTool

open scoped Literals

variable {K : Type*} [Field K] [LinearOrder K] {n : ℕ}

def MIN_STEP : K := 1 / 10 ^ 7

/-! ## The loop -/

/-- Where a pass of the loop starts: the time, the step to try, the temperatures. -/
structure PassStart (K : Type*) (n : ℕ) where
  t : K
  newH : K
  temp : Fin n → K

/-- A pass of the loop: where it starts and what the solver left. -/
structure Pass (K : Type*) (n : ℕ) extends PassStart K n where
  result : Rk4Result K n

/-- Why no result is known: a call of `rk4`, or the loop itself, ran longer than allowed. -/
inductive Unfinished where
  | rk4
  | loop
  deriving DecidableEq

/-- The start of the pass after one that ends with `r`. -/
def PassStart.next (timeElapsed : K) (s : PassStart K n) (r : Rk4Result K n) : PassStart K n :=
  ⟨s.t + r.h, min r.newH (timeElapsed - s.t - r.h), r.yout⟩

/-- The loop shared by the solvers, with its passes and the temperatures it leaves. -/
def integrate (pow : K → K → K) (tries : ℕ) (f : SlopeFn K (n + 1)) (timeElapsed : K) :
    ℕ → PassStart K (n + 1) → Except Unfinished (List (Pass K (n + 1)) × (Fin (n + 1) → K))
  | 0, _ => .error .loop
  | passes + 1, s =>
    if s.t < timeElapsed ∧ MIN_STEP * DELTA ≤ s.newH then
      match rk4 pow tries f s.temp s.newH with
      | none => .error .rk4
      | some r =>
        (integrate pow tries f timeElapsed passes (s.next timeElapsed r)).map
          fun later => (⟨s, r⟩ :: later.1, later.2)
    else .ok ([], s.temp)

/-- The start of the loop. -/
def PassStart.first (temp : Fin n → K) : PassStart K n := ⟨0, MIN_STEP, temp⟩

/-! ## The solvers -/

/-- The RC network of the block model: the silicon, interface, spreader and sink nodes of
`nUnits` blocks each, and twelve package nodes. -/
structure BlockModel (K : Type*) (nUnits : ℕ) where
  inva : Fin (4 * nUnits + 12) → K
  c : Fin (4 * nUnits + 12) → Fin (4 * nUnits + 12) → K
  gAmb : Fin (nUnits + 12) → K
  ambient : K

variable {nUnits : ℕ}

/-- The power of the nodes behind the silicon. -/
def setInternalPowerBlock (model : BlockModel K nUnits) (power : Fin (4 * nUnits + 12) → K) :
    Fin (4 * nUnits + 12) → K :=
  fun i =>
    if i.val < nUnits then power i
    else if h : i.val < 3 * nUnits then 0
    else model.ambient * model.gAmb ⟨i.val - 3 * nUnits, by omega⟩

def slopeFnBlock (model : BlockModel K nUnits) (p : Fin (4 * nUnits + 12) → K) :
    SlopeFn K (4 * nUnits + 12) :=
  fun y i => p i - ∑ j, model.c i j * y j

/-- The right hand side of the block model's equation. -/
def tVector (model : BlockModel K nUnits) (power : Fin (4 * nUnits + 12) → K) :
    Fin (4 * nUnits + 12) → K :=
  fun i => model.inva i * setInternalPowerBlock model power i

def computeTempBlock (pow : K → K → K) (tries passes : ℕ) (model : BlockModel K nUnits)
    (power temp : Fin (4 * nUnits + 12) → K) (timeElapsed : K) :
    Except Unfinished (List (Pass K (4 * nUnits + 12)) × (Fin (4 * nUnits + 12) → K)) :=
  integrate pow tries (slopeFnBlock model (tVector model power)) timeElapsed passes (.first temp)

/-- How the grid solver was built. With SuperLU it makes one step with `backward_euler`. -/
inductive Build (K : Type*) (n : ℕ) where
  | superlu (backwardEuler : (Fin n → K) → K → Fin n → K)
  | plain

/-- `compute_temp_grid` from the translated temperatures on, for the slope function of a grid
model with its power. -/
def computeTempGrid (pow : K → K → K) (tries passes : ℕ) (build : Build K (n + 1))
    (f : SlopeFn K (n + 1)) (lastTrans : Fin (n + 1) → K) (timeElapsed : K) :
    Except Unfinished (List (Pass K (n + 1)) × (Fin (n + 1) → K)) :=
  match build with
  | .superlu backwardEuler =>
    let temp := backwardEuler lastTrans timeElapsed
    .ok ([⟨⟨0, timeElapsed, lastTrans⟩, ⟨timeElapsed, temp, timeElapsed⟩⟩], temp)
  | .plain => integrate pow tries f timeElapsed passes (.first lastTrans)

/-! ## What integrating an interval means -/

/-- The passes start at the given time and temperatures, each where the one before it ended, and
the last one leaves `out`. -/
def Consecutive (out : Fin n → K) : K → (Fin n → K) → List (Pass K n) → Prop
  | _, temp, [] => out = temp
  | t, temp, pass :: later =>
    pass.t = t ∧ pass.temp = temp ∧ Consecutive out (t + pass.result.h) pass.result.yout later

/-- The time a run covers. -/
def covered (passes : List (Pass K n)) : K :=
  (passes.map fun pass => pass.result.h).sum

/-- The run advances by consecutive positive steps that cover the interval and not more. -/
structure IntegratesExactly (timeElapsed : K) (temp : Fin n → K)
    (run : List (Pass K n) × (Fin n → K)) : Prop where
  positive : ∀ pass ∈ run.1, 0 < pass.result.h
  consecutive : Consecutive run.2 0 temp run.1
  notPast : covered run.1 ≤ timeElapsed
  reached : timeElapsed - MIN_STEP * DELTA < covered run.1

/-- The first pass accepts a step longer than the interval. -/
def PassStart.Overshoots (pow : K → K → K) (tries : ℕ) (f : SlopeFn K (n + 1)) (timeElapsed : K)
    (s : PassStart K (n + 1)) : Prop :=
  s.t = 0 ∧ ∃ r, rk4 pow tries f s.temp s.newH = some r ∧ timeElapsed < r.h

/-- Accuracy control suggests a next step that the loop takes for the end of the interval. -/
def PassStart.GivesUp (pow : K → K → K) (tries : ℕ) (f : SlopeFn K (n + 1)) (timeElapsed : K)
    (s : PassStart K (n + 1)) : Prop :=
  ∃ r, rk4 pow tries f s.temp s.newH = some r ∧ r.newH < MIN_STEP * DELTA ∧
    MIN_STEP * DELTA ≤ timeElapsed - s.t - r.h

/-! ## Passes -/

variable {pow : K → K → K} {tries passes : ℕ} {f : SlopeFn K (n + 1)} {timeElapsed : K}
  {s : PassStart K (n + 1)} {run : List (Pass K (n + 1)) × (Fin (n + 1) → K)}

/-- A finished run either makes no pass, or a pass and then a finished run. -/
theorem integrate_succ_ok :
    integrate pow tries f timeElapsed (passes + 1) s = .ok run ↔
      (¬(s.t < timeElapsed ∧ MIN_STEP * DELTA ≤ s.newH) ∧ run = ([], s.temp)) ∨
      (s.t < timeElapsed ∧ MIN_STEP * DELTA ≤ s.newH) ∧ ∃ r later,
        rk4 pow tries f s.temp s.newH = some r ∧
        integrate pow tries f timeElapsed passes (s.next timeElapsed r) = .ok later ∧
        run = (⟨s, r⟩ :: later.1, later.2) := by
  by_cases more : s.t < timeElapsed ∧ MIN_STEP * DELTA ≤ s.newH
  · rw [integrate, if_pos more]
    cases accepted : rk4 pow tries f s.temp s.newH with
    | none => simp [more]
    | some r =>
      cases rest : integrate pow tries f timeElapsed passes (s.next timeElapsed r) with
      | error e => simp [Except.map, more, rest]
      | ok later => simp [Except.map, more, rest, eq_comm, -Prod.exists]
  · simp [integrate, more, eq_comm]

/-- What a pass records is what `rk4` left. -/
theorem integrate_accepted (finished : integrate pow tries f timeElapsed passes s = .ok run) :
    ∀ pass ∈ run.1, rk4 pow tries f pass.temp pass.newH = some pass.result := by
  induction passes generalizing s run with
  | zero => cases finished
  | succ passes ih =>
    rcases integrate_succ_ok.1 finished with ⟨-, rfl⟩ | ⟨-, r, later, accepted, rest, rfl⟩
    · simp
    · exact List.forall_mem_cons.mpr ⟨accepted, ih rest⟩

section Bounds

variable [IsStrictOrderedRing K] (pow_pos : ∀ x e, 0 < x → 0 < pow x e)
  (pow_le_one : ∀ x, 0 ≤ x → x ≤ 1 → pow x (1 / 4) ≤ 1)

theorem floor_pos : (0 : K) < MIN_STEP * DELTA := by
  simp only [MIN_STEP, DELTA]
  positivity

include pow_pos pow_le_one

/-- Every pass advances by a positive step, from where the one before it ended. -/
theorem integrate_advances (finished : integrate pow tries f timeElapsed passes s = .ok run) :
    (∀ pass ∈ run.1, 0 < pass.result.h) ∧ Consecutive run.2 s.t s.temp run.1 := by
  induction passes generalizing s run with
  | zero => cases finished
  | succ passes ih =>
    rcases integrate_succ_ok.1 finished with ⟨-, rfl⟩ | ⟨more, r, later, accepted, rest, rfl⟩
    · exact ⟨by simp, rfl⟩
    · have step := rk4_spec pow_pos pow_le_one (floor_pos.trans_le more.2) accepted
      have tail := ih rest
      exact ⟨List.forall_mem_cons.mpr ⟨step.1, tail.1⟩, rfl, rfl, tail.2⟩

/-- Once the step to try fits, the run does not pass the end of the interval. -/
theorem integrate_notPast (inside : s.t ≤ timeElapsed) (fits : s.newH ≤ timeElapsed - s.t)
    (finished : integrate pow tries f timeElapsed passes s = .ok run) :
    s.t + covered run.1 ≤ timeElapsed := by
  induction passes generalizing s run with
  | zero => cases finished
  | succ passes ih =>
    rcases integrate_succ_ok.1 finished with ⟨-, rfl⟩ | ⟨more, r, later, accepted, rest, rfl⟩
    · simpa [covered] using inside
    · have step := rk4_spec pow_pos pow_le_one (floor_pos.trans_le more.2) accepted
      have tail := ih (by simp only [PassStart.next]; linarith)
        ((min_le_right _ _).trans (by simp only [PassStart.next]; linarith)) rest
      simp only [covered, PassStart.next, List.map_cons, List.sum_cons] at tail ⊢
      linarith

omit pow_pos pow_le_one in
/-- Unless a pass gives up, the loop ends near the end of the interval. -/
theorem integrate_reached (short : s.newH < MIN_STEP * DELTA → timeElapsed - s.t < MIN_STEP * DELTA)
    (finished : integrate pow tries f timeElapsed passes s = .ok run)
    (goesOn : ∀ pass ∈ run.1, ¬pass.GivesUp pow tries f timeElapsed) :
    timeElapsed - MIN_STEP * DELTA < s.t + covered run.1 := by
  induction passes generalizing s run with
  | zero => cases finished
  | succ passes ih =>
    rcases integrate_succ_ok.1 finished with ⟨stopped, rfl⟩ | ⟨more, r, later, accepted, rest, rfl⟩
    · have small : (0 : K) < MIN_STEP * DELTA := floor_pos
      rw [covered, List.map_nil, List.sum_nil, add_zero]
      rcases not_and_or.mp stopped with past | tooShort
      · linarith
      · linarith [short (lt_of_not_ge tooShort)]
    · have goes := goesOn ⟨s, r⟩ List.mem_cons_self
      have short' : (s.next timeElapsed r).newH < MIN_STEP * DELTA →
          timeElapsed - (s.next timeElapsed r).t < MIN_STEP * DELTA := by
        intro small
        rcases min_lt_iff.mp small with suggested | left
        · have kept := fun left => goes ⟨r, accepted, suggested, left⟩
          have := lt_of_not_ge kept
          simp only [PassStart.next]
          linarith
        · simp only [PassStart.next]
          linarith
      have tail := ih short' rest fun pass member => goesOn pass (List.mem_cons_of_mem _ member)
      simp only [covered, PassStart.next, List.map_cons, List.sum_cons] at tail ⊢
      linarith

omit pow_pos pow_le_one in
/-- The loop ends behind a pass that gives up, with part of the interval left. -/
theorem integrate_givenUp (finished : integrate pow tries f timeElapsed passes s = .ok run)
    {pass : Pass K (n + 1)} (member : pass ∈ run.1)
    (givesUp : pass.GivesUp pow tries f timeElapsed) :
    s.t + covered run.1 ≤ timeElapsed - MIN_STEP * DELTA := by
  induction passes generalizing s run with
  | zero => cases finished
  | succ passes ih =>
    rcases integrate_succ_ok.1 finished with ⟨-, rfl⟩ | ⟨more, r, later, accepted, rest, rfl⟩
    · simp at member
    · rcases List.mem_cons.mp member with rfl | behind
      · obtain ⟨r', same, suggested, left⟩ := givesUp
        obtain rfl : r = r' := by simpa [accepted] using same
        have ends : later.1 = [] := by
          cases passes with
          | zero => cases rest
          | succ passes =>
            rcases integrate_succ_ok.1 rest with ⟨-, rfl⟩ | ⟨again, -⟩
            · rfl
            · exact absurd ((min_lt_of_left_lt suggested).trans_le again.2) (lt_irrefl _)
        simp only [covered, ends, List.map_cons, List.map_nil, List.sum_cons, List.sum_nil]
        linarith
      · have tail := ih rest behind
        simp only [covered, PassStart.next, List.map_cons, List.sum_cons] at tail ⊢
        linarith

/-- A pass that does not give up advances by a fifth of `MIN_STEP * DELTA`, so few passes are
left when little of the interval is. -/
theorem integrate_ne_loop (left : ℕ)
    (close : timeElapsed - s.t ≤ left * (MIN_STEP * DELTA / RK4_MAXUP)) :
    integrate pow tries f timeElapsed (left + 2) s ≠ .error .loop := by
  have stops : ∀ {s : PassStart K (n + 1)} (k : ℕ),
      ¬(s.t < timeElapsed ∧ MIN_STEP * DELTA ≤ s.newH) →
      integrate pow tries f timeElapsed (k + 1) s ≠ .error .loop := by
    intro s k stopped
    simp [integrate, stopped]
  induction left generalizing s with
  | zero =>
    refine stops 1 fun more => ?_
    rw [Nat.cast_zero, zero_mul] at close
    linarith [more.1]
  | succ left ih =>
    by_cases more : s.t < timeElapsed ∧ MIN_STEP * DELTA ≤ s.newH
    · rw [integrate, if_pos more]
      cases accepted : rk4 pow tries f s.temp s.newH with
      | none => simp
      | some r =>
        have step := rk4_spec pow_pos pow_le_one (floor_pos.trans_le more.2) accepted
        have later : integrate pow tries f timeElapsed (left + 2) (s.next timeElapsed r) ≠
            .error .loop := by
          by_cases suggested : r.newH < MIN_STEP * DELTA
          · refine stops (left + 1) fun again => ?_
            exact absurd ((min_lt_of_left_lt suggested).trans_le again.2) (lt_irrefl _)
          · apply ih
            have long : MIN_STEP * DELTA / RK4_MAXUP ≤ r.h := by
              rw [div_le_iff₀ (by norm_num [RK4_MAXUP]), mul_comm r.h]
              exact (le_of_not_gt suggested).trans step.2.2.2
            simp only [PassStart.next]
            push_cast at close
            linarith
        dsimp only
        cases outcome : integrate pow tries f timeElapsed (left + 2) (s.next timeElapsed r) with
        | ok run => simp [Except.map]
        | error e =>
          intro failed
          rw [Except.error.inj failed] at outcome
          exact later outcome
    · exact stops (left + 2) more

/-- **The loop ends**, or a call of `rk4` takes more tries than allowed. -/
theorem integrate_terminates [Archimedean K] (tries : ℕ) (f : SlopeFn K (n + 1))
    (timeElapsed : K) (s : PassStart K (n + 1)) :
    ∃ passes, integrate pow tries f timeElapsed passes s ≠ .error .loop := by
  obtain ⟨left, enough⟩ := Archimedean.arch (timeElapsed - s.t)
    (show (0 : K) < MIN_STEP * DELTA / RK4_MAXUP from
      div_pos floor_pos (by norm_num [RK4_MAXUP]))
  rw [nsmul_eq_mul] at enough
  exact ⟨left + 2, integrate_ne_loop pow_pos pow_le_one left enough⟩

/-- **A finished run covers the interval** if and only if its first pass does not overshoot and
no pass gives up. -/
theorem integrate_iff {temp : Fin (n + 1) → K} (positive : 0 < timeElapsed)
    (finished : integrate pow tries f timeElapsed passes (.first temp) = .ok run) :
    IntegratesExactly timeElapsed temp run ↔ ∀ pass ∈ run.1,
      ¬pass.Overshoots pow tries f timeElapsed ∧ ¬pass.GivesUp pow tries f timeElapsed := by
  obtain ⟨steps, consecutive⟩ := integrate_advances pow_pos pow_le_one finished
  have accepted := integrate_accepted finished
  constructor
  · intro exactly pass member
    refine ⟨fun overshoots => ?_, fun givesUp => ?_⟩
    · obtain ⟨-, r, same, long⟩ := overshoots
      obtain rfl : pass.result = r := by simpa [accepted pass member] using same
      have part : pass.result.h ≤ covered run.1 :=
        List.single_le_sum (by simpa using fun p m => (steps p m).le) _
          (List.mem_map_of_mem member)
      exact absurd (part.trans exactly.notPast) (not_le_of_gt long)
    · have ended := integrate_givenUp finished member givesUp
      rw [PassStart.first, zero_add] at ended
      exact absurd exactly.reached (not_lt_of_ge ended)
  · intro allowed
    refine ⟨steps, consecutive, ?_, ?_⟩
    · cases passes with
      | zero => cases finished
      | succ passes =>
        rcases integrate_succ_ok.1 finished with ⟨-, rfl⟩ | ⟨more, r, later, first, rest, rfl⟩
        · simpa [covered] using positive.le
        · have fits : r.h ≤ timeElapsed := by
            by_contra long
            exact (allowed _ List.mem_cons_self).1 ⟨rfl, r, first, lt_of_not_ge long⟩
          have tail := integrate_notPast pow_pos pow_le_one
            (by simpa [PassStart.next, PassStart.first] using fits)
            ((min_le_right _ _).trans (by simp [PassStart.next, PassStart.first])) rest
          simpa [covered, PassStart.next, PassStart.first] using tail
    · have reached := integrate_reached (fun short => ?_) finished fun pass member =>
        (allowed pass member).2
      · simpa [PassStart.first] using reached
      · simp only [PassStart.first, MIN_STEP, DELTA] at short
        norm_num at short

end Bounds

/-! ## The two solvers -/

theorem rpow_quarter_le_one (x : ℝ) (nonneg : 0 ≤ x) (small : x ≤ 1) : x ^ (1 / 4 : ℝ) ≤ 1 :=
  Real.rpow_le_one nonneg small (by norm_num)

/-- No pass overshoots or gives up. -/
def StepsFit (tries : ℕ) (f : SlopeFn ℝ (n + 1)) (timeElapsed : ℝ) (passes : List (Pass ℝ (n + 1))) :
    Prop :=
  ∀ pass ∈ passes, ¬pass.Overshoots (· ^ ·) tries f timeElapsed ∧
    ¬pass.GivesUp (· ^ ·) tries f timeElapsed

/-- **Integrating an interval.** The solvers end unless a call of `rk4` does not. A finished run
covers the interval by consecutive positive steps if and only if the solver makes one step, or
no pass overshoots or gives up. -/
theorem computeTemp_iff {timeElapsed : ℝ} (positive : 0 < timeElapsed) (tries : ℕ) :
    (∀ nUnits (model : BlockModel ℝ nUnits) (power temp : Fin (4 * nUnits + 12) → ℝ),
      (∃ passes, computeTempBlock (· ^ ·) tries passes model power temp timeElapsed ≠
        .error .loop) ∧
      ∀ passes run, computeTempBlock (· ^ ·) tries passes model power temp timeElapsed = .ok run →
        (IntegratesExactly timeElapsed temp run ↔
          StepsFit tries (slopeFnBlock model (tVector model power)) timeElapsed run.1)) ∧
    ∀ n (build : Build ℝ (n + 1)) (f : SlopeFn ℝ (n + 1)) (lastTrans : Fin (n + 1) → ℝ),
      (∃ passes, computeTempGrid (· ^ ·) tries passes build f lastTrans timeElapsed ≠
        .error .loop) ∧
      ∀ passes run, computeTempGrid (· ^ ·) tries passes build f lastTrans timeElapsed = .ok run →
        (IntegratesExactly timeElapsed lastTrans run ↔
          (∃ backwardEuler, build = .superlu backwardEuler) ∨
            StepsFit tries f timeElapsed run.1) := by
  have pow_pos : ∀ x e : ℝ, 0 < x → 0 < x ^ e := fun x e above => Real.rpow_pos_of_pos above e
  refine ⟨fun nUnits model power temp => ⟨?_, fun passes run finished => ?_⟩,
    fun n build f lastTrans => ⟨?_, fun passes run finished => ?_⟩⟩
  · exact integrate_terminates pow_pos rpow_quarter_le_one tries _ timeElapsed _
  · exact integrate_iff pow_pos rpow_quarter_le_one positive finished
  · cases build with
    | superlu backwardEuler => exact ⟨0, by simp [computeTempGrid]⟩
    | plain => exact integrate_terminates pow_pos rpow_quarter_le_one tries _ timeElapsed _
  · cases build with
    | superlu backwardEuler =>
      cases finished
      refine iff_of_true ⟨by simpa using positive, ⟨rfl, rfl, rfl⟩, ?_, ?_⟩
        (.inl ⟨backwardEuler, rfl⟩)
      · simp [covered]
      · simpa [covered] using floor_pos
    | plain =>
      rw [integrate_iff pow_pos rpow_quarter_le_one positive finished]
      simp [StepsFit]

/-! ## A state at rest -/

theorem maxDiff_le_iff {a b : Fin (n + 1) → K} {bound : K} :
    maxDiff a b ≤ bound ↔ ∀ i, |a i - b i| ≤ bound := by
  rw [maxDiff, foldl_max_le_iff, Fin.forall_fin_succ]
  simp [List.mem_ofFn]

theorem maxDiff_nonneg [IsStrictOrderedRing K] (a b : Fin (n + 1) → K) : 0 ≤ maxDiff a b :=
  (abs_nonneg _).trans (maxDiff_le_iff.1 le_rfl 0)

/-- From a state at rest the first try is accepted, and the next step is to be longer. -/
theorem rk4_rest [IsStrictOrderedRing K] {y : Fin (n + 1) → K} (rest : f y = 0) {h : K}
    (positive : 0 < h) : rk4 pow (tries + 1) f y h = some ⟨h, y, RK4_MAXUP * h⟩ := by
  have core : ∀ h', rk4Core f y 0 h' = y := by
    intro h'
    funext i
    simp [rk4Core, rest]
  have next : nextStep pow h (maxDiff y y) = RK4_MAXUP * h := by
    have none : maxDiff y y = 0 :=
      le_antisymm (maxDiff_le_iff.2 fun i => by simp) (maxDiff_nonneg y y)
    rw [nextStep, if_pos (by rw [none]; norm_num [RK4_PRECISION]), if_pos none]
  have longer : ¬RK4_MAXUP * h < h := by
    simp only [RK4_MAXUP]
    linarith
  simp [rk4, rk4Tries, rest, core, next, longer]

/-- From a state at rest the first pass makes a step of `MIN_STEP`, however short the interval. -/
theorem integrate_rest [IsStrictOrderedRing K] {temp : Fin (n + 1) → K} (rest : f temp = 0)
    (positive : 0 < timeElapsed) (short : timeElapsed ≤ MIN_STEP) :
    integrate pow (tries + 1) f timeElapsed 2 (.first temp) =
      .ok ([⟨.first temp, ⟨MIN_STEP, temp, RK4_MAXUP * MIN_STEP⟩⟩], temp) := by
  have step : (0 : K) < MIN_STEP := by norm_num [MIN_STEP]
  have goes : (0 : K) < timeElapsed ∧ (MIN_STEP : K) * DELTA ≤ MIN_STEP := by
    refine ⟨positive, ?_⟩
    norm_num [MIN_STEP, DELTA]
  simp [integrate, PassStart.first, PassStart.next, goes, rk4_rest rest step, Except.map,
    not_lt_of_ge short]

/-- One block, with the nodes behind it: the silicon, interface and spreader nodes lead to one of
the package nodes; the sink and the package nodes lead to ambient. -/
def oneBlockConductance (i j : Fin 16) : ℤ :=
  if i = j then (if i = 15 then 4 else 1)
  else if (i < 3 ∧ j = 15) ∨ (i = 15 ∧ j < 3) then -1 else 0

def oneBlockModel : BlockModel ℝ 1 where
  inva := 1
  c := fun i j => oneBlockConductance i j
  gAmb := 1
  ambient := 318

theorem oneBlockModel_rest :
    slopeFnBlock oneBlockModel (tVector oneBlockModel 0) (fun _ => 318) = 0 := by
  have rows : ∀ i, ∑ j, oneBlockConductance i j = if i < 3 then 0 else 1 := by decide
  funext i
  have row : ∑ j, (oneBlockConductance i j : ℝ) = if i < 3 then 0 else 1 := by
    rw [← Int.cast_sum, rows i]
    split <;> simp
  have power : tVector oneBlockModel 0 i = if i < 3 then 0 else 318 := by
    fin_cases i <;> simp [tVector, setInternalPowerBlock, oneBlockModel]
  rw [slopeFnBlock, power]
  simp only [oneBlockModel, ← Finset.sum_mul, row]
  split <;> simp

/-- Without power and at ambient temperature, an interval of ten nanoseconds is integrated over
a hundred. -/
theorem oneBlockModel_overshoots :
    ∃ run, computeTempBlock (· ^ ·) 1 2 oneBlockModel 0 (fun _ => 318) (1 / 10 ^ 8) = .ok run ∧
      covered run.1 = 1 / 10 ^ 7 ∧ ¬IntegratesExactly (1 / 10 ^ 8) (fun _ => 318) run := by
  refine ⟨_, integrate_rest oneBlockModel_rest (by norm_num) (by norm_num [MIN_STEP]), ?_, ?_⟩
  · simp [covered, MIN_STEP]
  · intro exactly
    have notPast := exactly.notPast
    norm_num [covered, MIN_STEP] at notPast

/-- The same state over an interval of `MIN_STEP`: the one pass fits, and covers it. -/
theorem computeTemp_iff_oneBlock :
    ∃ run, computeTempBlock (· ^ ·) 1 2 oneBlockModel 0 (fun _ => 318) (1 / 10 ^ 7) = .ok run ∧
      IntegratesExactly (1 / 10 ^ 7) (fun _ => 318) run := by
  refine ⟨_, integrate_rest oneBlockModel_rest (by norm_num) (by norm_num [MIN_STEP]), ?_⟩
  refine (((computeTemp_iff (by norm_num) 1).1 1 oneBlockModel 0 (fun _ => 318)).2 2 _
    (integrate_rest oneBlockModel_rest (by norm_num) (by norm_num [MIN_STEP]))).mpr ?_
  intro pass member
  obtain rfl := List.mem_singleton.mp member
  have accepted : rk4 (· ^ ·) 1 (slopeFnBlock oneBlockModel (tVector oneBlockModel 0))
      (fun _ => 318) (MIN_STEP : ℝ) = some ⟨MIN_STEP, fun _ => 318, RK4_MAXUP * MIN_STEP⟩ :=
    rk4_rest oneBlockModel_rest (by norm_num [MIN_STEP])
  refine ⟨fun overshoots => ?_, fun givesUp => ?_⟩
  · obtain ⟨-, r, same, long⟩ := overshoots
    cases Option.some.inj (accepted.symm.trans same)
    norm_num [MIN_STEP] at long
  · obtain ⟨r, same, short, -⟩ := givesUp
    cases Option.some.inj (accepted.symm.trans same)
    norm_num [MIN_STEP, DELTA, RK4_MAXUP] at short

end GpuHotSpot.HotSpotTool
