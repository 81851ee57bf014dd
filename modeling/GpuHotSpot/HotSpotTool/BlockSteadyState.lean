import GpuHotSpot.HotSpotTool.BlockConductances
import Mathlib.Algebra.Order.Ring.Rat

/-!
# The steady state of the block model

What the solver makes of the matrix of the block model.

* `divisors_ne_zero`: nothing is divided by zero.
* `populateRModelBlock_ok`: the decomposition is not stopped if the conductances from layer to
  layer and to ambient reach `DELTA`.
* `steadyState_sound`: the matrix and the temperatures.
-/

namespace GpuHotSpot.HotSpotTool.Block

open LinearSolver Fallible

variable {K : Type} [Field K] [LinearOrder K] {config : ThermalConfig K} {flp : List (Rect K)}

/-- Every unit and every side of the package conducts by at least `DELTA` to what is next on its
way to ambient. -/
structure Conductive (config : ThermalConfig K) (flp : List (Rect K)) : Prop where
  reaches : Reaches config flp (2 * DELTA)
  ambient : ∀ q, q < flp.length ∨ flp.length + SINK_C_W ≤ q → q < flp.length + EXTRA →
    DELTA ≤ gAmb config flp q

variable [IsStrictOrderedRing K]

/-! ## Divisors -/

theorem getrDivisors_pos {k t a : K} (conducts : 0 < k) (thick : 0 < t) (area : 0 < a) :
    ∀ d ∈ getrDivisors k t a, 0 < d := by
  simp only [getrDivisors, List.forall_mem_cons, List.not_mem_nil, false_imp_iff, implies_true,
    and_true]
  exact ⟨mul_pos conducts area, getr_pos conducts thick area⟩

theorem lumpedDivisors_pos {k t : K} {u : Rect K} (conducts : 0 < k) (thick : 0 < t)
    (size : 0 < u.width ∧ 0 < u.height) : ∀ d ∈ lumpedDivisors k t u, 0 < d := by
  simp only [lumpedDivisors, List.forall_mem_append]
  exact ⟨getrDivisors_pos conducts (half_pos size.1) (mul_pos size.2 thick),
    getrDivisors_pos conducts (half_pos size.2) (mul_pos size.1 thick)⟩

theorem borderDivisors_pos (atBorder : Rect K → Prop) [DecidablePred atBorder] {g : Rect K → K}
    {r : K} (positive : ∀ u ∈ flp, 0 < g u) (resists : 0 < r) {u : Rect K} (member : u ∈ flp) :
    ∀ d ∈ borderDivisors flp atBorder g r u, 0 < d := by
  simp only [borderDivisors, List.forall_mem_cons, List.not_mem_nil, false_imp_iff, implies_true,
    and_true]
  exact ⟨positive u member, borderLink_divisor_pos atBorder positive resists member⟩

section Sound

variable (sound : Sound config flp)

include sound

/-- What is divided by for one unit. -/
theorem unitDivisors_pos {u : Rect K} (member : u ∈ flp) :
    ∀ d ∈ unitDivisors config flp u, 0 < d := by
  obtain ⟨tChip, tSink, tSpreader, tInterface, -, -, rConvec⟩ := sound.dimensions
  have size := sound.areas u member
  have area := mul_pos size.2 size.1
  have pk := sound.package_pos
  have xSp : ∀ u ∈ flp, 0 < gxSp config u := fun u m => (sound.spreader_pos u m).1
  have ySp : ∀ u ∈ flp, 0 < gySp config u := fun u m => (sound.spreader_pos u m).2
  have xHs : ∀ u ∈ flp, 0 < gxHs config u := fun u m => (sound.sink_pos u m).1
  have yHs : ∀ u ∈ flp, 0 < gyHs config u := fun u m => (sound.sink_pos u m).2
  have toAmbient := div_nonneg (mul_nonneg rConvec (mul_self_nonneg config.sSink)) area.le
  have both : ∀ {l l' : List K}, (∀ d ∈ l, 0 < d) → (∀ d ∈ l', 0 < d) → ∀ d ∈ l ++ l', 0 < d :=
    fun first second => List.forall_mem_append.2 ⟨first, second⟩
  refine both (both (both (both (both (both (both (both ?_ ?_) ?_) ?_) ?_) ?_) ?_) ?_) ?_
  refine both (both (both (both (both (both (both (both ?_ ?_) ?_) ?_) ?_) ?_) ?_) ?_) ?_
  · split_ifs
    · exact fun d none => absurd none List.not_mem_nil
    · exact lumpedDivisors_pos sound.kChip tChip size
  · exact lumpedDivisors_pos sound.kInterface tInterface size
  · exact lumpedDivisors_pos sound.kSpreader tSpreader size
  · exact lumpedDivisors_pos sound.kSink tSink size
  · simp only [List.forall_mem_cons, List.not_mem_nil, false_imp_iff, implies_true, and_true]
    exact ⟨size.2, size.1⟩
  · exact getrDivisors_pos sound.kChip tChip area
  · exact getrDivisors_pos sound.kInterface tInterface area
  · exact getrDivisors_pos sound.kSpreader tSpreader area
  · simp only [List.forall_mem_cons, List.not_mem_nil, false_imp_iff, implies_true, and_true]
    exact ⟨area, mul_pos sound.kSink area,
      add_pos_of_pos_of_nonneg (getr_pos sound.kSink tSink area) toAmbient⟩
  · exact borderDivisors_pos _ ySp pk.rSp1Y member
  · exact borderDivisors_pos _ ySp pk.rSp1Y member
  · exact borderDivisors_pos _ xSp pk.rSp1X member
  · exact borderDivisors_pos _ xSp pk.rSp1X member
  · exact borderDivisors_pos _ yHs pk.rHs1Y member
  · exact borderDivisors_pos _ yHs pk.rHs1Y member
  · exact borderDivisors_pos _ xHs pk.rHs1X member
  · exact borderDivisors_pos _ xHs pk.rHs1X member

/-- What is divided by for an element of the matrix. -/
theorem bDivisors_pos (i j : ℕ) : ∀ d ∈ bDivisors config flp i j, 0 < d := by
  rw [bDivisors]
  split_ifs with none
  · exact fun d none => absurd none List.not_mem_nil
  · rw [not_or] at none
    have there := lt_of_le_of_ne (g_nonneg sound i j) (Ne.symm none.1)
    have back := lt_of_le_of_ne (g_nonneg sound j i) (Ne.symm none.2)
    simp only [List.forall_mem_cons, List.not_mem_nil, false_imp_iff, implies_true, and_true]
    exact ⟨there, back, add_pos (one_div_pos.mpr there) (one_div_pos.mpr back)⟩

/-- **Divisors.** Nothing is divided by zero. -/
theorem divisors_ne_zero : ∀ d ∈ divisors config flp, d ≠ 0 := by
  have pk := sound.package_pos
  suffices positive : ∀ d ∈ divisors config flp, 0 < d from fun d member => (positive d member).ne'
  simp only [divisors, List.forall_mem_append, List.forall_mem_flatMap]
  refine ⟨⟨⟨sound.packageDivisors_pos, fun u member => unitDivisors_pos sound member⟩, ?_⟩,
    fun i _ j _ => bDivisors_pos sound i j⟩
  simp only [List.forall_mem_cons, List.not_mem_nil, false_imp_iff, implies_true, and_true]
  exact ⟨pk.rSpPerY, pk.rSpPerX, add_pos pk.rHs pk.rHs2Y, add_pos pk.rHs pk.rHs2X,
    add_pos_of_pos_of_nonneg pk.rHsCPerY pk.rAmbCPerY,
    add_pos_of_pos_of_nonneg pk.rHsCPerX pk.rAmbCPerX,
    add_pos_of_pos_of_nonneg pk.rHsPer pk.rAmbPer⟩

end Sound

/-! ## Decomposition -/

/-- The conductance from a node to ambient: only the nodes of the sink have one. -/
def toAmbient (config : ThermalConfig K) (flp : List (Rect K)) (i : ℕ) : K :=
  if HSINK * flp.length ≤ i then gAmb config flp (i - HSINK * flp.length) else 0

omit [IsStrictOrderedRing K] in
theorem bGround_eq (i : ℕ) :
    bGround config flp i = toAmbient config flp i := by
  unfold bGround toAmbient HSINK NL SINK_C_W
  simp only
  split_ifs with core above outer above
  · congr 1
    rw [show i = i - 3 * flp.length + flp.length * 3 by omega, Nat.add_mul_mod_self_left,
      Nat.mod_eq_of_lt (by omega)]
    omega
  · omega
  · congr 1
    omega
  · omega
  · -- the sides of the spreader
    unfold gAmb SINK_C_N SINK_C_S SINK_C_E SINK_C_W SINK_N SINK_S SINK_E SINK_W
    simp only
    rw [if_neg (by omega), if_neg (by omega), if_neg (by omega), if_neg (by omega)]
  · rfl

section Sound

variable (sound : Sound config flp)

include sound

/-- Only zero potentials drive no currents. -/
theorem nonsingular_b : Nonsingular (b config flp) (nNodes flp) := by
  intro x none i inside
  refine (grounded_b sound).eq_of_apply_eq (y := fun _ => 0) (linked_b sound) ?_ i
    (Finset.mem_range.mpr inside)
  intro r member
  rw [none r (Finset.mem_range.mp member), (grounded_b sound).apply_const 0 member, zero_mul]

/-- Every node is connected well enough for the decomposition. -/
theorem sturdy_b (conductive : Conductive config flp) :
    Sturdy (b config flp) (bGround config flp) (nNodes flp) := by
  have some_unit := sound.length_pos
  have half : (2 * DELTA : K) / 2 = DELTA := mul_div_cancel_left₀ _ two_ne_zero
  intro k early
  have inside : k < NL * flp.length + 12 := by
    unfold nNodes EXTRA at early
    omega
  rcases Nat.lt_or_ge k (HSINK * flp.length) with block | sink
  · have resistor := (b_vertical sound conductive.reaches (Nat.div_lt_of_lt_mul
      (by rw [Nat.mul_comm]; exact block)) (Nat.mod_lt k some_unit)).2
    rw [Nat.div_add_mod', half, add_mul, add_right_comm, Nat.div_add_mod'] at resistor
    refine Or.inr ⟨k + 1 * flp.length, by omega, ?_, resistor⟩
    unfold nNodes HSINK NL at *
    omega
  · rcases Nat.lt_or_ge k (NL * flp.length + SINK_C_W) with core | outer
    · rcases Nat.lt_or_ge k (NL * flp.length) with unit | package
      · refine Or.inl ?_
        rw [bGround_eq, toAmbient, if_pos sink]
        unfold HSINK NL at *
        exact conductive.ambient _ (Or.inl (by omega)) (by omega)
      · obtain ⟨side, rfl⟩ := Nat.exists_eq_add_of_le package
        have resistor := (b_side sound conductive.reaches (Nat.lt_of_add_lt_add_left core)).2
        rw [half] at resistor
        refine Or.inr ⟨_, by omega, ?_, resistor⟩
        unfold nNodes EXTRA SINK_C_W at *
        omega
    · refine Or.inl ?_
      rw [bGround_eq, toAmbient, if_pos sink]
      unfold HSINK NL SINK_C_W at *
      refine conductive.ambient _ (Or.inr ?_) ?_
      · unfold SINK_C_W
        omega
      · unfold EXTRA
        omega

end Sound

/-! ## Temperatures -/

omit [IsStrictOrderedRing K] in
/-- The internal power: what ambient drives into the sink, and the power of the silicon. -/
theorem setInternalPowerBlock_eq (model : BlockModel K) (power : ℕ → K) (q : ℕ) :
    setInternalPowerBlock model power q =
      model.config.ambient * toAmbient model.config model.flp q +
        if q < model.flp.length then power q else 0 := by
  unfold setInternalPowerBlock toAmbient HSINK IFACE
  simp only
  split_ifs with sink silicon interface silicon
  · omega
  · rw [add_zero]
  · omega
  · rw [mul_zero, add_zero]
  · rw [mul_zero, zero_add]
  · omega

/-- What `populate_R_model_block` decomposes. -/
theorem populateRModelBlock_ok {model : BlockModel K}
    (populated : populateRModelBlock config flp = .ok model) :
    model.config = config ∧ model.flp = flp ∧
      Factors (b config flp) (nNodes flp) (nNodes flp - 1) model.lu := by
  rw [populateRModelBlock] at populated
  have factors := lupdcmp_factors (b config flp) (nNodes flp)
  split_ifs at populated
  split at populated
  · cases populated
  · rename_i lu decomposed
    rw [decomposed] at factors
    cases populated
    exact ⟨rfl, rfl, factors⟩

/-- The temperatures solve the equations of the nodes. -/
theorem steadyStateTempBlock_solves (sound : Sound config flp) {model : BlockModel K}
    (populated : populateRModelBlock config flp = .ok model) (power : ℕ → K) (r : ℕ)
    (inside : r < nNodes flp) :
    matApply (Finset.range (nNodes flp)) (b config flp) (steadyStateTempBlock model power) r =
      config.ambient * toAmbient config flp r + if r < flp.length then power r else 0 := by
  obtain ⟨sameConfig, sameFlp, factors⟩ := populateRModelBlock_ok populated
  have solves := factors.lusolve_solves (nonsingular_b sound) (setInternalPowerBlock model power)
  rw [← sameFlp, ← sameConfig, ← setInternalPowerBlock_eq, sameFlp, sameConfig,
    steadyStateTempBlock, sameFlp]
  exact solves r inside

/-- **Monotonicity.** More power lowers no temperature. -/
theorem steadyStateTempBlock_le (sound : Sound config flp) {model : BlockModel K}
    (populated : populateRModelBlock config flp = .ok model) {power power' : ℕ → K}
    (more : ∀ q < flp.length, power q ≤ power' q) (i : ℕ) (inside : i < nNodes flp) :
    steadyStateTempBlock model power i ≤ steadyStateTempBlock model power' i := by
  refine (grounded_b sound).le_of_apply_le (linked_b sound) (fun r member => ?_) i
    (Finset.mem_range.mpr inside)
  rw [steadyStateTempBlock_solves sound populated power r (Finset.mem_range.mp member),
    steadyStateTempBlock_solves sound populated power' r (Finset.mem_range.mp member)]
  refine add_le_add le_rfl ?_
  split_ifs with silicon
  · exact more r silicon
  · exact le_rfl

/-- Without power all temperatures are those of ambient. -/
theorem steadyStateTempBlock_off (sound : Sound config flp) {model : BlockModel K}
    (populated : populateRModelBlock config flp = .ok model) {power : ℕ → K}
    (off : ∀ q < flp.length, power q = 0) (i : ℕ) (inside : i < nNodes flp) :
    steadyStateTempBlock model power i = config.ambient := by
  refine (grounded_b sound).eq_of_apply_eq (y := fun _ => config.ambient) (linked_b sound) ?_ i
    (Finset.mem_range.mpr inside)
  intro r member
  rw [steadyStateTempBlock_solves sound populated power r (Finset.mem_range.mp member),
    (grounded_b sound).apply_const _ member, bGround_eq]
  split_ifs with unit
  · rw [off r unit, add_zero]
  · rw [add_zero]

omit [IsStrictOrderedRing K] in
/-- The program does not stop because of the sizes of the package. -/
theorem not_inordinate (sound : Sound config flp) : ¬ Inordinate config flp := by
  have spreader := sound.spreader
  have width := sound.width
  have height := sound.height
  simp only [Inordinate, not_or, not_lt]
  exact ⟨(width.trans spreader).le, (height.trans spreader).le, width.le, height.le⟩

/-- The decomposition succeeds if the conductances reach `DELTA`. -/
theorem exists_populated (sound : Sound config flp) (conductive : Conductive config flp) :
    ∃ model, populateRModelBlock config flp = .ok model := by
  obtain ⟨lu, decomposed⟩ := lupdcmp_ok (grounded_b sound) (sturdy_b sound conductive)
  refine ⟨⟨config, flp, lu⟩, ?_⟩
  rw [populateRModelBlock, if_neg (not_inordinate sound), decomposed]

/-- **The steady state.** If the materials conduct, and the die is smaller than the spreader and the
spreader smaller than the sink, then nothing is divided by zero and the matrix is symmetric, adds
up to the conductances to ambient and is positive definite. Without power all temperatures are
those of ambient, and what leaves to ambient is the power. Nothing but the check for singular
matrices stops the program, and not even that if the conductances reach `DELTA`. -/
theorem steadyState_sound (sound : Sound config flp) (power : ℕ → K) :
    (∀ d ∈ divisors config flp, d ≠ 0) ∧
    (∀ i < nNodes flp, ∀ j < nNodes flp, b config flp i j = b config flp j i) ∧ (∀ i < nNodes flp,
      ∑ j ∈ Finset.range (nNodes flp), b config flp i j = toAmbient config flp i) ∧
    (∀ x : ℕ → K, (∃ i < nNodes flp, x i ≠ 0) → 0 < ∑ i ∈ Finset.range (nNodes flp), x i *
        ∑ j ∈ Finset.range (nNodes flp), b config flp i j * x j) ∧
    (∀ model, populateRModelBlock config flp = .ok model → ((∀ q < flp.length, power q = 0) →
        ∀ i < nNodes flp, steadyStateTempBlock model power i = config.ambient) ∧
      ∑ i ∈ Finset.range (nNodes flp),
          toAmbient config flp i * (steadyStateTempBlock model power i - config.ambient) =
        ∑ q ∈ Finset.range flp.length, power q) ∧
    (∀ failure, populateRModelBlock config flp = .error failure → failure = .singularMatrix) ∧
    (Conductive config flp → ∃ model, populateRModelBlock config flp = .ok model) := by
  have grounded := grounded_b sound
  have ground : ∀ i, bGround config flp i = toAmbient config flp i := bGround_eq
  refine ⟨divisors_ne_zero sound, ?_, ?_, ?_, ?_, ?_, ?_⟩
  · exact fun i row j col => grounded.symmetric i (Finset.mem_range.mpr row) j
      (Finset.mem_range.mpr col)
  · intro i row
    rw [grounded.rowSum i (Finset.mem_range.mpr row), ground]
  · rintro x ⟨i, inside, nonzero⟩
    exact grounded.form_pos (linked_b sound) (Finset.mem_range.mpr inside) nonzero
  · intro model populated
    refine ⟨steadyStateTempBlock_off sound populated, ?_⟩
    have solved := steadyStateTempBlock_solves sound populated power
    generalize steadyStateTempBlock model power = temp at solved
    have total := grounded.sum_apply temp
    have within : Finset.range flp.length ⊆ Finset.range (nNodes flp) :=
      Finset.range_subset_range.mpr (by unfold nNodes NL EXTRA; omega)
    have silicon : ∑ r ∈ Finset.range (nNodes flp), (if r < flp.length then power r else 0) =
        ∑ q ∈ Finset.range flp.length, power q := by
      rw [← Finset.sum_subset within fun r _ outside => if_neg (by simpa using outside)]
      exact Finset.sum_congr rfl fun r member => if_pos (Finset.mem_range.mp member)
    rw [Finset.sum_congr rfl fun r member => solved r (Finset.mem_range.mp member),
      Finset.sum_add_distrib, silicon] at total
    simp only [ground] at total
    simp only [mul_sub, Finset.sum_sub_distrib]
    rw [← total, Finset.sum_congr rfl fun r _ => mul_comm config.ambient _]
    ring
  · intro failure failed
    rw [populateRModelBlock, if_neg (not_inordinate sound)] at failed
    split at failed
    · cases failed
      rfl
    · cases failed
  · exact exists_populated sound

/-- A package around a die of width and height one, all sizes but those given and all
conductivities but that of the silicon being one. -/
def plainConfig (kChip sSpreader sSink tSink : ℚ) : ThermalConfig ℚ where
  tChip := 1
  kChip := kChip
  rConvec := 0
  sSink := sSink
  tSink := tSink
  kSink := 1
  sSpreader := sSpreader
  tSpreader := 1
  kSpreader := 1
  tInterface := 1
  kInterface := 1
  ambient := 300
  blockOmitLateral := false

/-- A die of one unit. -/
def plainDie : List (Rect ℚ) := [⟨0, 0, 1, 1⟩]

theorem plainDie_sound : Sound (plainConfig 1 2 3 1) plainDie := by
  constructor <;> decide +kernel

theorem plainDie_conductive : Conductive (plainConfig 1 2 3 1) plainDie := by
  refine ⟨by constructor <;> decide +kernel, ?_⟩
  have ambient : ∀ q < plainDie.length + EXTRA, q < plainDie.length ∨
      plainDie.length + SINK_C_W ≤ q → DELTA ≤ gAmb (plainConfig 1 2 3 1) plainDie q := by
    decide +kernel
  exact fun q inSink inside => ambient q inside inSink

/-- Two units side by side. -/
def twoUnits : List (Rect ℚ) := [⟨0, 0, 1 / 2, 1⟩, ⟨1 / 2, 0, 1 / 2, 1⟩]

theorem twoUnits_sound : Sound (plainConfig 1 2 3 1) twoUnits := by
  constructor <;> decide +kernel

theorem twoUnits_conductive : Conductive (plainConfig 1 2 3 1) twoUnits := by
  refine ⟨by constructor <;> decide +kernel, ?_⟩
  have ambient : ∀ q < twoUnits.length + EXTRA, q < twoUnits.length ∨
      twoUnits.length + SINK_C_W ≤ q → DELTA ≤ gAmb (plainConfig 1 2 3 1) twoUnits q := by
    decide +kernel
  exact fun q inSink inside => ambient q inside inSink

/-- Two and three watts in the units on a spreader of two and a sink of three. -/
theorem steadyState_sound_twoUnits :
    ∃ model, populateRModelBlock (plainConfig 1 2 3 1) twoUnits = .ok model ∧
      ∑ i ∈ Finset.range (nNodes twoUnits), toAmbient (plainConfig 1 2 3 1) twoUnits i *
        (steadyStateTempBlock model (fun q => [2, 3].getD q 0) i - 300) = 5 := by
  obtain ⟨-, -, -, -, temperatures, -, starts⟩ :=
    steadyState_sound twoUnits_sound fun q => [2, 3].getD q 0
  obtain ⟨model, populated⟩ := starts twoUnits_conductive
  refine ⟨model, populated, (temperatures model populated).2.trans ?_⟩
  decide +kernel

/-- **Configurations that are accepted.** Silicon that does not conduct, a die as wide as the spreader
and a spreader as wide as the sink each lead to a division by zero; with a spreader wider than
the sink the matrix need not be positive definite; and with silicon that hardly conducts the
decomposition stops the program. -/
theorem accepted_unsound :
    ((plainConfig 0 2 3 1).Accepted ∧ ¬ Inordinate (plainConfig 0 2 3 1) plainDie ∧
      0 ∈ divisors (plainConfig 0 2 3 1) plainDie) ∧
    ((plainConfig 1 1 3 1).Accepted ∧ ¬ Inordinate (plainConfig 1 1 3 1) plainDie ∧
      0 ∈ divisors (plainConfig 1 1 3 1) plainDie) ∧
    ((plainConfig 1 2 2 1).Accepted ∧ ¬ Inordinate (plainConfig 1 2 2 1) plainDie ∧
      0 ∈ divisors (plainConfig 1 2 2 1) plainDie) ∧
    ((plainConfig 1 4 2 (1 / 10)).Accepted ∧ ¬ Inordinate (plainConfig 1 4 2 (1 / 10)) plainDie ∧
      b (plainConfig 1 4 2 (1 / 10)) plainDie 12 12 < 0) ∧
    ((plainConfig (1 / 10 ^ 9) 2 3 1).Accepted ∧
      ¬ Inordinate (plainConfig (1 / 10 ^ 9) 2 3 1) plainDie ∧
      (populateRModelBlock (plainConfig (1 / 10 ^ 9) 2 3 1) plainDie).toOption.isNone) := by
  decide +kernel

end GpuHotSpot.HotSpotTool.Block
