import GpuHotSpot.Pipeline.LowPowerMode

/-!
# Negative feedback

Two evaluations of one policy, from temperatures `T` and from temperatures `T'`
that are nowhere lower. `DTMAction.Le` says that an action is at most as permissive
as another; each policy turns hotter temperatures into such an action, whatever
comparable actions it is handed, and the power model turns such an action into a
power row that is nowhere higher.
-/

namespace GpuHotSpot.Pipeline

open scoped Literals

variable {K : Type*} [ExactFloat K]

/-- `a` permits at most what `a'` permits. -/
structure DTMAction.Le (a a' : DTMAction K) : Prop where
  throttle_nonneg : ∀ b, 0 ≤ a.throttleFactors b
  throttle_le : ∀ b, a.throttleFactors b ≤ a'.throttleFactors b
  freq_nonneg : 0 ≤ a.freqScale
  freq_le : a.freqScale ≤ a'.freqScale
  volt_nonneg : 0 ≤ a.voltageScale
  volt_le : a.voltageScale ≤ a'.voltageScale
  lpm_subset : a'.lpmChannels ⊆ a.lpmChannels
  consistent : a.Consistent
  consistent' : a'.Consistent

theorem DTMAction.Le.init : (DTMAction.init : DTMAction K).Le .init where
  throttle_nonneg := fun _ => zero_le_one
  throttle_le := fun _ => le_rfl
  freq_nonneg := zero_le_one
  freq_le := le_rfl
  volt_nonneg := zero_le_one
  volt_le := le_rfl
  lpm_subset := subset_rfl
  consistent := .init
  consistent' := .init

/-- Where the less permissive action leaves a bank active, so does the other. -/
theorem DTMAction.Le.active {a a' : DTMAction K} (le : a.Le a') (b : Bank)
    (on : a.bankActive b = true) : a'.bankActive b = true := by
  by_contra off
  rw [Bool.not_eq_true, le.consistent' b] at off
  have low := (le.consistent b).mpr (le.lpm_subset off)
  rw [on] at low
  cases low

/-! ## Each policy -/

theorem ThrottlingPolicy.factor_nonneg (p : ThrottlingPolicy K) (t : K) : 0 ≤ p.factor t := by
  unfold factor
  split_ifs
  · exact le_rfl
  · exact ExactFloat.round_nonneg (le_max_right _ _) 4
  · exact zero_le_one

/-- A hotter bank gets no larger a share of its accesses. -/
theorem ThrottlingPolicy.factor_antitone {p : ThrottlingPolicy K}
    (span : p.throttleTemp < p.criticalTemp) : Antitone p.factor := by
  intro t t' le
  have positive : 0 < p.criticalTemp - p.throttleTemp := sub_pos.mpr span
  by_cases critical' : p.criticalTemp ≤ t'
  · rw [factor, if_pos critical']
    exact p.factor_nonneg t
  · have critical : ¬ p.criticalTemp ≤ t := fun hot => critical' (hot.trans le)
    by_cases throttled : p.throttleTemp ≤ t
    · have throttled' := throttled.trans le
      rw [factor, factor, if_neg critical', if_neg critical, if_pos throttled', if_pos throttled]
      refine ExactFloat.round_mono 4 (max_le_max_right 0 (sub_le_sub_left ?_ 1))
      exact div_le_div_of_nonneg_right (sub_le_sub_right le _) positive.le
    · rw [show p.factor t = 1 by rw [factor, if_neg critical, if_neg throttled], factor,
        if_neg critical']
      split_ifs with throttled'
      · refine ExactFloat.round_le_one (max_le ?_ zero_le_one) 4
        exact sub_le_self 1 (div_nonneg (sub_nonneg.mpr throttled') positive.le)
      · exact le_rfl

/-- A hotter stack is at least as far down the table. -/
theorem DvfsTable.levelBelow_mono (table : DvfsTable K) {peak peak' : K} (le : peak ≤ peak')
    (n : ℕ) : table.levelBelow peak n ≤ table.levelBelow peak' n := by
  induction n with
  | zero => exact le_rfl
  | succ n ih =>
    rw [levelBelow, levelBelow]
    by_cases reached : table.thresholds[n]?.any (· ≤ peak) = true
    · have reached' : table.thresholds[n]?.any (· ≤ peak') = true := by
        simp only [Option.any_eq_true, decide_eq_true_eq] at reached ⊢
        obtain ⟨threshold, entry, below⟩ := reached
        exact ⟨threshold, entry, below.trans le⟩
      rw [if_pos reached, if_pos reached']
    · rw [if_neg reached]
      have bound := table.levelBelow_le_pred peak n
      split_ifs
      · omega
      · exact ih

/-- Entries of a descending list further down are no larger. -/
theorem get_le_get_of_le {xs : List K} (descending : xs.Pairwise (· ≥ ·)) {i j : ℕ}
    (le : i ≤ j) (inRange : j < xs.length) :
    xs.get ⟨j, inRange⟩ ≤ xs.get ⟨i, le.trans_lt inRange⟩ := by
  rcases le.lt_or_eq with lt | rfl
  · exact List.pairwise_iff_getElem.mp descending i j (le.trans_lt inRange) inRange lt
  · exact le_rfl

/-- The factors of a table go down and stay physical. -/
structure DvfsTable.Descending (table : DvfsTable K) : Prop where
  freq : table.freqFactors.Pairwise (· ≥ ·)
  volt : table.voltFactors.Pairwise (· ≥ ·)
  freq_nonneg : ∀ f ∈ table.freqFactors, 0 ≤ f
  volt_nonneg : ∀ v ∈ table.voltFactors, 0 ≤ v

theorem DvfsTable.Descending.freqAt_antitone {table : DvfsTable K} (down : table.Descending) :
    Antitone table.freqAt := fun _ _ le =>
  get_le_get_of_le down.freq (table.levelBelow_mono le _) (table.level_lt_freq _)

theorem DvfsTable.Descending.voltAt_antitone {table : DvfsTable K} (down : table.Descending) :
    Antitone table.voltAt := fun _ _ le =>
  get_le_get_of_le down.volt (table.levelBelow_mono le _) (table.level_lt_volt _)

/-- Low-power mode touches neither throttling nor DVFS. -/
theorem LowPowerModePolicy.evaluate_frame (p : LowPowerModePolicy K) (bankTemps : Bank → K)
    (action : DTMAction K) :
    (p.evaluate bankTemps (some action)).throttleFactors = action.throttleFactors ∧
      (p.evaluate bankTemps (some action)).freqScale = action.freqScale ∧
      (p.evaluate bankTemps (some action)).voltageScale = action.voltageScale := by
  refine List.foldlRecOn (motive := fun a : DTMAction K => a.throttleFactors = action.throttleFactors ∧
    a.freqScale = action.freqScale ∧ a.voltageScale = action.voltageScale) _ _ ⟨rfl, rfl, rfl⟩ ?_
  intro a same ch _
  unfold evaluateChannel
  split_ifs <;> exact same

/-- What the feedback needs of a basic policy's settings. -/
def BasicPolicy.WellFormed : BasicPolicy K → Prop
  | .throttling p => p.throttleTemp < p.criticalTemp
  | .dvfs p => p.table.Descending
  | .lowPowerMode _ => True

/-- **One policy.** Hotter temperatures and a less permissive action give a less permissive
action. -/
theorem BasicPolicy.evaluate_le {p : BasicPolicy K} (wellFormed : p.WellFormed)
    {T T' : Bank → K} (hotter : ∀ b, T b ≤ T' b) {a a' : DTMAction K} (le : a'.Le a) :
    (p.evaluate T' (some a')).Le (p.evaluate T (some a)) := by
  have consistent := p.consistent_evaluate T le.consistent'
  have consistent' := p.consistent_evaluate T' le.consistent
  cases p with
  | throttling p =>
    have span : ¬ p.criticalTemp - p.throttleTemp ≤ 0 := not_le.mpr (sub_pos.mpr wellFormed)
    simp only [evaluate, ThrottlingPolicy.evaluate, Option.getD, if_neg span] at *
    exact { le with
      throttle_nonneg := fun b => p.factor_nonneg (T' b)
      throttle_le := fun b => ThrottlingPolicy.factor_antitone wellFormed (hotter b) }
  | dvfs p =>
    have peak := peakTemp_mono hotter
    exact { le with
      freq_nonneg := wellFormed.freq_nonneg _ (List.get_mem ..)
      freq_le := wellFormed.freqAt_antitone peak
      volt_nonneg := wellFormed.volt_nonneg _ (List.get_mem ..)
      volt_le := wellFormed.voltAt_antitone peak }
  | lowPowerMode p =>
    obtain ⟨throttle, freq, volt⟩ := p.evaluate_frame T a
    obtain ⟨throttle', freq', volt'⟩ := p.evaluate_frame T' a'
    refine
      { throttle_nonneg := throttle' ▸ le.throttle_nonneg
        throttle_le := by simpa only [evaluate, throttle, throttle'] using le.throttle_le
        freq_nonneg := freq' ▸ le.freq_nonneg
        freq_le := by simpa only [evaluate, freq, freq'] using le.freq_le
        volt_nonneg := volt' ▸ le.volt_nonneg
        volt_le := by simpa only [evaluate, volt, volt'] using le.volt_le
        lpm_subset := ?_
        consistent := consistent'
        consistent' := consistent }
    intro ch low
    have peak := chPeak_mono hotter ch
    rw [evaluate, p.mem_lpmChannels_evaluate] at low ⊢
    rcases low with critical | ⟨member, warm⟩
    · exact Or.inl (critical.trans peak)
    · exact Or.inr ⟨le.lpm_subset member, warm.trans peak⟩

/-- **Every policy.** A fresh evaluation from hotter temperatures gives a less permissive
action. -/
theorem DTMPolicy.evaluate_le {policy : DTMPolicy K}
    (wellFormed : ∀ p ∈ policy.chain, p.WellFormed) {T T' : Bank → K}
    (hotter : ∀ b, T b ≤ T' b) : (policy.evaluate T' none).Le (policy.evaluate T none) := by
  simp only [policy.evaluate_none, policy.evaluate_eq_foldl]
  generalize policy.chain = chain at wellFormed
  induction chain using List.reverseRecOn with
  | nil => exact .init
  | append_singleton ps p ih =>
    simp only [List.foldl_append, List.foldl_cons, List.foldl_nil]
    exact BasicPolicy.evaluate_le (wellFormed p (by simp)) hotter
      (ih fun q member => wellFormed q (List.mem_append_left _ member))

/-! ## The loop -/

/-- Each bank's count is scaled by that bank's factor. -/
theorem applyThrottle_getElem? (fl : K → K) (factors : Bank → K) (counts : List ℤ) (b : Bank) :
    (applyThrottle fl factors counts)[(b : ℕ)]? =
      counts[(b : ℕ)]?.map fun c : ℤ => pyInt (fl (fl c * factors b)) := by
  have factor : (List.ofFn factors)[(b : ℕ)]? = some (factors b) := by
    rw [List.getElem?_ofFn, dif_pos b.isLt]
  rw [applyThrottle, List.getElem?_zipWith, factor]
  cases counts[(b : ℕ)]? <;> rfl

/-- Smaller factors leave no more of any bank's accesses. -/
theorem countsLe_applyThrottle {factors factors' : Bank → K} {counts : List ℤ}
    (nonneg : ∀ c ∈ counts, 0 ≤ c) (factorNonneg : ∀ b, 0 ≤ factors b)
    (le : ∀ b, factors b ≤ factors' b) :
    CountsLe (applyThrottle id factors counts) (applyThrottle id factors' counts) := by
  intro b c' entry'
  rw [applyThrottle_getElem?] at entry' ⊢
  obtain ⟨c, count, rfl⟩ := Option.map_eq_some_iff.mp entry'
  have countNonneg : (0 : K) ≤ c := by exact_mod_cast nonneg c (List.mem_of_getElem? count)
  have scaledNonneg := mul_nonneg countNonneg (factorNonneg b)
  refine ⟨pyInt (c * factors b), by rw [count, Option.map_some]; rfl, pyInt_nonneg scaledNonneg, ?_⟩
  exact pyInt_mono_of_nonneg scaledNonneg (mul_le_mul_of_nonneg_left (le b) countNonneg)

/-- Acting on hotter temperatures never raises a power of the next interval, and computes the
powers whenever acting on the cooler ones does. -/
def NegativeFeedback (cfg : PipelineConfig K) (policy : DTMPolicy K) : Prop :=
  ∀ (T T' : Bank → K) (s : RunnerState K) (reads writes : List ℤ) (row : PowerRow K),
    (∀ b, T b ≤ T' b) → (∀ c ∈ reads, 0 ≤ c) → (∀ c ∈ writes, 0 ≤ c) →
    throttledPower cfg (applyAction (policy.evaluate T none) s) reads writes = some row →
    ∃ row', throttledPower cfg (applyAction (policy.evaluate T' none) s) reads writes =
      some row' ∧ row'.Le row

/-- **Negative feedback.** It holds of every tree of policies whose throttling spans are
positive and whose DVFS factors descend and stay non-negative. -/
theorem negativeFeedback_of_wellFormed (cfg : PipelineConfig K) {policy : DTMPolicy K}
    (wellFormed : ∀ p ∈ policy.chain, p.WellFormed) : NegativeFeedback cfg policy := by
  intro T T' s reads writes row hotter readsNonneg writesNonneg computed
  have le := DTMPolicy.evaluate_le wellFormed hotter
  have scaleLe : (applyAction (policy.evaluate T' none) s).scale.Le
      (applyAction (policy.evaluate T none) s).scale :=
    ⟨le.freq_nonneg, le.freq_le, le.volt_nonneg, le.volt_le⟩
  exact computePowerTrace_mono
    (countsLe_applyThrottle readsNonneg le.throttle_nonneg le.throttle_le)
    (countsLe_applyThrottle writesNonneg le.throttle_nonneg le.throttle_le) le.active scaleLe
    computed

theorem negativeFeedback_default :
    NegativeFeedback (K := ℝ) (.default [])
      (.composite [.basic (.throttling ⟨80, 85⟩),
        .basic (.dvfs ⟨(PipelineConfig.default []).dvfs⟩), .basic (.lowPowerMode ⟨85, 75⟩)]) := by
  refine negativeFeedback_of_wellFormed _ ?_
  simp only [DTMPolicy.chain, chainAll, List.cons_append, List.nil_append, List.forall_mem_cons]
  refine ⟨show (80 : ℝ) < 85 by norm_num, ?_, trivial, by simp⟩
  constructor <;> norm_num [PipelineConfig.default]

/-- A table that descends from the nominal voltage below zero. -/
def negativeTable : DvfsTable ℝ where
  thresholds := [50, 60]
  freqFactors := [1, 1]
  voltFactors := [1, -2]
  freqFactors_pos := by simp
  voltFactors_pos := by simp
  thresholds_le_freq := by simp
  thresholds_le_volt := by simp

/-- The power of bank 0 after acting on a uniform temperature by that table, at a million
reads and a leakage temperature of 45 degrees. -/
theorem bankPower_negativeTable {x v : ℝ} {row : PowerRow ℝ}
    (volt : negativeTable.voltAt x = v) (freq : negativeTable.freqAt x = 1)
    (computed : throttledPower (.default []) (applyAction
      ((DTMPolicy.composite [.basic (.dvfs ⟨negativeTable⟩)]).evaluate (fun _ => x) none)
      (.init fun _ => none)) (List.replicate numBanks 1000000) (List.replicate numBanks 0) =
        some row) :
    row.bankPower[0]? = some (ExactFloat.round (24.85 * v ^ 2 + 0.02 * v + refreshPowerW) 6) := by
  have scale : (applyAction ((DTMPolicy.composite [.basic (.dvfs ⟨negativeTable⟩)]).evaluate
      (fun _ => x) none) (.init fun _ => none)).scale = ⟨1, v⟩ := by
    simp only [DTMPolicy.evaluate, evaluateAll, BasicPolicy.evaluate,
      DVFSPolicy.evaluate, Option.getD_some, applyAction, peakTemp_const, volt, freq]
  have million : pyInt (1000000 : ℝ) = 1000000 := by
    rw [pyInt_of_nonneg (by norm_num)]
    norm_num
  have step : timestepNs = (1000000 : ℝ) := by
    norm_num [timestepNs, timestepUs, samplingIntervalNs]
  have ambient : (List.replicate numBanks (45 : ℝ))[((0 : Bank) : ℕ)]?.getD 45 = 45 := by
    rw [List.getElem?_replicate, if_pos (by decide), Option.getD_some]
  have count (c : ℤ) : (applyThrottle id (fun _ => (1 : ℝ)) (List.replicate numBanks c))[
      ((0 : Bank) : ℕ)]? = some (pyInt (c : ℝ)) := by
    rw [applyThrottle_getElem?, List.getElem?_replicate, if_pos (by decide), Option.map_some,
      id, mul_one, id]
  have bank := computePowerTrace_bank computed 0
  rw [scale] at bank
  refine bank.trans ((bankPowerAt_active rfl).mpr ⟨1000000, 0, ?_, ?_, ?_⟩)
  · refine (count 1000000).trans ?_
    push_cast
    rw [million]
  · refine (count 0).trans ?_
    simp [pyInt]
  · refine congrArg (ExactFloat.round · 6) ?_
    have leakage : leakagePower ((List.replicate numBanks (45 : ℝ))[((0 : Bank) : ℕ)]?.getD 45) =
        0.02 := by rw [ambient, leakagePower_reference]
    rw [dynamicPowerW_eq, step, DvfsScale.dynamic]
    refine congrArg₂ (· + ·) (congrArg₂ (· + ·) ?_ (congrArg (· * v) leakage)) rfl
    push_cast
    ring

/-- With that table, a million reads per bank cost about 25 W at 50 degrees and about 99 W at
60 degrees. -/
theorem not_negativeFeedback_negativeTable :
    (negativeTable.thresholds.Pairwise (· ≤ ·) ∧ negativeTable.freqFactors.Pairwise (· ≥ ·) ∧
      negativeTable.voltFactors.Pairwise (· ≥ ·)) ∧
    ¬ NegativeFeedback (.default []) (.composite [.basic (.dvfs ⟨negativeTable⟩)]) := by
  refine ⟨by norm_num [negativeTable], fun feedback => ?_⟩
  have level50 : negativeTable.level 50 = 0 := by
    norm_num [DvfsTable.level, DvfsTable.levelBelow, negativeTable]
  have level60 : negativeTable.level 60 = 1 := by
    norm_num [DvfsTable.level, DvfsTable.levelBelow, negativeTable]
  have refresh := refreshPowerW_le (K := ℝ)
  have reads : (applyThrottle id (fun _ => (1 : ℝ)) (List.replicate numBanks 1000000)).length =
      numBanks := by
    rw [applyThrottle, List.length_zipWith, List.length_replicate, List.length_ofFn, Nat.min_self]
  have writes : (applyThrottle id (fun _ => (1 : ℝ)) (List.replicate numBanks 0)).length =
      numBanks := by
    rw [applyThrottle, List.length_zipWith, List.length_replicate, List.length_ofFn, Nat.min_self]
  obtain ⟨row, cool⟩ := Option.isSome_iff_exists.mp
    (computePowerTrace_isSome (PipelineConfig.default []) (List.replicate numBanks (45 : ℝ))
      reads.ge writes.ge (fun _ => true) (applyAction
        ((DTMPolicy.composite [.basic (.dvfs ⟨negativeTable⟩)]).evaluate (fun _ => 50) none)
        (.init fun _ => none)).scale)
  obtain ⟨row', hot, le, -⟩ := feedback (fun _ => 50) (fun _ => 60) (.init fun _ => none)
    (List.replicate numBanks 1000000) (List.replicate numBanks 0) row (fun _ => by norm_num)
    (by simp) (by simp) cool
  have at50 := bankPower_negativeTable (negativeTable.voltAt_of_level level50 rfl)
    (negativeTable.freqAt_of_level level50 rfl) cool
  have at60 := bankPower_negativeTable (negativeTable.voltAt_of_level level60 rfl)
    (negativeTable.freqAt_of_level level60 rfl) hot
  have low : ExactFloat.round (24.85 * 1 ^ 2 + 0.02 * 1 + refreshPowerW : ℝ) 6 ≤ (25 : ℕ) := by
    rw [← ExactFloat.round_natCast 6]
    refine ExactFloat.round_mono 6 ?_
    norm_num at refresh ⊢
    linarith
  have high : ((99 : ℕ) : ℝ) ≤ ExactFloat.round (24.85 * (-2) ^ 2 + 0.02 * (-2) + refreshPowerW) 6 := by
    rw [← ExactFloat.round_natCast 6]
    refine ExactFloat.round_mono 6 ?_
    have := refreshPowerW_nonneg (K := ℝ)
    norm_num
    linarith
  have first := List.forall₂_iff_get.mp le
  have inRow : 0 < row'.bankPower.length := (List.getElem?_eq_some_iff.mp at60).1
  have inRow' : 0 < row.bankPower.length := (List.getElem?_eq_some_iff.mp at50).1
  have least := first.2 0 inRow inRow'
  rw [List.get_eq_getElem, List.get_eq_getElem, (List.getElem?_eq_some_iff.mp at60).2,
    (List.getElem?_eq_some_iff.mp at50).2] at least
  have contradiction := (high.trans least).trans low
  norm_num at contradiction

end GpuHotSpot.Pipeline
