import Mathlib.Analysis.SpecialFunctions.Pow.Real
import GpuHotSpot.HotSpotTool.LeakageLoop
import GpuHotSpot.Lib.Fallible

/-!
# Leakage that heats up

In the block model more power lowers no temperature, and a higher temperature means more
leakage. From temperatures that the first pass does not lower, as from those that are not
above ambient, the leakage loop so heats up pass by pass and returns consistent
temperatures.

* `curve_le`: leakage grows with the temperature.
* `consistent_of_rising`: what a start returns that the first pass does not lower.
* `consistent_of_cold`: what a cold start returns.
-/

namespace GpuHotSpot.HotSpotTool.Leakage

open RCModel

/-! ## Leakage curves -/

variable {K : Type} [Field K] [LinearOrder K] [IsStrictOrderedRing K] {pow : K → K → K}

/-- What leakage needs of `pow`. -/
structure PowLaw (pow : K → K → K) : Prop where
  nonneg : ∀ x y, 0 ≤ x → 0 ≤ pow x y
  mono : ∀ x x' y, 0 ≤ x → x ≤ x' → 0 ≤ y → pow x y ≤ pow x' y

section Curve

variable {high low middle steepness t t' : K}

/-- Leakage grows with the temperature. -/
theorem curve_le (law : PowLaw pow) (rising : low ≤ high) (scale : 0 < middle)
    (steep : 0 ≤ steepness) (warm : 0 ≤ t) (warmer : t ≤ t') :
    curve pow high low middle steepness t ≤ curve pow high low middle steepness t' := by
  have quotient : t / middle ≤ t' / middle := div_le_div_of_nonneg_right warmer scale.le
  have powers : pow (t / middle) steepness ≤ pow (t' / middle) steepness :=
    law.mono _ _ _ (div_nonneg warm scale.le) quotient steep
  have above : 0 ≤ pow (t / middle) steepness := law.nonneg _ _ (div_nonneg warm scale.le)
  have falls : (high - low) / (1 + pow (t' / middle) steepness) ≤
      (high - low) / (1 + pow (t / middle) steepness) :=
    div_le_div_of_nonneg_left (sub_nonneg.mpr rising) (by linarith) (by linarith)
  simp only [curve, ← neg_sub high low, neg_div]
  linarith

theorem curve_nonneg (law : PowLaw pow) (least : 0 ≤ low) (rising : low ≤ high)
    (scale : 0 < middle) (warm : 0 ≤ t) :
    0 ≤ curve pow high low middle steepness t := by
  have above : 0 ≤ pow (t / middle) steepness := law.nonneg _ _ (div_nonneg warm scale.le)
  have part : (high - low) / (1 + pow (t / middle) steepness) ≤ high - low :=
    div_le_self (sub_nonneg.mpr rising) (by linarith)
  simp only [curve, ← neg_sub high low, neg_div]
  linarith

end Curve

variable {d : LeakageData K}

theorem bankLeakage_le (modes : ∀ k, 0 ≤ d.bankModes k) (name : Text) {p p' : K} (more : p ≤ p') :
    bankLeakage d name p ≤ bankLeakage d name p' := by
  rw [bankLeakage, bankLeakage]
  split_ifs
  · exact mul_le_mul_of_nonneg_right more (modes _)
  · exact more

theorem bankLeakage_nonneg (modes : ∀ k, 0 ≤ d.bankModes k) (name : Text) {p : K} (least : 0 ≤ p) :
    0 ≤ bankLeakage d name p := by
  have zero : bankLeakage d name 0 = 0 := by simp [bankLeakage]
  exact zero.symm.le.trans (bankLeakage_le modes name least)

/-- What `calc_leakage` returns. -/
theorem calcLeakage_ok (law : PowLaw pow) (modes : ∀ k, 0 ≤ d.bankModes k) {name : Text}
    {t t' p p' : K} (warm : 0 ≤ t) (warmer : t ≤ t') (ran : calcLeakage pow d t name = .ok p)
    (ran' : calcLeakage pow d t' name = .ok p') : 0 ≤ p ∧ p ≤ p' := by
  rw [calcLeakage] at ran ran'
  split_ifs at ran ran'
  cases ran
  cases ran'
  exact ⟨bankLeakage_nonneg modes name
      (curve_nonneg law (by norm_num) (by norm_num) (by norm_num) warm),
    bankLeakage_le modes name
      (curve_le law (by norm_num) (by norm_num) (by norm_num) warm warmer)⟩

/-! ## The block model -/

/-- Higher temperatures in the blocks lead to higher steady temperatures. -/
def RCModel.Monotone (model : RCModel K) (pow : K → K → K) (d : LeakageData K) (power : ℕ → K) : Prop :=
  ∀ low high steady steady', (∀ b ∈ model.blocks, 0 ≤ low b.idx ∧ low b.idx ≤ high b.idx) →
    model.pass pow d power low = .ok steady → model.pass pow d power high = .ok steady' →
      ∀ b ∈ model.blocks, steady b.idx ≤ steady' b.idx

variable {config : Block.ThermalConfig K} {flp : List (Rect K)} {model : Block.BlockModel K}
  {names : List Text} {power temp : ℕ → K} {r : Steady K}

omit [Field K] [LinearOrder K] [IsStrictOrderedRing K] in
theorem blocks_idx_lt {b : Block} (member : b ∈ (RCModel.block model names).blocks) :
    b.idx < names.length := by
  obtain ⟨⟨name, i⟩, inside, rfl⟩ := List.mem_map.mp member
  exact (List.mem_zipIdx' inside).1

omit [IsStrictOrderedRing K] in
/-- A pass of the block model solves with the power of every unit and its leakage. -/
theorem pass_block {steady : ℕ → K}
    (step : (RCModel.block model names).pass pow d power temp = .ok steady) :
    ∃ p, (RCModel.block model names).assemble pow d power temp = .ok p ∧
      steady = Block.steadyStateTempBlock model p := by
  rw [RCModel.pass] at step
  cases stored : (RCModel.block model names).assemble pow d power temp with
  | error message =>
    rw [stored] at step
    cases step
  | ok p =>
    rw [stored] at step
    cases step
    exact ⟨p, rfl, rfl⟩

omit [LinearOrder K] [IsStrictOrderedRing K] in
/-- Where the power stored for a unit comes from. -/
theorem stored_ok {b : Block} {stored stored' : ℕ → K}
    (step : ((RCModel.block model names).blockPower pow d b (power b.idx) (temp b.idx)).map
      (Function.update stored b.idx) = .ok stored') :
    ∃ leak, calcLeakage pow d (temp b.idx) b.name = .ok leak ∧
      stored' = Function.update stored b.idx (power b.idx + leak) := by
  rw [blockPower] at step
  cases found : calcLeakage pow d (temp b.idx) b.name with
  | error message =>
    rw [found] at step
    cases step
  | ok leak =>
    rw [found] at step
    cases step
    exact ⟨leak, rfl, rfl⟩

/-- Higher temperatures mean more power, and none is negative. -/
theorem assemble_le (law : PowLaw pow) (modes : ∀ k, 0 ≤ d.bankModes k)
    (supplied : ∀ i < names.length, 0 ≤ power i) {low high p p' : ℕ → K}
    (warmer : ∀ b ∈ (RCModel.block model names).blocks, 0 ≤ low b.idx ∧ low b.idx ≤ high b.idx)
    (ran : (RCModel.block model names).assemble pow d power low = .ok p)
    (ran' : (RCModel.block model names).assemble pow d power high = .ok p') (q : ℕ) :
    0 ≤ p q ∧ p q ≤ p' q := by
  refine foldlM_related (fun s t : ℕ → K => ∀ q, 0 ≤ s q ∧ s q ≤ t q) ?_
    (fun _ => ⟨le_rfl, le_rfl⟩) ran ran' q
  intro b member s t s' t' below first second q
  obtain ⟨leak, found, rfl⟩ := stored_ok first
  obtain ⟨leak', found', rfl⟩ := stored_ok second
  obtain ⟨warm, more⟩ := warmer b member
  obtain ⟨least, grown⟩ := calcLeakage_ok law modes warm more found found'
  rcases eq_or_ne q b.idx with rfl | other
  · rw [Function.update_self, Function.update_self]
    have listed : b ∈ (RCModel.block model names).blocks := member
    have base := supplied b.idx (blocks_idx_lt listed)
    exact ⟨add_nonneg base least, add_le_add le_rfl grown⟩
  · rw [Function.update_of_ne other, Function.update_of_ne other]
    exact below q

/-- In the block model leakage raises temperatures. -/
theorem monotone_block (law : PowLaw pow) (sound : Block.Sound config flp)
    (populated : Block.populateRModelBlock config flp = .ok model)
    (named : names.length = flp.length) (modes : ∀ k, 0 ≤ d.bankModes k)
    (supplied : ∀ i < names.length, 0 ≤ power i) :
    (RCModel.block model names).Monotone pow d power := by
  intro low high steady steady' warmer first second b member
  obtain ⟨p, stored, rfl⟩ := pass_block first
  obtain ⟨p', stored', rfl⟩ := pass_block second
  refine Block.steadyStateTempBlock_le sound populated (fun q _ => ?_) b.idx ?_
  · exact (assemble_le law modes supplied warmer stored stored' q).2
  · have inside := blocks_idx_lt member
    rw [Block.nNodes, Block.NL]
    omega

/-! ## Rising temperatures -/

section Rising

variable {model : RCModel K}

omit [IsStrictOrderedRing K] in
/-- Once a pass lowers no block, none does. -/
theorem RCModel.reached_rising (monotone : model.Monotone pow d power) {t : ℕ → K}
    (reached : model.Reached pow d power temp t) (positive : ∀ b ∈ model.blocks, 0 ≤ temp b.idx)
    (rises : ∀ steady, model.pass pow d power temp = .ok steady →
      ∀ b ∈ model.blocks, temp b.idx ≤ steady b.idx) :
    ∀ steady, model.pass pow d power t = .ok steady →
      ∀ b ∈ model.blocks, t b.idx ≤ steady b.idx := by
  induction reached with
  | start => exact rises
  | @pass temp steady t step goes reached ih =>
    have up := rises steady step
    refine ih (fun b member => (positive b member).trans (up b member)) fun steady' next => ?_
    exact monotone temp steady steady steady' (fun b member => ⟨positive b member, up b member⟩)
      step next

/-- **Rising temperatures are consistent.** If leakage raises temperatures and the first pass lowers
none, no pass does. -/
theorem RCModel.consistent_of_rising (known : model.leaking = model.blocks)
    (monotone : model.Monotone pow d power) (positive : ∀ b ∈ model.blocks, 0 ≤ temp b.idx)
    (rises : ∀ steady, model.pass pow d power temp = .ok steady →
      ∀ b ∈ model.blocks, temp b.idx ≤ steady b.idx)
    (ran : model.steadyStateTemp pow d power temp = .ok r) : model.Consistent r := by
  refine (leakageLoop_consistent_iff ran).mpr fun t reached _ => ?_
  rintro ⟨steady, step, b, member, cooler⟩
  have up := reached_rising monotone reached positive rises steady step b member
  have old : model.tempOld t b.idx = t b.idx := if_pos (List.mem_map_of_mem (known ▸ member))
  rw [old] at cooler
  have tolerance : (0 : K) < LEAK_TOL := by norm_num [LEAK_TOL]
  linarith

end Rising

/-! ## A bank that leaks -/

section BankOn

variable {model : Block.BlockModel ℚ}

/-- All banks are in normal power mode. -/
def banksOn : LeakageData ℚ where
  leakageMode := 0
  bankModes := fun _ => 1
  leakage := fun _ => 1
  volt := fun _ => 0

/-- Powers, with the exponent rounded down. -/
def wholePow (x y : ℚ) : ℚ := x ^ ⌊y⌋₊

theorem powLaw_wholePow : PowLaw wholePow :=
  ⟨fun _ _ nonneg => pow_nonneg nonneg _, fun _ _ _ nonneg more _ =>
    pow_le_pow_left₀ nonneg more _⟩

/-- The leakage of a bank in watts. -/
def bankLeak (temp : ℚ) : ℚ :=
  curve wholePow (1070333 / 1000) (210718 / 100000) (4562595 / 10000) (5405409 / 1000000) temp

theorem calcLeakage_banksOn (temp : ℚ) :
    calcLeakage wholePow banksOn temp ['B', '_', '0'] = .ok (bankLeak temp) := by
  have bank : ['B', '_'] <:+: ['B', '_', '0'] := by decide
  rw [calcLeakage, if_neg (by simp [banksOn]), bankLeakage, if_pos bank]
  simp [banksOn, bankLeak]

theorem bankLeak_eq (temp : ℚ) : bankLeak temp =
    (1070333 / 1000 + (210718 / 100000 - 1070333 / 1000) /
      (1 + (temp / (4562595 / 10000)) ^ 5)) / 1000 := by
  have whole : ⌊(5405409 / 1000000 : ℚ)⌋₊ = 5 := by
    rw [Nat.floor_eq_iff (by norm_num)]
    norm_num
  rw [bankLeak, curve, wholePow, whole, one_mul]

/-- By how much each node of `plainDie` is warmer for a watt. -/
def plainResponse (i : ℕ) : ℚ :=
  [3671348, 2185761, 700174, 227867, 522850, 522850, 522850, 522850, 185090, 185090, 185090, 185090,
    140490, 140490, 140490, 140490].getD i 0 / 1485587

theorem plainResponse_solves : ∀ r < Block.nNodes Block.plainDie,
    ∑ j ∈ Finset.range (Block.nNodes Block.plainDie),
        Block.b (Block.plainConfig 1 2 3 1) Block.plainDie r j * plainResponse j =
      if r < 1 then 1 else 0 := by
  decide +kernel

/-- The steady temperature of the unit of `plainDie`. -/
theorem steadyStateTempBlock_plainDie
    (populated : Block.populateRModelBlock (Block.plainConfig 1 2 3 1) Block.plainDie = .ok model)
    (power : ℕ → ℚ) : Block.steadyStateTempBlock model power 0 =
      300 + power 0 * (3671348 / 1485587) := by
  have sound := Block.plainDie_sound
  have same := (Block.grounded_b sound).eq_of_apply_eq (Block.linked_b sound)
    (x := Block.steadyStateTempBlock model power)
    (y := fun i => 300 + power 0 * plainResponse i) ?_ 0 (by decide)
  · rw [same]
    norm_num [plainResponse]
  intro r member
  have inside := Finset.mem_range.mp member
  rw [Block.steadyStateTempBlock_solves sound populated power r inside]
  have constant := (Block.grounded_b sound).apply_const 300 member
  have driven := plainResponse_solves r inside
  rw [matApply] at constant ⊢
  rw [Block.bGround_eq] at constant
  simp only [mul_add, Finset.sum_add_distrib, constant, mul_left_comm _ (power 0),
    ← Finset.mul_sum, driven]
  refine congrArg _ ?_
  split_ifs with unit unit' unit'
  · obtain rfl : r = 0 := by omega
    exact (mul_one _).symm
  · exact absurd unit unit'
  · exact absurd unit' unit
  · exact (mul_zero _).symm

/-- A pass for the bank with half a watt. -/
theorem pass_banksOn (temp : ℕ → ℚ)
    (populated : Block.populateRModelBlock (Block.plainConfig 1 2 3 1) Block.plainDie = .ok model) :
    ∃ steady, (oneBank model).pass wholePow banksOn (fun _ => 1 / 2) temp = .ok steady ∧
      steady 0 = 300 + (1 / 2 + bankLeak (temp 0)) * (3671348 / 1485587) := by
  have stored : (oneBank model).assemble wholePow banksOn (fun _ => 1 / 2) temp =
      .ok (Function.update (fun _ => 0) 0 (1 / 2 + bankLeak (temp 0))) := by
    rw [assemble, oneBank_leaking, List.foldlM_cons]
    simp only [oneBank, blockPower, calcLeakage_banksOn]
    rfl
  refine ⟨Block.steadyStateTempBlock model (Function.update (fun _ => 0) 0
    (1 / 2 + bankLeak (temp 0))), ?_, ?_⟩
  · rw [RCModel.pass, stored]
    rfl
  · rw [steadyStateTempBlock_plainDie populated, Function.update_self]

/-- Two passes: the first heats the bank up, and the second ends the loop. -/
theorem steadyStateTemp_banksOn (start : ℚ) {first second : ℚ}
    (populated : Block.populateRModelBlock (Block.plainConfig 1 2 3 1) Block.plainDie = .ok model)
    (heats : first = 300 + (1 / 2 + bankLeak start) * (3671348 / 1485587))
    (settles : second = 300 + (1 / 2 + bankLeak first) * (3671348 / 1485587))
    (goes : LEAK_TOL ≤ first - start) (ends : second - first < LEAK_TOL) :
    ∃ r, (oneBank model).steadyStateTemp wholePow banksOn (fun _ => 1 / 2) (fun _ => start) =
        .ok r ∧ r.old 0 = first ∧ r.temp 0 = second := by
  obtain ⟨steady, step, warm⟩ := pass_banksOn (fun _ => start) populated
  obtain ⟨steady', step', warm'⟩ := pass_banksOn steady populated
  have on : (oneBank model).dMax ((oneBank model).tempOld fun _ => start) steady ≥ LEAK_TOL := by
    refine not_lt.mp fun small => ?_
    have close := dMax_lt_iff.1 small ⟨0, 0, 0, ['B', '_', '0']⟩ (by simp)
    simp only [tempOld, oneBank_leaking, List.map_cons, List.map_nil, List.mem_singleton,
      if_true] at close
    linarith
  have off : (oneBank model).dMax ((oneBank model).tempOld steady) steady' < LEAK_TOL := by
    refine dMax_lt_iff.2 fun b member => ?_
    obtain rfl : b = ⟨0, 0, 0, ['B', '_', '0']⟩ := by simpa using member
    simp only [tempOld, oneBank_leaking, List.map_cons, List.map_nil, List.mem_singleton, if_true]
    rw [warm', warm, ← heats, ← settles]
    exact ends
  refine ⟨⟨steady', (oneBank model).tempOld steady⟩, ?_, ?_, ?_⟩
  · rw [steadyStateTemp, leakageLoop, step]
    simp only [bind, Except.bind, if_neg (not_lt.mpr on)]
    rw [if_neg (by rintro ⟨-, ⟨⟩⟩)]
    change (oneBank model).leakageLoop wholePow banksOn (fun _ => 1 / 2) (99 + 1) 1 steady = _
    rw [leakageLoop, step']
    exact if_pos off
  · simp [tempOld, warm, heats]
  · change steady' 0 = second
    rw [warm', warm, ← heats, ← settles]

/-- The bank with half a watt, from 301 kelvins: two passes, each of which heats it up. -/
theorem consistent_of_rising_banksOn :
    ∃ model r, Block.populateRModelBlock (Block.plainConfig 1 2 3 1) Block.plainDie = .ok model ∧
      (oneBank model).steadyStateTemp wholePow banksOn (fun _ => 1 / 2) (fun _ => 301) = .ok r ∧
      301 < r.old 0 ∧ r.old 0 < r.temp 0 ∧ (oneBank model).Consistent r := by
  obtain ⟨model, populated⟩ :=
    Block.exists_populated Block.plainDie_sound Block.plainDie_conductive
  obtain ⟨r, ran, first, second⟩ := steadyStateTemp_banksOn 301 populated rfl rfl
    (by norm_num [bankLeak_eq, LEAK_TOL]) (by norm_num [bankLeak_eq, LEAK_TOL])
  refine ⟨model, r, populated, ran, ?_, ?_, ?_⟩
  · rw [first]
    norm_num [bankLeak_eq]
  · rw [first, second]
    norm_num [bankLeak_eq]
  · refine consistent_of_rising rfl (monotone_block powLaw_wholePow Block.plainDie_sound populated
      rfl (fun _ => zero_le_one) fun _ _ => by norm_num) (fun _ _ => by norm_num)
      (fun steady step b member => ?_) ran
    obtain ⟨steady', step', warm⟩ := pass_banksOn (fun _ => 301) populated
    obtain rfl : steady = steady' := Except.ok.inj (step.symm.trans step')
    obtain rfl : b = ⟨0, 0, 0, ['B', '_', '0']⟩ := by simpa using member
    rw [warm]
    norm_num [bankLeak_eq]

end BankOn

/-! ## A cold start -/

/-- **A cold start.** With powers and bank modes that are not negative, and temperatures of the
units up to ambient, the block model returns, if it returns, the temperatures that go with the
leakage at temperatures within `LEAK_TOL` of them. -/
theorem consistent_of_cold (law : PowLaw pow) (sound : Block.Sound config flp)
    (populated : Block.populateRModelBlock config flp = .ok model)
    (named : names.length = flp.length) (modes : ∀ k, 0 ≤ d.bankModes k)
    (supplied : ∀ i < names.length, 0 ≤ power i)
    (cold : ∀ i < names.length, 0 ≤ temp i ∧ temp i ≤ config.ambient)
    (ran : (RCModel.block model names).steadyStateTemp pow d power temp = .ok r) :
    (RCModel.block model names).pass pow d power r.old = .ok r.temp ∧
      (RCModel.block model names).Consistent r := by
  refine ⟨(leakageLoop_ok ran).1, ?_⟩
  refine consistent_of_rising rfl (monotone_block law sound populated named modes supplied)
    (fun b member => (cold b.idx (blocks_idx_lt member)).1) (fun steady step b member => ?_) ran
  obtain ⟨p, stored, rfl⟩ := pass_block step
  have inside := blocks_idx_lt member
  have node : b.idx < Block.nNodes flp := by
    rw [Block.nNodes, Block.NL]
    omega
  have powers : ∀ q < flp.length, (0 : ℕ → K) q ≤ p q := fun q _ =>
    (assemble_le law modes supplied
      (fun b member => ⟨(cold b.idx (blocks_idx_lt member)).1, le_rfl⟩) stored stored q).1
  have zero : ∀ q < flp.length, (0 : ℕ → K) q = 0 := fun _ _ => rfl
  have off := Block.steadyStateTempBlock_off sound populated zero
  calc temp b.idx ≤ config.ambient := (cold b.idx inside).2
    _ = Block.steadyStateTempBlock model 0 b.idx := (off b.idx node).symm
    _ ≤ Block.steadyStateTempBlock model p b.idx :=
      Block.steadyStateTempBlock_le sound populated powers b.idx node

/-- The bank with half a watt, from ambient: the first pass heats it up by a kelvin and a half. -/
theorem consistent_of_cold_banksOn :
    ∃ model r, Block.populateRModelBlock (Block.plainConfig 1 2 3 1) Block.plainDie = .ok model ∧
      (oneBank model).steadyStateTemp wholePow banksOn (fun _ => 1 / 2) (fun _ => 300) = .ok r ∧
      301 < r.old 0 ∧ r.old 0 < r.temp 0 ∧
      (oneBank model).pass wholePow banksOn (fun _ => 1 / 2) r.old = .ok r.temp ∧
      (oneBank model).Consistent r := by
  obtain ⟨model, populated⟩ :=
    Block.exists_populated Block.plainDie_sound Block.plainDie_conductive
  obtain ⟨r, ran, first, second⟩ := steadyStateTemp_banksOn 300 populated rfl rfl
    (by norm_num [bankLeak_eq, LEAK_TOL]) (by norm_num [bankLeak_eq, LEAK_TOL])
  refine ⟨model, r, populated, ran, ?_, ?_, ?_⟩
  · rw [first]
    norm_num [bankLeak_eq]
  · rw [first, second]
    norm_num [bankLeak_eq]
  · exact consistent_of_cold powLaw_wholePow Block.plainDie_sound populated rfl
      (fun _ => zero_le_one) (fun _ _ => by norm_num)
      (fun _ _ => ⟨by norm_num, by norm_num [Block.plainConfig]⟩) ran

end GpuHotSpot.HotSpotTool.Leakage
