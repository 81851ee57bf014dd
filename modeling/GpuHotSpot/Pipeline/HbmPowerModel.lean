import Mathlib.Data.List.OfFn
import GpuHotSpot.Lib.Fallible
import GpuHotSpot.Pipeline.Config

/-!
# The HBM power model

`pipeline/hbm_power_model.py`: per-bank access counts, bank activity and the DVFS
state give one row of per-bank and per-core power. The row is written to the
power trace HotSpot reads and appended to the accumulated trace.

* `computePowerTrace_mono`: fewer accesses, fewer active banks and lower DVFS
  factors never raise any power.
* `computePowerTrace_length`: a power row has one column per header column.
-/

namespace GpuHotSpot.Pipeline

open scoped Literals

variable {K : Type*} [ExactFloat K]

/-! ## Power of one bank -/

/-- `_leakage_power`. -/
def leakagePower (tempC : K) : K :=
  let delta := tempC - bankStaticRefTempC
  let exponent := leakageTempCoeff * min delta 200
  bankStaticPowerWRef * ExactFloat.exp exponent

def timestepNs : K := timestepUs * 1000

/-- The background power of periodic refresh. -/
def refreshPowerW : K :=
  let avgRefreshIntervals := timestepUs / tRefiUs
  let avgRefreshRows := avgRefreshIntervals * rowsRefreshedPerInterval
  let refreshEnergyNj := avgRefreshRows * energyPerRefreshNj
  refreshEnergyNj / timestepNs

/-- The dynamic power of `rd` reads and `wr` writes, scaled by `dvfsDynamic`. -/
def dynamicPowerW (rd wr : ℤ) (dvfsDynamic : K) : K :=
  let totalAccesses := rd + wr
  let rwEnergyNj : K := rd * energyPerReadNj + wr * energyPerWriteNj
  let actPreEnergyNj : K := totalAccesses * (energyPerActNj + energyPerPreNj)
  (rwEnergyNj + actPreEnergyNj) / timestepNs * dvfsDynamic

/-- What the loop over banks needs of a DVFS state. -/
structure DvfsScale (K : Type*) where
  freqScale : K
  voltageScale : K

/-- Dynamic power goes with `V² f`. -/
def DvfsScale.dynamic (s : DvfsScale K) : K := s.voltageScale ^ 2 * s.freqScale

/-- One pass of the loop over banks; a subscript out of range raises. -/
def bankPowerAt (bankTempsC : List K) (readsPerBank writesPerBank : List ℤ)
    (bankActive : Bank → Bool) (s : DvfsScale K) (b : Bank) : Option K :=
  let tempC := bankTempsC[(b : ℕ)]?.getD 45
  let leakageW := leakagePower tempC * s.voltageScale
  if bankActive b then
    readsPerBank[(b : ℕ)]?.bind fun rd => writesPerBank[(b : ℕ)]?.map fun wr =>
      ExactFloat.round (dynamicPowerW rd wr s.dynamic + leakageW + refreshPowerW) 6
  else some (ExactFloat.round (leakageW * lowPowerLeakageFraction) 6)

theorem bankPowerAt_active {bankTempsC : List K} {reads writes : List ℤ} {active : Bank → Bool}
    {s : DvfsScale K} {b : Bank} {power : K} (on : active b = true) :
    bankPowerAt bankTempsC reads writes active s b = some power ↔
      ∃ rd wr, reads[(b : ℕ)]? = some rd ∧ writes[(b : ℕ)]? = some wr ∧
        ExactFloat.round (dynamicPowerW rd wr s.dynamic +
          leakagePower (bankTempsC[(b : ℕ)]?.getD 45) * s.voltageScale + refreshPowerW) 6 =
            power := by
  simp only [bankPowerAt, on, if_true]
  cases reads[(b : ℕ)]? <;> cases writes[(b : ℕ)]? <;> simp

theorem bankPowerAt_lowPower {bankTempsC : List K} {reads writes : List ℤ} {active : Bank → Bool}
    {s : DvfsScale K} {b : Bank} (off : active b = false) :
    bankPowerAt bankTempsC reads writes active s b =
      some (ExactFloat.round (leakagePower (bankTempsC[(b : ℕ)]?.getD 45) * s.voltageScale *
        lowPowerLeakageFraction) 6) := by
  simp only [bankPowerAt, off, Bool.false_eq_true, if_false]

/-- The power of one logic core. -/
def logicCorePowerW (s : DvfsScale K) : K :=
  let lcStatic := logicCoreStaticPowerW * s.voltageScale
  let lcDynamic := logicCoreDynamicPowerW * s.dynamic
  ExactFloat.round (lcStatic + lcDynamic) 6

/-- The power row of an interval. -/
structure PowerRow (K : Type*) where
  bankPower : List K
  logicPower : List K

/-- The logic-core columns: only the `3Dmem` stack has them. -/
def logicPowerW (cfg : PipelineConfig K) (s : DvfsScale K) : List K :=
  if cfg.typeOfStack = .stack3Dmem then List.replicate numLogicCores (logicCorePowerW s) else []

/-- `compute_power_trace`. -/
def computePowerTrace (cfg : PipelineConfig K) (bankTempsC : List K)
    (readsPerBank writesPerBank : List ℤ) (bankActive : Bank → Bool) (s : DvfsScale K) :
    Option (PowerRow K) :=
  ((List.finRange numBanks).mapM
    (bankPowerAt bankTempsC readsPerBank writesPerBank bankActive s)).map fun bankPower =>
      { bankPower, logicPower := logicPowerW cfg s }

/-! ## Signs and bounds of the constants -/

theorem leakagePower_nonneg (tempC : K) : 0 ≤ leakagePower tempC := by
  have exponential := ExactFloat.exp_pos (leakageTempCoeff * min (tempC - bankStaticRefTempC) 200)
  have reference : (0 : K) ≤ bankStaticPowerWRef := by norm_num [bankStaticPowerWRef]
  exact mul_nonneg reference exponential.le

theorem timestepNs_pos : (0 : K) < timestepNs := by
  norm_num [timestepNs, timestepUs, samplingIntervalNs]

theorem refreshPowerW_nonneg : (0 : K) ≤ refreshPowerW := by
  have step := timestepNs_pos (K := K)
  have rows : (0 : K) ≤ timestepUs / tRefiUs * rowsRefreshedPerInterval * energyPerRefreshNj := by
    norm_num [timestepUs, samplingIntervalNs, tRefiUs, rowsRefreshedPerInterval, rowsPerBankK,
      numRefreshCommandsPerTrefw, energyPerRefreshNj]
  exact div_nonneg rows step.le

theorem refreshPowerW_le : (refreshPowerW : K) ≤ 1 / 100 := by
  norm_num [refreshPowerW, timestepNs, timestepUs, samplingIntervalNs, tRefiUs,
    rowsRefreshedPerInterval, rowsPerBankK, numRefreshCommandsPerTrefw, energyPerRefreshNj]

/-- At the reference temperature a bank leaks its reference power. -/
theorem leakagePower_reference : leakagePower (45 : ℝ) = 0.02 := by
  have exponential : ExactFloat.exp (0 : ℝ) = 1 := Real.exp_zero
  norm_num [leakagePower, bankStaticRefTempC, bankStaticPowerWRef, exponential]

/-- The energy of one interval's accesses is a multiple of their number: reads and writes
cost the same. -/
theorem dynamicPowerW_eq (rd wr : ℤ) (dvfsDynamic : K) :
    dynamicPowerW rd wr dvfsDynamic = (rd + wr : ℤ) * (24.85 / timestepNs) * dvfsDynamic := by
  simp only [dynamicPowerW, energyPerReadNj, energyPerWriteNj, energyPerActNj, energyPerPreNj]
  push_cast
  ring

theorem dynamicPowerW_nonneg {rd wr : ℤ} {dvfsDynamic : K} (rdNonneg : 0 ≤ rd)
    (wrNonneg : 0 ≤ wr) (dynNonneg : 0 ≤ dvfsDynamic) : 0 ≤ dynamicPowerW rd wr dvfsDynamic := by
  have step := timestepNs_pos (K := K)
  have accesses : (0 : K) ≤ (rd + wr : ℤ) := by exact_mod_cast add_nonneg rdNonneg wrNonneg
  rw [dynamicPowerW_eq]
  positivity

theorem dynamicPowerW_mono {rd rd' wr wr' : ℤ} {dyn dyn' : K} (rdNonneg : 0 ≤ rd)
    (wrNonneg : 0 ≤ wr) (dynNonneg : 0 ≤ dyn) (rdLe : rd ≤ rd') (wrLe : wr ≤ wr')
    (dynLe : dyn ≤ dyn') : dynamicPowerW rd wr dyn ≤ dynamicPowerW rd' wr' dyn' := by
  have step := timestepNs_pos (K := K)
  have accesses : (0 : K) ≤ (rd + wr : ℤ) := by exact_mod_cast add_nonneg rdNonneg wrNonneg
  have fewer : ((rd + wr : ℤ) : K) ≤ (rd' + wr' : ℤ) := by exact_mod_cast add_le_add rdLe wrLe
  have perAccess : (0 : K) ≤ 24.85 / timestepNs := div_nonneg (by norm_num) step.le
  rw [dynamicPowerW_eq, dynamicPowerW_eq]
  exact mul_le_mul (mul_le_mul_of_nonneg_right fewer perAccess) dynLe dynNonneg
    (mul_nonneg (accesses.trans fewer) perAccess)

/-! ## Monotonicity -/

/-- `s` is no faster and no higher in voltage than `s'`, and both are physical. -/
structure DvfsScale.Le (s s' : DvfsScale K) : Prop where
  freq_nonneg : 0 ≤ s.freqScale
  freq_le : s.freqScale ≤ s'.freqScale
  volt_nonneg : 0 ≤ s.voltageScale
  volt_le : s.voltageScale ≤ s'.voltageScale

theorem DvfsScale.Le.dynamic_nonneg {s s' : DvfsScale K} (le : s.Le s') : 0 ≤ s.dynamic :=
  mul_nonneg (sq_nonneg _) le.freq_nonneg

theorem DvfsScale.Le.dynamic_le {s s' : DvfsScale K} (le : s.Le s') : s.dynamic ≤ s'.dynamic :=
  mul_le_mul (pow_le_pow_left₀ le.volt_nonneg le.volt_le 2) le.freq_le le.freq_nonneg
    (sq_nonneg _)

theorem DvfsScale.Le.leakage_le {s s' : DvfsScale K} (le : s.Le s') (tempC : K) :
    leakagePower tempC * s.voltageScale ≤ leakagePower tempC * s'.voltageScale :=
  mul_le_mul_of_nonneg_left le.volt_le (leakagePower_nonneg tempC)

/-- `counts` has a count wherever `counts'` has one, and it is no larger. -/
def CountsLe (counts counts' : List ℤ) : Prop :=
  ∀ (b : Bank) (c' : ℤ), counts'[(b : ℕ)]? = some c' →
    ∃ c, counts[(b : ℕ)]? = some c ∧ 0 ≤ c ∧ c ≤ c'

/-- **One bank.** Lower counts, activity and scaling give no more power, and give a power
whenever the higher ones do. -/
theorem bankPowerAt_mono {bankTempsC : List K} {reads reads' writes writes' : List ℤ}
    {active active' : Bank → Bool} {s s' : DvfsScale K} {b : Bank} {power' : K}
    (readsLe : CountsLe reads reads') (writesLe : CountsLe writes writes')
    (activeLe : active b = true → active' b = true) (scaleLe : s.Le s')
    (computed : bankPowerAt bankTempsC reads' writes' active' s' b = some power') :
    ∃ power, bankPowerAt bankTempsC reads writes active s b = some power ∧ power ≤ power' := by
  have leakageLe := scaleLe.leakage_le (bankTempsC[(b : ℕ)]?.getD 45)
  have leakageNonneg :=
    mul_nonneg (leakagePower_nonneg (bankTempsC[(b : ℕ)]?.getD 45)) scaleLe.volt_nonneg
  have fraction : (0 : K) ≤ lowPowerLeakageFraction := by norm_num [lowPowerLeakageFraction]
  have fractionLe : (lowPowerLeakageFraction : K) ≤ 1 := by norm_num [lowPowerLeakageFraction]
  cases on' : active' b with
  | false =>
    have off : active b = false := by
      rw [← Bool.not_eq_true]
      exact fun on => by simp [activeLe on] at on'
    rw [bankPowerAt_lowPower on', Option.some.injEq] at computed
    refine ⟨_, bankPowerAt_lowPower off, ?_⟩
    rw [← computed]
    exact ExactFloat.round_mono 6 (mul_le_mul_of_nonneg_right leakageLe fraction)
  | true =>
    obtain ⟨rd', wr', readAt', writeAt', rfl⟩ := (bankPowerAt_active on').mp computed
    obtain ⟨rd, readAt, rdNonneg, rdLe⟩ := readsLe b rd' readAt'
    obtain ⟨wr, writeAt, wrNonneg, wrLe⟩ := writesLe b wr' writeAt'
    have refresh := refreshPowerW_nonneg (K := K)
    cases on : active b with
    | true =>
      refine ⟨_, (bankPowerAt_active on).mpr ⟨rd, wr, readAt, writeAt, rfl⟩, ?_⟩
      have dynamicLe := dynamicPowerW_mono rdNonneg wrNonneg scaleLe.dynamic_nonneg rdLe wrLe
        scaleLe.dynamic_le
      exact ExactFloat.round_mono 6 (add_le_add_left (add_le_add dynamicLe leakageLe) _)
    | false =>
      refine ⟨_, bankPowerAt_lowPower on, ?_⟩
      -- low-power mode keeps a fraction of what leakage alone costs an active bank
      have dynamicNonneg := dynamicPowerW_nonneg (rdNonneg.trans rdLe) (wrNonneg.trans wrLe)
        (scaleLe.dynamic_nonneg.trans scaleLe.dynamic_le)
      have reduced := mul_le_of_le_one_right leakageNonneg fractionLe
      exact ExactFloat.round_mono 6 (by linarith)

/-- **No exception.** With a count for every bank, the power model returns a row. -/
theorem computePowerTrace_isSome (cfg : PipelineConfig K) (bankTempsC : List K)
    {reads writes : List ℤ} (readsLength : numBanks ≤ reads.length)
    (writesLength : numBanks ≤ writes.length) (active : Bank → Bool) (s : DvfsScale K) :
    (computePowerTrace cfg bankTempsC reads writes active s).isSome := by
  rw [computePowerTrace, Option.isSome_map]
  refine mapM_isSome fun b _ => ?_
  have inReads : (b : ℕ) < reads.length := b.isLt.trans_le readsLength
  have inWrites : (b : ℕ) < writes.length := b.isLt.trans_le writesLength
  cases on : active b with
  | false => rw [bankPowerAt_lowPower on, Option.isSome_some]
  | true =>
    exact Option.isSome_iff_exists.mpr ⟨_, (bankPowerAt_active on).mpr
      ⟨reads[(b : ℕ)], writes[(b : ℕ)], List.getElem?_eq_getElem inReads,
        List.getElem?_eq_getElem inWrites, rfl⟩⟩

theorem logicCorePowerW_mono {s s' : DvfsScale K} (scaleLe : s.Le s') :
    logicCorePowerW s ≤ logicCorePowerW s' := by
  have static : (0 : K) ≤ logicCoreStaticPowerW := by norm_num [logicCoreStaticPowerW]
  have dynamic : (0 : K) ≤ logicCoreDynamicPowerW := by norm_num [logicCoreDynamicPowerW]
  exact ExactFloat.round_mono 6 (add_le_add (mul_le_mul_of_nonneg_left scaleLe.volt_le static)
    (mul_le_mul_of_nonneg_left scaleLe.dynamic_le dynamic))

theorem logicPowerW_mono (cfg : PipelineConfig K) {s s' : DvfsScale K} (scaleLe : s.Le s') :
    List.Forall₂ (· ≤ ·) (logicPowerW cfg s) (logicPowerW cfg s') := by
  unfold logicPowerW
  split
  · simp only [List.forall₂_iff_get, List.length_replicate, true_and, List.get_eq_getElem,
      List.getElem_replicate]
    exact fun _ _ _ => logicCorePowerW_mono scaleLe
  · exact List.Forall₂.nil

/-- Every power of `row` is at most the power of `row'` in the same place. -/
def PowerRow.Le (row row' : PowerRow K) : Prop :=
  List.Forall₂ (· ≤ ·) row.bankPower row'.bankPower ∧
    List.Forall₂ (· ≤ ·) row.logicPower row'.logicPower

/-- **The power model is monotone.** Counts, activity and scaling that are no higher give
a power row that is no higher anywhere. -/
theorem computePowerTrace_mono {cfg : PipelineConfig K} {bankTempsC : List K}
    {reads reads' writes writes' : List ℤ} {active active' : Bank → Bool} {s s' : DvfsScale K}
    {row' : PowerRow K} (readsLe : CountsLe reads reads') (writesLe : CountsLe writes writes')
    (activeLe : ∀ b, active b = true → active' b = true) (scaleLe : s.Le s')
    (computed : computePowerTrace cfg bankTempsC reads' writes' active' s' = some row') :
    ∃ row, computePowerTrace cfg bankTempsC reads writes active s = some row ∧ row.Le row' := by
  obtain ⟨bankPower', banks', rfl⟩ := Option.map_eq_some_iff.mp computed
  obtain ⟨bankPower, banks, banksLe⟩ := mapM_dominated (R := (· ≤ ·))
    (fun b _ _ => bankPowerAt_mono readsLe writesLe (activeLe b) scaleLe) banks'
  exact ⟨_, Option.map_eq_some_iff.mpr ⟨bankPower, banks, rfl⟩, banksLe,
    logicPowerW_mono cfg scaleLe⟩

/-- The power of a bank stands in its place in the row. -/
theorem computePowerTrace_bank {cfg : PipelineConfig K} {bankTempsC : List K}
    {reads writes : List ℤ} {active : Bank → Bool} {s : DvfsScale K} {row : PowerRow K}
    (computed : computePowerTrace cfg bankTempsC reads writes active s = some row) (b : Bank) :
    row.bankPower[(b : ℕ)]? = bankPowerAt bankTempsC reads writes active s b := by
  obtain ⟨bankPower, banks, rfl⟩ := Option.map_eq_some_iff.mp computed
  have inRange : (List.finRange numBanks)[(b : ℕ)]? = some b := by
    rw [List.getElem?_eq_getElem (by simp)]
    simp
  rw [getElem?_of_mapM banks, inRange, Option.bind_some]

theorem computePowerTrace_logic {cfg : PipelineConfig K} {bankTempsC : List K}
    {reads writes : List ℤ} {active : Bank → Bool} {s : DvfsScale K} {row : PowerRow K}
    (computed : computePowerTrace cfg bankTempsC reads writes active s = some row) :
    row.logicPower = logicPowerW cfg s := by
  obtain ⟨bankPower, -, rfl⟩ := Option.map_eq_some_iff.mp computed
  rfl

/-! ## Trace files -/

/-- The numbers of the bank columns, layer by layer and row by row. -/
def bankColumns : List ℕ :=
  (List.range banksInZ).flatMap fun z => (List.range banksInX).flatMap fun x =>
    (List.range banksInY).map fun y => z * banksInX * banksInY + x * banksInY + y

theorem bankColumns_eq_range : bankColumns = List.range numBanks := by decide

def logicColumnName (i : ℕ) : Text := "LC_".toList ++ Nat.toDigits 10 i

def bankColumnName (i : ℕ) : Text := "B_".toList ++ Nat.toDigits 10 i

/-- How many columns precede the bank columns. -/
def logicColumns (cfg : PipelineConfig K) : ℕ :=
  if cfg.typeOfStack = .stack3Dmem then numLogicCores else 0

/-- The column names of a power trace. -/
def ptraceNames (cfg : PipelineConfig K) : List Text :=
  (List.range (logicColumns cfg)).map logicColumnName ++ bankColumns.map bankColumnName

/-- `format_ptrace_header`. -/
def formatPtraceHeader (cfg : PipelineConfig K) : Text :=
  List.intercalate ['\t'] (ptraceNames cfg)

/-- `format_power_line`. -/
def formatPowerLine (row : PowerRow K) : Text :=
  List.intercalate ['\t'] (row.logicPower.map ExactFloat.str ++ row.bankPower.map ExactFloat.str)

/-- `write_power_trace`. -/
def writePowerTrace (cfg : PipelineConfig K) (row : PowerRow K) (file : PipelineFile)
    (dir : WorkDir) : WorkDir :=
  dir.write file (unlines [formatPtraceHeader cfg, formatPowerLine row])

/-- `append_power_line`. -/
def appendPowerLine (row : PowerRow K) (file : PipelineFile) (dir : WorkDir) : WorkDir :=
  dir.append file (unlines [formatPowerLine row])

theorem numbered_token {stem : Text} (token : Token stem) (i : ℕ) :
    Token (stem ++ Nat.toDigits 10 i) := by
  refine ⟨by simp [token.ne_nil], fun c member => ?_⟩
  rcases List.mem_append.mp member with inStem | inDigits
  · exact token.noSpace c inStem
  · exact toDigits_noSpace (by decide) (by decide) inDigits

omit [ExactFloat K] in
/-- Every column has a printable name. -/
theorem ptraceNames_token (cfg : PipelineConfig K) : ∀ t ∈ ptraceNames cfg, Token t := by
  have logic : Token "LC_".toList := by decide
  have bank : Token "B_".toList := by decide
  intro t member
  simp only [ptraceNames, List.mem_append, List.mem_map] at member
  rcases member with ⟨i, -, rfl⟩ | ⟨i, -, rfl⟩
  · exact numbered_token logic i
  · exact numbered_token bank i

theorem oneLine_tab : OneLine ['\t'] := by simp [OneLine]

omit [ExactFloat K] in
theorem oneLine_formatPtraceHeader (cfg : PipelineConfig K) : OneLine (formatPtraceHeader cfg) :=
  oneLine_intercalate oneLine_tab fun t member => (ptraceNames_token cfg t member).oneLine

theorem oneLine_formatPowerLine (row : PowerRow K) : OneLine (formatPowerLine row) := by
  refine oneLine_intercalate oneLine_tab fun t member => ?_
  simp only [List.mem_append, List.mem_map] at member
  rcases member with ⟨p, -, rfl⟩ | ⟨p, -, rfl⟩ <;> exact (ExactFloat.str_token p).oneLine

theorem computePowerTrace_length {cfg : PipelineConfig K} {bankTempsC : List K}
    {reads writes : List ℤ} {active : Bank → Bool} {s : DvfsScale K} {row : PowerRow K}
    (computed : computePowerTrace cfg bankTempsC reads writes active s = some row) :
    row.bankPower.length = numBanks ∧ row.logicPower.length = logicColumns cfg := by
  obtain ⟨bankPower, banks, rfl⟩ := Option.map_eq_some_iff.mp computed
  refine ⟨?_, by simp only [logicPowerW, logicColumns]; split <;> simp⟩
  rw [length_of_mapM banks, List.length_finRange]

end GpuHotSpot.Pipeline
