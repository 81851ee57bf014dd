import GpuHotSpot.HotSpotTool.Main
import GpuHotSpot.Pipeline.PipelineRunner

/-!
# Fresh temperatures

Whether an exit status of zero lets the runner conclude that HotSpot has computed
temperatures from the power row just written. The process the runner starts is
`main` of `hotspot_tool/hotspot.c` here; the thermal solver and the configuration
it reads stay parameters.

* `freshTemperatures_iff`: it does, unless `main` reaches `compute_temp` and finds
  no `BankStateData.txt`, where `read_bank_state_array` calls `exit(0)`.
-/

namespace GpuHotSpot.Pipeline

open HotSpotTool
open scoped Literals

variable {S K : Type*} [ExactFloat K]

/-! ## HotSpot as the runner starts it -/

/-- A HotSpot installation: whether the executable was built, whether the working directory
is the output directory, the model its configuration gives, and which outputs it can open. -/
structure Installation (S K : Type*) where
  solver : Solver S K
  built : Bool
  inOutputDir : Bool
  setup : List Text → WorkDir → Option (GridModel × S)
  writable : HotSpotOutput → WorkDir → Bool

namespace Installation

/-- The file that `BankStateData.txt` names. -/
def bankStateFile (tool : Installation S K) : PipelineFile :=
  if tool.inOutputDir then .bankStateFile else .workingDirBankState

/-- What `main` finds when it is started with this command line. -/
def found (tool : Installation S K) (cmd : List Text) (dir : WorkDir) : Surroundings S where
  setup := tool.setup cmd dir
  ptrace := dir .powerTraceFile
  toutWritable := tool.writable .temperatureTrace dir
  poutWritable := tool.writable .powerTraceTotal dir
  bankState := dir tool.bankStateFile

/-- The outputs a run of `main` has written. -/
def outputs (result : MainResult K) : Outputs
  | .temperatureTrace => result.tout
  | .powerTraceTotal => result.poutWithLeak
  | .steadyTemp => result.dumps.steady
  | .allTransient => result.dumps.allTransient
  | .gridSteady => result.dumps.gridSteady

/-- Starting the executable. -/
def process (tool : Installation S K) : HotSpotProcess := fun cmd dir =>
  if tool.built then
    let result := HotSpotTool.main tool.solver (tool.found cmd dir)
    .exited result.status (outputs result)
  else .fileNotFound

/-- What `main` finds in an interval with this power row, once the row is written. -/
def foundIn (tool : Installation S K) (cfg : PipelineConfig K) (row : PowerRow K)
    (files : WorkDir) : Surroundings S :=
  let dir := writePower cfg row files
  tool.found (cmdParts cfg (List.replicate numHotspotLayers defaultVoltageV) dir) dir

/-- `HotSpotInterface.run` in such an interval. -/
def run (tool : Installation S K) (cfg : PipelineConfig K) (row : PowerRow K) (files : WorkDir) :
    Bool × WorkDir :=
  runHotSpot cfg tool.process none (writePower cfg row files)

end Installation

/-- `run` returns `True` only with a data row computed from the row just written, which is
what the DTM policy is then handed; where it returns `False`, no line is accumulated and no
action is taken. -/
structure FreshTemperatures (cfg : PipelineConfig K) (tool : Installation S K)
    (policy : DTMPolicy K) (row : PowerRow K) (s : RunnerState K) : Prop where
  computed : (tool.run cfg row s.files).1 = true →
    ∃ names trace traces, FirstRow tool.solver (tool.foundIn cfg row s.files) names trace ∧
      (tool.run cfg row s.files).2 .temperatureTraceFile =
        some (temperatureTrace names (trace :: traces))
  accumulated : (tool.run cfg row s.files).1 = false →
    (tool.run cfg row s.files).2 .fullTemperatureTraceFile = s.files .fullTemperatureTraceFile
  skipped : (tool.run cfg row s.files).1 = false →
    ∀ s' interval, afterHotSpot cfg policy row s (tool.run cfg row s.files) = some (s', interval) →
      s'.bankActive = s.bankActive ∧ s'.scale = s.scale ∧
      s'.throttleFactors = s.throttleFactors ∧ s'.bankTempsC = s.bankTempsC ∧
      s'.files .bankStateFile = s.files .bankStateFile

/-! ## How the process ends -/

section Run

variable {cfg : PipelineConfig K} {tool : Installation S K} {row : PowerRow K} {files : WorkDir}

theorem run_notBuilt (missing : tool.built = false) :
    tool.run cfg row files = (false, writePower cfg row files) := by
  simp [Installation.run, runHotSpot, Installation.process, missing]

theorem run_built (built : tool.built = true) :
    tool.run cfg row files = let result := HotSpotTool.main tool.solver (tool.foundIn cfg row files)
      let dir := (writePower cfg row files).withOutputs (Installation.outputs result)
      if result.status = 0 then (true, afterSuccess dir) else (false, dir) := by
  simp only [Installation.run, runHotSpot, Installation.process, built, if_true, Option.getD_none]
  rfl

/-- The runner's notion of success is the exit status of an executable that exists. -/
theorem run_succeeded : (tool.run cfg row files).1 = true ↔
    tool.built = true ∧ (HotSpotTool.main tool.solver (tool.foundIn cfg row files)).status = 0 := by
  cases built : tool.built with
  | false => simp [run_notBuilt built]
  | true =>
    rw [run_built built]
    simp only [true_and]
    split_ifs with zero <;> simp [zero]

/-- What a successful run reads back is the temperature trace `main` left. -/
theorem run_temperatureTraceFile {trace : Text} (succeeded : (tool.run cfg row files).1 = true)
    (left : (HotSpotTool.main tool.solver (tool.foundIn cfg row files)).tout = some trace) :
    (tool.run cfg row files).2 .temperatureTraceFile = some trace := by
  obtain ⟨built, zero⟩ := run_succeeded.1 succeeded
  rw [run_built built]
  simp only [zero, if_true]
  exact afterSuccess_temperatureTraceFile left

/-- **A failed run** leaves every file alone that is neither a power trace nor an output. -/
theorem run_failed {file : PipelineFile} (failed : (tool.run cfg row files).1 = false)
    (notPower : file ≠ .powerTraceFile) (notFull : file ≠ .fullPowerTraceFile)
    (notOutput : file.output = none) : (tool.run cfg row files).2 file = files file := by
  have unwritten : writePower cfg row files file = files file :=
    writePower_other cfg row notPower notFull
  cases built : tool.built with
  | false => rwa [run_notBuilt built]
  | true =>
    rw [run_built built] at failed ⊢
    simp only at failed ⊢
    split_ifs at failed ⊢
    exact (withOutputs_other notOutput).trans unwritten

end Run

/-! ## When temperatures are fresh -/

section Fresh

variable {cfg : PipelineConfig K} {tool : Installation S K} {policy : DTMPolicy K}
  {row : PowerRow K} {s : RunnerState K}

/-- What follows from a failed run holds whatever made it fail. -/
theorem freshTemperatures_of_computed (computed : (tool.run cfg row s.files).1 = true →
      ∃ names trace traces, FirstRow tool.solver (tool.foundIn cfg row s.files) names trace ∧
        (tool.run cfg row s.files).2 .temperatureTraceFile =
          some (temperatureTrace names (trace :: traces))) :
    FreshTemperatures cfg tool policy row s where
  computed := computed
  accumulated failed := run_failed failed (by decide) (by decide) rfl
  skipped failed s' interval moved := by
    have kept : (tool.run cfg row s.files).2 .bankStateFile = s.files .bankStateFile :=
      run_failed failed (by decide) (by decide) rfl
    simp only [afterHotSpot, failed, Bool.false_eq_true, if_false, Option.some.injEq,
      Prod.mk.injEq] at moved
    obtain ⟨rfl, -⟩ := moved
    exact ⟨rfl, rfl, rfl, rfl, kept⟩

/-- With `BankStateData.txt` there, an exit status of zero means that a row was computed. -/
theorem freshTemperatures_of_bankState {text : Text}
    (present : (tool.foundIn cfg row s.files).bankState = some text) :
    FreshTemperatures cfg tool policy row s := by
  refine freshTemperatures_of_computed fun succeeded => ?_
  obtain ⟨-, zero⟩ := run_succeeded.1 succeeded
  obtain ⟨names, trace, traces, first, left⟩ := (main_exitZero zero).2 text present
  exact ⟨names, trace, traces, first, run_temperatureTraceFile succeeded left⟩

/-- A run that stops before `compute_temp` has an exit status other than zero. -/
theorem freshTemperatures_of_not_reaches
    (stops : ¬ ReachesBankState tool.solver (tool.foundIn cfg row s.files)) :
    FreshTemperatures cfg tool policy row s := by
  refine freshTemperatures_of_computed fun succeeded => ?_
  obtain ⟨-, zero⟩ := run_succeeded.1 succeeded
  exact absurd (main_exitZero zero).1 stops

/-- **A stale success.** `read_bank_state_array` exits with status zero. -/
theorem not_freshTemperatures (built : tool.built = true)
    (missing : (tool.foundIn cfg row s.files).bankState = none)
    (reaches : ReachesBankState tool.solver (tool.foundIn cfg row s.files)) :
    ¬ FreshTemperatures cfg tool policy row s := by
  intro fresh
  obtain ⟨-, zero, -, -⟩ := main_of_noBankState reaches missing
  obtain ⟨names, trace, -, first, -⟩ := fresh.computed (run_succeeded.2 ⟨built, zero⟩)
  exact not_firstRow_of_noBankState missing first

end Fresh

/-- **Fresh temperatures**, exactly when no executable was built, `BankStateData.txt` is there,
or `main` stops before `compute_temp`. -/
theorem freshTemperatures_iff (cfg : PipelineConfig K) (tool : Installation S K)
    (policy : DTMPolicy K) (row : PowerRow K) (s : RunnerState K) :
    FreshTemperatures cfg tool policy row s ↔
      tool.built = false ∨ (s.files tool.bankStateFile).isSome ∨
        ¬ ReachesBankState tool.solver (tool.foundIn cfg row s.files) := by
  have bankState : (tool.foundIn cfg row s.files).bankState = s.files tool.bankStateFile := by
    refine writePower_other cfg row ?_ ?_ <;>
      · rw [Installation.bankStateFile]
        split_ifs <;> decide
  constructor
  · intro fresh
    by_contra stale
    simp only [not_or, Bool.not_eq_false, Option.not_isSome_iff_eq_none, not_not]
      at stale
    obtain ⟨built, missing, reaches⟩ := stale
    exact not_freshTemperatures built (bankState.trans missing) reaches fresh
  · rintro (missing | present | stops)
    · refine freshTemperatures_of_computed fun succeeded => ?_
      rw [run_notBuilt missing] at succeeded
      cases succeeded
    · obtain ⟨text, present⟩ := Option.isSome_iff_exists.mp present
      exact freshTemperatures_of_bankState (bankState.trans present)
    · exact freshTemperatures_of_not_reaches stops

/-! ## The first interval -/

/-- A HotSpot whose floorplan is one layer of the columns of the power trace, and that answers
with the powers themselves. -/
def echoInstallation (cfg : PipelineConfig K) : Installation Unit K where
  solver := ⟨some, fun _ s power => some (s, power, power), fun _ _ => .ok ⟨none, none, none⟩⟩
  built := true
  inOutputDir := false
  setup := fun _ _ => some ([⟨true, ptraceNames cfg⟩], ())
  writable := fun _ _ => true

/-- It reaches `compute_temp` with any power row within the limits of a line. -/
theorem reachesBankState_echoInstallation {cfg : PipelineConfig K} {row : PowerRow K}
    {values : List K} (readable : Readable (powerFields row))
    (denotes : (powerFields row).map scanDouble = values.map some)
    (columns : values.length = (ptraceNames cfg).length) (files : WorkDir) :
    ReachesBankState (echoInstallation cfg).solver
      ((echoInstallation cfg).foundIn cfg row files) := by
  have numColumns : numColumns [⟨true, ptraceNames cfg⟩] = (ptraceNames cfg).length := by
    simp [HotSpotTool.numColumns]
  have ptrace : writePower cfg row files .powerTraceFile =
      some (writeRow (ptraceNames cfg) ++ writeRow (powerFields row)) := by
    rw [writePower, appendPowerLine, WorkDir.append_other (by decide), writePowerTrace_rows]
  obtain ⟨power, stored, -⟩ := permuteIn_spec (headerFits_ptraceNames cfg)
    (storeVals values fun _ => 0) fun _ => 0
  have read := readable.readVals denotes (fun _ => 0) []
  rw [List.append_nil] at read
  refine ⟨_, (), _, _, _, values, [], rfl, ptrace, rfl, rfl,
    (readable_ptraceNames cfg).readNames _, numColumns.symm, read, ?_,
    columns.trans numColumns.symm, ⟨power, stored⟩, (), rfl⟩
  rintro rfl
  exact (readable_ptraceNames cfg).ne_nil (List.eq_nil_of_length_eq_zero columns.symm)

/-- The power row of the first interval, without accesses. -/
def idlePower (cfg : PipelineConfig K) : Option (PowerRow K) :=
  computePowerTrace cfg (List.replicate numBanks 45) (List.replicate numBanks 0)
    (List.replicate numBanks 0) (fun _ => true) ⟨1, 1⟩

/-- Idle components draw less than a watt each. -/
theorem idlePower_le_one {cfg : PipelineConfig ℝ} {row : PowerRow ℝ}
    (idle : idlePower cfg = some row) :
    ∀ p ∈ row.logicPower ++ row.bankPower, 0 ≤ p ∧ p ≤ 1 := by
  obtain ⟨banks, -⟩ := computePowerTrace_length idle
  intro p member
  rcases List.mem_append.mp member with logic | bank
  · rw [computePowerTrace_logic idle, logicPowerW] at logic
    split_ifs at logic
    · obtain ⟨-, rfl⟩ := List.mem_replicate.mp logic
      have drawn : (logicCoreStaticPowerW * 1 + logicCoreDynamicPowerW * DvfsScale.dynamic ⟨1, 1⟩ : ℝ)
          = 0.035 := by
        norm_num [logicCoreStaticPowerW, logicCoreDynamicPowerW, DvfsScale.dynamic]
      rw [logicCorePowerW]
      simp only [drawn]
      exact ⟨ExactFloat.round_nonneg (by norm_num) _, ExactFloat.round_le_one (by norm_num) _⟩
    · cases logic
  · obtain ⟨b, inRange, rfl⟩ := List.mem_iff_getElem.mp bank
    have drawn := computePowerTrace_bank idle ⟨b, inRange.trans_eq banks⟩
    rw [List.getElem?_eq_getElem inRange] at drawn
    obtain ⟨rd, wr, readAt, writeAt, eq⟩ := (bankPowerAt_active rfl).mp drawn.symm
    rw [List.getElem?_replicate, if_pos (inRange.trans_eq banks), Option.some.injEq]
      at readAt writeAt
    rw [List.getElem?_replicate, if_pos (inRange.trans_eq banks), Option.getD_some, ← readAt,
      ← writeAt, dynamicPowerW_eq, leakagePower_reference] at eq
    have refresh := refreshPowerW_nonneg (K := ℝ)
    have refreshLe := refreshPowerW_le (K := ℝ)
    rw [← eq]
    refine ⟨ExactFloat.round_nonneg ?_ _, ExactFloat.round_le_one ?_ _⟩
    · norm_num
      linarith
    · norm_num
      linarith

/-- Numbers below one are fields HotSpot can read. -/
theorem readable_fmtFixed {powers : List ℝ} (nonempty : powers ≠ [])
    (few : powers.length ≤ 1000) (small : ∀ p ∈ powers, 0 ≤ p ∧ p ≤ 1) :
    Readable (powers.map (fmtFixed 6)) := by
  refine .of_short (m := 8) (by simpa using nonempty) ?_ ?_ ?_ ?_
  · simp only [List.forall_mem_map]
    exact fun p _ => fmtFixed_token 6 p
  · simp only [List.forall_mem_map]
    exact fun p member => (length_fmtFixed (by decide) (small p member).1 (small p member).2).le
  · rw [List.length_map, maxUnits]
    omega
  · rw [List.length_map, lineSize]
    omega

/-- **A stale success in the first interval**, with the shipped settings: nothing has written
`BankStateData.txt` yet. -/
theorem exists_not_freshTemperatures :
    ∃ row, intervalPower (K := ℝ) (.default [])
        ⟨fun _ => some (List.replicate numBanks 0, List.replicate numBanks 0),
          fun _ => (echoInstallation (K := ℝ) (.default [])).process⟩ 0
        (.init (setup (K := ℝ) (.default []) fun _ => none)) = some row ∧
      ¬ FreshTemperatures (.default []) (echoInstallation (.default [])) (.composite []) row
        (.init (setup (K := ℝ) (.default []) fun _ => none)) := by
  have idle : (List.replicate numBanks (0 : ℤ)).length = numBanks := List.length_replicate
  obtain ⟨row, power⟩ := Option.isSome_iff_exists.mp (computePowerTrace_isSome (K := ℝ)
    (.default []) (List.replicate numBanks 45) idle.ge idle.ge (fun _ => true) ⟨1, 1⟩)
  have small := idlePower_le_one power
  obtain ⟨banks, logic⟩ := computePowerTrace_length power
  have fields : powerFields row = (row.logicPower ++ row.bankPower).map (fmtFixed 6) :=
    List.map_append.symm
  have length : (row.logicPower ++ row.bankPower).length = 144 := by
    rw [List.length_append, banks, logic]
    rfl
  have entries : (powerFields row).map scanDouble =
      ((row.logicPower ++ row.bankPower).map (roundTo 6)).map some := by
    rw [fields, List.map_map, List.map_map]
    exact List.map_congr_left fun p _ => scanDouble_of_read (ExactFloat.read_fmtFixed 5 p)
  have noBankState : setup (K := ℝ) (.default []) (fun _ => none) .workingDirBankState = none := by
    rfl
  refine ⟨row, ?_, not_freshTemperatures rfl ?_ (reachesBankState_echoInstallation
    ?_ entries ?_ _)⟩
  · simp only [intervalPower, throttledPower, RunnerState.init, applyThrottle_zero]
    exact power
  · exact (writePower_other (.default []) row (by decide) (by decide)).trans noBankState
  · rw [fields]
    refine readable_fmtFixed (List.ne_nil_of_length_pos ?_) ?_ small <;> omega
  · rw [List.length_map, length, length_ptraceNames]
    rfl

end GpuHotSpot.Pipeline
