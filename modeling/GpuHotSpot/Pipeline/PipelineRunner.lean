import GpuHotSpot.Lib.Run
import GpuHotSpot.Pipeline.DtmPolicies
import GpuHotSpot.Pipeline.HotSpotInterface

/-!
# The closed-loop runner

`pipeline/pipeline_runner.py`: every iteration obtains access counts, throttles
them, computes and writes a power row, runs HotSpot and, if that succeeded, reads
the bank temperatures back and lets the DTM policy act on them.

Where access counts come from and how HotSpot ends are the environment's choice at
every step, so a theorem over all environments is one over every pattern of
successes, failures and temperatures. An exception ends the run.

* `step_cases`: all that one iteration can do.
-/

namespace GpuHotSpot.Pipeline

open scoped Literals

variable {K : Type*} [ExactFloat K]

/-! ## State -/

/-- The lists of `PipelineRunner.history`. -/
structure History (K : Type*) where
  bankTemps : List (Bank → K)
  bankPower : List (List K)
  scale : List (DvfsScale K)
  lpmChannels : List (Finset Channel)
  throttleFactors : List (Bank → K)

/-- The state `PipelineRunner` carries across iterations, with that of its power model and
the files on disk. -/
structure RunnerState (K : Type*) where
  bankActive : Bank → Bool
  scale : DvfsScale K
  throttleFactors : Bank → K
  bankTempsC : List K
  history : History K
  files : WorkDir

/-- `PipelineRunner.__init__` over the files there are. -/
def RunnerState.init (files : WorkDir) : RunnerState K where
  bankActive := fun _ => true
  scale := ⟨1, 1⟩
  throttleFactors := fun _ => 1
  bankTempsC := List.replicate numBanks 45
  history := ⟨[], [], [], [], []⟩
  files := files

/-- What the surroundings decide in each iteration: `_get_access_trace` and HotSpot. -/
structure PipelineEnv where
  accessTrace : ℕ → Option (List ℤ × List ℤ)
  hotspot : ℕ → HotSpotProcess

/-- What an iteration showed: its power row, the temperatures read back if HotSpot succeeded,
and the files it left. -/
structure Interval (K : Type*) where
  row : PowerRow K
  bankTemps : Option (Bank → K)
  files : WorkDir

/-! ## Private helpers -/

/-- `_apply_throttle`: `fl` rounds to a float, as `c * f` does with the count and with the product. -/
def applyThrottle (fl : K → K) (throttleFactors : Bank → K) (counts : List ℤ) : List ℤ :=
  List.zipWith (fun (c : ℤ) (f : K) => pyInt (fl (fl c * f))) counts (List.ofFn throttleFactors)

/-- No accesses stay none. -/
theorem applyThrottle_zero (throttleFactors : Bank → K) :
    applyThrottle id throttleFactors (List.replicate numBanks 0) = List.replicate numBanks 0 := by
  refine List.eq_replicate_iff.mpr ⟨?_, fun c member => ?_⟩
  · rw [applyThrottle, List.length_zipWith, List.length_replicate, List.length_ofFn, Nat.min_self]
  · obtain ⟨i, inRange, rfl⟩ := List.mem_iff_getElem.mp member
    simp only [applyThrottle, List.getElem_zipWith, List.getElem_replicate, Int.cast_zero, id,
      zero_mul]
    rw [pyInt_of_nonneg le_rfl, Int.floor_zero]

/-- `_apply_action`. -/
def applyAction (action : DTMAction K) (s : RunnerState K) : RunnerState K :=
  { s with
    throttleFactors := action.throttleFactors
    scale := ⟨action.freqScale, action.voltageScale⟩
    bankActive := action.bankActive }

/-- `set_bank_temperatures`. -/
def setBankTemperatures (bankTemps : Bank → K) (s : RunnerState K) : RunnerState K :=
  { s with bankTempsC := List.ofFn bankTemps }

/-- The channels whose first bank is inactive. -/
def inactiveChannels (bankActive : Bank → Bool) : Finset Channel :=
  Finset.univ.filter fun ch =>
    !bankActive ((channelToBanks ch).head (channelToBanks_ne_nil ch))

/-- `_record_history`. -/
def recordHistory (row : PowerRow K) (bankTemps : Option (Bank → K)) (s : RunnerState K) :
    RunnerState K :=
  { s with
    history :=
      { bankPower := s.history.bankPower ++ [row.bankPower]
        scale := s.history.scale ++ [s.scale]
        lpmChannels := s.history.lpmChannels ++ [inactiveChannels s.bankActive]
        throttleFactors := s.history.throttleFactors ++ [s.throttleFactors]
        bankTemps := s.history.bankTemps ++ [bankTemps.getD fun _ => 0] } }

def banksPerLayer : ℕ := numBanks / banksInZ

/-- The lines of `BankStateData.txt`, one for each layer. -/
def bankStateLines (bankActive : Bank → Bool) : List Text :=
  (List.range banksInZ).map fun z =>
    List.intercalate [' '] ((((List.ofFn bankActive).drop (z * banksPerLayer)).take banksPerLayer).map
      fun active => if active then ['1'] else ['0'])

/-- `_write_bank_state`. -/
def writeBankState (s : RunnerState K) : RunnerState K :=
  { s with files := s.files.write .bankStateFile (unlines (bankStateLines s.bankActive)) }

/-! ## One iteration -/

/-- The power row of an interval with these accesses, throttled in exact arithmetic. -/
def throttledPower (cfg : PipelineConfig K) (s : RunnerState K) (reads writes : List ℤ) :
    Option (PowerRow K) :=
  computePowerTrace cfg s.bankTempsC (applyThrottle id s.throttleFactors reads)
    (applyThrottle id s.throttleFactors writes) s.bankActive s.scale

/-- Stages 1 and 2 of an iteration. -/
def intervalPower (cfg : PipelineConfig K) (env : PipelineEnv) (n : ℕ) (s : RunnerState K) :
    Option (PowerRow K) :=
  match env.accessTrace n with
  | none => none
  | some (reads, writes) => throttledPower cfg s reads writes

/-- The power row goes to the trace HotSpot reads and to the accumulated trace. -/
def writePower (cfg : PipelineConfig K) (row : PowerRow K) (files : WorkDir) : WorkDir :=
  appendPowerLine row .fullPowerTraceFile (writePowerTrace cfg row .powerTraceFile files)

/-- Writing the power row touches the power traces only. -/
theorem writePower_other (cfg : PipelineConfig K) (row : PowerRow K) {files : WorkDir}
    {file : PipelineFile} (notTrace : file ≠ .powerTraceFile)
    (notFull : file ≠ .fullPowerTraceFile) : writePower cfg row files file = files file := by
  rw [writePower, appendPowerLine, WorkDir.append_other notFull, writePowerTrace,
    WorkDir.write_other notTrace]

/-- HotSpot failed: the step is recorded and DTM is skipped. -/
def skipDtm (row : PowerRow K) (s : RunnerState K) : RunnerState K := recordHistory row none s

/-- Stage 4: leakage feedback and the DTM policy. -/
def applyDtm (policy : DTMPolicy K) (row : PowerRow K) (bankTemps : Bank → K)
    (s : RunnerState K) : RunnerState K :=
  let action := policy.evaluate bankTemps none
  writeBankState (recordHistory row (some bankTemps)
    (applyAction action (setBankTemperatures bankTemps s)))

/-- Stage 4 writes no file but the bank state. -/
theorem applyDtm_files_other (policy : DTMPolicy K) (row : PowerRow K) (bankTemps : Bank → K)
    (s : RunnerState K) {file : PipelineFile} (other : file ≠ .bankStateFile) :
    (applyDtm policy row bankTemps s).files file = s.files file :=
  WorkDir.write_other other _

/-- Stages 3 and 4 of an iteration, by how HotSpot ended. -/
def afterHotSpot (cfg : PipelineConfig K) (policy : DTMPolicy K) (row : PowerRow K)
    (s : RunnerState K) (outcome : Bool × WorkDir) : Option (RunnerState K × Interval K) :=
  let (ok, files) := outcome
  if ok then
    (getBankTemperatures cfg files).map fun bankTemps =>
      let s' := applyDtm policy row bankTemps { s with files }
      (s', ⟨row, some bankTemps, s'.files⟩)
  else
    let s' := skipDtm row { s with files }
    some (s', ⟨row, none, s'.files⟩)

/-- One pass of the loop of `PipelineRunner.run`. -/
def step (cfg : PipelineConfig K) (policy : DTMPolicy K) (env : PipelineEnv) (n : ℕ)
    (s : RunnerState K) : Option (RunnerState K × Interval K) :=
  (intervalPower cfg env n s).bind fun row =>
    afterHotSpot cfg policy row s
      (runHotSpot cfg (env.hotspot n) none (writePower cfg row s.files))

/-- `PipelineRunner.run` for `iterations` intervals, from the files found at the start. -/
def run (cfg : PipelineConfig K) (policy : DTMPolicy K) (env : PipelineEnv) (files : WorkDir)
    (iterations : ℕ) : Option (RunnerState K × List (Interval K)) :=
  runFor (step cfg policy env) (.init (setup cfg files)) iterations

/-- **One iteration.** Either HotSpot failed, and only files and history moved on; or it
succeeded, and the action is the policy's evaluation of the temperatures read back. -/
theorem step_cases {cfg : PipelineConfig K} {policy : DTMPolicy K} {env : PipelineEnv} {n : ℕ}
    {s s' : RunnerState K} {interval : Interval K}
    (moved : step cfg policy env n s = some (s', interval)) :
    ∃ row ok files, intervalPower cfg env n s = some row ∧
      runHotSpot cfg (env.hotspot n) none (writePower cfg row s.files) = (ok, files) ∧
      ((ok = false ∧ s' = skipDtm row { s with files } ∧ interval = ⟨row, none, files⟩) ∨
        ∃ bankTemps, ok = true ∧ getBankTemperatures cfg files = some bankTemps ∧
          s' = applyDtm policy row bankTemps { s with files } ∧
          interval = ⟨row, some bankTemps, s'.files⟩) := by
  obtain ⟨row, power, moved⟩ := Option.bind_eq_some_iff.mp moved
  cases outcome : runHotSpot cfg (env.hotspot n) none (writePower cfg row s.files) with
  | mk ok files =>
    rw [outcome] at moved
    refine ⟨row, ok, files, power, outcome, ?_⟩
    cases ok with
    | false =>
      cases moved
      exact Or.inl ⟨rfl, rfl, rfl⟩
    | true =>
      obtain ⟨bankTemps, read, eq⟩ := Option.map_eq_some_iff.mp moved
      cases eq
      exact Or.inr ⟨bankTemps, rfl, read, rfl, rfl⟩

/-! ## A uniformly warm stack -/

/-- Well-formed traces of a stack at `t` degrees Celsius everywhere. -/
def uniformOutputs (cfg : PipelineConfig K) (t : K) : Outputs :=
  let header := unlines [ptraceHeader cfg]
  let columns := logicColumns cfg + numBanks
  fun
  | .temperatureTrace => some (header ++ HotSpotTool.writeVals (List.replicate columns (t + 273.15)))
  | .powerTraceTotal => some (header ++ HotSpotTool.writeValsPower (List.replicate columns (0 : K)))
  | _ => none

/-- No accesses, and HotSpot answering `temps n` in step `n`. -/
def uniformEnv (cfg : PipelineConfig K) (temps : ℕ → K) : PipelineEnv where
  accessTrace := fun _ => some (List.replicate numBanks 0, List.replicate numBanks 0)
  hotspot := fun n _ _ => .exited 0 (uniformOutputs cfg (temps n))

/-- Such an iteration succeeds and reads back its temperature, rounded to two decimals. -/
theorem step_uniformEnv (cfg : PipelineConfig K) (policy : DTMPolicy K) (temps : ℕ → K) (n : ℕ)
    (s : RunnerState K) :
    ∃ row files, step cfg policy (uniformEnv cfg temps) n s =
      some (applyDtm policy row (fun _ => roundTo 2 (temps n)) { s with files },
        ⟨row, some fun _ => roundTo 2 (temps n),
          (applyDtm policy row (fun _ => roundTo 2 (temps n)) { s with files }).files⟩) := by
  have idle : (applyThrottle id s.throttleFactors (List.replicate numBanks 0)).length = numBanks := by
    rw [applyThrottle_zero, List.length_replicate]
  obtain ⟨row, power⟩ := Option.isSome_iff_exists.mp
    (computePowerTrace_isSome cfg s.bankTempsC idle.ge idle.ge s.bankActive s.scale)
  have columns : logicColumns cfg + numBanks ≤
      (List.replicate (logicColumns cfg + numBanks) (temps n + 273.15)).length := by
    rw [List.length_replicate]
  have read := readTemps_writeVals cfg (oneLine_formatPtraceHeader cfg) columns []
  have inRow (b : Bank) : logicColumns cfg + (b : ℕ) < logicColumns cfg + numBanks :=
    Nat.add_lt_add_left b.isLt _
  simp only [List.getElem?_replicate, inRow, if_true, Option.getD_some, add_sub_cancel_right,
    List.append_nil] at read
  refine ⟨row, afterSuccess ((writePower cfg row s.files).withOutputs
    (uniformOutputs cfg (temps n))), ?_⟩
  simp only [step, intervalPower, throttledPower, uniformEnv, power, Option.bind_some, afterHotSpot,
    runHotSpot, if_true, getBankTemperatures]
  rw [afterSuccess_temperatureTraceFile rfl, ptraceHeader, read]
  rfl

theorem bankTemps_uniformEnv {cfg : PipelineConfig K} {policy : DTMPolicy K} {temps : ℕ → K}
    {n : ℕ} {s s' : RunnerState K} {interval : Interval K}
    (moved : step cfg policy (uniformEnv cfg temps) n s = some (s', interval)) :
    interval.bankTemps = some fun _ => roundTo 2 (temps n) := by
  obtain ⟨row, files, eq⟩ := step_uniformEnv cfg policy temps n s
  cases moved.symm.trans eq
  rfl

/-- Such a run raises no exception, whatever the policy does. -/
theorem run_uniformEnv (cfg : PipelineConfig K) (policy : DTMPolicy K) (temps : ℕ → K)
    (files : WorkDir) (n : ℕ) :
    ∃ s shown, run cfg policy (uniformEnv cfg temps) files n = some (s, shown) := by
  induction n with
  | zero => exact ⟨_, _, rfl⟩
  | succ n ih =>
    obtain ⟨s, shown, reached⟩ := ih
    obtain ⟨row, next, moved⟩ := step_uniformEnv cfg policy temps n s
    exact ⟨_, _, runFor_succ.2 ⟨s, shown, _, reached, moved, rfl⟩⟩

end GpuHotSpot.Pipeline
