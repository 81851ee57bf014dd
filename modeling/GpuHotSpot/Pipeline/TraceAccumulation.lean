import GpuHotSpot.Pipeline.PipelineRunner

/-!
# The accumulated traces

Over a run, rows reach `full_power_mem.trace` from two places: the runner appends
the interval's row before HotSpot starts, and `HotSpotInterface.run` appends the
last row of the power trace once HotSpot has succeeded. The temperature and
total-power rows come from the second place alone.

* `fullPowerTrace_run`: what the accumulated power trace holds after any run.
* `rowsAligned_iff`: the accumulated traces line up exactly when no HotSpot
  invocation of the run succeeded.
-/

namespace GpuHotSpot.Pipeline

variable {K : Type*} [ExactFloat K]

/-! ## One run of HotSpot -/

theorem withOutputs_none (dir : WorkDir) : dir.withOutputs (fun _ => none) = dir := by
  funext file
  simp [WorkDir.withOutputs]

/-- HotSpot leaves its outputs behind; only a success does more. -/
theorem runHotSpot_cases {cfg : PipelineConfig K} {hotspot : HotSpotProcess}
    {voltages : Option (List K)} {dir files : WorkDir} {ok : Bool}
    (ran : runHotSpot cfg hotspot voltages dir = (ok, files)) :
    ∃ outputs, files =
      if ok then afterSuccess (dir.withOutputs outputs) else dir.withOutputs outputs := by
  simp only [runHotSpot] at ran
  split at ran
  · cases ran
    exact ⟨fun _ => none, by simp [withOutputs_none]⟩
  · rename_i status outputs _
    refine ⟨outputs, ?_⟩
    split_ifs at ran <;> cases ran <;> rfl

theorem afterSuccess_fullPowerTraceFile {dir : WorkDir} {text : Text}
    (content : dir .fullPowerTraceFile = some text) :
    afterSuccess dir .fullPowerTraceFile = some (text ++ lastRow dir .powerTraceFile) := by
  have frame {file : PipelineFile} (notTemperature : file ≠ .fullTemperatureTraceFile)
      (notInit : file ≠ .initFile) :
      appendLastLine .temperatureTraceFile .fullTemperatureTraceFile
        (dir.copy .allTransientFile .initFile) file = dir file := by
    rw [appendLastLine_other notTemperature, WorkDir.copy_other notInit]
  rw [afterSuccess, appendLastLine_other (by decide),
    appendLastLine_same ((frame (by decide) (by decide)).trans content), lastRow, lastRow,
    lastLine_eq_of_eq (frame (by decide) (by decide))]

/-! ## Power rows -/

/-- The line of an interval's power row. -/
def Interval.powerLine (interval : Interval K) : Text := formatPowerLine interval.row

omit [ExactFloat K] in
/-- Whether the interval's HotSpot invocation succeeded. -/
def Interval.succeeded (interval : Interval K) : Bool := interval.bankTemps.isSome

/-- What an interval adds to the accumulated power trace: its row, and the same row again
once HotSpot has succeeded. -/
def Interval.appendedPower (interval : Interval K) : List Text :=
  if interval.succeeded then [interval.powerLine, interval.powerLine] else [interval.powerLine]

theorem writePower_powerTraceFile (cfg : PipelineConfig K) (row : PowerRow K) (files : WorkDir) :
    writePower cfg row files .powerTraceFile =
      some (unlines [formatPtraceHeader cfg, formatPowerLine row]) := by
  rw [writePower, appendPowerLine, WorkDir.append_other (by decide), writePowerTrace,
    WorkDir.write_same]

theorem writePower_fullPowerTraceFile (cfg : PipelineConfig K) (row : PowerRow K)
    {files : WorkDir} {text : Text} (content : files .fullPowerTraceFile = some text) :
    writePower cfg row files .fullPowerTraceFile =
      some (text ++ unlines [formatPowerLine row]) := by
  rw [writePower, appendPowerLine, WorkDir.append_same, writePowerTrace,
    WorkDir.write_other (by decide), content, Option.getD_some]

/-- The last row of the power trace HotSpot was given is the interval's row. -/
theorem lastRow_writePower (cfg : PipelineConfig K) (row : PowerRow K) (files : WorkDir)
    (outputs : Outputs) :
    lastRow ((writePower cfg row files).withOutputs outputs) .powerTraceFile =
      unlines [formatPowerLine row] := by
  have lines : ∀ l ∈ [formatPtraceHeader cfg, formatPowerLine row], OneLine l := by
    simpa using ⟨oneLine_formatPtraceHeader cfg, oneLine_formatPowerLine row⟩
  rw [lastRow, lastLine, withOutputs_other rfl, writePower_powerTraceFile,
    Option.bind_some, readlines_unlines lines]
  simp [terminated]

/-- **One iteration** appends the interval's rows to the accumulated power trace. -/
theorem fullPowerTrace_step {cfg : PipelineConfig K} {policy : DTMPolicy K} {env : PipelineEnv}
    {n : ℕ} {s s' : RunnerState K} {interval : Interval K} {text : Text}
    (moved : step cfg policy env n s = some (s', interval))
    (content : s.files .fullPowerTraceFile = some text) :
    s'.files .fullPowerTraceFile = some (text ++ unlines interval.appendedPower) := by
  obtain ⟨row, ok, files, -, ran, ⟨rfl, rfl, rfl⟩ | ⟨bankTemps, rfl, -, rfl, rfl⟩⟩ :=
    step_cases moved
  · obtain ⟨outputs, rfl⟩ := runHotSpot_cases ran
    exact (withOutputs_other rfl).trans (writePower_fullPowerTraceFile cfg row content)
  · obtain ⟨outputs, rfl⟩ := runHotSpot_cases ran
    have written : (writePower cfg row s.files).withOutputs outputs .fullPowerTraceFile = _ :=
      (withOutputs_other rfl).trans (writePower_fullPowerTraceFile cfg row content)
    have appended := afterSuccess_fullPowerTraceFile written
    rw [lastRow_writePower, List.append_assoc, ← unlines_append] at appended
    exact (applyDtm_files_other policy row bankTemps _ (by decide)).trans appended

omit [ExactFloat K] in
theorem setup_fullPowerTraceFile (cfg : PipelineConfig K) (files : WorkDir) :
    setup cfg files .fullPowerTraceFile = some (unlines [ptraceHeader cfg]) := by
  rw [setup, WorkDir.write_other (by decide), WorkDir.write_same]

/-- **The accumulated power trace of a run.** Behind the header stand the rows of the intervals
in order, each twice if HotSpot succeeded in it. -/
theorem fullPowerTrace_run {cfg : PipelineConfig K} {policy : DTMPolicy K} {env : PipelineEnv}
    {files : WorkDir} {n : ℕ} {s : RunnerState K} {shown : List (Interval K)}
    (reached : run cfg policy env files n = some (s, shown)) :
    s.files .fullPowerTraceFile =
      some (unlines (ptraceHeader cfg :: shown.flatMap Interval.appendedPower)) := by
  refine runFor_invariant (P := fun _ s shown => s.files .fullPowerTraceFile =
    some (unlines (ptraceHeader cfg :: shown.flatMap Interval.appendedPower))) ?_ ?_ reached
  · exact setup_fullPowerTraceFile cfg files
  · intro n s shown t interval content moved
    rw [fullPowerTrace_step moved content, ← unlines_append, List.cons_append,
      List.flatMap_append, List.flatMap_singleton]

/-! ## Alignment -/

/-- The file holds the header and then these rows, one a line. -/
def HoldsRows (cfg : PipelineConfig K) (file : Option Text) (rows : List Text) : Prop :=
  file = some (unlines (ptraceHeader cfg :: rows)) ∧ ∀ row ∈ rows, OneLine row

/-- The file holds the header and then one row for each interval that succeeded: the last line
of `src` in the files that interval left. -/
def HoldsLastRows (cfg : PipelineConfig K) (file : Option Text) (src : PipelineFile)
    (shown : List (Interval K)) : Prop :=
  ∃ rows, HoldsRows cfg file rows ∧
    List.Forall₂ (fun interval row => lastLine interval.files src = some (row ++ ['\n']))
      (shown.filter Interval.succeeded) rows

/-- The accumulated power trace has one row for each interval in order, and the other two have
one for each interval that succeeded, in order. -/
structure RowsAligned (cfg : PipelineConfig K) (s : RunnerState K) (shown : List (Interval K)) :
    Prop where
  power : HoldsRows cfg (s.files .fullPowerTraceFile) (shown.map Interval.powerLine)
  temperature :
    HoldsLastRows cfg (s.files .fullTemperatureTraceFile) .temperatureTraceFile shown
  totalPower :
    HoldsLastRows cfg (s.files .fullTotalpowerTraceFile) .powerTraceTotalFile shown

/-- A run in which HotSpot never succeeded appends to the accumulated power trace alone. -/
theorem otherTraces_of_failed {cfg : PipelineConfig K} {policy : DTMPolicy K} {env : PipelineEnv}
    {files : WorkDir} {n : ℕ} {s : RunnerState K} {shown : List (Interval K)}
    (reached : run cfg policy env files n = some (s, shown))
    (failed : ∀ interval ∈ shown, interval.bankTemps = none) :
    s.files .fullTemperatureTraceFile = some (unlines [ptraceHeader cfg]) ∧
      s.files .fullTotalpowerTraceFile = some (unlines [ptraceHeader cfg]) := by
  refine runFor_invariant (P := fun _ s shown => (∀ interval ∈ shown, interval.bankTemps = none) →
    s.files .fullTemperatureTraceFile = some (unlines [ptraceHeader cfg]) ∧
      s.files .fullTotalpowerTraceFile = some (unlines [ptraceHeader cfg])) ?_ ?_ reached failed
  · intro _
    rw [RunnerState.init, setup]
    exact ⟨by simp, by simp⟩
  · intro n s shown t interval ih moved failed
    obtain ⟨temperature, total⟩ := ih fun iv member => failed iv (by simp [member])
    have noTemps := failed interval (by simp)
    obtain ⟨row, ok, files, -, ran, ⟨rfl, rfl, rfl⟩ | ⟨bankTemps, rfl, -, rfl, rfl⟩⟩ :=
      step_cases moved
    · obtain ⟨outputs, rfl⟩ := runHotSpot_cases ran
      exact ⟨((withOutputs_other rfl).trans
          (writePower_other cfg row (by decide) (by decide))).trans temperature,
        ((withOutputs_other rfl).trans
          (writePower_other cfg row (by decide) (by decide))).trans total⟩
    · cases noTemps

theorem oneLine_powerLine (interval : Interval K) : OneLine interval.powerLine :=
  oneLine_formatPowerLine interval.row

theorem oneLine_appendedPower (shown : List (Interval K)) :
    ∀ line ∈ shown.flatMap Interval.appendedPower, OneLine line := by
  intro line member
  obtain ⟨interval, -, appended⟩ := List.mem_flatMap.mp member
  unfold Interval.appendedPower at appended
  split_ifs at appended <;> simp at appended <;> exact appended ▸ oneLine_powerLine interval

/-- The accumulated power trace outgrows the intervals by the number of successes. -/
theorem length_appendedPower (shown : List (Interval K)) :
    (shown.flatMap Interval.appendedPower).length =
      shown.length + (shown.filter Interval.succeeded).length := by
  induction shown with
  | nil => rfl
  | cons interval shown ih =>
    rw [List.flatMap_cons, List.length_append, ih, List.length_cons, List.filter_cons]
    unfold Interval.appendedPower
    split_ifs <;> simp <;> omega

/-- **A single success breaks the alignment** of the accumulated power trace. -/
theorem not_rowsAligned_of_succeeded {cfg : PipelineConfig K} {policy : DTMPolicy K}
    {env : PipelineEnv} {files : WorkDir} {n : ℕ} {s : RunnerState K} {shown : List (Interval K)}
    (reached : run cfg policy env files n = some (s, shown)) {interval : Interval K}
    (member : interval ∈ shown) (success : interval.succeeded = true) :
    ¬ RowsAligned cfg s shown := by
  rintro ⟨⟨content, oneLine⟩, -, -⟩
  rw [fullPowerTrace_run reached, Option.some.injEq] at content
  have header : OneLine (ptraceHeader cfg) := oneLine_formatPtraceHeader cfg
  have lines := congrArg completeLines content
  rw [completeLines_unlines (List.forall_mem_cons.mpr ⟨header, oneLine_appendedPower shown⟩),
    completeLines_unlines (List.forall_mem_cons.mpr ⟨header, oneLine⟩)] at lines
  have length := congrArg List.length (List.cons_eq_cons.mp lines).2
  rw [length_appendedPower, List.length_map] at length
  have none := List.eq_nil_of_length_eq_zero (show (shown.filter Interval.succeeded).length = 0 by
    omega)
  exact absurd (none ▸ List.mem_filter.mpr ⟨member, success⟩) List.not_mem_nil

/-- **Row alignment.** The accumulated traces of a run line up exactly when HotSpot succeeded
in none of its intervals. -/
theorem rowsAligned_iff {cfg : PipelineConfig K} {policy : DTMPolicy K} {env : PipelineEnv}
    {files : WorkDir} {n : ℕ} {s : RunnerState K} {shown : List (Interval K)}
    (reached : run cfg policy env files n = some (s, shown)) :
    RowsAligned cfg s shown ↔ ∀ interval ∈ shown, interval.bankTemps = none := by
  constructor
  · intro aligned interval member
    by_contra success
    exact not_rowsAligned_of_succeeded reached member (Option.isSome_iff_ne_none.mpr success) aligned
  · intro failed
    obtain ⟨temperature, total⟩ := otherTraces_of_failed reached failed
    have single : shown.flatMap Interval.appendedPower = shown.map Interval.powerLine := by
      rw [List.map_eq_flatMap]
      refine List.flatMap_congr fun interval member => ?_
      simp [Interval.appendedPower, Interval.succeeded, failed interval member]
    have noRows : shown.filter Interval.succeeded = [] := by
      refine List.filter_eq_nil_iff.mpr fun interval member => ?_
      simp [Interval.succeeded, failed interval member]
    refine ⟨⟨?_, ?_⟩, ⟨[], ⟨temperature, by simp⟩, ?_⟩, ⟨[], ⟨total, by simp⟩, ?_⟩⟩
    · rw [fullPowerTrace_run reached, single]
    · simp only [List.forall_mem_map]
      exact fun interval _ => oneLine_powerLine interval
    · rw [noRows]
      exact List.Forall₂.nil
    · rw [noRows]
      exact List.Forall₂.nil

/-- One interval in which HotSpot succeeds, with the shipped settings and no DTM policy. -/
theorem exists_not_rowsAligned :
    ∃ s shown, run (K := ℝ) (.default []) (.composite [])
        (uniformEnv (K := ℝ) (.default []) fun _ => 50)
        (fun _ => none) 1 = some (s, shown) ∧
      ¬ RowsAligned (.default []) s shown := by
  obtain ⟨s, shown, reached⟩ := run_uniformEnv (K := ℝ) (.default []) (.composite [])
    (fun _ => 50) (fun _ => none) 1
  refine ⟨s, shown, reached, ?_⟩
  obtain ⟨_, _, _, interval, -, moved, -, entry⟩ := runFor_prefix reached one_pos
  exact not_rowsAligned_of_succeeded reached (List.mem_of_getElem? entry)
    (Option.isSome_iff_exists.mpr ⟨_, bankTemps_uniformEnv moved⟩)

theorem rowsAligned_iff_uniformEnv :
    ∃ s shown, run (K := ℝ) (.default []) (.composite [])
        (uniformEnv (K := ℝ) (.default []) fun _ => 50)
        (fun _ => none) 2 = some (s, shown) ∧
      (RowsAligned (.default []) s shown ↔ ∀ interval ∈ shown, interval.bankTemps = none) := by
  obtain ⟨s, shown, reached⟩ := run_uniformEnv (K := ℝ) (.default []) (.composite [])
    (fun _ => 50) (fun _ => none) 2
  exact ⟨s, shown, reached, rowsAligned_iff reached⟩

end GpuHotSpot.Pipeline
