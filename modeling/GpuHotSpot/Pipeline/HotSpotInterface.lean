import GpuHotSpot.HotSpotTool.Columns
import GpuHotSpot.Pipeline.HbmPowerModel

/-!
# The HotSpot interface

`pipeline/hotspot_interface.py`: prepare the accumulated traces, run the HotSpot
process, append its last rows to them, and read bank temperatures back. HotSpot
itself is a parameter: a function from its command line and the files it finds to
the way it ends. It writes to the files its command line names as outputs and to
no other.

* `run_success`, `run_failure`: all a run does to the files.
* `readTemps_writeVals`: a row HotSpot writes is read back bank by bank, rounded
  to two decimals.
-/

namespace GpuHotSpot.Pipeline

open HotSpotTool (writeVals writeRow)
open scoped Literals

variable {K : Type*} [ExactFloat K]

/-! ## The HotSpot process -/

/-- The files HotSpot's command line names as outputs. -/
inductive HotSpotOutput
  | temperatureTrace
  | powerTraceTotal
  | steadyTemp
  | allTransient
  | gridSteady
  deriving DecidableEq, Repr

/-- The output a file is, if it is one. -/
def PipelineFile.output : PipelineFile → Option HotSpotOutput
  | temperatureTraceFile => some .temperatureTrace
  | powerTraceTotalFile => some .powerTraceTotal
  | steadyTempFile => some .steadyTemp
  | allTransientFile => some .allTransient
  | gridSteadyFile => some .gridSteady
  | _ => none

/-- The new texts of the outputs a process wrote. -/
abbrev Outputs := HotSpotOutput → Option Text

/-- How starting a process ends: there is no such executable, or it exits with a status. -/
inductive ProcOutcome
  | fileNotFound
  | exited (status : ℕ) (outputs : Outputs)

/-- The files after a process has written its outputs. -/
def WorkDir.withOutputs (dir : WorkDir) (outputs : Outputs) : WorkDir := fun file =>
  file.output.bind outputs <|> dir file

/-- HotSpot as a program: its command line and the files it finds decide how it ends. -/
abbrev HotSpotProcess := List Text → WorkDir → ProcOutcome

/-! ## Setup -/

/-- `_ptrace_header`. -/
def ptraceHeader (cfg : PipelineConfig K) : Text := formatPtraceHeader cfg

/-- `os.path.join`. -/
def pathJoin (dir path : Text) : Text :=
  if path.head? = some '/' then path
  else if dir = [] ∨ dir.getLast? = some '/' then dir ++ path
  else dir ++ '/' :: path

omit [ExactFloat K] in
theorem length_ptraceNames (cfg : PipelineConfig K) :
    (ptraceNames cfg).length = logicColumns cfg + numBanks := by
  simp [ptraceNames, bankColumns_eq_range]

/-- The numeral of a column is not changed by `strcasecmp`'s folding. -/
theorem foldCase_numeral (i : ℕ) : HotSpotTool.foldCase (Nat.toDigits 10 i) = Nat.toDigits 10 i := by
  refine (List.map_congr_left fun c member => ?_).trans (List.map_id _)
  have digit := toNat_of_isDigitIn_ten (isDigitIn_of_mem_toDigits (by decide) (by decide) member)
  rw [Char.toLower, dif_neg, id]
  rintro ⟨upper, -⟩
  have : 65 ≤ c.toNat := upper
  omega

omit [ExactFloat K] in
/-- HotSpot can read the header of a power trace. -/
theorem readable_ptraceNames (cfg : PipelineConfig K) : HotSpotTool.Readable (ptraceNames cfg) := by
  have columns : logicColumns cfg ≤ 16 := by
    rw [logicColumns]
    split_ifs <;> decide
  have numeral (i : ℕ) (small : i < 10 ^ 3) : (Nat.toDigits 10 i).length ≤ 3 :=
    (Nat.length_toDigits_le_iff (by decide) (by decide)).mpr small
  have length := length_ptraceNames cfg
  have banks : numBanks = 128 := rfl
  refine .of_short ?_ (ptraceNames_token cfg) (m := 6) ?_ ?_ ?_
  · exact List.ne_nil_of_length_pos (by omega)
  · intro t member
    simp only [ptraceNames, bankColumns_eq_range, List.mem_append, List.mem_map, List.mem_range]
      at member
    rcases member with ⟨i, small, rfl⟩ | ⟨i, small, rfl⟩
    · have := numeral i (by omega)
      rw [logicColumnName, List.length_append, show "LC_".toList.length = 3 from rfl]
      omega
    · have := numeral i (by omega)
      rw [bankColumnName, List.length_append, show "B_".toList.length = 2 from rfl]
      omega
  · rw [length, HotSpotTool.maxUnits]
    omega
  · rw [length, HotSpotTool.lineSize]
    omega

omit [ExactFloat K] in
/-- No two columns of a power trace have one name. -/
theorem nodup_ptraceNames (cfg : PipelineConfig K) :
    ((ptraceNames cfg).map HotSpotTool.foldCase).Nodup := by
  have logic (i : ℕ) : HotSpotTool.foldCase (logicColumnName i) = "lc_".toList ++ Nat.toDigits 10 i := by
    rw [logicColumnName, HotSpotTool.foldCase, List.map_append]
    exact congrArg _ (foldCase_numeral i)
  have bank (i : ℕ) : HotSpotTool.foldCase (bankColumnName i) = "b_".toList ++ Nat.toDigits 10 i := by
    rw [bankColumnName, HotSpotTool.foldCase, List.map_append]
    exact congrArg _ (foldCase_numeral i)
  have numeral := toDigits_injective (b := 10) (by decide) (by decide)
  rw [ptraceNames, bankColumns_eq_range, List.map_append, List.map_map, List.map_map,
    List.nodup_append]
  refine ⟨List.nodup_range.map fun i j same => ?_, List.nodup_range.map fun i j same => ?_, ?_⟩
  · simp only [Function.comp_apply, logic] at same
    exact numeral (List.append_cancel_left same)
  · simp only [Function.comp_apply, bank] at same
    exact numeral (List.append_cancel_left same)
  · intro t inLogic u inBanks
    obtain ⟨i, -, rfl⟩ := List.mem_map.mp inLogic
    obtain ⟨j, -, rfl⟩ := List.mem_map.mp inBanks
    simp only [Function.comp_apply, logic, bank]
    simp

omit [ExactFloat K] in
/-- The header fits a floorplan of one layer of its columns. -/
theorem headerFits_ptraceNames (cfg : PipelineConfig K) :
    HotSpotTool.HeaderFits [⟨true, ptraceNames cfg⟩] (ptraceNames cfg) := by
  simp [HotSpotTool.HeaderFits, nodup_ptraceNames]

/-- The fields of a power row. -/
def powerFields (row : PowerRow K) : List Text :=
  row.logicPower.map ExactFloat.str ++ row.bankPower.map ExactFloat.str

/-- A power trace is a header and one row, as HotSpot reads them. -/
theorem writePowerTrace_rows (cfg : PipelineConfig K) (row : PowerRow K) (file : PipelineFile)
    (dir : WorkDir) : writePowerTrace cfg row file dir file =
      some (writeRow (ptraceNames cfg) ++ writeRow (powerFields row)) := by
  rw [writePowerTrace, WorkDir.write_same, writeRow, writeRow, ← unlines_append]
  rfl

/-- One line of `prepare_lcf`: references to `.flp` files are resolved. -/
def prepareLcfLine (repoRoot line : Text) : Text :=
  let stripped := stripBy isUnicodeSpace line
  if ".flp".toList.isSuffixOf stripped then pathJoin repoRoot stripped ++ ['\n'] else line

/-- `prepare_lcf`. -/
def prepareLcf (cfg : PipelineConfig K) (dir : WorkDir) : WorkDir :=
  match dir .hotspotLayerFile with
  | none => dir
  | some text => dir.write .runtimeLayerFile ((readlines text).flatMap (prepareLcfLine cfg.repoRoot))

/-- `HotSpotInterface.setup`. -/
def setup (cfg : PipelineConfig K) (dir : WorkDir) : WorkDir :=
  let dir := dir.copy .initFileExternal .initFile
  let dir := prepareLcf cfg dir
  let header := unlines [ptraceHeader cfg]
  ((dir.write .fullTemperatureTraceFile header).write .fullPowerTraceFile header).write
    .fullTotalpowerTraceFile header

/-! ## Running HotSpot -/

/-- `",".join("%.2f" % v for v in voltage_per_layer)`. -/
def voltageStr (voltagePerLayer : List K) : Text :=
  List.intercalate [','] (voltagePerLayer.map (fmtFixed 2))

/-- `",".join(["1"] * num_layers) + ","`. -/
def layerFlags : Text :=
  List.intercalate [','] (List.replicate numHotspotLayers ['1']) ++ [',']

/-- `cfg.interval_sec`. -/
def intervalSec : K := samplingIntervalNs * 10 ^ (-9 : ℤ)

/-- The options of `cmd_parts` with their values. -/
def hotspotOptions (cfg : PipelineConfig K) (voltagePerLayer : List K) (dir : WorkDir) :
    List (Text × Text) :=
  let layerFile :=
    if (dir .runtimeLayerFile).isSome then cfg.path .runtimeLayerFile
    else cfg.path .hotspotLayerFile
  [ ("c".toList, cfg.path .hotspotConfigFile),
    ("p".toList, cfg.path .powerTraceFile),
    ("pTot".toList, cfg.path .powerTraceTotalFile),
    ("o".toList, cfg.path .temperatureTraceFile),
    ("model_secondary".toList, "1".toList),
    ("model_type".toList, "grid".toList),
    ("steady_file".toList, cfg.path .steadyTempFile),
    ("all_transient_file".toList, cfg.path .allTransientFile),
    ("grid_steady_file".toList, cfg.path .gridSteadyFile),
    ("steady_state_print_disable".toList, "1".toList),
    ("l".toList, layerFlags),
    ("type".toList, cfg.typeOfStack.name),
    ("sampling_intvl".toList, ExactFloat.str (intervalSec : K)),
    ("grid_layer_file".toList, layerFile),
    ("detailed_3D".toList, "on".toList),
    ("v".toList, voltageStr voltagePerLayer) ] ++
  if (dir .initFile).isSome then [("init_file".toList, cfg.path .initFile)] else []

/-- `cmd_parts`: the executable, then every option behind a dash. -/
def cmdParts (cfg : PipelineConfig K) (voltagePerLayer : List K) (dir : WorkDir) : List Text :=
  cfg.hotspotExecutable ::
    (hotspotOptions cfg voltagePerLayer dir).flatMap fun (name, value) => ['-' :: name, value]

/-- `line if line.endswith("\n") else line + "\n"`. -/
def terminated (line : Text) : Text :=
  if line.getLast? = some '\n' then line else line ++ ['\n']

/-- The last line of a file, if it holds any. -/
def lastLine (dir : WorkDir) (src : PipelineFile) : Option Text :=
  (dir src).bind fun text => (readlines text).getLast?

/-- `_append_last_line`. -/
def appendLastLine (src dst : PipelineFile) (dir : WorkDir) : WorkDir :=
  match lastLine dir src with
  | some line => dir.append dst (terminated line)
  | none => dir

/-- What a successful run leaves behind: the transient state copied for the next interval
and the last rows appended. -/
def afterSuccess (dir : WorkDir) : WorkDir :=
  let dir := dir.copy .allTransientFile .initFile
  let dir := appendLastLine .temperatureTraceFile .fullTemperatureTraceFile dir
  let dir := appendLastLine .powerTraceFile .fullPowerTraceFile dir
  appendLastLine .powerTraceTotalFile .fullTotalpowerTraceFile dir

/-- `HotSpotInterface.run`: whether it succeeded, and the files afterwards. -/
def runHotSpot (cfg : PipelineConfig K) (hotspot : HotSpotProcess)
    (voltagePerLayer : Option (List K)) (dir : WorkDir) : Bool × WorkDir :=
  let voltages := voltagePerLayer.getD (List.replicate numHotspotLayers defaultVoltageV)
  match hotspot (cmdParts cfg voltages dir) dir with
  | .fileNotFound => (false, dir)
  | .exited status outputs =>
    if status = 0 then (true, afterSuccess (dir.withOutputs outputs))
    else (false, dir.withOutputs outputs)

/-! ## Reading temperatures -/

/-- `float` of every entry, if none raises. -/
def sequenceBanks (cells : Bank → Option K) : Option (Bank → K) :=
  if h : ∀ b, (cells b).isSome then some fun b => (cells b).get (h b) else none

/-- `_read_temps` of a file's text: zeros where the data row has no column for a bank. -/
def readTemps (cfg : PipelineConfig K) (file : Option Text) : Option (Bank → K) :=
  match file with
  | none => some fun _ => 0
  | some text =>
    let dataLine := stripBy isUnicodeSpace ((readlines text)[1]?.getD [])
    if dataLine = [] then some fun _ => 0
    else
      let values := tokensBy isUnicodeSpace dataLine
      let offset := logicColumns cfg
      sequenceBanks fun b =>
        match values[offset + (b : ℕ)]? with
        | some value => ExactFloat.read value
        | none => some 0

/-- `get_bank_temperatures`. -/
def getBankTemperatures (cfg : PipelineConfig K) (dir : WorkDir) : Option (Bank → K) :=
  readTemps cfg (dir .temperatureTraceFile)

/-! ## What a run does to the files -/

section Files

variable {dir : WorkDir} {outputs : Outputs}

/-- A file that is no output keeps its text. -/
theorem withOutputs_other {file : PipelineFile} (other : file.output = none) :
    dir.withOutputs outputs file = dir file := by
  simp [WorkDir.withOutputs, other]

theorem withOutputs_written {file : PipelineFile} {o : HotSpotOutput} {text : Text}
    (output : file.output = some o) (written : outputs o = some text) :
    dir.withOutputs outputs file = some text := by
  simp [WorkDir.withOutputs, output, written]

theorem appendLastLine_other {src dst file : PipelineFile} (ne : file ≠ dst) :
    appendLastLine src dst dir file = dir file := by
  cases last : lastLine dir src with
  | none => simp only [appendLastLine, last]
  | some line => simp only [appendLastLine, last, WorkDir.append_other ne]

/-- What `_append_last_line` adds to the destination. -/
def lastRow (dir : WorkDir) (src : PipelineFile) : Text :=
  (lastLine dir src).elim [] terminated

theorem appendLastLine_same {src dst : PipelineFile} {text : Text} (content : dir dst = some text) :
    appendLastLine src dst dir dst = some (text ++ lastRow dir src) := by
  cases last : lastLine dir src with
  | none => simp [appendLastLine, lastRow, last, content]
  | some line => simp [appendLastLine, lastRow, last, content]

theorem lastLine_eq_of_eq {dir dir' : WorkDir} {src : PipelineFile} (same : dir src = dir' src) :
    lastLine dir src = lastLine dir' src := by
  rw [lastLine, lastLine, same]

end Files

/-- The files only a successful run writes to. -/
theorem afterSuccess_other {dir : WorkDir} {file : PipelineFile} (notInit : file ≠ .initFile)
    (notTemperature : file ≠ .fullTemperatureTraceFile) (notPower : file ≠ .fullPowerTraceFile)
    (notTotal : file ≠ .fullTotalpowerTraceFile) : afterSuccess dir file = dir file := by
  rw [afterSuccess, appendLastLine_other notTotal, appendLastLine_other notPower,
    appendLastLine_other notTemperature, WorkDir.copy_other notInit]

/-- What a successful run reads back is what the process wrote. -/
theorem afterSuccess_temperatureTraceFile {dir : WorkDir} {outputs : Outputs} {text : Text}
    (written : outputs .temperatureTrace = some text) :
    afterSuccess (dir.withOutputs outputs) .temperatureTraceFile = some text := by
  rw [afterSuccess_other (by decide) (by decide) (by decide) (by decide)]
  exact withOutputs_written rfl written

/-! ## Reading a written row -/

omit [ExactFloat K] in
theorem sequenceBanks_some (values : Bank → K) :
    sequenceBanks (fun b => some (values b)) = some values := by
  simp [sequenceBanks]

/-- **Bank temperatures.** The first row HotSpot writes behind any header line is read back
bank by bank, in degrees Celsius and rounded to two decimals. -/
theorem readTemps_writeVals (cfg : PipelineConfig K) {header : Text} (line : OneLine header)
    {vals : List K} (wide : logicColumns cfg + numBanks ≤ vals.length) (rest : Text) :
    readTemps cfg (some (unlines [header] ++ (writeVals vals ++ rest))) =
      some fun b : Bank => roundTo 2 ((vals[logicColumns cfg + (b : ℕ)]?.getD 0) - 273.15) := by
  have fieldsLine : ∀ t ∈ vals.map fun v => fmtFixed 2 (v - 273.15), OneLine t := by
    simp only [List.forall_mem_map]
    exact fun v _ => (fmtFixed_token 2 _).oneLine
  have rowLine := oneLine_intercalate (show OneLine ['\t'] by simp [OneLine]) fieldsLine
  have fields : tokensBy isUnicodeSpace (List.intercalate ['\t']
      (vals.map fun v => fmtFixed 2 (v - 273.15)) ++ ['\n']) =
        vals.map fun v => fmtFixed 2 (v - 273.15) := by
    rw [tokensBy_append_singleton _ (by decide), tokensBy_intercalate (by decide)]
    · simp only [List.forall_mem_map]
      exact fun v _ => fmtFixed_ne_nil 2 _
    · simp only [List.forall_mem_map]
      exact fun v _ => fmtFixed_noUnicodeSpace 2 _
  have lines : readlines (unlines [header] ++ (writeVals vals ++ rest)) =
      (header ++ ['\n']) :: (List.intercalate ['\t']
        (vals.map fun v => fmtFixed 2 (v - 273.15)) ++ ['\n']) :: readlines rest := by
    rw [← readlines_cons rowLine, ← readlines_cons line]
    simp [writeVals, writeRow]
  have nonempty : vals ≠ [] := by
    rintro rfl
    simp at wide
  have visible : stripBy isUnicodeSpace (List.intercalate ['\t']
      (vals.map fun v => fmtFixed 2 (v - 273.15)) ++ ['\n']) ≠ [] := by
    intro blank
    have none := tokensBy_stripBy (p := isUnicodeSpace) (List.intercalate ['\t']
      (vals.map fun v => fmtFixed 2 (v - 273.15)) ++ ['\n'])
    rw [blank, fields, tokensBy_nil] at none
    simp [nonempty] at none
  simp only [readTemps, lines, List.getElem?_cons_succ, List.getElem?_cons_zero, Option.getD_some,
    if_neg visible, tokensBy_stripBy, fields]
  rw [← sequenceBanks_some]
  congr 1
  funext b
  have inRow : logicColumns cfg + (b : ℕ) < vals.length := by
    have := b.lt
    simp only [show numBanks = 128 from rfl] at wide
    omega
  simp [List.getElem?_eq_getElem inRow, ExactFloat.read_fmtFixed 1]

end GpuHotSpot.Pipeline
