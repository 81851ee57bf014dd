import GpuHotSpot.Lib.ExactFloat

/-!
# Pipeline configuration

`pipeline/config.py`: the HBM geometry, the bank/channel maps and the tuneable
thermal settings. The geometry is fixed by class attributes and stays constant
here; thresholds, DVFS tables and the stack type may be overridden per instance
and are fields of `PipelineConfig`.
-/

namespace GpuHotSpot.Pipeline

open scoped Literals

/-! ## Geometry -/

abbrev banksInX : ℕ := 4
abbrev banksInY : ℕ := 4
abbrev banksInZ : ℕ := 8

abbrev numBanks : ℕ := banksInX * banksInY * banksInZ

abbrev logicCoresInX : ℕ := banksInX
abbrev logicCoresInY : ℕ := banksInY

abbrev numLogicCores : ℕ := logicCoresInX * logicCoresInY

abbrev numChannels : ℕ := 8

abbrev numPseudoChannels : ℕ := 16

/-- The layers of the shipped `mem.lcf`: one logic and eight bank layers, each followed by TIM. -/
abbrev numHotspotLayers : ℕ := 18

abbrev Bank := Fin numBanks

abbrev Channel := Fin numChannels

abbrev PseudoChannel := Fin numPseudoChannels

theorem Bank.lt (bank : Bank) : (bank : ℕ) < 128 := bank.isLt

theorem Channel.lt (channel : Channel) : (channel : ℕ) < 8 := channel.isLt

/-- `bank_to_channel`: banks of the lower and the upper half of the stack share channels. -/
def bankToChannel (bank : Bank) : Channel :=
  ⟨bank % 64 / 8, show (bank : ℕ) % 64 / 8 < 8 by omega⟩

/-- `channel_to_banks`: eight banks of the lower half, then eight of the upper half. -/
def channelToBanks (channel : Channel) : List Bank :=
  have := channel.lt
  (List.finRange 8).map (fun i => ⟨channel * 8 + i, show (channel : ℕ) * 8 + i < 128 by omega⟩) ++
    (List.finRange 8).map
      (fun i => ⟨channel * 8 + 64 + i, show (channel : ℕ) * 8 + 64 + i < 128 by omega⟩)

theorem mem_channelToBanks {bank : Bank} {channel : Channel} :
    bank ∈ channelToBanks channel ↔ bankToChannel bank = channel := by
  have bankLt := bank.lt
  have channelLt := channel.lt
  simp only [channelToBanks, bankToChannel, List.mem_append, List.mem_map, List.mem_finRange,
    true_and, Fin.ext_iff]
  constructor
  · rintro (⟨i, eq⟩ | ⟨i, eq⟩) <;> omega
  · intro eq
    by_cases lower : (bank : ℕ) < 64
    · exact Or.inl ⟨⟨bank % 8, by omega⟩, by simp only; omega⟩
    · exact Or.inr ⟨⟨bank % 8, by omega⟩, by simp only; omega⟩

theorem channelToBanks_ne_nil (channel : Channel) : channelToBanks channel ≠ [] := by
  simp [channelToBanks]

/-! ## Energy and power constants -/

section Constants

variable {K : Type*} [ExactFloat K]

def energyPerReadNj : K := 20.55
def energyPerWriteNj : K := 20.55
def energyPerRefreshNj : K := 3.55
def energyPerActNj : K := 3.2
def energyPerPreNj : K := 1.1

def samplingIntervalNs : K := 1000000
def timestepUs : K := samplingIntervalNs / 1000
def tRefiUs : K := 7.8

/-- 64 MB banks, 1 K columns, 8 bits per column. -/
def rowsPerBankK : K := 64 / 1 / 8
def numRefreshCommandsPerTrefw : K := 8
def rowsRefreshedPerInterval : K := rowsPerBankK / numRefreshCommandsPerTrefw

def bankStaticPowerWRef : K := 0.020
def bankStaticRefTempC : K := 45.0
def leakageTempCoeff : K := 0.06
def logicCoreStaticPowerW : K := 0.020
def logicCoreDynamicPowerW : K := 0.015
def lowPowerLeakageFraction : K := 0.10

def defaultVoltageV : K := 1.1

end Constants

/-! ## Tuneable settings -/

/-- `TYPE_OF_STACK`, the architectures HotSpot's `-type` option knows. -/
inductive StackType
  | core
  | ddr
  | stack3Dmem
  | stack3D
  | stack2_5D
  deriving DecidableEq, Repr

/-- The spelling of a stack type on the command line. -/
def StackType.name : StackType → Text
  | .core => "Core".toList
  | .ddr => "DDR".toList
  | .stack3Dmem => "3Dmem".toList
  | .stack3D => "3D".toList
  | .stack2_5D => "2.5D".toList

/-- The parallel lists `DVFS_TEMP_THRESHOLDS_C`, `DVFS_FREQ_SCALE_FACTORS` and
`DVFS_VOLTAGE_SCALE_FACTORS`. Every threshold has its two factors, and there is a
first factor to fall back on, so no subscript of the walk is out of range. -/
structure DvfsTable (K : Type*) where
  thresholds : List K
  freqFactors : List K
  voltFactors : List K
  freqFactors_pos : 0 < freqFactors.length
  voltFactors_pos : 0 < voltFactors.length
  thresholds_le_freq : thresholds.length ≤ freqFactors.length
  thresholds_le_volt : thresholds.length ≤ voltFactors.length

/-- The files the pipeline and HotSpot exchange. `workingDirBankState` is the
`BankStateData.txt` of the directory HotSpot is started in. -/
inductive PipelineFile
  | initFileExternal
  | hotspotConfigFile
  | hotspotLayerFile
  | powerTraceFile
  | powerTraceTotalFile
  | fullPowerTraceFile
  | fullTotalpowerTraceFile
  | temperatureTraceFile
  | fullTemperatureTraceFile
  | steadyTempFile
  | gridSteadyFile
  | allTransientFile
  | initFile
  | bankStateFile
  | runtimeLayerFile
  | workingDirBankState
  deriving DecidableEq, Repr

/-- Where `PipelineConfig.__init__` puts each file by default. -/
def PipelineFile.path (repoRoot : Text) : PipelineFile → Text
  | initFileExternal => repoRoot ++ "/config/hotspot/3Dmem_16core/mem.init".toList
  | hotspotConfigFile => repoRoot ++ "/config/hotspot/3Dmem_16core/mem_hotspot.config".toList
  | hotspotLayerFile => repoRoot ++ "/config/hotspot/3Dmem_16core/mem.lcf".toList
  | powerTraceFile => repoRoot ++ "/pipeline_output/power_mem.trace".toList
  | powerTraceTotalFile => repoRoot ++ "/pipeline_output/tmmpFile_power2".toList
  | fullPowerTraceFile => repoRoot ++ "/pipeline_output/full_power_mem.trace".toList
  | fullTotalpowerTraceFile => repoRoot ++ "/pipeline_output/full_totalpower_mem.trace".toList
  | temperatureTraceFile => repoRoot ++ "/pipeline_output/temperature_mem.trace".toList
  | fullTemperatureTraceFile => repoRoot ++ "/pipeline_output/full_temperature_mem.trace".toList
  | steadyTempFile => repoRoot ++ "/pipeline_output/steady_temperature_mem.log".toList
  | gridSteadyFile => repoRoot ++ "/pipeline_output/grid_steady_mem.log".toList
  | allTransientFile => repoRoot ++ "/pipeline_output/all_transient_mem.init".toList
  | initFile => repoRoot ++ "/pipeline_output/temperature_mem.init".toList
  | bankStateFile => repoRoot ++ "/pipeline_output/BankStateData.txt".toList
  | runtimeLayerFile => repoRoot ++ "/pipeline_output/mem.lcf".toList
  | workingDirBankState => "BankStateData.txt".toList

/-- The settings a `PipelineConfig` instance may override. -/
structure PipelineConfig (K : Type*) where
  throttleTempC : K
  criticalTempC : K
  cooldownTempC : K
  dvfs : DvfsTable K
  typeOfStack : StackType
  repoRoot : Text
  hotspotExecutable : Text
  path : PipelineFile → Text

/-- The shipped defaults. -/
def PipelineConfig.default {K : Type*} [ExactFloat K] (repoRoot : Text) : PipelineConfig K where
  repoRoot := repoRoot
  hotspotExecutable := repoRoot ++ "/hotspot_tool/hotspot".toList
  path := PipelineFile.path repoRoot
  throttleTempC := 80.0
  criticalTempC := 85.0
  cooldownTempC := 75.0
  dvfs :=
    { thresholds := [76.0, 78.0, 80.0, 82.0]
      freqFactors := [1.0, 0.85, 0.70, 0.50]
      voltFactors := [1.0, 0.95, 0.90, 0.85]
      freqFactors_pos := by simp
      voltFactors_pos := by simp
      thresholds_le_freq := by simp
      thresholds_le_volt := by simp }
  typeOfStack := .stack3Dmem

/-! ## The files on disk -/

/-- The texts of the files that exist. -/
abbrev WorkDir := PipelineFile → Option Text

namespace WorkDir

/-- `open(file, "w")` and one `write`. -/
def write (dir : WorkDir) (file : PipelineFile) (text : Text) : WorkDir :=
  Function.update dir file (some text)

/-- `open(file, "a")` and one `write`; a missing file is created. -/
def append (dir : WorkDir) (file : PipelineFile) (text : Text) : WorkDir :=
  dir.write file ((dir file).getD [] ++ text)

/-- `shutil.copy2(src, dst)` of a file that exists. -/
def copy (dir : WorkDir) (src dst : PipelineFile) : WorkDir :=
  match dir src with
  | some text => dir.write dst text
  | none => dir

@[simp] theorem write_same (dir : WorkDir) (file : PipelineFile) (text : Text) :
    dir.write file text file = some text :=
  Function.update_self ..

@[simp] theorem append_same (dir : WorkDir) (file : PipelineFile) (text : Text) :
    dir.append file text file = some ((dir file).getD [] ++ text) :=
  Function.update_self ..

variable {dir : WorkDir} {file other : PipelineFile}

@[simp] theorem write_other (ne : other ≠ file) (text : Text) :
    dir.write file text other = dir other :=
  Function.update_of_ne ne ..

@[simp] theorem append_other (ne : other ≠ file) (text : Text) :
    dir.append file text other = dir other :=
  Function.update_of_ne ne ..

@[simp] theorem copy_other {src : PipelineFile} (ne : other ≠ file) :
    dir.copy src file other = dir other := by
  cases content : dir src with
  | none => simp only [copy, content]
  | some text => simp only [copy, content, write_other ne]

end WorkDir

end GpuHotSpot.Pipeline
