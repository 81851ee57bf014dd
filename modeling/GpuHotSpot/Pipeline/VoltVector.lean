import GpuHotSpot.HotSpotTool.GlobalConfig
import GpuHotSpot.Pipeline.HotSpotInterface

/-!
# Supply voltages on the command line

`HotSpotInterface.run` prints the supply voltages with two decimals each and joins
them by commas; `main` takes the digits of a voltage from fixed places around its
comma and finds the entry by dividing a position by four. A printed voltage takes
five places, so the two agree for two voltages at most.

* `crosses_iff`: when the voltages arrive.
-/

namespace GpuHotSpot.Pipeline

open HotSpotTool
open scoped Literals

variable {K : Type*} [ExactFloat K]

/-! ## What crossing the boundary means -/

/-- Every voltage arrives as ten times its value truncated to one decimal, and no assignment
that counts goes to another entry. -/
structure VoltIntact (vs : List K) (writes counted : List VoltWrite) : Prop where
  value : ∀ k v, vs[k]? = some v → ((storeVolt writes k).toNat : ℤ) = ⌊10 * v⌋
  inside : ∀ w ∈ counted, w.1 < vs.length

/-- `main` does not get as far as its supply voltages. -/
def Refused (cfg : PipelineConfig K) (vs : List K) (dir : WorkDir) : Prop :=
  ∀ config, globalConfig (cmdParts cfg vs dir) ≠ .ok config

/-- The voltages `run` formats are those `main` parses, with `counted` of its assignments taken
to be the parser's. -/
def Crosses (cfg : PipelineConfig K) (vs : List K) (dir : WorkDir)
    (counted : Text → List VoltWrite) : Prop :=
  ∀ config, globalConfig (cmdParts cfg vs dir) = .ok config →
    VoltIntact vs (voltWrites config.voltVector) (counted config.voltVector)

/-- Printing to two decimals does not carry a voltage over to the next tenth. -/
def KeepsTenths (v : K) : Prop := roundHalfEven (v * 10 ^ 2) / 10 = ⌊10 * v⌋

/-! ## One printed voltage -/

/-- A voltage of one digit before the point, in hundredths. -/
theorem fmtScaled_two {s : ℕ} (small : s < 1000) :
    fmtScaled 2 s = [(s / 100).digitChar, '.', (s % 100 / 10).digitChar, (s % 10).digitChar] := by
  have whole : Nat.toDigits 10 (s / 100) = [(s / 100).digitChar] :=
    Nat.toDigits_of_lt_base (by omega)
  have units : s % 100 % 10 = s % 10 := by omega
  rw [fmtScaled, show 10 ^ 2 = 100 from rfl, whole]
  by_cases one : s % 100 < 10
  · have tenth : s % 100 / 10 = 0 := by omega
    have last : s % 100 = s % 10 := by omega
    rw [Nat.toDigits_of_lt_base one, tenth, ← last]
    rfl
  · rw [Nat.toDigits_of_base_le (by decide) (not_lt.mp one),
      Nat.toDigits_of_lt_base (show s % 100 / 10 < 10 by omega), units]
    rfl

theorem charDigit_digitChar {d : ℕ} (small : d < 10) :
    UInt32.ofNat d.digitChar.toNat - 48 = UInt32.ofNat d := by
  interval_cases d <;> decide

/-- A printed voltage, in hundredths. -/
def hundredths (v : K) : ℕ := (roundHalfEven (v * 10 ^ 2)).toNat

section OneVoltage

variable {v : K} (nonneg : 0 ≤ v) (below : v < 10)
include nonneg below

theorem hundredths_le : hundredths v ≤ 1000 ∧ (hundredths v : ℤ) = roundHalfEven (v * 10 ^ 2) := by
  have scaled : v * 10 ^ 2 ≤ ((1000 : ℤ) : K) := by
    push_cast
    linarith
  have upper := (roundHalfEven_mono scaled).trans_eq (roundHalfEven_intCast 1000)
  have cast := Int.toNat_of_nonneg (roundHalfEven_nonneg (show 0 ≤ v * 10 ^ 2 by positivity))
  rw [hundredths]
  exact ⟨by omega, cast⟩

omit below in
theorem fmtFixed_eq_fmtScaled : fmtFixed 2 v = fmtScaled 2 (hundredths v) := by
  rw [fmtFixed, hundredths, abs_of_nonneg nonneg]
  exact if_neg nonneg.not_gt

theorem length_printed : (fmtFixed 2 v).length = if hundredths v < 1000 then 4 else 5 := by
  have le := (hundredths_le nonneg below).1
  rw [fmtFixed_eq_fmtScaled nonneg]
  split_ifs with small
  · rw [fmtScaled_two small]
    rfl
  · rw [show hundredths v = 1000 by omega]
    decide

/-- Printing carries to the next tenth wherever it carries to ten. -/
theorem hundredths_lt (keeps : KeepsTenths v) : hundredths v < 1000 := by
  obtain ⟨-, cast⟩ := hundredths_le nonneg below
  have tenths : ⌊10 * v⌋ < 100 := by
    rw [Int.floor_lt]
    push_cast
    linarith
  rw [KeepsTenths, ← cast] at keeps
  omega

/-- What `main` takes from a printed voltage is right just where printing keeps its tenths. -/
theorem voltAt_printed : ((voltAt (fmtFixed 2 v) 2).toNat : ℤ) = ⌊10 * v⌋ ↔ KeepsTenths v := by
  obtain ⟨le, cast⟩ := hundredths_le nonneg below
  rw [fmtFixed_eq_fmtScaled nonneg]
  by_cases small : hundredths v < 1000
  · have value : (voltAt (fmtScaled 2 (hundredths v)) 2).toNat = hundredths v / 10 := by
      rw [fmtScaled_two small]
      show (10 * (UInt32.ofNat (hundredths v / 100).digitChar.toNat - 48) +
        (UInt32.ofNat (hundredths v % 100 / 10).digitChar.toNat - 48)).toNat = _
      rw [charDigit_digitChar (by omega), charDigit_digitChar (by omega)]
      have ten : UInt32.toNat 10 = 10 := rfl
      simp only [UInt32.toNat_add, UInt32.toNat_mul, UInt32.toNat_ofNat', ten]
      omega
    rw [value, KeepsTenths, ← cast]
    norm_cast
  · have ten : hundredths v = 1000 := by omega
    -- "10.00" is read as ten times one and the point behind the nought
    have value : (voltAt (fmtScaled 2 (hundredths v)) 2).toNat = 8 := by
      rw [ten]
      decide
    have near : 9 < v := by
      have floor := roundHalfEven_le_floor_add_one (v * 10 ^ 2)
      rw [← cast, ten] at floor
      have : ((999 : ℤ) : K) ≤ v * 10 ^ 2 := Int.le_floor.mp (by push_cast at floor; omega)
      push_cast at this
      linarith
    constructor
    · intro eight
      rw [value] at eight
      have : (9 : ℤ) ≤ ⌊10 * v⌋ := Int.le_floor.mpr (by push_cast; linarith)
      omega
    · intro keeps
      exact absurd (hundredths_lt nonneg below keeps) small

end OneVoltage

/-! ## The printed vector -/

theorem comma_notMem_printed (v : K) : ',' ∉ fmtFixed 2 v := fun member =>
  forall_mem_fmtFixed (P := fun c => c ≠ ',') (by
    rintro c digit rfl
    exact absurd digit (by decide)) (by decide) (by decide) 2 v ',' member rfl

omit [ExactFloat K] in
theorem voltageStr_concat [ExactFloat K] {vs : List K} (nonempty : vs ≠ []) (v : K) :
    voltageStr (vs ++ [v]) = voltageStr vs ++ ',' :: fmtFixed 2 v := by
  rw [voltageStr, List.map_append, List.map_singleton, intercalate_concat (by simpa using nonempty)]
  rfl

/-- Every voltage has one digit before the point. -/
def InRange (vs : List K) : Prop := ∀ v ∈ vs, 0 ≤ v ∧ v < 10

section Vector

variable {vs : List K} {v : K}

theorem four_le_length_printed (range : 0 ≤ v ∧ v < 10) : 4 ≤ (fmtFixed 2 v).length := by
  rw [length_printed range.1 range.2]
  split_ifs <;> omega

/-- A printed voltage with its comma takes five places at least. -/
theorem length_voltageStr (nonempty : vs ≠ []) (range : InRange vs) :
    5 * vs.length ≤ (voltageStr vs).length + 1 := by
  induction vs using List.reverseRecOn with
  | nil => exact absurd rfl nonempty
  | append_singleton front v ih =>
    have last := four_le_length_printed (range v (by simp))
    by_cases single : front = []
    · subst single
      simp only [voltageStr, List.nil_append, List.map_singleton, List.intercalate_singleton,
        List.length_singleton]
      omega
    · have before := ih single fun v member => range v (by simp [member])
      rw [voltageStr_concat single, List.length_append, List.length_append, List.length_singleton,
        List.length_cons]
      omega

/-- The last three characters belong to the last voltage. -/
theorem clear_voltageStr (nonempty : vs ≠ []) (range : InRange vs) (p : ℕ)
    (near : (voltageStr vs).length ≤ p + 3) : (voltageStr vs)[p]? ≠ some ',' := by
  rcases List.eq_nil_or_concat' vs with rfl | ⟨front, v, rfl⟩
  · exact absurd rfl nonempty
  have last := four_le_length_printed (range v (by simp))
  intro comma
  by_cases single : front = []
  · subst single
    simp only [voltageStr, List.nil_append, List.map_singleton, List.intercalate_singleton] at comma
    exact comma_notMem_printed v (List.mem_of_getElem? comma)
  · rw [voltageStr_concat single, List.length_append, List.length_cons] at near
    rw [voltageStr_concat single, List.getElem?_append_right (by omega),
      show p - (voltageStr front).length = p - (voltageStr front).length - 1 + 1 by omega,
      List.getElem?_cons_succ] at comma
    exact comma_notMem_printed v (List.mem_of_getElem? comma)

/-- **One more voltage** is one more assignment, at a position that grows by five or six. -/
theorem fieldWrites_concat (nonempty : vs ≠ []) (range : InRange (vs ++ [v])) :
    fieldWrites (voltageStr (vs ++ [v])) = fieldWrites (voltageStr vs) ++
      [((3 + (voltageStr vs).length) / 4, voltAt (fmtFixed 2 v) 2)] := by
  have before : InRange vs := fun v member => range v (by simp [member])
  have long := length_voltageStr nonempty before
  have some_voltage := List.length_pos_iff.mpr nonempty
  have last := four_le_length_printed (range v (by simp))
  rw [voltageStr_concat nonempty, fieldWrites_append (by omega)
    (clear_voltageStr nonempty before) (by omega) (comma_notMem_printed v)]

theorem fieldWrites_one (range : 0 ≤ v ∧ v < 10) :
    fieldWrites (voltageStr [v]) = [(0, voltAt (fmtFixed 2 v) 2)] := by
  have last := four_le_length_printed range
  rw [show voltageStr [v] = fmtFixed 2 v by simp [voltageStr]]
  exact fieldWrites_single (by omega) (comma_notMem_printed v)

/-- **Three voltages are too many**: the last is stored behind the entries there are. -/
theorem exists_outside (many : 3 ≤ vs.length) (range : InRange vs) :
    ∃ w ∈ fieldWrites (voltageStr vs), vs.length ≤ w.1 := by
  rcases List.eq_nil_or_concat' vs with rfl | ⟨front, v, rfl⟩
  · simp at many
  rw [List.length_append, List.length_singleton] at many
  have nonempty : front ≠ [] := List.ne_nil_of_length_pos (by omega)
  have long := length_voltageStr nonempty fun v member => range v (by simp [member])
  refine ⟨_, by rw [fieldWrites_concat nonempty range]; exact List.mem_concat_self, ?_⟩
  rw [List.length_append, List.length_singleton]
  omega

end Vector

/-! ## The command line -/

section CommandLine

variable {cfg : PipelineConfig K} {vs : List K} {dir : WorkDir} {config : GlobalConfig}

theorem length_hotspotOptions (cfg : PipelineConfig K) (vs : List K) (dir : WorkDir) :
    (hotspotOptions cfg vs dir).length = 16 ∨ (hotspotOptions cfg vs dir).length = 17 := by
  cases initialised : (dir .initFile).isSome <;> simp [hotspotOptions, initialised]

/-- HotSpot tabulates the options the pipeline passes. -/
theorem globalConfig_cmdParts (cfg : PipelineConfig K) (vs : List K) (dir : WorkDir) :
    globalConfig (cmdParts cfg vs dir) =
      globalConfigFromStrs (optionTable (hotspotOptions cfg vs dir)) := by
  have length := length_hotspotOptions cfg vs dir
  exact globalConfig_optionArgs (by omega) (by rw [maxEntries]; omega)

theorem token_voltageStr (nonempty : vs ≠ []) (range : InRange vs) : Token (voltageStr vs) := by
  have long := length_voltageStr nonempty range
  have some_voltage := List.length_pos_iff.mpr nonempty
  refine ⟨List.ne_nil_of_length_pos (by omega),
    forall_mem_intercalate (P := fun c => isSpace c = false) (by decide) ?_⟩
  simp only [List.forall_mem_map]
  exact fun v _ => (fmtFixed_token 2 v).noSpace

theorem strField_voltageStr (few : vs.length ≤ numHotspotLayers) (range : InRange vs) :
    strField (voltageStr vs) = voltageStr vs := by
  have short : ∀ t ∈ vs.map (fmtFixed 2), t.length ≤ 5 := by
    simp only [List.forall_mem_map]
    intro v member
    rw [length_printed (range v member).1 (range v member).2]
    split_ifs <;> omega
  have length : (voltageStr vs).length ≤ _ := length_intercalate_le short
  rw [List.length_map] at length
  have bound : (voltageStr vs).length ≤ 108 := length.trans (by
    simp only [numHotspotLayers] at few
    omega)
  exact List.take_of_length_le (by rw [strSize]; omega)

/-- **The vector arrives as it was printed**, if there is one. -/
theorem voltVector_cmdParts (few : vs.length ≤ numHotspotLayers) (range : InRange vs)
    (accepted : globalConfig (cmdParts cfg vs dir) = .ok config) :
    vs ≠ [] ∧ config.voltVector = voltageStr vs := by
  rw [globalConfig_cmdParts] at accepted
  have read := voltVector_of_accepted accepted
  have found : getStr (optionTable (hotspotOptions cfg vs dir)) "v".toList =
      some (strField (voltageStr vs)) := rfl
  rw [strField_voltageStr few range] at found
  have nonempty : vs ≠ [] := by
    rintro rfl
    simp only [strOption, found] at read
    cases read
  rw [strOption_eq_ok found (scanWord_token (token_voltageStr nonempty range))] at read
  exact ⟨nonempty, (Except.ok.inj read).symm⟩

/-- HotSpot accepts the options if the paths are words that fit their buffers. -/
theorem accepted_cmdParts (few : vs.length ≤ numHotspotLayers) (range : InRange vs)
    (nonempty : vs ≠ []) (paths : ∀ file, Token (cfg.path file))
    (short : ∀ file, (cfg.path file).length < strSize) :
    ∃ config, globalConfig (cmdParts cfg vs dir) = .ok config := by
  have word (file : PipelineFile) : scanWord (strField (cfg.path file)) = some (cfg.path file) := by
    have fits : strField (cfg.path file) = cfg.path file :=
      List.take_of_length_le (Nat.le_sub_one_of_lt (short file))
    rw [fits, scanWord_token (paths file)]
  have volts : scanWord (strField (voltageStr vs)) = some (voltageStr vs) := by
    rw [strField_voltageStr few range, scanWord_token (token_voltageStr nonempty range)]
  have path {name missing : _} (file : PipelineFile)
      (found : getStr (optionTable (hotspotOptions cfg vs dir)) name =
        some (strField (cfg.path file))) :
      strOption (optionTable (hotspotOptions cfg vs dir)) name missing = .ok (cfg.path file) :=
    strOption_eq_ok found (word file)
  have dumpConfig : getStr (optionTable (hotspotOptions cfg vs dir)) "d".toList = none := by
    cases initialised : (dir .initFile).isSome <;>
      · simp only [hotspotOptions, initialised]
        rfl
  have bankModes : getStr (optionTable (hotspotOptions cfg vs dir)) "bm".toList = none := by
    cases initialised : (dir .initFile).isSome <;>
      · simp only [hotspotOptions, initialised]
        rfl
  rw [globalConfig_cmdParts, globalConfigFromStrs, if_neg (by exact Option.some_ne_none _),
    path .powerTraceFile rfl, path .powerTraceTotalFile rfl, path .temperatureTraceFile rfl,
    path .hotspotConfigFile rfl, strOption_missing dumpConfig, strOption_missing bankModes,
    strOption_eq_ok (show getStr _ _ = some (strField "on".toList) from rfl)
      (show _ = some "on".toList by decide),
    strOption_eq_ok (show getStr _ _ = some (strField layerFlags) from rfl)
      (show _ = some layerFlags by decide),
    strOption_eq_ok (show getStr _ _ = some (strField (voltageStr vs)) from rfl) volts]
  exact ⟨_, rfl⟩

end CommandLine

/-! ## When the voltages arrive -/

theorem storeVolt_concat (writes : List VoltWrite) (k : ℕ) (x : UInt32) :
    storeVolt (writes ++ [(k, x)]) = Function.update (storeVolt writes) k x := by
  rw [storeVolt, List.foldl_append]
  rfl

section Intact

variable {vs : List K}

/-- **One voltage** arrives if printing keeps its tenths. -/
theorem intact_one {v : K} (range : 0 ≤ v ∧ v < 10) :
    VoltIntact [v] (voltWrites (voltageStr [v])) (fieldWrites (voltageStr [v])) ↔
      KeepsTenths v := by
  have stored : storeVolt (voltWrites (voltageStr [v])) 0 = voltAt (fmtFixed 2 v) 2 := by
    rw [voltWrites, fieldWrites_one range, storeVolt_concat, Function.update_self]
  constructor
  · intro intact
    have value := intact.value 0 v rfl
    rwa [stored, voltAt_printed range.1 range.2] at value
  · intro keeps
    refine ⟨fun k u entry => ?_, ?_⟩
    · obtain ⟨rfl, rfl⟩ : k = 0 ∧ v = u := by
        cases k with
        | zero => exact ⟨rfl, Option.some.inj entry⟩
        | succ k => cases entry
      rwa [stored, voltAt_printed range.1 range.2]
    · rw [fieldWrites_one range]
      simp

/-- **Two voltages** arrive if printing keeps the tenths of both. -/
theorem intact_two {v u : K} (range : InRange [v, u]) :
    VoltIntact [v, u] (voltWrites (voltageStr [v, u])) (fieldWrites (voltageStr [v, u])) ↔
      KeepsTenths v ∧ KeepsTenths u := by
  have first := range v (by simp)
  have second := range u (by simp)
  have writes : fieldWrites (voltageStr [v, u]) = [(0, voltAt (fmtFixed 2 v) 2),
      ((3 + (fmtFixed 2 v).length) / 4, voltAt (fmtFixed 2 u) 2)] := by
    rw [show [v, u] = [v] ++ [u] from rfl, fieldWrites_concat (by simp) range, fieldWrites_one first,
      show voltageStr [v] = fmtFixed 2 v by simp [voltageStr]]
    rfl
  have stored (at_one : (fmtFixed 2 v).length = 4) :
      storeVolt (voltWrites (voltageStr [v, u])) 0 = voltAt (fmtFixed 2 v) 2 ∧
        storeVolt (voltWrites (voltageStr [v, u])) 1 = voltAt (fmtFixed 2 u) 2 := by
    rw [voltWrites, writes, at_one, List.append_cons, storeVolt_concat, storeVolt_concat]
    exact ⟨by simp, by simp⟩
  have length := length_printed first.1 first.2
  constructor
  · intro intact
    have narrow := intact.inside ((3 + (fmtFixed 2 v).length) / 4, voltAt (fmtFixed 2 u) 2)
      (by rw [writes]; simp)
    have four : (fmtFixed 2 v).length = 4 := by
      simp only [List.length_cons, List.length_nil] at narrow
      split_ifs at length <;> omega
    have valueFirst := intact.value 0 v rfl
    have valueSecond := intact.value 1 u rfl
    rw [(stored four).1, voltAt_printed first.1 first.2] at valueFirst
    rw [(stored four).2, voltAt_printed second.1 second.2] at valueSecond
    exact ⟨valueFirst, valueSecond⟩
  · rintro ⟨keepsFirst, keepsSecond⟩
    have four : (fmtFixed 2 v).length = 4 := by
      rw [length, if_pos (hundredths_lt first.1 first.2 keepsFirst)]
    refine ⟨fun k w entry => ?_, ?_⟩
    · match k, entry with
      | 0, entry =>
        cases entry
        rwa [(stored four).1, voltAt_printed first.1 first.2]
      | 1, entry =>
        cases entry
        rwa [(stored four).2, voltAt_printed second.1 second.2]
    · rw [writes, four]
      simp

/-- **The fields arrive** for one or two voltages whose tenths printing keeps. -/
theorem intact_iff (range : InRange vs) (nonempty : vs ≠ []) :
    VoltIntact vs (voltWrites (voltageStr vs)) (fieldWrites (voltageStr vs)) ↔
      vs.length ≤ 2 ∧ ∀ v ∈ vs, KeepsTenths v := by
  match vs, range, nonempty with
  | [v], range, _ => simp [intact_one (range v (by simp))]
  | [v, u], range, _ => simp [intact_two range]
  | v :: u :: w :: rest, range, _ =>
    refine iff_of_false (fun intact => ?_) (by simp)
    obtain ⟨write, member, outside⟩ := exists_outside (by simp) range
    exact absurd (intact.inside write member) (not_lt.mpr outside)

/-- The default goes to the first four entries whatever is passed. -/
theorem not_intact_default (range : InRange vs) (nonempty : vs ≠ []) :
    ¬ VoltIntact vs (voltWrites (voltageStr vs)) (voltWrites (voltageStr vs)) := by
  intro intact
  have default := intact.inside (3, 10) (List.mem_append_left _ (by decide))
  obtain ⟨few, -⟩ := (intact_iff range nonempty).mp
    ⟨intact.value, fun w member => intact.inside w (List.mem_append_right _ member)⟩
  omega

end Intact

/-- **Supply voltages.** With every assignment counted they never arrive, however few; leaving
the default aside, they arrive exactly for one or two voltages whose tenths printing keeps.
An empty vector is refused. -/
theorem crosses_iff (cfg : PipelineConfig K) (dir : WorkDir) {vs : List K}
    (few : vs.length ≤ numHotspotLayers) (range : ∀ v ∈ vs, 0 ≤ v ∧ v < 10) :
    (Crosses cfg vs dir voltWrites ↔ Refused cfg vs dir) ∧ (Crosses cfg vs dir fieldWrites ↔
        Refused cfg vs dir ∨ vs.length ≤ 2 ∧ ∀ v ∈ vs, KeepsTenths v) ∧
      (vs = [] → Refused cfg vs dir) := by
  refine ⟨⟨fun crosses config accepted => ?_, fun refused config accepted =>
    absurd accepted (refused config)⟩, ⟨fun crosses => ?_, ?_⟩, ?_⟩
  · obtain ⟨nonempty, vector⟩ := voltVector_cmdParts few range accepted
    have intact := crosses config accepted
    rw [vector] at intact
    exact not_intact_default range nonempty intact
  · by_contra neither
    obtain ⟨accepts, broken⟩ := not_or.mp neither
    simp only [Refused, ne_eq, not_forall, not_not] at accepts
    obtain ⟨config, accepted⟩ := accepts
    obtain ⟨nonempty, vector⟩ := voltVector_cmdParts few range accepted
    have intact := crosses config accepted
    rw [vector] at intact
    exact broken ((intact_iff range nonempty).mp intact)
  · rintro (refused | kept) config accepted
    · exact absurd accepted (refused config)
    · obtain ⟨nonempty, vector⟩ := voltVector_cmdParts few range accepted
      rw [vector]
      exact (intact_iff range nonempty).mpr kept
  · rintro rfl config accepted
    exact (voltVector_cmdParts few range accepted).1 rfl

/-- The paths of the shipped configuration are words that fit their buffers. -/
theorem default_path (file : PipelineFile) :
    Token (PipelineFile.path [] file) ∧ (PipelineFile.path [] file).length < strSize := by
  cases file <;> decide

/-- **The eighteen voltages of the shipped pipeline do not arrive**: the last goes to entry 21. -/
theorem not_crosses_default :
    ¬ Crosses (K := ℝ) (.default []) (List.replicate numHotspotLayers defaultVoltageV)
        (fun _ => none) voltWrites ∧
      ¬ Crosses (K := ℝ) (.default []) (List.replicate numHotspotLayers defaultVoltageV)
        (fun _ => none) fieldWrites := by
  have range : InRange (List.replicate numHotspotLayers (defaultVoltageV : ℝ)) := by
    intro v member
    obtain ⟨-, rfl⟩ := List.mem_replicate.mp member
    norm_num [defaultVoltageV]
  obtain ⟨config, accepted⟩ : ∃ config, globalConfig (cmdParts (K := ℝ) (.default [])
      (List.replicate numHotspotLayers defaultVoltageV) fun _ => none) = .ok config :=
    accepted_cmdParts List.length_replicate.le range (by simp) (fun file => (default_path file).1)
      fun file => (default_path file).2
  obtain ⟨nonempty, vector⟩ := voltVector_cmdParts List.length_replicate.le range accepted
  refine ⟨fun crosses => ?_, fun crosses => ?_⟩
  · have intact := crosses config accepted
    rw [vector] at intact
    exact not_intact_default range nonempty intact
  · have intact := crosses config accepted
    rw [vector] at intact
    have few := ((intact_iff range nonempty).mp intact).1
    rw [List.length_replicate] at few
    exact absurd few (by decide)

/-- Two voltages arrive, but for the default. -/
theorem crosses_iff_two : Crosses (K := ℝ) (.default []) [9 / 10, 1] (fun _ => none) fieldWrites := by
  refine (crosses_iff (.default []) (fun _ => none) (by decide) ?_).2.1.mpr (.inr ⟨by decide, ?_⟩)
  · norm_num
  · simp only [List.forall_mem_cons, KeepsTenths]
    refine ⟨?_, ?_, by simp⟩
    · rw [show (9 / 10 * 10 ^ 2 : ℝ) = ((90 : ℤ) : ℝ) by norm_num]
      norm_num [roundHalfEven]
    · norm_num [roundHalfEven]

end GpuHotSpot.Pipeline
