import GpuHotSpot.HotSpotTool.Main
import GpuHotSpot.Pipeline.HotSpotInterface

/-!
# Columns out and back

The pipeline's power trace goes through HotSpot column by column: `main` permutes
each row into the order of the floorplan's blocks, and permutes temperatures and
total powers back. `ColumnsRoundTrip` collects what a run promises of its columns,
down to the bank whose temperature `_read_temps` reads.

* `columnsRoundTrip_main`: every run of `main` over a header that fits keeps it.
-/

namespace GpuHotSpot.Pipeline

open HotSpotTool

variable {S K : Type*} [ExactFloat K]

/-- Every column has one block and every block of a column one column; every row was stored at
and fetched from the blocks of its columns; with `BankStateData.txt` every row goes through if the
solver answers, and none was lost if the exit status is zero; and the temperature `_read_temps` reads
for a bank is that of the block the bank's column is named after. -/
structure ColumnsRoundTrip (solver : Solver S K) (found : Surroundings S) (model : GridModel)
    (pin : Text) (names : List Text) (rest : Text) : Prop where
  block : ∀ k < numColumns model, ∃! slot, IsBlockOf model names k slot
  column : ∀ k k' slot, IsBlockOf model names k slot → IsBlockOf model names k' slot → k = k'
  permuted : ∀ trace ∈ (main solver found).rows,
    trace.Permuted model names (fun _ => 0) ∧ trace.Solved solver found.bankState
  written : (main solver found).rows ≠ [] →
    (main solver found).tout = some (temperatureTrace names (main solver found).rows) ∧
    (main solver found).poutWithLeak = some (totalPowerTrace names (main solver found).rows)
  complete : ∀ fieldRows valueRows, rest = fieldRows.flatMap writeRow →
    List.Forall₂ Denotes fieldRows valueRows → found.bankState.isSome = true →
    solver.Answers → found.toutWritable = true → found.poutWritable = true →
    (∀ values ∈ valueRows, values.length = numColumns model) →
    (main solver found).rows.map RowTrace.row = valueRows
  exitZero : ∀ fieldRows valueRows, rest = fieldRows.flatMap writeRow →
    List.Forall₂ Denotes fieldRows valueRows → found.bankState.isSome = true →
    (main solver found).status = 0 → (main solver found).rows.map RowTrace.row = valueRows
  readBack : ∀ (cfg : PipelineConfig K) body trace traces,
    pin = unlines [formatPtraceHeader cfg] ++ body →
    (main solver found).rows = trace :: traces →
    ∃ temps, readTemps cfg (main solver found).tout = some temps ∧
      ∀ (b : Bank) slot, IsBlockOf model names (logicColumns cfg + (b : ℕ)) slot →
        names[logicColumns cfg + (b : ℕ)]? = some (bankColumnName b) ∧
        temps b = roundTo 2 (trace.temp slot - 273.15)

omit [ExactFloat K] in
/-- The bank columns follow the columns of the logic cores. -/
theorem getElem?_ptraceNames (cfg : PipelineConfig K) (b : Bank) :
    (ptraceNames cfg)[logicColumns cfg + (b : ℕ)]? = some (bankColumnName b) := by
  have logic : ((List.range (logicColumns cfg)).map logicColumnName).length = logicColumns cfg := by
    rw [List.length_map, List.length_range]
  have after : ((List.range (logicColumns cfg)).map logicColumnName).length ≤
      logicColumns cfg + (b : ℕ) := by omega
  rw [ptraceNames, List.getElem?_append_right after, logic, Nat.add_sub_cancel_left, bankColumns_eq_range, List.getElem?_map, List.getElem?_range b.isLt]
  rfl

/-- **Reading back.** Behind the pipeline's header, the temperatures of the first row are those
of the blocks of the bank columns. -/
theorem readTemps_temperatureTrace {cfg : PipelineConfig K} {model : GridModel}
    {trace : RowTrace K} {power : ℕ → K} (traces : List (RowTrace K))
    (fits : HeaderFits model (ptraceNames cfg))
    (permuted : trace.Permuted model (ptraceNames cfg) power) :
    ∃ temps, readTemps cfg (some (temperatureTrace (ptraceNames cfg) (trace :: traces))) =
        some temps ∧
      ∀ (b : Bank) slot, IsBlockOf model (ptraceNames cfg) (logicColumns cfg + (b : ℕ)) slot →
        temps b = roundTo 2 (trace.temp slot - 273.15) := by
  have columns : numColumns model = logicColumns cfg + numBanks := by
    rw [← length_of_headerFits fits, length_ptraceNames]
  have banks : numBanks = 128 := rfl
  have wide : logicColumns cfg + numBanks ≤ trace.columns.length := by
    obtain ⟨slot, last⟩ := exists_isBlockOf fits (show logicColumns cfg + 127 < numColumns model by
      omega)
    have inside := (List.getElem?_eq_some_iff.mp (permuted.temperature _ slot last)).1
    omega
  have read := readTemps_writeVals cfg (oneLine_formatPtraceHeader cfg) wide
    (traces.flatMap fun row => writeVals row.columns)
  refine ⟨_, read, fun b slot block => ?_⟩
  rw [permuted.temperature _ slot block, Option.getD_some]

/-- **Columns go through HotSpot and come back**, whatever the layer stack and whatever the
order of the header's names within each power-dissipating layer. -/
theorem columnsRoundTrip_main {solver : Solver S K} {found : Surroundings S} {model : GridModel}
    {s : S} {pin rest : Text} {names : List Text} (setup : found.setup = some (model, s))
    (ptrace : found.ptrace = some pin) (header : readNames pin = .ok (names, rest))
    (fits : HeaderFits model names) :
    ColumnsRoundTrip solver found model pin names rest := by
  have permuted : ∀ trace ∈ (main solver found).rows,
      trace.Permuted model names (fun _ => 0) ∧ trace.Solved solver found.bankState := by
    intro trace member
    have rows := (main_of_rows setup ptrace header (List.ne_nil_of_mem member)).1
    rw [rows] at member
    exact mem_rowLoop fits member
  refine
    { block := fun k column => ?_
      column := fun k k' slot => isBlockOf_injective fits
      permuted := permuted
      written := fun someRow => (main_of_rows setup ptrace header someRow).2
      complete := ?_
      exitZero := ?_
      readBack := ?_ }
  · obtain ⟨slot, block⟩ := exists_isBlockOf fits column
    exact ⟨slot, block, fun slot' block' => isBlockOf_unique fits block' block⟩
  · rintro fieldRows valueRows rfl denotes present answers tout pout wide
    obtain ⟨text, present⟩ := Option.isSome_iff_exists.mp present
    obtain ⟨st', final⟩ := rowLoop_finishes text (.init s) fits answers denotes wide
    rw [(main_of_opened setup ptrace header tout pout (length_of_headerFits fits)).1, present]
    exact rowLoop_rows fits denotes final
  · rintro fieldRows valueRows rfl denotes present zero
    obtain ⟨text, present⟩ := Option.isSome_iff_exists.mp present
    obtain ⟨rows, st', final⟩ := rowLoop_of_exitZero setup ptrace header present zero
    rw [rows]
    exact rowLoop_rows fits denotes final
  · rintro cfg body trace traces rfl rows
    have member : trace ∈ (main solver found).rows := rows ▸ List.mem_cons_self
    have read := (readable_ptraceNames cfg).readNames body
    cases header.symm.trans read
    obtain ⟨temps, readBack, banks⟩ := readTemps_temperatureTrace traces fits (permuted _ member).1
    refine ⟨temps, ?_, fun b slot block => ⟨getElem?_ptraceNames cfg b, banks b slot block⟩⟩
    rw [(main_of_rows setup ptrace header (List.ne_nil_of_mem member)).2.1, rows, readBack]

/-- A stack of two power-dissipating layers around a passive one. -/
def threeLayers : GridModel := [⟨true, [['C'], ['D']]⟩, ⟨false, [['T']]⟩, ⟨true, [['A']]⟩]

/-- Two rows of powers. -/
def twoRows : List (List Text) := [[['5'], ['6'], ['7']], [['8'], ['9'], ['1']]]

/-- The header names the blocks of the first layer in another order and another case. -/
def shuffled : Surroundings Unit where
  setup := some (threeLayers, ())
  ptrace := some (writeRow [['d'], ['C'], ['A']] ++ twoRows.flatMap writeRow)
  toutWritable := true
  poutWritable := true
  bankState := some []

/-- Each block is 300 kelvins and its power warm. -/
noncomputable def warmer : Solver Unit ℝ where
  prepare := some
  solve := fun _ s power => some (s, fun slot => 300 + power slot, power)
  finish := fun _ _ => .ok ⟨none, none, none⟩

/-- What `%lf` reads at a digit. -/
theorem scanDouble_digit {c : Char} (n : ℕ) (digit : isDigitIn 10 c = true)
    (value : digitVal? c = some n) : scanDouble [c] = some (n : ℝ) := by
  refine scanDouble_of_read ?_
  change readDecimal [c] = _
  rw [readDecimal_of_digit digit, readUnsignedDecimal]
  simp [digit, valueIn, value]

/-- Both rows go through. -/
theorem columnsRoundTrip_threeLayers :
    ColumnsRoundTrip warmer shuffled threeLayers
      (writeRow [['d'], ['C'], ['A']] ++ twoRows.flatMap writeRow) [['d'], ['C'], ['A']]
      (twoRows.flatMap writeRow) ∧
    (main warmer shuffled).rows.map RowTrace.row = [[5, 6, 7], [8, 9, 1]] := by
  have readable {x y z : Char} (tokens : ∀ t ∈ [[x], [y], [z]], Token t) :
      Readable [[x], [y], [z]] :=
    .of_short (m := 1) (by simp) tokens (by simp) (by simp [maxUnits]) (by simp [lineSize])
  have kept : ColumnsRoundTrip warmer shuffled threeLayers
      (writeRow [['d'], ['C'], ['A']] ++ twoRows.flatMap writeRow) [['d'], ['C'], ['A']]
      (twoRows.flatMap writeRow) :=
    columnsRoundTrip_main rfl rfl ((readable (by decide)).readNames (twoRows.flatMap writeRow))
      ⟨by decide, by decide, by decide, by decide, rfl⟩
  refine ⟨kept, kept.complete twoRows _ rfl ?_ rfl ⟨fun _ => rfl, fun _ _ _ => rfl⟩ rfl rfl ?_⟩
  · refine .cons ⟨readable (by decide), ?_⟩ (.cons ⟨readable (by decide), ?_⟩ .nil)
    · simp only [List.map_cons, List.map_nil, scanDouble_digit 5 (c := '5') (by decide) (by decide),
        scanDouble_digit 6 (c := '6') (by decide) (by decide),
        scanDouble_digit 7 (c := '7') (by decide) (by decide), Nat.cast_ofNat]
    · simp only [List.map_cons, List.map_nil, scanDouble_digit 8 (c := '8') (by decide) (by decide),
        scanDouble_digit 9 (c := '9') (by decide) (by decide),
        scanDouble_digit 1 (c := '1') (by decide) (by decide), Nat.cast_ofNat, Nat.cast_one]
  · rintro values member
    rcases List.mem_pair.mp member with rfl | rfl <;> rfl

end GpuHotSpot.Pipeline
