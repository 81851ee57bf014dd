import GpuHotSpot.HotSpotTool.Columns

/-!
# HotSpot's main loop

`main` of `hotspot_tool/hotspot.c` for the grid model with a temperature trace:
read the header, then for every row of powers permute it into block order, compute
temperatures, permute them back and write a row of temperatures and one of total
powers. The thermal solver is a parameter; `compute_temp`'s first act, reading
`BankStateData.txt`, is not.

* `mem_rowLoop`: what is stored and written for every row of a run.
* `main_of_rows`: the traces `main` leaves are its header and those rows.
* `main_exitZero`: what an exit status of zero does mean, and does not.
-/

namespace GpuHotSpot.HotSpotTool

variable {S K : Type*} [ExactFloat K]

/-! ## The solver -/

/-- What the loops over rows leave behind besides the two traces. -/
structure Dumps where
  steady : Option Text
  allTransient : Option Text
  gridSteady : Option Text

/-- The thermal model behind `main`, with whatever it keeps between rows in `S`. Where it
stops, it stops with an error status. -/
structure Solver (S K : Type*) where
  /-- The update of the package model under natural convection. -/
  prepare : S → Option S
  /-- `compute_temp` once the bank states are read: temperatures and powers with leakage. -/
  solve : Text → S → (ℕ → K) → Option (S × (ℕ → K) × (ℕ → K))
  /-- The steady state of the average powers and the dumps. -/
  finish : S → (ℕ → K) → Except Dumps Dumps

/-- `compute_temp`: without `BankStateData.txt`, `read_bank_state_array` calls `exit(0)`. -/
def computeTemp (solver : Solver S K) (bankState : Option Text) (s : S) (power : ℕ → K) :
    Exits (S × (ℕ → K) × (ℕ → K)) :=
  match bankState with
  | none => .error 0
  | some text =>
    match solver.solve text s power with
    | none => fatal
    | some result => .ok result

/-! ## One row -/

/-- The variables of the loop over rows. -/
structure RowState (S K : Type*) where
  vals : ℕ → K
  valsWithLeak : ℕ → K
  power : ℕ → K
  overallPower : ℕ → K
  lines : ℕ
  solver : S

/-- A row as it went through the loop: the values read, the arrays by slot, and the columns
written. -/
structure RowTrace (K : Type*) where
  row : List K
  power : ℕ → K
  temp : ℕ → K
  powerWithLeak : ℕ → K
  columns : List K
  columnsWithLeak : List K

/-- The slots of the blocks of power-dissipating layers. -/
def powerSlots : GridModel → ℕ → List ℕ
  | [], _ => []
  | layer :: layers, base =>
    (if layer.hasPower then List.range' base layer.units.length else []) ++
      powerSlots layers (base + layer.units.length)

/-- `read_vals` overwrites the entries it reads. -/
def storeVals (row : List K) (vals : ℕ → K) : ℕ → K := fun i => row[i]?.getD (vals i)

/-- One pass of the loop over rows. -/
def processRow (solver : Solver S K) (model : GridModel) (names : List Text)
    (bankState : Option Text) (st : RowState S K) (row : List K) :
    Exits (RowState S K × RowTrace K) :=
  if row.length ≠ numColumns model then fatal
  else
    match permuteIn model names (storeVals row st.vals) st.power, solver.prepare st.solver with
    | .error status, _ => .error status
    | .ok _, none => fatal
    | .ok power, some s =>
      match computeTemp solver bankState s power with
      | .error status => .error status
      | .ok (s, temp, powerWithLeak) =>
        match permuteOut model names temp (storeVals row st.vals),
          permuteOut model names powerWithLeak st.valsWithLeak with
        | .ok vals, .ok valsWithLeak =>
          .ok ⟨{ vals, valsWithLeak, power
                 overallPower := fun slot =>
                   if slot ∈ powerSlots model 0 then st.overallPower slot + power slot
                   else st.overallPower slot
                 lines := st.lines + 1
                 solver := s },
            { row, power, temp, powerWithLeak
              columns := (List.range (numColumns model)).map vals
              columnsWithLeak := (List.range (numColumns model)).map valsWithLeak }⟩
        | .error status, _ => .error status
        | _, .error status => .error status

/-- `while ((num = read_vals(pin, vals)) != 0)`: the rows that went through, and the state at
the end of the file or the status the program stopped with. -/
def rowLoop (solver : Solver S K) (model : GridModel) (names : List Text)
    (bankState : Option Text) (st : RowState S K) (pin : Text) :
    List (RowTrace K) × Exits (RowState S K) :=
  match read : readVals st.vals pin with
  | .error status => ([], .error status)
  | .ok ([], _) => ([], .ok st)
  | .ok (v :: vs, rest) =>
    match processRow solver model names bankState st (v :: vs) with
    | .error status => ([], .error status)
    | .ok (st', trace) =>
      have := readVals_lt read (by simp)
      let (traces, final) := rowLoop solver model names bankState st' rest
      (trace :: traces, final)
termination_by pin.length

section RowLoop

variable {solver : Solver S K} {model : GridModel} {names : List Text} {bankState : Option Text}
  {st st' : RowState S K} {pin rest : Text} {row : List K} {status : ℕ} {trace : RowTrace K}

theorem rowLoop_eof (read : readVals st.vals pin = .ok ([], rest)) :
    rowLoop solver model names bankState st pin = ([], .ok st) := by
  rw [rowLoop]
  split <;> simp_all

theorem rowLoop_readError (read : readVals st.vals pin = .error status) :
    rowLoop solver model names bankState st pin = ([], .error status) := by
  rw [rowLoop]
  split <;> simp_all

/-- The loop passes one row and goes on with what is left to read. -/
theorem rowLoop_row (read : readVals st.vals pin = .ok (row, rest)) (nonempty : row ≠ [])
    (processed : processRow solver model names bankState st row = .ok (st', trace)) :
    rowLoop solver model names bankState st pin =
      (trace :: (rowLoop solver model names bankState st' rest).1,
        (rowLoop solver model names bankState st' rest).2) := by
  rw [rowLoop]
  split
  · simp_all
  · simp_all
  · rename_i v vs rest' read'
    cases read.symm.trans read'
    simp only [processed]

/-- The loop stops with the row that stops the program. -/
theorem rowLoop_stop (read : readVals st.vals pin = .ok (row, rest)) (nonempty : row ≠ [])
    (processed : processRow solver model names bankState st row = .error status) :
    rowLoop solver model names bankState st pin = ([], .error status) := by
  rw [rowLoop]
  split
  · simp_all
  · simp_all
  · rename_i v vs rest' read'
    cases read.symm.trans read'
    simp only [processed]

end RowLoop

/-! ## The program -/

/-- How a run of HotSpot ends: its exit status, the traces it opened, its dumps, and the rows
that went through. -/
structure MainResult (K : Type*) where
  status : ℕ
  tout : Option Text
  poutWithLeak : Option Text
  dumps : Dumps
  rows : List (RowTrace K)

/-- `main` stops before the first row, with these traces opened. -/
def stopped (status : ℕ) (tout poutWithLeak : Option Text) : MainResult K :=
  ⟨status, tout, poutWithLeak, ⟨none, none, none⟩, []⟩

/-- The variables before the first row. -/
def RowState.init (s : S) : RowState S K := ⟨fun _ => 0, fun _ => 0, fun _ => 0, fun _ => 0, 0, s⟩

/-- The average powers of the power-dissipating layers. -/
def averagePower (model : GridModel) (st : RowState S K) : ℕ → K := fun slot =>
  if slot ∈ powerSlots model 0 then st.overallPower slot / st.lines else st.overallPower slot

/-- The temperature trace of a header and rows. -/
def temperatureTrace (names : List Text) (rows : List (RowTrace K)) : Text :=
  writeNames names ++ rows.flatMap fun row => writeVals row.columns

/-- The total-power trace of a header and rows. -/
def totalPowerTrace (names : List Text) (rows : List (RowTrace K)) : Text :=
  writeNames names ++ rows.flatMap fun row => writeValsPower row.columnsWithLeak

/-- `main` from the header of the power trace on, both output traces being open. -/
def traceMain (solver : Solver S K) (model : GridModel) (s : S) (bankState : Option Text)
    (pin : Text) : MainResult K :=
  match readNames pin with
  | .error status => stopped status (some []) (some [])
  | .ok (names, rest) =>
    if names.length ≠ numColumns model then stopped 1 (some []) (some [])
    else
      let (rows, final) := rowLoop solver model names bankState (.init s) rest
      let tout := some (temperatureTrace names rows)
      let poutWithLeak := some (totalPowerTrace names rows)
      match final with
      | .error status => ⟨status, tout, poutWithLeak, ⟨none, none, none⟩, rows⟩
      | .ok st =>
        if st.lines = 0 then ⟨1, tout, poutWithLeak, ⟨none, none, none⟩, rows⟩
        else
          match solver.finish st.solver (averagePower model st) with
          | .error dumps => ⟨1, tout, poutWithLeak, dumps, rows⟩
          | .ok dumps => ⟨0, tout, poutWithLeak, dumps, rows⟩

/-- What `main` finds: the model its configuration gives (`none` where reading it is fatal),
the power trace, whether the output traces can be opened, and `BankStateData.txt`. -/
structure Surroundings (S : Type*) where
  setup : Option (GridModel × S)
  ptrace : Option Text
  toutWritable : Bool
  poutWritable : Bool
  bankState : Option Text

/-- `main`. -/
def main (solver : Solver S K) (found : Surroundings S) : MainResult K :=
  match found.setup, found.ptrace with
  | none, _ => stopped 1 none none
  | some _, none => stopped 1 none none
  | some (model, s), some pin =>
    if !found.toutWritable then stopped 1 none none
    else if !found.poutWritable then stopped 1 (some []) none
    else traceMain solver model s found.bankState pin

/-! ## What happens to a row -/

/-- The row went through its columns' blocks: the power read in a column is at the block of
that column, what was computed for the block is written in the column, and no other slot was
touched. -/
structure RowTrace.Permuted (trace : RowTrace K) (model : GridModel) (names : List Text)
    (power : ℕ → K) : Prop where
  length : trace.row.length = numColumns model
  stored : ∀ k slot, IsBlockOf model names k slot → trace.row[k]? = some (trace.power slot)
  untouched : ∀ slot, (∀ k, ¬ IsBlockOf model names k slot) → trace.power slot = power slot
  temperature : ∀ k slot, IsBlockOf model names k slot →
    trace.columns[k]? = some (trace.temp slot)
  totalPower : ∀ k slot, IsBlockOf model names k slot →
    trace.columnsWithLeak[k]? = some (trace.powerWithLeak slot)

/-- The temperatures and total powers are what the solver computes from the stored powers. -/
def RowTrace.Solved (trace : RowTrace K) (solver : Solver S K) (bankState : Option Text) : Prop :=
  ∃ text s s', bankState = some text ∧
    solver.solve text s trace.power = some (s', trace.temp, trace.powerWithLeak)

theorem isBlockOf_lt {model : GridModel} {names : List Text} {k slot : ℕ}
    (fits : HeaderFits model names) (block : IsBlockOf model names k slot) :
    k < numColumns model := by
  have member : (k, slot) ∈ columnSlots names model 0 0 := (mem_columnSlots fits).mpr block
  have column : k ∈ (columnSlots names model 0 0).map Prod.fst := List.mem_map.mpr ⟨_, member, rfl⟩
  rw [map_fst_columnSlots] at column
  simpa using column

omit [ExactFloat K] in
theorem computeTemp_eq_ok {solver : Solver S K} {bankState : Option Text} {s s' : S}
    {power temp powerWithLeak : ℕ → K}
    (computed : computeTemp solver bankState s power = .ok (s', temp, powerWithLeak)) :
    ∃ text, bankState = some text ∧ solver.solve text s power = some (s', temp, powerWithLeak) := by
  cases bankState with
  | none => cases computed
  | some text =>
    cases solved : solver.solve text s power with
    | none => simp only [computeTemp, solved] at computed; cases computed
    | some result =>
      simp only [computeTemp, solved, Except.ok.injEq] at computed
      exact ⟨text, rfl, by rw [solved, computed]⟩

/-- **One row** goes through the blocks of its columns. -/
theorem processRow_spec {solver : Solver S K} {model : GridModel} {names : List Text}
    {bankState : Option Text} {st st' : RowState S K} {row : List K} {trace : RowTrace K}
    (fits : HeaderFits model names)
    (processed : processRow solver model names bankState st row = .ok (st', trace)) :
    trace.Permuted model names st.power ∧ trace.Solved solver bankState ∧ trace.row = row ∧
      st'.power = trace.power ∧ st'.lines = st.lines + 1 := by
  obtain ⟨power, stored, atBlocks, elsewhere⟩ :=
    permuteIn_spec fits (storeVals row st.vals) st.power
  rw [processRow, stored] at processed
  split_ifs at processed with length
  · cases processed
  rw [not_not] at length
  cases prepared : solver.prepare st.solver with
  | none => rw [prepared] at processed; cases processed
  | some s =>
    rw [prepared] at processed
    cases computed : computeTemp solver bankState s power with
    | error status => simp only [computed] at processed; cases processed
    | ok result =>
      obtain ⟨s', temp, powerWithLeak⟩ := result
      obtain ⟨vals, out, fromTemp⟩ := permuteOut_spec fits temp (storeVals row st.vals)
      obtain ⟨leaks, outLeak, fromLeak⟩ :=
        permuteOut_spec fits powerWithLeak st.valsWithLeak
      obtain ⟨text, found, solved⟩ := computeTemp_eq_ok computed
      simp only [computed, out, outLeak] at processed
      cases processed
      refine ⟨⟨length, ?_, elsewhere, ?_, ?_⟩, ⟨text, s, s', found, solved⟩, rfl, rfl, rfl⟩
      · intro k slot block
        have inRow : k < row.length := length ▸ isBlockOf_lt fits block
        show row[k]? = some (power slot)
        rw [atBlocks k slot block, storeVals, List.getElem?_eq_getElem inRow, Option.getD_some]
      · intro k slot block
        have column := List.getElem?_range (isBlockOf_lt fits block)
        show ((List.range (numColumns model)).map vals)[k]? = some (temp slot)
        rw [List.getElem?_map, column, Option.map_some, fromTemp k slot block]
      · intro k slot block
        have column := List.getElem?_range (isBlockOf_lt fits block)
        show ((List.range (numColumns model)).map leaks)[k]? = some (powerWithLeak slot)
        rw [List.getElem?_map, column, Option.map_some, fromLeak k slot block]

/-- **Every row of a run** goes through the blocks of its columns, from the powers the run
started with outside all blocks. -/
theorem mem_rowLoop {solver : Solver S K} {model : GridModel} {names : List Text}
    {bankState : Option Text} {st : RowState S K} {pin : Text} {trace : RowTrace K}
    (fits : HeaderFits model names)
    (member : trace ∈ (rowLoop solver model names bankState st pin).1) :
    trace.Permuted model names st.power ∧ trace.Solved solver bankState := by
  fun_induction rowLoop solver model names bankState st pin with
  | case1 => cases member
  | case2 => cases member
  | case3 => cases member
  | case4 st pin v vs rest read st' first processed shorter traces final eq ih =>
    obtain ⟨permuted, solved, -, power, -⟩ := processRow_spec fits processed
    rcases List.mem_cons.mp member with rfl | later
    · exact ⟨permuted, solved⟩
    · obtain ⟨permuted', solved'⟩ := ih (by rwa [eq])
      refine ⟨{ permuted' with untouched := fun slot other => ?_ }, solved'⟩
      rw [permuted'.untouched slot other, power, permuted.untouched slot other]

/-- A solver that stops the program at no row. -/
structure Solver.Answers (solver : Solver S K) : Prop where
  prepare : ∀ s, (solver.prepare s).isSome = true
  solve : ∀ text s power, (solver.solve text s power).isSome = true

/-- A row with a value for each column goes through. -/
theorem processRow_ok {solver : Solver S K} {model : GridModel} {names : List Text} (text : Text)
    (fits : HeaderFits model names) (answers : solver.Answers) (st : RowState S K) {row : List K}
    (length : row.length = numColumns model) :
    ∃ st' trace, processRow solver model names (some text) st row = .ok (st', trace) := by
  obtain ⟨power, stored, -⟩ := permuteIn_spec fits (storeVals row st.vals) st.power
  obtain ⟨s, prepared⟩ := Option.isSome_iff_exists.mp (answers.prepare st.solver)
  obtain ⟨⟨s', temp, leak⟩, solved⟩ := Option.isSome_iff_exists.mp (answers.solve text s power)
  obtain ⟨vals, out, -⟩ := permuteOut_spec fits temp (storeVals row st.vals)
  obtain ⟨leaks, outLeak, -⟩ := permuteOut_spec fits leak st.valsWithLeak
  rw [processRow, if_neg (not_not.mpr length), stored, prepared]
  simp only [computeTemp, solved, out, outLeak]
  exact ⟨_, _, rfl⟩

/-- The fields of a row that `read_vals` reads as these values. -/
def Denotes (fields : List Text) (values : List K) : Prop :=
  Readable fields ∧ fields.map scanDouble = values.map some

/-- **No row is lost**: a loop that reaches the end of the file has put every row through. -/
theorem rowLoop_rows {solver : Solver S K} {model : GridModel} {names : List Text}
    {bankState : Option Text} {st st' : RowState S K} {fieldRows : List (List Text)}
    {valueRows : List (List K)} (fits : HeaderFits model names)
    (denotes : List.Forall₂ Denotes fieldRows valueRows)
    (finished : (rowLoop solver model names bankState st (fieldRows.flatMap writeRow)).2 = .ok st') :
    (rowLoop solver model names bankState st (fieldRows.flatMap writeRow)).1.map RowTrace.row =
      valueRows := by
  induction denotes generalizing st with
  | nil =>
    have eof : readVals st.vals [] = .ok ([], []) := rfl
    rw [List.flatMap_nil, rowLoop_eof eof]
    rfl
  | @cons fields values fieldRows valueRows first _ ih =>
    obtain ⟨readable, entries⟩ := first
    have read := readable.readVals entries st.vals (fieldRows.flatMap writeRow)
    have nonempty : values ≠ [] := by
      rintro rfl
      exact readable.ne_nil (List.map_eq_nil_iff.mp entries)
    rw [List.flatMap_cons] at finished ⊢
    cases processed : processRow solver model names bankState st values with
    | error status =>
      rw [rowLoop_stop read nonempty processed] at finished
      cases finished
    | ok result =>
      obtain ⟨next, trace⟩ := result
      rw [rowLoop_row read nonempty processed] at finished ⊢
      rw [List.map_cons, ih finished, (processRow_spec fits processed).2.2.1]

/-- **Every row goes through**: with `BankStateData.txt` and a solver that answers, the loop reaches
the end of the file. -/
theorem rowLoop_finishes {solver : Solver S K} {model : GridModel} {names : List Text} (text : Text)
    (st : RowState S K) {fieldRows : List (List Text)} {valueRows : List (List K)}
    (fits : HeaderFits model names) (answers : solver.Answers)
    (denotes : List.Forall₂ Denotes fieldRows valueRows)
    (wide : ∀ values ∈ valueRows, values.length = numColumns model) :
    ∃ st', (rowLoop solver model names (some text) st (fieldRows.flatMap writeRow)).2 = .ok st' := by
  induction denotes generalizing st with
  | nil =>
    have eof : readVals st.vals [] = .ok ([], []) := rfl
    rw [List.flatMap_nil, rowLoop_eof eof]
    exact ⟨st, rfl⟩
  | @cons fields values fieldRows valueRows first _ ih =>
    obtain ⟨readable, entries⟩ := first
    have read := readable.readVals entries st.vals (fieldRows.flatMap writeRow)
    have nonempty : values ≠ [] := by
      rintro rfl
      exact readable.ne_nil (List.map_eq_nil_iff.mp entries)
    obtain ⟨next, trace, processed⟩ := processRow_ok text fits answers st
      (wide values List.mem_cons_self)
    rw [List.flatMap_cons, rowLoop_row read nonempty processed]
    exact ih next fun values member => wide values (List.mem_cons_of_mem _ member)

/-! ## What a run of the program leaves -/

/-- Past every check before the first row, the traces are the header and the rows of the loop. -/
theorem main_of_opened {solver : Solver S K} {found : Surroundings S} {model : GridModel} {s : S}
    {pin rest : Text} {names : List Text} (setup : found.setup = some (model, s))
    (ptrace : found.ptrace = some pin) (header : readNames pin = .ok (names, rest))
    (tout : found.toutWritable = true) (pout : found.poutWritable = true)
    (columns : names.length = numColumns model) :
    (main solver found).rows = (rowLoop solver model names found.bankState (.init s) rest).1 ∧
      (main solver found).tout = some (temperatureTrace names (main solver found).rows) ∧
      (main solver found).poutWithLeak = some (totalPowerTrace names (main solver found).rows) := by
  simp only [main, setup, ptrace, tout, pout, Bool.not_true, Bool.false_eq_true, if_false,
    traceMain, header, columns, ne_eq, not_true_eq_false]
  cases final : (rowLoop solver model names found.bankState (.init s) rest).2 with
  | error status => exact ⟨rfl, rfl, rfl⟩
  | ok st =>
    simp only
    split_ifs
    · exact ⟨rfl, rfl, rfl⟩
    · cases solver.finish st.solver (averagePower model st) <;> exact ⟨rfl, rfl, rfl⟩

/-- A run that let rows through got past every check before the first row, and its traces are
the header and those rows. -/
theorem main_of_rows {solver : Solver S K} {found : Surroundings S} {model : GridModel} {s : S}
    {pin rest : Text} {names : List Text} (setup : found.setup = some (model, s))
    (ptrace : found.ptrace = some pin) (header : readNames pin = .ok (names, rest))
    (some_row : (main solver found).rows ≠ []) :
    (main solver found).rows = (rowLoop solver model names found.bankState (.init s) rest).1 ∧
      (main solver found).tout = some (temperatureTrace names (main solver found).rows) ∧
      (main solver found).poutWithLeak = some (totalPowerTrace names (main solver found).rows) := by
  have opened : found.toutWritable = true ∧ found.poutWritable = true ∧
      names.length = numColumns model := by
    unfold main at some_row
    simp only [setup, ptrace] at some_row
    split_ifs at some_row with tout pout
    · exact absurd rfl some_row
    · exact absurd rfl some_row
    rw [Bool.not_eq_true, Bool.not_eq_false'] at tout pout
    refine ⟨tout, pout, ?_⟩
    by_contra narrow
    simp only [traceMain, header, if_pos narrow] at some_row
    exact some_row rfl
  exact main_of_opened setup ptrace header opened.1 opened.2.1 opened.2.2

/-! ## Exit status zero -/

theorem lineVals_error {vals : ℕ → K} {line : Text} {status : ℕ}
    (failed : lineVals vals line = .error status) : status = 1 := by
  unfold lineVals at failed
  split_ifs at failed
  · cases failed
    rfl
  · split at failed
    simp only at failed
    split at failed
    · cases failed
      rfl
    · split_ifs at failed
      cases failed
      rfl

theorem readVals_error {vals : ℕ → K} {pin : Text} {status : ℕ}
    (failed : readVals vals pin = .error status) : status = 1 := by
  unfold readVals at failed
  split at failed
  · cases failed
  · rename_i line _ _
    cases entries : lineVals vals line with
    | error status' =>
      rw [entries] at failed
      cases failed
      exact lineVals_error entries
    | ok _ =>
      rw [entries] at failed
      cases failed

theorem readNames_error {pin : Text} {status : ℕ} (failed : readNames pin = .error status) :
    status = 1 := by
  unfold readNames at failed
  split at failed
  · cases failed
    rfl
  · simp only at failed
    split_ifs at failed <;> cases failed <;> rfl

theorem forUnits_error {σ : Type*} {names : List Text} {body : ℕ → ℕ → σ → σ}
    {units : List Text} {base count : ℕ} {s : σ} {status : ℕ}
    (failed : forUnits names body units base count s = .error status) : status = 1 := by
  unfold forUnits at failed
  generalize List.range units.length = js at failed
  induction js generalizing s with
  | nil => cases failed
  | cons j js ih =>
    rw [List.foldlM_cons] at failed
    cases found : getBlkIndex units (names.getD (count + j) []) with
    | error status' =>
      rw [found] at failed
      cases failed
      unfold getBlkIndex at found
      split at found <;> cases found
      rfl
    | ok u =>
      rw [found] at failed
      exact ih failed

theorem forColumns_error {σ : Type*} {names : List Text} {body : ℕ → ℕ → σ → σ}
    {model : GridModel} {base count : ℕ} {s : σ} {status : ℕ}
    (failed : forColumns names body model base count s = .error status) : status = 1 := by
  induction model generalizing base count s with
  | nil => cases failed
  | cons layer layers ih =>
    rw [forColumns] at failed
    split_ifs at failed
    · cases units : forUnits names body layer.units base count s with
      | error status' =>
        rw [units] at failed
        cases failed
        exact forUnits_error units
      | ok s' =>
        rw [units] at failed
        exact ih failed
    · exact ih failed

/-- What a row passes before `compute_temp`. -/
def Prepared (solver : Solver S K) (model : GridModel) (names : List Text) (st : RowState S K)
    (row : List K) : Prop :=
  row.length = numColumns model ∧
    (∃ power, permuteIn model names (storeVals row st.vals) st.power = .ok power) ∧
    ∃ s, solver.prepare st.solver = some s

section ExitZero

variable {solver : Solver S K} {model : GridModel} {names : List Text} {bankState : Option Text}
  {st : RowState S K} {row : List K}

/-- Whatever does not stop a row with an error has it reach `compute_temp`. -/
theorem prepared_of_not_fatal (passes : processRow solver model names bankState st row ≠ .error 1) :
    Prepared solver model names st row := by
  unfold processRow at passes
  split_ifs at passes with length
  · exact absurd rfl passes
  · rw [not_not] at length
    cases stored : permuteIn model names (storeVals row st.vals) st.power with
    | error status =>
      rw [stored] at passes
      exact absurd (congrArg Except.error (forColumns_error stored)) passes
    | ok power =>
      cases prepared : solver.prepare st.solver with
      | none => rw [stored, prepared] at passes; exact absurd rfl passes
      | some s => exact ⟨length, ⟨power, stored⟩, s, prepared⟩

/-- Without `BankStateData.txt`, a row that reaches `compute_temp` ends the program with status
zero. -/
theorem processRow_none (prepared : Prepared solver model names st row) :
    processRow solver model names none st row = .error 0 := by
  obtain ⟨length, ⟨power, stored⟩, s, prepare⟩ := prepared
  rw [processRow, if_neg (not_not.mpr length), stored, prepare]
  rfl

/-- With it, a row passes or ends the program with an error status. -/
theorem processRow_some {text : Text} {status : ℕ}
    (stops : processRow solver model names (some text) st row = .error status) : status = 1 := by
  unfold processRow at stops
  split_ifs at stops
  · cases stops
    rfl
  cases stored : permuteIn model names (storeVals row st.vals) st.power with
  | error status' =>
    rw [stored] at stops
    cases stops
    exact forColumns_error stored
  | ok power =>
    cases prepared : solver.prepare st.solver with
    | none =>
      rw [stored, prepared] at stops
      cases stops
      rfl
    | some s =>
      rw [stored, prepared] at stops
      cases solved : solver.solve text s power with
      | none =>
        simp only [computeTemp, solved] at stops
        cases stops
        rfl
      | some result =>
        obtain ⟨s', temp, leak⟩ := result
        simp only [computeTemp, solved] at stops
        cases out : permuteOut model names temp (storeVals row st.vals) with
        | error status' =>
          rw [out] at stops
          cases leaks : permuteOut model names leak st.valsWithLeak <;>
            rw [leaks] at stops <;> cases stops <;> exact forColumns_error out
        | ok vals =>
          cases leaks : permuteOut model names leak st.valsWithLeak with
          | error status' =>
            rw [out, leaks] at stops
            cases stops
            exact forColumns_error leaks
          | ok valsWithLeak =>
            rw [out, leaks] at stops
            cases stops

end ExitZero

/-- The first row is read and reaches `compute_temp`, whose first act is to read
`BankStateData.txt`. -/
def ReachesBankState (solver : Solver S K) (found : Surroundings S) : Prop :=
  ∃ model s pin names rest values rest', found.setup = some (model, s) ∧
    found.ptrace = some pin ∧ found.toutWritable = true ∧ found.poutWritable = true ∧
    readNames pin = .ok (names, rest) ∧ names.length = numColumns model ∧
    readVals (fun _ => (0 : K)) rest = .ok (values, rest') ∧ values ≠ [] ∧
    Prepared solver model names (.init s) values

/-- The first row of the power trace went through, under this header. -/
def FirstRow (solver : Solver S K) (found : Surroundings S) (names : List Text)
    (trace : RowTrace K) : Prop :=
  ∃ model s pin rest values rest' st', found.setup = some (model, s) ∧ found.ptrace = some pin ∧
    readNames pin = .ok (names, rest) ∧
    readVals (fun _ => (0 : K)) rest = .ok (values, rest') ∧
    processRow solver model names found.bankState (.init s) values = .ok (st', trace)

/-- **Exit status zero without a row.** A run that reaches `compute_temp` and finds no
`BankStateData.txt` exits with status zero, leaving a header only. -/
theorem main_of_noBankState {solver : Solver S K} {found : Surroundings S}
    (reaches : ReachesBankState solver found) (missing : found.bankState = none) :
    ∃ names, (main solver found).status = 0 ∧ (main solver found).rows = [] ∧
      (main solver found).tout = some (writeNames names) := by
  obtain ⟨model, s, pin, names, rest, values, rest', setup, ptrace, tout, pout, header, columns,
    read, nonempty, prepared⟩ := reaches
  have loop : rowLoop solver model names none (.init s) rest = ([], .error 0) :=
    rowLoop_stop read nonempty (processRow_none prepared)
  refine ⟨names, ?_⟩
  rw [main]
  simp only [setup, ptrace, tout, pout, Bool.not_true, Bool.false_eq_true, if_false, traceMain,
    header, columns, ne_eq, not_true_eq_false, missing, loop]
  simp [temperatureTrace]

/-- No row passes where `BankStateData.txt` is missing. -/
theorem not_firstRow_of_noBankState {solver : Solver S K} {found : Surroundings S}
    {names : List Text} {trace : RowTrace K} (missing : found.bankState = none) :
    ¬ FirstRow solver found names trace := by
  rintro ⟨model, s, pin, rest, values, rest', st', -, -, -, -, processed⟩
  rw [missing] at processed
  have prepared := prepared_of_not_fatal (processed.trans_ne nofun)
  rw [processRow_none prepared] at processed
  cases processed

/-- A loop that does not end the program with an error status has its first row read, if there
is one, and reach `compute_temp`; with `BankStateData.txt` there that row goes through. -/
theorem rowLoop_not_fatal {solver : Solver S K} {model : GridModel} {names : List Text}
    {bankState : Option Text} {st : RowState S K} {pin : Text}
    (passes : (rowLoop solver model names bankState st pin).2 ≠ .error 1) :
    rowLoop solver model names bankState st pin = ([], .ok st) ∨
      ∃ values rest', readVals st.vals pin = .ok (values, rest') ∧ values ≠ [] ∧
        Prepared solver model names st values ∧ ∀ text, bankState = some text → ∃ st' trace traces,
          processRow solver model names bankState st values = .ok (st', trace) ∧
          (rowLoop solver model names bankState st pin).1 = trace :: traces := by
  cases read : readVals st.vals pin with
  | error status =>
    rw [rowLoop_readError read, readVals_error read] at passes
    exact absurd rfl passes
  | ok result =>
    obtain ⟨values, rest'⟩ := result
    by_cases nonempty : values = []
    · subst nonempty
      exact Or.inl (rowLoop_eof read)
    cases processed : processRow solver model names bankState st values with
    | error status =>
      rw [rowLoop_stop read nonempty processed] at passes
      have notOne : status ≠ 1 := fun one => passes (congrArg Except.error one)
      refine Or.inr ⟨values, rest', rfl, nonempty,
        prepared_of_not_fatal (processed.trans_ne (by simpa using notOne)), ?_⟩
      rintro text rfl
      exact absurd (processRow_some processed) notOne
    | ok next =>
      obtain ⟨st', trace⟩ := next
      refine Or.inr ⟨values, rest', rfl, nonempty,
        prepared_of_not_fatal (processed.trans_ne nofun), fun _ _ => ?_⟩
      exact ⟨st', trace, _, processed, by rw [rowLoop_row read nonempty processed]⟩

/-- **Exit status zero.** Any run that exits with status zero reaches `compute_temp` with its
first row, and with `BankStateData.txt` there that row goes through and is written. -/
theorem main_exitZero {solver : Solver S K} {found : Surroundings S}
    (zero : (main solver found).status = 0) :
    ReachesBankState solver found ∧ ∀ text, found.bankState = some text → ∃ names trace traces,
        FirstRow solver found names trace ∧
        (main solver found).tout = some (temperatureTrace names (trace :: traces)) := by
  cases setup : found.setup with
  | none =>
    simp only [main, setup] at zero
    cases zero
  | some stack =>
  obtain ⟨model, s⟩ := stack
  cases ptrace : found.ptrace with
  | none =>
    simp only [main, setup, ptrace] at zero
    cases zero
  | some pin =>
  simp only [main, setup, ptrace] at zero ⊢
  split_ifs at zero ⊢ with tout pout
  · cases zero
  · cases zero
  rw [Bool.not_eq_true, Bool.not_eq_false'] at tout pout
  cases header : readNames pin with
  | error status =>
    simp only [traceMain, header, stopped, readNames_error header] at zero
    cases zero
  | ok result =>
  obtain ⟨names, rest⟩ := result
  simp only [traceMain, header] at zero ⊢
  split_ifs at zero ⊢ with columns
  · cases zero
  rw [not_not] at columns
  have passes : (rowLoop solver model names found.bankState (.init s) rest).2 ≠ .error 1 := by
    intro fatal
    rw [fatal] at zero
    cases zero
  rcases rowLoop_not_fatal passes with empty | ⟨values, rest', read, nonempty, prepared, through⟩
  · rw [empty] at zero
    cases zero
  refine ⟨⟨model, s, pin, names, rest, values, rest', setup, ptrace, tout, pout, header, columns,
    read, nonempty, prepared⟩, fun text present => ?_⟩
  obtain ⟨st', trace, traces, processed, rows⟩ := through text present
  refine ⟨names, trace, traces, ⟨model, s, pin, rest, values, rest', st', setup, ptrace, header,
    read, processed⟩, ?_⟩
  rw [rows]
  cases final : (rowLoop solver model names found.bankState (.init s) rest).2 with
  | error status => rfl
  | ok st =>
    simp only
    split_ifs
    · rfl
    · cases solver.finish st.solver (averagePower model st) <;> rfl

/-- With `BankStateData.txt`, a loop ends at the end of the file or with an error status. -/
theorem rowLoop_some {solver : Solver S K} {model : GridModel} {names : List Text} {text : Text}
    {st : RowState S K} {pin : Text} {status : ℕ}
    (stops : (rowLoop solver model names (some text) st pin).2 = .error status) : status = 1 := by
  generalize present : some text = bankState at stops
  fun_induction rowLoop solver model names bankState st pin with
  | case1 st pin status' read =>
    cases stops
    exact readVals_error read
  | case2 => cases stops
  | case3 st pin v vs rest read status' processed =>
    cases stops
    rw [← present] at processed
    exact processRow_some processed
  | case4 st pin v vs rest read st' first processed shorter traces final eq ih =>
    exact ih (by rwa [eq])

/-- **Exit status zero and all rows.** With `BankStateData.txt` there, a run that exits with
status zero has read the power trace to its end. -/
theorem rowLoop_of_exitZero {solver : Solver S K} {found : Surroundings S} {model : GridModel}
    {s : S} {pin rest text : Text} {names : List Text} (setup : found.setup = some (model, s))
    (ptrace : found.ptrace = some pin) (header : readNames pin = .ok (names, rest))
    (present : found.bankState = some text) (zero : (main solver found).status = 0) :
    (main solver found).rows = (rowLoop solver model names found.bankState (.init s) rest).1 ∧
      ∃ st', (rowLoop solver model names found.bankState (.init s) rest).2 = .ok st' := by
  simp only [main, setup, ptrace] at zero ⊢
  split_ifs at zero ⊢
  · cases zero
  · cases zero
  simp only [traceMain, header] at zero ⊢
  split_ifs at zero ⊢
  · cases zero
  cases final : (rowLoop solver model names found.bankState (.init s) rest).2 with
  | error status =>
    rw [final] at zero
    rw [present] at final
    cases (rowLoop_some final).symm.trans zero
  | ok st' =>
    refine ⟨?_, st', rfl⟩
    simp only
    split_ifs
    · rfl
    · cases solver.finish st'.solver (averagePower model st') <;> rfl

end GpuHotSpot.HotSpotTool
