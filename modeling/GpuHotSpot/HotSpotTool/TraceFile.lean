import Mathlib.Tactic.Linarith
import GpuHotSpot.Lib.ExactFloat

/-!
# Trace files

The readers and writers of power and temperature traces in `hotspot_tool/hotspot.c`:
a header of block names, then one row of numbers per time unit.

* `readNames_row`, `readVals_row`: a tab-separated row is read back field by field.
* `readFields_row`: what both rest on, the cursor loop over one line.
-/

namespace GpuHotSpot.HotSpotTool

/-! ## Limits and exits -/

def lineSize : ℕ := 65536

def maxUnits : ℕ := 8192

/-- An exit status other than by returning from `main`. -/
abbrev Exits (α : Type*) := Except ℕ α

/-- `fatal`: report and `exit(1)`. -/
def fatal {α : Type*} : Exits α := .error 1

theorem ok_bind {α β : Type} (x : α) (f : α → Exits β) : (Except.ok x : Exits α) >>= f = f x := rfl

/-- A sequence of fallible steps succeeds only through each of them. -/
theorem bind_eq_ok {α β : Type} {x : Exits α} {f : α → Exits β} {b : β}
    (ran : x >>= f = .ok b) : ∃ a, x = .ok a ∧ f a = .ok b := by
  cases x with
  | error => cases ran
  | ok a => exact ⟨a, rfl, ran⟩

/-! ## Lines -/

/-- `fgets` with room for `n` characters: what it stores and what is left of the stream, or
`none` when it meets the end of the file (`feof`). -/
def fgets : ℕ → Text → Option (Text × Text)
  | 0, t => some ([], t)
  | _ + 1, [] => none
  | n + 1, c :: t =>
    if c = '\n' then some ([c], t) else (fgets n t).map fun (line, rest) => (c :: line, rest)

/-- The separators of `strtok(temp, " \r\t\n")`. -/
def isBlank (c : Char) : Bool := c = ' ' || c = '\r' || c = '\t' || c = '\n'

/-- `do { fgets(line) } while (!strtok(line))`, for at most `fuel` lines. -/
def nextLine : ℕ → Text → Option (Text × Text)
  | 0, _ => none
  | fuel + 1, pin =>
    (fgets (lineSize - 1) pin).bind fun (line, rest) =>
      if tokensBy isBlank line = [] then nextLine fuel rest else some (line, rest)

/-- The loop chopping a line: `%s` at the cursor, then over that many characters and the
white space that follows. Returns the fields and what is left when the entries run out. -/
def readFields : ℕ → Text → List Text × Text
  | 0, src => ([], src)
  | _ + 1, [] => ([], [])
  | entries + 1, src =>
    let field := (tokens src).headD []
    let (fields, left) := readFields entries ((src.drop field.length).dropWhile isSpace)
    (field :: fields, left)

/-- `read_names`. -/
def readNames (pin : Text) : Exits (List Text × Text) :=
  match nextLine (pin.length + 1) pin with
  | none => fatal
  | some (line, rest) =>
    if line.getLast? ≠ some '\n' then fatal
    else
      let (names, left) := readFields maxUnits line
      if left = [] then .ok (names, rest) else fatal

section Values

variable {K : Type*} [ExactFloat K]

/-- `sscanf("%lf")` at a field: the number its longest readable prefix denotes. -/
def scanDouble (field : Text) : Option K :=
  (List.range (field.length + 1)).reverse.findSome? fun n => ExactFloat.read (field.take n)

/-- The values chopped from a line, `vals` being what the array held before. -/
def lineVals (vals : ℕ → K) (line : Text) : Exits (List K) :=
  if line.getLast? ≠ some '\n' then fatal
  else
    let (fields, left) := readFields maxUnits line
    -- at the end of the line `%lf` converts nothing and is no format error either
    let entries := fields.zipIdx.mapM fun (field, i) =>
      if field = [] then some (vals i) else scanDouble field
    match entries with
    | none => fatal
    | some entries => if left = [] then .ok entries else fatal

/-- `read_vals`. No values mean end of file. -/
def readVals (vals : ℕ → K) (pin : Text) : Exits (List K × Text) :=
  match nextLine (pin.length + 1) pin with
  | none => .ok ([], pin)
  | some (line, rest) => (lineVals vals line).map fun entries => (entries, rest)

/-- A row of `n` columns, tab-separated and newline-terminated. -/
def writeRow (columns : List Text) : Text := unlines [List.intercalate ['\t'] columns]

/-- `write_names`. -/
def writeNames (names : List Text) : Text := writeRow names

/-- `write_vals`: temperatures in degrees Celsius. -/
def writeVals (vals : List K) : Text :=
  writeRow (vals.map fun v => fmtFixed 2 (v - 273.15))

/-- `write_vals_power`. -/
def writeValsPower (vals : List K) : Text := writeRow (vals.map (fmtFixed 2))

end Values

/-! ## Reading consumes -/

theorem fgets_length {n : ℕ} {t line rest : Text} (read : fgets n t = some (line, rest)) :
    t.length = line.length + rest.length := by
  induction n generalizing t line with
  | zero =>
    cases read
    simp
  | succ n ih =>
    cases t with
    | nil => cases read
    | cons c t =>
      rw [fgets] at read
      split_ifs at read
      · cases read
        simp [Nat.add_comm]
      · obtain ⟨⟨line', rest'⟩, tail, eq⟩ := Option.map_eq_some_iff.mp read
        cases eq
        have := ih tail
        simp only [List.length_cons]
        omega

/-- A line with a field on it leaves less to read. -/
theorem nextLine_lt {fuel : ℕ} {t line rest : Text} (read : nextLine fuel t = some (line, rest)) :
    rest.length < t.length := by
  induction fuel generalizing t with
  | zero => cases read
  | succ fuel ih =>
    obtain ⟨⟨line', rest'⟩, first, read⟩ := Option.bind_eq_some_iff.mp read
    have length := fgets_length first
    simp only at read
    split_ifs at read with blank
    · have := ih read
      omega
    · cases read
      cases line with
      | nil => exact absurd tokensBy_nil blank
      | cons c line =>
        simp only [List.length_cons] at length
        omega

section

variable {K : Type*} [ExactFloat K]

/-- A row that is not the end of the file leaves less to read. -/
theorem readVals_lt {vals : ℕ → K} {pin rest : Text} {row : List K}
    (read : readVals vals pin = .ok (row, rest)) (nonempty : row ≠ []) :
    rest.length < pin.length := by
  unfold readVals at read
  split at read
  · cases read
    exact absurd rfl nonempty
  · rename_i line rest' next
    cases entries : lineVals vals line with
    | error status => rw [entries] at read; cases read
    | ok row =>
      rw [entries] at read
      cases read
      exact nextLine_lt next

end

/-! ## Reading rows back -/

theorem fgets_line {n : ℕ} {l : Text} (line : OneLine l) (short : l.length < n) (t : Text) :
    fgets n (l ++ '\n' :: t) = some (l ++ ['\n'], t) := by
  induction l generalizing n with
  | nil =>
    obtain ⟨m, rfl⟩ := Nat.exists_eq_add_one_of_ne_zero (show n ≠ 0 by simp at short; omega)
    simp [fgets]
  | cons c l ih =>
    obtain ⟨m, rfl⟩ := Nat.exists_eq_add_one_of_ne_zero (show n ≠ 0 by omega)
    have notNewline := (line c (by simp)).1
    have rest := ih (n := m) (fun d member => line d (by simp [member])) (by simpa using short)
    simp [fgets, notNewline, rest]

/-- A line with a field on it is the next line. -/
theorem nextLine_line (fuel : ℕ) {l : Text} (line : OneLine l) (short : l.length < lineSize - 1)
    (field : tokensBy isBlank l ≠ []) (t : Text) :
    nextLine (fuel + 1) (l ++ '\n' :: t) = some (l ++ ['\n'], t) := by
  have separator : isBlank '\n' = true := by decide
  rw [← tokensBy_append_singleton l separator] at field
  simp [nextLine, fgets_line line short, field]

/-- One pass of the cursor over a field and its separator. -/
theorem readFields_cons {t : Text} {sep : Char} {rest : Text} {entries : ℕ} (token : Token t)
    (separator : isSpace sep = true) (stops : rest.dropWhile isSpace = rest) :
    readFields (entries + 1) (t ++ sep :: rest) =
      (t :: (readFields entries rest).1, (readFields entries rest).2) := by
  have first : (tokens (t ++ sep :: rest)).headD [] = t := by
    rw [tokens, tokensBy_append_cons _ _ separator,
      tokensBy_singleton token.ne_nil token.noSpace]
    rfl
  obtain ⟨c, cs, cons⟩ := List.exists_cons_of_ne_nil token.ne_nil
  have unfolded : readFields (entries + 1) (t ++ sep :: rest) =
      (fun field => (field :: (readFields entries
          (((t ++ sep :: rest).drop field.length).dropWhile isSpace)).1,
        (readFields entries
          (((t ++ sep :: rest).drop field.length).dropWhile isSpace)).2))
        ((tokens (t ++ sep :: rest)).headD []) := by
    rw [cons]
    rfl
  rw [unfolded, first]
  simp only [List.drop_left, List.dropWhile_cons_of_pos separator, stops]

/-- A row starts with a character of its first field. -/
theorem dropWhile_isSpace_row {t : Text} (token : Token t) (rest : Text) :
    (t ++ rest).dropWhile isSpace = t ++ rest := by
  obtain ⟨c, cs, cons⟩ := List.exists_cons_of_ne_nil token.ne_nil
  have visible := token.noSpace c (by simp [cons])
  rw [cons, List.cons_append, List.dropWhile_cons_of_neg (by simp [visible])]

/-- **Rows.** The fields of a tab-separated row are read back, as many as there is room for. -/
theorem readFields_row {fields : List Text} {entries : ℕ} (nonempty : fields ≠ [])
    (token : ∀ t ∈ fields, Token t) (enough : fields.length ≤ entries) :
    readFields entries (List.intercalate ['\t'] fields ++ ['\n']) = (fields, []) := by
  induction fields generalizing entries with
  | nil => exact absurd rfl nonempty
  | cons t rest ih =>
    obtain ⟨room, rfl⟩ := Nat.exists_eq_add_of_le' (show 1 ≤ entries by simp at enough; omega)
    cases rest with
    | nil =>
      rw [List.intercalate_singleton, readFields_cons (token t (by simp)) (by decide) rfl]
      cases room <;> rfl
    | cons u rest =>
      have inRest := fun t member => token t (List.mem_cons_of_mem _ member)
      have next := ih (by simp) inRest (by simpa using enough)
      have stops : (List.intercalate ['\t'] (u :: rest) ++ ['\n']).dropWhile isSpace =
          List.intercalate ['\t'] (u :: rest) ++ ['\n'] := by
        cases rest with
        | nil =>
          rw [List.intercalate_singleton]
          exact dropWhile_isSpace_row (inRest u (by simp)) _
        | cons v rest =>
          rw [List.intercalate_cons_of_ne_nil (by simp)]
          simp only [List.append_assoc]
          exact dropWhile_isSpace_row (inRest u (by simp)) _
      rw [List.intercalate_cons_of_ne_nil (by simp), List.append_assoc, List.append_assoc,
        List.singleton_append, readFields_cons (token t (by simp)) (by decide) stops, next]

/-- What makes a row of fields readable: within the limits on entries and on characters. -/
structure Readable (fields : List Text) : Prop where
  ne_nil : fields ≠ []
  token : ∀ t ∈ fields, Token t
  entries : fields.length ≤ maxUnits
  width : (List.intercalate ['\t'] fields).length < lineSize - 1

/-- Few and short fields are within the limits. -/
theorem Readable.of_short {m : ℕ} {fields : List Text} (nonempty : fields ≠ [])
    (token : ∀ t ∈ fields, Token t) (short : ∀ t ∈ fields, t.length ≤ m)
    (few : fields.length ≤ maxUnits) (narrow : fields.length * (m + 1) < lineSize - 1) :
    Readable fields :=
  ⟨nonempty, token, few, (length_intercalate_le short).trans_lt narrow⟩

namespace Readable

variable {fields : List Text} (readable : Readable fields)
include readable

theorem oneLine : OneLine (List.intercalate ['\t'] fields) :=
  oneLine_intercalate (by simp [OneLine]) fun t member => (readable.token t member).oneLine

theorem nextLine {fuel : ℕ} (t : Text) :
    HotSpotTool.nextLine (fuel + 1) (writeRow fields ++ t) =
      some (List.intercalate ['\t'] fields ++ ['\n'], t) := by
  have blank : tokensBy isBlank (List.intercalate ['\t'] fields) = fields :=
    tokensBy_intercalate (by decide) (fun t member => (readable.token t member).ne_nil)
      fun t member c inField => by
        have visible := (readable.token t member).noSpace c inField
        simp only [isSpace, Bool.or_eq_false_iff] at visible
        simp [isBlank, visible]
  have := nextLine_line fuel readable.oneLine readable.width
    (by rw [blank]; exact readable.ne_nil) t
  simpa [writeRow] using this

/-- **The header is read back.** -/
theorem readNames (t : Text) :
    HotSpotTool.readNames (writeRow fields ++ t) = .ok (fields, t) := by
  rw [HotSpotTool.readNames, readable.nextLine]
  simp [readFields_row readable.ne_nil readable.token readable.entries]

omit readable in
/-- Each field of a row is converted where it stands. -/
theorem mapM_entries {K : Type*} [ExactFloat K] {fields : List Text} {values : List K}
    (token : ∀ t ∈ fields, Token t) (denotes : fields.map scanDouble = values.map some)
    (vals : ℕ → K) (start : ℕ) :
    ((fields.zipIdx start).mapM fun (field, i) =>
      if field = [] then some (vals i) else scanDouble field) = some values := by
  induction fields generalizing values start with
  | nil =>
    cases values with
    | nil => rfl
    | cons => cases denotes
  | cons t rest ih =>
    cases values with
    | nil => cases denotes
    | cons v values =>
      obtain ⟨here, there⟩ := List.cons_eq_cons.mp denotes
      have next := ih (fun t member => token t (List.mem_cons_of_mem _ member)) there (start + 1)
      simp [List.zipIdx_cons, (token t (by simp)).ne_nil, here, next]

/-- **A row of numbers is read back**, each entry as its field denotes. -/
theorem readVals {K : Type*} [ExactFloat K] {values : List K}
    (denotes : fields.map scanDouble = values.map some) (vals : ℕ → K) (t : Text) :
    HotSpotTool.readVals vals (writeRow fields ++ t) = .ok (values, t) := by
  rw [HotSpotTool.readVals, readable.nextLine]
  simp [lineVals, readFields_row readable.ne_nil readable.token readable.entries,
    mapM_entries readable.token denotes, Except.map]

end Readable

theorem scanDouble_of_read {K : Type*} [ExactFloat K] {field : Text} {x : K}
    (denotes : ExactFloat.read field = some x) : scanDouble field = some x := by
  simp [scanDouble, List.range_succ, denotes]

end GpuHotSpot.HotSpotTool
