import GpuHotSpot.Pipeline.AccelSimTraceParser

/-!
# Two ways to cut a text into lines

`parse_trace_file` reads the lines of a file, which end at newlines in any
convention. `parse_accelsim_output` takes `str.splitlines`, which breaks lines at
vertical tabs, form feeds, the separators of ASCII and those of Unicode as well.
What is one line for the first may be several lines for the second, and a line
counts for one statistic at most.

* `parseStatsLine_concat_newline`: the terminator of a line counts for nothing.
* `parseTraceFile_eq_parseAccelsimOutput`: the two agree if what is found in a
  line is found in one of its pieces, and nothing else is.
-/

namespace GpuHotSpot.Pipeline

/-! ## Terminators -/

section Terminator

variable {py : Python} (newline : py.decimal '\n' = none)

include newline

/-- Each of the patterns ends with a character that is not a newline. -/
theorem Kind.endsWithout_pattern (kind : Kind) :
    Pattern.EndsWithout '\n' (kind.pattern py) := by
  have noDigit : py.isDecimal '\n' = false := by
    rw [Python.isDecimal, newline]
    rfl
  cases kind with
  | dramRd | dramWr | cycle | totCycle => exact .concat noDigit rfl
  | bulkRd | bulkWr => exact .concat (by decide) rfl

/-- A line and its terminator count for as much as the line. -/
theorem parseStatsLine_concat_newline (s : Stats) (line : Text) :
    parseStatsLine py s (line ++ ['\n']) = parseStatsLine py s line := by
  have same (kind : Kind) : (kind.pattern py).search (line ++ ['\n']) =
      (kind.pattern py).search line := Pattern.search_concat (kind.endsWithout_pattern newline) line
  have rd := same .dramRd
  have wr := same .dramWr
  have bulkRd := same .bulkRd
  have bulkWr := same .bulkWr
  have cycle := same .cycle
  have totCycle := same .totCycle
  simp only [Kind.pattern] at rd wr bulkRd bulkWr cycle totCycle
  have cycles : updateCycles py (line ++ ['\n']) = updateCycles py line :=
    funext fun s => by simp only [updateCycles, cycle, totCycle]
  simp only [parseStatsLine, parseLine, rd, wr, bulkRd, bulkWr, cycles]

end Terminator

/-! ## What is found in a line -/

section Found

variable (py : Python)

/-- The patterns of `_parse_line`, in its order. -/
def accessKinds : List Kind := [.dramRd, .dramWr, .bulkRd, .bulkWr]

/-- The texts that `_parse_line` takes from a match. -/
def matchTexts (kind : Kind) (groups : List Text) : List Text :=
  match kind with
  | .bulkRd | .bulkWr => bulkVals groups
  | _ => groups

/-- The access statistic of a line: its pattern and its texts. -/
def accessFound (line : Text) : Option (Kind × List Text) :=
  accessKinds.findSome? fun kind =>
    ((kind.pattern py).search line).map fun groups => (kind, matchTexts kind groups)

/-- The groups of the cycle counter of a line. -/
def cycleFound (line : Text) : Option (List Text) :=
  ((cycleRe py).search line).or ((totCycleRe py).search line)

/-- What an access statistic counts for. -/
def accessEffect : Kind × List Text → Option Stats
  | (.dramRd, groups) => (addPerBank py groups 0).map fun reads => { (0 : Stats) with reads }
  | (.dramWr, groups) => (addPerBank py groups 0).map fun writes => { (0 : Stats) with writes }
  | (.bulkRd, vals) => (sumM (bulkEntry py) (vals.take numBanks).zipIdx).map fun reads =>
      { (0 : Stats) with reads }
  | (.bulkWr, vals) => (sumM (bulkEntry py) (vals.take numBanks).zipIdx).map fun writes =>
      { (0 : Stats) with writes }
  | _ => some 0

/-- What a cycle counter counts for. -/
def cycleEffect (groups : List Text) : Option Stats :=
  (py.int (matchGroup groups 1)).map fun n => ⟨0, 0, n.toNat⟩

theorem parseLine_eq (line : Text) :
    parseLine py line 0 = (accessFound py line).elim (some 0) (accessEffect py) := by
  have bulk (groups : List Text) : addBulk py groups 0 =
      sumM (bulkEntry py) ((bulkVals groups).take numBanks).zipIdx := by
    rw [addBulk_eq_sumM]
    simp
  simp only [parseLine, accessFound, accessKinds, List.findSome?_cons, List.findSome?_nil,
    Kind.pattern]
  cases (dramRdRe py).search line with
  | some groups => rfl
  | none =>
  cases (dramWrRe py).search line with
  | some groups => rfl
  | none =>
  cases bulkRdRe.search line with
  | some groups => exact congrArg (Option.map _) (bulk groups)
  | none =>
  cases bulkWrRe.search line with
  | some groups => exact congrArg (Option.map _) (bulk groups)
  | none => rfl

theorem updateCycles_eq (line : Text) :
    updateCycles py line 0 = (cycleFound py line).elim (some 0) (cycleEffect py) := by
  rw [updateCycles, cycleFound]
  cases ((cycleRe py).search line).or ((totCycleRe py).search line) with
  | none => rfl
  | some groups =>
    refine congrArg (Option.map · _) (funext fun n => ?_)
    ext <;> simp

/-- A line counts for its access statistic and its cycle counter. -/
theorem parseStatsLine_eq (line : Text) :
    parseStatsLine py 0 line =
      (parseLine py line 0).bind fun s => (updateCycles py line 0).map (s + ·) := by
  rw [parseStatsLine]
  cases parseLine py line 0 with
  | none => rfl
  | some s =>
    have counted := updateCycles_add py line s 0
    rwa [add_zero] at counted

end Found

/-! ## Broken lines -/

section Broken

variable {py : Python} {line : Text}

/-- What is found in the pieces of a line, each for itself, is what is found in the line: nothing, or
one match, in one of the pieces. -/
def InOnePiece {A : Type} (found : Text → Option A) (line : Text) : Prop :=
  (line.splitOnP isLineBreak).filterMap found = (found line).toList

instance {A : Type} [DecidableEq A] (found : Text → Option A) :
    Decidable (InOnePiece found line) := inferInstanceAs (Decidable (_ = _))

/-- The pieces count for what is found in them. -/
theorem sumM_elim {A : Type} (found : Text → Option A) (effect : A → Option Stats)
    (pieces : List Text) :
    sumM (fun piece => (found piece).elim (some 0) effect) pieces =
      sumM effect (pieces.filterMap found) := by
  induction pieces with
  | nil => rfl
  | cons piece pieces ih =>
    rw [sumM, ih, List.filterMap_cons]
    cases found piece with
    | none => simp
    | some a => rfl

theorem InOnePiece.sumM_eq {A : Type} {found : Text → Option A} (one : InOnePiece found line)
    (effect : A → Option Stats) :
    sumM (fun piece => (found piece).elim (some 0) effect) (line.splitOnP isLineBreak) =
      (found line).elim (some 0) effect := by
  rw [sumM_elim, one]
  cases found line with
  | none => rfl
  | some a => exact sumM_singleton effect a

/-- The pieces of a line count for as much as the line, if each of the two things that count in it is
in one piece. -/
theorem parseStatsLine_eq_pieces (access : InOnePiece (accessFound py) line)
    (cycle : InOnePiece (cycleFound py) line) :
    parseStatsLine py 0 line = sumM (parseStatsLine py 0) (line.splitOnP isLineBreak) := by
  have each : parseStatsLine py 0 = fun piece =>
      ((accessFound py piece).elim (some 0) (accessEffect py)).bind fun s =>
        ((cycleFound py piece).elim (some 0) (cycleEffect py)).map (s + ·) := by
    funext piece
    rw [parseStatsLine_eq, parseLine_eq, updateCycles_eq]
  rw [each, sumM_both, access.sumM_eq, cycle.sumM_eq]

/-- **The two parsers agree** on a text if, in each line of the file, the access statistic and the
cycle counter that are found are each found in one of the pieces that `str.splitlines` makes of it,
and nothing else is found in the pieces. -/
theorem parseTraceFile_eq_parseAccelsimOutput (newline : py.decimal '\n' = none) (text : Text)
    (onePiece : ∀ line ∈ filePieces text,
      InOnePiece (accessFound py) line ∧ InOnePiece (cycleFound py) line) :
    parseTraceFile py (some text) = parseAccelsimOutput py text := by
  have blank := parseStatsLine_nil py 0
  have regroup : ∀ line ∈ filePieces text, parseStatsLine py 0 line =
      sumM (parseStatsLine py 0) (line.splitOnP isLineBreak) := fun line member =>
    parseStatsLine_eq_pieces (onePiece line member).1 (onePiece line member).2
  calc parseTraceFile py (some text)
      = sumM (parseStatsLine py 0) (readlines text) := foldlM_parseStatsLine py _
    _ = sumM (parseStatsLine py 0) (filePieces text) :=
        sumM_readlines blank (parseStatsLine_concat_newline newline 0) text
    _ = sumM (parseStatsLine py 0) (linePieces text) := by
        rw [← flatMap_filePieces]
        exact sumM_flatMap regroup
    _ = sumM (parseStatsLine py 0) (splitlines text) := (sumM_splitlines blank text).symm
    _ = parseAccelsimOutput py text := (foldlM_parseStatsLine py _).symm

end Broken

/-- A form feed in a line without statistics, behind a statistic, in front of one, and between a
statistic and a cycle counter. -/
def formFeeds : Text :=
  ("page\x0cbreak\r\ndram[0]: bk[0]: rd = 1\x0c\nheader\x0cdram[0]: bk[1]: rd = 42\n" ++
    "dram_reads_per_bank = 5, 6\x0c\ndram[0]: bk[2]: wr = 3\x0cgpu_sim_cycle = 7\n").toList

theorem parseTraceFile_eq_parseAccelsimOutput_formFeed :
    parseTraceFile .ascii (some formFeeds) = parseAccelsimOutput .ascii formFeeds := by
  refine parseTraceFile_eq_parseAccelsimOutput (by decide) formFeeds ?_
  have checked : (filePieces formFeeds).all (fun line =>
      decide (InOnePiece (accessFound .ascii) line ∧ InOnePiece (cycleFound .ascii) line)) =
        true := by
    decide +kernel
  simpa only [List.all_eq_true, decide_eq_true_eq] using checked

/-- Two statistics with a form feed between them: the file gives the first one, the string both. -/
theorem parseTraceFile_ne_parseAccelsimOutput :
    ¬ ∀ (py : Python) (text : Text), py.decimal '\n' = none →
      parseTraceFile py (some text) = parseAccelsimOutput py text := by
  intro agree
  have counts := congrArg (Option.map fun s : Stats => s.reads 1)
    (agree .ascii "dram[0]: bk[0]: rd = 1\x0cdram[0]: bk[1]: rd = 2".toList (by decide))
  revert counts
  decide +kernel

end GpuHotSpot.Pipeline
