import GpuHotSpot.Lib.Fallible
import GpuHotSpot.Lib.Numeral
import GpuHotSpot.Lib.Regex

/-!
# Python's view of text

What the programs modelled here use of `str`, `int` and `re`: `str.splitlines`,
`re.split` at runs of separators, `int` of a text, and the character classes of
patterns that ignore case. Which characters are decimal digits, and how many of
them `int` accepts, depends on the Python at hand and is a parameter.

* `splitlines_append`: the lines of two texts joined by a newline.
* `sumM_splitlines`, `sumM_readlines`: adding up over the lines of a text, and over those
  of a file that holds it.
-/

namespace GpuHotSpot

/-- What differs between releases: Unicode's decimal digits and the limit on the digits `int`
converts (0 for none). -/
structure Python where
  decimal : Char → Option ℕ
  decimal_ascii : ∀ c, isDigitIn 10 c = true → decimal c = digitVal? c
  maxStrDigits : ℕ

namespace Python

/-- A Python that knows the ASCII digits and converts as many as a release does. -/
def ascii : Python where
  decimal c := if isDigitIn 10 c then digitVal? c else none
  decimal_ascii _ digit := if_pos digit
  maxStrDigits := 4300

variable (py : Python)

/-- The class `\d`. -/
def isDecimal (c : Char) : Bool := (py.decimal c).isSome

/-- The number that decimal digits denote, if there are any and not too many. -/
def digitsVal (digits : Text) : Option ℕ :=
  if digits ≠ [] ∧ digits.all py.isDecimal = true ∧
      (py.maxStrDigits = 0 ∨ digits.length ≤ py.maxStrDigits) then
    some (digits.foldl (fun acc c => 10 * acc + (py.decimal c).getD 0) 0)
  else none

/-- Digits in groups between single underscores. -/
def groupedVal (digits : Text) : Option ℕ :=
  if [] ∈ digits.splitOn '_' then none else py.digitsVal (digits.filter (· ≠ '_'))

/-- `int(t)`. -/
def int (t : Text) : Option ℤ :=
  match stripBy isUnicodeSpace t with
  | '-' :: digits => (py.groupedVal digits).map fun n => -(n : ℤ)
  | '+' :: digits => (py.groupedVal digits).map fun n => (n : ℤ)
  | digits => (py.groupedVal digits).map fun n => (n : ℤ)

end Python

/-! ## Lines -/

/-- The characters at which `str.splitlines` breaks lines, besides the pair of a carriage return
and a newline. -/
def isLineBreak (c : Char) : Bool :=
  c = '\n' || c = '\r' || c = '\x0b' || c = '\x0c' || c = '\x1c' || c = '\x1d' || c = '\x1e' ||
    c = '\u0085' || c = '\u2028' || c = '\u2029'

/-- The pieces between line breaks, with a last one that may be empty. -/
def linePieces (t : Text) : List Text := (universalNewlines t).splitOnP isLineBreak

/-- `t.splitlines()`. -/
def splitlines (t : Text) : List Text :=
  (linePieces t).dropLast ++ (linePieces t).getLast?.toList.filter fun l => !l.isEmpty

/-- Joining at a newline joins what the newlines are translated to; a carriage return in front
of the newline merges with it. -/
theorem universalNewlines_append (s t : Text) :
    universalNewlines (s ++ '\n' :: t) = universalNewlines s ++ '\n' :: universalNewlines t ∨
      ∃ u, universalNewlines s = u ++ ['\n'] ∧
        universalNewlines (s ++ '\n' :: t) = u ++ '\n' :: universalNewlines t := by
  have cons {c : Char} {s : Text} {l l' r : Text} (out : l' = c :: l)
      (ih : l = universalNewlines s ++ '\n' :: universalNewlines t ∨
        ∃ u, universalNewlines s = u ++ ['\n'] ∧ l = u ++ '\n' :: universalNewlines t)
      (own : r = c :: universalNewlines s) :
      l' = r ++ '\n' :: universalNewlines t ∨
        ∃ u, r = u ++ ['\n'] ∧ l' = u ++ '\n' :: universalNewlines t := by
    rcases ih with plain | ⟨u, ends, merged⟩
    · exact Or.inl (by rw [out, own, plain, List.cons_append])
    · exact Or.inr ⟨c :: u, by rw [own, ends, List.cons_append],
        by rw [out, merged, List.cons_append]⟩
  fun_induction universalNewlines s with
  | case1 s ih => exact cons rfl ih rfl
  | case2 s notPair ih =>
    cases s with
    | nil => exact Or.inr ⟨[], rfl, rfl⟩
    | cons d s =>
      refine cons ?_ ih rfl
      rw [List.cons_append, List.cons_append, universalNewlines.eq_2]
      rintro rest eq
      exact notPair s (congrArg (· :: s) (List.cons_eq_cons.mp eq).1)
  | case3 c s notPair notReturn ih =>
    refine cons ?_ ih rfl
    rw [List.cons_append, universalNewlines.eq_3]
    · exact fun _ isReturn => absurd isReturn notReturn
    · exact notReturn
  | case4 => exact Or.inl (universalNewlines_of_oneLine (l := []) (by simp [OneLine]) t)

/-- **Lines of joined texts.** A newline between two texts adds at most an empty line to theirs. -/
theorem splitlines_append (s t : Text) :
    splitlines (s ++ '\n' :: t) = splitlines s ++ splitlines t ∨
      splitlines (s ++ '\n' :: t) = splitlines s ++ [] :: splitlines t := by
  have newline : isLineBreak '\n' = true := by decide
  have pieces (t : Text) : linePieces t ≠ [] := List.splitOnP_ne_nil _ _
  have joined (ls : List Text) : (ls ++ linePieces t).dropLast ++
      (ls ++ linePieces t).getLast?.toList.filter (fun l => !l.isEmpty) = ls ++ splitlines t := by
    rw [List.dropLast_append_of_ne_nil (pieces t), List.getLast?_append_of_ne_nil _ (pieces t),
      List.append_assoc, splitlines]
  rcases universalNewlines_append s t with plain | ⟨u, ends, merged⟩
  · have split : linePieces (s ++ '\n' :: t) = linePieces s ++ linePieces t := by
      rw [linePieces, plain, List.splitOnP_append_cons _ _ newline]
      rfl
    have last := List.dropLast_append_getLast (pieces s)
    have own : splitlines s = (linePieces s).dropLast ++
        [(linePieces s).getLast (pieces s)].filter fun l => !l.isEmpty := by
      rw [splitlines, List.getLast?_eq_some_getLast (pieces s), Option.toList_some]
    rw [splitlines, split, joined]
    cases final : (linePieces s).getLast (pieces s) with
    | nil =>
      right
      rw [final] at own last
      rw [own, ← last]
      simp
    | cons c l =>
      left
      rw [final] at own last
      rw [own, ← last]
      simp
  · have split : linePieces (s ++ '\n' :: t) = u.splitOnP isLineBreak ++ linePieces t := by
      rw [linePieces, merged, List.splitOnP_append_cons _ _ newline]
      rfl
    have own : linePieces s = u.splitOnP isLineBreak ++ [[]] := by
      rw [linePieces, ends, List.splitOnP_append_cons _ _ newline]
      rfl
    left
    rw [splitlines, split, joined]
    simp [splitlines, own]

/-! ## Lines of a file -/

/-- The lines of a text file, without their terminators and with a last one that may be empty. -/
def filePieces (t : Text) : List Text := (universalNewlines t).splitOn '\n'

section Pieces

variable {p q : Char → Bool}

/-- Cutting more finely. -/
theorem flatMap_splitOnP (finer : ∀ c, q c = true → p c = true) (t : Text) :
    (t.splitOnP q).flatMap (List.splitOnP p) = t.splitOnP p := by
  induction t with
  | nil => rfl
  | cons c t ih =>
    obtain ⟨head, tail, pieces⟩ := List.exists_cons_of_ne_nil (List.splitOnP_ne_nil q t)
    obtain ⟨head', tail', pieces'⟩ := List.exists_cons_of_ne_nil (List.splitOnP_ne_nil p head)
    rw [List.splitOnP_cons_eq_if_modifyHead, List.splitOnP_cons_eq_if_modifyHead, ← ih, pieces]
    by_cases cut : q c = true
    · rw [if_pos cut, if_pos (finer c cut)]
      rfl
    · rw [if_neg cut, List.modifyHead_cons, List.flatMap_cons,
        List.splitOnP_cons_eq_if_modifyHead, List.flatMap_cons, pieces']
      split_ifs <;> rfl

end Pieces

section Sum

variable {M : Type*} [AddMonoid M] {effect : Text → Option M}

/-- An empty piece at the end counts for nothing. -/
theorem sumM_dropLast_append (blank : effect [] = some 0) {lines : List Text} (some_line : lines ≠ [])
    (terminate : Text → Text) (same : ∀ l, effect (terminate l) = effect l) :
    sumM effect (lines.dropLast.map terminate ++ lines.getLast?.toList.filter fun l => !l.isEmpty) =
      sumM effect lines := by
  obtain ⟨front, last, rfl⟩ : ∃ front last, lines = front ++ [last] :=
    ⟨_, _, (List.dropLast_append_getLast some_line).symm⟩
  have mapped : sumM effect (front.map terminate) = sumM effect front := by
    induction front with
    | nil => rfl
    | cons l front ih => rw [List.map_cons, sumM, sumM, ih (by simp), same]
  rw [List.dropLast_concat, List.getLast?_concat, Option.toList_some, sumM_append, sumM_append,
    mapped]
  cases last with
  | nil => simp [sumM, blank]
  | cons c last => rfl

/-- Adding up over `t.splitlines()`. -/
theorem sumM_splitlines (blank : effect [] = some 0) (t : Text) :
    sumM effect (splitlines t) = sumM effect (linePieces t) := by
  have whole := sumM_dropLast_append blank (List.splitOnP_ne_nil isLineBreak (universalNewlines t))
    id fun _ => rfl
  rwa [List.map_id] at whole

/-- Adding up over the lines of a file, if terminators count for nothing. -/
theorem sumM_readlines (blank : effect [] = some 0) (blind : ∀ l, effect (l ++ ['\n']) = effect l)
    (t : Text) : sumM effect (readlines t) = sumM effect (filePieces t) :=
  sumM_dropLast_append blank (List.splitOn_ne_nil '\n' (universalNewlines t)) _ blind

/-- The pieces of `t.splitlines()` are those of the lines of a file. -/
theorem flatMap_filePieces (t : Text) :
    (filePieces t).flatMap (List.splitOnP isLineBreak) = linePieces t := by
  rw [filePieces, List.splitOn_eq_splitOnP]
  refine flatMap_splitOnP (fun c newline => ?_) _
  rw [eq_of_beq newline]
  rfl

end Sum

/-! ## Patterns -/

/-- The class of a letter under `re.IGNORECASE`, which also lets four letters outside ASCII pass
for `i`, `s` and `k`. The pattern's letter is in lower case. -/
def sameLetter (letter c : Char) : Bool :=
  c.toLower = letter || (letter = 'i' && (c = '\u0130' || c = '\u0131')) ||
    (letter = 's' && c = '\u017f') || (letter = 'k' && c = '\u212a')

/-- The fields `re.split` leaves between runs of separators, with one at each end. -/
def splitRuns (p : Char → Bool) (t : Text) : List Text :=
  let pieces := t.splitOnP p
  let inner := pieces.zipIdx.filter fun (piece, i) =>
    !piece.isEmpty || i = 0 || i + 1 = pieces.length
  inner.map Prod.fst

end GpuHotSpot
