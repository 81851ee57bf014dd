import Mathlib.Data.List.Defs
import Mathlib.Data.List.Basic
import Mathlib.Data.List.DropRight

/-!
# Plain text: white space, tokens and lines

The programs modelled here exchange text files: rows of tab-separated columns,
whitespace-separated fields, newline-terminated lines. A text is a list of
characters.

* `tokensBy p t` cuts `t` at every character satisfying `p` and drops the empty
  pieces, as `str.split()`, `strtok` and repeated `%s` conversions do.
* `completeLines t` are the newline-terminated lines of `t`, without their
  terminators; an unterminated remainder is not a line.
* `readlines t` are the lines Python reads from a text file: any newline convention
  ends a line, and an unterminated remainder is a last line.
-/

namespace GpuHotSpot

abbrev Text := List Char

/-- `isspace` in the C locale. -/
def isSpace (c : Char) : Bool :=
  c = ' ' || c = '\t' || c = '\n' || c = '\x0b' || c = '\x0c' || c = '\r'

/-- `str.isspace` of one character: Unicode white space. -/
def isUnicodeSpace (c : Char) : Bool :=
  isSpace c || ('\x1c' ≤ c && c ≤ '\x1f') || c = '\u0085' || c = '\u00a0' || c = '\u1680' ||
    ('\u2000' ≤ c && c ≤ '\u200a') || c = '\u2028' || c = '\u2029' || c = '\u202f' ||
    c = '\u205f' || c = '\u3000'

theorem isUnicodeSpace_of_isSpace {c : Char} (space : isSpace c = true) :
    isUnicodeSpace c = true := by
  simp [isUnicodeSpace, space]

theorem toNat_of_isUnicodeSpace {c : Char} (space : isUnicodeSpace c = true) :
    c.toNat ≤ 32 ∨ 133 ≤ c.toNat := by
  simp only [isUnicodeSpace, isSpace, Bool.or_eq_true, Bool.and_eq_true, decide_eq_true_eq,
    Char.le_def, UInt32.le_iff_toNat_le, ← Char.toNat_inj, Char.toNat_val, Char.reduceToNat]
    at space
  omega

/-- A nonempty text without white space: one field of a row. -/
structure Token (t : Text) : Prop where
  ne_nil : t ≠ []
  noSpace : ∀ c ∈ t, isSpace c = false

instance : DecidablePred Token := fun t =>
  decidable_of_iff (t ≠ [] ∧ t.all (fun c => !isSpace c) = true) (by
    rw [List.all_eq_true]
    exact ⟨fun ⟨nonempty, visible⟩ => ⟨nonempty, fun c member => by simpa using visible c member⟩,
      fun token => ⟨token.ne_nil, fun c member => by simp [token.noSpace c member]⟩⟩)

/-- The nonempty pieces of `t` between characters satisfying `p`. -/
def tokensBy (p : Char → Bool) (t : Text) : List Text :=
  (t.splitOnP p).filter (!·.isEmpty)

/-- The whitespace-separated fields of a text. -/
abbrev tokens (t : Text) : List Text := tokensBy isSpace t

/-- The newline-terminated lines of a text, without their terminators. -/
def completeLines (t : Text) : List Text := (t.splitOn '\n').dropLast

/-- Python's universal newlines: `\r\n` and `\r` are read as `\n`. -/
def universalNewlines : Text → Text
  | '\r' :: '\n' :: t => '\n' :: universalNewlines t
  | '\r' :: t => '\n' :: universalNewlines t
  | c :: t => c :: universalNewlines t
  | [] => []

/-- `readlines()` of a file opened in text mode: every line with its terminator, if it has
one. -/
def readlines (t : Text) : List Text :=
  let parts := (universalNewlines t).splitOn '\n'
  parts.dropLast.map (· ++ ['\n']) ++ (parts.getLast?.toList.filter (!·.isEmpty))

/-- Drop white space at both ends. -/
def stripBy (p : Char → Bool) (t : Text) : Text := (t.dropWhile p).rdropWhile p

/-- Write lines, each followed by a newline. -/
def unlines (ls : List Text) : Text := ls.flatMap (· ++ ['\n'])

/-- A line: it holds no newline of its own, in any convention. -/
def OneLine (t : Text) : Prop := ∀ c ∈ t, c ≠ '\n' ∧ c ≠ '\r'

theorem Token.oneLine {t : Text} (token : Token t) : OneLine t := by
  intro c member
  have noSpace := token.noSpace c member
  exact ⟨fun newline => by simp [newline, isSpace] at noSpace,
    fun ret => by simp [ret, isSpace] at noSpace⟩

/-! ## Tokens -/

section Tokens

variable {p : Char → Bool}

@[simp] theorem tokensBy_nil : tokensBy p [] = [] := by
  simp [tokensBy]

/-- Cutting distributes over any separator. -/
theorem tokensBy_append_cons (xs ys : Text) {sep : Char} (separator : p sep = true) :
    tokensBy p (xs ++ sep :: ys) = tokensBy p xs ++ tokensBy p ys := by
  simp [tokensBy, List.splitOnP_append_cons xs ys separator]

theorem tokensBy_cons_separator (ys : Text) {sep : Char} (separator : p sep = true) :
    tokensBy p (sep :: ys) = tokensBy p ys :=
  tokensBy_append_cons [] ys separator

/-- A separator-free nonempty text is its own only token. -/
theorem tokensBy_singleton {t : Text} (nonempty : t ≠ []) (free : ∀ c ∈ t, p c = false) :
    tokensBy p t = [t] := by
  simp [tokensBy, List.splitOnP_eq_singleton free, nonempty]

/-- A row of separator-free nonempty fields is cut back into its fields. -/
theorem tokensBy_intercalate {sep : Char} (separator : p sep = true) {fields : List Text}
    (nonempty : ∀ t ∈ fields, t ≠ []) (free : ∀ t ∈ fields, ∀ c ∈ t, p c = false) :
    tokensBy p (List.intercalate [sep] fields) = fields := by
  induction fields with
  | nil => simp
  | cons t rest ih =>
    have alone := tokensBy_singleton (nonempty t (by simp)) (free t (by simp))
    cases rest with
    | nil => simpa using alone
    | cons u rest =>
      rw [List.intercalate_cons_of_ne_nil (by simp)]
      rw [List.append_assoc, List.singleton_append, tokensBy_append_cons _ _ separator, alone,
        ih (fun t member => nonempty t (List.mem_cons_of_mem _ member))
          (fun t member => free t (List.mem_cons_of_mem _ member))]
      rfl

/-- A trailing separator adds no token. -/
theorem tokensBy_append_singleton (t : Text) {sep : Char} (separator : p sep = true) :
    tokensBy p (t ++ [sep]) = tokensBy p t := by
  rw [tokensBy_append_cons t [] separator, tokensBy_nil, List.append_nil]

/-- Stripping white space changes no token. -/
theorem tokensBy_stripBy (t : Text) : tokensBy p (stripBy p t) = tokensBy p t := by
  have front : tokensBy p (t.dropWhile p) = tokensBy p t := by
    induction t with
    | nil => rfl
    | cons c t ih =>
      by_cases separator : p c = true
      · rw [List.dropWhile_cons_of_pos separator, ih, tokensBy_cons_separator t separator]
      · rw [List.dropWhile_cons_of_neg separator]
  rw [stripBy, ← front]
  induction t.dropWhile p using List.reverseRecOn with
  | nil => rfl
  | append_singleton t c ih =>
    by_cases separator : p c = true
    · rw [List.rdropWhile_concat_pos p t c separator, ih, tokensBy_append_singleton t separator]
    · rw [List.rdropWhile_concat_neg p t c separator]

end Tokens

/-! ## Lines -/

@[simp] theorem completeLines_nil : completeLines [] = [] := rfl

/-- The first line of a text ends at its first newline. -/
theorem completeLines_cons {l : Text} (line : OneLine l) (t : Text) :
    completeLines (l ++ '\n' :: t) = l :: completeLines t := by
  have free : ∀ c ∈ l, (c == '\n') = false := fun c member => by simpa using (line c member).1
  rw [completeLines, List.splitOn_eq_splitOnP,
    List.splitOnP_append_cons_of_forall_mem free _ (by simp) t,
    List.dropLast_cons_of_ne_nil (List.splitOnP_ne_nil _ _), completeLines,
    List.splitOn_eq_splitOnP]

@[simp] theorem unlines_nil : unlines [] = [] := rfl

@[simp] theorem unlines_cons (l : Text) (ls : List Text) :
    unlines (l :: ls) = l ++ '\n' :: unlines ls := by
  simp [unlines]

@[simp] theorem unlines_append (ls ms : List Text) :
    unlines (ls ++ ms) = unlines ls ++ unlines ms := by
  simp [unlines]

/-- Reading lines back from a text that starts with written lines. -/
theorem completeLines_unlines_append {ls : List Text} (lines : ∀ l ∈ ls, OneLine l) (t : Text) :
    completeLines (unlines ls ++ t) = ls ++ completeLines t := by
  induction ls with
  | nil => rfl
  | cons l ls ih =>
    rw [unlines_cons, List.append_assoc, List.cons_append,
      completeLines_cons (lines l (by simp)),
      ih fun l member => lines l (List.mem_cons_of_mem _ member), List.cons_append]

/-- Written lines are read back unchanged. -/
theorem completeLines_unlines {ls : List Text} (lines : ∀ l ∈ ls, OneLine l) :
    completeLines (unlines ls) = ls := by
  simpa using completeLines_unlines_append lines []

theorem universalNewlines_of_oneLine {l : Text} (line : OneLine l) (t : Text) :
    universalNewlines (l ++ '\n' :: t) = l ++ '\n' :: universalNewlines t := by
  induction l with
  | nil => simp [universalNewlines]
  | cons c l ih =>
    have noReturn := (line c (by simp)).2
    rw [List.cons_append, universalNewlines.eq_3, ih fun c member => line c (by simp [member]),
      List.cons_append]
    · exact fun _ eq => absurd eq noReturn
    · exact noReturn

/-- Python reads a first line up to its newline, whatever follows. -/
theorem readlines_cons {l : Text} (line : OneLine l) (t : Text) :
    readlines (l ++ '\n' :: t) = (l ++ ['\n']) :: readlines t := by
  have free : ∀ c ∈ l, (c == '\n') = false := fun c member => by simpa using (line c member).1
  have parts : (l ++ '\n' :: universalNewlines t).splitOn '\n' =
      l :: (universalNewlines t).splitOn '\n' := by
    rw [List.splitOn_eq_splitOnP, List.splitOnP_append_cons_of_forall_mem free _ (by simp),
      ← List.splitOn_eq_splitOnP]
  have some_part : (universalNewlines t).splitOn '\n' ≠ [] := List.splitOnP_ne_nil _ _
  rw [readlines, universalNewlines_of_oneLine line, parts]
  simp [readlines, List.dropLast_cons_of_ne_nil some_part, List.getLast?_cons_of_ne_nil some_part]

/-- Python reads written lines back unchanged. -/
theorem readlines_unlines {ls : List Text} (lines : ∀ l ∈ ls, OneLine l) :
    readlines (unlines ls) = ls.map (· ++ ['\n']) := by
  induction ls with
  | nil => rfl
  | cons l ls ih =>
    rw [unlines_cons, readlines_cons (lines l (by simp)),
      ih fun l member => lines l (List.mem_cons_of_mem _ member), List.map_cons]

/-- Joined fields consist of the characters of the fields and the separator. -/
theorem forall_mem_intercalate {P : Char → Prop} {sep : Char} (separator : P sep)
    {fields : List Text} (each : ∀ t ∈ fields, ∀ c ∈ t, P c) :
    ∀ c ∈ List.intercalate [sep] fields, P c := by
  induction fields with
  | nil => simp
  | cons t rest ih =>
    cases rest with
    | nil => simpa using each t (by simp)
    | cons u rest =>
      rw [List.intercalate_cons_of_ne_nil (by simp)]
      intro c member
      simp only [List.mem_append, List.mem_singleton] at member
      rcases member with (inHead | isSep) | inRest
      · exact each t (by simp) c inHead
      · exact isSep ▸ separator
      · exact ih (fun t member => each t (List.mem_cons_of_mem _ member)) c inRest

/-- A row of one-line fields joined by a character other than the newline is one line. -/
theorem oneLine_intercalate {sep : Char} (separator : OneLine [sep]) {fields : List Text}
    (lines : ∀ t ∈ fields, OneLine t) : OneLine (List.intercalate [sep] fields) :=
  forall_mem_intercalate (separator sep (by simp)) lines

theorem length_intercalate_le {sep : Char} {m : ℕ} {fields : List Text}
    (short : ∀ t ∈ fields, t.length ≤ m) :
    (List.intercalate [sep] fields).length ≤ fields.length * (m + 1) := by
  induction fields with
  | nil => simp
  | cons t rest ih =>
    have here := short t (by simp)
    have there := ih fun t member => short t (List.mem_cons_of_mem _ member)
    have fields : (t :: rest).length * (m + 1) = rest.length * (m + 1) + (m + 1) := Nat.succ_mul _ _
    cases rest with
    | nil => simpa using here.trans (Nat.le_succ m)
    | cons u rest =>
      rw [List.intercalate_cons_of_ne_nil (by simp), List.length_append, List.length_append,
        List.length_singleton, fields]
      omega

/-- The last field of a row stands behind a separator. -/
theorem intercalate_concat {sep : Char} {fields : List Text} (nonempty : fields ≠ []) (t : Text) :
    List.intercalate [sep] (fields ++ [t]) = List.intercalate [sep] fields ++ sep :: t := by
  induction fields with
  | nil => exact absurd rfl nonempty
  | cons u rest ih =>
    cases rest with
    | nil => simp [List.intercalate_cons_of_ne_nil]
    | cons w rest =>
      rw [List.cons_append, List.intercalate_cons_of_ne_nil (by simp), ih (by simp),
        List.intercalate_cons_of_ne_nil (List.cons_ne_nil w rest)]
      simp only [List.append_assoc]

end GpuHotSpot
