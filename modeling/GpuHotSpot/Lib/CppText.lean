import GpuHotSpot.Lib.Numeral

/-!
# The C++ library's view of text

What the programs modelled here use of `std::string` and its conversions: cutting at
the first occurrence of a character, `getline` with a delimiter, and `stoull`.

* `upTo_append_cons`, `behind_append_cons`: cutting where a separator stands.
* `stoull_digits`: reading a decimal numeral.
-/

namespace GpuHotSpot

/-- `t.substr(0, t.find(c))`. -/
def upTo (c : Char) (t : Text) : Text := t.takeWhile (· ≠ c)

/-- `t.substr(t.find(c) + 1)`, and nothing where `c` does not occur. -/
def behind (c : Char) (t : Text) : Text := (t.dropWhile (· ≠ c)).drop 1

/-- The pieces that repeated `getline` calls with a delimiter read: the piece at the end of the text
is read only if there is something in it. -/
def getlines (delim : Char) (t : Text) : List Text :=
  let parts := t.splitOn delim
  if parts.getLast? = some [] then parts.dropLast else parts

/-- `stoull` in base 10, `none` where it throws: no digit, or a value that does not fit. A sign is
read, and a negative value wraps around. -/
def stoull (t : Text) : Option ℕ :=
  let t := t.dropWhile isSpace
  let negative := t.head? = some '-'
  let digits := (if t.head? = some '-' ∨ t.head? = some '+' then t.drop 1 else t).takeWhile
    (isDigitIn 10)
  if digits = [] ∨ 2 ^ 64 ≤ valueIn 10 digits then none
  else if negative then some ((2 ^ 64 - valueIn 10 digits) % 2 ^ 64)
  else some (valueIn 10 digits)

section Cut

variable {c : Char} {front back t : Text}

theorem upTo_of_notMem (free : c ∉ t) : upTo c t = t := by
  rw [upTo, List.takeWhile_eq_self_iff]
  intro d member
  simpa using fun same : d = c => free (same ▸ member)

theorem behind_of_notMem (free : c ∉ t) : behind c t = [] := by
  have gone : t.dropWhile (· ≠ c) = [] := by
    rw [List.dropWhile_eq_nil_iff]
    intro d member
    simpa using fun same : d = c => free (same ▸ member)
  rw [behind, gone]
  rfl

theorem upTo_append_cons (free : c ∉ front) : upTo c (front ++ c :: back) = front := by
  have kept : ∀ d ∈ front, decide (d ≠ c) = true := by
    intro d member
    simpa using fun same : d = c => free (same ▸ member)
  rw [upTo, List.takeWhile_append_of_pos kept, List.takeWhile_cons_of_neg (by simp),
    List.append_nil]

theorem behind_append_cons (free : c ∉ front) : behind c (front ++ c :: back) = back := by
  have gone : ∀ d ∈ front, decide (d ≠ c) = true := by
    intro d member
    simpa using fun same : d = c => free (same ▸ member)
  rw [behind, List.dropWhile_append_of_pos gone, List.dropWhile_cons_of_neg (by simp)]
  rfl

end Cut

/-- Nonempty pieces joined by the delimiter are read back. -/
theorem getlines_intercalate {delim : Char} {pieces : List Text} (some_piece : pieces ≠ [])
    (nonempty : ∀ t ∈ pieces, t ≠ []) (free : ∀ t ∈ pieces, delim ∉ t) :
    getlines delim (List.intercalate [delim] pieces) = pieces := by
  rw [getlines, List.splitOn_intercalate delim free some_piece, if_neg]
  intro last
  exact nonempty [] (List.mem_of_getLast? last) rfl

/-- A decimal numeral that fits is read as its value. -/
theorem stoull_digits {t : Text} (nonempty : t ≠ []) (digits : ∀ c ∈ t, isDigitIn 10 c = true)
    (fits : valueIn 10 t < 2 ^ 64) : stoull t = some (valueIn 10 t) := by
  obtain ⟨c, rest, rfl⟩ := List.exists_cons_of_ne_nil nonempty
  have first := digits c List.mem_cons_self
  have visible : (c :: rest).dropWhile isSpace = c :: rest :=
    List.dropWhile_cons_of_neg (by simp [not_isSpace_of_isDigitIn first])
  have unsigned : ¬ ((c :: rest).head? = some '-' ∨ (c :: rest).head? = some '+') := by
    have range := toNat_of_isDigitIn first
    rintro (minus | plus)
    · cases minus
      simp at range
    · cases plus
      simp at range
  have all : (c :: rest).takeWhile (isDigitIn 10) = c :: rest :=
    List.takeWhile_eq_self_iff.mpr digits
  have noMinus : ¬ (c :: rest).head? = some '-' := fun minus => unsigned (.inl minus)
  simp only [stoull, visible, if_neg unsigned, all, if_neg noMinus]
  rw [if_neg]
  rw [not_or, not_le]
  exact ⟨nonempty, fits⟩

end GpuHotSpot
