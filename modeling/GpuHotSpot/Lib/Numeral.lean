import Mathlib.Tactic.IntervalCases
import GpuHotSpot.Lib.Text

/-!
# Numerals

Printing and reading integers in a base of at most sixteen, as `printf` and the
number readers of C++ and Python do at the level of digits. Printing is Lean's
own `Nat.toDigits`; `valueIn` reads a digit text back, `valueIn_toDigits` being
the round trip. `valueIn` is defined for every digit text, so it also says what
a decimal text denotes when it is read in another base.
-/

namespace GpuHotSpot

/-- The value of a digit character, hexadecimal digits included. -/
def digitVal? (c : Char) : Option ℕ :=
  if c.isDigit then some (c.toNat - 48)
  else if 'a' ≤ c ∧ c ≤ 'f' then some (c.toNat - 87)
  else if 'A' ≤ c ∧ c ≤ 'F' then some (c.toNat - 55)
  else none

/-- `c` is a digit of base `b`. -/
def isDigitIn (b : ℕ) (c : Char) : Bool := (digitVal? c).any (· < b)

/-- The number a digit text denotes in base `b`. -/
def valueIn (b : ℕ) (t : Text) : ℕ :=
  t.foldl (fun acc c => b * acc + (digitVal? c).getD 0) 0

/-- Pad on the left to at least `width` characters. -/
def padLeft (width : ℕ) (c : Char) (t : Text) : Text :=
  List.replicate (width - t.length) c ++ t

/-- `%d` of an integer. -/
def fmtInt (z : ℤ) : Text :=
  if z < 0 then '-' :: Nat.toDigits 10 z.natAbs else Nat.toDigits 10 z.natAbs

/-- `%0<width>x` of a natural number. -/
def fmtHex (width : ℕ) (n : ℕ) : Text := padLeft width '0' (Nat.toDigits 16 n)

/-! ## Digit characters -/

theorem digitVal?_digitChar {d : ℕ} (small : d < 16) : digitVal? d.digitChar = some d := by
  interval_cases d <;> decide

theorem isDigitIn_digitChar {b d : ℕ} (small : d < b) (base : b ≤ 16) :
    isDigitIn b d.digitChar = true := by
  simp [isDigitIn, digitVal?_digitChar (small.trans_le base), small]

theorem toNat_of_isDigitIn {b : ℕ} {c : Char} (digit : isDigitIn b c = true) :
    48 ≤ c.toNat ∧ c.toNat ≤ 102 := by
  simp only [isDigitIn, digitVal?] at digit
  split_ifs at digit with decimal lower upper
  · simp [Char.isDigit, UInt32.le_iff_toNat_le] at decimal
    omega
  · simp [Char.le_def, UInt32.le_iff_toNat_le] at lower
    omega
  · simp [Char.le_def, UInt32.le_iff_toNat_le] at upper
    omega
  · cases digit

theorem toNat_of_isDigitIn_ten {c : Char} (digit : isDigitIn 10 c = true) :
    48 ≤ c.toNat ∧ c.toNat ≤ 57 := by
  simp only [isDigitIn, digitVal?] at digit
  split_ifs at digit with decimal lower upper
  · simp [Char.isDigit, UInt32.le_iff_toNat_le] at decimal
    exact decimal
  · simp [Char.le_def, UInt32.le_iff_toNat_le] at lower digit
    omega
  · simp [Char.le_def, UInt32.le_iff_toNat_le] at upper digit
    omega
  · cases digit

/-- White space is no digit. -/
theorem not_isUnicodeSpace_of_isDigitIn {b : ℕ} {c : Char} (digit : isDigitIn b c = true) :
    isUnicodeSpace c = false := by
  cases space : isUnicodeSpace c with
  | false => rfl
  | true =>
    have outside := toNat_of_isUnicodeSpace space
    have inside := toNat_of_isDigitIn digit
    omega

theorem not_isSpace_of_not_isUnicodeSpace {c : Char} (visible : isUnicodeSpace c = false) :
    isSpace c = false := by
  cases space : isSpace c with
  | false => rfl
  | true => rw [isUnicodeSpace_of_isSpace space] at visible; cases visible

theorem not_isSpace_of_isDigitIn {b : ℕ} {c : Char} (digit : isDigitIn b c = true) :
    isSpace c = false :=
  not_isSpace_of_not_isUnicodeSpace (not_isUnicodeSpace_of_isDigitIn digit)

section Base

variable {b : ℕ}

/-- Every character of a printed numeral is a digit of its base. -/
theorem isDigitIn_of_mem_toDigits (one : 1 < b) (base : b ≤ 16) {n : ℕ} {c : Char}
    (member : c ∈ Nat.toDigits b n) : isDigitIn b c = true := by
  induction n using Nat.strong_induction_on with
  | _ n ih =>
    by_cases small : n < b
    · rw [Nat.toDigits_of_lt_base small, List.mem_singleton] at member
      exact member ▸ isDigitIn_digitChar small base
    · have large : b ≤ n := Nat.le_of_not_lt small
      rw [Nat.toDigits_of_base_le one large, List.mem_append, List.mem_singleton] at member
      rcases member with inHead | rfl
      · exact ih (n / b) (Nat.div_lt_self (by omega) one) inHead
      · exact isDigitIn_digitChar (Nat.mod_lt n (by omega)) base

theorem toDigits_noSpace (one : 1 < b) (base : b ≤ 16) {n : ℕ} {c : Char}
    (member : c ∈ Nat.toDigits b n) : isSpace c = false :=
  not_isSpace_of_isDigitIn (isDigitIn_of_mem_toDigits one base member)

/-! ## Values -/

@[simp] theorem valueIn_nil : valueIn b [] = 0 := rfl

theorem valueIn_append_singleton (t : Text) (c : Char) :
    valueIn b (t ++ [c]) = b * valueIn b t + (digitVal? c).getD 0 := by
  simp [valueIn]

/-- Reading a printed numeral in its own base. -/
theorem valueIn_toDigits (one : 1 < b) (base : b ≤ 16) (n : ℕ) :
    valueIn b (Nat.toDigits b n) = n := by
  induction n using Nat.strong_induction_on with
  | _ n ih =>
    by_cases small : n < b
    · rw [Nat.toDigits_of_lt_base small, ← List.nil_append [n.digitChar],
        valueIn_append_singleton, digitVal?_digitChar (small.trans_le base)]
      simp
    · have large : b ≤ n := Nat.le_of_not_lt small
      have digit : n % b < b := Nat.mod_lt n (by omega)
      rw [Nat.toDigits_of_base_le one large, valueIn_append_singleton,
        ih (n / b) (Nat.div_lt_self (by omega) one), digitVal?_digitChar (digit.trans_le base)]
      exact Nat.div_add_mod n b

/-- Numerals determine their numbers. -/
theorem toDigits_injective (one : 1 < b) (base : b ≤ 16) :
    Function.Injective (Nat.toDigits b) := fun n m same => by
  rw [← valueIn_toDigits one base n, same, valueIn_toDigits one base]

/-- Leading zeros do not change the value. -/
theorem valueIn_replicate_zero_append (k : ℕ) (t : Text) :
    valueIn b (List.replicate k '0' ++ t) = valueIn b t := by
  induction k with
  | zero => rfl
  | succ k ih =>
    rw [List.replicate_succ, List.cons_append, ← ih]
    rfl

theorem valueIn_padLeft (width : ℕ) (t : Text) : valueIn b (padLeft width '0' t) = valueIn b t :=
  valueIn_replicate_zero_append _ t

end Base

/-! ## Padded and signed numerals -/

theorem forall_mem_padLeft {width : ℕ} {c : Char} {t : Text} {P : Char → Prop}
    (pad : P c) (rest : ∀ x ∈ t, P x) : ∀ x ∈ padLeft width c t, P x := by
  intro x member
  rcases List.mem_append.mp member with inPad | inRest
  · exact List.eq_of_mem_replicate inPad ▸ pad
  · exact rest x inRest

theorem fmtInt_ofNat (n : ℕ) : fmtInt n = Nat.toDigits 10 n := by
  simp [fmtInt]

end GpuHotSpot
