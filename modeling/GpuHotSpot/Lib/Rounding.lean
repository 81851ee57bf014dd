import Mathlib
import GpuHotSpot.Lib.Literals
import GpuHotSpot.Lib.Numeral

/-!
# Rounding to nearest even and fixed-point decimals

Exact rounding over an ordered field with a floor, as IEEE arithmetic and the
number formatters of C and Python define it: to the nearest representable value,
a tie going to the even neighbour.

* `roundHalfEven` rounds to an integer; it is characterised by
  `roundHalfEven_eq_iff`, from which the order and symmetry facts follow.
* `roundTo n` rounds to `n` decimals.
* `fmtFixed n` is `%.<n>f`, and `readDecimal` reads decimal text back;
  `readDecimal_fmtFixed` says that the text carries exactly `roundTo n x`.
-/

namespace GpuHotSpot

open scoped Literals

variable {K : Type*} [Field K]

section Nearest

variable [LinearOrder K] [FloorRing K]

/-- Round to the nearest integer, ties to even. -/
def roundHalfEven (x : K) : ℤ :=
  if x - ⌊x⌋ < 1 / 2 then ⌊x⌋
  else if 1 / 2 < x - ⌊x⌋ then ⌊x⌋ + 1
  else if Even ⌊x⌋ then ⌊x⌋ else ⌊x⌋ + 1

/-- Round to `n` decimals, ties to even. -/
def roundTo (n : ℕ) (x : K) : K := roundHalfEven (x * 10 ^ n) / 10 ^ n

/-! ## The nearest integer -/

theorem floor_le_roundHalfEven (x : K) : ⌊x⌋ ≤ roundHalfEven x := by
  unfold roundHalfEven
  split_ifs <;> omega

theorem roundHalfEven_le_floor_add_one (x : K) : roundHalfEven x ≤ ⌊x⌋ + 1 := by
  unfold roundHalfEven
  split_ifs <;> omega

variable [IsStrictOrderedRing K]

/-- Rounding errs by at most one half, and by one half only onto an even integer. -/
theorem roundHalfEven_spec (x : K) :
    |x - roundHalfEven x| ≤ 1 / 2 ∧ (|x - roundHalfEven x| = 1 / 2 → Even (roundHalfEven x)) := by
  have lower := Int.floor_le x
  have upper := Int.lt_floor_add_one x
  unfold roundHalfEven
  split_ifs with below above even
  · rw [abs_of_nonneg (by linarith)]
    exact ⟨below.le, fun tie => absurd tie below.ne⟩
  · push_cast
    rw [abs_of_nonpos (by linarith)]
    exact ⟨by linarith, fun tie => by linarith⟩
  · have tie : x - ⌊x⌋ = 1 / 2 := le_antisymm (not_lt.mp above) (not_lt.mp below)
    rw [tie, abs_of_nonneg (by norm_num)]
    exact ⟨le_refl _, fun _ => even⟩
  · have tie : x - ⌊x⌋ = 1 / 2 := le_antisymm (not_lt.mp above) (not_lt.mp below)
    push_cast
    rw [abs_of_nonpos (by linarith)]
    exact ⟨by linarith, fun _ => Int.even_add_one.mpr even⟩

/-- The nearest even-tied integer is unique. -/
theorem roundHalfEven_eq_iff {x : K} {z : ℤ} :
    roundHalfEven x = z ↔ |x - z| ≤ 1 / 2 ∧ (|x - z| = 1 / 2 → Even z) := by
  refine ⟨fun eq => eq ▸ roundHalfEven_spec x, fun ⟨near, tied⟩ => ?_⟩
  obtain ⟨near', tied'⟩ := roundHalfEven_spec x
  generalize roundHalfEven x = w at near' tied' ⊢
  have left := abs_le.mp near
  have left' := abs_le.mp near'
  have notAbove : w ≤ z + 1 := by
    have : (w : K) ≤ ((z + 1 : ℤ) : K) := by push_cast; linarith
    exact_mod_cast this
  have notBelow : z ≤ w + 1 := by
    have : (z : K) ≤ ((w + 1 : ℤ) : K) := by push_cast; linarith
    exact_mod_cast this
  rcases lt_trichotomy w z with lt | eq | gt
  · -- adjacent integers: both errors are one half, so both are even
    have succ : z = w + 1 := by omega
    have castSucc : (z : K) = w + 1 := by rw [succ]; push_cast; ring
    have evenZ := tied (by rw [abs_of_nonpos (by linarith)]; linarith)
    have evenW := tied' (by rw [abs_of_nonneg (by linarith)]; linarith)
    rw [succ, Int.even_add_one] at evenZ
    exact absurd evenW evenZ
  · exact eq
  · have succ : w = z + 1 := by omega
    have castSucc : (w : K) = z + 1 := by rw [succ]; push_cast; ring
    have evenZ := tied (by rw [abs_of_nonneg (by linarith)]; linarith)
    have evenW := tied' (by rw [abs_of_nonpos (by linarith)]; linarith)
    rw [succ, Int.even_add_one] at evenW
    exact absurd evenZ evenW

@[simp] theorem roundHalfEven_intCast (z : ℤ) : roundHalfEven (z : K) = z :=
  roundHalfEven_eq_iff.2 ⟨by simp, fun tie => by norm_num at tie⟩

theorem roundHalfEven_neg (x : K) : roundHalfEven (-x) = -roundHalfEven x := by
  obtain ⟨near, tied⟩ := roundHalfEven_spec x
  have mirror : |(-x) - ((-roundHalfEven x : ℤ) : K)| = |x - roundHalfEven x| := by
    rw [← abs_neg]
    congr 1
    push_cast
    ring
  rw [roundHalfEven_eq_iff, mirror]
  exact ⟨near, fun tie => even_neg.mpr (tied tie)⟩

theorem roundHalfEven_mono : Monotone (roundHalfEven : K → ℤ) := by
  intro x y le
  rcases (Int.floor_le_floor le).lt_or_eq with lt | eq
  · calc
      roundHalfEven x ≤ ⌊x⌋ + 1 := roundHalfEven_le_floor_add_one x
      _ ≤ ⌊y⌋ := lt
      _ ≤ roundHalfEven y := floor_le_roundHalfEven y
  · unfold roundHalfEven
    rw [eq]
    split_ifs <;> first | omega | linarith

theorem roundHalfEven_nonneg {x : K} (nonneg : 0 ≤ x) : 0 ≤ roundHalfEven x := by
  have := roundHalfEven_mono nonneg
  rwa [← Int.cast_zero, roundHalfEven_intCast] at this

/-! ## Rounding to decimals -/

theorem roundTo_mono (n : ℕ) : Monotone (roundTo n : K → K) := by
  intro x y le
  have scale : (0 : K) < 10 ^ n := by positivity
  have scaled : x * 10 ^ n ≤ y * 10 ^ n := mul_le_mul_of_nonneg_right le scale.le
  exact div_le_div_of_nonneg_right (Int.cast_le.mpr (roundHalfEven_mono scaled)) scale.le

/-- A number with at most `n` decimals is not changed. -/
theorem roundTo_of_grid (n : ℕ) (z : ℤ) : roundTo n ((z : K) / 10 ^ n) = z / 10 ^ n := by
  have scale : (10 : K) ^ n ≠ 0 := by positivity
  rw [roundTo, div_mul_cancel₀ _ scale, roundHalfEven_intCast]

theorem roundTo_natCast (n m : ℕ) : roundTo n (m : K) = m := by
  have scale : (10 : K) ^ n ≠ 0 := by positivity
  have grid := roundTo_of_grid (K := K) n (m * 10 ^ n : ℕ)
  push_cast at grid
  rwa [mul_div_cancel_right₀ _ scale] at grid

theorem roundTo_neg (n : ℕ) (x : K) : roundTo n (-x) = -roundTo n x := by
  rw [roundTo, roundTo, neg_mul, roundHalfEven_neg]
  push_cast
  ring

/-! ## Fixed-point text -/

/-- `scaled` units of the last of `n ≥ 1` decimals, as digits. -/
def fmtScaled (n scaled : ℕ) : Text :=
  Nat.toDigits 10 (scaled / 10 ^ n) ++ '.' :: padLeft n '0' (Nat.toDigits 10 (scaled % 10 ^ n))

theorem isDigitIn_of_mem_padLeft_toDigits {n m : ℕ} {c : Char}
    (member : c ∈ padLeft n '0' (Nat.toDigits 10 m)) : isDigitIn 10 c = true :=
  forall_mem_padLeft (P := fun c => isDigitIn 10 c = true) (by decide)
    (fun _ => isDigitIn_of_mem_toDigits (by decide) (by decide)) c member

/-- A scaled decimal consists of digits around one point. -/
theorem forall_mem_fmtScaled {P : Char → Prop} (digit : ∀ c, isDigitIn 10 c = true → P c)
    (point : P '.') (n scaled : ℕ) : ∀ c ∈ fmtScaled n scaled, P c := by
  intro c member
  rw [fmtScaled, List.mem_append, List.mem_cons] at member
  rcases member with inWhole | rfl | inFraction
  · exact digit c (isDigitIn_of_mem_toDigits (by decide) (by decide) inWhole)
  · exact point
  · exact digit c (isDigitIn_of_mem_padLeft_toDigits inFraction)

theorem fmtScaled_token (n scaled : ℕ) : Token (fmtScaled n scaled) :=
  ⟨by simp [fmtScaled],
    forall_mem_fmtScaled (fun _ => not_isSpace_of_isDigitIn) (by decide) n scaled⟩

theorem length_padLeft_toDigits {n m : ℕ} (positive : 0 < n) (small : m < 10 ^ n) :
    (padLeft n '0' (Nat.toDigits 10 m)).length = n := by
  have short : (Nat.toDigits 10 m).length ≤ n :=
    (Nat.length_toDigits_le_iff (by decide) positive).mpr small
  simp only [padLeft, List.length_append, List.length_replicate]
  omega

end Nearest

/-- `%.<n>f` for `n ≥ 1`. -/
def fmtFixed [LinearOrder K] [FloorRing K] (n : ℕ) (x : K) : Text :=
  let digits := fmtScaled n (roundHalfEven (|x| * 10 ^ n)).toNat
  if x < 0 then '-' :: digits else digits

/-- Digits with an optional fraction; at least one digit must be there. -/
def readUnsignedDecimal (t : Text) : Option K :=
  let whole := t.takeWhile (isDigitIn 10)
  match t.dropWhile (isDigitIn 10) with
  | [] => if whole.isEmpty then none else some (valueIn 10 whole)
  | '.' :: fraction =>
    if fraction.all (isDigitIn 10) && !(whole.isEmpty && fraction.isEmpty) then
      some (valueIn 10 whole + valueIn 10 fraction / 10 ^ fraction.length)
    else none
  | _ :: _ => none

/-- An optionally signed decimal. -/
def readDecimal : Text → Option K
  | '-' :: t => (readUnsignedDecimal t).map (- ·)
  | '+' :: t => readUnsignedDecimal t
  | t => readUnsignedDecimal t

theorem readDecimal_of_digit {c : Char} (digit : isDigitIn 10 c = true) (t : Text) :
    readDecimal (c :: t) = (readUnsignedDecimal (c :: t) : Option K) := by
  unfold readDecimal
  split
  · rename_i eq
    cases eq
    exact absurd digit (by decide)
  · rename_i eq
    cases eq
    exact absurd digit (by decide)
  · rfl

theorem readUnsignedDecimal_fmtScaled [CharZero K] {n : ℕ} (positive : 0 < n) (scaled : ℕ) :
    readUnsignedDecimal (fmtScaled n scaled) = some ((scaled : K) / 10 ^ n) := by
  have wholeDigits : ∀ c ∈ Nat.toDigits 10 (scaled / 10 ^ n), isDigitIn 10 c = true :=
    fun _ => isDigitIn_of_mem_toDigits (by decide) (by decide)
  have fractionDigits : (padLeft n '0' (Nat.toDigits 10 (scaled % 10 ^ n))).all (isDigitIn 10) :=
    List.all_eq_true.mpr fun _ => isDigitIn_of_mem_padLeft_toDigits
  have small : scaled % 10 ^ n < 10 ^ n := Nat.mod_lt _ (by positivity)
  have stop : isDigitIn 10 '.' = false := by decide
  have scale : (10 : K) ^ n ≠ 0 := pow_ne_zero n (by norm_num)
  have split : (scaled : K) = 10 ^ n * (scaled / 10 ^ n : ℕ) + (scaled % 10 ^ n : ℕ) := by
    exact_mod_cast (Nat.div_add_mod scaled (10 ^ n)).symm
  rw [fmtScaled, readUnsignedDecimal, List.takeWhile_append_of_pos wholeDigits,
    List.dropWhile_append_of_pos wholeDigits]
  simp only [List.takeWhile_cons, List.dropWhile_cons, stop, Bool.false_eq_true, if_false,
    List.append_nil, fractionDigits, Bool.true_and, List.isEmpty_eq_false_iff.mpr
      Nat.toDigits_ne_nil, Bool.false_and, Bool.not_false, if_true, valueIn_padLeft,
    valueIn_toDigits (b := 10) (by decide) (by decide), length_padLeft_toDigits positive small]
  rw [split]
  congr 1
  field_simp

/-- A magnitude starts with a digit, so it is read without a sign. -/
theorem readDecimal_fmtScaled [CharZero K] {n : ℕ} (positive : 0 < n) (scaled : ℕ) :
    readDecimal (fmtScaled n scaled) = some ((scaled : K) / 10 ^ n) := by
  rw [← readUnsignedDecimal_fmtScaled positive, fmtScaled]
  obtain ⟨c, rest, first⟩ := List.exists_cons_of_ne_nil
    (Nat.toDigits_ne_nil (b := 10) (n := scaled / 10 ^ n))
  have digit : isDigitIn 10 c = true :=
    isDigitIn_of_mem_toDigits (b := 10) (by decide) (by decide) (first ▸ List.mem_cons_self)
  rw [first, List.cons_append, readDecimal_of_digit digit]

section Formatting

variable [LinearOrder K] [FloorRing K]

/-- A printed decimal consists of digits, a point and perhaps a sign. -/
theorem forall_mem_fmtFixed {P : Char → Prop} (digit : ∀ c, isDigitIn 10 c = true → P c)
    (point : P '.') (minus : P '-') (n : ℕ) (x : K) : ∀ c ∈ fmtFixed n x, P c := by
  have unsigned := forall_mem_fmtScaled digit point n (roundHalfEven (|x| * 10 ^ n)).toNat
  intro c member
  unfold fmtFixed at member
  split_ifs at member
  · rcases List.mem_cons.mp member with rfl | inDigits
    · exact minus
    · exact unsigned c inDigits
  · exact unsigned c member

theorem fmtFixed_ne_nil (n : ℕ) (x : K) : fmtFixed n x ≠ [] := by
  unfold fmtFixed
  split_ifs
  · simp
  · exact (fmtScaled_token n _).ne_nil

theorem fmtFixed_noUnicodeSpace (n : ℕ) (x : K) : ∀ c ∈ fmtFixed n x, isUnicodeSpace c = false :=
  forall_mem_fmtFixed (fun _ => not_isUnicodeSpace_of_isDigitIn) (by decide) (by decide) n x

/-- A printed decimal is one field of a row. -/
theorem fmtFixed_token (n : ℕ) (x : K) : Token (fmtFixed n x) :=
  ⟨fmtFixed_ne_nil n x,
    fun c member => not_isSpace_of_not_isUnicodeSpace (fmtFixed_noUnicodeSpace n x c member)⟩

/-- A number between zero and one prints one digit before the point. -/
theorem length_fmtFixed [IsStrictOrderedRing K] {n : ℕ} (positive : 0 < n) {x : K}
    (nonneg : 0 ≤ x) (leOne : x ≤ 1) : (fmtFixed n x).length = n + 2 := by
  have scaled : roundHalfEven (|x| * 10 ^ n) ≤ 10 ^ n := by
    have le : |x| * 10 ^ n ≤ ((10 ^ n : ℤ) : K) := by
      push_cast
      exact mul_le_of_le_one_left (by positivity) (by rwa [abs_of_nonneg nonneg])
    exact (roundHalfEven_mono le).trans_eq (roundHalfEven_intCast _)
  have whole : (roundHalfEven (|x| * 10 ^ n)).toNat / 10 ^ n < 10 ^ 1 := by
    have le : (roundHalfEven (|x| * 10 ^ n)).toNat ≤ 10 ^ n := by
      rw [Int.toNat_le]
      exact_mod_cast scaled
    have := Nat.div_le_div_right (c := 10 ^ n) le
    rw [Nat.div_self (by positivity)] at this
    omega
  have digit := (Nat.length_toDigits_le_iff (b := 10) (by decide) one_pos).mpr whole
  have fraction := length_padLeft_toDigits positive
    (Nat.mod_lt (roundHalfEven (|x| * 10 ^ n)).toNat (show 0 < 10 ^ n by positivity))
  have some_digit := List.length_pos_iff.mpr (Nat.toDigits_ne_nil (b := 10)
    (n := (roundHalfEven (|x| * 10 ^ n)).toNat / 10 ^ n))
  simp only [fmtFixed, fmtScaled, if_neg nonneg.not_gt, List.length_append, List.length_cons, fraction]
  omega

/-- **Printing to `n` decimals and reading back is rounding to `n` decimals.** -/
theorem readDecimal_fmtFixed [IsStrictOrderedRing K] {n : ℕ} (positive : 0 < n) (x : K) :
    readDecimal (fmtFixed n x) = some (roundTo n x) := by
  have magnitude : (0 : K) ≤ |x| * 10 ^ n := by positivity
  have scaledCast : (((roundHalfEven (|x| * 10 ^ n)).toNat : ℕ) : K) =
      roundHalfEven (|x| * 10 ^ n) := by
    exact_mod_cast congrArg (Int.cast : ℤ → K) (Int.toNat_of_nonneg (roundHalfEven_nonneg magnitude))
  unfold fmtFixed
  split_ifs with negative
  · rw [readDecimal, readUnsignedDecimal_fmtScaled positive, scaledCast, abs_of_neg negative,
      ← roundTo, roundTo_neg, Option.map_some, neg_neg]
  · rw [readDecimal_fmtScaled positive, scaledCast, abs_of_nonneg (not_lt.mp negative), ← roundTo]

end Formatting

end GpuHotSpot
