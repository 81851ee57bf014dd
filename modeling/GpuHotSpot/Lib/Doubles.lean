import Mathlib.Algebra.Order.Archimedean.Real.Basic
import Mathlib.Data.Set.Finite.Lemmas
import Mathlib.Order.Interval.Finset.Nat
import Mathlib.Tactic.NormNum
import Mathlib.Tactic.Positivity
import GpuHotSpot.Lib.Rounding

/-!
# Doubles in text

Finite floating-point numbers as a sign and one of the representable magnitudes, as C
prints them with `%.nf` and reads them back with `%lf`. A number that is read is the
nearest double, so that neither way is exact.

* `Double.fmt_rounded`: a printed number, read back, prints the same.
* `Double.scan_fmt`: what is read back is the double nearest to the printed decimal.
* `binary64`: the doubles of IEEE 754.
-/

namespace GpuHotSpot

open scoped Literals

/-- The sign of a number in front of its digits. -/
def signed (neg : Bool) (digits : Text) : Text := if neg then '-' :: digits else digits

/-- The finite doubles among the numbers of a field: the representable magnitudes, rounding to the
nearest, and the sign and magnitude that a numeral denotes for `strtod`. -/
structure Doubles (K : Type*) [Field K] [LinearOrder K] where
  Representable : K → Prop
  nearest : K → K
  numeral : Text → Option (Bool × K)
  representable_zero : Representable 0
  lt_of_representable : ∀ x, Representable x → x < 10 ^ 309
  representable_nearest : ∀ x, Representable (nearest x)
  nearest_le : ∀ x y, Representable y → |nearest x - x| ≤ |y - x|
  numeral_fixed : ∀ neg n scaled,
    numeral (signed neg (fmtScaled (n + 1) scaled)) = some (neg, (scaled : K) / 10 ^ (n + 1))

variable {K : Type*} [Field K] [LinearOrder K]

structure Double (d : Doubles K) where
  neg : Bool
  magnitude : K
  nonneg : 0 ≤ magnitude
  representable : d.Representable magnitude

namespace Doubles

variable [IsStrictOrderedRing K] (d : Doubles K) {x : K}

theorem nearest_nonneg (nonneg : 0 ≤ x) : 0 ≤ d.nearest x := by
  have near := d.nearest_le x 0 d.representable_zero
  rw [zero_sub, abs_neg, abs_of_nonneg nonneg] at near
  linarith [(abs_le.mp near).1]

/-- Rounding to `n` decimals survives rounding to the nearest double. -/
theorem roundTo_nearest [FloorRing K] (n : ℕ) (representable : d.Representable x) :
    roundTo n (d.nearest (roundTo n x)) = roundTo n x := by
  have scale : (0 : K) < 10 ^ n := by positivity
  have scaled : ∀ y : K, |y * 10 ^ n - roundHalfEven (x * 10 ^ n)| = |y - roundTo n x| * 10 ^ n := by
    intro y
    rw [roundTo, ← abs_of_pos scale, ← abs_mul, abs_of_pos scale, sub_mul,
      div_mul_cancel₀ _ scale.ne']
  obtain ⟨near, tied⟩ := roundHalfEven_spec (x * 10 ^ n)
  rw [scaled] at near tied
  -- the double is no farther from the decimal than the number was
  have closer : |d.nearest (roundTo n x) - roundTo n x| * 10 ^ n ≤ |x - roundTo n x| * 10 ^ n :=
    mul_le_mul_of_nonneg_right (d.nearest_le _ _ representable) scale.le
  have same : roundHalfEven (d.nearest (roundTo n x) * 10 ^ n) = roundHalfEven (x * 10 ^ n) := by
    rw [roundHalfEven_eq_iff, scaled]
    exact ⟨closer.trans near, fun tie => tied (le_antisymm near (tie ▸ closer))⟩
  rw [roundTo, same, roundTo]

end Doubles

namespace Double

variable {d : Doubles K} [IsStrictOrderedRing K]

def value (x : Double d) : K := if x.neg then -x.magnitude else x.magnitude

/-- The double nearest to a magnitude, with a sign. -/
def near (d : Doubles K) (neg : Bool) (x : K) : Double d :=
  ⟨neg, d.nearest |x|, d.nearest_nonneg (abs_nonneg x), d.representable_nearest _⟩

/-- The double nearest to a number. -/
def ofValue (d : Doubles K) (x : K) : Double d := near d (decide (x < 0)) x

/-- `%lf`: the longest numeral at the start of a text, and what is left. -/
def scan (d : Doubles K) (t : Text) : Option (Double d × Text) :=
  (List.range ((t.takeWhile (!isSpace ·)).length + 1)).reverse.findSome? fun n =>
    (d.numeral (t.take n)).map fun (neg, x) => (near d neg x, t.drop n)

variable [FloorRing K]

/-- `%.nf`. -/
def fmt (n : ℕ) (x : Double d) : Text :=
  signed x.neg (fmtScaled n (roundHalfEven (x.magnitude * 10 ^ n)).toNat)

/-- The double nearest to the number with `n` decimals. -/
def rounded (n : ℕ) (x : Double d) : Double d := near d x.neg (roundTo n x.magnitude)

theorem roundTo_magnitude_nonneg (n : ℕ) (x : Double d) : 0 ≤ roundTo n x.magnitude := by
  have scale : (0 : K) < 10 ^ n := by positivity
  have units := roundHalfEven_nonneg (mul_nonneg x.nonneg scale.le)
  exact div_nonneg (Int.cast_nonneg units) scale.le

/-- **Printing again.** A printed number, rounded to the double nearest to the decimal, prints
the same. -/
theorem fmt_rounded (n : ℕ) (x : Double d) : (x.rounded n).fmt n = x.fmt n := by
  have scale : (10 : K) ^ n ≠ 0 := by positivity
  have same := d.roundTo_nearest n x.representable
  rw [roundTo, roundTo, div_left_inj' scale] at same
  simp only [fmt, rounded, near, abs_of_nonneg (x.roundTo_magnitude_nonneg n)]
  rw [← roundTo] at same
  rw [Int.cast_injective same]

omit [IsStrictOrderedRing K] in
theorem fmt_token (n : ℕ) (x : Double d) : Token (x.fmt n) := by
  have digits := fmtScaled_token n (roundHalfEven (x.magnitude * 10 ^ n)).toNat
  unfold fmt signed
  split
  · refine ⟨by simp, ?_⟩
    rw [List.forall_mem_cons]
    exact ⟨by decide, digits.noSpace⟩
  · exact digits

/-- A printed number is read back as the nearest double. -/
theorem scan_fmt (n : ℕ) (x : Double d) {sep : Char} (separator : isSpace sep = true) (rest : Text) :
    scan d (x.fmt (n + 1) ++ sep :: rest) = some (x.rounded (n + 1), sep :: rest) := by
  have scale : (0 : K) ≤ 10 ^ (n + 1) := by positivity
  have units := roundHalfEven_nonneg (mul_nonneg x.nonneg scale)
  have cast : (((roundHalfEven (x.magnitude * 10 ^ (n + 1))).toNat : ℕ) : K) =
      roundHalfEven (x.magnitude * 10 ^ (n + 1)) := by
    exact_mod_cast congrArg (Int.cast : ℤ → K) (Int.toNat_of_nonneg units)
  have visible : ∀ c ∈ x.fmt (n + 1), (!isSpace c) = true := fun c member => by
    rw [(x.fmt_token (n + 1)).noSpace c member, Bool.not_false]
  have field : (x.fmt (n + 1) ++ sep :: rest).takeWhile (!isSpace ·) = x.fmt (n + 1) := by
    rw [List.takeWhile_append_of_pos visible, List.takeWhile_cons_of_neg (by simp [separator]),
      List.append_nil]
  rw [scan, field, List.range_succ, List.reverse_append, List.reverse_singleton,
    List.singleton_append, List.findSome?_cons, List.take_left, List.drop_left]
  simp only [fmt, d.numeral_fixed, cast]
  rfl

theorem length_fmt_of_lt {k n : ℕ} (positive : 0 < n) {x : Double d} (below : x.magnitude < 10 ^ k) :
    (x.fmt n).length ≤ n + k + 3 := by
  have scale : (0 : K) < 10 ^ n := by positivity
  have scaled : roundHalfEven (x.magnitude * 10 ^ n) ≤ 10 ^ k * 10 ^ n := by
    have le : x.magnitude * 10 ^ n ≤ ((10 ^ k * 10 ^ n : ℤ) : K) := by
      push_cast
      exact mul_le_mul_of_nonneg_right below.le scale.le
    exact (roundHalfEven_mono le).trans_eq (roundHalfEven_intCast _)
  have units : (roundHalfEven (x.magnitude * 10 ^ n)).toNat ≤ 10 ^ k * 10 ^ n := by
    rw [Int.toNat_le]
    exact_mod_cast scaled
  have whole : (roundHalfEven (x.magnitude * 10 ^ n)).toNat / 10 ^ n < 10 ^ (k + 1) := by
    have le := Nat.div_le_div_right (c := 10 ^ n) units
    rw [Nat.mul_div_cancel _ (by positivity)] at le
    exact le.trans_lt (Nat.pow_lt_pow_right (by decide) k.lt_succ_self)
  have front := (Nat.length_toDigits_le_iff (b := 10) (by decide) k.succ_pos).mpr whole
  have back := length_padLeft_toDigits positive
    (Nat.mod_lt (roundHalfEven (x.magnitude * 10 ^ n)).toNat (show 0 < 10 ^ n by positivity))
  have digits : (fmtScaled n (roundHalfEven (x.magnitude * 10 ^ n)).toNat).length ≤ n + k + 2 := by
    rw [fmtScaled, List.length_append, List.length_cons, back]
    omega
  unfold fmt signed
  split
  · rw [List.length_cons]
    omega
  · omega

/-- No double prints more than 310 digits before the point. -/
theorem length_fmt {n : ℕ} (positive : 0 < n) (x : Double d) : (x.fmt n).length ≤ n + 309 + 3 :=
  length_fmt_of_lt positive (d.lt_of_representable _ x.representable)

end Double

/-! ## IEEE 754 -/

/-- The magnitudes of `binary64`: 53 bits, and an exponent from -1074 to 971. -/
def Binary64 : Set ℝ := {x | ∃ m < 2 ^ 53, ∃ e < 2046, x = (m * 2 ^ e : ℕ) / 2 ^ 1074}

theorem finite_binary64 : Binary64.Finite := by
  refine ((Finset.range (2 ^ 53) ×ˢ Finset.range 2046).finite_toSet.image
    fun me => ((me.1 * 2 ^ me.2 : ℕ) / 2 ^ 1074 : ℝ)).subset ?_
  rintro x ⟨m, small, e, exponent, rfl⟩
  exact ⟨(m, e), by simpa [exponent] using small, rfl⟩

theorem exists_nearest_binary64 (x : ℝ) :
    ∃ y ∈ Binary64, ∀ z ∈ Binary64, |y - x| ≤ |z - x| :=
  Set.exists_min_image Binary64 (fun y => |y - x|) finite_binary64 ⟨0, 0, by decide, 0, by decide, by simp⟩

theorem scaled_lt {m e a b c k : ℕ} (small : m < 2 ^ a) (exponent : e ≤ b)
    (limit : 2 ^ a * 2 ^ b < 10 ^ c * 2 ^ k) : ((m * 2 ^ e : ℕ) / 2 ^ k : ℝ) < 10 ^ c := by
  have largest : m * 2 ^ e < 2 ^ a * 2 ^ b :=
    Nat.mul_lt_mul_of_lt_of_le small (Nat.pow_le_pow_right (by decide) exponent) (by positivity)
  rw [div_lt_iff₀ (by positivity)]
  exact_mod_cast largest.trans limit

/-- The numerals of fixed-point text. -/
def signedNumeral : Text → Option (Bool × K)
  | '-' :: t => (readUnsignedDecimal t).map fun x => (true, x)
  | t => (readUnsignedDecimal t).map fun x => (false, x)

/-- **The doubles of IEEE 754.** -/
noncomputable def binary64 : Doubles ℝ where
  Representable := (· ∈ Binary64)
  nearest x := (exists_nearest_binary64 x).choose
  numeral := signedNumeral
  representable_zero := ⟨0, by decide, 0, by decide, by simp⟩
  lt_of_representable := by
    rintro x ⟨m, small, e, exponent, rfl⟩
    exact scaled_lt small (Nat.le_of_lt_succ exponent) (by decide +kernel)
  representable_nearest x := (exists_nearest_binary64 x).choose_spec.1
  nearest_le x y member := (exists_nearest_binary64 x).choose_spec.2 y member
  numeral_fixed := by
    intro neg n scaled
    have digits := readUnsignedDecimal_fmtScaled (K := ℝ) n.succ_pos scaled
    cases neg with
    | false =>
      rw [signed, if_neg Bool.false_ne_true]
      have noMinus : ∀ c ∈ fmtScaled (n + 1) scaled, c ≠ '-' := by
        refine forall_mem_fmtScaled (fun c digit => ?_) (by decide) (n + 1) scaled
        rintro rfl
        exact absurd digit (by decide)
      unfold signedNumeral
      split
      · rename_i first
        exact absurd rfl (noMinus '-' (first ▸ List.mem_cons_self))
      · rw [digits]
        rfl
    | true => simp [signed, signedNumeral, digits]

end GpuHotSpot
