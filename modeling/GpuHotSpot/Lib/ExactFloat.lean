import Mathlib.Analysis.SpecialFunctions.Exp
import GpuHotSpot.Lib.Rounding

/-!
# Floating-point numbers as exact numbers

The arithmetic of the programs modelled here is taken as exact: a float is an
element of an ordered field with a floor. What the programs use beyond the field
operations is a monotone exponential, a monotone rounding that leaves numbers of
few enough decimals alone (Python's `round`), a printed form without white space
(Python's `str`), and a reader of decimal numerals (Python's `float`, C's `%lf`)
that is right on what `%.nf` prints. `ExactFloat` collects these; `ℝ` is an
instance.
-/

namespace GpuHotSpot

/-- An exact reading of floats and of the library functions on them. -/
class ExactFloat (K : Type*) extends
    Field K, LinearOrder K, IsStrictOrderedRing K, FloorRing K where
  exp : K → K
  exp_pos : ∀ x, 0 < exp x
  exp_mono : Monotone exp
  round : K → ℕ → K
  round_mono : ∀ n, Monotone (round · n)
  round_grid : ∀ n (z : ℤ), round ((z : K) / 10 ^ n) n = z / 10 ^ n
  str : K → Text
  str_token : ∀ x, Token (str x)
  read : Text → Option K
  read_fmtFixed : ∀ n x, read (fmtFixed (n + 1) x) = some (roundTo (n + 1) x)

noncomputable instance : ExactFloat ℝ where
  exp := Real.exp
  exp_pos := Real.exp_pos
  exp_mono := Real.exp_monotone
  round x n := roundTo n x
  round_mono := roundTo_mono
  round_grid := roundTo_of_grid
  str := fmtFixed 6
  str_token := fmtFixed_token 6
  read := readDecimal
  read_fmtFixed := fun n => readDecimal_fmtFixed n.succ_pos

namespace ExactFloat

variable {K : Type*} [ExactFloat K]

theorem round_natCast (n m : ℕ) : round (m : K) n = m := by
  have grid := round_grid (K := K) n (m * 10 ^ n : ℕ)
  have scale : (10 : K) ^ n ≠ 0 := by positivity
  push_cast at grid
  rwa [mul_div_cancel_right₀ _ scale] at grid

@[simp] theorem round_zero (n : ℕ) : round (0 : K) n = 0 := by
  simpa using round_natCast (K := K) n 0

@[simp] theorem round_one (n : ℕ) : round (1 : K) n = 1 := by
  simpa using round_natCast (K := K) n 1

theorem round_nonneg {x : K} (nonneg : 0 ≤ x) (n : ℕ) : 0 ≤ round x n := by
  simpa using round_mono n nonneg

theorem round_le_one {x : K} (le : x ≤ 1) (n : ℕ) : round x n ≤ 1 := by
  simpa using round_mono n le

end ExactFloat

/-- Python's `int(x)`: truncation toward zero. -/
def pyInt {K : Type*} [ExactFloat K] (x : K) : ℤ := if 0 ≤ x then ⌊x⌋ else ⌈x⌉

section pyInt

variable {K : Type*} [ExactFloat K]

theorem pyInt_of_nonneg {x : K} (nonneg : 0 ≤ x) : pyInt x = ⌊x⌋ := if_pos nonneg

theorem pyInt_mono_of_nonneg {x y : K} (nonneg : 0 ≤ x) (le : x ≤ y) : pyInt x ≤ pyInt y := by
  rw [pyInt_of_nonneg nonneg, pyInt_of_nonneg (nonneg.trans le)]
  exact Int.floor_le_floor le

theorem pyInt_nonneg {x : K} (nonneg : 0 ≤ x) : 0 ≤ pyInt x := by
  rw [pyInt_of_nonneg nonneg]
  exact Int.floor_nonneg.mpr nonneg

end pyInt

end GpuHotSpot
