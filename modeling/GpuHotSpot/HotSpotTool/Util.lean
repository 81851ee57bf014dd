import Mathlib.Algebra.Order.Floor.Ring
import Mathlib.Algebra.Order.Round
import Mathlib.Tactic.Linarith
import GpuHotSpot.Lib.Literals

/-!
# Tolerant comparisons

`eq`, `tolerant_ceil` and `tolerant_floor` of `util.c`. A number that is an integer,
or at least `DELTA` from every integer, is `Clear`; there the tolerant functions are
the exact ones.
-/

namespace GpuHotSpot.HotSpotTool

open scoped Literals

variable {K : Type*} [Field K] [LinearOrder K]

def DELTA : K := 1 / 10 ^ 6

/-- `eq`: closer than `DELTA`. -/
def near (x y : K) : Prop := |x - y| < DELTA

instance (x y : K) : Decidable (near x y) := inferInstanceAs (Decidable (_ < _))

theorem delta_pos [IsStrictOrderedRing K] : (0 : K) < DELTA := by norm_num [DELTA]

variable [FloorRing K]

def tolerantCeil (val : K) : ℤ :=
  let nearest := ⌊val + 1 / 2⌋
  if near val nearest then nearest else ⌈val⌉

def tolerantFloor (val : K) : ℤ :=
  let nearest := ⌊val + 1 / 2⌋
  if near val nearest then nearest else ⌊val⌋

omit [FloorRing K] in
/-- An integer, or at least `DELTA` from every integer. -/
def Clear (val : K) : Prop := (∃ k : ℤ, val = k) ∨ ∀ k : ℤ, DELTA ≤ |val - k|

variable [IsStrictOrderedRing K] {val : K}

omit [FloorRing K] in
theorem Clear.eq_of_near {k : ℤ} (clear : Clear val) (close : near val k) : val = k := by
  rcases clear with ⟨m, rfl⟩ | apart
  · have : |((m - k : ℤ) : K)| < 1 := by
      push_cast
      exact lt_trans close (by norm_num [DELTA])
    have equal : |m - k| < 1 := by exact_mod_cast this
    rw [Int.abs_lt_one_iff, sub_eq_zero] at equal
    rw [equal]
  · exact absurd close (not_lt_of_ge (apart k))

omit [FloorRing K] in
/-- A clear number below an integer lies at least `DELTA` below it. -/
theorem Clear.add_le {val : K} {k : ℤ} (clear : Clear val) (before : val < k) :
    val + DELTA ≤ k := by
  rcases clear with ⟨m, rfl⟩ | apart
  · have step : m + 1 ≤ k := by exact_mod_cast before
    have : (m : K) + 1 ≤ k := by exact_mod_cast step
    have small : (DELTA : K) ≤ 1 := by norm_num [DELTA]
    linarith
  · have far := apart k
    rw [abs_of_neg (sub_neg.mpr before)] at far
    linarith

omit [FloorRing K] in
/-- A clear number above an integer lies at least `DELTA` above it. -/
theorem Clear.le_sub {val : K} {k : ℤ} (clear : Clear val) (behind : k < val) :
    k + DELTA ≤ val := by
  rcases clear with ⟨m, rfl⟩ | apart
  · have step : k + 1 ≤ m := by exact_mod_cast behind
    have : (k : K) + 1 ≤ m := by exact_mod_cast step
    have small : (DELTA : K) ≤ 1 := by norm_num [DELTA]
    linarith
  · have far := apart k
    rw [abs_of_pos (sub_pos.mpr behind)] at far
    linarith

theorem tolerantCeil_eq (clear : Clear val) : tolerantCeil val = ⌈val⌉ := by
  simp only [tolerantCeil]
  split_ifs with close
  · rw [clear.eq_of_near close, Int.ceil_intCast, ← clear.eq_of_near close]
  · rfl

theorem tolerantFloor_eq (clear : Clear val) : tolerantFloor val = ⌊val⌋ := by
  simp only [tolerantFloor]
  split_ifs with close
  · rw [clear.eq_of_near close, Int.floor_intCast, ← clear.eq_of_near close]
  · rfl

end GpuHotSpot.HotSpotTool
