import Mathlib.Data.Nat.Bitwise
import Mathlib.Data.Nat.Log
import Mathlib.Tactic.Ring

/-!
# Bit masks

A mask selects bits of a number by a bitwise and. Used in place of a remainder it reaches every
number up to itself only if it is all ones.

* `and_mask_covers_iff`: when a mask reaches all numbers up to itself.
* `and_shiftRight_of_ones`: what a mask of adjacent ones selects.
-/

namespace GpuHotSpot.Lib.BitMask

variable {mask : ℕ}

/-- A mask whose low bits are ones up to its highest bit is all ones. -/
theorem isPowerOfTwo_of_low_ones
    (ones : mask &&& (2 ^ Nat.log 2 (mask + 1) - 1) = 2 ^ Nat.log 2 (mask + 1) - 1) :
    (mask + 1).isPowerOfTwo := by
  have lower : 2 ^ Nat.log 2 (mask + 1) ≤ mask + 1 := Nat.pow_log_le_self 2 (Nat.succ_ne_zero _)
  have upper : mask + 1 < 2 ^ (Nat.log 2 (mask + 1) + 1) :=
    Nat.lt_pow_succ_log_self Nat.one_lt_two _
  set k := Nat.log 2 (mask + 1)
  rw [Nat.and_two_pow_sub_one_eq_mod] at ones
  have positive := Nat.two_pow_pos k
  rw [pow_succ] at upper
  refine ⟨k, ?_⟩
  by_cases above : 2 ^ k ≤ mask
  · -- the bit `k` would be followed by ones, which is too much
    rw [Nat.mod_eq_sub_mod above, Nat.mod_eq_of_lt (by omega)] at ones
    omega
  · omega

/-- **When a mask reaches all numbers up to itself.** -/
theorem and_mask_covers_iff :
    (∀ l ≤ mask, ∃ x, x &&& mask = l) ↔ (mask + 1).isPowerOfTwo := by
  constructor
  · intro covers
    have lower : 2 ^ Nat.log 2 (mask + 1) ≤ mask + 1 :=
      Nat.pow_log_le_self 2 (Nat.succ_ne_zero _)
    obtain ⟨x, reached⟩ := covers (2 ^ Nat.log 2 (mask + 1) - 1) (by omega)
    refine isPowerOfTwo_of_low_ones ?_
    rw [← reached, Nat.and_comm x mask, ← Nat.and_assoc, Nat.and_self]
  · rintro ⟨k, power⟩ l below
    have ones : mask = 2 ^ k - 1 := by omega
    refine ⟨l, ?_⟩
    rw [ones, Nat.and_two_pow_sub_one_eq_mod, Nat.mod_eq_of_lt (by omega)]

/-- A mask of adjacent ones selects a remainder. -/
theorem and_shiftRight_of_ones {offset width : ℕ} (ones : mask >>> offset = 2 ^ width - 1)
    (x : ℕ) : (x &&& mask) >>> offset = (x >>> offset) % 2 ^ width := by
  rw [Nat.shiftRight_and_distrib, ones, Nat.and_two_pow_sub_one_eq_mod]

end GpuHotSpot.Lib.BitMask
