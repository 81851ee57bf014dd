import Mathlib.Data.Nat.Bitwise

/-!
# Xor of two remainders

Numbers are split in their low `k` bits and the rest, and hashed to the xor of two remainders modulo
`n`, where `2 ^ k ≤ n < 2 ^ (k + 1)`.

* `xor_mod_lt`: for a power of two the hash is below `n`.
* `exists_xor_mod_ge`: for no other `n` it is.
-/

namespace GpuHotSpot

variable {n k : ℕ}

/-- For a power of two the hash is in range. -/
theorem xor_mod_lt (power : n = 2 ^ k) (b : ℕ) : (b % n) ^^^ (b / 2 ^ k % n) < n := by
  subst power
  exact Nat.xor_lt_two_pow (Nat.mod_lt _ (Nat.two_pow_pos k)) (Nat.mod_lt _ (Nat.two_pow_pos k))

/-- Setting a bit leads beyond any number that agrees in the bits above and lacks it. -/
theorem lt_xor_two_pow {x z i : ℕ} (clear : z.testBit i = false)
    (same : ∀ j, i ≤ j → x.testBit j = z.testBit j) : z < x ^^^ 2 ^ i := by
  refine Nat.lt_of_testBit i clear ?_ fun j above => ?_
  · rw [Nat.testBit_xor, same i le_rfl, clear, Nat.testBit_two_pow_self]
    rfl
  · rw [Nat.testBit_xor, same j above.le, Nat.testBit_two_pow_of_ne above.ne, Bool.xor_false]

/-- A number below `2 ^ k` that is not the last has a clear bit. -/
theorem exists_clear_bit {x : ℕ} (below : x + 1 < 2 ^ k) : ∃ i < k, x.testBit i = false := by
  by_contra full
  have same : x = 2 ^ k - 1 := by
    refine Nat.eq_of_testBit_eq fun i => ?_
    rw [Nat.testBit_two_pow_sub_one]
    rcases Nat.lt_or_ge i k with inside | outside
    · rw [decide_eq_true inside]
      by_contra clear
      exact full ⟨i, inside, Bool.not_eq_true _ ▸ clear⟩
    · rw [decide_eq_false (not_lt.mpr outside)]
      exact Nat.testBit_lt_two_pow
        (lt_of_lt_of_le (Nat.lt_of_succ_lt below) (Nat.pow_le_pow_right (Nat.succ_pos 1) outside))
  omega

/-- **Out of range.** Unless `n` is a power of two, a number below `n * 2 ^ k` is hashed to `n` or
above. -/
theorem exists_xor_mod_ge (low : 2 ^ k < n) (high : n < 2 ^ (k + 1)) :
    ∃ b < n * 2 ^ k, n ≤ (b % n) ^^^ (b / 2 ^ k % n) := by
  have positive := Nat.two_pow_pos k
  rw [pow_succ] at high
  rcases Nat.even_or_odd' n with ⟨half, even | odd⟩
  · -- a clear bit of `n - 1` besides the lowest
    obtain ⟨k, rfl⟩ : ∃ l, k = l + 1 := by
      cases k with
      | zero => omega
      | succ l => exact ⟨l, rfl⟩
    rw [pow_succ] at low high positive ⊢
    obtain ⟨i, inside, clear⟩ := exists_clear_bit (x := half - 1 - 2 ^ k) (k := k) (by omega)
    have small : 2 ^ (i + 1) ≤ 2 ^ k := Nat.pow_le_pow_right (Nat.succ_pos 1) inside
    have lacks : (n - 1).testBit (i + 1) = false := by
      rw [Nat.testBit_succ, show (n - 1) / 2 = 2 ^ k + (half - 1 - 2 ^ k) by omega,
        Nat.testBit_two_pow_add_gt inside, clear]
    have number : n * (2 ^ k * 2 - 1) + 2 ^ (i + 1) + n = n * (2 ^ k * 2) + 2 ^ (i + 1) := by
      rw [Nat.mul_sub, Nat.mul_one]
      have : n ≤ n * (2 ^ k * 2) := Nat.le_mul_of_pos_right n positive
      omega
    generalize b_def : n * (2 ^ k * 2 - 1) + 2 ^ (i + 1) = b at number
    have remainder : b % n = 2 ^ (i + 1) := by
      rw [← b_def, Nat.mul_add_mod, Nat.mod_eq_of_lt (by omega)]
    have least : n - 2 ≤ b / (2 ^ k * 2) := by
      rw [Nat.le_div_iff_mul_le positive, Nat.sub_mul]
      omega
    have most : b / (2 ^ k * 2) < n := by
      rw [Nat.div_lt_iff_lt_mul positive]
      omega
    have above : ∀ j, i + 1 ≤ j → (b / (2 ^ k * 2)).testBit j = (n - 1).testBit j := by
      intro j later
      obtain ⟨l, rfl⟩ := Nat.exists_eq_add_of_le' (Nat.le_trans (Nat.succ_pos i) later)
      rw [Nat.testBit_succ, Nat.testBit_succ]
      congr 1
      omega
    have beyond := lt_xor_two_pow lacks above
    refine ⟨b, by omega, ?_⟩
    rw [remainder, Nat.mod_eq_of_lt most, Nat.xor_comm]
    omega
  · refine ⟨n - 1, ?_, ?_⟩
    · have : n ≤ n * 2 ^ k := Nat.le_mul_of_pos_right n positive
      omega
    · have quotient : (n - 1) / 2 ^ k = 1 := by
        rw [Nat.div_eq_iff positive]
        omega
      have beyond := lt_xor_two_pow (x := n - 1) (z := n - 1) (i := 0)
        (by rw [Nat.testBit_zero]; exact decide_eq_false (by omega)) fun j _ => rfl
      rw [quotient, Nat.mod_eq_of_lt (by omega), Nat.mod_eq_of_lt (by omega)]
      rw [pow_zero] at beyond
      omega

end GpuHotSpot
