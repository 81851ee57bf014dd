import Mathlib.Data.Int.GCD
import Mathlib.Data.Int.ModEq
import Mathlib.Algebra.Ring.Nat
import Mathlib.Logic.Function.Iterate
import Mathlib.Logic.Relation

/-!
# Walks with a stride

A walk over the numbers below `n` that goes on by `k` and, where that leaves the range, enters it
again one column further. Along any such function one can search for the next number with a
property.

* `nextHit`: the search, which is bounded; `Hits` is its result without the bound.
* `transGen_hits_iff`: the results of searches one after the other are the numbers with the property
  on the walk.
* `stride_modEq`: the walk stays in its class modulo `gcd (n - 1) k`.
* `exists_iterate_stride`: if that is one, it comes to every number.
-/

namespace GpuHotSpot.Lib.StrideWalk

/-! ## Searches -/

section Search

variable {α : Type*} (f : α → α) (p : α → Bool)

/-- The next element with the property, if it is at most so many steps away. -/
def nextHit : ℕ → α → Option α
  | 0, _ => none
  | fuel + 1, a => if p (f a) then some (f a) else nextHit fuel (f a)

/-- The search ends with `b`. -/
def Hits (a b : α) : Prop :=
  ∃ fuel, nextHit f p fuel a = some b

variable {f p} {a b : α}

/-- What is found in some steps is found in more. -/
theorem nextHit_mono {fuel more : ℕ} (le : fuel ≤ more) (found : nextHit f p fuel a = some b) :
    nextHit f p more a = some b := by
  induction fuel generalizing a more with
  | zero => cases found
  | succ fuel ih =>
    obtain ⟨more, rfl⟩ : ∃ more', more = more' + 1 := ⟨more - 1, by omega⟩
    rw [nextHit] at found ⊢
    split_ifs at found ⊢ with here
    · exact found
    · exact ih (by omega) found

/-- **The search finds the first element with the property.** -/
theorem hits_iff : Hits f p a b ↔
    ∃ i, f^[i + 1] a = b ∧ p b = true ∧ ∀ j < i, p (f^[j + 1] a) = false := by
  constructor
  · rintro ⟨fuel, found⟩
    induction fuel generalizing a with
    | zero => cases found
    | succ fuel ih =>
      rw [nextHit] at found
      split_ifs at found with here
      · cases found
        exact ⟨0, rfl, here, fun j less => absurd less (Nat.not_lt_zero j)⟩
      · obtain ⟨i, at_b, hit, before⟩ := ih found
        refine ⟨i + 1, by rw [Function.iterate_succ_apply]; exact at_b, hit, fun j less => ?_⟩
        cases j with
        | zero => simpa using here
        | succ j =>
          rw [Function.iterate_succ_apply]
          exact before j (by omega)
  · rintro ⟨i, at_b, hit, before⟩
    induction i generalizing a with
    | zero =>
      have here : f a = b := at_b
      exact ⟨1, by rw [nextHit, here, if_pos hit]⟩
    | succ i ih =>
      rw [Function.iterate_succ_apply] at at_b
      obtain ⟨fuel, found⟩ := ih at_b fun j less => by
        rw [← Function.iterate_succ_apply]
        exact before (j + 1) (by omega)
      refine ⟨fuel + 1, ?_⟩
      have not_here : p (f a) = false := before 0 (by omega)
      rw [nextHit, not_here]
      exact found

/-- The search ends if there is an element with the property, and not behind it. -/
theorem exists_hits {i : ℕ} (hit : p (f^[i + 1] a) = true) :
    ∃ j ≤ i, Hits f p a (f^[j + 1] a) := by
  induction i using Nat.strong_induction_on with
  | h i ih =>
    by_cases first : ∀ j < i, p (f^[j + 1] a) = false
    · exact ⟨i, le_rfl, hits_iff.2 ⟨i, rfl, hit, first⟩⟩
    · push Not at first
      obtain ⟨j, less, earlier⟩ := first
      obtain ⟨l, le, found⟩ := ih j less (by simpa using earlier)
      exact ⟨l, by omega, found⟩

/-- **Searches one after the other find all that has the property.** -/
theorem transGen_hits_iff : Relation.TransGen (Hits f p) a b ↔
    ∃ i, f^[i + 1] a = b ∧ p b = true := by
  constructor
  · intro found
    induction found with
    | single found =>
      obtain ⟨i, at_b, hit, -⟩ := hits_iff.1 found
      exact ⟨i, at_b, hit⟩
    | tail _ found ih =>
      obtain ⟨i, at_b, -⟩ := ih
      obtain ⟨j, at_c, hit, -⟩ := hits_iff.1 found
      refine ⟨j + (i + 1), ?_, hit⟩
      rw [add_right_comm, Function.iterate_add_apply, at_b]
      exact at_c
  · rintro ⟨i, at_b, hit⟩
    induction i using Nat.strong_induction_on generalizing a with
    | h i ih =>
      obtain ⟨j, le, found⟩ := exists_hits (f := f) (p := p) (i := i) (at_b ▸ hit)
      rcases Nat.lt_or_eq_of_le le with less | rfl
      · refine .head found (ih (i - j - 1) (by omega) ?_)
        rw [← Function.iterate_add_apply, ← at_b]
        congr 1
        omega
      · exact at_b ▸ .single found

end Search

/-! ## Strides -/

/-- The walk over the numbers below `n` with the stride `k`. -/
def stride (n k c : ℕ) : ℕ :=
  if n ≤ c + k then ((c + k) % n + 1) % k else c + k

section Stride

variable {n k c : ℕ}

/-- A step from inside the range in one reduction. -/
theorem stride_eq (k_le : k ≤ n) (inside : c < n) :
    stride n k c = if n ≤ c + k then (c + k - n + 1) % k else c + k := by
  rw [stride]
  split_ifs with leaves
  · rw [Nat.mod_eq_sub_mod leaves, Nat.mod_eq_of_lt (show c + k - n < n by omega)]
  · rfl

/-- From the first number of a column the walk goes through the column. -/
theorem iterate_stride_column {j i : ℕ} (inside : j + i * k < n) :
    (stride n k)^[i] j = j + i * k := by
  induction i with
  | zero => simp
  | succ i ih =>
    rw [add_mul, one_mul] at inside ⊢
    rw [Function.iterate_succ_apply', ih (by omega), stride, if_neg (by omega)]
    omega

/-- **The walk stays in its class.** -/
theorem stride_modEq (k_le : k ≤ n) (inside : c < n) :
    stride n k c ≡ c [MOD Nat.gcd (n - 1) k] := by
  have divides_k : Nat.gcd (n - 1) k ∣ k := Nat.gcd_dvd_right _ _
  have divides_n : Nat.gcd (n - 1) k ∣ n - 1 := Nat.gcd_dvd_left _ _
  rw [stride_eq k_le inside]
  have whole : c + k ≡ c [MOD Nat.gcd (n - 1) k] := by
    simpa using (Nat.ModEq.refl c).add (Nat.modEq_zero_iff_dvd.mpr divides_k)
  split_ifs with leaves
  · have back : c + k - n + 1 + (n - 1) = c + k := by omega
    have column : (c + k - n + 1) % k ≡ c + k - n + 1 [MOD Nat.gcd (n - 1) k] :=
      (Nat.mod_modEq _ _).of_dvd divides_k
    have lap : c + k - n + 1 + (n - 1) ≡ c + k - n + 1 [MOD Nat.gcd (n - 1) k] := by
      simpa using (Nat.ModEq.refl (c + k - n + 1)).add (Nat.modEq_zero_iff_dvd.mpr divides_n)
    rw [back] at lap
    exact column.trans (lap.symm.trans whole)
  · exact whole

variable (k_pos : 1 ≤ k) (k_le : k ≤ n)

include k_pos k_le

theorem stride_lt (inside : c < n) : stride n k c < n := by
  rw [stride_eq k_le inside]
  split_ifs with leaves
  · exact (Nat.mod_lt _ k_pos).trans_le k_le
  · omega

theorem iterate_stride_lt (inside : c < n) (i : ℕ) : (stride n k)^[i] c < n := by
  induction i with
  | zero => exact inside
  | succ i ih =>
    rw [Function.iterate_succ_apply']
    exact stride_lt k_pos k_le ih

theorem iterate_stride_modEq (inside : c < n) (i : ℕ) :
    (stride n k)^[i] c ≡ c [MOD Nat.gcd (n - 1) k] := by
  induction i with
  | zero => exact .refl _
  | succ i ih =>
    rw [Function.iterate_succ_apply']
    exact (stride_modEq k_le (iterate_stride_lt k_pos k_le inside i)).trans ih

/-- Behind the last number of its column the walk enters the column that is `n - 1` further back. -/
theorem exists_iterate_enter (inside : c < n) :
    ∃ i, (stride n k)^[i + 1] c < k ∧ (stride n k)^[i + 1] c + (n - 1) ≡ c [MOD k] := by
  induction left : n - c using Nat.strong_induction_on generalizing c with
  | h left' ih =>
    by_cases leaves : n ≤ c + k
    · have last : stride n k c = (c + k - n + 1) % k := by
        rw [stride_eq k_le inside, if_pos leaves]
      refine ⟨0, ?_⟩
      rw [Function.iterate_one, last]
      refine ⟨Nat.mod_lt _ k_pos, ?_⟩
      have back : c + k - n + 1 + (n - 1) = c + k := by omega
      have entered := (Nat.mod_modEq (c + k - n + 1) k).add_right (n - 1)
      rw [back] at entered
      exact entered.trans (by simp [Nat.ModEq])
    · have next : stride n k c = c + k := by
        rw [stride, if_neg leaves]
      obtain ⟨i, column, back⟩ := ih (n - (c + k)) (by omega) (c := c + k) (by omega) rfl
      refine ⟨i + 1, ?_⟩
      rw [Function.iterate_succ_apply, next]
      exact ⟨column, back.trans (by simp [Nat.ModEq])⟩

/-- The walk enters one column after the other. -/
theorem exists_iterate_columns (inside : c < n) (l : ℕ) :
    ∃ i, (stride n k)^[i + 1] c < k ∧ (stride n k)^[i + 1] c + (l + 1) * (n - 1) ≡ c [MOD k] := by
  induction l with
  | zero => simpa using exists_iterate_enter k_pos k_le inside
  | succ l ih =>
    obtain ⟨i, -, before⟩ := ih
    obtain ⟨j, column, back⟩ :=
      exists_iterate_enter k_pos k_le (iterate_stride_lt k_pos k_le inside (i + 1))
    refine ⟨j + (i + 1), ?_⟩
    rw [add_right_comm, Function.iterate_add_apply]
    refine ⟨column, ?_⟩
    rw [add_mul _ _ (n - 1), one_mul, add_comm ((l + 1) * (n - 1)), ← add_assoc]
    exact (back.add_right _).trans before

/-- **If the class is all, the walk comes to every number** of the range. -/
theorem exists_iterate_stride (coprime : Nat.Coprime (n - 1) k) (inside : c < n) {d : ℕ}
    (target : d < n) : ∃ i, (stride n k)^[i + 1] c = d := by
  -- as many columns as bring `c` to the column of `d`
  obtain ⟨l, laps⟩ : ∃ l, d + (l + 1) * (n - 1) ≡ c [MOD k] := by
    obtain ⟨m, -, solves⟩ :=
      Nat.exists_mul_mod_eq_of_coprime (c + (k - 1) * d) coprime (by omega)
    have whole : d + (c + (k - 1) * d) = c + k * d := by
      obtain ⟨k, rfl⟩ : ∃ k', k = k' + 1 := ⟨k - 1, by omega⟩
      rw [Nat.add_sub_cancel, add_mul, one_mul]
      omega
    have lap : (m + k - 1 + 1) * (n - 1) = (n - 1) * m + k * (n - 1) := by
      rw [show m + k - 1 + 1 = m + k by omega, add_mul, mul_comm m]
    refine ⟨m + k - 1, ?_⟩
    rw [lap]
    calc d + ((n - 1) * m + k * (n - 1)) ≡ d + (n - 1) * m [MOD k] := by
          rw [← add_assoc]
          simp [Nat.ModEq]
      _ ≡ d + (c + (k - 1) * d) [MOD k] := Nat.ModEq.add_left d solves
      _ ≡ c [MOD k] := by rw [whole]; simp [Nat.ModEq]
  obtain ⟨i, column, back⟩ := exists_iterate_columns k_pos k_le inside l
  have first : (stride n k)^[i + 1] c = d % k := by
    have same : (stride n k)^[i + 1] c ≡ d [MOD k] := (back.trans laps.symm).add_right_cancel' _
    rw [← Nat.mod_eq_of_lt column]
    exact same
  have digits := Nat.mod_add_div' d k
  refine ⟨d / k + i, ?_⟩
  rw [add_assoc, Function.iterate_add_apply, first,
    iterate_stride_column (by rw [digits]; exact target), digits]

end Stride

end GpuHotSpot.Lib.StrideWalk
