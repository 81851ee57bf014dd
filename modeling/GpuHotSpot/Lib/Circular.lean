import Mathlib.Algebra.Order.Group.Nat
import Mathlib.Data.Nat.ModEq

/-!
# Circular buffers

A buffer of `N` places that is written round and round: entry `t` goes to place `t % N`, in lap
`t / N`, and after `n` entries the next one goes to place `n % N`.

* `Recorded`: the last `N` entries are in the buffer.
* `Recorded.of_link`: when a link between two entries, given by their places, still leads to the
  entry that it was made for.
-/

namespace GpuHotSpot.Circular

variable {N n t u : ℕ}

/-- The entries that are in the buffer after `n` entries. -/
def Recorded (N n t : ℕ) : Prop := t < n ∧ n ≤ t + N

instance (N n t : ℕ) : Decidable (Recorded N n t) := inferInstanceAs (Decidable (_ ∧ _))

/-- The laps of two entries that are at most one lap apart. -/
theorem div_of_window (positive : 0 < N) (later : u ≤ t) (near : t ≤ u + N) :
    t / N = u / N ∨ t / N = u / N + 1 := by
  have low := Nat.div_le_div_right (c := N) later
  have high : t / N ≤ (u + N) / N := Nat.div_le_div_right near
  rw [Nat.add_div_right u positive] at high
  omega

theorem mod_eq_iff_of_window (later : t < n) (near : n ≤ t + N) :
    t % N = n % N ↔ n = t + N := by
  constructor
  · intro place
    have whole : N ∣ n - t := (Nat.modEq_iff_dvd' later.le).1 place
    have := Nat.le_of_dvd (Nat.sub_pos_of_lt later) whole
    omega
  · rintro rfl
    exact (Nat.add_mod_right t N).symm

/-- One more entry takes the place of the oldest one. -/
theorem recorded_succ (positive : 0 < N) :
    Recorded N (n + 1) t ↔ t = n ∨ Recorded N n t ∧ t % N ≠ n % N := by
  constructor
  · rintro ⟨before, near⟩
    rcases Nat.lt_succ_iff_lt_or_eq.1 before with less | same
    · refine Or.inr ⟨⟨less, by omega⟩, fun place => ?_⟩
      have := (mod_eq_iff_of_window less (by omega : n ≤ t + N)).1 place
      omega
    · exact Or.inl same
  · rintro (rfl | ⟨⟨before, near⟩, place⟩)
    · exact ⟨Nat.lt_succ_self t, by omega⟩
    · have := mt (mod_eq_iff_of_window before near).2 place
      exact ⟨by omega, by omega⟩

/-- How many times the place of an entry was written since. -/
def overwritten (N n t : ℕ) : ℕ := (n - 1 - t) / N

/-- The entry that is now at the place of an entry. -/
def occupant (N n t : ℕ) : ℕ := t + N * overwritten N n t

theorem occupant_mod : occupant N n t % N = t % N := Nat.add_mul_mod_self_left t N _

theorem occupant_div (positive : 0 < N) : occupant N n t / N = t / N + overwritten N n t :=
  Nat.add_mul_div_left t _ positive

theorem recorded_occupant (positive : 0 < N) (before : t < n) : Recorded N n (occupant N n t) := by
  have split := Nat.div_add_mod (n - 1 - t) N
  have below := Nat.mod_lt (n - 1 - t) positive
  rw [occupant, overwritten]
  exact ⟨by omega, by omega⟩

theorem overwritten_eq_zero_iff (positive : 0 < N) (before : t < n) :
    overwritten N n t = 0 ↔ Recorded N n t := by
  rw [overwritten, Nat.div_eq_zero_iff]
  constructor
  · rintro (none | below)
    · omega
    · exact ⟨before, by omega⟩
  · rintro ⟨-, near⟩
    right
    omega

/-- The next place is in the same lap, or the first one of the next lap. -/
theorem succ_place (positive : 0 < N) :
    n % N + 1 = N ∧ (n + 1) % N = 0 ∧ (n + 1) / N = n / N + 1 ∨
      n % N + 1 < N ∧ (n + 1) % N = n % N + 1 ∧ (n + 1) / N = n / N := by
  have below := Nat.mod_lt n positive
  have split := Nat.div_add_mod n N
  rcases Nat.lt_or_eq_of_le (Nat.succ_le_of_lt below) with inside | last
  · have next : n + 1 = N * (n / N) + (n % N + 1) := by omega
    refine Or.inr ⟨inside, ?_, ?_⟩
    · rw [next, Nat.mul_add_mod]
      exact Nat.mod_eq_of_lt inside
    · rw [next, Nat.mul_add_div positive, Nat.div_eq_of_lt inside, Nat.add_zero]
  · have next : n + 1 = N * (n / N + 1) := by
      rw [Nat.mul_succ]
      omega
    refine Or.inl ⟨last, ?_, ?_⟩
    · rw [next, Nat.mul_mod_right]
    · rw [next, Nat.mul_div_cancel_left _ positive]

/-- **Links.** An entry in the buffer has a link to one that was in the buffer before it. The other
one is in the buffer still if the link goes on behind the head, or to the other side of it. -/
theorem Recorded.of_link (here : Recorded N n t) (older : u < t) (near : t < u + N)
    (sound : t % N < n % N ∨ n % N < t % N ∧ u % N < t % N)
    (follows : ¬ ((t % N < u % N ∨ n % N < t % N) ∧ u % N < n % N)) : Recorded N n u := by
  obtain ⟨before, recent⟩ := here
  refine ⟨older.trans before, ?_⟩
  by_contra gone
  have atN := Nat.div_add_mod n N
  have atT := Nat.div_add_mod t N
  have atU := Nat.div_add_mod u N
  have positive : 0 < N := by omega
  have below := Nat.mod_lt n positive
  rcases div_of_window positive before.le recent with same | next
  · rcases div_of_window positive older.le near.le with same' | next'
    · rw [same, same'] at atN
      rw [same'] at atT
      omega
    · rw [same, next', Nat.mul_succ] at atN
      rw [next', Nat.mul_succ] at atT
      omega
  · rcases div_of_window positive older.le near.le with same' | next'
    · rw [next, same', Nat.mul_succ] at atN
      rw [same'] at atT
      omega
    · rw [next, next', Nat.mul_succ, Nat.mul_succ] at atN
      rw [next', Nat.mul_succ] at atT
      omega

end GpuHotSpot.Circular
