import Mathlib.Data.Nat.Notation

/-!
# Runs of a fallible loop

A loop `for n in range(iterations)` over a state: each pass either raises or moves
to the next state and shows something. `runFor` runs the first `n` passes and
collects what they showed.

* `runFor_invariant`: what every pass preserves holds after every run.
* `runFor_prefix`: every pass of a run starts from the state its prefix reaches.
-/

namespace GpuHotSpot

variable {S O : Type*} {step : ℕ → S → Option (S × O)} {start : S}

/-- The state after `n` passes and what they showed, if none raised. -/
def runFor (step : ℕ → S → Option (S × O)) (start : S) : ℕ → Option (S × List O)
  | 0 => some (start, [])
  | n + 1 =>
    (runFor step start n).bind fun (s, shown) =>
      (step n s).map fun (s', o) => (s', shown ++ [o])

@[simp] theorem runFor_zero : runFor step start 0 = some (start, []) := rfl

theorem runFor_succ {n : ℕ} {t : S} {shown : List O} :
    runFor step start (n + 1) = some (t, shown) ↔
      ∃ s before o, runFor step start n = some (s, before) ∧ step n s = some (t, o) ∧
        shown = before ++ [o] := by
  simp only [runFor, Option.bind_eq_some_iff, Option.map_eq_some_iff, Prod.exists, Prod.mk.injEq]
  constructor
  · rintro ⟨s, before, reached, t', o, moved, rfl, rfl⟩
    exact ⟨s, before, o, reached, moved, rfl⟩
  · rintro ⟨s, before, o, reached, moved, rfl⟩
    exact ⟨s, before, reached, t, o, moved, rfl, rfl⟩

/-- **Invariants.** What holds initially and is preserved by every pass holds after every
run, for invariants that may mention the pass number and everything shown so far. -/
theorem runFor_invariant {P : ℕ → S → List O → Prop} (initial : P 0 start [])
    (preserved : ∀ n s shown t o, P n s shown → step n s = some (t, o) →
      P (n + 1) t (shown ++ [o])) :
    ∀ {n t shown}, runFor step start n = some (t, shown) → P n t shown := by
  intro n
  induction n with
  | zero =>
    intro t shown reached
    cases reached
    exact initial
  | succ n ih =>
    intro t shown reached
    obtain ⟨s, before, o, earlier, moved, rfl⟩ := runFor_succ.1 reached
    exact preserved n s before t o (ih earlier) moved

theorem runFor_length {n : ℕ} {t : S} {shown : List O}
    (reached : runFor step start n = some (t, shown)) : shown.length = n :=
  runFor_invariant (P := fun n _ shown => shown.length = n) rfl
    (fun _ _ _ _ _ length _ => by simp [length]) reached

/-- The passes of a run: pass `k` starts from the state the first `k` passes reach and shows
the `k`-th entry. -/
theorem runFor_prefix {n : ℕ} {t : S} {shown : List O}
    (reached : runFor step start n = some (t, shown)) {k : ℕ} (inRun : k < n) :
    ∃ s s' before o, runFor step start k = some (s, before) ∧ step k s = some (s', o) ∧
      runFor step start (k + 1) = some (s', before ++ [o]) ∧ shown[k]? = some o := by
  induction n generalizing t shown with
  | zero => exact absurd inRun (Nat.not_lt_zero k)
  | succ n ih =>
    obtain ⟨s, before, o, earlier, moved, rfl⟩ := runFor_succ.1 reached
    have length := runFor_length earlier
    rcases Nat.lt_succ_iff_lt_or_eq.mp inRun with inside | rfl
    · obtain ⟨u, u', shown, o', start, pass, next, entry⟩ := ih earlier inside
      refine ⟨u, u', shown, o', start, pass, next, ?_⟩
      rw [List.getElem?_append_left (length ▸ inside), entry]
    · exact ⟨s, t, before, o, earlier, moved, reached, by simp [← length]⟩

end GpuHotSpot
