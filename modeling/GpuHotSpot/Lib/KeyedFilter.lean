import Mathlib.Data.List.Basic
import Mathlib.Logic.Function.Basic

/-!
# Filters with a state for every key

A stream of items of many keys goes through a filter that keeps a state for every
key, makes that state when the key first turns up, and decides about an item by the
state of its key.

* `filter_mixed`: what passes of one key is what passes when its items come alone.
-/

namespace GpuHotSpot

/-- Which items pass in a state, and what becomes of the state. -/
structure KeyedFilter (ι κ σ : Type*) where
  key : ι → κ
  fresh : σ
  keep : σ → ι → Bool
  next : σ → ι → σ

namespace KeyedFilter

variable {ι κ σ : Type*} [DecidableEq κ] (F : KeyedFilter ι κ σ)

/-- What passes of items with one state. -/
def alone (s : σ) : List ι → List ι
  | [] => []
  | i :: is => if F.keep s i then i :: alone (F.next s i) is else alone (F.next s i) is

/-- The state behind items with one state. -/
def after (s : σ) (is : List ι) : σ := is.foldl F.next s

/-- The state of a key. -/
def current (m : κ → Option σ) (k : κ) : σ := (m k).getD F.fresh

/-- The states behind an item. -/
def step (m : κ → Option σ) (i : ι) : κ → Option σ :=
  Function.update m (F.key i) (some (F.next (F.current m (F.key i)) i))

/-- What passes of a stream. -/
def mixed (m : κ → Option σ) : List ι → List ι
  | [] => []
  | i :: is =>
    if F.keep (F.current m (F.key i)) i then i :: mixed (F.step m i) is else mixed (F.step m i) is

omit [DecidableEq κ] in
@[simp] theorem alone_nil (s : σ) : F.alone s [] = [] := rfl

omit [DecidableEq κ] in
theorem alone_append (s : σ) (is js : List ι) :
    F.alone s (is ++ js) = F.alone s is ++ F.alone (F.after s is) js := by
  induction is generalizing s with
  | nil => rfl
  | cons i is ih =>
    rw [List.cons_append, alone, alone, ih]
    split_ifs <;> rfl

omit [DecidableEq κ] in
/-- What passes comes in the order of the stream. -/
theorem alone_sublist (s : σ) (is : List ι) : (F.alone s is).Sublist is := by
  induction is generalizing s with
  | nil => exact List.Sublist.slnil
  | cons i is ih =>
    rw [alone]
    split_ifs
    · exact (ih _).cons_cons i
    · exact (ih _).cons i

/-- **One key.** What passes of its items in a stream is what passes of them alone. -/
theorem filter_mixed (m : κ → Option σ) (is : List ι) (k : κ) :
    (F.mixed m is).filter (fun i => decide (F.key i = k)) =
      F.alone (F.current m k) (is.filter fun i => decide (F.key i = k)) := by
  induction is generalizing m with
  | nil => rfl
  | cons i is ih =>
    rw [mixed]
    by_cases own : F.key i = k
    · subst own
      have stepped : F.current (F.step m i) (F.key i) = F.next (F.current m (F.key i)) i := by
        rw [current, step, Function.update_self, Option.getD_some]
      rw [List.filter_cons_of_pos (by simp), alone, ← stepped]
      split_ifs
      · rw [List.filter_cons_of_pos (by simp), ih]
      · exact ih _
    · have foreign : F.current (F.step m i) k = F.current m k := by
        rw [current, step, Function.update_of_ne (Ne.symm own), current]
      rw [List.filter_cons_of_neg (by simpa using own), ← foreign]
      split_ifs
      · rw [List.filter_cons_of_neg (by simpa using own), ih]
      · exact ih _

theorem mem_of_mem_mixed {m : κ → Option σ} {is : List ι} {i : ι} (member : i ∈ F.mixed m is) :
    i ∈ is := by
  induction is generalizing m with
  | nil => cases member
  | cons j is ih =>
    rw [mixed] at member
    split_ifs at member
    · rcases List.mem_cons.mp member with rfl | later
      · exact List.mem_cons_self
      · exact List.mem_cons_of_mem j (ih later)
    · exact List.mem_cons_of_mem j (ih member)

/-- A stream of one key. -/
theorem mixed_of_key {is : List ι} {k : κ} (own : ∀ i ∈ is, F.key i = k) (m : κ → Option σ) :
    F.mixed m is = F.alone (F.current m k) is := by
  have passed := F.filter_mixed m is k
  rwa [List.filter_eq_self.mpr fun i member => decide_eq_true (own i (F.mem_of_mem_mixed member)),
    List.filter_eq_self.mpr fun i member => decide_eq_true (own i member)] at passed

/-- Items that pass in every state that can come about all pass, and keep their order across
keys. -/
theorem filter_mixed_of_keep {p : ι → Bool} {Good : σ → Prop}
    (next : ∀ s i, Good s → Good (F.next s i))
    (passes : ∀ s i, Good s → p i = true → F.keep s i = true) {m : κ → Option σ}
    (start : ∀ k, Good (F.current m k)) (is : List ι) :
    (F.mixed m is).filter p = is.filter p := by
  induction is generalizing m with
  | nil => rfl
  | cons i is ih =>
    have stepped : ∀ k, Good (F.current (F.step m i) k) := by
      intro k
      by_cases own : k = F.key i
      · subst own
        rw [current, step, Function.update_self, Option.getD_some]
        exact next _ i (start _)
      · rw [current, step, Function.update_of_ne own]
        exact start k
    rw [mixed]
    cases chosen : p i with
    | true =>
      rw [if_pos (passes _ i (start _) chosen), List.filter_cons_of_pos chosen,
        List.filter_cons_of_pos chosen, ih stepped]
    | false =>
      have skipped : ¬ p i = true := by simp [chosen]
      rw [List.filter_cons_of_neg skipped]
      split_ifs
      · rw [List.filter_cons_of_neg skipped, ih stepped]
      · exact ih stepped

end KeyedFilter

end GpuHotSpot
