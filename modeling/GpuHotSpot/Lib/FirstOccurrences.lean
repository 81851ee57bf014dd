import Mathlib.Data.List.Basic

/-!
# First occurrences

Of the elements of a list with the same key only the first is kept.

* `pairwise_firstOccurrences`: the keys that are left differ.
* `find?_firstOccurrences`: a search by key finds what it found before.
* `firstOccurrences_cons`: how an algorithm that keeps one element and drops the later ones of its
  key goes on.
* `filter_firstOccurrences`, `take_firstOccurrences`: a choice by key, and a front without
  repetitions.
-/

namespace GpuHotSpot.Lib.FirstOccurrences

variable {α κ : Type*} [DecidableEq κ] (key : α → κ)

/-- The elements of a list that have no element of their key before them, which are those of
`before` and the earlier ones of the list. -/
def firstOccurrences (before : List α) : List α → List α
  | [] => []
  | x :: xs =>
    if key x ∈ before.map key then firstOccurrences (before ++ [x]) xs
    else x :: firstOccurrences (before ++ [x]) xs

variable {key} {before xs : List α} {x : α} {k : κ}

theorem sublist_firstOccurrences : (firstOccurrences key before xs).Sublist xs := by
  induction xs generalizing before with
  | nil => exact .slnil
  | cons x xs ih =>
    rw [firstOccurrences]
    split_ifs
    · exact ih.cons x
    · exact ih.cons_cons x

/-- Nothing is left that has its key before it. -/
theorem key_notMem (member : x ∈ firstOccurrences key before xs) : key x ∉ before.map key := by
  induction xs generalizing before with
  | nil => cases member
  | cons y ys ih =>
    rw [firstOccurrences] at member
    have later : x ∈ firstOccurrences key (before ++ [y]) ys → key x ∉ before.map key := by
      intro kept found
      refine ih kept ?_
      rw [List.map_append]
      exact List.mem_append_left _ found
    split_ifs at member with seen
    · exact later member
    · rcases List.mem_cons.mp member with rfl | kept
      · exact seen
      · exact later kept

/-- **The keys that are left differ.** -/
theorem pairwise_firstOccurrences :
    (firstOccurrences key before xs).Pairwise fun x y => key x ≠ key y := by
  induction xs generalizing before with
  | nil => exact .nil
  | cons x xs ih =>
    rw [firstOccurrences]
    split_ifs
    · exact ih
    · refine List.pairwise_cons.mpr ⟨fun y member same => key_notMem member ?_, ih⟩
      rw [← same]
      simp

/-- **A search by key finds what it found before.** -/
theorem find?_firstOccurrences (unseen : k ∉ before.map key) :
    (firstOccurrences key before xs).find? (fun x => k = key x) =
      xs.find? fun x => k = key x := by
  induction xs generalizing before with
  | nil => rfl
  | cons x xs ih =>
    by_cases here : k = key x
    · have kept : key x ∉ before.map key := here ▸ unseen
      rw [firstOccurrences, if_neg kept, List.find?_cons_of_pos (by simpa using here),
        List.find?_cons_of_pos (by simpa using here)]
    · have still : k ∉ (before ++ [x]).map key := by
        simp only [List.map_append, List.map_cons, List.map_nil, List.mem_append,
          List.mem_singleton, not_or]
        exact ⟨unseen, here⟩
      rw [firstOccurrences, List.find?_cons_of_neg (by simpa using here)]
      split_ifs
      · exact ih still
      · rw [List.find?_cons_of_neg (by simpa using here)]
        exact ih still

/-- Elements whose key was before can be dropped first. -/
theorem firstOccurrences_filter {other : List α}
    (seen : ∀ k', k' ∈ before.map key ↔ k' = k ∨ k' ∈ other.map key) :
    firstOccurrences key before xs =
      firstOccurrences key other (xs.filter fun x => k ≠ key x) := by
  induction xs generalizing before other with
  | nil => rfl
  | cons x xs ih =>
    by_cases here : k = key x
    · have again : ∀ k', k' ∈ (before ++ [x]).map key ↔ k' = k ∨ k' ∈ other.map key := by
        intro k'
        rw [List.map_append, List.mem_append, seen, List.map_singleton, List.mem_singleton, here]
        tauto
      rw [firstOccurrences, if_pos ((seen _).mpr (.inl here.symm)),
        List.filter_cons_of_neg (by simpa using here)]
      exact ih again
    · have more : ∀ k', k' ∈ (before ++ [x]).map key ↔
          k' = k ∨ k' ∈ (other ++ [x]).map key := by
        intro k'
        simp only [List.map_append, List.mem_append, seen, or_assoc]
      rw [firstOccurrences, List.filter_cons_of_pos (by simpa using here), firstOccurrences]
      simp only [seen, Ne.symm here, false_or]
      rw [ih more]

/-- **The first element stays, and the later ones of its key go.** -/
theorem firstOccurrences_cons :
    firstOccurrences key [] (x :: xs) =
      x :: firstOccurrences key [] (xs.filter fun y => key x ≠ key y) := by
  rw [firstOccurrences, if_neg (by simp)]
  exact congrArg _ (firstOccurrences_filter fun k' => by simp)

/-- Every key that is not before is left. -/
theorem exists_key (unseen : k ∉ before.map key) :
    (∃ x ∈ firstOccurrences key before xs, key x = k) ↔ ∃ x ∈ xs, key x = k := by
  have same : ((firstOccurrences key before xs).find? fun x => k = key x).isSome =
      (xs.find? fun x => k = key x).isSome := by
    rw [find?_firstOccurrences unseen]
  rw [Bool.eq_iff_iff, List.find?_isSome, List.find?_isSome] at same
  simpa only [decide_eq_true_eq, @eq_comm _ k] using same

/-- **A choice by key can be made before or after.** -/
theorem filter_firstOccurrences (p : κ → Bool) {other : List α}
    (seen : ∀ k', p k' = true → (k' ∈ before.map key ↔ k' ∈ other.map key)) :
    (firstOccurrences key before xs).filter (fun x => p (key x)) =
      firstOccurrences key other (xs.filter fun x => p (key x)) := by
  induction xs generalizing before other with
  | nil => rfl
  | cons x xs ih =>
    by_cases chosen : p (key x) = true
    · have again : ∀ k', p k' = true →
          (k' ∈ (before ++ [x]).map key ↔ k' ∈ (other ++ [x]).map key) := by
        intro k' chosen'
        simp only [List.map_append, List.mem_append, seen k' chosen']
      rw [firstOccurrences, List.filter_cons_of_pos (p := fun x => p (key x)) chosen,
        firstOccurrences]
      simp only [seen (key x) chosen]
      split_ifs
      · exact ih again
      · rw [List.filter_cons_of_pos (p := fun x => p (key x)) chosen, ih again]
    · have again : ∀ k', p k' = true →
          (k' ∈ (before ++ [x]).map key ↔ k' ∈ other.map key) := by
        intro k' chosen'
        rw [List.map_append, List.mem_append, seen k' chosen', List.map_singleton,
          List.mem_singleton]
        refine or_iff_left ?_
        rintro rfl
        exact chosen chosen'
      rw [firstOccurrences, List.filter_cons_of_neg (p := fun x => p (key x)) chosen]
      split_ifs
      · exact ih again
      · rw [List.filter_cons_of_neg (p := fun x => p (key x)) chosen, ih again]

/-- **A front without repetitions stays in front.** -/
theorem take_firstOccurrences {r : ℕ} (unseen : ∀ x ∈ xs.take r, key x ∉ before.map key)
    (differ : (xs.take r).Pairwise fun x y => key x ≠ key y) :
    (firstOccurrences key before xs).take r = xs.take r := by
  induction xs generalizing before r with
  | nil => rfl
  | cons x xs ih =>
    cases r with
    | zero => rfl
    | succ r =>
      rw [List.take_succ_cons] at unseen differ ⊢
      rcases List.pairwise_cons.mp differ with ⟨new, rest⟩
      rw [firstOccurrences, if_neg (unseen x List.mem_cons_self), List.take_succ_cons]
      refine congrArg _ (ih (fun y member => ?_) rest)
      rw [List.map_append, List.mem_append, List.map_singleton, List.mem_singleton]
      rintro (earlier | same)
      · exact unseen y (List.mem_cons_of_mem _ member) earlier
      · exact new y member same.symm

theorem firstOccurrences_append {ys : List α} :
    firstOccurrences key before (xs ++ ys) =
      firstOccurrences key before xs ++ firstOccurrences key (before ++ xs) ys := by
  induction xs generalizing before with
  | nil => rw [List.nil_append, List.append_nil, firstOccurrences, List.nil_append]
  | cons x xs ih =>
    rw [List.cons_append, firstOccurrences, firstOccurrences, ih, List.append_assoc,
      List.singleton_append]
    split_ifs
    · rfl
    · rw [List.cons_append]

/-- **Of different keys those are left that are not before.** -/
theorem firstOccurrences_of_pairwise (differ : xs.Pairwise fun x y => key x ≠ key y) :
    firstOccurrences key before xs = xs.filter fun x => key x ∉ before.map key := by
  induction xs generalizing before with
  | nil => rfl
  | cons x xs ih =>
    rcases List.pairwise_cons.mp differ with ⟨new, rest⟩
    have same : (xs.filter fun y => key y ∉ (before ++ [x]).map key) =
        xs.filter fun y => key y ∉ before.map key := by
      refine List.filter_congr fun y member => decide_eq_decide.mpr (not_congr ?_)
      rw [List.map_append, List.mem_append, List.map_singleton, List.mem_singleton]
      exact or_iff_left (new y member).symm
    rw [firstOccurrences, ih rest, same]
    split_ifs with seen
    · rw [List.filter_cons_of_neg (by simpa using seen)]
    · rw [List.filter_cons_of_pos (by simpa using seen)]

end GpuHotSpot.Lib.FirstOccurrences
