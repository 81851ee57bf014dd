import Mathlib.Data.List.Basic

/-!
# Lists taken apart at an element

Statements about every element of a list and the elements before it.

* `forall_split_cons`, `forall_split_concat`: the rules of the first and of the last element.
-/

namespace GpuHotSpot

variable {A : Type} {a : A} {l : List A} {Q : List A → A → Prop}

/-- A list taken apart at each of its elements, from the front. -/
theorem forall_split_cons :
    (∀ before b after, a :: l = before ++ b :: after → Q before b) ↔
      Q [] a ∧ ∀ before b after, l = before ++ b :: after → Q (a :: before) b := by
  constructor
  · exact fun all => ⟨all [] a l rfl, fun before b after same => all (a :: before) b after
      (congrArg _ same)⟩
  · rintro ⟨first, rest⟩ before b after same
    cases before with
    | nil =>
      cases same
      exact first
    | cons a' before =>
      obtain ⟨rfl, tail⟩ := List.cons.inj same
      exact rest before b after tail

/-- A list taken apart at each of its elements, from the end. -/
theorem forall_split_concat :
    (∀ before b after, l ++ [a] = before ++ b :: after → Q before b) ↔
      (∀ before b after, l = before ++ b :: after → Q before b) ∧ Q l a := by
  constructor
  · refine fun all => ⟨fun before b after same => all before b (after ++ [a]) ?_, all l a [] rfl⟩
    rw [same, List.append_assoc, List.cons_append]
  · rintro ⟨rest, last⟩ before b after same
    rcases List.eq_nil_or_concat after with rfl | ⟨after, c, rfl⟩
    · obtain ⟨rfl, single⟩ := List.append_inj' same rfl
      cases single
      exact last
    · have regroup : l ++ [a] = (before ++ b :: after) ++ [c] := by
        rw [same, List.append_assoc, List.cons_append, List.concat_eq_append]
      exact rest before b after (List.append_inj' regroup rfl).1

end GpuHotSpot
