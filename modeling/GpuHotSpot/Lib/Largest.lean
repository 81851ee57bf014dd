import Mathlib.Order.Lattice
import Mathlib.Order.MinMax
import Mathlib.Tactic.SplitIfs

/-!
# Running maxima

The largest of a value and the elements of a list, as a loop computes it.

* `foldl_max_le_iff`, `foldl_max_lt_iff`: bounds of the maximum are bounds of the elements.
* `foldl_keep_spec`: a loop that keeps the last largest element.
* `foldl_larger_eq`, `foldl_smaller_eq`: loops that keep the largest and the smallest value.
-/

namespace GpuHotSpot

variable {α : Type*} [LinearOrder α] {l : List α} {a b : α}

theorem foldl_max_le_iff : l.foldl max a ≤ b ↔ a ≤ b ∧ ∀ x ∈ l, x ≤ b := by
  induction l generalizing a with
  | nil => simp
  | cons x l ih => rw [List.foldl_cons, ih, max_le_iff, List.forall_mem_cons, and_assoc]

theorem foldl_max_lt_iff : l.foldl max a < b ↔ a < b ∧ ∀ x ∈ l, x < b := by
  induction l generalizing a with
  | nil => simp
  | cons x l ih => rw [List.foldl_cons, ih, max_lt_iff, List.forall_mem_cons, and_assoc]

variable {β : Type*} {f : β → α} {best : α × β} {l : List β}

/-- The loop keeps what it started with, or the last of the largest elements. -/
theorem foldl_keep_spec (f : β → α) (l : List β) (best : α × β) :
    (l.foldl (fun best x => if f x ≥ best.1 then (f x, x) else best) best = best ∧
        ∀ y ∈ l, f y < best.1) ∨
      ∃ x ∈ l, l.foldl (fun best x => if f x ≥ best.1 then (f x, x) else best) best = (f x, x) ∧
        best.1 ≤ f x ∧ ∀ y ∈ l, f y ≤ f x := by
  induction l generalizing best with
  | nil => exact .inl ⟨rfl, by simp⟩
  | cons x l ih =>
    rw [List.foldl_cons]
    by_cases larger : f x ≥ best.1
    · rw [if_pos larger]
      rcases ih (f x, x) with ⟨same, less⟩ | ⟨y, member, same, more, most⟩
      · refine .inr ⟨x, List.mem_cons_self, same, larger, List.forall_mem_cons.mpr ⟨le_rfl, ?_⟩⟩
        exact fun y member => (less y member).le
      · exact .inr ⟨y, List.mem_cons_of_mem _ member, same, larger.trans more,
          List.forall_mem_cons.mpr ⟨more, most⟩⟩
    · rw [if_neg larger]
      have smaller : f x < best.1 := not_le.mp larger
      rcases ih best with ⟨same, less⟩ | ⟨y, member, same, more, most⟩
      · exact .inl ⟨same, List.forall_mem_cons.mpr ⟨smaller, less⟩⟩
      · exact .inr ⟨y, List.mem_cons_of_mem _ member, same, more,
          List.forall_mem_cons.mpr ⟨(smaller.trans_le more).le, most⟩⟩

/-- A loop that keeps the larger value ends at the largest. -/
theorem foldl_larger_eq {m top : α} (bounded : m ≤ top) (most : ∀ x ∈ l, f x ≤ top)
    (reached : m = top ∨ ∃ x ∈ l, f x = top) :
    l.foldl (fun m x => if f x > m then f x else m) m = top := by
  induction l generalizing m with
  | nil =>
    rcases reached with same | ⟨x, member, -⟩
    · exact same
    · cases member
  | cons x l ih =>
    obtain ⟨first, others⟩ := List.forall_mem_cons.mp most
    rw [List.foldl_cons]
    split_ifs with larger
    · refine ih first others ?_
      rcases reached with same | ⟨y, member, same⟩
      · exact .inl (first.antisymm (same ▸ larger.le))
      · rcases List.mem_cons.mp member with rfl | later
        · exact .inl same
        · exact .inr ⟨y, later, same⟩
    · refine ih bounded others ?_
      rcases reached with same | ⟨y, member, same⟩
      · exact .inl same
      · rcases List.mem_cons.mp member with rfl | later
        · exact .inl (bounded.antisymm (same ▸ not_lt.mp larger))
        · exact .inr ⟨y, later, same⟩

/-- A loop that keeps the smaller value ends at the smallest. -/
theorem foldl_smaller_eq {m bottom : α} (bounded : bottom ≤ m) (least : ∀ x ∈ l, bottom ≤ f x)
    (reached : m = bottom ∨ ∃ x ∈ l, f x = bottom) :
    l.foldl (fun m x => if f x < m then f x else m) m = bottom :=
  @foldl_larger_eq αᵒᵈ _ β f l m bottom bounded least reached

end GpuHotSpot
