import Mathlib

/-!
# Segments

Lists one after the other in one array, and for each of them the numbers of its places.

* `segments_flatten`: together the numbers are those of the array.
* `segments_read`: each list is read back at its numbers.
-/

namespace GpuHotSpot

/-- Consecutive numbers from `first` on, as many in each list as said. -/
def segments (first : ℕ) : List ℕ → List (List ℕ)
  | [] => []
  | n :: ns => List.range' first n :: segments (first + n) ns

variable {α : Type} {first : ℕ}

@[simp] theorem segments_length (ns : List ℕ) : (segments first ns).length = ns.length := by
  induction ns generalizing first with
  | nil => rfl
  | cons n ns ih => rw [segments, List.length_cons, ih, List.length_cons]

theorem segments_flatten (ns : List ℕ) :
    (segments first ns).flatten = List.range' first ns.sum := by
  induction ns generalizing first with
  | nil => rfl
  | cons n ns ih =>
    rw [segments, List.flatten_cons, ih, List.sum_cons, List.range'_append_1]

/-- **Reading back.** A list at the numbers of its places. -/
theorem segments_read (before : List α) (lists : List (List α)) :
    (segments before.length (lists.map List.length)).map
        (fun row => row.map fun c => (before ++ lists.flatten)[c]?) =
      lists.map fun l => l.map some := by
  induction lists generalizing before with
  | nil => rfl
  | cons l lists ih =>
    have rest := ih (before ++ l)
    rw [List.length_append, List.append_assoc] at rest
    rw [List.map_cons, segments, List.map_cons, List.flatten_cons, rest, List.map_cons]
    congr 1
    refine List.ext_getElem (by simp) fun i inRow inList => ?_
    rw [List.length_map, List.length_range'] at inRow
    simp only [List.getElem_map, List.getElem_range', one_mul]
    rw [List.getElem?_append_right (Nat.le_add_right _ _), Nat.add_sub_cancel_left,
      List.getElem?_append_left inRow, List.getElem?_eq_getElem inRow]

theorem segments_getD (lists : List (List α)) (d : α) (i : ℕ) :
    ((segments 0 (lists.map List.length)).getD i []).map (fun c => lists.flatten.getD c d) =
      lists.getD i [] := by
  have read := congrArg (fun rows => rows[i]?) (segments_read [] lists)
  simp only [List.length_nil, List.nil_append, List.getElem?_map] at read
  rw [List.getD_eq_getElem?_getD, List.getD_eq_getElem?_getD]
  cases row : (segments 0 (lists.map List.length))[i]? with
  | none =>
    rw [row] at read
    cases list : lists[i]? with
    | none => rfl
    | some l =>
      rw [list] at read
      cases read
  | some cs =>
    rw [row] at read
    cases list : lists[i]? with
    | none =>
      rw [list] at read
      cases read
    | some l =>
      rw [list] at read
      have same := congrArg (List.map fun a => a.getD d) (Option.some.inj read)
      simpa [Function.comp_def, List.getD_eq_getElem?_getD] using same

theorem segments_nodup (ns : List ℕ) : (segments first ns).flatten.Nodup := by
  rw [segments_flatten]
  exact List.nodup_range'

/-- A number of the array is in the list of one place. -/
theorem mem_segments (ns : List ℕ) (c : ℕ) :
    (∃ i < ns.length, c ∈ (segments 0 ns).getD i []) ↔ c < ns.sum := by
  have flat : c ∈ (segments 0 ns).flatten ↔ c < ns.sum := by
    rw [segments_flatten, List.mem_range'_1]
    omega
  have length : (segments 0 ns).length = ns.length := segments_length ns
  rw [← flat, List.mem_flatten]
  constructor
  · rintro ⟨i, inside, member⟩
    rw [← length] at inside
    rw [List.getD_eq_getElem _ _ inside] at member
    exact ⟨_, List.getElem_mem inside, member⟩
  · rintro ⟨row, member, inside⟩
    obtain ⟨i, iLt, rfl⟩ := List.getElem_of_mem member
    refine ⟨i, length ▸ iLt, ?_⟩
    rwa [List.getD_eq_getElem _ _ iLt]

end GpuHotSpot
