import Mathlib.Data.List.Induction
import Mathlib.Data.List.Perm.Basic
import Mathlib.Data.List.Nodup

/-!
# Recency

A list of elements, the one that was used last first. A use moves an element to the front.

* `idxOf_touch`: the places after a use.
* `recency_perm`, `idxOf_recency_lt`: after a sequence of uses the list is a permutation of the one
  at the start, in the order of the last uses.
* `getElem?_touch_succ`, `getElem?_touch_of_lt`: what is at each place after a use.
-/

namespace GpuHotSpot.Lib.Recency

variable {α : Type*} [DecidableEq α] {a v w : α} {l init uses : List α} {i j : ℕ}

/-- An element is used. -/
def touch (a : α) (l : List α) : List α := a :: l.erase a

/-- The list after a sequence of uses. -/
def recency (uses init : List α) : List α := uses.foldl (fun l a => touch a l) init

@[simp] theorem recency_nil : recency [] init = init := rfl

@[simp] theorem recency_cons : recency (a :: uses) init = recency uses (touch a init) := rfl

@[simp] theorem recency_append (uses uses' init : List α) :
    recency (uses ++ uses') init = recency uses' (recency uses init) :=
  List.foldl_append

/-! ## Which elements there are -/

theorem touch_perm (member : a ∈ l) : (touch a l).Perm l :=
  (List.perm_cons_erase member).symm

theorem nodup_touch (nodup : l.Nodup) : (touch a l).Nodup :=
  List.nodup_cons.mpr ⟨nodup.not_mem_erase, nodup.erase a⟩

theorem length_touch_le (a : α) (l : List α) : (touch a l).length ≤ l.length + 1 :=
  Nat.succ_le_succ List.length_erase_le

theorem recency_perm (known : ∀ a ∈ uses, a ∈ init) : (recency uses init).Perm init := by
  induction uses generalizing init with
  | nil => exact .rfl
  | cons a uses ih =>
    have moved := touch_perm (known a List.mem_cons_self)
    have rest (b : α) (member : b ∈ uses) : b ∈ touch a init :=
      moved.mem_iff.mpr (known b (List.mem_cons_of_mem a member))
    exact (ih rest).trans moved

/-! ## In which order they are -/

theorem idxOf_erase (other : v ≠ a) : (l.erase a).idxOf v =
    if l.idxOf a < l.idxOf v then l.idxOf v - 1 else l.idxOf v := by
  induction l with
  | nil => rfl
  | cons x l ih =>
    by_cases first : x = a
    · subst first
      rw [List.erase_cons_head, List.idxOf_cons_self, List.idxOf_cons_ne l other.symm,
        if_pos (Nat.succ_pos _), Nat.succ_sub_one]
    · rw [List.erase_cons_tail (by simpa using first), List.idxOf_cons_ne l first]
      by_cases here : x = v
      · subst here
        rw [List.idxOf_cons_self, List.idxOf_cons_self, if_neg (Nat.not_lt_zero _)]
      · rw [List.idxOf_cons_ne _ here, List.idxOf_cons_ne l here, ih]
        split
        · next before =>
            rw [if_pos (Nat.succ_lt_succ before)]
            omega
        · next after => rw [if_neg fun before => after (Nat.lt_of_succ_lt_succ before)]

/-- **The places after a use:** those before the element are one further. -/
theorem idxOf_touch (member : v ∈ l) : (touch a l).idxOf v =
    if v = a then 0 else if l.idxOf v < l.idxOf a then l.idxOf v + 1 else l.idxOf v := by
  by_cases same : v = a
  · rw [if_pos same, same, touch, List.idxOf_cons_self]
  · have differ : l.idxOf v ≠ l.idxOf a := fun equal => same ((List.idxOf_inj member).mp equal)
    rw [if_neg same, touch, List.idxOf_cons_ne _ (Ne.symm same), idxOf_erase same]
    split
    · next after =>
        rw [if_neg (Nat.not_lt_of_gt after)]
        omega
    · next before => rw [if_pos (by omega)]

/-- A use of an element leaves the order of two others. -/
theorem idxOf_touch_lt (first : v ∈ l) (second : w ∈ l) (vOther : v ≠ a) (wOther : w ≠ a) :
    (touch a l).idxOf v < (touch a l).idxOf w ↔ l.idxOf v < l.idxOf w := by
  have vDiffers : l.idxOf v ≠ l.idxOf a := fun same => vOther ((List.idxOf_inj first).mp same)
  have wDiffers : l.idxOf w ≠ l.idxOf a := fun same => wOther ((List.idxOf_inj second).mp same)
  rw [idxOf_touch first, idxOf_touch second, if_neg vOther, if_neg wOther]
  split <;> split <;> omega

/-- **The order of the last uses.** The elements are in the order in which they are met when the
uses are read backwards, and what is not used is behind. -/
theorem idxOf_recency_lt (known : ∀ a ∈ uses, a ∈ init) (first : v ∈ init) (second : w ∈ init) :
    (recency uses init).idxOf v < (recency uses init).idxOf w ↔
      (uses.reverse ++ init).idxOf v < (uses.reverse ++ init).idxOf w := by
  induction uses using List.reverseRecOn with
  | nil => exact Iff.rfl
  | append_singleton uses a ih =>
    have before (b : α) (member : b ∈ uses) : b ∈ init :=
      known b (List.mem_append_left [a] member)
    have perm := recency_perm before
    have vThere := perm.mem_iff.mpr first
    have wThere := perm.mem_iff.mpr second
    rw [recency_append, recency_cons, recency_nil, List.reverse_concat, List.cons_append]
    by_cases vLast : a = v
    · subst vLast
      rw [touch, List.idxOf_cons_self, List.idxOf_cons_self]
      by_cases wLast : a = w
      · rw [wLast, List.idxOf_cons_self, List.idxOf_cons_self]
      · rw [List.idxOf_cons_ne _ wLast, List.idxOf_cons_ne _ wLast]
        exact iff_of_true (Nat.succ_pos _) (Nat.succ_pos _)
    · by_cases wLast : a = w
      · subst wLast
        rw [touch, List.idxOf_cons_self, List.idxOf_cons_self]
        exact iff_of_false (Nat.not_lt_zero _) (Nat.not_lt_zero _)
      · rw [idxOf_touch_lt vThere wThere (Ne.symm vLast) (Ne.symm wLast),
          List.idxOf_cons_ne _ vLast, List.idxOf_cons_ne _ wLast, Nat.succ_lt_succ_iff]
        exact ih before

/-! ## What is at each place -/

/-- The elements before the one that is used are one place further. -/
theorem getElem?_touch_succ (absent : ∀ j ≤ i, l[j]? ≠ some a) :
    (touch a l)[i + 1]? = l[i]? := by
  rw [touch, List.getElem?_cons_succ]
  induction l generalizing i with
  | nil => rfl
  | cons x l ih =>
    have first : x ≠ a := fun same => absent 0 (Nat.zero_le i) (congrArg some same)
    rw [List.erase_cons_tail (by simpa using first)]
    cases i with
    | zero => rfl
    | succ i => exact ih fun j near => absent (j + 1) (Nat.succ_le_succ near)

/-- The elements behind the one that is used stay. -/
theorem getElem?_touch_of_lt (nodup : l.Nodup) (here : l[i]? = some a) (behind : i < j) :
    (touch a l)[j]? = l[j]? := by
  obtain ⟨k, rfl⟩ : ∃ k, j = k + 1 := ⟨j - 1, by omega⟩
  have inside : i < l.length := (List.getElem?_eq_some_iff.mp here).1
  have place : l.idxOf a = i := by
    rw [← (List.getElem?_eq_some_iff.mp here).2]
    exact nodup.idxOf_getElem i inside
  rw [touch, List.getElem?_cons_succ, List.erase_eq_eraseIdx_of_idxOf place, List.getElem?_eraseIdx,
    if_neg (by omega)]

end GpuHotSpot.Lib.Recency
