import Mathlib.Combinatorics.Hall.Finite
import Mathlib.Data.List.Forall2

/-!
# Assignments

Requests that each accept some of finitely many resources, and get one of their own.

* `Assignable`: the requests of a list can be served at the same time.
* `assignable_iff`: Hall's condition, for lists.
-/

namespace GpuHotSpot

variable {C P : Type} [DecidableEq P] {accepts : C → Finset P} {l m : List C}

/-- The requests get pairwise distinct resources, each one that it accepts. -/
def Assignable (accepts : C → Finset P) (l : List C) : Prop :=
  ∃ given : List P, given.Nodup ∧ List.Forall₂ (fun c p => p ∈ accepts c) l given

/-- The elements of a list with a property, counted by their positions. -/
theorem card_filter_get (l : List C) (p : C → Prop) [DecidablePred p] :
    (Finset.univ.filter fun i : Fin l.length => p (l.get i)).card = l.countP fun c => p c := by
  have positions : (Finset.univ.filter fun i : Fin l.length => p (l.get i)) =
      ((List.finRange l.length).filter fun i => p (l.get i)).toFinset := by
    ext i
    simp
  rw [positions, List.toFinset_card_of_nodup ((List.nodup_finRange _).filter _),
    ← List.countP_eq_length_filter]
  calc (List.finRange l.length).countP (fun i => p (l.get i))
    _ = ((List.finRange l.length).map l.get).countP fun c => p c := by
        rw [List.countP_map]
        rfl
    _ = l.countP fun c => p c := by rw [List.map_get_finRange]

theorem countP_le_of_forall₂ {given : List P}
    (serves : List.Forall₂ (fun c p => p ∈ accepts c) l given) (U : Finset P) :
    l.countP (fun c => accepts c ⊆ U) ≤ given.countP (· ∈ U) := by
  induction serves with
  | nil => exact le_rfl
  | @cons c p l given accepted serves ih =>
    rw [List.countP_cons, List.countP_cons]
    by_cases inside : accepts c ⊆ U
    · rw [if_pos (by simpa using inside), if_pos (by simpa using inside accepted)]
      exact Nat.succ_le_succ ih
    · rw [if_neg (by simpa using inside)]
      exact ih.trans (Nat.le_add_right _ _)

/-- **Hall's condition**: no set of resources is all that too many requests accept. -/
theorem assignable_iff :
    Assignable accepts l ↔ ∀ U : Finset P, l.countP (fun c => accepts c ⊆ U) ≤ U.card := by
  constructor
  · rintro ⟨given, nodup, serves⟩ U
    calc l.countP (fun c => accepts c ⊆ U)
      _ ≤ given.countP (· ∈ U) := countP_le_of_forall₂ serves U
      _ = (given.filter (· ∈ U)).toFinset.card := by
          rw [List.toFinset_card_of_nodup (nodup.filter _), List.countP_eq_length_filter]
      _ ≤ U.card := by
          refine Finset.card_le_card fun p member => ?_
          simpa using (List.mem_filter.1 (List.mem_toFinset.1 member)).2
  · intro hall
    have marriage (s : Finset (Fin l.length)) :
        s.card ≤ (s.biUnion fun i => accepts (l.get i)).card := by
      refine le_trans ?_ (hall _)
      calc s.card
        _ ≤ (Finset.univ.filter fun i : Fin l.length =>
              accepts (l.get i) ⊆ s.biUnion fun i => accepts (l.get i)).card := by
            refine Finset.card_le_card fun i member => ?_
            rw [Finset.mem_filter]
            exact ⟨Finset.mem_univ i,
              Finset.subset_biUnion_of_mem (fun i => accepts (l.get i)) member⟩
        _ = _ := card_filter_get l fun c => accepts c ⊆ s.biUnion fun i => accepts (l.get i)
    obtain ⟨f, injective, accepted⟩ :=
      (Finset.all_card_le_biUnion_card_iff_existsInjective' _).1 marriage
    refine ⟨List.ofFn f, List.nodup_ofFn.2 injective, ?_⟩
    rw [List.forall₂_iff_get]
    refine ⟨by simp, fun i low high => ?_⟩
    simpa using accepted ⟨i, low⟩

theorem Assignable.of_sublist (assignable : Assignable accepts m) (sub : l.Sublist m) :
    Assignable accepts l :=
  assignable_iff.2 fun U => sub.countP_le.trans (assignable_iff.1 assignable U)

end GpuHotSpot
