import Mathlib.Data.List.Nodup
import Mathlib.Data.List.Perm.Basic

/-!
# Operations with a footprint

A state has parts, and every operation owns one of them: it leaves the other parts
alone, and what it puts into its own one depends on nothing but that part.
Operations that own different parts then do not see one another.

* `Footprint.same_run_of_mem`: in a run of operations with different owners, a part
  is what its owner alone would have put there.
* `Footprint.run_perm`: such a run may be permuted.
-/

namespace GpuHotSpot

/-- Operations `ι` on states `σ`, each of which works on one of the parts `κ`. Two states are the
same on a part, or they are not. -/
structure Footprint (σ ι κ : Type*) where
  act : ι → σ → σ
  owner : ι → κ
  same : κ → σ → σ → Prop
  equivalence : ∀ k, Equivalence (same k)
  own : ∀ i s t, same (owner i) s t → same (owner i) (act i s) (act i t)
  other : ∀ i k s, owner i ≠ k → same k (act i s) s

namespace Footprint

variable {σ ι κ : Type*} (F : Footprint σ ι κ)

/-- The operations of a list, one after the other. -/
def run (is : List ι) (s : σ) : σ := is.foldl (fun s i => F.act i s) s

@[simp] theorem run_nil (s : σ) : F.run [] s = s := rfl

@[simp] theorem run_cons (i : ι) (is : List ι) (s : σ) :
    F.run (i :: is) s = F.run is (F.act i s) := rfl

/-- A part that nobody in a list owns stays as it is. -/
theorem same_run_of_notMem {is : List ι} {k : κ} (foreign : k ∉ is.map F.owner) (s : σ) :
    F.same k (F.run is s) s := by
  induction is generalizing s with
  | nil => exact (F.equivalence k).refl s
  | cons i is ih =>
    rw [List.map_cons, List.mem_cons, not_or] at foreign
    exact (F.equivalence k).trans (ih foreign.2 _) (F.other i k s (Ne.symm foreign.1))

/-- **Owners.** Among operations with different owners, a part is what its owner makes of the state
at the start. -/
theorem same_run_of_mem {is : List ι} (owners : (is.map F.owner).Nodup) {i : ι} (member : i ∈ is)
    (s : σ) : F.same (F.owner i) (F.run is s) (F.act i s) := by
  induction is generalizing s with
  | nil => cases member
  | cons j is ih =>
    rw [List.map_cons, List.nodup_cons] at owners
    rw [run_cons]
    rcases List.mem_cons.mp member with rfl | later
    · exact F.same_run_of_notMem owners.1 _
    · have foreign : F.owner j ≠ F.owner i := fun same =>
        owners.1 (same ▸ List.mem_map_of_mem later)
      exact (F.equivalence _).trans (ih owners.2 later _) (F.own i _ _ (F.other j _ s foreign))

/-- **Order.** Operations with different owners may be permuted. -/
theorem run_perm (separate : ∀ s t, (∀ k, F.same k s t) → s = t) {is js : List ι}
    (perm : is.Perm js) (owners : (is.map F.owner).Nodup) (s : σ) : F.run is s = F.run js s := by
  have owners' : (js.map F.owner).Nodup := (perm.map F.owner).nodup_iff.mp owners
  refine separate _ _ fun k => ?_
  by_cases owned : k ∈ is.map F.owner
  · obtain ⟨i, member, rfl⟩ := List.mem_map.mp owned
    exact (F.equivalence _).trans (F.same_run_of_mem owners member s)
      ((F.equivalence _).symm (F.same_run_of_mem owners' (perm.mem_iff.mp member) s))
  · have owned' : k ∉ js.map F.owner := fun there => owned ((perm.map F.owner).mem_iff.mpr there)
    exact (F.equivalence _).trans (F.same_run_of_notMem owned s)
      ((F.equivalence _).symm (F.same_run_of_notMem owned' s))

end Footprint

end GpuHotSpot
