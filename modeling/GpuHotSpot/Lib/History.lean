import Mathlib.Data.List.Basic

/-!
# Histories

A history lists what happened, oldest first. `Justified ok` says that every entry is
allowed by the entries in front of it.

* `justified_concat`: one more entry.
* `everyOther`: what a loop visits that erases an element at every index and does
  not hold the index back.
-/

namespace GpuHotSpot

variable {E : Type*} {ok : List E → E → Prop} {history more : List E}

/-- Every entry is allowed by what happened before. -/
def Justified (ok : List E → E → Prop) (history : List E) : Prop :=
  ∀ before entry after, history = before ++ entry :: after → ok before entry

theorem justified_nil : Justified ok [] := by
  intro before entry after split
  simp at split

theorem justified_concat {entry : E} :
    Justified ok (history ++ [entry]) ↔ Justified ok history ∧ ok history entry := by
  constructor
  · intro justified
    refine ⟨fun before e after split => ?_, justified history entry [] rfl⟩
    exact justified before e (after ++ [entry]) (by simp [split])
  · intro ⟨justified, last⟩ before e after split
    rcases List.eq_nil_or_concat after with rfl | ⟨after', last', rfl⟩
    · obtain ⟨rfl, same⟩ := List.append_inj' split rfl
      cases same
      exact last
    · rw [List.concat_eq_append, ← List.cons_append, ← List.append_assoc] at split
      exact justified before e after' (List.append_inj' split rfl).1

theorem Justified.of_append (justified : Justified ok (history ++ more)) : Justified ok history :=
  fun before entry after split => justified before entry (after ++ more) (by simp [split])

/-- The entries at even positions. -/
def everyOther : List E → List E
  | [] => []
  | [e] => [e]
  | e :: _ :: rest => e :: everyOther rest

theorem everyOther_cons (e : E) (rest : List E) :
    everyOther (e :: rest) = e :: everyOther (rest.drop 1) := by
  cases rest <;> rfl

theorem mem_of_mem_everyOther {e : E} : ∀ {l : List E}, e ∈ everyOther l → e ∈ l
  | [], member => member
  | [_], member => member
  | head :: next :: rest, member => by
    rcases List.mem_cons.mp member with rfl | later
    · exact List.mem_cons_self
    · exact List.mem_cons_of_mem _ (List.mem_cons_of_mem _ (mem_of_mem_everyOther later))

end GpuHotSpot
