import Mathlib.Algebra.BigOperators.Group.List.Basic
import Mathlib.Data.List.Forall2

/-!
# Fallible loops

Loops whose body may raise. Element by element, `mapM` collects what a body
returns. A loop may also add to an accumulator what each element alone determines:
`sumM` is the value of such a loop, and it does not depend on how the elements are
ordered or split into lists.

* `mapM_isSome`, `mapM_dominated`: when a loop returns, and how much.
* `foldlM_invariant`, `foldlM_related`: what a loop keeps, and what two loops keep.
* `foldlM_eq_sumM`: a loop with an additive body.
* `sumM_perm`, `sumM_append`, `sumM_flatMap`: reordering and regrouping.
-/

namespace GpuHotSpot

variable {α β M : Type*}

/-! ## Collecting results -/

/-- Running a fallible loop body that is dominated at every element. -/
theorem mapM_dominated {R : β → β → Prop} {f g : α → Option β} {xs : List α}
    (dominated : ∀ x ∈ xs, ∀ y', g x = some y' → ∃ y, f x = some y ∧ R y y') {ys' : List β}
    (run : xs.mapM g = some ys') : ∃ ys, xs.mapM f = some ys ∧ List.Forall₂ R ys ys' := by
  induction xs generalizing ys' with
  | nil =>
    simp only [List.mapM_nil, Option.pure_def, Option.some.injEq] at run ⊢
    exact ⟨[], rfl, run ▸ List.Forall₂.nil⟩
  | cons x xs ih =>
    simp only [List.mapM_cons, Option.bind_eq_bind, Option.bind_eq_some_iff,
      Option.pure_def, Option.some.injEq] at run
    obtain ⟨y', head', zs', tail', rfl⟩ := run
    obtain ⟨y, head, related⟩ := dominated x (by simp) y' head'
    obtain ⟨zs, tail, allRelated⟩ :=
      ih (fun z member => dominated z (List.mem_cons_of_mem _ member)) tail'
    exact ⟨y :: zs, by simp [head, tail], List.Forall₂.cons related allRelated⟩

theorem getElem?_of_mapM {f : α → Option β} {xs : List α} {ys : List β}
    (run : xs.mapM f = some ys) (i : ℕ) : ys[i]? = xs[i]?.bind f := by
  induction xs generalizing ys i with
  | nil => simp_all
  | cons x xs ih =>
    simp only [List.mapM_cons, Option.bind_eq_bind, Option.bind_eq_some_iff,
      Option.pure_def, Option.some.injEq] at run
    obtain ⟨y, head, zs, tail, rfl⟩ := run
    cases i with
    | zero => simp [head]
    | succ i => simpa using ih tail i

/-- What a loop returns are the results of its elements. -/
theorem mem_of_mapM {f : α → Option β} {xs : List α} {ys : List β} (run : xs.mapM f = some ys)
    {y : β} : y ∈ ys ↔ ∃ x ∈ xs, f x = some y := by
  simp only [List.mem_iff_getElem?, getElem?_of_mapM run, Option.bind_eq_some_iff]
  constructor
  · rintro ⟨i, x, here, result⟩
    exact ⟨x, ⟨i, here⟩, result⟩
  · rintro ⟨x, ⟨i, here⟩, result⟩
    exact ⟨i, x, here, result⟩

theorem length_of_mapM {f : α → Option β} {xs : List α} {ys : List β}
    (run : xs.mapM f = some ys) : ys.length = xs.length := by
  induction xs generalizing ys with
  | nil => simp_all
  | cons x xs ih =>
    simp only [List.mapM_cons, Option.bind_eq_bind, Option.bind_eq_some_iff,
      Option.pure_def, Option.some.injEq] at run
    obtain ⟨y, -, zs, tail, rfl⟩ := run
    rw [List.length_cons, List.length_cons, ih tail]

theorem mapM_take {f : α → Option β} {xs : List α} {ys : List β} (run : xs.mapM f = some ys)
    (n : ℕ) : (xs.take n).mapM f = some (ys.take n) := by
  induction xs generalizing ys n with
  | nil => simp_all
  | cons x xs ih =>
    simp only [List.mapM_cons, Option.bind_eq_bind, Option.bind_eq_some_iff,
      Option.pure_def, Option.some.injEq] at run
    obtain ⟨y, head, zs, tail, rfl⟩ := run
    cases n with
    | zero => rfl
    | succ n => simp [head, ih tail n]

/-- A loop whose body returns everywhere, with known results. -/
theorem mapM_eq_map {f : α → Option β} {g : α → β} {xs : List α}
    (returns : ∀ x ∈ xs, f x = some (g x)) : xs.mapM f = some (xs.map g) := by
  induction xs with
  | nil => rfl
  | cons x xs ih =>
    rw [List.mapM_cons, returns x (by simp), ih fun x member => returns x (by simp [member])]
    rfl

/-- A fallible loop whose body never raises does not raise. -/
theorem mapM_isSome {f : α → Option β} {xs : List α}
    (total : ∀ x ∈ xs, (f x).isSome) : (xs.mapM f).isSome := by
  induction xs with
  | nil => rfl
  | cons x xs ih =>
    obtain ⟨y, head⟩ := Option.isSome_iff_exists.mp (total x (by simp))
    obtain ⟨ys, tail⟩ := Option.isSome_iff_exists.mp
      (ih fun z member => total z (List.mem_cons_of_mem _ member))
    simp [head, tail]

/-! ## Keeping an invariant -/

/-- What every step that succeeds preserves holds after a loop that succeeds. -/
theorem foldlM_invariant {ε σ : Type*} {f : σ → α → Except ε σ} (inv : σ → Prop)
    (step : ∀ s a s', inv s → f s a = .ok s' → inv s') {xs : List α} {s s' : σ} (start : inv s)
    (ran : xs.foldlM f s = .ok s') : inv s' := by
  induction xs generalizing s with
  | nil =>
    obtain rfl : s = s' := Except.ok.inj ran
    exact start
  | cons a xs ih =>
    rw [List.foldlM_cons] at ran
    cases next : f s a with
    | error e =>
      rw [next] at ran
      exact nomatch ran
    | ok t =>
      rw [next] at ran
      exact ih (step s a t start next) ran

/-- What the steps of two loops over one list preserve holds between their results. -/
theorem foldlM_related {ε σ : Type*} {f g : σ → α → Except ε σ} (related : σ → σ → Prop)
    {xs : List α}
    (step : ∀ a ∈ xs, ∀ s t s' t', related s t → f s a = .ok s' → g t a = .ok t' → related s' t')
    {s t s' t' : σ} (start : related s t) (ran : xs.foldlM f s = .ok s')
    (ran' : xs.foldlM g t = .ok t') : related s' t' := by
  induction xs generalizing s t with
  | nil =>
    obtain rfl : s = s' := Except.ok.inj ran
    obtain rfl : t = t' := Except.ok.inj ran'
    exact start
  | cons a xs ih =>
    rw [List.foldlM_cons] at ran ran'
    cases next : f s a with
    | error e =>
      rw [next] at ran
      exact nomatch ran
    | ok s₁ =>
      cases next' : g t a with
      | error e =>
        rw [next'] at ran'
        exact nomatch ran'
      | ok t₁ =>
        rw [next] at ran
        rw [next'] at ran'
        exact ih (fun b member => step b (List.mem_cons_of_mem _ member))
          (step a (by simp) s t s₁ t₁ start next next') ran ran'

/-! ## Adding up effects -/

section Monoid

variable [AddMonoid M]

/-- The sum of what the elements contribute, if all of them contribute something. -/
def sumM (effect : α → Option M) : List α → Option M
  | [] => some 0
  | a :: l => (effect a).bind fun x => (sumM effect l).map (x + ·)

@[simp] theorem sumM_nil (effect : α → Option M) : sumM effect [] = some 0 := rfl

theorem sumM_singleton (effect : α → Option M) (a : α) : sumM effect [a] = effect a := by
  cases found : effect a <;> simp [sumM, found]

theorem sumM_append (effect : α → Option M) (l l' : List α) :
    sumM effect (l ++ l') =
      (sumM effect l).bind fun x => (sumM effect l').map (x + ·) := by
  induction l with
  | nil => cases found : sumM effect l' <;> simp [found]
  | cons a l ih =>
    rw [List.cons_append, sumM, sumM, ih]
    cases effect a <;> cases sumM effect l <;> cases sumM effect l' <;> simp [add_assoc]

/-- What lists contribute is what their elements contribute. -/
theorem sumM_flatMap {effect : β → Option M} {part : α → List β} {whole : α → Option M}
    {l : List α} (regroup : ∀ a ∈ l, whole a = sumM effect (part a)) :
    sumM whole l = sumM effect (l.flatMap part) := by
  induction l with
  | nil => rfl
  | cons a l ih =>
    rw [List.flatMap_cons, sumM_append, sumM, regroup a (by simp),
      ih fun a member => regroup a (List.mem_cons_of_mem _ member)]

/-- A loop whose body adds an effect of the element computes the sum of the effects. -/
theorem foldlM_eq_sumM {step : M → α → Option M} {effect : α → Option M}
    (additive : ∀ m a, step m a = (effect a).map (m + ·)) (l : List α) (m : M) :
    l.foldlM step m = (sumM effect l).map (m + ·) := by
  induction l generalizing m with
  | nil => simp
  | cons a l ih =>
    rw [List.foldlM_cons, additive, sumM]
    cases effect a with
    | none => rfl
    | some x =>
      refine (ih (m + x)).trans ?_
      cases sumM effect l <;> simp [add_assoc]

end Monoid

/-- Effects that commute may come in any order. -/
theorem sumM_perm [AddCommMonoid M] (effect : α → Option M) {l l' : List α} (perm : l.Perm l') :
    sumM effect l = sumM effect l' := by
  induction perm with
  | nil => rfl
  | cons a _ ih => rw [sumM, sumM, ih]
  | swap a b l =>
    simp only [sumM]
    cases effect a <;> cases effect b <;> cases sumM effect l <;> simp [add_left_comm]
  | trans _ _ ih ih' => exact ih.trans ih'

/-- Two effects of each element, added up each for itself. -/
theorem sumM_both [AddCommMonoid M] (effect effect' : α → Option M) (l : List α) :
    sumM (fun a => (effect a).bind fun x => (effect' a).map (x + ·)) l =
      (sumM effect l).bind fun x => (sumM effect' l).map (x + ·) := by
  induction l with
  | nil => simp
  | cons a l ih =>
    simp only [sumM, ih]
    cases effect a <;> cases effect' a <;> cases sumM effect l <;> cases sumM effect' l <;>
      simp [add_add_add_comm]

end GpuHotSpot
