import Mathlib.Data.List.Induction

/-!
# Machines

A machine takes one event after the other; a step may fail, and a run ends there.

* `Ensures`: what holds when a computation succeeds and what holds when it fails.
* `Ensures.bind`, `Ensures.foldlM`: the rules of sequences and of loops.
* `ensures_runEvents`: what every step preserves holds after every run.
* `Along`: a condition on every step of a run; `Along.ensures_runEvents` is its rule.
* `exists_runEvents_iff_along`, `along_iff_reached`, `along_iff_prefixes`: when a condition on the
  steps is exact.
* `runLog`: what the steps of a run log; `Along.ensures_runLog` is its rule.
-/

namespace GpuHotSpot

variable {A B E F S : Type}

/-! ## Steps that may fail -/

namespace Fallible

@[simp] theorem ok_bind (a : A) (f : A → Except F B) : (Except.ok a >>= f) = f a := rfl

@[simp] theorem error_bind (e : F) (f : A → Except F B) :
    ((Except.error e : Except F A) >>= f) = Except.error e := rfl

/-- A sequence of steps succeeds through each of them. -/
theorem bind_ok {x : Except F A} {f : A → Except F B} {b : B} :
    x >>= f = .ok b ↔ ∃ a, x = .ok a ∧ f a = .ok b := by
  cases x with
  | error e => simp
  | ok a => simp

/-- The computation succeeds with `post`, or fails with `fails`. -/
def Ensures (post : A → Prop) (fails : F → Prop) : Except F A → Prop
  | .ok a => post a
  | .error e => fails e

variable {post post' : A → Prop} {fails : F → Prop} {x : Except F A}

@[simp] theorem ensures_ok {a : A} : Ensures post fails (.ok a) ↔ post a := Iff.rfl

@[simp] theorem ensures_error {e : F} : Ensures post fails (.error e) ↔ fails e := Iff.rfl

/-- Nothing is asked of the computation. -/
theorem ensures_any (x : Except F A) : Ensures (fun _ => True) (fun _ => True) x := by
  cases x <;> trivial

theorem Ensures.mono (run : Ensures post fails x) (weaker : ∀ a, post a → post' a) :
    Ensures post' fails x := by
  cases x with
  | error e => exact run
  | ok a => exact weaker a run

theorem Ensures.imp {fails' : F → Prop} (run : Ensures post fails x)
    (weaker : ∀ a, post a → post' a) (other : ∀ e, fails e → fails' e) :
    Ensures post' fails' x := by
  cases x with
  | error e => exact other e run
  | ok a => exact weaker a run

theorem Ensures.and (run : Ensures post fails x) (other : Ensures post' fails x) :
    Ensures (fun a => post a ∧ post' a) fails x := by
  cases x with
  | error e => exact run
  | ok a => exact ⟨run, other⟩

/-- A step and what follows it. -/
theorem Ensures.bind {post : B → Prop} {mid : A → Prop} {f : A → Except F B}
    (first : Ensures mid fails x) (rest : ∀ a, mid a → Ensures post fails (f a)) :
    Ensures post fails (x >>= f) := by
  cases x with
  | error e => exact first
  | ok a => exact rest a first

/-- What a computation gives can be tested. -/
def decidableOk {p : A → Prop} [DecidablePred p] :
    ∀ x : Except F A, Decidable (∀ a, x = .ok a → p a)
  | .ok a => decidable_of_iff (p a)
      ⟨fun holds _ same => Except.ok.inj same ▸ holds, fun all => all a rfl⟩
  | .error _ => .isTrue fun _ same => Except.noConfusion rfl rfl (heq_of_eq same)

theorem Ensures.of_ok (run : Ensures post fails x) {a : A} (ran : x = .ok a) : post a := by
  rw [ran] at run
  exact run

/-- A loop over a list keeps what its body keeps. -/
theorem Ensures.foldlM {inv : S → Prop} {body : S → A → Except F S} {l : List A}
    (preserved : ∀ s, ∀ a ∈ l, inv s → Ensures inv fails (body s a)) {s : S} (initial : inv s) :
    Ensures inv fails (l.foldlM body s) := by
  induction l generalizing s with
  | nil => exact initial
  | cons a l ih =>
    rw [List.foldlM_cons]
    refine (preserved s a List.mem_cons_self initial).bind fun t now => ?_
    exact ih (fun s a member => preserved s a (List.mem_cons_of_mem _ member)) now

end Fallible

open Fallible

/-! ## Runs -/

/-- The state after the events, if no step failed. -/
def runEvents (step : E → S → Except F S) : List E → S → Except F S
  | [], s => .ok s
  | e :: es, s => step e s >>= runEvents step es

section Runs

variable {step : E → S → Except F S} {s : S} {es : List E}

theorem runEvents_append (es fs : List E) (s : S) :
    runEvents step (es ++ fs) s = runEvents step es s >>= runEvents step fs := by
  induction es generalizing s with
  | nil => rfl
  | cons e es ih =>
    simp only [List.cons_append, runEvents, bind_assoc]
    exact bind_congr ih

theorem runEvents_concat (e : E) :
    runEvents step (es ++ [e]) s = runEvents step es s >>= step e := by
  rw [runEvents_append]
  refine bind_congr fun t => ?_
  rw [runEvents]
  cases step e t <;> rfl

/-- **Invariants.** What holds at the start and is preserved by every step holds after every run. -/
theorem ensures_runEvents {inv : S → Prop} {fails : F → Prop}
    (preserved : ∀ e s, inv s → Ensures inv fails (step e s)) (initial : inv s) :
    Ensures inv fails (runEvents step es s) := by
  induction es generalizing s with
  | nil => exact initial
  | cons e es ih => exact (preserved e s initial).bind fun t now => ih now

/-- Every step of the run meets the condition, which may look at the state before the step. -/
def Along (cond : S → E → Prop) (step : E → S → Except F S) : List E → S → Prop
  | [], _ => True
  | e :: es, s => cond s e ∧ ∀ t, step e s = .ok t → Along cond step es t

variable {cond : S → E → Prop}

instance Along.decidable [∀ s e, Decidable (cond s e)] :
    ∀ (es : List E) (s : S), Decidable (Along cond step es s)
  | [], _ => .isTrue trivial
  | e :: es, s =>
    have : Decidable (∀ t, step e s = .ok t → Along cond step es t) :=
      have : DecidablePred (Along cond step es) := Along.decidable es
      decidableOk (step e s)
    inferInstanceAs (Decidable (_ ∧ _))

theorem Along.and {cond' : S → E → Prop} (along : Along cond step es s)
    (along' : Along cond' step es s) : Along (fun s e => cond s e ∧ cond' s e) step es s := by
  induction es generalizing s with
  | nil => trivial
  | cons e es ih =>
    exact ⟨⟨along.1, along'.1⟩, fun t moved => ih (along.2 t moved) (along'.2 t moved)⟩

theorem Along.of_forall (always : ∀ e ∈ es, ∀ t, cond t e) : Along cond step es s := by
  induction es generalizing s with
  | nil => trivial
  | cons e es ih =>
    exact ⟨always e List.mem_cons_self s,
      fun t _ => ih fun e member => always e (List.mem_cons_of_mem _ member)⟩

/-- A part of a run from its start. -/
theorem Along.of_append {fs : List E} (along : Along cond step (es ++ fs) s) :
    Along cond step es s := by
  induction es generalizing s with
  | nil => trivial
  | cons e es ih => exact ⟨along.1, fun t moved => ih (along.2 t moved)⟩

/-- A part of a run to its end. -/
theorem Along.after {fs : List E} {t : S} (along : Along cond step (es ++ fs) s)
    (ran : runEvents step es s = .ok t) : Along cond step fs t := by
  induction es generalizing s with
  | nil =>
    cases ran
    exact along
  | cons e es ih =>
    obtain ⟨u, first, rest⟩ := bind_ok.1 ran
    exact ih (along.2 u first) rest

/-- Two conditions that agree where an invariant holds. -/
theorem Along.congr {cond' : S → E → Prop} {inv : S → Prop}
    (preserved : ∀ e s t, inv s → step e s = .ok t → inv t)
    (agree : ∀ e s, inv s → (cond s e ↔ cond' s e)) (initial : inv s) :
    Along cond step es s ↔ Along cond' step es s := by
  induction es generalizing s with
  | nil => exact Iff.rfl
  | cons e es ih =>
    rw [Along, Along, agree e s initial]
    refine and_congr_right fun _ => forall_congr' fun t => forall_congr' fun moved => ?_
    exact ih (preserved e s t initial moved)

/-- A condition that gives another one where an invariant holds, and keeps the invariant. -/
theorem Along.imp {cond' : S → E → Prop} {inv : S → Prop} (along : Along cond step es s)
    (gives : ∀ e s, cond s e → inv s → cond' s e)
    (preserved : ∀ e s t, cond s e → inv s → step e s = .ok t → inv t) (initial : inv s) :
    Along cond' step es s := by
  induction es generalizing s with
  | nil => trivial
  | cons e es ih =>
    refine ⟨gives e s along.1 initial, fun t moved => ?_⟩
    exact ih (along.2 t moved) (preserved e s t along.1 initial moved)

/-- **Conditional invariants.** What every step that meets the condition preserves holds after
every run all of whose steps meet it. -/
theorem Along.ensures_runEvents {inv : S → Prop} {fails : F → Prop} (along : Along cond step es s)
    (preserved : ∀ e s, cond s e → inv s → Ensures inv fails (step e s)) (initial : inv s) :
    Ensures inv fails (runEvents step es s) := by
  induction es generalizing s with
  | nil => exact initial
  | cons e es ih =>
    have first := preserved e s along.1 initial
    have later := along.2
    rw [runEvents]
    cases moved : step e s with
    | error f =>
      rw [moved] at first
      exact first
    | ok t =>
      rw [moved] at first
      exact ih (later t moved) first

/-- **Runs that end.** If a step succeeds exactly where the condition holds, a run succeeds exactly
if each of its steps meets it. -/
theorem exists_runEvents_iff_along (exact : ∀ e s, (∃ t, step e s = .ok t) ↔ cond s e) :
    (∃ t, runEvents step es s = .ok t) ↔ Along cond step es s := by
  induction es generalizing s with
  | nil => exact iff_of_true ⟨s, rfl⟩ trivial
  | cons e es ih =>
    rw [Along, ← exact e s]
    constructor
    · intro ran
      obtain ⟨u, ran⟩ := ran
      obtain ⟨t, moved, rest⟩ := bind_ok.1 ran
      refine ⟨⟨t, moved⟩, fun t' moved' => ?_⟩
      rw [Except.ok.inj (moved'.symm.trans moved)]
      exact ih.1 ⟨u, rest⟩
    · rintro ⟨⟨t, moved⟩, along⟩
      obtain ⟨u, rest⟩ := ih.2 (along t moved)
      exact ⟨u, bind_ok.2 ⟨t, moved, rest⟩⟩

/-- **Exact conditions.** If, of the states with an invariant, those are left good by a step that
meet the condition, and a step that fails meets it, then a run is good as far as it goes exactly if
each of its steps meets it. -/
theorem along_iff_reached {inv good : S → Prop}
    (preserved : ∀ e s t, inv s → step e s = .ok t → inv t)
    (exact : ∀ e s t, inv s → good s → step e s = .ok t → (good t ↔ cond s e))
    (failing : ∀ e s f, inv s → step e s = .error f → cond s e)
    (invariant : inv s) (initial : good s) :
    (∀ pre, pre <+: es → ∀ t, runEvents step pre s = .ok t → good t) ↔ Along cond step es s := by
  induction es generalizing s with
  | nil =>
    refine iff_of_true (fun pre isPrefix t ran => ?_) trivial
    rw [List.prefix_nil.1 isPrefix] at ran
    cases ran
    exact initial
  | cons e es ih =>
    constructor
    · intro always
      have now : ∀ t, step e s = .ok t → good t := fun t moved => by
        refine always [e] (List.prefix_append [e] es) t ?_
        rw [runEvents, moved]
        rfl
      refine ⟨?_, fun t moved => ?_⟩
      · cases moved : step e s with
        | error f => exact failing e s f invariant moved
        | ok t => exact (exact e s t invariant initial moved).1 (now t moved)
      · refine (ih (preserved e s t invariant moved) (now t moved)).1 fun pre isPrefix u ran => ?_
        refine always (e :: pre) (List.prefix_cons_inj e |>.2 isPrefix) u ?_
        rw [runEvents, moved]
        exact ran
    · intro along pre isPrefix u ran
      cases pre with
      | nil =>
        cases ran
        exact initial
      | cons f pre =>
        obtain ⟨rfl, rest⟩ := List.cons_prefix_cons.1 isPrefix
        obtain ⟨t, moved, ran⟩ := bind_ok.1 ran
        have now := (exact f s t invariant initial moved).2 along.1
        exact (ih (preserved f s t invariant moved) now).2 (along.2 t moved) pre rest u ran

/-- Exact conditions on steps that do not fail. -/
theorem along_iff_prefixes {inv good : S → Prop}
    (total : ∀ e s, inv s → ∃ t, step e s = .ok t ∧ inv t)
    (exact : ∀ e s t, inv s → good s → step e s = .ok t → (good t ↔ cond s e))
    (invariant : inv s) (initial : good s) :
    (∀ pre, pre <+: es → ∀ t, runEvents step pre s = .ok t → good t) ↔ Along cond step es s := by
  refine along_iff_reached (fun e s t kept moved => ?_) exact (fun e s f kept failed => ?_) invariant
    initial
  · obtain ⟨u, moved', now⟩ := total e s kept
    cases moved.symm.trans moved'
    exact now
  · obtain ⟨u, moved, -⟩ := total e s kept
    exact nomatch failed.symm.trans moved

/-- What the steps of a run log, each in the state before it. -/
def runLog (step : E → S → Except F S) (log : E → S → List A) : List E → S → List A
  | [], _ => []
  | e :: es, s => log e s ++ match step e s with
    | .ok t => runLog step log es t
    | .error _ => []

/-- **Invariants with a log.** What every step that meets the condition preserves, with what it
logs, holds after every run all of whose steps meet it; where a step fails, the log is left. -/
theorem Along.ensures_runLog (along : Along cond step es s) (log : E → S → List A)
    (inv : List A → S → Prop) (post : List A → Prop) (preserved : ∀ e s l, cond s e → inv l s →
      Ensures (inv (l ++ log e s)) (fun _ => post (l ++ log e s)) (step e s))
    {l : List A} (initial : inv l s) :
    Ensures (inv (l ++ runLog step log es s)) (fun _ => post (l ++ runLog step log es s))
      (runEvents step es s) := by
  induction es generalizing s l with
  | nil =>
    rw [runLog, List.append_nil]
    exact initial
  | cons e es ih =>
    have first := preserved e s l along.1 initial
    have later := along.2
    rw [runEvents, runLog]
    cases moved : step e s with
    | error f =>
      rw [moved] at first
      dsimp only
      rw [List.append_nil]
      exact first
    | ok t =>
      rw [moved] at first
      dsimp only
      rw [← List.append_assoc]
      exact ih (later t moved) first

end Runs

end GpuHotSpot
