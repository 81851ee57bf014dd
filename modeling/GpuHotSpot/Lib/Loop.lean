import GpuHotSpot.Lib.Machine

/-!
# Loops with a break

A loop whose body may fail, go on, or break. The number of passes is bounded, so that the loop is a
definition by recursion; a loop that counts its passes itself ends before the bound.

* `Ensures.loop`: what each pass keeps, which may look at the number of passes left.
* `LoopAlong`: a condition on every pass that goes on; `LoopAlong.ensures` is its rule.
* `loopLog`: what the passes log; `Ensures.loopLog` is its rule.
-/

namespace GpuHotSpot

variable {A B F L : Type}

/-- How a pass of a loop ends. -/
inductive Pass (A : Type)
  | next (a : A)
  | stop (a : A)

/-- What the variables of the loop are after the pass. -/
def Pass.value : Pass A → A
  | .next a => a
  | .stop a => a

/-- At most `n` passes. -/
def loop (body : A → Except F (Pass A)) : ℕ → A → Except F A
  | 0, a => .ok a
  | n + 1, a => body a >>= fun
    | .next b => loop body n b
    | .stop b => .ok b

/-- Every pass that goes on meets the condition, which may look at the variables before and after it. -/
def LoopAlong (cond : A → A → Prop) (body : A → Except F (Pass A)) : ℕ → A → Prop
  | 0, _ => True
  | n + 1, a => ∀ b, body a = .ok (.next b) → cond a b ∧ LoopAlong cond body n b

/-- The passes that go on can be tested. -/
def decidableNext {p : A → Prop} [DecidablePred p] :
    ∀ x : Except F (Pass A), Decidable (∀ b, x = .ok (.next b) → p b)
  | .ok (.next a) => decidable_of_iff (p a)
      ⟨fun holds _ same => Pass.next.inj (Except.ok.inj same) ▸ holds, fun all => all a rfl⟩
  | .ok (.stop _) => .isTrue fun _ same => Pass.noConfusion rfl (heq_of_eq (Except.ok.inj same))
  | .error _ => .isTrue fun _ same => Except.noConfusion rfl rfl (heq_of_eq same)

instance LoopAlong.decidable {cond : A → A → Prop} [∀ a b, Decidable (cond a b)]
    (body : A → Except F (Pass A)) : ∀ n a, Decidable (LoopAlong cond body n a)
  | 0, _ => .isTrue trivial
  | n + 1, a =>
    have : DecidablePred (LoopAlong cond body n) := LoopAlong.decidable body n
    have : DecidablePred fun b => cond a b ∧ LoopAlong cond body n b := fun _ => inferInstance
    decidableNext (body a)

/-- What the passes log, each with the variables before and after it. -/
def loopLog (log : A → A → List L) (body : A → Except F (Pass A)) : ℕ → A → List L
  | 0, _ => []
  | n + 1, a => match body a with
      | .error _ => []
      | .ok (.next b) => log a b ++ loopLog log body n b
      | .ok (.stop b) => log a b

namespace Fallible

/-- A pass goes on with `inv` or stops with `post`. -/
def Passes (inv post : A → Prop) : Pass A → Prop
  | .next a => inv a
  | .stop a => post a

variable {body : A → Except F (Pass A)} {post : A → Prop} {fails : F → Prop}

/-- **The rule of loops**: an invariant that may count the passes left. -/
theorem Ensures.loop {inv : ℕ → A → Prop}
    (preserved : ∀ n a, inv (n + 1) a → Ensures (Passes (inv n) post) fails (body a))
    (last : ∀ a, inv 0 a → post a) {n : ℕ} {a : A} (initial : inv n a) :
    Ensures post fails (GpuHotSpot.loop body n a) := by
  induction n generalizing a with
  | zero => exact last a initial
  | succ n ih =>
    refine (preserved n a initial).bind fun b passed => ?_
    cases b with
    | next b => exact ih passed
    | stop b => exact passed

/-- An invariant of each pass. -/
theorem Ensures.loop_inv {inv : A → Prop}
    (preserved : ∀ a, inv a → Ensures (fun b => inv b.value) fails (body a)) {n : ℕ} {a : A}
    (initial : inv a) : Ensures inv fails (GpuHotSpot.loop body n a) := by
  induction n generalizing a with
  | zero => exact initial
  | succ n ih =>
    refine (preserved a initial).bind fun b passed => ?_
    cases b with
    | next b => exact ih passed
    | stop b => exact passed

/-- **The rule of loops with a condition on the passes.** -/
theorem LoopAlong.ensures {cond : A → A → Prop} {inv : A → Prop}
    (pass : ∀ a, inv a → Ensures (Passes (fun b => cond a b → inv b) post) fails (body a))
    (last : ∀ a, inv a → post a) {n : ℕ} {a : A} (along : LoopAlong cond body n a)
    (initial : inv a) : Ensures post fails (GpuHotSpot.loop body n a) := by
  induction n generalizing a with
  | zero => exact last a initial
  | succ n ih =>
    have passed := pass a initial
    rw [GpuHotSpot.loop]
    cases ran : body a with
    | error e =>
      rw [ran] at passed
      exact passed
    | ok b =>
      rw [ran] at passed
      cases b with
      | next b =>
        have onwards := along b ran
        exact ih onwards.2 (passed onwards.1)
      | stop b => exact passed

/-- **The rule of loops that log**: an invariant of the log and the variables. -/
theorem Ensures.loopLog {log : A → A → List L} {inv post : List L → A → Prop}
    (pass : ∀ l a, inv l a → Ensures
      (Passes (fun b => inv (l ++ log a b) b) fun b => post (l ++ log a b) b) fails (body a))
    (last : ∀ l a, inv l a → post l a) {n : ℕ} {l : List L} {a : A} (initial : inv l a) :
    Ensures (post (l ++ GpuHotSpot.loopLog log body n a)) fails (GpuHotSpot.loop body n a) := by
  induction n generalizing l a with
  | zero =>
    rw [GpuHotSpot.loopLog, List.append_nil]
    exact last l a initial
  | succ n ih =>
    have passed := pass l a initial
    rw [GpuHotSpot.loop, GpuHotSpot.loopLog]
    cases ran : body a with
    | error e =>
      rw [ran] at passed
      exact passed
    | ok b =>
      rw [ran] at passed
      cases b with
      | next b =>
        have later := ih passed
        rw [List.append_assoc] at later
        exact later
      | stop b => exact passed

end Fallible

end GpuHotSpot
