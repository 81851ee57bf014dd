import Mathlib.Data.List.Nodup
import Mathlib.Data.List.Sublists
import Mathlib.Tactic.Tauto

/-!
# Wait queues

A thread that is stalled waits in one queue.  The queues are named by their places.

* `OneQueue`: each stalled thread is in exactly one queue, once.
* `OneQueue.join`: a running thread joins a queue.
* `OneQueue.keep`, `OneQueue.remove`: threads leave a queue and run.
* `OneQueue.move`: a thread goes from one queue to the end of another.
* `selected`, `unselected`: the first `n` elements of a queue that match, and the others.
-/

namespace GpuHotSpot

variable {P T : Type} {queue : P → List T} {stalled stalled' : T → Prop} {t u : T} {p q : P}

/-- Each stalled thread is in exactly one queue, and there once; the others are in none. -/
structure OneQueue (queue : P → List T) (stalled : T → Prop) : Prop where
  once : ∀ p, (queue p).Nodup
  apart : ∀ {p q t}, t ∈ queue p → t ∈ queue q → p = q
  stalled_iff : ∀ t, stalled t ↔ ∃ p, t ∈ queue p

namespace OneQueue

/-- No thread is stalled and no queue holds one. -/
theorem empty (nobody : ∀ p, queue p = []) (running : ∀ t, ¬ stalled t) :
    OneQueue queue stalled where
  once p := by simp [nobody p]
  apart {p q t} here := by simp [nobody p] at here
  stalled_iff t := by simp [nobody, running t]

theorem congr (one : OneQueue queue stalled) {queue' : P → List T}
    (same : ∀ p, queue' p = queue p) (iff : ∀ t, stalled' t ↔ stalled t) :
    OneQueue queue' stalled' := by
  obtain rfl : queue' = queue := funext same
  obtain rfl : stalled' = stalled := funext fun t => propext (iff t)
  exact one

theorem stalled_of_mem (one : OneQueue queue stalled) (here : t ∈ queue p) : stalled t :=
  (one.stalled_iff t).2 ⟨p, here⟩

theorem not_mem (one : OneQueue queue stalled) (running : ¬ stalled t) (p : P) : t ∉ queue p :=
  fun here => running (one.stalled_of_mem here)

variable [DecidableEq P]

/-- **Joining.** A thread that runs is put at the end of a queue. -/
theorem join (one : OneQueue queue stalled) (running : ¬ stalled t) (p : P) :
    OneQueue (Function.update queue p (queue p ++ [t])) fun u => stalled u ∨ u = t := by
  have nowhere := one.not_mem running
  have mem_iff : ∀ q u, u ∈ Function.update queue p (queue p ++ [t]) q ↔
      u ∈ queue q ∨ q = p ∧ u = t := by
    intro q u
    by_cases here : q = p
    · subst here
      simp
    · simp [here]
  refine ⟨fun q => ?_, fun {q r u} first second => ?_, fun u => ?_⟩
  · by_cases here : q = p
    · subst here
      rw [Function.update_self]
      refine List.nodup_append.2 ⟨one.once q, List.nodup_singleton t, ?_⟩
      rintro u before v last rfl
      rw [List.mem_singleton] at last
      exact nowhere q (last ▸ before)
    · rw [Function.update_of_ne here]
      exact one.once q
  · rcases (mem_iff q u).1 first with old | ⟨rfl, rfl⟩
    · rcases (mem_iff r u).1 second with old' | ⟨rfl, rfl⟩
      · exact one.apart old old'
      · exact absurd old (nowhere q)
    · rcases (mem_iff r u).1 second with old' | ⟨rfl, _⟩
      · exact absurd old' (nowhere r)
      · rfl
  · simp only [mem_iff, one.stalled_iff u]
    constructor
    · rintro (⟨q, old⟩ | rfl)
      · exact ⟨q, .inl old⟩
      · exact ⟨p, .inr ⟨rfl, rfl⟩⟩
    · rintro ⟨q, old | ⟨_, rfl⟩⟩
      · exact .inl ⟨q, old⟩
      · exact .inr rfl

/-- **Leaving.** A queue keeps some of its threads in order; those that it loses run. -/
theorem keep (one : OneQueue queue stalled) {p : P} {kept : List T}
    (sublist : kept.Sublist (queue p)) :
    OneQueue (Function.update queue p kept) fun u => stalled u ∧ (u ∈ queue p → u ∈ kept) := by
  have mem_iff : ∀ q u, u ∈ Function.update queue p kept q ↔
      u ∈ queue q ∧ (q = p → u ∈ kept) := by
    intro q u
    by_cases here : q = p
    · subst here
      simpa using fun member => sublist.subset member
    · simp [here]
  refine ⟨fun q => ?_, fun {q r u} first second => ?_, fun u => ?_⟩
  · by_cases here : q = p
    · subst here
      rw [Function.update_self]
      exact (one.once q).sublist sublist
    · rw [Function.update_of_ne here]
      exact one.once q
  · exact one.apart ((mem_iff q u).1 first).1 ((mem_iff r u).1 second).1
  · simp only [mem_iff, one.stalled_iff u]
    constructor
    · rintro ⟨⟨q, old⟩, keeps⟩
      exact ⟨q, old, fun here => keeps (here ▸ old)⟩
    · rintro ⟨q, old, keeps⟩
      exact ⟨⟨q, old⟩, fun here => keeps (one.apart old here)⟩

/-- A thread leaves its queue and runs. -/
theorem remove (one : OneQueue queue stalled) {before after : List T}
    (here : queue p = before ++ t :: after) :
    OneQueue (Function.update queue p (before ++ after)) fun u => stalled u ∧ u ≠ t := by
  have alone : t ∉ before ++ after := by
    have nodup := one.once p
    rw [here] at nodup
    exact (List.nodup_middle.1 nodup).notMem
  have sublist : (before ++ after).Sublist (queue p) := by
    rw [here]
    exact List.Sublist.append_left (List.sublist_cons_self t after) before
  refine (one.keep sublist).congr (fun _ => rfl) fun u => and_congr_right fun _ => ?_
  have mem_iff : u ∈ queue p ↔ u = t ∨ u ∈ before ++ after := by
    rw [here]
    simp only [List.mem_append, List.mem_cons]
    tauto
  rw [mem_iff]
  constructor
  · rintro other (rfl | member)
    · exact absurd rfl other
    · exact member
  · rintro keeps rfl
    exact alone (keeps (.inl rfl))

/-- The first thread of a queue leaves it and runs. -/
theorem pop (one : OneQueue queue stalled) {rest : List T} (first : queue p = t :: rest) :
    OneQueue (Function.update queue p rest) fun u => stalled u ∧ u ≠ t :=
  one.remove (show queue p = [] ++ t :: rest from first)

/-- A queue is emptied, and its threads run. -/
theorem drain (one : OneQueue queue stalled) (p : P) :
    OneQueue (Function.update queue p []) fun u => stalled u ∧ u ∉ queue p :=
  (one.keep (List.nil_sublist (queue p))).congr (fun _ => rfl) fun u => by simp

/-- **Moving.** The first thread of a queue goes to the end of another one. -/
theorem move (one : OneQueue queue stalled) {rest : List T} (first : queue p = t :: rest)
    (other : q ≠ p) :
    OneQueue (Function.update (Function.update queue p rest) q (queue q ++ [t])) stalled := by
  have joined := (one.pop first).join (fun left => left.2 rfl) q
  rw [Function.update_of_ne other] at joined
  refine joined.congr (fun _ => rfl) fun u => ?_
  have waits : stalled t := one.stalled_of_mem (p := p) (by rw [first]; exact List.mem_cons_self)
  constructor
  · intro here
    by_cases same : u = t
    · exact .inr same
    · exact .inl ⟨here, same⟩
  · rintro (⟨here, _⟩ | rfl)
    · exact here
    · exact waits

end OneQueue

/-! ## The calls of stalled threads -/

section Calls

variable {C : Type} [DecidableEq T] {calls : T → Option C}

/-- Who is stalled after one thread is resumed. -/
theorem update_none_iff (calls : T → Option C) (t u : T) :
    Function.update calls t none u ≠ none ↔ calls u ≠ none ∧ u ≠ t := by
  by_cases same : u = t
  · subst same
    simp
  · simp [same]

/-- Who is stalled after one thread is stalled. -/
theorem update_some_iff (calls : T → Option C) (t u : T) (call : C) :
    Function.update calls t (some call) u ≠ none ↔ calls u ≠ none ∨ u = t := by
  by_cases same : u = t
  · subst same
    simp
  · simp [same]

/-- Nothing changes for a thread that is stalled before and after another one is resumed. -/
theorem update_none_same (still : Function.update calls t none u ≠ none) :
    Function.update calls t none u = calls u :=
  Function.update_of_ne ((update_none_iff calls t u).1 still).2 _ _

theorem stays_update (calls : T → Option C) (t u : T) :
    Function.update calls t none u = calls u ∨ Function.update calls t none u = none := by
  by_cases same : u = t
  · exact .inr (by rw [same, Function.update_self])
  · exact .inl (Function.update_of_ne same _ _)

end Calls

/-! ## Selecting from a queue -/

section Select

variable {A : Type} {found : A → Bool} {n : ℕ} {l : List A} {a : A}

/-- The first `n` elements that match. -/
def selected (found : A → Bool) (n : ℕ) (l : List A) : List A := (l.filter found).take n

/-- The elements that are not selected, in order. -/
def unselected [DecidableEq A] (found : A → Bool) (n : ℕ) (l : List A) : List A :=
  l.filter (· ∉ selected found n l)

@[simp] theorem selected_zero (found : A → Bool) (l : List A) : selected found 0 l = [] := rfl

theorem selected_of_none (none : l.find? found = none) : selected found n l = [] := by
  have nothing : l.filter found = [] := List.filter_eq_nil_iff.2 (List.find?_eq_none.1 none)
  rw [selected, nothing, List.take_nil]

/-- Where the first match stands. -/
theorem find?_split (some : l.find? found = some a) :
    ∃ before after, l = before ++ a :: after ∧ l.eraseP found = before ++ after ∧
      (∀ b ∈ before, ¬ found b) ∧ found a := by
  obtain ⟨matched, before, after, rfl, misses⟩ := List.find?_eq_some_iff_append.1 some
  have misses' : ∀ b ∈ before, ¬ found b := fun b member => by simpa using misses b member
  refine ⟨before, after, rfl, ?_, misses', matched⟩
  rw [List.eraseP_append_right _ misses', List.eraseP_cons_of_pos matched]

theorem selected_succ (some : l.find? found = some a) :
    selected found (n + 1) l = a :: selected found n (l.eraseP found) := by
  obtain ⟨before, after, rfl, erased, misses, matched⟩ := find?_split some
  have nothing : before.filter found = [] := List.filter_eq_nil_iff.2 misses
  rw [erased, selected, selected, List.filter_append, List.filter_append, nothing,
    List.filter_cons_of_pos matched]
  rfl

variable [DecidableEq A]

theorem unselected_of_nil (nothing : selected found n l = []) : unselected found n l = l := by
  simp [unselected, nothing]

theorem unselected_congr {found' : A → Bool} (same : selected found n l = selected found' n l) :
    unselected found n l = unselected found' n l := by
  rw [unselected, unselected, same]

theorem unselected_succ (nodup : l.Nodup) (some : l.find? found = some a) :
    unselected found (n + 1) l = unselected found n (l.eraseP found) := by
  have step := selected_succ (n := n) some
  obtain ⟨before, after, rfl, erased, -, -⟩ := find?_split some
  have alone := (List.nodup_cons.1 (List.nodup_middle.1 nodup)).1
  have other : ∀ b ∈ before ++ after, b ≠ a := by
    rintro b member rfl
    exact alone member
  rw [unselected, unselected, step, erased]
  have dropped : (before ++ a :: after).filter
      (fun b => decide (b ∉ a :: selected found n (before ++ after))) =
      (before ++ after).filter
        (fun b => decide (b ∉ a :: selected found n (before ++ after))) := by
    simp [List.filter_append]
  rw [dropped]
  refine List.filter_congr fun b member => ?_
  simp [other b member]

end Select

end GpuHotSpot
