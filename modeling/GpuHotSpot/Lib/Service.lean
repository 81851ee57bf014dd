import Mathlib.Data.List.Forall2
import Mathlib.Data.List.Induction
import Mathlib.Data.Nat.Notation
import Mathlib.Logic.Function.Basic

/-!
# Servers with one queue for each key

A log of arrivals, answers and departures, and the server that accepts it: requests of one key wait
in a queue; only the front of a queue is answered, once; it leaves after its answer, or without one
when it needs none.

* `serve`: the queues after a log, if the server accepts it.
* `serve_append`: logs in sequence.
* `serve_inOrder`: in an accepted log the answers of a key are those of its requests, in order of
  arrival.
-/

namespace GpuHotSpot.Service

variable {K R A : Type} [DecidableEq K]

/-- What is logged. -/
inductive Action (K R A : Type)
  | arrived (key : K) (request : R)
  | answered (key : K) (answer : A)
  | left (key : K)

/-- The queues; each request with whether it has been answered. -/
abbrev Queues (K R : Type) := K → List (R × Bool)

section

variable (answers : R → A → Bool) (silent : R → Bool)

/-- One action, if the server accepts it. -/
def act (queues : Queues K R) : Action K R A → Option (Queues K R)
  | .arrived key request =>
    some (Function.update queues key (queues key ++ [(request, false)]))
  | .answered key answer =>
    match queues key with
    | (request, false) :: rest =>
      if answers request answer ∧ ¬ silent request then
        some (Function.update queues key ((request, true) :: rest))
      else none
    | _ => none
  | .left key =>
    match queues key with
    | (request, answered) :: rest =>
      if answered ∨ silent request then some (Function.update queues key rest) else none
    | [] => none

/-- The queues after a log. -/
def serve : List (Action K R A) → Queues K R → Option (Queues K R)
  | [], queues => some queues
  | action :: log, queues => (act answers silent queues action).bind (serve log)

end

variable {answers : R → A → Bool} {silent : R → Bool} {queues : Queues K R}

theorem serve_append (log more : List (Action K R A)) :
    serve answers silent (log ++ more) queues =
      (serve answers silent log queues).bind (serve answers silent more) := by
  induction log generalizing queues with
  | nil => rfl
  | cons action log ih =>
    simp only [List.cons_append, serve]
    cases act answers silent queues action with
    | none => rfl
    | some queues => exact ih

theorem serve_concat {log : List (Action K R A)} {queues₁ queues₂ : Queues K R}
    {action : Action K R A} (served : serve answers silent log queues = some queues₁)
    (acted : act answers silent queues₁ action = some queues₂) :
    serve answers silent (log ++ [action]) queues = some queues₂ := by
  rw [serve_append, served]
  simp only [Option.bind_some, serve, acted]

/-! ## Order -/

/-- The requests of a key that arrived, those of its requests that left, and its answers. -/
def arrivals (key : K) (log : List (Action K R A)) : List R :=
  log.filterMap fun
    | .arrived k request => if k = key then some request else none
    | _ => none

def answersOf (key : K) (log : List (Action K R A)) : List A :=
  log.filterMap fun
    | .answered k answer => if k = key then some answer else none
    | _ => none

/-- How many requests of a key left. -/
def departures (key : K) (log : List (Action K R A)) : ℕ :=
  log.countP fun
    | .left k => decide (k = key)
    | _ => false

/-- How the log of a key is made up: the requests that are gone, then those in the queue; the gone
requests and the answered front one have the answers, except for those that need none. -/
structure InOrder (answers : R → A → Bool) (silent : R → Bool) (key : K)
    (log : List (Action K R A)) (queue : List (R × Bool)) (gone : List R) : Prop where
  arrivals_eq : arrivals key log = gone ++ queue.map Prod.fst
  departures_eq : departures key log = gone.length
  answered : List.Forall₂ (fun r a => answers r a = true)
    ((gone ++ (queue.filter (·.2)).map Prod.fst).filter fun r => !silent r) (answersOf key log)
  waiting : ∀ x ∈ queue.tail, x.2 = false

/-- An action of another key. -/
theorem InOrder.other {key : K} {log : List (Action K R A)} {queue : List (R × Bool)}
    {gone : List R} {action : Action K R A} (order : InOrder answers silent key log queue gone)
    (arrives : arrivals key [action] = []) (leaves : departures key [action] = 0)
    (replies : answersOf key [action] = []) :
    InOrder answers silent key (log ++ [action]) queue gone where
  arrivals_eq := by
    have split : arrivals key (log ++ [action]) = arrivals key log ++ arrivals key [action] :=
      List.filterMap_append ..
    rw [split, arrives, List.append_nil]
    exact order.arrivals_eq
  departures_eq := by
    have split : departures key (log ++ [action]) = departures key log + departures key [action] :=
      List.countP_append ..
    rw [split, leaves]
    exact order.departures_eq
  answered := by
    have split : answersOf key (log ++ [action]) = answersOf key log ++ answersOf key [action] :=
      List.filterMap_append ..
    rw [split, replies, List.append_nil]
    exact order.answered
  waiting := order.waiting

/-- **Order.** In an accepted log each request leaves after its one answer, and the answers of a key
follow the order of arrival. -/
theorem serve_inOrder {log : List (Action K R A)}
    (served : serve answers silent log (fun _ => []) = some queues) (key : K) :
    ∃ gone, InOrder answers silent key log (queues key) gone := by
  induction log using List.reverseRecOn generalizing queues with
  | nil =>
    cases served
    exact ⟨[], rfl, rfl, .nil, nofun⟩
  | append_singleton log action ih =>
    rw [serve_append] at served
    obtain ⟨before, first, last⟩ := Option.bind_eq_some_iff.1 served
    obtain ⟨gone, order⟩ := ih first
    have acted : act answers silent before action = some queues := by
      simpa [serve] using last
    cases action with
    | arrived k request =>
      cases acted
      by_cases same : k = key
      · subst same
        refine ⟨gone, ?_, ?_, ?_, ?_⟩
        · rw [Function.update_self, arrivals, List.filterMap_append]
          have := order.arrivals_eq
          rw [arrivals] at this
          simp [this]
        · have := order.departures_eq
          rw [departures] at this
          simp [departures, this]
        · have := order.answered
          rw [answersOf] at this
          rw [Function.update_self, answersOf, List.filterMap_append]
          simpa using this
        · rw [Function.update_self]
          have := order.waiting
          cases queue : before k with
          | nil => simp
          | cons head tail =>
            rw [queue] at this
            intro x member
            rcases List.mem_append.1 member with member | member
            · exact this x member
            · rw [List.mem_singleton.1 member]
      · refine ⟨gone, ?_⟩
        rw [Function.update_of_ne (Ne.symm same)]
        exact order.other (by simp [arrivals, same]) rfl rfl
    | answered k answer =>
      simp only [act] at acted
      split at acted
      next request rest queue =>
        split_ifs at acted with allowed
        cases acted
        by_cases same : k = key
        · subst same
          refine ⟨gone, ?_, ?_, ?_, ?_⟩
          · have := order.arrivals_eq
            rw [arrivals, queue] at this
            rw [Function.update_self, arrivals, List.filterMap_append]
            simpa using this
          · have := order.departures_eq
            rw [departures] at this
            simp [departures, this]
          · have waiting := order.waiting
            have replies := order.answered
            rw [queue] at waiting replies
            have none : rest.filter (·.2) = [] :=
              List.filter_eq_nil_iff.2 fun x member => by simp [waiting x member]
            have before : List.Forall₂ (fun r a => answers r a = true)
                (gone.filter fun r => !silent r) (answersOf k log) := by
              simpa [none] using replies
            have last : List.Forall₂ (fun r a => answers r a = true) [request] [answer] :=
              .cons allowed.1 .nil
            have both := List.rel_append before last
            rw [Function.update_self, answersOf, List.filterMap_append]
            simpa [none, allowed.2, answersOf] using both
          · rw [Function.update_self]
            have waiting := order.waiting
            rw [queue] at waiting
            exact waiting
        · refine ⟨gone, ?_⟩
          rw [Function.update_of_ne (Ne.symm same)]
          exact order.other rfl rfl (by simp [answersOf, same])
      next => cases acted
    | left k =>
      simp only [act] at acted
      split at acted
      next request isAnswered rest queue =>
        split_ifs at acted with allowed
        cases acted
        by_cases same : k = key
        · subst same
          have waiting := order.waiting
          rw [queue] at waiting
          have none : rest.filter (·.2) = [] :=
            List.filter_eq_nil_iff.2 fun x member => by simp [waiting x member]
          refine ⟨gone ++ [request], ?_, ?_, ?_, ?_⟩
          · have := order.arrivals_eq
            rw [arrivals, queue] at this
            rw [Function.update_self, arrivals, List.filterMap_append, this]
            simp
          · have := order.departures_eq
            rw [departures] at this
            simp [departures, this]
          · have replies := order.answered
            rw [queue] at replies
            rw [Function.update_self, answersOf, List.filterMap_append]
            rw [answersOf] at replies
            rcases isAnswered with - | -
            · have isSilent : silent request = true := by simpa using allowed
              simpa [none, isSilent] using replies
            · simpa [none] using replies
          · rw [Function.update_self]
            exact fun x member => waiting x (List.mem_of_mem_tail member)
        · refine ⟨gone, ?_⟩
          rw [Function.update_of_ne (Ne.symm same)]
          exact order.other rfl (by simp [departures, same]) rfl
      next => cases acted

end GpuHotSpot.Service
