import Mathlib.Algebra.BigOperators.Group.Finset.Basic
import Mathlib.Algebra.Order.BigOperators.Group.Finset

/-!
# Queues with several servers

Requests are served by `k` servers, first come first served.  A served request is an interval of
time, from its begin until before its end.

* `Begins`: when a request begins, by the requests before it.
* `busy`: how many servers are busy, by the times at which they are free.
* `Tracks`: from a time on, the servers know how many requests are in progress.
* `Tracks.serve`: a server that is free, or else the first one to be free, serves the next request.
-/

namespace GpuHotSpot.Servers

variable {α : Type*} [LinearOrder α] {k : ℕ} {requests : List (α × α)} {free : ℕ → α}
  {now start first last time : α} {unit : ℕ}

/-- How many requests are in progress. -/
def inProgress (requests : List (α × α)) (time : α) : ℕ :=
  requests.countP fun request => request.1 ≤ time ∧ time < request.2

/-- A request begins at the first time, from its start on, at which fewer than `k` requests before
it are in progress. -/
structure Begins (k : ℕ) (requests : List (α × α)) (start first : α) : Prop where
  start_le : start ≤ first
  free : inProgress requests first < k
  earliest : ∀ time, start ≤ time → time < first → k ≤ inProgress requests time

/-- How many servers are busy. -/
def busy (k : ℕ) (free : ℕ → α) (time : α) : ℕ :=
  ∑ i ∈ Finset.range k, if time < free i then 1 else 0

theorem sum_busy_le (servers : Finset ℕ) (free : ℕ → α) (time : α) :
    (∑ i ∈ servers, if time < free i then 1 else 0) ≤ servers.card := by
  rw [Finset.card_eq_sum_ones]
  refine Finset.sum_le_sum fun i _ => ?_
  split_ifs <;> omega

theorem busy_le (k : ℕ) (free : ℕ → α) (time : α) : busy k free time ≤ k := by
  have all := sum_busy_le (Finset.range k) free time
  rwa [Finset.card_range] at all

theorem busy_eq_of_all (all : ∀ i < k, time < free i) : busy k free time = k := by
  rw [busy, Finset.sum_congr rfl fun i member => if_pos (all i (Finset.mem_range.1 member)),
    ← Finset.card_eq_sum_ones, Finset.card_range]

/-- One server and the others. -/
theorem busy_eq_add (inside : unit < k) (free : ℕ → α) (time : α) :
    busy k free time = (if time < free unit then 1 else 0) +
      ∑ i ∈ (Finset.range k).erase unit, if time < free i then 1 else 0 :=
  (Finset.add_sum_erase _ _ (Finset.mem_range.2 inside)).symm

theorem busy_lt (inside : unit < k) (idle : free unit ≤ time) : busy k free time < k := by
  have others := sum_busy_le ((Finset.range k).erase unit) free time
  rw [Finset.card_erase_of_mem (Finset.mem_range.2 inside), Finset.card_range] at others
  rw [busy_eq_add inside, if_neg (not_lt.2 idle)]
  omega

/-- One server that is free at another time. -/
theorem busy_update (inside : unit < k) (free : ℕ → α) (last time : α) :
    busy k (Function.update free unit last) time + (if time < free unit then 1 else 0) =
      busy k free time + if time < last then 1 else 0 := by
  have others : (∑ i ∈ (Finset.range k).erase unit,
      if time < Function.update free unit last i then 1 else 0) =
        ∑ i ∈ (Finset.range k).erase unit, if time < free i then 1 else 0 :=
    Finset.sum_congr rfl fun i member => by
      rw [Function.update_of_ne (Finset.ne_of_mem_erase member)]
  rw [busy_eq_add inside, busy_eq_add inside, others, Function.update_self]
  omega

/-- From a time on, as many servers are busy as requests are in progress. -/
def Tracks (k : ℕ) (free : ℕ → α) (now : α) (requests : List (α × α)) : Prop :=
  ∀ time, now ≤ time → inProgress requests time = busy k free time

theorem inProgress_concat (requests : List (α × α)) (first last time : α) :
    inProgress (requests ++ [(first, last)]) time =
      inProgress requests time + if first ≤ time ∧ time < last then 1 else 0 := by
  rw [inProgress, inProgress, List.countP_append, List.countP_singleton]
  simp only [decide_eq_true_eq]

section Serve

variable (tracks : Tracks k free now requests) (later : now ≤ start) (inside : unit < k)
  (best : free unit ≤ start ∨ ∀ i < k, free unit ≤ free i)

include tracks later inside best

/-- **The begin** of a request, by the servers. -/
theorem Tracks.begins : Begins k requests start (max start (free unit)) where
  start_le := le_max_left _ _
  free := by
    rw [tracks _ (later.trans (le_max_left _ _))]
    exact busy_lt inside (le_max_right _ _)
  earliest time started before := by
    have waits : time < free unit := (lt_max_iff.1 before).resolve_left (not_lt.2 started)
    have first : ∀ i < k, free unit ≤ free i :=
      best.resolve_left (not_le.2 (lt_of_le_of_lt started waits))
    rw [tracks time (later.trans started)]
    exact (busy_eq_of_all fun i member => waits.trans_le (first i member)).ge

omit best in
/-- **Serving** a request. -/
theorem Tracks.serve (ends : max start (free unit) ≤ last) :
    Tracks k (Function.update free unit last) start
      (requests ++ [(max start (free unit), last)]) := by
  intro time started
  have moved := busy_update inside free last time
  rw [inProgress_concat, tracks time (later.trans started)]
  by_cases waits : time < free unit
  · have more : time < last := waits.trans_le ((le_max_right _ _).trans ends)
    rw [if_pos waits, if_pos more] at moved
    rw [if_neg fun both => absurd waits (not_lt.2 ((le_max_right _ _).trans both.1))]
    omega
  · have begun : max start (free unit) ≤ time := max_le started (not_lt.1 waits)
    rw [if_neg waits] at moved
    simp only [begun, true_and]
    omega

omit best in
/-- **No more than `k` requests** are in progress at any time. -/
theorem Tracks.inProgress_le (ends : max start (free unit) ≤ last)
    (few : ∀ time, inProgress requests time ≤ k) (time : α) :
    inProgress (requests ++ [(max start (free unit), last)]) time ≤ k := by
  rcases lt_or_ge time start with before | started
  · rw [inProgress_concat, if_neg fun both => ?_]
    · exact few time
    · exact not_le.2 (before.trans_le (le_max_left _ _)) both.1
  · rw [tracks.serve later inside ends time started]
    exact busy_le k _ time

end Serve

end GpuHotSpot.Servers
