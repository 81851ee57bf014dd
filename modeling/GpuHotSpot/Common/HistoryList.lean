import Mathlib
import GpuHotSpot.Lib.Machine

/-!
# The history list queue model

`common/performance_model/queue_model_history_list.cc`: the queue model keeps the intervals in
which the queue is free, and cuts from them the time that it gives to a request.  Times are
femtoseconds in 64 bits.

* `computeQueueDelay`: one request.
* `run_wellFormed`: requests that fit keep the list in order, and their times do not overlap.
-/

namespace GpuHotSpot.Common.HistoryList

open Fallible

/-! ## Times -/

/-- `SubsecondTime::operator+`. -/
def add (x y : ℕ) : ℕ := (x + y) % 2 ^ 64

/-- `SubsecondTime::operator-`. -/
def sub (x y : ℕ) : ℕ := (x + 2 ^ 64 - y) % 2 ^ 64

/-- `SubsecondTime::MaxTime()`. -/
def maxTime : ℕ := 2 ^ 64 - 1

theorem add_eq {x y : ℕ} (small : x + y < 2 ^ 64) : add x y = x + y := Nat.mod_eq_of_lt small

theorem sub_eq {x y : ℕ} (small : x < 2 ^ 64) (le : y ≤ x) : sub x y = x - y := by
  rw [sub, show x + 2 ^ 64 - y = x - y + 2 ^ 64 by omega, Nat.add_mod_right]
  exact Nat.mod_eq_of_lt (by omega)

/-! ## Averages -/

/-- `MovingArithmeticMean`: the numbers in the window, the oldest first, and their sum. -/
structure MovingArithmeticMean where
  numList : List ℕ
  sum : ℕ

/-- `MovingArithmeticMean::update`; a full window loses its oldest number. -/
def MovingArithmeticMean.update (maxWindowSize : ℕ) (m : MovingArithmeticMean) (nextNum : ℕ) :
    MovingArithmeticMean :=
  if m.numList.length = maxWindowSize then
    ⟨m.numList.tail ++ [nextNum], add (sub m.sum (m.numList.headD 0)) nextNum⟩
  else ⟨m.numList ++ [nextNum], add m.sum nextNum⟩

/-! ## The queue model -/

/-- The assertions of the queue model, and the division in `MovingArithmeticMean::compute`. -/
inductive Assertion
  | listSizeLess
  | listSizeMore
  | freeIntervalNotFound
  | divisionByZero
  deriving DecidableEq, Repr

/-- `MovingArithmeticMean::compute`. -/
def MovingArithmeticMean.compute (m : MovingArithmeticMean) : Except Assertion ℕ :=
  if m.numList.length = 0 then .error .divisionByZero else .ok (m.sum / m.numList.length)

/-- A free interval. -/
structure Interval where
  first : ℕ
  second : ℕ
  deriving DecidableEq, Repr

/-- What the constructor reads from the configuration. -/
structure Config where
  minProcessingTime : ℕ
  maxFreeIntervalListSize : ℕ
  analyticalModelEnabled : Bool

/-- The fields of `QueueModelHistoryList` that change. -/
structure QueueModel where
  freeIntervalList : List Interval
  averageDelay : MovingArithmeticMean
  utilizedTime : ℕ
  totalQueueDelay : ℕ
  totalRequests : ℕ
  totalRequestsUsingAnalyticalModel : ℕ

/-- The model after the constructor. -/
def QueueModel.start : QueueModel := ⟨[⟨0, 2 ^ 63⟩], ⟨[], 0⟩, 0, 0, 0, 0⟩

/-- A call of `computeQueueDelay`; arrival and processing time add up to less than `2 ^ 63`. -/
structure Request where
  pktTime : ℕ
  processingTime : ℕ
  positive : 0 < processingTime
  bounded : pktTime + processingTime < 2 ^ 63

section Code

variable (config : Config)

/-- The loop of `computeUsingHistoryList`: the queue delay and the list after it. -/
def serve (pktTime processingTime : ℕ) : List Interval → ℕ × List Interval
  | [] => (maxTime, [])
  | interval :: rest =>
    if pktTime ≥ interval.first ∧ add pktTime processingTime ≤ interval.second then
      let done := add pktTime processingTime
      (0,
        (if sub pktTime interval.first ≥ config.minProcessingTime then
          [⟨interval.first, pktTime⟩] else []) ++
        (if sub interval.second done ≥ config.minProcessingTime then
          [⟨done, interval.second⟩] else []) ++ rest)
    else if pktTime < interval.first then
      let done := add interval.first processingTime
      (sub interval.first pktTime,
        (if sub interval.second done ≥ config.minProcessingTime then
          [⟨done, interval.second⟩] else []) ++ rest)
    else
      let (queueDelay, later) := serve pktTime processingTime rest
      (queueDelay, interval :: later)

/-- `computeUsingHistoryList`. -/
def computeUsingHistoryList (pktTime processingTime : ℕ) (list : List Interval) :
    Except Assertion (ℕ × List Interval) :=
  if list.length > config.maxFreeIntervalListSize then .error .listSizeMore
  else
    let (queueDelay, list) := serve config pktTime processingTime list
    if queueDelay = maxTime then .error .freeIntervalNotFound
    else .ok (queueDelay, if list.length > config.maxFreeIntervalListSize then list.tail else list)

/-- The test for an old packet. -/
def usesAnalyticalModel (r : Request) (oldest : Interval) : Prop :=
  config.analyticalModelEnabled ∧ add r.pktTime r.processingTime ≤ oldest.first

instance (r : Request) (oldest : Interval) : Decidable (usesAnalyticalModel config r oldest) :=
  inferInstanceAs (Decidable (_ ∧ _))

/-- `computeQueueDelay`: the queue delay and the model after it. -/
def computeQueueDelay (r : Request) (model : QueueModel) : Except Assertion (ℕ × QueueModel) :=
  match model.freeIntervalList with
  | [] => .error .listSizeLess
  | oldest :: _ => do
      let (queueDelay, model) ←
        if usesAnalyticalModel config r oldest then do
          let queueDelay ← model.averageDelay.compute
          pure (queueDelay, { model with
            totalRequestsUsingAnalyticalModel := model.totalRequestsUsingAnalyticalModel + 1 })
        else do
          let (queueDelay, list) ←
            computeUsingHistoryList config r.pktTime r.processingTime model.freeIntervalList
          pure (queueDelay, { model with
            freeIntervalList := list
            averageDelay := model.averageDelay.update config.maxFreeIntervalListSize queueDelay })
      .ok (queueDelay, { model with
        utilizedTime := add model.utilizedTime r.processingTime
        totalRequests := model.totalRequests + 1
        totalQueueDelay := add model.totalQueueDelay queueDelay })

/-- A run: the model, and the times that the list gave to requests. -/
structure Run where
  model : QueueModel
  slots : List Interval

/-- One call, noting the time that a request is given from the list. -/
def step (r : Request) (run : Run) : Except Assertion Run := do
  let (queueDelay, model) ← computeQueueDelay config r run.model
  let start := add r.pktTime queueDelay
  let old := (run.model.freeIntervalList.head?.any fun oldest =>
    usesAnalyticalModel config r oldest)
  pure ⟨model, if old then run.slots else run.slots ++ [⟨start, add start r.processingTime⟩]⟩

/-- The request has room in the interval that the loop takes, and `minProcessingTime` is left behind
it if this is the last interval. -/
def Fits (pktTime processingTime : ℕ) : List Interval → Prop
  | [] => True
  | interval :: rest =>
    if pktTime < interval.first ∨ pktTime + processingTime ≤ interval.second then
      max pktTime interval.first + processingTime ≤ interval.second ∧
        (rest = [] → max pktTime interval.first + processingTime + config.minProcessingTime ≤
          interval.second)
    else Fits pktTime processingTime rest

/-- A request that the list serves fits. -/
def Served (run : Run) (r : Request) : Prop :=
  (∃ oldest ∈ run.model.freeIntervalList.head?, usesAnalyticalModel config r oldest) ∨
    Fits config r.pktTime r.processingTime run.model.freeIntervalList

end Code

/-! ## The list -/

/-- The interval is part of the other. -/
def Within (a b : Interval) : Prop := b.first ≤ a.first ∧ a.second ≤ b.second

/-- The intervals do not overlap. -/
def Apart (a b : Interval) : Prop := a.second ≤ b.first ∨ b.second ≤ a.first

theorem Apart.within {a b c : Interval} (apart : Apart a b) (within : Within c b) : Apart a c := by
  unfold Apart Within at *
  omega

/-- The intervals run forward, one after the other. -/
structure Ordered (l : List Interval) : Prop where
  forward : ∀ i ∈ l, i.first ≤ i.second
  sorted : l.Pairwise fun a b => a.second ≤ b.first

/-- The list of free intervals as the queue model keeps it. -/
structure WellFormed (maxSize : ℕ) (l : List Interval) : Prop extends Ordered l where
  nonempty : l ≠ []
  size : l.length ≤ maxSize

/-- The last interval goes on to `2 ^ 63`. -/
def GoesOn (l : List Interval) : Prop := ∃ i ∈ l.getLast?, i.second = 2 ^ 63

theorem Ordered.tail {l : List Interval} (ordered : Ordered l) : Ordered l.tail :=
  ⟨fun i member => ordered.forward i (List.mem_of_mem_tail member), ordered.sorted.tail⟩

theorem GoesOn.nonempty {l : List Interval} (goesOn : GoesOn l) : l ≠ [] := by
  rintro rfl
  obtain ⟨i, member, -⟩ := goesOn
  cases member

theorem goesOn_append {before l : List Interval} (nonempty : l ≠ []) :
    GoesOn (before ++ l) ↔ GoesOn l := by
  rw [GoesOn, GoesOn, List.getLast?_append, List.getLast?_eq_some_getLast nonempty, Option.some_or]

theorem goesOn_cons {i : Interval} {l : List Interval} (nonempty : l ≠ []) :
    GoesOn (i :: l) ↔ GoesOn l :=
  @goesOn_append [i] l nonempty

theorem goesOn_single {i : Interval} (ends : i.second = 2 ^ 63) : GoesOn [i] := ⟨i, rfl, ends⟩

/-- Until `2 ^ 63` the intervals end. -/
theorem Ordered.second_le {l : List Interval} (ordered : Ordered l) (goesOn : GoesOn l) :
    ∀ i ∈ l, i.second ≤ 2 ^ 63 := by
  induction l with
  | nil => exact absurd rfl goesOn.nonempty
  | cons head l ih =>
    rcases eq_or_ne l [] with rfl | nonempty
    · obtain ⟨i, last, ends⟩ := goesOn
      intro j member
      cases last
      rw [List.mem_singleton.mp member]
      exact Nat.le_of_eq ends
    · have later := ih ordered.tail ((goesOn_cons nonempty).mp goesOn)
      intro i member
      rcases List.mem_cons.mp member with rfl | member
      · obtain ⟨j, l, rfl⟩ := List.exists_cons_of_ne_nil nonempty
        have sorted := (List.pairwise_cons.mp ordered.sorted).1 j List.mem_cons_self
        have forward := ordered.forward j (by simp)
        have ends := later j List.mem_cons_self
        omega
      · exact later i member

/-! ## Serving a request -/

/-- The time is cut from the free intervals. -/
structure Cut (l : List Interval) (slot : Interval) (l' : List Interval) : Prop where
  ordered : Ordered l'
  goesOn : GoesOn l'
  length : l'.length ≤ l.length + 1
  within : ∀ j ∈ l', ∃ i ∈ l, Within j i
  slotWithin : ∃ i ∈ l, Within slot i
  apart : ∀ j ∈ l', Apart slot j

/-- The time is cut from the first interval, of which some pieces are left. -/
theorem cut_head {i slot : Interval} {pieces rest : List Interval} (ordered : Ordered (i :: rest))
    (goesOn : GoesOn (i :: rest)) (slotWithin : Within slot i) (inOrder : Ordered pieces)
    (within : ∀ p ∈ pieces, Within p i) (apart : ∀ p ∈ pieces, Apart slot p)
    (length : pieces.length ≤ 2) (last : rest = [] → GoesOn pieces) :
    Cut (i :: rest) slot (pieces ++ rest) where
  ordered := by
    refine ⟨?_, ?_⟩
    · intro j member
      rcases List.mem_append.mp member with inPieces | inRest
      · exact inOrder.forward j inPieces
      · exact ordered.forward j (List.mem_cons_of_mem _ inRest)
    · refine List.pairwise_append.mpr ⟨inOrder.sorted, ordered.sorted.tail, ?_⟩
      intro a inPieces b inRest
      have before := (List.pairwise_cons.mp ordered.sorted).1 b inRest
      have inside := (within a inPieces).2
      omega
  goesOn := by
    rcases eq_or_ne rest [] with rfl | nonempty
    · rw [List.append_nil]
      exact last rfl
    · exact (goesOn_append nonempty).mpr ((goesOn_cons nonempty).mp goesOn)
  length := by
    rw [List.length_append, List.length_cons]
    omega
  within j member := by
    rcases List.mem_append.mp member with inPieces | inRest
    · exact ⟨i, List.mem_cons_self, within j inPieces⟩
    · exact ⟨j, List.mem_cons_of_mem _ inRest, Nat.le_refl _, Nat.le_refl _⟩
  slotWithin := ⟨i, List.mem_cons_self, slotWithin⟩
  apart j member := by
    rcases List.mem_append.mp member with inPieces | inRest
    · exact apart j inPieces
    · have before := (List.pairwise_cons.mp ordered.sorted).1 j inRest
      have inside := slotWithin.2
      left
      omega

/-- The time is cut from an interval after the first one. -/
theorem Cut.cons {i slot : Interval} {l l' : List Interval} (cut : Cut l slot l')
    (ordered : Ordered (i :: l)) : Cut (i :: l) slot (i :: l') where
  ordered := by
    refine ⟨?_, List.pairwise_cons.mpr ⟨?_, cut.ordered.sorted⟩⟩
    · intro j member
      rcases List.mem_cons.mp member with rfl | later
      · exact ordered.forward j List.mem_cons_self
      · exact cut.ordered.forward j later
    · intro j later
      obtain ⟨k, inside, within⟩ := cut.within j later
      exact Nat.le_trans ((List.pairwise_cons.mp ordered.sorted).1 k inside) within.1
  goesOn := (goesOn_cons cut.goesOn.nonempty).mpr cut.goesOn
  length := by
    have shorter := cut.length
    simp only [List.length_cons]
    omega
  within j member := by
    rcases List.mem_cons.mp member with rfl | later
    · exact ⟨j, List.mem_cons_self, Nat.le_refl _, Nat.le_refl _⟩
    · obtain ⟨k, inside, within⟩ := cut.within j later
      exact ⟨k, List.mem_cons_of_mem _ inside, within⟩
  slotWithin := by
    obtain ⟨k, inside, within⟩ := cut.slotWithin
    exact ⟨k, List.mem_cons_of_mem _ inside, within⟩
  apart j member := by
    rcases List.mem_cons.mp member with rfl | later
    · obtain ⟨k, inside, within⟩ := cut.slotWithin
      exact Or.inr (Nat.le_trans ((List.pairwise_cons.mp ordered.sorted).1 k inside) within.1)
    · exact cut.apart j later

section Serve

variable {config : Config} {pktTime processingTime : ℕ} {l : List Interval}

/-- **Serving.** A request that fits is given a time that is cut from the list. -/
theorem serve_spec (ordered : Ordered l) (goesOn : GoesOn l)
    (bounded : pktTime + processingTime < 2 ^ 63) (fits : Fits config pktTime processingTime l) :
    ∃ queueDelay l', serve config pktTime processingTime l = (queueDelay, l') ∧
      pktTime + queueDelay ≤ 2 ^ 63 ∧
      Cut l ⟨pktTime + queueDelay, pktTime + queueDelay + processingTime⟩ l' := by
  induction l with
  | nil => exact absurd rfl goesOn.nonempty
  | cons interval rest ih =>
    have ends := ordered.second_le goesOn interval List.mem_cons_self
    have forward := ordered.forward interval List.mem_cons_self
    have last : rest = [] → interval.second = 2 ^ 63 := by
      rintro rfl
      obtain ⟨i, same, ends⟩ := goesOn
      cases same
      exact ends
    have done : add pktTime processingTime = pktTime + processingTime := add_eq (by omega)
    rw [serve, done]
    rw [Fits] at fits
    by_cases inside : pktTime ≥ interval.first ∧ pktTime + processingTime ≤ interval.second
    · -- the request is inside the interval
      rw [if_pos (Or.inr inside.2), Nat.max_eq_left inside.1] at fits
      obtain ⟨room, behind⟩ := fits
      rw [if_pos inside]
      refine ⟨_, _, rfl, by omega, ?_⟩
      rw [sub_eq (by omega) inside.1, sub_eq (by omega) room, Nat.add_zero]
      refine cut_head ordered goesOn ⟨inside.1, room⟩ ?_ ?_ ?_ ?_ ?_
      · constructor
        · split_ifs <;> simp <;> omega
        · split_ifs <;> simp
      · split_ifs <;> simp [Within] <;> omega
      · split_ifs <;> simp [Apart]
      · split_ifs <;> simp
      · intro none
        have enough := behind none
        rw [if_pos (show interval.second - (pktTime + processingTime) ≥ config.minProcessingTime by
          omega)]
        exact (goesOn_append (List.cons_ne_nil _ _)).mpr (goesOn_single (last none))
    rw [if_neg inside]
    by_cases before : pktTime < interval.first
    · -- the request is before the interval
      have served : add interval.first processingTime = interval.first + processingTime :=
        add_eq (by omega)
      rw [if_pos (Or.inl before), Nat.max_eq_right (Nat.le_of_lt before)] at fits
      obtain ⟨room, behind⟩ := fits
      have delay : pktTime + (interval.first - pktTime) = interval.first := by omega
      rw [if_pos before]
      refine ⟨_, _, rfl, ?_⟩
      rw [served, sub_eq (by omega) (Nat.le_of_lt before), sub_eq (by omega) room, delay]
      refine ⟨by omega, ?_⟩
      refine cut_head ordered goesOn ⟨Nat.le_refl _, room⟩ ?_ ?_ ?_ ?_ ?_
      · constructor
        · split_ifs <;> simp
          omega
        · split_ifs <;> simp
      · split_ifs <;> simp [Within]
      · split_ifs <;> simp [Apart]
      · split_ifs <;> simp
      · intro none
        have enough := behind none
        rw [if_pos (show interval.second - (interval.first + processingTime) ≥
          config.minProcessingTime by omega)]
        exact goesOn_single (last none)
    · -- the loop goes on
      have continues : ¬ (pktTime < interval.first ∨
          pktTime + processingTime ≤ interval.second) := by omega
      rw [if_neg continues] at fits
      have more : rest ≠ [] := fun none => continues (Or.inr (by rw [last none]; omega))
      obtain ⟨queueDelay, l', served, early, cut⟩ :=
        ih ordered.tail ((goesOn_cons more).mp goesOn) fits
      rw [if_neg before, served]
      exact ⟨queueDelay, interval :: l', rfl, early, cut.cons ordered⟩

/-- What `computeUsingHistoryList` returns for a request that fits: the delay, and the list after the
cut, without its first interval if it became too long. -/
theorem computeUsingHistoryList_spec (wellFormed : WellFormed config.maxFreeIntervalListSize l)
    (goesOn : GoesOn l) (bounded : pktTime + processingTime < 2 ^ 63)
    (fits : Fits config pktTime processingTime l) :
    ∃ queueDelay l', computeUsingHistoryList config pktTime processingTime l = .ok (queueDelay, l') ∧
      pktTime + queueDelay ≤ 2 ^ 63 ∧
      (∃ i ∈ l, Within ⟨pktTime + queueDelay, pktTime + queueDelay + processingTime⟩ i) ∧
      WellFormed config.maxFreeIntervalListSize l' ∧ GoesOn l' ∧
      ∀ j ∈ l', Apart ⟨pktTime + queueDelay, pktTime + queueDelay + processingTime⟩ j ∧
        ∃ i ∈ l, Within j i := by
  obtain ⟨queueDelay, l', served, early, cut⟩ :=
    serve_spec wellFormed.toOrdered goesOn bounded fits
  have size := wellFormed.size
  have some_interval := List.length_pos_iff.mpr wellFormed.nonempty
  have found : queueDelay ≠ maxTime := by
    rw [maxTime]
    omega
  rw [computeUsingHistoryList, if_neg (by omega), served]
  simp only [if_neg found]
  refine ⟨_, _, rfl, early, cut.slotWithin, ?_⟩
  split_ifs with long
  · -- the first interval is dropped, and another one is left
    obtain ⟨first, l', rfl⟩ := List.exists_cons_of_ne_nil cut.goesOn.nonempty
    have length := cut.length
    rw [List.length_cons] at long length
    rw [List.tail_cons]
    have more : l' ≠ [] := by
      rintro rfl
      simp only [List.length_nil] at long
      omega
    refine ⟨⟨cut.ordered.tail, more, by omega⟩, (goesOn_cons more).mp cut.goesOn, fun j member => ?_⟩
    exact ⟨cut.apart j (List.mem_cons_of_mem _ member), cut.within j (List.mem_cons_of_mem _ member)⟩
  · exact ⟨⟨cut.ordered, cut.goesOn.nonempty, by omega⟩, cut.goesOn,
      fun j member => ⟨cut.apart j member, cut.within j member⟩⟩

end Serve

/-! ## Runs -/

/-- What holds of a run: the list is in order and goes on to `2 ^ 63`, the times that it gave to
requests overlap neither each other nor what is free, and an average can be computed before an
old packet comes. -/
structure Good (config : Config) (run : Run) : Prop where
  wellFormed : WellFormed config.maxFreeIntervalListSize run.model.freeIntervalList
  goesOn : GoesOn run.model.freeIntervalList
  slots : run.slots.Pairwise Apart
  free : ∀ slot ∈ run.slots, ∀ i ∈ run.model.freeIntervalList, Apart slot i
  averaged : ∀ oldest ∈ run.model.freeIntervalList.head?, 0 < oldest.first →
    run.model.averageDelay.numList ≠ []

theorem update_numList_ne_nil (maxWindowSize : ℕ) (m : MovingArithmeticMean) (nextNum : ℕ) :
    (m.update maxWindowSize nextNum).numList ≠ [] := by
  rw [MovingArithmeticMean.update]
  split_ifs <;> simp

/-- **One call** of a request that fits. -/
theorem ensures_step {config : Config} {run : Run} {r : Request} (served : Served config run r)
    (good : Good config run) : Ensures (Good config) (fun _ => False) (step config r run) := by
  rcases run with ⟨⟨list, average, utilized, total, requests, analytical⟩, slots⟩
  obtain ⟨oldest, rest, rfl⟩ := List.exists_cons_of_ne_nil good.wellFormed.nonempty
  have bounded := r.bounded
  have positive := r.positive
  simp only [step, computeQueueDelay, List.head?_cons, Option.any_some]
  by_cases old : usesAnalyticalModel config r oldest
  · -- an old packet
    have late : 0 < oldest.first := by
      have test := old.2
      rw [add_eq (by omega)] at test
      omega
    have some_number := good.averaged oldest rfl late
    rw [if_pos old, MovingArithmeticMean.compute,
      if_neg (fun none => some_number (List.eq_nil_of_length_eq_zero none))]
    simp only [decide_eq_true old, if_true, pure, Except.pure, ok_bind]
    exact ⟨good.wellFormed, good.goesOn, good.slots, good.free, good.averaged⟩
  · have fits : Fits config r.pktTime r.processingTime (oldest :: rest) := by
      rcases served with ⟨first, member, test⟩ | fits
      · cases member
        exact absurd test old
      · exact fits
    obtain ⟨queueDelay, l', computed, early, slotWithin, wellFormed, goesOn, cut⟩ :=
      computeUsingHistoryList_spec good.wellFormed good.goesOn bounded fits
    have start : add r.pktTime queueDelay = r.pktTime + queueDelay := add_eq (by omega)
    have finish : add (r.pktTime + queueDelay) r.processingTime =
        r.pktTime + queueDelay + r.processingTime := add_eq (by omega)
    rw [if_neg old, computed]
    simp only [decide_eq_false old, Bool.false_eq_true, if_false, pure, Except.pure, ok_bind, start,
      finish]
    refine ⟨wellFormed, goesOn, ?_, ?_, fun _ _ _ => update_numList_ne_nil _ _ _⟩
    · -- the new time was free before
      obtain ⟨i, inside, within⟩ := slotWithin
      refine List.pairwise_append.mpr ⟨good.slots, List.pairwise_singleton _ _, fun slot given new isNew => ?_⟩
      rw [List.mem_singleton.mp isNew]
      exact (good.free slot given i inside).within within
    · intro slot given j left
      obtain ⟨apart, i, inside, within⟩ := cut j left
      rcases List.mem_append.mp given with before | new
      · exact (good.free slot before i inside).within within
      · rw [List.mem_singleton.mp new]
        exact apart

/-- **The free list.** If every request of a run that the list serves fits, then no assertion fails,
the list of free intervals is never empty nor too long, its intervals run forward in order and do
not overlap, and neither do the times that requests are given from it. -/
theorem run_wellFormed (config : Config) (someSize : 1 ≤ config.maxFreeIntervalListSize)
    (requests : List Request) (fits : Along (Served config) (step config) requests ⟨.start, []⟩) :
    ∃ run, runEvents (step config) requests ⟨.start, []⟩ = .ok run ∧
      WellFormed config.maxFreeIntervalListSize run.model.freeIntervalList ∧
      run.slots.Pairwise Apart := by
  have initial : Good config ⟨.start, []⟩ := by
    refine ⟨⟨⟨?_, List.pairwise_singleton _ _⟩, List.cons_ne_nil _ _, someSize⟩, ⟨_, rfl, rfl⟩,
      List.Pairwise.nil, ?_, ?_⟩
    · simp [QueueModel.start]
    · simp
    · simp [QueueModel.start]
  have kept := fits.ensures_runEvents (fun r run served good => ensures_step served good) initial
  cases ran : runEvents (step config) requests ⟨.start, []⟩ with
  | error e =>
    rw [ran] at kept
    exact kept.elim
  | ok run =>
    rw [ran] at kept
    exact ⟨run, rfl, kept.wellFormed, kept.slots⟩

/-- Intervals of at least ten, no more than a hundred, and no averages. -/
def plainConfig : Config := ⟨10, 100, false⟩

/-- Two requests of ten. -/
theorem run_wellFormed_two :
    ∃ run, runEvents (step plainConfig)
        [⟨20, 10, by decide, by decide⟩, ⟨50, 10, by decide, by decide⟩] ⟨.start, []⟩ = .ok run ∧
      WellFormed 100 run.model.freeIntervalList ∧ run.slots.Pairwise Apart := by
  refine run_wellFormed plainConfig (by decide) _ ⟨Or.inr ?_, fun t moved => ?_⟩
  · simp [Fits, QueueModel.start, plainConfig]
  · cases moved
    exact ⟨Or.inr (by simp [Fits, plainConfig, add, sub]),
      fun _ _ => trivial⟩

/-- **A free interval that runs backward.** The third request comes before an interval that is
shorter than its processing time; what is left of the interval is computed without a sign. -/
theorem interval_backward :
    ∃ run, runEvents (step plainConfig)
        [⟨20, 10, by decide, by decide⟩, ⟨50, 10, by decide, by decide⟩,
          ⟨25, 25, by decide, by decide⟩] ⟨.start, []⟩ = .ok run ∧
      run.model.freeIntervalList = [⟨0, 20⟩, ⟨55, 50⟩, ⟨60, 2 ^ 63⟩] :=
  ⟨_, rfl, rfl⟩

end GpuHotSpot.Common.HistoryList
