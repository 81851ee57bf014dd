import GpuHotSpot.Common.HistoryList
import GpuHotSpot.Lib.Servers

/-!
# The contention model

`common/performance_model/contention_model.cc`: a number of units, each with the time at which it is
free and a tag.  Times are femtoseconds in 64 bits.

* `Fifo`: what a request should see.
* `fifo`: requests in the order of their starts are served as in a queue with that many servers; a
  request at time zero passes it by.
-/

namespace GpuHotSpot.Common.ContentionModels

open HistoryList (add sub add_eq sub_eq)
open Servers

/-! ## The code -/

/-- `ContentionModel`, without what only barriers and tags use. -/
structure ContentionModel where
  numOutstanding : ℕ
  time : ℕ → ℕ × UInt64
  tLast : ℕ
  nRequests : UInt64
  nOutoforder : UInt64
  nSimultaneous : UInt64
  totalDelay : ℕ

def ContentionModel.create (numOutstanding : ℕ) : ContentionModel :=
  ⟨numOutstanding, fun _ => (0, 0), 0, 0, 0, 0, 0⟩

/-- The loop of `getCompletionTime`, from a unit on. -/
def findUnit (time : ℕ → ℕ × UInt64) (tStart : ℕ) : ℕ → ℕ → ℕ → ℕ
  | 0, _, unit => unit
  | more + 1, i, unit =>
    if (time i).1 ≤ tStart then i
    else findUnit time tStart more (i + 1) (if (time i).1 < (time unit).1 then i else unit)

/-- `ContentionModel::getCompletionTime`. -/
def getCompletionTime (tStart tDelay : ℕ) (tag : UInt64) (m : ContentionModel) :
    ℕ × ContentionModel :=
  if m.numOutstanding = 0 then (add tStart tDelay, m)
  else if tStart = 0 then (tDelay, { m with nRequests := m.nRequests + 1 })
  else if tStart < m.tLast then
    (add tStart tDelay, { m with
      nOutoforder := m.nOutoforder + 1
      nRequests := m.nRequests + 1 })
  else
    let unit := findUnit m.time tStart m.numOutstanding 0 0
    let tBegin := if tStart < (m.time unit).1 then (m.time unit).1 else tStart
    let tEnd := add tBegin tDelay
    (tEnd, { m with
      time := Function.update m.time unit (tEnd, tag)
      tLast := tStart
      nSimultaneous := if tStart = m.tLast then m.nSimultaneous + 1 else m.nSimultaneous
      totalDelay := add m.totalDelay (sub tBegin tStart)
      nRequests := m.nRequests + 1 })

/-- The loop of `getStartTime`, which returns at a free unit. -/
def findBusy (time : ℕ → ℕ × UInt64) (tStart : ℕ) : ℕ → ℕ → ℕ → Option ℕ
  | 0, _, unit => some unit
  | more + 1, i, unit =>
    if (time i).1 ≤ tStart then none
    else findBusy time tStart more (i + 1) (if (time i).1 < (time unit).1 then i else unit)

/-- `ContentionModel::getStartTime`. -/
def getStartTime (tStart : ℕ) (m : ContentionModel) : ℕ :=
  if m.numOutstanding = 0 then tStart
  else if tStart < m.tLast then tStart
  else
    match findBusy m.time tStart m.numOutstanding 0 0 with
    | none => tStart
    | some unit => if tStart < (m.time unit).1 then (m.time unit).1 else tStart

/-! ## Runs -/

/-- A request. -/
structure Call where
  tStart : ℕ
  tDelay : ℕ
  tag : UInt64
  deriving DecidableEq, Repr

/-- The model, and as a record of the run the begins and ends of the requests but those at time
zero. -/
structure Recorder where
  model : ContentionModel
  served : List (ℕ × ℕ)

def Recorder.step (r : Recorder) (call : Call) : Recorder :=
  let (tEnd, model) := getCompletionTime call.tStart call.tDelay call.tag r.model
  ⟨model, if call.tStart = 0 then r.served
    else r.served ++ [(getStartTime call.tStart r.model, tEnd)]⟩

def run (k : ℕ) (calls : List Call) : Recorder := calls.foldl Recorder.step ⟨.create k, []⟩

/-- What a request sees: it begins at `getStartTime`, and ends its delay later. A request at time
zero begins at once; another one begins as soon as fewer than `k` of the requests before it are in
progress. No more than `k` are at any time. -/
structure Fifo (k : ℕ) (r : Recorder) (call : Call) : Prop where
  ends : (getCompletionTime call.tStart call.tDelay call.tag r.model).1 =
    getStartTime call.tStart r.model + call.tDelay
  zero : call.tStart = 0 → getStartTime call.tStart r.model = 0
  begins : call.tStart ≠ 0 →
    Begins k r.served call.tStart (getStartTime call.tStart r.model)
  few : ∀ time, inProgress (r.step call).served time ≤ k

/-- The end of a request has 64 bits. -/
def Fits (r : Recorder) (call : Call) : Prop :=
  getStartTime call.tStart r.model + call.tDelay < 2 ^ 64

instance (r : Recorder) (call : Call) : Decidable (Fits r call) :=
  inferInstanceAs (Decidable (_ < _))

/-! ## The unit -/

variable {time : ℕ → ℕ × UInt64} {tStart k : ℕ}

/-- What the loops have seen before a unit: no free one, and the first one to be free. -/
structure Seen (time : ℕ → ℕ × UInt64) (tStart k i unit : ℕ) : Prop where
  inside : unit < k
  taken : ∀ j < i, tStart < (time j).1
  first : ∀ j < i, (time unit).1 ≤ (time j).1

theorem Seen.next {i unit : ℕ} (seen : Seen time tStart k i unit) (inside : i < k)
    (taken : tStart < (time i).1) :
    Seen time tStart k (i + 1) (if (time i).1 < (time unit).1 then i else unit) := by
  refine ⟨?_, fun j before => ?_, fun j before => ?_⟩
  · split_ifs
    · exact inside
    · exact seen.inside
  · rcases Nat.lt_succ_iff_lt_or_eq.1 before with earlier | rfl
    · exact seen.taken j earlier
    · exact taken
  · rcases Nat.lt_succ_iff_lt_or_eq.1 before with earlier | rfl
    · have := seen.first j earlier
      split_ifs <;> omega
    · split_ifs <;> omega

theorem findUnit_spec {more i unit : ℕ} (seen : Seen time tStart k i unit) (total : i + more = k) :
    findUnit time tStart more i unit < k ∧ ((time (findUnit time tStart more i unit)).1 ≤ tStart ∨
        ∀ j < k, tStart < (time j).1 ∧ (time (findUnit time tStart more i unit)).1 ≤ (time j).1) := by
  induction more generalizing i unit with
  | zero =>
    have all : i = k := total
    subst all
    exact ⟨seen.inside, Or.inr fun j inside => ⟨seen.taken j inside, seen.first j inside⟩⟩
  | succ more ih =>
    rw [findUnit]
    by_cases free : (time i).1 ≤ tStart
    · rw [if_pos free]
      exact ⟨by omega, Or.inl free⟩
    · rw [if_neg free]
      exact ih (seen.next (by omega) (not_le.1 free)) (by omega)

theorem findBusy_spec {more i unit : ℕ} (seen : Seen time tStart k i unit) (total : i + more = k) :
    (findBusy time tStart more i unit = none ∧ ∃ j < k, (time j).1 ≤ tStart) ∨
      ∃ busy < k, findBusy time tStart more i unit = some busy ∧
        ∀ j < k, tStart < (time j).1 ∧ (time busy).1 ≤ (time j).1 := by
  induction more generalizing i unit with
  | zero =>
    have all : i = k := total
    subst all
    exact Or.inr ⟨unit, seen.inside, rfl,
      fun j inside => ⟨seen.taken j inside, seen.first j inside⟩⟩
  | succ more ih =>
    rw [findBusy]
    by_cases free : (time i).1 ≤ tStart
    · rw [if_pos free]
      exact Or.inl ⟨rfl, i, by omega, free⟩
    · rw [if_neg free]
      exact ih (seen.next (by omega) (not_le.1 free)) (by omega)

theorem seen_start (time : ℕ → ℕ × UInt64) (tStart : ℕ) (positive : 0 < k) :
    Seen time tStart k 0 0 :=
  ⟨positive, nofun, nofun⟩

/-- When a unit is free for a request. -/
theorem getStartTime_eq {m : ContentionModel} (positive : 0 < m.numOutstanding)
    (inOrder : m.tLast ≤ tStart) : getStartTime tStart m =
      max tStart (m.time (findUnit m.time tStart m.numOutstanding 0 0)).1 := by
  rw [getStartTime, if_neg positive.ne', if_neg (not_lt.2 inOrder)]
  obtain ⟨inside, best⟩ := findUnit_spec (seen_start m.time tStart positive) (Nat.zero_add _)
  rcases findBusy_spec (seen_start m.time tStart positive) (Nat.zero_add _) with ⟨found, j, among, free⟩ | ⟨busy, among, found, all⟩
  · rw [found]
    rcases best with now | taken
    · exact (max_eq_left now).symm
    · exact absurd free (not_le.2 (taken j among).1)
  · have later := best.resolve_left (not_le.2 (all _ inside).1)
    have same : (m.time busy).1 = (m.time (findUnit m.time tStart m.numOutstanding 0 0)).1 :=
      le_antisymm (all _ inside).2 (later busy among).2
    rw [found]
    dsimp only
    rw [if_pos (all busy among).1, same, max_eq_right (same ▸ (all busy among).1.le)]

/-! ## One request -/

/-- The units know how many requests are in progress. -/
structure Follows (k : ℕ) (r : Recorder) : Prop where
  size : r.model.numOutstanding = k
  tracks : Tracks k (fun i => (r.model.time i).1) r.model.tLast r.served
  few : ∀ time, inProgress r.served time ≤ k
  idle : r.model.tLast = 0 → ∀ i, (r.model.time i).1 = 0

theorem Follows.create (k : ℕ) : Follows k ⟨.create k, []⟩ where
  size := rfl
  tracks time _ := (Finset.sum_eq_zero fun _ _ => if_neg (Nat.not_lt_zero time)).symm
  few _ := Nat.zero_le k
  idle _ _ := rfl

variable {r : Recorder} {call : Call}

/-- **A request at time zero** passes the queue by. -/
theorem Follows.step_zero (follows : Follows k r) (positive : 0 < k)
    (inOrder : r.model.tLast ≤ call.tStart) (zero : call.tStart = 0) :
    Fifo k r call ∧ Follows k (r.step call) ∧ (r.step call).model.tLast = r.model.tLast := by
  have some : 0 < r.model.numOutstanding := follows.size ▸ positive
  have first : r.model.tLast = 0 := by omega
  have ran : getCompletionTime call.tStart call.tDelay call.tag r.model =
      (call.tDelay, { r.model with nRequests := r.model.nRequests + 1 }) := by
    rw [getCompletionTime, if_neg some.ne', if_pos zero]
  have begun : getStartTime call.tStart r.model = 0 := by
    rw [getStartTime_eq some inOrder, follows.idle first, zero, max_self]
  have stepped : r.step call = ⟨{ r.model with nRequests := r.model.nRequests + 1 }, r.served⟩ := by
    rw [Recorder.step, ran]
    dsimp only
    rw [if_pos zero]
  refine ⟨⟨?_, fun _ => begun, fun later => absurd zero later, ?_⟩, ?_, ?_⟩
  · rw [ran, begun, Nat.zero_add]
  · rw [stepped]
    exact follows.few
  · rw [stepped]
    exact ⟨follows.size, follows.tracks, follows.few, follows.idle⟩
  · rw [stepped]

/-- **Another request** is served. -/
theorem Follows.step_pos (follows : Follows k r) (positive : 0 < k)
    (inOrder : r.model.tLast ≤ call.tStart) (later : call.tStart ≠ 0) (fits : Fits r call) :
    Fifo k r call ∧ Follows k (r.step call) ∧ (r.step call).model.tLast = call.tStart := by
  have some : 0 < r.model.numOutstanding := follows.size ▸ positive
  obtain ⟨inside, best⟩ := findUnit_spec (seen_start r.model.time call.tStart some)
    (Nat.zero_add _)
  have begun := getStartTime_eq some inOrder
  rw [follows.size] at inside best begun
  rw [Fits, begun] at fits
  generalize found : findUnit r.model.time call.tStart k 0 0 = unit at inside best begun fits
  have tBegin : (if call.tStart < (r.model.time unit).1 then (r.model.time unit).1
      else call.tStart) = max call.tStart (r.model.time unit).1 := by
    rw [max_def]
    split_ifs <;> omega
  obtain ⟨model, ran, size, time, tLast⟩ : ∃ model : ContentionModel,
      getCompletionTime call.tStart call.tDelay call.tag r.model =
        (max call.tStart (r.model.time unit).1 + call.tDelay, model) ∧
      model.numOutstanding = k ∧ model.time = Function.update r.model.time unit
        (max call.tStart (r.model.time unit).1 + call.tDelay, call.tag) ∧
      model.tLast = call.tStart := by
    rw [getCompletionTime, if_neg some.ne', if_neg later, if_neg (not_lt.2 inOrder), follows.size,
      found]
    dsimp only
    rw [tBegin, add_eq fits]
    exact ⟨_, rfl, rfl, rfl, rfl⟩
  have stepped : r.step call = ⟨model, r.served ++ [(max call.tStart (r.model.time unit).1,
      max call.tStart (r.model.time unit).1 + call.tDelay)]⟩ := by
    rw [Recorder.step, ran, begun]
    dsimp only
    rw [if_neg later]
  have free : (fun i => (model.time i).1) = Function.update (fun i => (r.model.time i).1) unit
      (max call.tStart (r.model.time unit).1 + call.tDelay) := by
    funext i
    rw [time]
    by_cases same : i = unit
    · rw [same, Function.update_self, Function.update_self]
    · rw [Function.update_of_ne same, Function.update_of_ne same]
  have best' : (r.model.time unit).1 ≤ call.tStart ∨
      ∀ i < k, (r.model.time unit).1 ≤ (r.model.time i).1 :=
    best.imp_right fun all i among => (all i among).2
  have few := follows.tracks.inProgress_le inOrder inside
    (Nat.le_add_right (max call.tStart (r.model.time unit).1) call.tDelay) follows.few
  refine ⟨⟨?_, fun zero => absurd zero later, fun _ => ?_, ?_⟩, ?_, ?_⟩
  · rw [ran, begun]
  · rw [begun]
    exact follows.tracks.begins inOrder inside best'
  · rw [stepped]
    exact few
  · rw [stepped]
    refine ⟨size, ?_, few, fun zero => absurd (tLast.symm.trans zero) later⟩
    dsimp only
    rw [tLast, free]
    exact follows.tracks.serve inOrder inside (Nat.le_add_right _ _)
  · rw [stepped]
    exact tLast

/-! ## Runs -/

/-- The state after requests in the order of their starts. -/
theorem run_follows (positive : 0 < k) {calls : List Call}
    (ordered : calls.Pairwise fun first second => first.tStart ≤ second.tStart)
    (fits : ∀ before call after, calls = before ++ call :: after → Fits (run k before) call) :
    Follows k (run k calls) ∧ ∀ tStart, (∀ call ∈ calls, call.tStart ≤ tStart) →
      (run k calls).model.tLast ≤ tStart := by
  induction calls using List.reverseRecOn with
  | nil => exact ⟨.create k, fun tStart _ => Nat.zero_le tStart⟩
  | append_singleton calls call ih =>
    obtain ⟨before, -, last⟩ := List.pairwise_append.1 ordered
    obtain ⟨follows, latest⟩ := ih before fun before other after split =>
      fits before other (after ++ [call]) (by rw [split, List.append_assoc, List.cons_append])
    have inOrder := latest call.tStart fun other member => last other member call List.mem_cons_self
    have stepped : run k (calls ++ [call]) = (run k calls).step call := List.foldl_concat ..
    rw [stepped]
    by_cases zero : call.tStart = 0
    · obtain ⟨-, next, same⟩ := follows.step_zero positive inOrder zero
      refine ⟨next, fun tStart bound => ?_⟩
      rw [same]
      exact latest tStart fun other member => bound other (List.mem_append_left _ member)
    · obtain ⟨-, next, same⟩ := follows.step_pos positive inOrder zero
        (fits calls call [] rfl)
      refine ⟨next, fun tStart bound => ?_⟩
      rw [same]
      exact bound call (List.mem_append_right _ List.mem_cons_self)

/-- **The contention model is a queue** with `k` servers, for requests in the order of their starts
whose ends have 64 bits. -/
theorem fifo (positive : 0 < k) (calls : List Call)
    (ordered : calls.Pairwise fun first second => first.tStart ≤ second.tStart)
    (fits : ∀ before call after, calls = before ++ call :: after → Fits (run k before) call)
    (before : List Call) (call : Call) (after : List Call)
    (split : calls = before ++ call :: after) : Fifo k (run k before) call := by
  subst split
  obtain ⟨first, rest, last⟩ := List.pairwise_append.1 ordered
  obtain ⟨follows, latest⟩ := run_follows positive first fun before' other after' split =>
    fits before' other (after' ++ call :: after) (by
      rw [split, List.append_assoc, List.cons_append])
  have inOrder := latest call.tStart fun other member => last other member call List.mem_cons_self
  by_cases zero : call.tStart = 0
  · exact (follows.step_zero positive inOrder zero).1
  · exact (follows.step_pos positive inOrder zero (fits before call after rfl)).1

/-- Two requests for one server. -/
theorem fifo_two : Fifo 1 (run 1 [⟨1, 10, 0⟩]) ⟨5, 10, 0⟩ :=
  fifo Nat.one_pos [⟨1, 10, 0⟩, ⟨5, 10, 0⟩] (by decide) (fun before call after split => by
    rcases before with _ | ⟨first, _ | ⟨second, rest⟩⟩
    · cases split
      decide
    · cases split
      decide
    · simp at split) [⟨1, 10, 0⟩] ⟨5, 10, 0⟩ [] rfl

/-- With one server, a request at time zero is in progress when the next one begins; and an end
beyond 64 bits wraps. -/
theorem not_fifo_zero : ∃ first second : ℕ, first = (getCompletionTime 0 10 0 (.create 1)).1 ∧
      second = getStartTime 5 (getCompletionTime 0 10 0 (.create 1)).2 ∧
      ¬ Begins 1 [(0, first)] 5 second ∧
      (getCompletionTime 1 (2 ^ 64 - 1) 0 (.create 1)).1 ≠ 1 + (2 ^ 64 - 1) :=
  ⟨10, 5, rfl, rfl, fun begins => absurd begins.free (by decide), by decide⟩

end GpuHotSpot.Common.ContentionModels
