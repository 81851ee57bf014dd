import Mathlib

/-!
# The windowed M/G/1 queue model

`common/performance_model/queue_model_windowed_mg1.cc`: the requests of a window of time, with their
number, and the sum and the sum of the squares of their service times.  Times are femtoseconds in 64
bits.

* `computeQueueDelay`: one request.  The formula of the delay, in doubles, is a parameter.
* `window_exact`: what is in the window is what no call has removed since.
-/

namespace GpuHotSpot.Common.WindowedMG1

/-! ## The code -/

/-- `SubsecondTime::getPS`. -/
def getPS (time : UInt64) : UInt64 := time / 1000

/-- A request of the window: its time, and its service time. -/
abbrev Entry := UInt64 × UInt64

/-- `QueueModelWindowedMG1`; the window is a multimap, in the order of its keys. -/
structure QueueModel where
  totalRequests : UInt64
  totalUtilizedTime : UInt64
  totalQueueDelay : UInt64
  window : List Entry
  numArrivals : UInt64
  serviceTimeSum : UInt64
  serviceTimeSum2 : UInt64
  deriving DecidableEq, Repr

def QueueModel.create : QueueModel := ⟨0, 0, 0, [], 0, 0, 0⟩

/-- `std::multimap::insert`, behind the entries with the same key. -/
def insertEntry (entry : Entry) : List Entry → List Entry
  | [] => [entry]
  | first :: rest =>
    if entry.1 < first.1 then entry :: first :: rest else first :: insertEntry entry rest

def addItem (pktTime serviceTime : UInt64) (q : QueueModel) : QueueModel :=
  { q with
    window := insertEntry (pktTime, serviceTime) q.window
    numArrivals := q.numArrivals + 1
    serviceTimeSum := q.serviceTimeSum + getPS serviceTime
    serviceTimeSum2 := q.serviceTimeSum2 + getPS serviceTime * getPS serviceTime }

/-- The loop of `removeItems`, on the window that is left. -/
def removeFrom (earliestTime : UInt64) : List Entry → QueueModel → QueueModel
  | [], q => { q with window := [] }
  | entry :: rest, q =>
    if entry.1 < earliestTime then
      removeFrom earliestTime rest { q with
        numArrivals := q.numArrivals - 1
        serviceTimeSum := q.serviceTimeSum - getPS entry.2
        serviceTimeSum2 := q.serviceTimeSum2 - getPS entry.2 * getPS entry.2 }
    else { q with window := entry :: rest }

def removeItems (earliestTime : UInt64) (q : QueueModel) : QueueModel :=
  removeFrom earliestTime q.window q

/-- The delay for a number of arrivals above 1, from the aggregates. -/
abbrev Formula := UInt64 → UInt64 → UInt64 → UInt64

/-- A call: the global time, and the arguments. -/
structure Call where
  globalTime : UInt64
  pktTime : UInt64
  processingTime : UInt64
  deriving DecidableEq, Repr

section Code

variable (windowSize : UInt64) (formula : Formula)

/-- The argument of `removeItems`. -/
def earliestTime (call : Call) : UInt64 :=
  max (call.globalTime - windowSize) (call.pktTime - 10 * windowSize)

/-- `QueueModelWindowedMG1::computeQueueDelay`. -/
def computeQueueDelay (call : Call) (q : QueueModel) : UInt64 × QueueModel :=
  let q := removeItems (earliestTime windowSize call) q
  let tQueue :=
    if q.numArrivals > 1 then
      min (formula q.numArrivals q.serviceTimeSum q.serviceTimeSum2) windowSize
    else 0
  let q := addItem call.pktTime call.processingTime q
  (tQueue, { q with
    totalRequests := q.totalRequests + 1
    totalUtilizedTime := q.totalUtilizedTime + call.processingTime
    totalQueueDelay := q.totalQueueDelay + tQueue })

def run (calls : List Call) (q : QueueModel) : QueueModel :=
  calls.foldl (fun q call => (computeQueueDelay windowSize formula call q).2) q

end Code

/-! ## What the window is for -/

/-- The service time of a request in picoseconds. -/
def Entry.ps (entry : Entry) : ℕ := entry.2.toNat / 1000

/-- The aggregates are the number of requests, the sum and the sum of the squares of their service
times, in 64 bits. -/
structure Aggregated (q : QueueModel) : Prop where
  count : q.numArrivals = UInt64.ofNat q.window.length
  sum : q.serviceTimeSum = UInt64.ofNat (q.window.map Entry.ps).sum
  squares : q.serviceTimeSum2 = UInt64.ofNat (q.window.map fun entry => entry.ps ^ 2).sum

def Call.entry (call : Call) : Entry := (call.pktTime, call.processingTime)

/-- A time is not before the bound of a call, in real numbers. -/
def Call.Admits (windowSize : UInt64) (call : Call) (entry : Entry) : Prop :=
  (call.globalTime.toNat : ℤ) - windowSize.toNat ≤ entry.1.toNat ∧
    (call.pktTime.toNat : ℤ) - 10 * windowSize.toNat ≤ entry.1.toNat

instance (windowSize : UInt64) (call : Call) (entry : Entry) :
    Decidable (call.Admits windowSize entry) := inferInstanceAs (Decidable (_ ∧ _))

/-- A request that all calls of a list admit. -/
def Survives (windowSize : UInt64) (calls : List Call) (entry : Entry) : Prop :=
  ∀ call ∈ calls, call.Admits windowSize entry

instance (windowSize : UInt64) (calls : List Call) (entry : Entry) :
    Decidable (Survives windowSize calls entry) := inferInstanceAs (Decidable (∀ _ ∈ _, _))

/-- The requests of the calls that all later calls admit. -/
def survivors (windowSize : UInt64) : List Call → List Entry
  | [] => []
  | call :: later =>
    if Survives windowSize later call.entry then call.entry :: survivors windowSize later
    else survivors windowSize later

/-- Neither difference of the bound goes below zero. -/
def Call.Late (windowSize : UInt64) (call : Call) : Prop :=
  windowSize.toNat ≤ call.globalTime.toNat ∧ 10 * windowSize.toNat ≤ call.pktTime.toNat

instance (windowSize : UInt64) (call : Call) : Decidable (call.Late windowSize) :=
  inferInstanceAs (Decidable (_ ∧ _))

/-! ## The aggregates -/

variable {windowSize : UInt64} {formula : Formula} {q : QueueModel}

theorem ofNat_ps (entry : Entry) : UInt64.ofNat entry.ps = getPS entry.2 := by
  refine UInt64.toNat_inj.1 ?_
  have bounded := entry.2.toNat_lt
  rw [UInt64.toNat_ofNat', getPS, UInt64.toNat_div, Entry.ps]
  exact Nat.mod_eq_of_lt (by omega)

theorem insertEntry_perm (entry : Entry) (l : List Entry) :
    (insertEntry entry l).Perm (entry :: l) := by
  induction l with
  | nil => exact List.Perm.refl _
  | cons first rest ih =>
    rw [insertEntry]
    split_ifs
    · exact List.Perm.refl _
    · exact (ih.cons first).trans (List.Perm.swap entry first rest)

theorem Aggregated.create : Aggregated .create := ⟨rfl, rfl, rfl⟩

theorem Aggregated.addItem (aggregated : Aggregated q) (pktTime serviceTime : UInt64) :
    Aggregated (addItem pktTime serviceTime q) := by
  have order := insertEntry_perm (pktTime, serviceTime) q.window
  refine ⟨?_, ?_, ?_⟩
  · rw [WindowedMG1.addItem, order.length_eq, List.length_cons, UInt64.ofNat_add, aggregated.count]
    rfl
  · rw [WindowedMG1.addItem, (order.map _).sum_eq, List.map_cons, List.sum_cons, UInt64.ofNat_add,
      ofNat_ps, aggregated.sum]
    exact UInt64.add_comm _ _
  · rw [WindowedMG1.addItem, (order.map _).sum_eq, List.map_cons, List.sum_cons, UInt64.ofNat_add,
      pow_two, UInt64.ofNat_mul, ofNat_ps, aggregated.squares]
    exact UInt64.add_comm _ _

/-- What the loop leaves of the window. -/
theorem window_removeFrom (earliest : UInt64) (l : List Entry) (q : QueueModel) :
    (removeFrom earliest l q).window = l.dropWhile fun entry => entry.1 < earliest := by
  induction l generalizing q with
  | nil => rfl
  | cons entry rest ih =>
    rw [removeFrom]
    split_ifs with early
    · rw [ih, List.dropWhile_cons, if_pos (decide_eq_true early)]
    · rw [List.dropWhile_cons, if_neg (mt of_decide_eq_true early)]

theorem Aggregated.removeFrom (earliest : UInt64) (l : List Entry) {q : QueueModel}
    (aggregated : Aggregated { q with window := l }) : Aggregated (removeFrom earliest l q) := by
  induction l generalizing q with
  | nil => exact aggregated
  | cons entry rest ih =>
    rw [WindowedMG1.removeFrom]
    split_ifs with early
    · obtain ⟨count, sum, squares⟩ := aggregated
      dsimp only at count sum squares
      refine ih ⟨?_, ?_, ?_⟩
      · dsimp only
        rw [count, List.length_cons, UInt64.ofNat_add]
        exact UInt64.add_sub_cancel _ _
      · dsimp only
        rw [sum, List.map_cons, List.sum_cons, Nat.add_comm, UInt64.ofNat_add, ofNat_ps]
        exact UInt64.add_sub_cancel _ _
      · dsimp only
        rw [squares, List.map_cons, List.sum_cons, Nat.add_comm, UInt64.ofNat_add, pow_two,
          UInt64.ofNat_mul, ofNat_ps]
        exact UInt64.add_sub_cancel _ _
    · exact aggregated

/-! ## One call -/

/-- The window is in the order of its times. -/
abbrev Ordered (l : List Entry) : Prop := l.Pairwise fun first second => first.1 ≤ second.1

theorem Ordered.insertEntry {l : List Entry} (ordered : Ordered l) (entry : Entry) :
    Ordered (insertEntry entry l) := by
  induction l with
  | nil => exact List.pairwise_singleton _ _
  | cons first rest ih =>
    obtain ⟨least, others⟩ := List.pairwise_cons.1 ordered
    rw [WindowedMG1.insertEntry]
    split_ifs with early
    · refine List.pairwise_cons.2 ⟨fun other member => ?_, ordered⟩
      rcases List.mem_cons.1 member with rfl | later
      · exact UInt64.le_of_lt early
      · exact UInt64.le_trans (UInt64.le_of_lt early) (least other later)
    · refine List.pairwise_cons.2 ⟨fun other member => ?_, ih others⟩
      rcases List.mem_cons.1 ((insertEntry_perm entry rest).mem_iff.1 member) with rfl | later
      · exact UInt64.not_lt.1 early
      · exact least other later

/-- In order, what is left at the front is left at all. -/
theorem Ordered.dropWhile_eq {l : List Entry} (ordered : Ordered l) (earliest : UInt64) :
    (l.dropWhile fun entry => entry.1 < earliest) = l.filter fun entry => ¬ entry.1 < earliest := by
  induction l with
  | nil => rfl
  | cons entry rest ih =>
    obtain ⟨least, others⟩ := List.pairwise_cons.1 ordered
    by_cases early : entry.1 < earliest
    · rw [List.dropWhile_cons, if_pos (decide_eq_true early), ih others, List.filter_cons_of_neg]
      exact fun late => of_decide_eq_true late early
    · rw [List.dropWhile_cons, if_neg (mt of_decide_eq_true early), List.filter_eq_self.2]
      intro other member
      refine decide_eq_true fun before => early ?_
      rcases List.mem_cons.1 member with rfl | later
      · exact before
      · exact UInt64.lt_of_le_of_lt (least other later) before

/-- What holds of the model in every run. -/
structure Formed (q : QueueModel) : Prop where
  ordered : Ordered q.window
  aggregated : Aggregated q

/-- **One call**: the window that is left, with the new request. -/
theorem Formed.computeQueueDelay (formed : Formed q) (windowSize : UInt64) (formula : Formula)
    (call : Call) :
    Formed (computeQueueDelay windowSize formula call q).2 ∧
      (computeQueueDelay windowSize formula call q).2.window =
        insertEntry call.entry (q.window.filter fun entry =>
          ¬ entry.1 < earliestTime windowSize call) := by
  have removed : (removeItems (earliestTime windowSize call) q).window =
      q.window.filter fun entry => ¬ entry.1 < earliestTime windowSize call := by
    rw [removeItems, window_removeFrom, formed.ordered.dropWhile_eq]
  have left : Ordered (removeItems (earliestTime windowSize call) q).window := by
    rw [removed]
    exact formed.ordered.filter _
  have aggregated := (formed.aggregated.removeFrom (earliestTime windowSize call)
    q.window).addItem call.pktTime call.processingTime
  refine ⟨⟨left.insertEntry _, aggregated.count, aggregated.sum, aggregated.squares⟩, ?_⟩
  rw [← removed]
  rfl

/-- The bound of a call, when its differences are not below zero. -/
theorem toNat_earliestTime {call : Call} (late : call.Late windowSize) :
    (earliestTime windowSize call).toNat = max (call.globalTime.toNat - windowSize.toNat)
      (call.pktTime.toNat - 10 * windowSize.toNat) := by
  have ten : (10 * windowSize : UInt64).toNat = 10 * windowSize.toNat := by
    have bounded := call.pktTime.toNat_lt
    rw [UInt64.toNat_mul]
    exact Nat.mod_eq_of_lt (Nat.lt_of_le_of_lt late.2 bounded)
  have first : (call.globalTime - windowSize).toNat =
      call.globalTime.toNat - windowSize.toNat :=
    UInt64.toNat_sub_of_le _ _ (UInt64.le_iff_toNat_le.2 late.1)
  have second : (call.pktTime - 10 * windowSize).toNat =
      call.pktTime.toNat - 10 * windowSize.toNat := by
    rw [UInt64.toNat_sub_of_le _ _ (UInt64.le_iff_toNat_le.2 (ten ▸ late.2)), ten]
  rw [Nat.max_def, ← first, ← second]
  exact apply_ite UInt64.toNat _ _ _

theorem admits_iff {call : Call} (late : call.Late windowSize) (entry : Entry) :
    ¬ entry.1 < earliestTime windowSize call ↔ call.Admits windowSize entry := by
  rw [UInt64.lt_iff_toNat_lt, toNat_earliestTime late, Call.Admits]
  have := late.1
  have := late.2
  omega

/-! ## Runs -/

theorem Formed.run (formed : Formed q) (windowSize : UInt64) (formula : Formula)
    (calls : List Call) : Formed (run windowSize formula calls q) := by
  induction calls generalizing q with
  | nil => exact formed
  | cons call calls ih => exact ih (formed.computeQueueDelay windowSize formula call).1

theorem Formed.create : Formed .create := ⟨List.Pairwise.nil, .create⟩

theorem survives_cons {call : Call} {later : List Call} {entry : Entry} :
    Survives windowSize (call :: later) entry ↔
      call.Admits windowSize entry ∧ Survives windowSize later entry :=
  List.forall_mem_cons

/-- The window after calls whose bounds are not below zero. -/
theorem Formed.run_window (formed : Formed q) {calls : List Call}
    (late : ∀ call ∈ calls, call.Late windowSize) :
    (WindowedMG1.run windowSize formula calls q).window.Perm
      (q.window.filter (Survives windowSize calls ·) ++ survivors windowSize calls) := by
  induction calls generalizing q with
  | nil =>
    have all : q.window.filter (fun entry => Survives windowSize [] entry) = q.window :=
      List.filter_eq_self.2 fun entry _ => decide_eq_true nofun
    rw [all, survivors, List.append_nil]
    exact List.Perm.refl _
  | cons call calls ih =>
    obtain ⟨now, later⟩ := List.forall_mem_cons.1 late
    obtain ⟨formed', window⟩ := formed.computeQueueDelay windowSize formula call
    have order := (insertEntry_perm call.entry (q.window.filter fun entry =>
      ¬ entry.1 < earliestTime windowSize call)).filter (Survives windowSize calls ·)
    have old : (q.window.filter fun entry => ¬ entry.1 < earliestTime windowSize call).filter
        (Survives windowSize calls ·) =
          q.window.filter (Survives windowSize (call :: calls) ·) := by
      rw [List.filter_filter]
      refine List.filter_congr fun entry _ => ?_
      rw [← Bool.decide_and]
      refine decide_eq_decide.2 ?_
      rw [survives_cons, admits_iff now, and_comm]
    refine (ih formed' later).trans ?_
    rw [window, survivors]
    refine (order.append_right _).trans ?_
    rw [List.filter_cons, old]
    split_ifs with survives survives' survives'
    · exact (List.perm_middle).symm
    · exact absurd (of_decide_eq_true survives) survives'
    · exact absurd (decide_eq_true survives') survives
    · exact List.Perm.refl _

/-- **The window is exact.** After any calls, and further ones whose bounds are not below zero, the
window has the requests that none of the further calls has removed; the aggregates are those of the
window. -/
theorem window_exact (windowSize : UInt64) (formula : Formula) (before calls : List Call)
    (late : ∀ call ∈ calls, call.Late windowSize) :
    Aggregated (run windowSize formula (before ++ calls) .create) ∧
      (run windowSize formula (before ++ calls) .create).window.Perm
        ((run windowSize formula before .create).window.filter (Survives windowSize calls ·) ++
          survivors windowSize calls) := by
  have formed := Formed.create.run windowSize formula before
  have split : run windowSize formula (before ++ calls) .create =
      run windowSize formula calls (run windowSize formula before .create) := List.foldl_append
  rw [split]
  exact ⟨(formed.run windowSize formula calls).aggregated, formed.run_window late⟩

/-- Three requests at the global time 100 ns, in a window of 1 ns. -/
def threeCalls : List Call :=
  [⟨100000000, 150000000, 1000⟩, ⟨100000000, 200000000, 1000⟩, ⟨100000000, 100000000, 1000⟩]

theorem window_exact_threeCalls :
    Aggregated (run 1000000 (fun _ _ _ => 0) ([] ++ threeCalls) .create) ∧
      (run 1000000 (fun _ _ _ => 0) ([] ++ threeCalls) .create).window.Perm
        ((run 1000000 (fun _ _ _ => 0) [] .create).window.filter
          (Survives 1000000 threeCalls ·) ++ survivors 1000000 threeCalls) :=
  window_exact 1000000 (fun _ _ _ => 0) [] threeCalls (by decide)

/-- The third call admits the first request, but the second call has removed it. -/
theorem not_window_admitted : ∃ first second third : Call, threeCalls = [first, second, third] ∧
    third.Admits 1000000 first.entry ∧
      first.entry ∉ (run 1000000 (fun _ _ _ => 0) threeCalls .create).window :=
  ⟨_, _, _, rfl, by decide, by decide⟩

end GpuHotSpot.Common.WindowedMG1
