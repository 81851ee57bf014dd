import GpuHotSpot.Common.OpenPrefetch

/-!
# Idle time that is skipped

When the system goes empty, `threadExit` moves the arrival times of the tasks to come such that the
next one arrives now. It takes the difference of unsigned times, and a time of 0 for none, so this
goes wrong where a task has arrived that no mapping epoch has put into the queue yet.

* `schedule_arrivals`, …: no other code changes an arrival time.
* `readjust_earlier`: the arrival times move by the same amount where all of them are ahead.
* `readjusting`: no reported time loses an interval after the arrival of its task.
-/

namespace GpuHotSpot.Common.Open

open Fallible

variable {n m : ℕ} {config : Config n m} {s s' : State n m} {t : Fin n} {thread : ℕ} {time : UInt64}

/-! ## Arrival times that stay -/

/-- The arrival times are the same. -/
def SameArrivals (s s' : State n m) : Prop :=
  ∀ t, (s'.openTasks t).taskArrivalTime = (s.openTasks t).taskArrivalTime

theorem SameArrivals.trans {s'' : State n m} (first : SameArrivals s s')
    (second : SameArrivals s' s'') : SameArrivals s s'' := fun t => (second t).trans (first t)

theorem sameArrivals_setTask {f : OpenTask → OpenTask}
    (same : ∀ task, (f task).taskArrivalTime = task.taskArrivalTime) :
    SameArrivals s (s.setTask t f) := by
  intro u
  rcases eq_or_ne u t with rfl | ne
  · simp only [State.setTask, Function.update_self, same]
  · simp only [State.setTask, Function.update_of_ne ne]

theorem sameArrivals_setAffinity : SameArrivals s (setAffinity config thread s).2 := by
  intro u
  rw [setAffinity]
  cases coreFound config thread s <;> rfl

theorem sameArrivals_fetch : SameArrivals s (fetchTasksIntoQueue time s) := fun _ => fetched_same.1

theorem sameArrivals_release : SameArrivals s (release config thread time s) :=
  fun t => (release_flags t).2.2

/-- Scheduling a task leaves the arrival times alone. -/
theorem schedule_arrivals (isInitialCall : Bool) :
    Ensures (fun r => SameArrivals s r.2) (· = .undefined)
      (schedule config t isInitialCall time s) := by
  refine (schedule_ensures t isInitialCall time s).mono fun r done => ?_
  have queued : SameArrivals s (s.enqueue t) := sameArrivals_setTask fun _ => rfl
  cases done with
  | early => exact fun _ => rfl
  | queued => exact queued
  | mapped arrived cores =>
    have mapped : SameArrivals s (((s.enqueue t).assign cores t).activate t time) :=
      queued.trans (sameArrivals_setTask (s := (s.enqueue t).assign cores t) fun _ => rfl)
    cases isInitialCall with
    | true => exact mapped
    | false => exact mapped.trans sameArrivals_setAffinity

theorem scheduleFront_arrivals :
    Ensures (fun r => SameArrivals s r.2) (· = .undefined) (scheduleFront config time s) := by
  rw [scheduleFront]
  cases s.taskFrontOfQueue with
  | none => exact rfl
  | some t => exact schedule_arrivals false

theorem mapQueue_arrivals (fuel : ℕ) :
    Ensures (SameArrivals s) (fun f => f = .undefined ∨ f = .unfinished)
      (mapQueue config time fuel s) := by
  induction fuel generalizing s with
  | zero =>
    rw [mapQueue]
    split_ifs
    · exact fun _ => rfl
    · exact .inr rfl
  | succ fuel ih =>
    rw [mapQueue]
    split_ifs
    · exact fun _ => rfl
    · refine (scheduleFront_arrivals.imp (fun _ same => same) fun _ => .inl).bind
        fun _ same => ?_
      dsimp only
      split_ifs
      · exact ih.mono fun _ later => SameArrivals.trans same later
      · exact same

theorem threadCreate_arrivals (coreIsFree : Bool) :
    Ensures (SameArrivals s) (fun _ => True) (threadCreate config time coreIsFree s) := by
  have scheduled : Ensures (SameArrivals s) (fun _ => True)
      (scheduleNew config s.numThreads time { s with numThreads := s.numThreads + 1 }) := by
    rw [scheduleNew]
    split_ifs with isFirst
    · refine ((schedule_arrivals true).imp (fun _ same => same) fun _ _ => trivial).bind
        fun _ same => ?_
      dsimp only
      split_ifs
      · trivial
      · exact same
    · exact fun _ => rfl
  refine scheduled.bind fun s' same => ?_
  dsimp only
  split_ifs
  · trivial
  · exact same.trans sameArrivals_setAffinity

theorem periodic_arrivals : Ensures (SameArrivals s) (fun _ => True) (periodic config time s) := by
  rw [periodic]
  split_ifs
  · trivial
  · trivial
  · exact (mapQueue_arrivals n).imp (fun _ same => sameArrivals_fetch.trans same)
      fun _ _ => trivial
  · exact fun _ => rfl

/-! ## Arrival times that move -/

/-- The system goes empty, the queue is empty, and tasks are yet to arrive. -/
def Readjusts (config : Config n m) (thread : ℕ) (s : State n m) : Prop :=
  Empties config thread s ∧ s.taskFrontOfQueue = none ∧
    ∃ t, (s.openTasks t).waitingToSchedule = true

instance : DecidablePred (Readjusts config thread) := fun s =>
  inferInstanceAs (Decidable (_ ∧ s.taskFrontOfQueue = none ∧ ∃ t, (s.openTasks t).waitingToSchedule))

/-- **The condition.** The tasks to come arrive now or later, and none at the time 0. -/
def Ahead (config : Config n m) (s : State n m) : Event → Prop
  | .exit thread time => Readjusts config thread s → ∀ t,
      (s.openTasks t).waitingToSchedule = true →
        time ≤ (s.openTasks t).taskArrivalTime ∧ (s.openTasks t).taskArrivalTime ≠ 0
  | _ => True

/-- The tasks to come arrive earlier, by the same amount, and the next of them now. -/
def MovesTogether (time : UInt64) (s s' : State n m) : Prop :=
  (∃ timeJump : ℕ, ∀ t, (s.openTasks t).waitingToSchedule = true →
      (s'.openTasks t).taskArrivalTime.toNat + timeJump = (s.openTasks t).taskArrivalTime.toNat) ∧
    (∃ t, (s.openTasks t).waitingToSchedule = true ∧ (s'.openTasks t).taskArrivalTime = time) ∧
    (∀ t, (s.openTasks t).waitingToSchedule = true → time ≤ (s'.openTasks t).taskArrivalTime) ∧
    ∀ t, (s'.openTasks t).taskArrivalTime ≤ (s.openTasks t).taskArrivalTime

/-- **The jump**, where all tasks to come are ahead. -/
theorem readjust_together (ahead : ∀ t, (s.openTasks t).waitingToSchedule = true →
      time ≤ (s.openTasks t).taskArrivalTime ∧ (s.openTasks t).taskArrivalTime ≠ 0)
    (found : nextArrivalTime s ≠ 0) :
    MovesTogether time s (readjust (nextArrivalTime s - time) s) := by
  obtain ⟨u, waits, next⟩ := nextArrivalTime_waiting found
  have later : time ≤ nextArrivalTime s := next ▸ (ahead u waits).1
  have jump : (nextArrivalTime s - time).toNat = (nextArrivalTime s).toNat - time.toNat :=
    UInt64.toNat_sub_of_le _ _ later
  have least {t : Fin n} (waits : (s.openTasks t).waitingToSchedule = true) :
      nextArrivalTime s ≤ (s.openTasks t).taskArrivalTime :=
    (nextArrivalTime_least (fun t waits => (ahead t waits).2) waits).2
  have moved {t : Fin n} (waits : (s.openTasks t).waitingToSchedule = true) :
      ((readjust (nextArrivalTime s - time) s).openTasks t).taskArrivalTime.toNat +
        ((nextArrivalTime s).toNat - time.toNat) = (s.openTasks t).taskArrivalTime.toNat := by
    have below := UInt64.le_iff_toNat_le.mp (least waits)
    rw [readjust_arrival _ waits, UInt64.toNat_sub_of_le, jump]
    · omega
    · rw [UInt64.le_iff_toNat_le, jump]
      omega
  refine ⟨⟨_, fun t waits => moved waits⟩, ⟨u, waits, ?_⟩, fun t waits => ?_, fun t => ?_⟩
  · rw [readjust_arrival _ waits, next, sub_sub_cancel]
  · have below := UInt64.le_iff_toNat_le.mp (least waits)
    have earlier := UInt64.le_iff_toNat_le.mp later
    have amount := moved waits
    rw [UInt64.le_iff_toNat_le]
    omega
  · by_cases waits : (s.openTasks t).waitingToSchedule = true
    · rw [UInt64.le_iff_toNat_le]
      exact Nat.le_of_add_right_le (moved waits).le
    · simp only [readjust, if_neg waits]
      exact UInt64.le_refl _

theorem MovesTogether.after {r : State n m} (moves : MovesTogether time r s')
    (flags : ∀ t, (r.openTasks t).waitingToSchedule = (s.openTasks t).waitingToSchedule)
    (same : SameArrivals s r) : MovesTogether time s s' := by
  simpa only [MovesTogether, flags, same _] using moves

theorem MovesTogether.before {s'' : State n m} (moves : MovesTogether time s s')
    (same : SameArrivals s' s'') : MovesTogether time s s'' := by
  simpa only [MovesTogether, same _] using moves

/-- What the end of a thread does to the arrival times. -/
theorem threadExit_arrivals (ahead : Ahead config s (.exit thread time)) :
    Ensures (fun s' => (Readjusts config thread s → MovesTogether time s s') ∧
        (¬Readjusts config thread s → SameArrivals s s'))
      (fun f => Readjusts config thread s → f ≠ .exit) (threadExit config thread time s) := by
  set r := release config thread time s with released
  have flags (t : Fin n) : (r.openTasks t).waitingToSchedule =
      (s.openTasks t).waitingToSchedule := (release_flags t).1.1
  have same : SameArrivals s r := sameArrivals_release
  have readjusts : Readjusts config thread s ↔ (r.numberOfFreeCores = m ∧
      r.numberOfTasksWaitingToSchedule ≠ 0) ∧ ¬r.numberOfTasksInQueue ≠ 0 := by
    rw [Readjusts, empties_iff time, State.waiting_iff, State.inQueue_iff, release_front,
      Option.eq_none_iff_forall_ne_some, not_exists, and_right_comm, and_assoc]
    simp only [flags]
    exact Iff.rfl
  have aheadOf (again : Readjusts config thread s) (t : Fin n)
      (waits : (r.openTasks t).waitingToSchedule = true) :
      time ≤ (r.openTasks t).taskArrivalTime ∧ (r.openTasks t).taskArrivalTime ≠ 0 := by
    rw [same]
    exact ahead again t ((flags t).symm.trans waits)
  have front {s₁ : State n m} :
      Ensures (SameArrivals s₁) (· = .undefined)
        (scheduleFront config time s₁ >>= fun r => pure r.2) :=
    scheduleFront_arrivals.bind fun _ stays => stays
  have other : Fault.undefined ≠ .exit := by rintro ⟨⟩
  rw [threadExit, ← released, prefetch]
  split_ifs with going queued found
  · refine front.imp (fun s' stays => ?_) fun f fault _ => fault ▸ other
    exact ⟨fun again => absurd queued (readjusts.mp again).2, fun _ => same.trans stays⟩
  · rintro again -
    obtain ⟨t, waits⟩ := State.waiting_iff.1 going.2
    exact (nextArrivalTime_least (fun t waits => (aheadOf again t waits).2) waits).1 found
  · have again := readjusts.mpr ⟨going, queued⟩
    refine front.imp (fun s' stays => ⟨fun _ => ?_, absurd again⟩) fun f fault _ => fault ▸ other
    have moves := (readjust_together (aheadOf again) found).after flags same
    exact moves.before (sameArrivals_fetch.trans stays)
  · exact ⟨fun again => absurd (readjusts.mp again).1 going, fun _ => same⟩

/-- No call moves an arrival time later. -/
theorem step_arrivals (event : Event) (ahead : Ahead config s event) :
    Ensures (fun s' => ∀ t, (s'.openTasks t).taskArrivalTime ≤ (s.openTasks t).taskArrivalTime)
      (fun _ => True) (step config event s) := by
  have stays {s' : State n m} (same : SameArrivals s s') (t : Fin n) :
      (s'.openTasks t).taskArrivalTime ≤ (s.openTasks t).taskArrivalTime :=
    UInt64.le_of_eq (same t)
  cases event with
  | create time coreIsFree => exact (threadCreate_arrivals coreIsFree).mono fun _ => stays
  | periodic time => exact periodic_arrivals.mono fun _ => stays
  | exit thread time =>
    refine (threadExit_arrivals ahead).imp (fun s' ⟨moves, same⟩ => ?_) fun _ _ => trivial
    by_cases again : Readjusts config thread s
    · exact (moves again).2.2.2
    · exact stays (same again)

/-- No time that is reported in the later state loses an interval behind the arrival of its task as
it was in the earlier one. -/
def KeepsTimes (s s' : State n m) : Prop :=
  ∀ t, (s'.openTasks t).taskArrivalTime ≤ (s.openTasks t).taskArrivalTime ∧
    (s'.openTasks t).taskDepartureTime.toNat - (s.openTasks t).taskArrivalTime.toNat ≤
      (s'.openTasks t).responseTime.toNat ∧
    (s'.openTasks t).taskStartTime.toNat - (s.openTasks t).taskArrivalTime.toNat ≤
      (s'.openTasks t).waitTime.toNat

/-- A difference of times is at least the one from a later start. -/
theorem sub_toNat_le {a b c : UInt64} (earlier : a ≤ b) : c.toNat - b.toNat ≤ (c - a).toNat := by
  rw [UInt64.le_iff_toNat_le] at earlier
  rw [UInt64.toNat_sub]
  have small := a.toNat_lt
  have bound := c.toNat_lt
  omega

theorem keepsTimes_of_le
    (earlier : ∀ t, (s'.openTasks t).taskArrivalTime ≤ (s.openTasks t).taskArrivalTime) :
    KeepsTimes s s' :=
  fun t => ⟨earlier t, sub_toNat_le (earlier t), sub_toNat_le (earlier t)⟩

/-- **Skipped time is not lost**: in every run where all tasks to come are ahead whenever their
arrival times are readjusted, they move together, the branch does not end in its error, and no
reported response or wait time loses an interval behind the arrival of its task. -/
theorem readjusting (config : Config n m) (requirement : Fin n → ℕ) (arrival : Fin n → UInt64)
    (events later : List Event)
    (ahead : Along (Ahead config) (step config) (events ++ later) (start requirement arrival))
    (ran : runEvents (step config) events (start requirement arrival) = .ok s) :
    (∀ thread time es, later = .exit thread time :: es → Readjusts config thread s →
        Ensures (MovesTogether time s) (· ≠ .exit) (threadExit config thread time s)) ∧
      Ensures (KeepsTimes s) (fun _ => True) (runEvents (step config) later s) := by
  have after := ahead.after ran
  refine ⟨fun thread time es next again => ?_, ?_⟩
  · subst next
    exact (threadExit_arrivals after.1).imp (fun s' moved => moved.1 again)
      fun f fault => fault again
  · refine (after.ensures_runEvents (fun e s₁ ahead earlier => ?_)
      fun t => UInt64.le_refl _).mono fun s' => keepsTimes_of_le
    exact (step_arrivals e ahead).mono fun s₂ moved t => UInt64.le_trans (moved t) (earlier t)

/-- The second task arrives after the end of the first one. -/
theorem readjusting_later : ∃ s, runEvents (step twoTasks) [.create 0 true, .create 0 true]
      (start (fun _ => 1) fun t => if t = 0 then 0 else 700) = .ok s ∧
    Readjusts twoTasks 0 s ∧
      Ensures (MovesTogether 500 s) (· ≠ .exit) (threadExit twoTasks 0 500 s) ∧
      Ensures (KeepsTimes s) (fun _ => True) (runEvents (step twoTasks) [.exit 0 500] s) := by
  obtain ⟨s, ran⟩ : ∃ s, runEvents (step twoTasks) [.create 0 true, .create 0 true]
      (start (fun _ => 1) fun t => if t = 0 then 0 else 700) = .ok s := ⟨_, rfl⟩
  refine ⟨s, ran, ?_⟩
  have again : Readjusts twoTasks 0 s := by
    cases ran
    decide
  have kept := readjusting twoTasks (fun _ => 1) (fun t => if t = 0 then 0 else 700)
    [.create 0 true, .create 0 true] [.exit 0 500] ⟨trivial, fun _ ran => ?_⟩ ran
  · exact ⟨again, kept.1 0 500 [] rfl again, kept.2⟩
  · cases ran
    refine ⟨trivial, fun _ ran => ?_⟩
    cases ran
    exact ⟨fun _ => by decide, fun _ _ => trivial⟩

/-- The second task has arrived before the end of the first one, and its arrival moves later. -/
theorem readjusting_late : ¬∀ (n m : ℕ) (config : Config n m) (requirement : Fin n → ℕ)
    (arrival : Fin n → UInt64) (events : List Event) (s : State n m) (thread : ℕ) (time : UInt64),
    (∀ t : Fin n, config.app t = t) →
    Along (Legal config) (step config) events (start requirement arrival) →
    runEvents (step config) events (start requirement arrival) = .ok s →
    Legal config s (.exit thread time) → Readjusts config thread s →
    Ensures (MovesTogether time s) (· ≠ .exit) (threadExit config thread time s) := by
  intro all
  have moves := all 2 1 twoTasks (fun _ => 1) (fun t => if t = 0 then 0 else 150)
    [.create 0 true, .create 0 true] _ 0 500 (by decide)
    ⟨trivial, fun _ _ => ⟨trivial, fun _ _ => trivial⟩⟩ rfl ⟨⟨0, by decide⟩, by decide⟩
    (by decide)
  have later := moves.of_ok rfl
  exact absurd (later.2.2.2 1) (by decide)

end GpuHotSpot.Common.Open
