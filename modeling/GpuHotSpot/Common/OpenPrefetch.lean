import GpuHotSpot.Common.OpenBookkeeping

/-!
# What the open scheduler does when the system goes empty

`threadExit` schedules a task when the last active one has ended, since the simulator would end or
wait forever without one. It looks at the tasks that are yet to arrive alone: when all the tasks
that are left wait in the queue, nothing is scheduled.

* `schedule_maps`: a task in front of the queue gets its cores when all of them are free.
* `nextArrivalTime_waiting`, `nextArrivalTime_least`: the arrival time found.
* `goes_on_iff`: when a task is made active.
-/

namespace GpuHotSpot.Common.Open

open Fallible

variable {n m : ℕ} {config : Config n m} {s : State n m} {t : Fin n} {thread : ℕ} {time : UInt64}

/-! ## Scheduling on free cores -/

/-- The cores on which threads may run. -/
def Config.unmasked (config : Config n m) : Finset (Fin m) :=
  Finset.univ.filter fun c => config.coreMask c

theorem State.all_free_iff :
    s.numberOfFreeCores = m ↔ ∀ c, (s.systemCores c).assignedTaskID = none := by
  refine (Eq.congr_right (Fintype.card_fin m).symm).trans ((Finset.card_eq_iff_eq_univ _).trans ?_)
  simp [Finset.filter_eq_self]

/-- The policy finds cores where all are free. -/
theorem executeMappingPolicy_isSome (free : s.numberOfFreeCores = m)
    (room : (s.openTasks t).taskCoreRequirement ≤ config.unmasked.card) :
    executeMappingPolicy config t s ≠ none := by
  have unassigned := State.all_free_iff.1 free
  have available : config.unmasked.card ≤ ((preferredCoresOrder config.preferredCore).filter
      fun c => config.coreMask c && (s.systemCores c).assignedTaskID.isNone).length := by
    refine le_trans (Finset.card_le_card fun c mask => ?_) (List.toFinset_card_le _)
    simpa [unassigned, (preferredCoresOrder_spec _).1 c, Config.unmasked] using mask
  simp only [executeMappingPolicy]
  rcases Nat.eq_zero_or_pos (s.openTasks t).taskCoreRequirement with none | some_core
  · simp [none]
  · have enough := room.trans available
    rw [mapLoop_eq some_core]
    simp only [List.length_nil, Nat.zero_add, Nat.sub_zero, List.nil_append]
    rw [if_pos enough, if_neg (by rw [List.length_take_of_le enough]; omega)]
    exact Option.some_ne_none _

theorem State.enqueue_front (queued : (s.openTasks t).waitingInQueue = true) :
    (s.enqueue t).taskFrontOfQueue = s.taskFrontOfQueue := by
  refine congrArg (List.find? · (List.finRange n)) (funext fun u => ?_)
  rcases eq_or_ne u t with rfl | ne
  · simp [State.enqueue, State.setTask, queued]
  · simp [State.enqueue, State.setTask, ne]

/-- **The task in front of the queue** is made active when all cores are free and it has arrived. -/
theorem schedule_maps (front : s.taskFrontOfQueue = some t) (free : s.numberOfFreeCores = m)
    (room : (s.openTasks t).taskCoreRequirement ≤ config.unmasked.card)
    (arrived : (s.openTasks t).taskArrivalTime ≤ time) :
    Ensures (fun r => (r.2.openTasks t).active = true) (· = .undefined)
      (schedule config t false time s) := by
  have requirement : ((s.enqueue t).openTasks t).taskCoreRequirement =
      (s.openTasks t).taskCoreRequirement := by simp [State.enqueue, State.setTask]
  have masked : config.unmasked.card ≤ m := (Finset.card_le_univ _).trans_eq (Fintype.card_fin m)
  have free' : (s.enqueue t).numberOfFreeCores = m := free
  have front' := (State.enqueue_front (s.front_inQueue front)).trans front
  rw [schedule, if_neg (UInt64.not_lt.mpr arrived)]
  dsimp only
  rw [if_neg (not_not.mpr front'), if_neg (by rw [requirement, free']; omega)]
  have mapped := executeMappingPolicy_isSome free' (requirement ▸ room)
  split
  · exact absurd ‹_› mapped
  · rw [if_neg Bool.false_ne_true, wakeTask]
    split_ifs
    · simp [Except.map, State.activate, State.setTask]
    · exact rfl

/-! ## The next arrival -/

/-- What the loop makes of one more arrival time. The time 0 stands for none. -/
def earlier (next arrival : UInt64) : UInt64 :=
  if next = 0 then arrival else if arrival < next then arrival else next

theorem earlier_eq_or (next arrival : UInt64) :
    earlier next arrival = next ∨ earlier next arrival = arrival := by
  rw [earlier]
  split_ifs <;> simp

theorem earlier_least (next : UInt64) {arrival : UInt64} (nonzero : arrival ≠ 0) :
    earlier next arrival ≠ 0 ∧ earlier next arrival ≤ arrival ∧
      (next ≠ 0 → earlier next arrival ≤ next) := by
  rw [earlier]
  split_ifs with none less
  · exact ⟨nonzero, UInt64.le_refl _, fun found => absurd none found⟩
  · exact ⟨nonzero, UInt64.le_refl _, fun _ => UInt64.le_of_lt less⟩
  · exact ⟨none, UInt64.not_lt.mp less, fun _ => UInt64.le_refl _⟩

theorem foldl_earlier_mem (arrivals : List UInt64) (next : UInt64) :
    arrivals.foldl earlier next = next ∨ arrivals.foldl earlier next ∈ arrivals := by
  induction arrivals generalizing next with
  | nil => exact .inl rfl
  | cons arrival arrivals ih =>
    rw [List.foldl_cons]
    rcases ih (earlier next arrival) with first | later
    · rcases earlier_eq_or next arrival with same | new
      · exact .inl (first.trans same)
      · exact .inr (List.mem_cons.mpr (.inl (first.trans new)))
    · exact .inr (List.mem_cons_of_mem _ later)

theorem foldl_earlier_least {arrivals : List UInt64} (nonzero : 0 ∉ arrivals) (next : UInt64) :
    (next ≠ 0 → arrivals.foldl earlier next ≠ 0 ∧ arrivals.foldl earlier next ≤ next) ∧
      ∀ arrival ∈ arrivals, arrivals.foldl earlier next ≠ 0 ∧
        arrivals.foldl earlier next ≤ arrival := by
  induction arrivals generalizing next with
  | nil => exact ⟨fun found => ⟨found, UInt64.le_refl _⟩, nofun⟩
  | cons arrival arrivals ih =>
    rw [List.mem_cons, not_or] at nonzero
    obtain ⟨found, least, before⟩ := earlier_least next (Ne.symm nonzero.1)
    obtain ⟨first, later⟩ := ih nonzero.2 (earlier next arrival)
    obtain ⟨result, below⟩ := first found
    rw [List.foldl_cons, List.forall_mem_cons]
    exact ⟨fun some => ⟨result, UInt64.le_trans below (before some)⟩, ⟨result, UInt64.le_trans below least⟩, later⟩

/-- The arrival times of the tasks that are yet to arrive. -/
def State.arrivals (s : State n m) : List UInt64 :=
  ((List.finRange n).filter fun t => (s.openTasks t).waitingToSchedule).map
    fun t => (s.openTasks t).taskArrivalTime

theorem State.mem_arrivals {arrival : UInt64} : arrival ∈ s.arrivals ↔
    ∃ t, (s.openTasks t).waitingToSchedule = true ∧ (s.openTasks t).taskArrivalTime = arrival := by
  simp [State.arrivals]

theorem nextArrivalTime_eq (s : State n m) : nextArrivalTime s = s.arrivals.foldl earlier 0 := by
  rw [State.arrivals, List.foldl_map, List.foldl_filter]
  rfl

/-- The arrival time found is that of a task. -/
theorem nextArrivalTime_waiting (found : nextArrivalTime s ≠ 0) :
    ∃ t, (s.openTasks t).waitingToSchedule = true ∧
      (s.openTasks t).taskArrivalTime = nextArrivalTime s := by
  rw [nextArrivalTime_eq] at found ⊢
  exact State.mem_arrivals.1 ((foldl_earlier_mem s.arrivals 0).resolve_left found)

/-- The arrival time found is the earliest, if no task arrives at 0. -/
theorem nextArrivalTime_least
    (nonzero : ∀ t, (s.openTasks t).waitingToSchedule = true → (s.openTasks t).taskArrivalTime ≠ 0)
    (waiting : (s.openTasks t).waitingToSchedule = true) :
    nextArrivalTime s ≠ 0 ∧ nextArrivalTime s ≤ (s.openTasks t).taskArrivalTime := by
  have some : 0 ∉ s.arrivals := fun none =>
    let ⟨u, waits, zero⟩ := State.mem_arrivals.1 none
    nonzero u waits zero
  rw [nextArrivalTime_eq]
  exact (foldl_earlier_least some 0).2 _ (State.mem_arrivals.2 ⟨t, waiting, rfl⟩)

/-! ## Going empty -/

/-- The system goes empty with the end of the thread. -/
def Empties (config : Config n m) (thread : ℕ) (s : State n m) : Prop :=
  ∀ c t, (s.systemCores c).assignedTaskID = some t → thread < n ∧ config.app thread = t

instance : DecidablePred (Empties config thread) := fun s =>
  inferInstanceAs (Decidable (∀ c t, (s.systemCores c).assignedTaskID = some t →
    thread < n ∧ config.app thread = t))

/-- The task is left behind the end of the thread. -/
def Left (config : Config n m) (thread : ℕ) (s : State n m) (t : Fin n) : Prop :=
  (s.openTasks t).completed = false ∧ ¬(thread < n ∧ config.app thread = t)

/-- **The condition.** Some task is yet to arrive if any is left, and then the front of the queue has
arrived. -/
def GoesOn (config : Config n m) (thread : ℕ) (time : UInt64) (s : State n m) : Prop :=
  Empties config thread s →
    ((∃ t, Left config thread s t) → ∃ t, (s.openTasks t).waitingToSchedule = true) ∧
      ((∃ t, (s.openTasks t).waitingToSchedule = true) → ∀ t, s.taskFrontOfQueue = some t →
        (s.openTasks t).taskArrivalTime ≤ time)

/-- If all cores are free when the call returns and a task is left, it has made a task active. -/
def MakesActive (s : State n m) (result : Except Fault (State n m)) : Prop :=
  ∀ s', result = .ok s' → s'.numberOfFreeCores = m → (∃ t, (s'.openTasks t).completed = false) →
    ∃ t, (s.openTasks t).active = false ∧ (s'.openTasks t).active = true

theorem empties_iff (time : UInt64) :
    Empties config thread s ↔ (release config thread time s).numberOfFreeCores = m := by
  rw [State.all_free_iff]
  refine forall_congr' fun c => ?_
  rw [Option.eq_none_iff_forall_ne_some]
  refine forall_congr' fun t => ?_
  rw [Ne, release_task]
  tauto

theorem release_flags (t : Fin n) :
    (((release config thread time s).openTasks t).waitingToSchedule =
        (s.openTasks t).waitingToSchedule ∧
      ((release config thread time s).openTasks t).waitingInQueue =
        (s.openTasks t).waitingInQueue) ∧
      ((release config thread time s).openTasks t).taskCoreRequirement =
        (s.openTasks t).taskCoreRequirement ∧
      ((release config thread time s).openTasks t).taskArrivalTime =
        (s.openTasks t).taskArrivalTime := by
  rw [release_openTasks]
  split_ifs <;> exact ⟨⟨rfl, rfl⟩, rfl, rfl⟩

theorem release_front :
    (release config thread time s).taskFrontOfQueue = s.taskFrontOfQueue :=
  congrArg (List.find? · (List.finRange n)) (funext fun t => (release_flags t).1.2)

theorem release_left (t : Fin n) :
    ((release config thread time s).openTasks t).completed = false ↔ Left config thread s t := by
  rw [release_openTasks, Left]
  split_ifs with ends <;> simp [ends]

/-- Releasing cores makes no task active. -/
theorem release_active (on : ((release config thread time s).openTasks t).active = true) :
    (s.openTasks t).active = true := by
  rw [release_openTasks] at on
  split_ifs at on
  exact on

theorem State.waiting_iff : s.numberOfTasksWaitingToSchedule ≠ 0 ↔
    ∃ t, (s.openTasks t).waitingToSchedule = true := by
  rw [State.numberOfTasksWaitingToSchedule, Finset.card_ne_zero]
  simp [Finset.Nonempty]

theorem State.inQueue_iff : s.numberOfTasksInQueue ≠ 0 ↔ ∃ t, s.taskFrontOfQueue = some t := by
  rw [State.numberOfTasksInQueue, Finset.card_ne_zero, ← Option.isSome_iff_exists,
    State.taskFrontOfQueue, List.find?_isSome]
  simp [Finset.Nonempty]

/-- The task in front of the queue is scheduled on free cores. -/
theorem scheduleFront_maps (front : s.taskFrontOfQueue = some t) (free : s.numberOfFreeCores = m)
    (room : (s.openTasks t).taskCoreRequirement ≤ config.unmasked.card)
    (arrived : (s.openTasks t).taskArrivalTime ≤ time) :
    Ensures (fun s' => (s'.openTasks t).active = true) (· = .undefined)
      (scheduleFront config time s >>= fun r => pure r.2) := by
  rw [scheduleFront, front]
  exact (schedule_maps front free room arrived).bind fun _ on => on

/-- The tasks of the queue after a fetch: those of before, and those that have arrived. -/
theorem fetched_inQueue :
    ((fetchTasksIntoQueue time s).openTasks t).waitingInQueue = true ↔
      (s.openTasks t).waitingInQueue = true ∨
        (s.openTasks t).waitingToSchedule = true ∧ (s.openTasks t).taskArrivalTime ≤ time := by
  simp only [fetchTasksIntoQueue]
  split_ifs with arrived
  · exact iff_of_true rfl (.inr arrived)
  · exact (or_iff_left arrived).symm

theorem fetched_same : ((fetchTasksIntoQueue time s).openTasks t).taskArrivalTime =
      (s.openTasks t).taskArrivalTime ∧
    ((fetchTasksIntoQueue time s).openTasks t).taskCoreRequirement =
      (s.openTasks t).taskCoreRequirement := by
  simp only [fetchTasksIntoQueue]
  split_ifs <;> exact ⟨rfl, rfl⟩

theorem readjust_flags (timeJump : UInt64) :
    (((readjust timeJump s).openTasks t).waitingInQueue = (s.openTasks t).waitingInQueue ∧
      ((readjust timeJump s).openTasks t).waitingToSchedule = (s.openTasks t).waitingToSchedule) ∧
    ((readjust timeJump s).openTasks t).taskCoreRequirement =
      (s.openTasks t).taskCoreRequirement := by
  simp only [readjust]
  split_ifs <;> exact ⟨⟨rfl, rfl⟩, rfl⟩

theorem readjust_arrival (timeJump : UInt64) (waits : (s.openTasks t).waitingToSchedule = true) :
    ((readjust timeJump s).openTasks t).taskArrivalTime =
      (s.openTasks t).taskArrivalTime - timeJump := by
  simp only [readjust, if_pos waits]

/-- The arrival times are moved such that the next task arrives now, and it is put into the queue. -/
theorem fetched_front (time : UInt64) (empty : s.numberOfTasksInQueue = 0) (found : nextArrivalTime s ≠ 0) :
    ∃ t, (fetchTasksIntoQueue time
        (readjust (nextArrivalTime s - time) s)).taskFrontOfQueue = some t ∧
      (s.openTasks t).waitingToSchedule = true ∧ ((fetchTasksIntoQueue time
        (readjust (nextArrivalTime s - time) s)).openTasks t).taskArrivalTime ≤ time := by
  obtain ⟨u, waits, arrives⟩ := nextArrivalTime_waiting found
  have unqueued (v : Fin n) : (s.openTasks v).waitingInQueue ≠ true := fun queued => by
    have none := Finset.filter_eq_empty_iff.mp (Finset.card_eq_zero.mp empty)
    exact none (Finset.mem_univ v) queued
  have now : ((readjust (nextArrivalTime s - time) s).openTasks u).taskArrivalTime = time := by
    rw [readjust_arrival _ waits, arrives, sub_sub_cancel]
  have fetched := fetched_inQueue.2 (.inr ⟨(readjust_flags _).1.2.trans waits,
    UInt64.le_of_eq now⟩)
  obtain ⟨t, front⟩ := State.inQueue_iff.1 (Finset.card_ne_zero.mpr
    ⟨u, Finset.mem_filter.mpr ⟨Finset.mem_univ u, fetched⟩⟩)
  refine ⟨t, front, ?_⟩
  rw [fetched_same.1, ← (readjust_flags (nextArrivalTime s - time)).1.2]
  rcases fetched_inQueue.1 (State.front_inQueue front) with before | arrived
  · exact absurd ((readjust_flags _).1.1.symm.trans before) (unqueued t)
  · exact arrived

/-- **Where the system does not go on**, nothing is scheduled. -/
theorem prefetch_rest {r : State n m} (stays : r.numberOfFreeCores = m →
    (∃ t, (r.openTasks t).waitingToSchedule = true) →
      ∃ t, r.taskFrontOfQueue = some t ∧ time < (r.openTasks t).taskArrivalTime) :
    prefetch config time r = .ok r := by
  rw [prefetch]
  split_ifs with empty queued found
  · obtain ⟨t, front, early⟩ := stays empty.1 (State.waiting_iff.1 empty.2)
    rw [scheduleFront, front]
    dsimp only
    rw [schedule, if_pos early]
    rfl
  all_goals
    first
    | rfl
    | obtain ⟨t, front, -⟩ := stays empty.1 (State.waiting_iff.1 empty.2)
      exact absurd (State.inQueue_iff.2 ⟨t, front⟩) queued

/-- **A task is made active** where one is yet to arrive and the front of the queue has arrived. -/
theorem prefetch_maps {r : State n m} (free : r.numberOfFreeCores = m)
    (waiting : ∃ t, (r.openTasks t).waitingToSchedule = true)
    (room : ∀ t, (r.openTasks t).taskCoreRequirement ≤ config.unmasked.card)
    (arrived : ∀ t, r.taskFrontOfQueue = some t → (r.openTasks t).taskArrivalTime ≤ time) :
    Ensures (fun s' => ∃ t, ((r.openTasks t).waitingInQueue = true ∨
        (r.openTasks t).waitingToSchedule = true) ∧ (s'.openTasks t).active = true)
      (fun _ => True) (prefetch config time r) := by
  rw [prefetch, if_pos ⟨free, State.waiting_iff.2 waiting⟩]
  split_ifs with queued found
  · obtain ⟨t, front⟩ := State.inQueue_iff.1 queued
    exact (scheduleFront_maps front free (room t) (arrived t front)).imp
      (fun _ on => ⟨t, .inl (State.front_inQueue front), on⟩) fun _ _ => trivial
  · trivial
  · obtain ⟨t, front, waits, arrives⟩ := fetched_front time (not_not.mp queued) found
    refine (scheduleFront_maps front free ?_ arrives).imp
      (fun _ on => ⟨t, .inr waits, on⟩) fun _ _ => trivial
    rw [fetched_same.2, (readjust_flags _).2]
    exact room t

/-- **Exactly when a task is made active**: in every state of every run, where no task requires more
cores than there are to run on. -/
theorem goes_on_iff (config : Config n m) (requirement : Fin n → ℕ) (arrival : Fin n → UInt64)
    (events : List Event) (first : ∀ t : Fin n, config.app t = t)
    (legal : Along (Legal config) (step config) events (start requirement arrival))
    (ran : runEvents (step config) events (start requirement arrival) = .ok s) (thread : ℕ)
    (time : UInt64) (exits : Legal config s (.exit thread time))
    (room : ∀ t, (s.openTasks t).taskCoreRequirement ≤ config.unmasked.card) :
    MakesActive s (threadExit config thread time s) ↔ GoesOn config thread time s := by
  have books := (Books.of_run first legal).of_ok ran
  set r := release config thread time s with released
  -- tasks that wait in the released state are not active before
  have inactive {t : Fin n} (waits : (r.openTasks t).waitingInQueue = true ∨
      (r.openTasks t).waitingToSchedule = true) : (s.openTasks t).active = false := by
    rw [(release_flags t).1.1, (release_flags t).1.2] at waits
    exact ((books.oneState t).waits_iff.mpr waits.symm).1
  have unchanged (empties : Empties config thread s) {t : Fin n} (left : Left config thread s t)
      (stays : threadExit config thread time s = .ok r) :
      ¬MakesActive s (threadExit config thread time s) := fun makes => by
    obtain ⟨u, off, on⟩ := makes r stays ((empties_iff time).mp empties) ⟨t, (release_left t).mpr left⟩
    exact ne_true_of_eq_false off (release_active on)
  constructor
  · refine fun makes empties => ⟨fun ⟨t, left⟩ => ?_, fun waiting t front => ?_⟩
    · by_contra none
      refine unchanged empties left (prefetch_rest fun _ ⟨u, waits⟩ => ?_) makes
      exact absurd ⟨u, (release_flags u).1.1.symm.trans waits⟩ none
    · by_contra early
      have queued := State.front_inQueue front
      have waits := (books.oneState t).waits_iff.mpr (.inr queued)
      have left : Left config thread s t := by
        refine ⟨waits.2, fun ends => ?_⟩
        obtain ⟨⟨c, runs⟩, -⟩ := exits
        refine ne_true_of_eq_false waits.1 (books.owner_active c t ?_)
        exact ends.2 ▸ books.thread_task c thread runs
      refine unchanged empties left (prefetch_rest fun _ _ => ⟨t, ?_, ?_⟩) makes
      · rw [release_front, front]
      · rw [(release_flags t).2.2]
        exact UInt64.not_le.mp early
  · intro goes s' done free ⟨t, left⟩
    by_cases some : Empties config thread s ∧ ∃ t, (s.openTasks t).waitingToSchedule = true
    · have arrived (u : Fin n) (front : r.taskFrontOfQueue = .some u) :
          (r.openTasks u).taskArrivalTime ≤ time := by
        rw [(release_flags u).2.2]
        exact (goes some.1).2 some.2 u (release_front.symm.trans front)
      obtain ⟨u, waits, on⟩ := (prefetch_maps ((empties_iff time).mp some.1)
        (some.2.imp fun u waits => (release_flags u).1.1.trans waits)
        (fun u => (release_flags u).2.1.trans_le (room u)) arrived).of_ok done
      exact ⟨u, inactive waits, on⟩
    · have stays : threadExit config thread time s = .ok r :=
        prefetch_rest fun empty waiting => absurd ⟨(empties_iff time).mpr empty,
          waiting.imp fun u waits => (release_flags u).1.1.symm.trans waits⟩ some
      obtain rfl := Except.ok.inj (stays.symm.trans done)
      have empties := (empties_iff time).mpr free
      exact absurd ⟨empties, (goes empties).1 ⟨t, (release_left t).mp left⟩⟩ some

/-- Two tasks that share a core. -/
def twoTasks : Config 2 1 :=
  ⟨fun _ => true, [], 10000000,
    fun thread => if thread = 0 then ⟨0, Nat.two_pos⟩ else ⟨1, Nat.one_lt_two⟩⟩

/-- The second task is yet to arrive when the first one ends. -/
theorem goes_on_later : ∃ s, runEvents (step twoTasks) [.create 0 true, .create 0 true]
      (start (fun _ => 1) fun t => if t = 0 then 0 else 700) = .ok s ∧
    MakesActive s (threadExit twoTasks 0 500 s) := by
  obtain ⟨s, ran⟩ : ∃ s, runEvents (step twoTasks) [.create 0 true, .create 0 true]
      (start (fun _ => 1) fun t => if t = 0 then 0 else 700) = .ok s := ⟨_, rfl⟩
  refine ⟨s, ran, (goes_on_iff twoTasks (fun _ => 1) (fun t => if t = 0 then 0 else 700)
    [.create 0 true, .create 0 true] (by decide)
    ⟨trivial, fun _ _ => ⟨trivial, fun _ _ => trivial⟩⟩ ran 0 500 ?_ ?_).mpr ?_⟩
  all_goals cases ran
  · exact ⟨⟨0, by decide⟩, by decide⟩
  · decide
  · exact fun _ => ⟨fun _ => ⟨1, by decide⟩, fun _ => by decide⟩

/-- Both tasks have arrived, and when the first one ends the second one is left in the queue. -/
theorem goes_on_queued : ¬∀ (n m : ℕ) (config : Config n m) (requirement : Fin n → ℕ)
    (arrival : Fin n → UInt64) (events : List Event) (s : State n m) (thread : ℕ) (time : UInt64),
    (∀ t : Fin n, config.app t = t) →
    Along (Legal config) (step config) events (start requirement arrival) →
    runEvents (step config) events (start requirement arrival) = .ok s →
    Legal config s (.exit thread time) →
    (∀ t, (s.openTasks t).taskCoreRequirement ≤ config.unmasked.card) →
    MakesActive s (threadExit config thread time s) := by
  intro all
  have makes := all 2 1 twoTasks (fun _ => 1) (fun _ => 0) [.create 0 true, .create 0 true] _ 0 500
    (by decide) ⟨trivial, fun _ _ => ⟨trivial, fun _ _ => trivial⟩⟩ rfl
    ⟨⟨0, by decide⟩, by decide⟩ (by decide) _ rfl (by decide) ⟨1, by decide⟩
  revert makes
  decide

end GpuHotSpot.Common.Open
