import GpuHotSpot.Common.OpenArrivals

/-!
# The order in which tasks become active

The queue of the open scheduler is a flag of each task, and its front is the first flagged task in
the order of the tasks. So tasks become active in the order of their arrival times only where that
is the order of the tasks of the queue, too.

* `InOrder`: a task of the queue has not arrived after one that waits behind it.
* `Line.scheduleFront`, `Line.mapQueue`, …: what keeps the tasks in line.
* `first_in_first_out`: runs in which the queue is in order at every step.
-/

namespace GpuHotSpot.Common.Open

open Fallible

variable {n m : ℕ} {config : Config n m} {s s' : State n m} {t : Fin n} {thread : ℕ} {time : UInt64}

/-! ## Activations -/

/-- A task is made active by a call of `schedule` in the state. -/
structure Activation (n m : ℕ) where
  task : Fin n
  time : UInt64
  state : State n m

/-- The arrival time of the task, as it is then. -/
def Activation.arrival (a : Activation n m) : UInt64 := (a.state.openTasks a.task).taskArrivalTime

/-- The task waits, in the queue or to get there. -/
def OpenTask.Waiting (task : OpenTask) : Prop :=
  task.waitingToSchedule = true ∨ task.waitingInQueue = true

instance : DecidablePred OpenTask.Waiting := fun _ => inferInstanceAs (Decidable (_ ∨ _))

instance : DecidablePred OpenTask.Waits := fun _ => inferInstanceAs (Decidable (_ ∧ _))

/-- No task that has arrived earlier is waiting. -/
def Activation.Earliest (a : Activation n m) : Prop :=
  ∀ t, (a.state.openTasks t).Waiting → (a.state.openTasks t).taskArrivalTime ≤ a.time →
    a.arrival ≤ (a.state.openTasks t).taskArrivalTime

instance : DecidablePred (Activation.Earliest : Activation n m → Prop) := fun a =>
  inferInstanceAs (Decidable (∀ t, (a.state.openTasks t).Waiting →
    (a.state.openTasks t).taskArrivalTime ≤ a.time →
      a.arrival ≤ (a.state.openTasks t).taskArrivalTime))

/-- **The property**: each task is the earliest of those waiting, and none has arrived before one
that has become active earlier. -/
def FirstInFirstOut (log : List (Activation n m)) : Prop :=
  (∀ a ∈ log, a.Earliest) ∧ log.Pairwise fun a b => a.arrival ≤ b.arrival

section Log

variable (config)

/-- The task is made active where `schedule` returns true. -/
def scheduleActivations (t : Fin n) (isInitialCall : Bool) (time : UInt64) (s : State n m) :
    List (Activation n m) :=
  match schedule config t isInitialCall time s with
  | .ok (true, _) => [⟨t, time, s⟩]
  | _ => []

def frontActivations (time : UInt64) (s : State n m) : List (Activation n m) :=
  match s.taskFrontOfQueue with
  | none => []
  | some t => scheduleActivations config t false time s

/-- The activations of `mapQueue`. -/
def queueActivations (time : UInt64) : ℕ → State n m → List (Activation n m)
  | 0, _ => []
  | fuel + 1, s =>
    if s.numberOfTasksInQueue = 0 then []
    else frontActivations config time s ++ match scheduleFront config time s with
      | .ok (true, s') => queueActivations time fuel s'
      | _ => []

/-- The activations of `prefetch`. -/
def prefetchActivations (time : UInt64) (s : State n m) : List (Activation n m) :=
  if s.numberOfFreeCores = m ∧ s.numberOfTasksWaitingToSchedule ≠ 0 then
    if s.numberOfTasksInQueue ≠ 0 then frontActivations config time s
    else if nextArrivalTime s = 0 then []
    else frontActivations config time
      (fetchTasksIntoQueue time (readjust (nextArrivalTime s - time) s))
  else []

/-- The activations of a step, in their order. -/
def activations : Event → State n m → List (Activation n m)
  | .create time _, s =>
    if h : s.numThreads < n then
      scheduleActivations config ⟨s.numThreads, h⟩ true time
        { s with numThreads := s.numThreads + 1 }
    else []
  | .exit thread time, s => prefetchActivations config time (release config thread time s)
  | .periodic time, s =>
    if time % 1000000 = 0 ∧ ¬Consistent s then []
    else if config.mappingEpoch = 0 then []
    else if time % config.mappingEpoch = 0 then
      queueActivations config time n (fetchTasksIntoQueue time s)
    else []

end Log

/-! ## Tasks in line -/

/-- The queue is in the order of the arrival times: no task of it that has arrived is behind, or yet
to be joined by, a task that has arrived before it. -/
def InOrder (time : UInt64) (s : State n m) : Prop :=
  ∀ t u, (s.openTasks t).waitingInQueue = true → (s.openTasks t).taskArrivalTime ≤ time →
    (s.openTasks u).waitingInQueue = true ∧ t < u ∨ (s.openTasks u).waitingToSchedule = true →
    (s.openTasks t).taskArrivalTime ≤ (s.openTasks u).taskArrivalTime

instance : DecidablePred (InOrder time : State n m → Prop) := fun s =>
  inferInstanceAs (Decidable (∀ t u, (s.openTasks t).waitingInQueue = true →
    (s.openTasks t).taskArrivalTime ≤ time →
    (s.openTasks u).waitingInQueue = true ∧ t < u ∨ (s.openTasks u).waitingToSchedule = true →
    (s.openTasks t).taskArrivalTime ≤ (s.openTasks u).taskArrivalTime))

/-- The tasks that have begun have arrived before those that have not. -/
def BegunFirst (s : State n m) : Prop :=
  ∀ t u, ¬(s.openTasks t).Waits → (s.openTasks u).Waits →
    (s.openTasks t).taskArrivalTime ≤ (s.openTasks u).taskArrivalTime

instance : DecidablePred (BegunFirst : State n m → Prop) := fun s =>
  inferInstanceAs (Decidable (∀ t u, ¬(s.openTasks t).Waits → (s.openTasks u).Waits →
    (s.openTasks t).taskArrivalTime ≤ (s.openTasks u).taskArrivalTime))

/-- The front of the queue is in line. -/
theorem InOrder.front (inOrder : InOrder time s) (front : s.taskFrontOfQueue = some t)
    (arrived : (s.openTasks t).taskArrivalTime ≤ time) {u : Fin n}
    (waiting : (s.openTasks u).Waiting) :
    (s.openTasks t).taskArrivalTime ≤ (s.openTasks u).taskArrivalTime := by
  have queued := s.front_inQueue front
  rcases waiting with coming | inQueue
  · exact inOrder t u queued arrived (.inr coming)
  · rcases eq_or_ne t u with rfl | ne
    · exact UInt64.le_refl _
    · refine inOrder t u queued arrived
        (.inl ⟨inQueue, lt_of_le_of_ne (not_lt.mp fun before => ?_) ne⟩)
      -- the front is the first of the queue
      obtain ⟨-, i, hi, at_i, none⟩ := List.find?_eq_some_iff_getElem.mp front
      rw [List.getElem_finRange] at at_i
      have lt : (u : ℕ) < i := by
        have := congrArg Fin.val at_i
        simp only [Fin.val_cast] at this
        omega
      have first := none u lt
      simp only [List.getElem_finRange] at first
      simp [inQueue] at first

/-- **The invariant**: the log is first in, first out, and names the tasks that have begun. -/
structure Line (log : List (Activation n m)) (s : State n m) : Prop where
  fifo : FirstInFirstOut log
  begun_iff : ∀ t, ¬(s.openTasks t).Waits ↔ ∃ a ∈ log, a.task = t
  arrival : ∀ a ∈ log, (s.openTasks a.task).taskArrivalTime = a.arrival
  begunFirst : BegunFirst s

namespace Line

variable {log : List (Activation n m)}

/-- No task begins and no arrival time moves. -/
theorem same (line : Line log s) (waits : ∀ t, (s'.openTasks t).Waits ↔ (s.openTasks t).Waits)
    (arrivals : SameArrivals s s') : Line log s' where
  fifo := line.fifo
  begun_iff t := (not_congr (waits t)).trans (line.begun_iff t)
  arrival a logged := (arrivals a.task).trans (line.arrival a logged)
  begunFirst t u begun waiting := by
    rw [arrivals, arrivals]
    exact line.begunFirst t u (mt (waits t).mpr begun) ((waits u).mp waiting)

/-- One task begins, the earliest of those waiting. -/
theorem activate (line : Line log s) {a : Activation n m} (waits : (s.openTasks a.task).Waits)
    (same : ∀ t, (a.state.openTasks t).taskArrivalTime = (s.openTasks t).taskArrivalTime)
    (earliest : a.Earliest)
    (least : ∀ t, (s.openTasks t).Waits → a.arrival ≤ (s.openTasks t).taskArrivalTime)
    (arrivals : SameArrivals s s')
    (rest : ∀ t, (s'.openTasks t).Waits ↔ (s.openTasks t).Waits ∧ t ≠ a.task) :
    Line (log ++ [a]) s' where
  fifo := by
    refine ⟨fun b member => ?_, List.pairwise_append.mpr
      ⟨line.fifo.2, List.pairwise_singleton _ _, fun b logged c last => ?_⟩⟩
    · rcases List.mem_append.mp member with logged | last
      · exact line.fifo.1 b logged
      · rw [List.mem_singleton.mp last]
        exact earliest
    · rw [List.mem_singleton.mp last, ← line.arrival b logged, Activation.arrival, same]
      exact line.begunFirst _ _ ((line.begun_iff _).mpr ⟨b, logged, rfl⟩) waits
  begun_iff t := by
    rw [rest, not_and_or, not_not, line.begun_iff]
    simp only [List.mem_append, List.mem_singleton, or_and_right, exists_or, exists_eq_left]
    exact or_congr_right eq_comm
  arrival b member := by
    rw [arrivals]
    rcases List.mem_append.mp member with logged | last
    · exact line.arrival b logged
    · rw [List.mem_singleton.mp last, Activation.arrival, same]
  begunFirst t u begun waiting := by
    rw [arrivals, arrivals]
    have waits := ((rest u).mp waiting).1
    rcases eq_or_ne t a.task with rfl | ne
    · rw [← same, ← Activation.arrival]
      exact least u waits
    · exact line.begunFirst t u (fun yet => begun ((rest t).mpr ⟨yet, ne⟩)) waits

end Line

/-! ## What a step does to the line -/

/-- The tasks behind a call of `schedule` that has mapped its task. -/
theorem mapped_openTasks (config : Config n m) (s : State n m) (t : Fin n) (time : UInt64)
    (isInitialCall : Bool) (cores : List (Fin m)) (u : Fin n) :
    ((if isInitialCall then ((s.enqueue t).assign cores t).activate t time
      else (setAffinity config t (((s.enqueue t).assign cores t).activate t time)).2).openTasks u) =
    if u = t then { s.openTasks t with
      taskStartTime := time, active := true, waitingInQueue := false, waitingToSchedule := false }
    else s.openTasks u := by
  have tasks : (if isInitialCall then ((s.enqueue t).assign cores t).activate t time
      else (setAffinity config t (((s.enqueue t).assign cores t).activate t time)).2).openTasks =
      (((s.enqueue t).assign cores t).activate t time).openTasks := by
    rw [setAffinity]
    cases isInitialCall <;> cases coreFound config t _ <;> rfl
  rw [tasks]
  rcases eq_or_ne u t with rfl | ne
  · simp [State.activate, State.setTask, State.assign, State.enqueue]
  · simp [State.activate, State.setTask, State.assign, State.enqueue, ne]

/-- A task that is mapped has been in front of the queue. -/
theorem schedule_front {isInitialCall : Bool}
    (mapped : schedule config t isInitialCall time s = .ok (true, s')) :
    (s.enqueue t).taskFrontOfQueue = some t := by
  by_contra other
  rw [schedule] at mapped
  dsimp only at mapped
  rw [if_pos other] at mapped
  split_ifs at mapped <;> cases mapped

/-- Putting a task into the queue begins nothing. -/
theorem enqueue_waits (u : Fin n) : ((s.enqueue t).openTasks u).Waits ↔ (s.openTasks u).Waits := by
  rcases eq_or_ne u t with rfl | ne
  · simp [State.enqueue, State.setTask, OpenTask.Waits]
  · simp [State.enqueue, State.setTask, ne]

/-- A task that waits in the queue or to get there still does. -/
theorem enqueue_waiting {u : Fin n} (waiting : (s.openTasks u).Waiting) :
    ((s.enqueue t).openTasks u).Waiting := by
  rcases eq_or_ne u t with rfl | ne
  · simp [State.enqueue, State.setTask, OpenTask.Waiting]
  · simpa [State.enqueue, State.setTask, ne] using waiting

theorem enqueue_arrivals : SameArrivals s (s.enqueue t) := sameArrivals_setTask fun _ => rfl

namespace Line

variable {log : List (Activation n m)}

/-- **A call of `schedule`**, for a task that is in line if it is in front of the queue. -/
theorem schedule (line : Line log s) (config : Config n m) (time : UInt64)
    (isInitialCall : Bool) (waits : (s.openTasks t).Waits)
    (waiting : ∀ u, (s.openTasks u).Waits ↔ (s.openTasks u).Waiting)
    (least : (s.openTasks t).taskArrivalTime ≤ time → (s.enqueue t).taskFrontOfQueue = some t →
      ∀ u, (s.openTasks u).Waiting →
        (s.openTasks t).taskArrivalTime ≤ (s.openTasks u).taskArrivalTime) :
    Ensures (fun r => Line (log ++ scheduleActivations config t isInitialCall time s) r.2 ∧
        (r.1 = true → ∀ u, r.2.openTasks u = if u = t then { s.openTasks t with
          taskStartTime := time, active := true, waitingInQueue := false,
          waitingToSchedule := false } else s.openTasks u))
      (fun _ => FirstInFirstOut (log ++ scheduleActivations config t isInitialCall time s))
      (Open.schedule config t isInitialCall time s) := by
  have done : Ensures (Scheduled config t isInitialCall time s) _ _ :=
    schedule_ensures t isInitialCall time s
  rw [scheduleActivations]
  cases ran : Open.schedule config t isInitialCall time s with
  | error f =>
    dsimp only
    rw [List.append_nil]
    exact line.fifo
  | ok r =>
    rw [ran] at done
    cases done with
    | early =>
      dsimp only
      rw [List.append_nil]
      exact ⟨line, nofun⟩
    | queued =>
      dsimp only
      rw [List.append_nil]
      exact ⟨line.same enqueue_waits enqueue_arrivals, nofun⟩
    | mapped arrived cores =>
      have first := least arrived (schedule_front ran)
      have tasks := mapped_openTasks config s t time isInitialCall cores
      refine ⟨line.activate waits (fun _ => rfl) (fun u waits _ => first u waits)
        (fun u yet => first u ((waiting u).mp yet)) (fun u => ?_) fun u => ?_, fun _ => tasks⟩
      · rw [tasks]
        split_ifs with isTask
        · rw [isTask]
        · rfl
      · rw [tasks]
        split_ifs with isTask
        · simp [OpenTask.Waits, isTask]
        · simp [isTask]

/-- The front of a queue that is in order is scheduled. -/
theorem scheduleFront (line : Line log s) (books : Books config s) (inOrder : InOrder time s) :
    Ensures (fun r => Line (log ++ frontActivations config time s) r.2 ∧
        (r.1 = true → InOrder time r.2))
      (fun _ => FirstInFirstOut (log ++ frontActivations config time s))
      (Open.scheduleFront config time s) := by
  rw [Open.scheduleFront, frontActivations]
  cases front : s.taskFrontOfQueue with
  | none =>
    dsimp only
    rw [List.append_nil]
    exact line.fifo
  | some t =>
    refine (line.schedule config time false (books.front_waits front)
      (fun u => (books.oneState u).waits_iff)
      fun arrived _ u waiting => inOrder.front front arrived waiting).mono
      fun r spec => ⟨spec.1, fun mapped v u queued arrived behind => ?_⟩
    have tasks := spec.2
    rw [tasks mapped] at queued arrived behind
    rw [tasks mapped v, tasks mapped u]
    by_cases isFront : v = t
    · rw [if_pos isFront] at queued
      cases queued
    · by_cases nowActive : u = t
      · rw [if_pos nowActive] at behind
        rcases behind with ⟨queued, -⟩ | coming
        · cases queued
        · cases coming
      · rw [if_neg isFront] at queued arrived ⊢
        rw [if_neg nowActive] at behind ⊢
        exact inOrder v u queued arrived behind

/-- **The loop of `periodic`**, by induction on its fuel: the queue stays in order. -/
theorem mapQueue (line : Line log s) (books : Books config s)
    (first : ∀ t : Fin n, config.app t = t) (inOrder : InOrder time s) (fuel : ℕ) :
    Ensures (Line (log ++ queueActivations config time fuel s))
      (fun _ => FirstInFirstOut (log ++ queueActivations config time fuel s))
      (Open.mapQueue config time fuel s) := by
  induction fuel generalizing s log with
  | zero =>
    rw [Open.mapQueue, queueActivations, List.append_nil]
    split_ifs
    · exact line
    · exact line.fifo
  | succ fuel ih =>
    rw [Open.mapQueue, queueActivations]
    split_ifs with empty
    · rw [List.append_nil]
      exact line
    · have front := line.scheduleFront books inOrder
      have kept : Ensures (fun r => Books config r.2 ∧ _) _ (Open.scheduleFront config time s) :=
        books.scheduleFront first
      rw [← List.append_assoc]
      cases ran : Open.scheduleFront config time s with
      | error f =>
        rw [ran] at front
        rw [List.append_nil]
        exact front
      | ok r =>
        rw [ran] at front kept
        obtain ⟨mapped, s'⟩ := r
        cases mapped with
        | false =>
          rw [List.append_nil]
          exact front.1
        | true => exact ih front.1 kept.1 (front.2 rfl)

theorem fetch (line : Line log s) : Line log (fetchTasksIntoQueue time s) := by
  refine line.same (fun t => ?_) sameArrivals_fetch
  simp only [fetchTasksIntoQueue]
  split_ifs <;> exact Iff.rfl

/-- A task that ends has been active. -/
theorem release (line : Line log s) (books : Books config s)
    (legal : Legal config s (.exit thread time)) : Line log (release config thread time s) := by
  refine line.same (fun t => ?_) sameArrivals_release
  rw [release_openTasks]
  split_ifs with ends
  · obtain ⟨c, runs⟩ := legal.1
    have busy := books.owner_active c _ (books.thread_task c thread runs)
    rw [ends.2] at busy
    simp [OpenTask.Waits, busy]
  · rfl

/-- The arrival times that are moved are those of tasks that have not begun. -/
theorem readjust (line : Line log s) (books : Books config s) {timeJump : UInt64}
    (begunFirst : BegunFirst (readjust timeJump s)) : Line log (readjust timeJump s) := by
  have waits (t : Fin n) :
      ((Open.readjust timeJump s).openTasks t).Waits ↔ (s.openTasks t).Waits := by
    simp only [Open.readjust]
    split_ifs <;> rfl
  refine ⟨line.fifo, fun t => (not_congr (waits t)).trans (line.begun_iff t), fun a logged => ?_,
    begunFirst⟩
  have begun := (line.begun_iff a.task).mpr ⟨a, logged, rfl⟩
  have notComing : ¬(s.openTasks a.task).waitingToSchedule = true := fun coming =>
    begun ((books.oneState _).waits_iff.mpr (.inl coming))
  simp only [Open.readjust, if_neg notComing]
  exact line.arrival a logged

end Line

/-! ## Runs in order -/

/-- The state that a thread leaves is in order if a task is scheduled in it: the queue is, and where
the arrival times are moved, the tasks that have begun keep theirs before the others. -/
def OrderlyRest (time : UInt64) (s : State n m) : Prop :=
  s.numberOfFreeCores = m → s.numberOfTasksWaitingToSchedule ≠ 0 →
    (s.numberOfTasksInQueue ≠ 0 → InOrder time s) ∧
      (s.numberOfTasksInQueue = 0 → nextArrivalTime s ≠ 0 →
        BegunFirst (readjust (nextArrivalTime s - time) s) ∧
          InOrder time (fetchTasksIntoQueue time (readjust (nextArrivalTime s - time) s)))

/-- **The condition.** The queue is in order when its front is scheduled. -/
def Orderly (config : Config n m) (s : State n m) : Event → Prop
  | .create time _ => ∀ h : s.numThreads < n,
      (s.openTasks ⟨s.numThreads, h⟩).taskArrivalTime ≤ time →
        InOrder time (s.enqueue ⟨s.numThreads, h⟩)
  | .exit thread time => OrderlyRest time (release config thread time s)
  | .periodic time => config.mappingEpoch ≠ 0 → time % config.mappingEpoch = 0 →
      InOrder time (fetchTasksIntoQueue time s)

instance : Decidable (OrderlyRest time s) :=
  inferInstanceAs (Decidable (_ → _ → (_ → _) ∧ (_ → _ → _ ∧ _)))

instance : DecidablePred (Orderly config s)
  | .create time _ => inferInstanceAs (Decidable (∀ h : s.numThreads < n,
      (s.openTasks ⟨s.numThreads, h⟩).taskArrivalTime ≤ time →
        InOrder time (s.enqueue ⟨s.numThreads, h⟩)))
  | .exit thread time =>
    inferInstanceAs (Decidable (OrderlyRest time (release config thread time s)))
  | .periodic _ => inferInstanceAs (Decidable (_ → _ → _))

namespace Line

variable {log : List (Activation n m)}

theorem prefetch (line : Line log s) (books : Books config s) (orderly : OrderlyRest time s) :
    Ensures (Line (log ++ prefetchActivations config time s))
      (fun _ => FirstInFirstOut (log ++ prefetchActivations config time s))
      (Open.prefetch config time s) := by
  have front {s₁ : State n m} (line : Line log s₁) (books : Books config s₁)
      (inOrder : InOrder time s₁) :
      Ensures (Line (log ++ frontActivations config time s₁))
        (fun _ => FirstInFirstOut (log ++ frontActivations config time s₁))
        (Open.scheduleFront config time s₁ >>= fun r => pure r.2) :=
    (line.scheduleFront books inOrder).bind fun _ line' => line'.1
  rw [Open.prefetch, prefetchActivations]
  split_ifs with going queued found
  · exact front line books ((orderly going.1 going.2).1 queued)
  · rw [List.append_nil]
    exact line.fifo
  · obtain ⟨begunFirst, inOrder⟩ := (orderly going.1 going.2).2 (not_not.mp queued) found
    exact front (line.readjust books begunFirst).fetch
      ((books.readjust _).fetchTasksIntoQueue time) inOrder
  · rw [List.append_nil]
    exact line

theorem periodic (line : Line log s) (books : Books config s)
    (first : ∀ t : Fin n, config.app t = t) (orderly : Orderly config s (.periodic time)) :
    Ensures (Line (log ++ activations config (.periodic time) s))
      (fun _ => FirstInFirstOut (log ++ activations config (.periodic time) s))
      (Open.periodic config time s) := by
  simp only [Open.periodic, activations]
  split_ifs with failed never now
  · rw [List.append_nil]
    exact line.fifo
  · rw [List.append_nil]
    exact line.fifo
  · exact line.fetch.mapQueue (books.fetchTasksIntoQueue time) first (orderly never now) n
  · rw [List.append_nil]
    exact line

/-- The task of a new thread is put into the queue, and is scheduled if it is in front of it. -/
theorem scheduleNew (line : Line log s) (books : Books config s) (coreIsFree : Bool)
    (orderly : Orderly config s (.create time coreIsFree)) :
    Ensures (Line (log ++ activations config (.create time coreIsFree) s))
      (fun _ => FirstInFirstOut (log ++ activations config (.create time coreIsFree) s))
      (Open.scheduleNew config s.numThreads time { s with numThreads := s.numThreads + 1 }) := by
  simp only [Open.scheduleNew, activations]
  split_ifs with isFirst
  · set new : Fin n := ⟨s.numThreads, isFirst⟩
    have created : Line log { s with numThreads := s.numThreads + 1 } :=
      line.same (fun _ => Iff.rfl) fun _ => rfl
    have waits : (s.openTasks new).Waits := by
      by_contra begun
      rw [OpenTask.Waits, not_and_or, Bool.not_eq_false, Bool.not_eq_false] at begun
      exact absurd (books.started new begun) (lt_irrefl _)
    have scheduled := created.schedule config time true waits
      (fun u => (books.oneState u).waits_iff) fun arrived front u waiting => ?_
    · cases ran : Open.schedule config new true time { s with numThreads := s.numThreads + 1 } with
      | error f =>
        rw [ran] at scheduled
        exact scheduled
      | ok r =>
        rw [ran] at scheduled
        rw [ok_bind]
        split_ifs
        · exact scheduled.1.fifo
        · exact scheduled.1
    · have inOrder := orderly isFirst arrived
      have inLine := inOrder.front front ((enqueue_arrivals new).trans_le arrived)
        (enqueue_waiting waiting)
      rw [enqueue_arrivals, enqueue_arrivals] at inLine
      exact inLine
  · rw [List.append_nil]
    exact line.same (fun _ => Iff.rfl) fun _ => rfl

/-- **One step** of a run. -/
theorem step (line : Line log s) (books : Books config s)
    (first : ∀ t : Fin n, config.app t = t) {event : Event} (legal : Legal config s event)
    (orderly : Orderly config s event) :
    Ensures (Line (log ++ activations config event s))
      (fun _ => FirstInFirstOut (log ++ activations config event s))
      (Open.step config event s) := by
  cases event with
  | create time coreIsFree =>
    refine (line.scheduleNew books coreIsFree orderly).bind fun s' line' => ?_
    dsimp only
    split_ifs
    · exact line'.fifo
    · refine line'.same (fun t => ?_) sameArrivals_setAffinity
      rw [setAffinity]
      cases coreFound config s.numThreads s' <;> rfl
  | exit thread time =>
    exact (line.release books legal).prefetch (books.release first legal) orderly
  | periodic time => exact line.periodic books first orderly

theorem start (requirement : Fin n → ℕ) (arrival : Fin n → UInt64) :
    Line [] (start requirement arrival : State n m) where
  fifo := ⟨nofun, List.Pairwise.nil⟩
  begun_iff t := by simp [Open.start, OpenTask.Waits]
  arrival := nofun
  begunFirst t u begun := by simp [Open.start, OpenTask.Waits] at begun

end Line

/-- The tasks that have begun after a run are those of its log, in their order. -/
theorem line_of_run (config : Config n m) (requirement : Fin n → ℕ) (arrival : Fin n → UInt64)
    (events : List Event) (first : ∀ t : Fin n, config.app t = t)
    (legal : Along (Legal config) (step config) events (start requirement arrival))
    (orderly : Along (Orderly config) (step config) events (start requirement arrival)) :
    Ensures (Line (runLog (step config) (activations config) events (start requirement arrival)))
      (fun _ => FirstInFirstOut
        (runLog (step config) (activations config) events (start requirement arrival)))
      (runEvents (step config) events (start requirement arrival)) := by
  have kept := (legal.and orderly).ensures_runLog (activations config)
    (fun log s => Line log s ∧ Books config s) FirstInFirstOut
    (fun e s log ⟨legal, orderly⟩ ⟨line, books⟩ => ?_)
    ⟨Line.start requirement arrival, Books.start requirement arrival⟩
  · exact kept.mono fun _ now => now.1
  · have line' := line.step books first legal orderly
    have books' := books.step first legal
    cases ran : step config e s with
    | error f =>
      rw [ran] at line'
      exact line'
    | ok s' =>
      rw [ran] at line' books'
      exact ⟨line', books'⟩

/-- **First in, first out**: in every run in which the queue is in order whenever its front is
scheduled. -/
theorem first_in_first_out (config : Config n m) (requirement : Fin n → ℕ)
    (arrival : Fin n → UInt64) (events : List Event) (first : ∀ t : Fin n, config.app t = t)
    (legal : Along (Legal config) (step config) events (start requirement arrival))
    (orderly : Along (Orderly config) (step config) events (start requirement arrival)) :
    FirstInFirstOut
      (runLog (step config) (activations config) events (start requirement arrival)) := by
  have run := line_of_run config requirement arrival events first legal orderly
  cases ran : runEvents (step config) events (start requirement arrival) with
  | error f =>
    rw [ran] at run
    exact run
  | ok s =>
    rw [ran] at run
    exact run.fifo

/-- Three tasks on two cores, and a mapping epoch of ten milliseconds. -/
def threeTasks : Config 3 2 :=
  ⟨fun _ => true, [], 10000000, fun thread => if thread = 0 then 0 else if thread = 1 then 1 else 2⟩

/-- The tasks that come later arrive in their order. -/
theorem first_in_first_out_sorted : FirstInFirstOut
    (runLog (step threeTasks) (activations threeTasks)
      [.create 0 true, .create 0 true, .create 0 true, .periodic 10000000]
      (start (fun _ => 1) fun t => if t = 0 then 0 else if t = 1 then 3000000 else 7000000)) := by
  refine first_in_first_out threeTasks _ _ _ (by decide) ?_ ?_
  · exact ⟨trivial, fun _ _ => ⟨trivial, fun _ _ => ⟨trivial, fun _ _ => ⟨trivial, fun _ _ =>
      trivial⟩⟩⟩⟩
  · refine ⟨by decide, fun _ ran => ?_⟩
    cases ran
    refine ⟨by decide, fun _ ran => ?_⟩
    cases ran
    refine ⟨by decide, fun _ ran => ?_⟩
    cases ran
    exact ⟨by decide, fun _ _ => trivial⟩

/-- The third task has arrived first, but the second one is in front of it. -/
theorem not_first_in_first_out : ¬∀ (n m : ℕ) (config : Config n m) (requirement : Fin n → ℕ)
    (arrival : Fin n → UInt64) (events : List Event), (∀ t : Fin n, config.app t = t) →
    Along (Legal config) (step config) events (start requirement arrival) → FirstInFirstOut
      (runLog (step config) (activations config) events (start requirement arrival)) := by
  intro all
  have fifo := all 3 2 threeTasks (fun _ => 1)
    (fun t => if t = 0 then 0 else if t = 1 then 7000000 else 3000000)
    [.create 0 true, .create 0 true, .create 0 true, .periodic 10000000] (by decide)
    ⟨trivial, fun _ _ => ⟨trivial, fun _ _ => ⟨trivial, fun _ _ => ⟨trivial, fun _ _ =>
      trivial⟩⟩⟩⟩
  exact absurd fifo.1 (by decide)

end GpuHotSpot.Common.Open
