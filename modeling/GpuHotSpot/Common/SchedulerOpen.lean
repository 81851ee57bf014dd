import Mathlib.Data.UInt
import Mathlib.Data.Fintype.Card
import Mathlib.Data.Fintype.Basic
import Mathlib.Algebra.BigOperators.Group.Finset.Basic
import GpuHotSpot.Lib.Machine

/-!
# The open scheduler

`common/scheduler/scheduler_open.cc` with the mapping policy `first_unused`, the only one there
is. Tasks arrive, wait in a queue, get as many cores as they require, and are completed when
their first thread exits. The threads of a task share out its cores.

* `schedule`: the task in front of the queue is given cores.
* `threadCreate`, `threadExit`, `periodic`: the calls of the simulator.
* `mapLoop_eq`, `mapLoop_enough`: what the policy returns.
-/

namespace GpuHotSpot.Common.Open

/-- `openTask`. -/
structure OpenTask where
  waitingToSchedule : Bool
  waitingInQueue : Bool
  active : Bool
  completed : Bool
  taskCoreRequirement : ℕ
  taskArrivalTime : UInt64
  taskStartTime : UInt64
  taskDepartureTime : UInt64

/-- The results that are printed when the task has finished. -/
def OpenTask.responseTime (task : OpenTask) : UInt64 :=
  task.taskDepartureTime - task.taskArrivalTime

def OpenTask.serviceTime (task : OpenTask) : UInt64 :=
  task.taskDepartureTime - task.taskStartTime

def OpenTask.waitTime (task : OpenTask) : UInt64 := task.taskStartTime - task.taskArrivalTime

/-- `systemCore`, with `none` for the identifiers -1. -/
structure SystemCore (n : ℕ) where
  assignedTaskID : Option (Fin n)
  assignedThreadID : Option ℕ
  deriving DecidableEq

/-- The configuration of `n` tasks on `m` cores, and the task of a thread. -/
structure Config (n m : ℕ) where
  coreMask : Fin m → Bool
  preferredCore : List (Fin m)
  mappingEpoch : UInt64
  app : ℕ → Fin n

/-- The tasks and cores of the scheduler, and the threads of the thread manager: how many there are,
and those that have exited. -/
structure State (n m : ℕ) where
  openTasks : Fin n → OpenTask
  systemCores : Fin m → SystemCore n
  numThreads : ℕ
  exited : List ℕ

/-- How a call ends the simulation: it accesses what is not there, reports an error, or finds its own
state inconsistent; or its loop does not end. -/
inductive Fault where
  | undefined | exit | inconsistent | unfinished
  deriving DecidableEq

variable {n m : ℕ}

namespace State

variable (s : State n m)

/-! ## Counts -/

def numberOfFreeCores : ℕ := (Finset.univ.filter fun c => (s.systemCores c).assignedTaskID = none).card

def numberOfTasksInQueue : ℕ := (Finset.univ.filter fun t => (s.openTasks t).waitingInQueue).card

def numberOfTasksWaitingToSchedule : ℕ :=
  (Finset.univ.filter fun t => (s.openTasks t).waitingToSchedule).card

def numberOfTasksCompleted : ℕ := (Finset.univ.filter fun t => (s.openTasks t).completed).card

def numberOfActiveTasks : ℕ := (Finset.univ.filter fun t => (s.openTasks t).active).card

def totalCoreRequirementsOfActiveTasks : ℕ :=
  ∑ t with (s.openTasks t).active, (s.openTasks t).taskCoreRequirement

/-- The first task of the queue, which is in the order of the tasks. -/
def taskFrontOfQueue : Option (Fin n) :=
  (List.finRange n).find? fun t => (s.openTasks t).waitingInQueue

/-! ## Changes -/

def setTask (t : Fin n) (f : OpenTask → OpenTask) : State n m :=
  { s with openTasks := Function.update s.openTasks t (f (s.openTasks t)) }

/-- A task is put into the queue. -/
def enqueue (t : Fin n) : State n m :=
  s.setTask t fun task => { task with waitingInQueue := true, waitingToSchedule := false }

def activate (t : Fin n) (time : UInt64) : State n m :=
  s.setTask t fun task =>
    { task with
      taskStartTime := time, active := true, waitingInQueue := false, waitingToSchedule := false }

def complete (t : Fin n) (time : UInt64) : State n m :=
  s.setTask t fun task =>
    { task with taskDepartureTime := time, completed := true, active := false }

/-- The cores are given to the task. -/
def assign (cores : List (Fin m)) (t : Fin n) : State n m :=
  { s with
    systemCores := fun c =>
      if c ∈ cores then { s.systemCores c with assignedTaskID := some t } else s.systemCores c }

def setThread (c : Fin m) (thread : ℕ) : State n m :=
  { s with
    systemCores := Function.update s.systemCores c
      { s.systemCores c with assignedThreadID := some thread } }

/-- The cores of a thread are released from it. -/
def releaseThread (thread : ℕ) : State n m :=
  { s with
    systemCores := fun c =>
      if (s.systemCores c).assignedThreadID = some thread then
        { s.systemCores c with assignedThreadID := none }
      else s.systemCores c }

def releaseTask (t : Fin n) : State n m :=
  { s with
    systemCores := fun c =>
      if (s.systemCores c).assignedTaskID = some t then
        { s.systemCores c with assignedTaskID := none }
      else s.systemCores c }

end State

/-! ## The mapping policy -/

/-- The loop over the cores in their order of preference. -/
def mapLoop (taskCoreRequirement : ℕ) (availableCores : Fin m → Bool) :
    List (Fin m) → List (Fin m) → List (Fin m)
  | _, [] => []
  | cores, c :: order =>
    if availableCores c then
      if (cores ++ [c]).length = taskCoreRequirement then cores ++ [c]
      else mapLoop taskCoreRequirement availableCores (cores ++ [c]) order
    else mapLoop taskCoreRequirement availableCores cores order

/-- The constructor of `MapFirstUnused` appends the cores without a preference. -/
def preferredCoresOrder (preferredCore : List (Fin m)) : List (Fin m) :=
  (List.finRange m).foldl (fun order c => if c ∈ order then order else order ++ [c]) preferredCore

/-- **What the policy returns**: the first available cores, if there are enough. -/
theorem mapLoop_eq {requirement : ℕ} {available : Fin m → Bool} {cores : List (Fin m)}
    (room : cores.length < requirement) (order : List (Fin m)) :
    mapLoop requirement available cores order =
      if requirement ≤ cores.length + (order.filter available).length then
        cores ++ (order.filter available).take (requirement - cores.length) else [] := by
  induction order generalizing cores with
  | nil => simp [mapLoop, room]
  | cons c order ih =>
    rw [mapLoop]
    by_cases free : available c = true
    · rw [if_pos free, List.filter_cons_of_pos free]
      have one : (cores ++ [c]).length = cores.length + 1 := by simp
      by_cases last : (cores ++ [c]).length = requirement
      · have left : requirement - cores.length = 1 := by omega
        rw [if_pos last, if_pos (by rw [List.length_cons]; omega), left, List.take_succ_cons,
          List.take_zero]
      · have left : requirement - cores.length = requirement - (cores ++ [c]).length + 1 := by
          omega
        rw [if_neg last, ih (by omega), left, List.take_succ_cons, List.length_cons, one]
        simp only [Nat.add_right_comm, Nat.add_assoc, List.append_assoc, List.singleton_append]
    · rw [if_neg free, List.filter_cons_of_neg (by simpa using free), ih room]

theorem mapLoop_zero {available : Fin m → Bool} (cores order : List (Fin m)) :
    mapLoop 0 available cores order = [] := by
  induction order generalizing cores with
  | nil => rfl
  | cons c order ih =>
    rw [mapLoop, ih, ih]
    simp

/-- If the policy returns enough cores, they are as many as required, available, and in order. -/
theorem mapLoop_enough {requirement : ℕ} {available : Fin m → Bool} {order : List (Fin m)}
    (enough : ¬(mapLoop requirement available [] order).length < requirement) :
    (mapLoop requirement available [] order).length = requirement ∧
      List.Sublist (mapLoop requirement available [] order) (order.filter available) := by
  rcases Nat.eq_zero_or_pos requirement with rfl | some_core
  · rw [mapLoop_zero]
    exact ⟨rfl, List.nil_sublist _⟩
  · rw [mapLoop_eq some_core] at enough ⊢
    simp only [List.length_nil, Nat.zero_add, Nat.sub_zero, List.nil_append] at enough ⊢
    split_ifs at enough ⊢ with many
    · exact ⟨List.length_take_of_le many, List.take_sublist _ _⟩
    · exact absurd some_core enough

/-- All cores are in the order, and none twice unless two preferences are the same. -/
theorem preferredCoresOrder_spec (preferredCore : List (Fin m)) :
    (∀ c, c ∈ preferredCoresOrder preferredCore) ∧
      (preferredCore.Nodup → (preferredCoresOrder preferredCore).Nodup) := by
  have each : ∀ (l : List (Fin m)) (order : List (Fin m)),
      (∀ c, c ∈ order ∨ c ∈ l →
        c ∈ l.foldl (fun order c => if c ∈ order then order else order ++ [c]) order) ∧
      (order.Nodup →
        (l.foldl (fun order c => if c ∈ order then order else order ++ [c]) order).Nodup) := by
    intro l
    induction l with
    | nil => exact fun order => ⟨fun c here => by simpa using here, id⟩
    | cons d l ih =>
      intro order
      rw [List.foldl_cons]
      by_cases known : d ∈ order
      · rw [if_pos known]
        refine ⟨fun c here => (ih order).1 c ?_, (ih order).2⟩
        rcases here with inOrder | inRest
        · exact .inl inOrder
        · rcases List.mem_cons.mp inRest with rfl | later
          · exact .inl known
          · exact .inr later
      · rw [if_neg known]
        refine ⟨fun c here => (ih _).1 c ?_, fun nodup => (ih _).2 ?_⟩
        · simp only [List.mem_append, List.mem_singleton]
          rcases here with inOrder | inRest
          · exact .inl (.inl inOrder)
          · rcases List.mem_cons.mp inRest with rfl | later
            · exact .inl (.inr rfl)
            · exact .inr later
        · refine List.nodup_append.mpr ⟨nodup, List.nodup_singleton d, ?_⟩
          rintro a inOrder b single rfl
          exact known (List.mem_singleton.mp single ▸ inOrder)
  exact ⟨fun c => (each _ _).1 c (.inr (List.mem_finRange c)), (each _ _).2⟩

section Scheduler

variable (config : Config n m)

def executeMappingPolicy (t : Fin n) (s : State n m) : Option (State n m) :=
  let availableCores := fun c => config.coreMask c && (s.systemCores c).assignedTaskID.isNone
  let requirement := (s.openTasks t).taskCoreRequirement
  let bestCores :=
    mapLoop requirement availableCores [] (preferredCoresOrder config.preferredCore)
  if bestCores.length < requirement then none else some (s.assign bestCores t)

/-! ## Scheduling -/

/-- The first core of its task that no thread has. -/
def coreFound (thread : ℕ) (s : State n m) : Option (Fin m) :=
  (List.finRange m).find? fun c =>
    (s.systemCores c).assignedTaskID = some (config.app thread) ∧
      (s.systemCores c).assignedThreadID = none

/-- The core found is assigned to the thread. -/
def setAffinity (thread : ℕ) (s : State n m) : Option (Fin m) × State n m :=
  (coreFound config thread s,
    match coreFound config thread s with
    | none => s
    | some c => s.setThread c thread)

/-- The thread whose identifier is that of the task is woken. -/
def wakeTask (t : Fin n) (s : State n m) : Except Fault (State n m) :=
  if t < s.numThreads then .ok (setAffinity config t s).2 else .error .undefined

/-- `schedule`, with the time in nanoseconds. -/
def schedule (t : Fin n) (isInitialCall : Bool) (time : UInt64) (s : State n m) :
    Except Fault (Bool × State n m) :=
  if time < (s.openTasks t).taskArrivalTime then .ok (false, s)
  else
    let s := s.enqueue t
    if s.taskFrontOfQueue ≠ some t then .ok (false, s)
    else if s.numberOfFreeCores < (s.openTasks t).taskCoreRequirement then .ok (false, s)
    else
      match executeMappingPolicy config t s with
      | none => .ok (false, s)
      | some s =>
        (if isInitialCall then .ok s else wakeTask config t s).map fun s => (true, s.activate t time)

/-- `schedule (taskFrontOfQueue (), false, time)`. -/
def scheduleFront (time : UInt64) (s : State n m) : Except Fault (Bool × State n m) :=
  match s.taskFrontOfQueue with
  | none => .error .undefined
  | some t => schedule config t false time s

def fetchTasksIntoQueue (time : UInt64) (s : State n m) : State n m :=
  { s with
    openTasks := fun t =>
      if (s.openTasks t).waitingToSchedule ∧ (s.openTasks t).taskArrivalTime ≤ time then
        { s.openTasks t with waitingInQueue := true, waitingToSchedule := false }
      else s.openTasks t }

/-! ## Calls -/

/-- The threads with the identifiers of tasks are their first ones. -/
def scheduleNew (thread : ℕ) (time : UInt64) (s : State n m) : Except Fault (State n m) :=
  if h : thread < n then do
    let (mapped, s) ← schedule config ⟨thread, h⟩ true time s
    if thread = 0 ∧ ¬mapped then .error .exit else .ok s
  else .ok s

/-- Whether the base can start the thread on its core at once is up to the thread that ran there
before. -/
def threadCreate (time : UInt64) (coreIsFree : Bool) (s : State n m) :
    Except Fault (State n m) := do
  let thread := s.numThreads
  let s ← scheduleNew config thread time { s with numThreads := thread + 1 }
  let (core, s) := setAffinity config thread s
  if n ≤ thread ∧ ¬(core.isSome ∧ coreIsFree) then .error .exit else .ok s

/-- The arrival time found for the next task. -/
def nextArrivalTime (s : State n m) : UInt64 :=
  (List.finRange n).foldl (fun next t =>
    if (s.openTasks t).waitingToSchedule then
      if next = 0 then (s.openTasks t).taskArrivalTime
      else if (s.openTasks t).taskArrivalTime < next then (s.openTasks t).taskArrivalTime
      else next
    else next) 0

/-- The arrival times of the tasks to come are moved. -/
def readjust (timeJump : UInt64) (s : State n m) : State n m :=
  { s with
    openTasks := fun t =>
      if (s.openTasks t).waitingToSchedule then
        { s.openTasks t with taskArrivalTime := (s.openTasks t).taskArrivalTime - timeJump }
      else s.openTasks t }

/-- What `threadExit` does where the system is going empty. -/
def prefetch (time : UInt64) (s : State n m) : Except Fault (State n m) :=
  if s.numberOfFreeCores = m ∧ s.numberOfTasksWaitingToSchedule ≠ 0 then
    if s.numberOfTasksInQueue ≠ 0 then do
      let (_, s) ← scheduleFront config time s
      return s
    else if nextArrivalTime s = 0 then .error .exit
    else do
      let s := fetchTasksIntoQueue time (readjust (nextArrivalTime s - time) s)
      let (_, s) ← scheduleFront config time s
      return s
  else .ok s

/-- The thread, and with the first thread of a task the task, is released from its cores. -/
def release (thread : ℕ) (time : UInt64) (s : State n m) : State n m :=
  let s := { s.releaseThread thread with exited := thread :: s.exited }
  if thread < n then (s.releaseTask (config.app thread)).complete (config.app thread) time else s

def threadExit (thread : ℕ) (time : UInt64) (s : State n m) : Except Fault (State n m) :=
  prefetch config time (release config thread time s)

/-- The loop of `periodic` over the queue. -/
def mapQueue (time : UInt64) : ℕ → State n m → Except Fault (State n m)
  | 0, s => if s.numberOfTasksInQueue = 0 then .ok s else .error .unfinished
  | fuel + 1, s =>
    if s.numberOfTasksInQueue = 0 then .ok s
    else do
      let (mapped, s) ← scheduleFront config time s
      if mapped then mapQueue time fuel s else return s

/-- The checks that `periodic` makes every millisecond. -/
def Consistent (s : State n m) : Prop :=
  (m : ℤ) - s.totalCoreRequirementsOfActiveTasks = s.numberOfFreeCores ∧
    s.numberOfActiveTasks + s.numberOfTasksCompleted + s.numberOfTasksInQueue +
      s.numberOfTasksWaitingToSchedule = n

instance : DecidablePred (Consistent : State n m → Prop) := fun _ =>
  inferInstanceAs (Decidable (_ ∧ _))

def periodic (time : UInt64) (s : State n m) : Except Fault (State n m) :=
  if time % 1000000 = 0 ∧ ¬Consistent s then .error .inconsistent
  else if config.mappingEpoch = 0 then .error .undefined
  else if time % config.mappingEpoch = 0 then mapQueue config time n (fetchTasksIntoQueue time s)
  else .ok s

/-! ## Runs -/

inductive Event where
  | create (time : UInt64) (coreIsFree : Bool)
  | exit (thread : ℕ) (time : UInt64)
  | periodic (time : UInt64)

def step : Event → State n m → Except Fault (State n m)
  | .create time coreIsFree, s => threadCreate config time coreIsFree s
  | .exit thread time, s => threadExit config thread time s
  | .periodic time, s => periodic config time s

/-- A thread exits once, while it has a core; the first thread of a task is the last to exit. -/
def Legal (s : State n m) : Event → Prop
  | .exit thread _ =>
    (∃ c, (s.systemCores c).assignedThreadID = some thread) ∧
      (thread < n → ∀ other < s.numThreads, config.app other = config.app thread →
        other = thread ∨ other ∈ s.exited)
  | _ => True

/-- The state behind the constructor: all tasks are to arrive. Start and departure times are not set
before they are known. -/
def start (requirement : Fin n → ℕ) (arrival : Fin n → UInt64) : State n m where
  openTasks t := ⟨true, false, false, false, requirement t, arrival t, 0, 0⟩
  systemCores _ := ⟨none, none⟩
  numThreads := 0
  exited := []

end Scheduler

end GpuHotSpot.Common.Open
