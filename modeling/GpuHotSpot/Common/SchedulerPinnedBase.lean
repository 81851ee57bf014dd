import Mathlib

/-!
# The pinned scheduler

`common/scheduler/scheduler_pinned_base.cc`, with the hooks of `scheduler_dynamic.cc` and
what `system/thread_manager.cc` does around them.

Each core has the thread it runs and each thread the core it runs on. `reschedule` gives a
core to the thread that waits for the longest time. Giving it the core wakes the thread, and
the hook of its waking may reschedule another core before the first call is over.

* `reschedule`, `moveThread`: the two functions that call each other.
* `chooseThread_spec`, `chooseThread_only`: which thread gets a core.
-/

namespace GpuHotSpot.Common

/-- `SubsecondTime`, in femtoseconds. -/
abbrev SubsecondTime := UInt64

def SubsecondTime.getPS (t : SubsecondTime) : ℤ := (t.toNat / 1000 : ℕ)

def SubsecondTime.ps (n : ℕ) : SubsecondTime := UInt64.ofNat n * 1000

namespace PinnedBase

/-- Why a computation has no result: an index out of range or a failed assertion, or a nesting of
calls that was not followed to its end. -/
inductive Fault where
  | undefined | unfinished
  deriving DecidableEq

/-- `Core::State`, as the thread manager uses it for threads. -/
inductive Status where
  | running | initializing | stalled | sleeping | wakingUp | idle | broken
  deriving DecidableEq

/-- `ThreadManager::stall_type_t`. -/
inductive StallType where
  | unscheduled | broken | join | mutex | cond | barrier | futex | pause | sleep | syscall
  deriving DecidableEq

/-- What the thread manager knows of a thread: `m_thread_state` and `getCore()`. -/
structure ThreadState where
  status : Status
  stalledReason : StallType
  core : Option ℕ

/-- `SchedulerPinnedBase::ThreadInfo`. -/
structure ThreadInfo where
  hasAffinity : Bool
  explicitAffinity : Bool
  coreAffinity : ℕ → Bool
  coreRunning : Option ℕ
  lastScheduledIn : SubsecondTime
  lastScheduledOut : SubsecondTime

namespace ThreadInfo

def init : ThreadInfo := ⟨false, false, fun _ => false, none, 0, 0⟩

variable (info : ThreadInfo)

def isRunning : Bool := info.coreRunning.isSome
def clearAffinity : ThreadInfo := { info with coreAffinity := fun _ => false }

def addAffinity (core : ℕ) : ThreadInfo :=
  { info with
    hasAffinity := true
    coreAffinity := Function.update info.coreAffinity core true }

def setAffinitySingle (core : ℕ) : ThreadInfo := info.clearAffinity.addAffinity core
def setExplicitAffinity : ThreadInfo := { info with explicitAffinity := true }

end ThreadInfo

/-- `getApplicationCores()` and `m_quantum`. -/
structure Config where
  applicationCores : ℕ
  quantum : SubsecondTime

/-- The thread manager and the scheduler. `threadsRunnable` and `infoSize` are as long as the vectors
of the scheduler. -/
structure State where
  numThreads : ℕ
  thread : ℕ → ThreadState
  threadsRunnable : List Bool
  infoSize : ℕ
  threadInfo : ℕ → ThreadInfo
  coreThreadRunning : ℕ → Option ℕ
  quantumLeft : ℕ → SubsecondTime
  lastPeriodic : SubsecondTime

def State.init : State where
  numThreads := 0
  thread := fun _ => ⟨.initializing, .unscheduled, none⟩
  threadsRunnable := List.replicate 16 false
  infoSize := 0
  threadInfo := fun _ => .init
  coreThreadRunning := fun _ => none
  quantumLeft := fun _ => 0
  lastPeriodic := 0

namespace State

variable (s : State) (t : ℕ)

def isRunnable : Bool := s.threadsRunnable.getD t false

def setInfo (f : ThreadInfo → ThreadInfo) : State :=
  { s with threadInfo := Function.update s.threadInfo t (f (s.threadInfo t)) }

def setThread (f : ThreadState → ThreadState) : State :=
  { s with thread := Function.update s.thread t (f (s.thread t)) }

/-- `m_threads_runnable[thread_id] = …`. -/
def setRunnable (runnable : Bool) : Except Fault State :=
  if t < s.threadsRunnable.length then
    .ok { s with threadsRunnable := s.threadsRunnable.set t runnable }
  else .error .undefined

/-- `m_thread_info[thread_id].setCoreRunning(…)`. -/
def setCoreRunning (core : Option ℕ) : State :=
  s.setInfo t fun info => { info with coreRunning := core }

/-- `m_core_thread_running[core_id] = …`. -/
def setThreadRunning (core : ℕ) (t : Option ℕ) : State :=
  { s with coreThreadRunning := Function.update s.coreThreadRunning core t }

def setQuantumLeft (core : ℕ) (time : SubsecondTime) : State :=
  { s with quantumLeft := Function.update s.quantumLeft core time }

end State

/-! ## Giving a core to a thread -/

section Reschedule

variable (c : Config)

def findFreeCoreForThread (s : State) (t : ℕ) : Option ℕ :=
  (List.range c.applicationCores).find? fun core =>
    (s.threadInfo t).coreAffinity core && (s.coreThreadRunning core).isNone

/-- The thread may run on the core, is not stalled, and does not run elsewhere. -/
def State.isCandidate (s : State) (core t : ℕ) : Bool :=
  (s.threadInfo t).coreAffinity core && s.isRunnable t &&
    (!(s.threadInfo t).isRunning || (s.threadInfo t).coreRunning == some core)

/-- A thread that runs has a negative score, by how long it runs; a thread that waits has a positive
one, by how long it waits. -/
def State.score (s : State) (time : SubsecondTime) (t : ℕ) : ℤ :=
  if (s.threadInfo t).isRunning then (s.threadInfo t).lastScheduledIn.getPS - time.getPS
  else time.getPS - (s.threadInfo t).lastScheduledOut.getPS

/-- The first candidate with the highest score. -/
def chooseThread (s : State) (time : SubsecondTime) (core : ℕ) : Option ℕ :=
  ((List.range s.threadsRunnable.length).foldl (fun (best : Option ℕ × ℤ) t =>
    if s.isCandidate core t ∧ best.2 < s.score time t then (some t, s.score time t) else best)
    (none, -2 ^ 63)).1

/-- Whatever is chosen is a candidate: it has affinity to the core, is runnable, and runs nowhere
else. -/
theorem chooseThread_spec {s : State} {time : SubsecondTime} {core t : ℕ}
    (chosen : chooseThread s time core = some t) : s.isCandidate core t = true := by
  have all : ∀ (l : List ℕ) (best : Option ℕ × ℤ),
      (∀ t, best.1 = some t → s.isCandidate core t = true) →
      ∀ t, (l.foldl (fun (best : Option ℕ × ℤ) t =>
        if s.isCandidate core t ∧ best.2 < s.score time t then (some t, s.score time t)
        else best) best).1 = some t → s.isCandidate core t = true := by
    intro l
    induction l with
    | nil => exact fun best here => here
    | cons u l ih =>
      intro best here
      refine ih _ fun t chosen => ?_
      dsimp only at chosen
      split_ifs at chosen with better
      · cases chosen
        exact better.1
      · exact here t chosen
  exact all _ _ (fun t none => by cases none) t chosen

theorem score_gt (s : State) (time : SubsecondTime) (t : ℕ) : -2 ^ 63 < s.score time t := by
  have bound : ∀ time : SubsecondTime, 0 ≤ time.getPS ∧ time.getPS < 2 ^ 63 := by
    intro time
    have := UInt64.toNat_lt time
    unfold SubsecondTime.getPS
    omega
  have now := bound time
  have scheduledIn := bound (s.threadInfo t).lastScheduledIn
  have scheduledOut := bound (s.threadInfo t).lastScheduledOut
  unfold State.score
  split_ifs <;> omega

theorem State.lt_of_isRunnable {s : State} {t : ℕ} (ready : s.isRunnable t = true) :
    t < s.threadsRunnable.length := by
  by_contra outside
  rw [isRunnable, List.getD_eq_getElem?_getD, List.getElem?_eq_none (not_lt.mp outside)] at ready
  cases ready

/-- The only candidate is chosen. -/
theorem chooseThread_only {s : State} {core t : ℕ} (time : SubsecondTime)
    (only : ∀ u, s.isCandidate core u = true ↔ u = t) : chooseThread s time core = some t := by
  have candidate : s.isCandidate core t = true := (only t).mpr rfl
  have inside : t ∈ List.range s.threadsRunnable.length := by
    simp only [State.isCandidate, Bool.and_eq_true] at candidate
    exact List.mem_range.mpr (State.lt_of_isRunnable candidate.1.2)
  have all : ∀ (l : List ℕ) (best : Option ℕ × ℤ),
      best = (none, -2 ^ 63) ∧ t ∈ l ∨ best = (some t, s.score time t) →
      l.foldl (fun (best : Option ℕ × ℤ) u =>
        if s.isCandidate core u ∧ best.2 < s.score time u then (some u, s.score time u)
        else best) best = (some t, s.score time t) := by
    intro l
    induction l with
    | nil =>
      intro best here
      rcases here with ⟨_, member⟩ | found
      · cases member
      · exact found
    | cons u l ih =>
      intro best here
      refine ih _ ?_
      dsimp only
      by_cases same : u = t
      · subst same
        refine Or.inr ?_
        rcases here with ⟨rfl, _⟩ | rfl
        · rw [if_pos ⟨candidate, score_gt s time u⟩]
        · rw [if_neg fun better => absurd better.2 (Int.lt_irrefl _)]
      · rw [if_neg fun better => same ((only u).mp better.1)]
        refine here.imp_left fun start => ⟨start.1, ?_⟩
        exact (List.mem_cons.mp start.2).resolve_left fun first => same first.symm
  exact congrArg Prod.fst (all _ _ (Or.inl ⟨rfl, inside⟩))

/-- A free core for the thread is rescheduled, if there is one. -/
def rescheduleFreeCore (reschedule : SubsecondTime → ℕ → State → Except Fault State) (t : ℕ)
    (time : SubsecondTime) (s : State) : Except Fault State :=
  match findFreeCoreForThread c s t with
  | none => .ok s
  | some core => reschedule time core s

/-- `ThreadManager::resumeThread`: the hook makes the thread runnable and reschedules a free core for
it. -/
def resumeThread (reschedule : SubsecondTime → ℕ → State → Except Fault State) (t : ℕ)
    (time : SubsecondTime) (s : State) : Except Fault State := do
  let s ← (s.setThread t fun th => { th with status := .running }).setRunnable t true
  rescheduleFreeCore c reschedule t time s

/-- A thread that waits for nothing but a core is woken. -/
def wakeThread (reschedule : SubsecondTime → ℕ → State → Except Fault State) (t : ℕ)
    (core : Option ℕ) (time : SubsecondTime) (s : State) : Except Fault State :=
  let th := s.thread t
  if core.isSome ∧ th.core = none ∧ th.status = .stalled ∧ th.stalledReason = .unscheduled then
    resumeThread c reschedule t time s
  else .ok s

/-- `ThreadManager::moveThread`. -/
def moveThread (reschedule : SubsecondTime → ℕ → State → Except Fault State) (t : ℕ)
    (core : Option ℕ) (time : SubsecondTime) (s : State) : Except Fault State :=
  if s.numThreads ≤ t then .error .undefined
  else do
    let s ← wakeThread c reschedule t core time s
    .ok (s.setThread t fun th => { th with core := core })

/-- The thread that ran on the core is unscheduled. -/
def scheduleOut (reschedule : SubsecondTime → ℕ → State → Except Fault State) (core : ℕ)
    (time : SubsecondTime) (s : State) : Except Fault State :=
  match s.coreThreadRunning core with
  | none => .ok s
  | some t =>
    moveThread c reschedule t none time ((s.setCoreRunning t none).setInfo t fun info =>
      { info with lastScheduledOut := time + .ps core })

/-- The core gets its new thread. The core knows of it before the thread is moved. -/
def scheduleIn (reschedule : SubsecondTime → ℕ → State → Except Fault State) (core : ℕ)
    (new : Option ℕ) (time : SubsecondTime) (s : State) : Except Fault State :=
  let s := s.setThreadRunning core new
  match new with
  | none => .ok s
  | some t =>
    let s := match (s.threadInfo t).coreRunning with
      | some elsewhere => s.setThreadRunning elsewhere none
      | none => s
    moveThread c reschedule t (some core) time ((s.setCoreRunning t (some core)).setInfo t
      fun info => { info with lastScheduledIn := time })

/-- What `reschedule` does when another thread is to have the core. -/
def switchThread (reschedule : SubsecondTime → ℕ → State → Except Fault State) (core : ℕ)
    (new : Option ℕ) (time : SubsecondTime) (s : State) : Except Fault State :=
  scheduleOut c reschedule core time s >>= scheduleIn c reschedule core new time

/-- `reschedule`, with the calls nested at most `depth` deep. -/
def rescheduleWithin : ℕ → SubsecondTime → ℕ → State → Except Fault State
  | 0, _, _, _ => .error .unfinished
  | depth + 1, time, core, s =>
    let current := s.coreThreadRunning core
    let new := chooseThread s time core
    if current.any fun t => (s.thread t).status = .initializing then .ok s
    else if s.infoSize < s.threadsRunnable.length then .error .undefined
    else if current = new then .ok (s.setQuantumLeft core c.quantum)
    else do
      let s ← switchThread c (rescheduleWithin depth) core new time s
      .ok (s.setQuantumLeft core c.quantum)

/-- Every call that is nested fills a core that was free. -/
def reschedule : SubsecondTime → ℕ → State → Except Fault State :=
  rescheduleWithin c (c.applicationCores + 2)

end Reschedule

/-! ## The functions of the scheduler -/

section Scheduler

variable (c : Config)

/-- Room for the thread in `m_thread_info`. -/
def State.resizeInfo (t : ℕ) (s : State) : State :=
  if s.infoSize ≤ t then { s with infoSize := s.infoSize + 16 } else s

/-- The first thread of a core can start immediately, the others have to wait. -/
def placeThread (t : ℕ) (s : State) : State × Option ℕ :=
  match findFreeCoreForThread c s t with
  | some core =>
    (((s.setThreadRunning core (some t)).setCoreRunning t (some core)).setQuantumLeft core
      c.quantum, some core)
  | none => (s.setCoreRunning t none, none)

/-- `threadCreate`, with the core it returns. -/
def threadCreate (setInitialAffinity : ℕ → State → Except Fault State) (t : ℕ) (s : State) :
    Except Fault (State × Option ℕ) :=
  let s := s.resizeInfo t
  if (s.threadInfo t).hasAffinity then .ok (placeThread c t s)
  else do
    let s ← setInitialAffinity t s
    .ok (placeThread c t s)

def threadYield (t : ℕ) (time : SubsecondTime) (s : State) : Except Fault State :=
  match (s.threadInfo t).coreRunning with
  | none => .ok s
  | some core => do
      let s ← reschedule c time core (s.setQuantumLeft core 0)
      if (s.threadInfo t).coreAffinity core then .ok s
      else rescheduleFreeCore c (reschedule c) t time s

/-- The affinity that `threadSetAffinity` sets; a mask with a bit beyond the cores is an error. -/
def setAffinityMask (t : ℕ) (mask : Option (List ℕ)) (s : State) : Except Fault State :=
  let s := s.setInfo t ThreadInfo.setExplicitAffinity
  match mask with
  | none => .ok (s.setInfo t fun info =>
    (List.range c.applicationCores).foldl ThreadInfo.addAffinity info)
  | some cpus =>
    if cpus.all (· < c.applicationCores) then
      .ok (s.setInfo t fun info => cpus.foldl ThreadInfo.addAffinity info.clearAffinity)
    else .error .undefined

def threadSetAffinity (calling : Option ℕ) (t : ℕ) (mask : Option (List ℕ)) (time : SubsecondTime)
    (s : State) : Except Fault State := do
  let s := if s.infoSize ≤ t then { s with infoSize := t + 16 } else s
  let s ← setAffinityMask c t mask s
  if s.numThreads ≤ t then .ok s
  else if calling = some t then threadYield c t time s
  else
    match (s.threadInfo t).coreRunning with
    | some core =>
      if (s.threadInfo t).coreAffinity core then
        if s.threadsRunnable.length ≤ t then .error .undefined else .ok s
      else .ok (s.setQuantumLeft core 0)
    | none =>
      if s.threadsRunnable.length ≤ t then .error .undefined
      else if s.isRunnable t then rescheduleFreeCore c (reschedule c) t time s else .ok s

def threadStart (t : ℕ) (time : SubsecondTime) (s : State) : Except Fault State :=
  rescheduleFreeCore c (reschedule c) t time s

/-- `threadStall` and `threadExit`: the core of a thread that runs no more gets another one. -/
def threadStall (t : ℕ) (time : SubsecondTime) (s : State) : Except Fault State :=
  match (s.threadInfo t).coreRunning with
  | none => .ok s
  | some core => reschedule c time core s

def threadExit (t : ℕ) (time : SubsecondTime) (s : State) : Except Fault State :=
  threadStall c t time s

/-- One core of the loop of `periodic`. -/
def periodicCore (time : SubsecondTime) (core : ℕ) (s : State) : Except Fault State :=
  let delta := time - s.lastPeriodic
  if s.quantumLeft core < delta ∨ s.coreThreadRunning core = none then reschedule c time core s
  else .ok (s.setQuantumLeft core (s.quantumLeft core - delta))

def periodic (time : SubsecondTime) (s : State) : Except Fault State := do
  let s ← (List.range c.applicationCores).foldlM (fun s core => periodicCore c time core s) s
  .ok { s with lastPeriodic := time }

end Scheduler

/-! ## The thread manager -/

section Events

variable (c : Config)

/-- The part of `createThread` before `threadCreate`. -/
def State.pushThread (s : State) : State :=
  { s with
    numThreads := s.numThreads + 1
    thread := Function.update s.thread s.numThreads ⟨.initializing, .unscheduled, none⟩ }

/-- `createThread`, with the core of the new thread. -/
def createThread (setInitialAffinity : ℕ → State → Except Fault State) (s : State) :
    Except Fault State := do
  let t := s.numThreads
  let placed ← threadCreate c setInitialAffinity t s.pushThread
  .ok (placed.1.setThread t fun th => { th with core := placed.2 })

/-- `onThreadStart` and `__threadStart` before the scheduler's `threadStart`. -/
def beginStart (t : ℕ) (s : State) : Except Fault State :=
  if s.numThreads ≤ t then .error .undefined
  else
    let s := s.setThread t fun th => { th with status := .running }
    let s := if s.threadsRunnable.length ≤ t then
        { s with threadsRunnable := s.threadsRunnable ++ List.replicate 16 false }
      else s
    s.setRunnable t true

/-- `onThreadStart` after the hook: a thread without a core waits for one. -/
def endStart (t : ℕ) (s : State) : State :=
  s.setThread t fun th =>
    if th.core.isSome then { th with status := .running }
    else { th with status := .stalled, stalledReason := .unscheduled }

/-- `stallThread_async` and `__threadStall`. -/
def onThreadStall (t : ℕ) (reason : StallType) (time : SubsecondTime) (s : State) :
    Except Fault State :=
  if s.numThreads ≤ t then .error .undefined
  else
    let s := s.setThread t fun th => { th with status := .stalled, stalledReason := reason }
    if reason = .unscheduled then .ok s
    else do
      let s ← s.setRunnable t false
      threadStall c t time s

def onThreadResume (t : ℕ) (time : SubsecondTime) (s : State) : Except Fault State :=
  if s.numThreads ≤ t then .error .undefined else resumeThread c (reschedule c) t time s

/-- `onThreadExit` and `__threadExit` before the scheduler's `threadExit`. The threads that wait for
this one are resumed by events of their own. -/
def beginExit (t : ℕ) (s : State) : Except Fault State :=
  if s.numThreads ≤ t ∨ (s.thread t).core = none ∨ (s.thread t).status ≠ .running then
    .error .undefined
  else (s.setThread t fun th => { th with status := .idle, core := none }).setRunnable t false

/-- What happens to the scheduler. Times are those of the core or of the global clock. -/
inductive Event where
  | create (affinity : List ℕ)
  | start (t : ℕ) (time : SubsecondTime)
  | stall (t : ℕ) (reason : StallType) (time : SubsecondTime)
  | resume (t : ℕ) (time : SubsecondTime)
  | yield (t : ℕ) (time : SubsecondTime)
  | setAffinity (calling : Option ℕ) (t : ℕ) (mask : Option (List ℕ)) (time : SubsecondTime)
  | exit (t : ℕ) (time : SubsecondTime)
  | periodic (time : SubsecondTime)

/-- The initial affinity that a scheduler built on this one chooses. -/
def initialAffinity (cores : List ℕ) (t : ℕ) (s : State) : Except Fault State :=
  if cores.all (· < c.applicationCores) then
    .ok (s.setInfo t fun info => cores.foldl ThreadInfo.addAffinity info.clearAffinity)
  else .error .undefined

def step : Event → State → Except Fault State
  | .create affinity, s => createThread c (initialAffinity c affinity) s
  | .start t time, s => do
      let s ← beginStart t s
      let s ← threadStart c t time s
      .ok (endStart t s)
  | .stall t reason time, s => onThreadStall c t reason time s
  | .resume t time, s => onThreadResume c t time s
  | .yield t time, s => threadYield c t time s
  | .setAffinity calling t mask time, s => threadSetAffinity c calling t mask time s
  | .exit t time, s => do
      let s ← beginExit t s
      threadExit c t time s
  | .periodic time, s => periodic c time s

end Events

end PinnedBase

end GpuHotSpot.Common
