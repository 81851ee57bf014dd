import Mathlib.Tactic.Linarith
import Mathlib.Data.Fintype.BigOperators
import Mathlib.Algebra.BigOperators.Group.Finset.Piecewise
import GpuHotSpot.Common.SchedulerOpen

/-!
# The books of the open scheduler

The flags of the tasks, the owners of the cores and the threads of the cores say three times
which task runs where. They agree in every state of every run, and so the checks of `periodic`
do not fail, unless the list of preferred cores names a core twice: the policy then gives the
task the core twice.

* `schedule_ensures`: what scheduling a task does.
* `Books`: the invariant, with the number of cores of a task for lists without repetitions.
* `bookkeeping`: the books agree.
-/

namespace GpuHotSpot.Common.Open

open Fallible

variable {n m : ℕ} {config : Config n m} {s s' : State n m} {t : Fin n} {time : UInt64}

/-! ## Tasks and cores -/

def OpenTask.flags (task : OpenTask) : List Bool :=
  [task.waitingToSchedule, task.waitingInQueue, task.active, task.completed]

/-- The task is in exactly one state. -/
def OpenTask.OneState (task : OpenTask) : Prop := task.flags.count true = 1

/-- The cores that a task owns. -/
def State.owned (s : State n m) (t : Fin n) : Finset (Fin m) :=
  Finset.univ.filter fun c => (s.systemCores c).assignedTaskID = some t

/-- **The invariant.** -/
structure Books (config : Config n m) (s : State n m) : Prop where
  oneState : ∀ t, (s.openTasks t).OneState
  owner_active : ∀ c t, (s.systemCores c).assignedTaskID = some t → (s.openTasks t).active = true
  owns : config.preferredCore.Nodup → ∀ t, (s.openTasks t).active = true →
    (s.owned t).card = (s.openTasks t).taskCoreRequirement
  thread_task : ∀ c thread, (s.systemCores c).assignedThreadID = some thread →
    (s.systemCores c).assignedTaskID = some (config.app thread)
  thread_once : ∀ c c' thread, (s.systemCores c).assignedThreadID = some thread →
    (s.systemCores c').assignedThreadID = some thread → c = c'
  thread_alive : ∀ c thread, (s.systemCores c).assignedThreadID = some thread →
    thread < s.numThreads ∧ thread ∉ s.exited
  exited_created : ∀ thread ∈ s.exited, thread < s.numThreads
  exited_first : ∀ t : Fin n, (t : ℕ) ∈ s.exited → (s.openTasks t).completed = true
  started : ∀ t, (s.openTasks t).active = true ∨ (s.openTasks t).completed = true →
    t < s.numThreads

theorem State.numberOfTasksInQueue_le (s : State n m) : s.numberOfTasksInQueue ≤ n :=
  (Finset.card_le_univ _).trans_eq (Fintype.card_fin n)

theorem State.front_inQueue (front : s.taskFrontOfQueue = some t) :
    (s.openTasks t).waitingInQueue = true := by
  simpa using List.find?_some front

/-- The task is yet to be given cores. -/
def OpenTask.Waits (task : OpenTask) : Prop := task.active = false ∧ task.completed = false

theorem OpenTask.OneState.waits_iff {task : OpenTask} (one : task.OneState) :
    task.Waits ↔ task.waitingToSchedule = true ∨ task.waitingInQueue = true := by
  rcases task with ⟨a, b, c, d, requirement, arrival, start, departure⟩
  revert one
  cases a <;> cases b <;> cases c <;> cases d <;> simp [OneState, flags, Waits]

/-! ## Releasing cores -/

theorem releaseThread_thread (s : State n m) (c : Fin m) (thread th : ℕ) :
    ((s.releaseThread thread).systemCores c).assignedThreadID = some th ↔
      (s.systemCores c).assignedThreadID = some th ∧ th ≠ thread := by
  simp only [State.releaseThread]
  split_ifs with mine
  · simp [mine, eq_comm]
  · refine ⟨fun has => ⟨has, ?_⟩, And.left⟩
    rintro rfl
    exact mine has

theorem releaseThread_task (s : State n m) (c : Fin m) (thread : ℕ) :
    ((s.releaseThread thread).systemCores c).assignedTaskID = (s.systemCores c).assignedTaskID := by
  simp only [State.releaseThread]
  split_ifs <;> rfl

theorem releaseTask_thread (s : State n m) (c : Fin m) (t : Fin n) :
    ((s.releaseTask t).systemCores c).assignedThreadID = (s.systemCores c).assignedThreadID := by
  simp only [State.releaseTask]
  split_ifs <;> rfl

theorem releaseTask_task (s : State n m) (c : Fin m) (t u : Fin n) :
    ((s.releaseTask t).systemCores c).assignedTaskID = some u ↔
      (s.systemCores c).assignedTaskID = some u ∧ u ≠ t := by
  simp only [State.releaseTask]
  split_ifs with mine
  · simp [mine, eq_comm]
  · refine ⟨fun has => ⟨has, ?_⟩, And.left⟩
    rintro rfl
    exact mine has

section Release

variable {thread : ℕ}

theorem release_numThreads : (release config thread time s).numThreads = s.numThreads := by
  rw [release]
  split_ifs <;> rfl

theorem release_exited : (release config thread time s).exited = thread :: s.exited := by
  rw [release]
  split_ifs <;> rfl

theorem release_thread (c : Fin m) (th : ℕ) :
    ((release config thread time s).systemCores c).assignedThreadID = some th ↔
      (s.systemCores c).assignedThreadID = some th ∧ th ≠ thread := by
  rw [release, ← releaseThread_thread]
  split_ifs
  · exact Eq.congr_left (releaseTask_thread _ c _)
  · rfl

/-- The cores of the task are free once its first thread has exited. -/
theorem release_task (c : Fin m) (u : Fin n) :
    ((release config thread time s).systemCores c).assignedTaskID = some u ↔
      (s.systemCores c).assignedTaskID = some u ∧ ¬(thread < n ∧ config.app thread = u) := by
  rw [release, ← releaseThread_task s c thread]
  split_ifs with first
  · simp only [first, true_and, eq_comm (b := u)]
    exact releaseTask_task _ c _ u
  · simp [first]

theorem release_openTasks (u : Fin n) : (release config thread time s).openTasks u =
    if thread < n ∧ config.app thread = u then
      { s.openTasks u with taskDepartureTime := time, completed := true, active := false }
    else s.openTasks u := by
  rw [release]
  by_cases first : thread < n
  · rw [if_pos first]
    rcases eq_or_ne (config.app thread) u with rfl | ne
    · rw [if_pos ⟨first, rfl⟩]
      exact Function.update_self _ _ _
    · rw [if_neg fun both => ne both.2]
      exact Function.update_of_ne ne.symm _ _
  · rw [if_neg first, if_neg fun both => first both.1]
    rfl

end Release

/-! ## Scheduling a task -/

/-- The mapping policy gives the task as many cores as it requires, all of them available. -/
theorem executeMappingPolicy_some (mapped : executeMappingPolicy config t s = some s') :
    ∃ cores : List (Fin m), cores.length = (s.openTasks t).taskCoreRequirement ∧
      (∀ c ∈ cores, (s.systemCores c).assignedTaskID = none) ∧
      (config.preferredCore.Nodup → cores.Nodup) ∧ s' = s.assign cores t := by
  simp only [executeMappingPolicy, Option.ite_none_left_eq_some, Option.some.injEq] at mapped
  obtain ⟨enough, rfl⟩ := mapped
  obtain ⟨length, sublist⟩ := mapLoop_enough enough
  refine ⟨_, length, fun c member => ?_, fun nodup => ?_, rfl⟩
  · have available := (List.mem_filter.mp (sublist.subset member)).2
    simp only [Bool.and_eq_true, Option.isNone_iff_eq_none] at available
    exact available.2
  · exact sublist.nodup (((preferredCoresOrder_spec _).2 nodup).filter _)

/-- What is returned and left by `schedule`. A task that is mapped has its cores before its thread
is woken. -/
inductive Scheduled (config : Config n m) (t : Fin n) (isInitialCall : Bool) (time : UInt64)
    (s : State n m) : Bool × State n m → Prop
  | early (early : time < (s.openTasks t).taskArrivalTime) :
      Scheduled config t isInitialCall time s (false, s)
  | queued (arrived : (s.openTasks t).taskArrivalTime ≤ time) :
      Scheduled config t isInitialCall time s (false, s.enqueue t)
  | mapped (arrived : (s.openTasks t).taskArrivalTime ≤ time) (cores : List (Fin m))
      (length : cores.length = (s.openTasks t).taskCoreRequirement)
      (available : ∀ c ∈ cores, (s.systemCores c).assignedTaskID = none)
      (nodup : config.preferredCore.Nodup → cores.Nodup)
      (created : isInitialCall = false → t < s.numThreads) :
      Scheduled config t isInitialCall time s
        (true, if isInitialCall then ((s.enqueue t).assign cores t).activate t time
          else (setAffinity config t (((s.enqueue t).assign cores t).activate t time)).2)

/-- Waking a thread looks at the cores alone. -/
theorem setAffinity_activate (thread : ℕ) (s : State n m) (t : Fin n) :
    (setAffinity config thread s).2.activate t time =
      (setAffinity config thread (s.activate t time)).2 := by
  have same : coreFound config thread (s.activate t time) = coreFound config thread s := rfl
  rw [setAffinity, setAffinity, same]
  cases coreFound config thread s <;> rfl

theorem schedule_ensures (t : Fin n) (isInitialCall : Bool) (time : UInt64) (s : State n m) :
    Ensures (Scheduled config t isInitialCall time s) (· = .undefined)
      (schedule config t isInitialCall time s) := by
  rw [schedule]
  by_cases early : time < (s.openTasks t).taskArrivalTime
  · rw [if_pos early]
    exact .early early
  rw [if_neg early]
  have arrived := UInt64.not_lt.mp early
  dsimp only
  by_cases front : (s.enqueue t).taskFrontOfQueue ≠ some t
  · rw [if_pos front]
    exact .queued arrived
  rw [if_neg front]
  by_cases free : (s.enqueue t).numberOfFreeCores < ((s.enqueue t).openTasks t).taskCoreRequirement
  · rw [if_pos free]
    exact .queued arrived
  rw [if_neg free]
  have requirement : ((s.enqueue t).openTasks t).taskCoreRequirement =
      (s.openTasks t).taskCoreRequirement := by simp [State.enqueue, State.setTask]
  split
  · exact .queued arrived
  · rename_i u mapped
    obtain ⟨cores, length, available, nodup, rfl⟩ := executeMappingPolicy_some mapped
    rw [requirement] at length
    cases isInitialCall with
    | true => exact .mapped arrived cores length available nodup nofun
    | false =>
      rw [if_neg Bool.false_ne_true, wakeTask]
      split_ifs with created
      · rw [Except.map, setAffinity_activate]
        exact .mapped arrived cores length available nodup fun _ => created
      · exact rfl

/-- A task that is mapped leaves the queue. -/
theorem mapped_queue (queued : (s.openTasks t).waitingInQueue = true) (cores : List (Fin m)) :
    (setAffinity config t (((s.enqueue t).assign cores t).activate t time)).2.numberOfTasksInQueue <
      s.numberOfTasksInQueue := by
  have tasks : (setAffinity config t (((s.enqueue t).assign cores t).activate t time)).2.openTasks =
      (((s.enqueue t).assign cores t).activate t time).openTasks := by
    rw [setAffinity]
    cases coreFound config t _ <;> rfl
  rw [State.numberOfTasksInQueue, State.numberOfTasksInQueue, tasks]
  refine Finset.card_lt_card ((Finset.ssubset_iff_of_subset fun u => ?_).mpr ⟨t, ?_, ?_⟩)
  · rw [Finset.mem_filter, Finset.mem_filter]
    rcases eq_or_ne u t with rfl | ne
    · simp [State.activate, State.setTask]
    · simp [State.activate, State.assign, State.enqueue, State.setTask, ne]
  · simp [queued]
  · rw [Finset.mem_filter]
    simp [State.activate, State.setTask]

/-! ## What keeps the books -/

namespace Books

/-- Tasks may change their flags from one waiting state to another, and their arrival times. -/
theorem of_tasks (books : Books config s) (one : ∀ t, (s'.openTasks t).OneState)
    (active : ∀ t, (s'.openTasks t).active = (s.openTasks t).active)
    (completed : ∀ t, (s'.openTasks t).completed = (s.openTasks t).completed) (requirement : ∀ t,
      (s'.openTasks t).taskCoreRequirement = (s.openTasks t).taskCoreRequirement)
    (cores : s'.systemCores = s.systemCores) (threads : s.numThreads ≤ s'.numThreads)
    (exited : s'.exited = s.exited) : Books config s' where
  oneState := one
  owner_active c t owner := by
    rw [active]
    exact books.owner_active c t (cores ▸ owner)
  owns nodup t on := by
    rw [active] at on
    rw [requirement, ← books.owns nodup t on, State.owned, State.owned, cores]
  thread_task c thread assigned := by
    rw [cores] at assigned ⊢
    exact books.thread_task c thread assigned
  thread_once c c' thread assigned assigned' := by
    rw [cores] at assigned assigned'
    exact books.thread_once c c' thread assigned assigned'
  thread_alive c thread assigned := by
    rw [cores] at assigned
    rw [exited]
    exact ⟨(books.thread_alive c thread assigned).1.trans_le threads,
      (books.thread_alive c thread assigned).2⟩
  exited_created thread gone := by
    rw [exited] at gone
    exact (books.exited_created thread gone).trans_le threads
  exited_first t gone := by
    rw [exited] at gone
    rw [completed]
    exact books.exited_first t gone
  started t begun := by
    rw [active, completed] at begun
    exact (books.started t begun).trans_le threads

theorem enqueue (books : Books config s) (waits : (s.openTasks t).Waits) :
    Books config (s.enqueue t) := by
  have other {u : Fin n} (ne : u ≠ t) : (s.enqueue t).openTasks u = s.openTasks u :=
    Function.update_of_ne ne _ _
  have self : (s.enqueue t).openTasks t =
      { s.openTasks t with waitingInQueue := true, waitingToSchedule := false } :=
    Function.update_self _ _ _
  have each (P : OpenTask → OpenTask → Prop) (same : ∀ task, P task task)
      (changed : P { s.openTasks t with waitingInQueue := true, waitingToSchedule := false }
        (s.openTasks t)) (u : Fin n) : P ((s.enqueue t).openTasks u) (s.openTasks u) := by
    rcases eq_or_ne u t with rfl | ne
    · rwa [self]
    · rw [other ne]
      exact same _
  refine books.of_tasks (fun u => ?_) (each (fun a b => a.active = b.active) (fun _ => rfl) rfl)
    (each (fun a b => a.completed = b.completed) (fun _ => rfl) rfl)
    (each (fun a b => a.taskCoreRequirement = b.taskCoreRequirement) (fun _ => rfl) rfl) rfl le_rfl
    rfl
  rcases eq_or_ne u t with rfl | ne
  · rw [self, OpenTask.OneState, OpenTask.flags]
    simp [waits.1, waits.2]
  · rw [other ne]
    exact books.oneState u

theorem fetchTasksIntoQueue (books : Books config s) (time : UInt64) :
    Books config (fetchTasksIntoQueue time s) := by
  refine books.of_tasks (fun t => ?_) (fun t => ?_) (fun t => ?_) (fun t => ?_) rfl le_rfl rfl
  · have one := books.oneState t
    simp only [Open.fetchTasksIntoQueue]
    split_ifs with arrived
    · obtain ⟨waiting, -⟩ := arrived
      revert one waiting
      rcases s.openTasks t with ⟨a, b, c, d, requirement, arrival, start, departure⟩
      cases a <;> cases b <;> cases c <;> cases d <;> simp_all [OpenTask.OneState, OpenTask.flags]
    · exact one
  all_goals
    simp only [Open.fetchTasksIntoQueue]
    split_ifs <;> rfl

theorem readjust (books : Books config s) (timeJump : UInt64) :
    Books config (readjust timeJump s) := by
  refine books.of_tasks (fun t => ?_) (fun t => ?_) (fun t => ?_) (fun t => ?_) rfl le_rfl rfl
  · have one := books.oneState t
    simp only [Open.readjust]
    split_ifs <;> exact one
  all_goals
    simp only [Open.readjust]
    split_ifs <;> rfl

/-- A new thread. -/
theorem create (books : Books config s) : Books config { s with numThreads := s.numThreads + 1 } :=
  books.of_tasks books.oneState (fun _ => rfl) (fun _ => rfl) (fun _ => rfl) rfl (Nat.le_succ _) rfl

/-- A task is given cores that no task has, as many as it requires. -/
theorem map (books : Books config s) (time : UInt64) (waits : (s.openTasks t).Waits) {cores : List (Fin m)}
    (length : cores.length = (s.openTasks t).taskCoreRequirement)
    (available : ∀ c ∈ cores, (s.systemCores c).assignedTaskID = none)
    (nodup : config.preferredCore.Nodup → cores.Nodup) (created : t < s.numThreads) :
    Books config (((s.enqueue t).assign cores t).activate t time) := by
  set s' := ((s.enqueue t).assign cores t).activate t time with mapped
  have other {u : Fin n} (ne : u ≠ t) : s'.openTasks u = s.openTasks u := by
    simp [mapped, State.activate, State.assign, State.enqueue, State.setTask, ne]
  have self : s'.openTasks t = { s.openTasks t with
      taskStartTime := time, active := true, waitingInQueue := false,
      waitingToSchedule := false } := by
    simp [mapped, State.activate, State.assign, State.enqueue, State.setTask]
  have core (c : Fin m) : s'.systemCores c =
      if c ∈ cores then { s.systemCores c with assignedTaskID := some t } else s.systemCores c := rfl
  have thread (c : Fin m) :
      (s'.systemCores c).assignedThreadID = (s.systemCores c).assignedThreadID := by
    rw [core]
    split_ifs <;> rfl
  have unowned (c : Fin m) : (s.systemCores c).assignedTaskID ≠ some t := fun owner =>
    ne_true_of_eq_false waits.1 (books.owner_active c t owner)
  have owner (c : Fin m) (u : Fin n) : (s'.systemCores c).assignedTaskID = some u ↔
      if u = t then c ∈ cores else (s.systemCores c).assignedTaskID = some u := by
    rw [core]
    by_cases given : c ∈ cores <;> by_cases same : u = t
    · simp [given, same]
    · simp [given, same, available c given, Ne.symm same]
    · simp [given, same, unowned]
    · simp [given, same]
  refine ⟨fun u => ?_, fun c u own => ?_, fun distinct u on => ?_, fun c th has => ?_,
    fun c c' th has has' => ?_, fun c th has => ?_, books.exited_created, fun u gone => ?_,
    fun u begun => ?_⟩
  · rcases eq_or_ne u t with rfl | ne
    · rw [self, OpenTask.OneState, OpenTask.flags]
      simp [waits.2]
    · rw [other ne]
      exact books.oneState u
  · rw [owner] at own
    split_ifs at own with same
    · rw [same, self]
    · rw [other same]
      exact books.owner_active c u own
  · rcases eq_or_ne u t with rfl | ne
    · have owned : s'.owned u = cores.toFinset := by
        ext c
        simp [State.owned, owner]
      rw [self, owned, List.toFinset_card_of_nodup (nodup distinct), length]
    · have owned : s'.owned u = s.owned u := by
        ext c
        simp [State.owned, owner, ne]
      rw [other ne] at on ⊢
      rw [owned, books.owns distinct u on]
  · rw [thread] at has
    have before := books.thread_task c th has
    rw [core, if_neg fun given => by simp [available c given] at before]
    exact before
  · rw [thread] at has has'
    exact books.thread_once c c' th has has'
  · rw [thread] at has
    exact books.thread_alive c th has
  · rcases eq_or_ne u t with rfl | ne
    · exact absurd (books.exited_first u gone) (ne_true_of_eq_false waits.2)
    · rw [other ne]
      exact books.exited_first u gone
  · rcases eq_or_ne u t with rfl | ne
    · exact created
    · rw [other ne] at begun
      exact books.started u begun

/-- A thread that has no core is given a core of its task. -/
theorem setAffinity (books : Books config s) {thread : ℕ} (created : thread < s.numThreads)
    (runs : thread ∉ s.exited) (idle : ∀ c, (s.systemCores c).assignedThreadID ≠ some thread) :
    Books config (setAffinity config thread s).2 := by
  rw [Open.setAffinity]
  cases found : coreFound config thread s with
  | none => exact books
  | some c =>
    change Books config (s.setThread c thread)
    obtain ⟨own, -⟩ : (s.systemCores c).assignedTaskID = some (config.app thread) ∧
        (s.systemCores c).assignedThreadID = none := by
      simpa using List.find?_some found
    have owner (d : Fin m) : ((s.setThread c thread).systemCores d).assignedTaskID =
        (s.systemCores d).assignedTaskID := by
      rcases eq_or_ne d c with rfl | ne
      · simp [State.setThread]
      · simp [State.setThread, ne]
    have assigned (d : Fin m) (th : ℕ) :
        ((s.setThread c thread).systemCores d).assignedThreadID = some th ↔
          if d = c then thread = th else (s.systemCores d).assignedThreadID = some th := by
      rcases eq_or_ne d c with rfl | ne
      · simp [State.setThread]
      · simp [State.setThread, ne]
    refine ⟨books.oneState, fun d u o => ?_, fun nodup u on => ?_, fun d th has => ?_,
      fun d d' th has has' => ?_, fun d th has => ?_, books.exited_created, books.exited_first,
      books.started⟩
    · rw [owner] at o
      exact books.owner_active d u o
    · refine Eq.trans ?_ (books.owns nodup u on)
      exact congrArg Finset.card (Finset.filter_congr fun d _ => by rw [owner])
    · rw [owner]
      rw [assigned] at has
      split_ifs at has with same
      · rw [same, ← has, own]
      · exact books.thread_task d th has
    · rw [assigned] at has has'
      split_ifs at has has' with same same' same'
      · rw [same, same']
      · exact absurd (has ▸ has') (idle d')
      · exact absurd (has' ▸ has) (idle d)
      · exact books.thread_once d d' th has has'
    · rw [assigned] at has
      split_ifs at has with same
      · exact has ▸ ⟨created, runs⟩
      · exact books.thread_alive d th has

/-- **The end of a thread**, which is the end of its task if it is the first one. -/
theorem release (books : Books config s) (first : ∀ t : Fin n, config.app t = t) {thread : ℕ}
    (legal : Legal config s (.exit thread time)) :
    Books config (Open.release config thread time s) := by
  obtain ⟨⟨c₀, runs⟩, last⟩ := legal
  obtain ⟨created, alive⟩ := books.thread_alive c₀ thread runs
  have busy : (s.openTasks (config.app thread)).active = true :=
    books.owner_active c₀ _ (books.thread_task c₀ thread runs)
  have same {u : Fin n} (ends : thread < n ∧ config.app thread = u) : (u : ℕ) = thread := by
    obtain ⟨isFirst, rfl⟩ := ends
    exact congrArg Fin.val (first ⟨thread, isFirst⟩)
  refine ⟨fun u => ?_, fun c u own => ?_, fun nodup u on => ?_, fun c th has => ?_,
    fun c c' th has has' => ?_, fun c th has => ?_, fun th gone => ?_, fun u gone => ?_,
    fun u begun => ?_⟩
  · have one := books.oneState u
    rw [release_openTasks]
    split_ifs with ends
    · rw [ends.2] at busy
      revert one busy
      rcases s.openTasks u with ⟨a, b, c, d, requirement, arrival, start, departure⟩
      cases a <;> cases b <;> cases c <;> cases d <;> simp [OpenTask.OneState, OpenTask.flags]
    · exact one
  · rw [release_task] at own
    rw [release_openTasks, if_neg own.2]
    exact books.owner_active c u own.1
  · rw [release_openTasks] at on ⊢
    split_ifs at on ⊢ with ends
    refine Eq.trans (congrArg Finset.card (Finset.filter_congr fun c _ => ?_))
      (books.owns nodup u on)
    rw [release_task, and_iff_left ends]
  · rw [release_thread] at has
    refine (release_task c _).mpr ⟨books.thread_task c th has.1, fun ends => ?_⟩
    obtain ⟨there, working⟩ := books.thread_alive c th has.1
    rcases last ends.1 th there ends.2.symm with itself | gone
    · exact has.2 itself
    · exact working gone
  · rw [release_thread] at has has'
    exact books.thread_once c c' th has.1 has'.1
  · rw [release_thread] at has
    obtain ⟨there, working⟩ := books.thread_alive c th has.1
    rw [release_numThreads, release_exited, List.mem_cons, not_or]
    exact ⟨there, has.2, working⟩
  · rw [release_exited] at gone
    rw [release_numThreads]
    rcases List.mem_cons.mp gone with rfl | before
    · exact created
    · exact books.exited_created th before
  · rw [release_exited] at gone
    rw [release_openTasks]
    split_ifs with ends
    · rfl
    · rcases List.mem_cons.mp gone with itself | before
      · exact absurd ⟨itself ▸ u.2, itself ▸ first u⟩ ends
      · exact books.exited_first u before
  · rw [release_openTasks] at begun
    rw [release_numThreads]
    split_ifs at begun with ends
    · exact same ends ▸ created
    · exact books.started u begun

/-! ## Calls -/

theorem front_waits (books : Books config s) (front : s.taskFrontOfQueue = some t) :
    (s.openTasks t).Waits :=
  (books.oneState t).waits_iff.mpr (.inr (s.front_inQueue front))

/-- A task that is yet to be given cores has no thread on a core. -/
theorem idle (books : Books config s) (first : ∀ t : Fin n, config.app t = t)
    (waits : (s.openTasks t).Waits) (c : Fin m) :
    (s.systemCores c).assignedThreadID ≠ some t := by
  intro runs
  have owner := books.thread_task c t runs
  rw [first] at owner
  exact ne_true_of_eq_false waits.1 (books.owner_active c t owner)

/-- The first thread of a task that is yet to be given cores has not exited. -/
theorem not_exited (books : Books config s) (waits : (s.openTasks t).Waits) :
    (t : ℕ) ∉ s.exited :=
  fun gone => ne_true_of_eq_false waits.2 (books.exited_first t gone)

/-- The threads of the cores are the same after a task has been mapped. -/
theorem mapped_thread (s : State n m) (cores : List (Fin m)) (t : Fin n) (c : Fin m) :
    ((((s.enqueue t).assign cores t).activate t time).systemCores c).assignedThreadID =
      (s.systemCores c).assignedThreadID := by
  simp only [State.activate, State.setTask, State.assign, State.enqueue]
  split_ifs <;> rfl

/-- **A task is scheduled** and its first thread is woken. -/
theorem schedule (books : Books config s) (first : ∀ t : Fin n, config.app t = t)
    (waits : (s.openTasks t).Waits) :
    Ensures (fun r => Books config r.2) (· = .undefined) (Open.schedule config t false time s) := by
  refine (schedule_ensures t false time s).mono fun r done => ?_
  cases done with
  | early => exact books
  | queued => exact books.enqueue waits
  | mapped arrived cores length available nodup created =>
    have mapped := books.map time waits length available nodup (created rfl)
    refine mapped.setAffinity (created rfl) (books.not_exited waits) fun c => ?_
    rw [mapped_thread]
    exact books.idle first waits c

/-- A task is scheduled when its first thread is created; its cores have no threads yet. -/
theorem schedule_initial (books : Books config s) (waits : (s.openTasks t).Waits)
    (created : t < s.numThreads) :
    Ensures (fun r => Books config r.2 ∧ r.2.numThreads = s.numThreads ∧ r.2.exited = s.exited ∧
        ∀ c, (r.2.systemCores c).assignedThreadID = (s.systemCores c).assignedThreadID)
      (· = .undefined) (Open.schedule config t true time s) := by
  refine (schedule_ensures t true time s).mono fun r done => ?_
  cases done with
  | early => exact ⟨books, rfl, rfl, fun _ => rfl⟩
  | queued => exact ⟨books.enqueue waits, rfl, rfl, fun _ => rfl⟩
  | mapped arrived cores length available nodup =>
    exact ⟨books.map time waits length available nodup created, rfl, rfl, mapped_thread s cores t⟩

/-- The task in front of the queue is scheduled, and if it is mapped the queue gets shorter. -/
theorem scheduleFront (books : Books config s) (first : ∀ t : Fin n, config.app t = t) :
    Ensures (fun r => Books config r.2 ∧
        (r.1 = true → r.2.numberOfTasksInQueue < s.numberOfTasksInQueue))
      (· = .undefined) (Open.scheduleFront config time s) := by
  rw [Open.scheduleFront]
  cases front : s.taskFrontOfQueue with
  | none => exact rfl
  | some t =>
    have waits := books.front_waits front
    refine (books.schedule first waits).and
      ((schedule_ensures t false time s).mono fun r done mapped => ?_)
    cases done with
    | early | queued => cases mapped
    | mapped arrived cores =>
      exact mapped_queue (s.front_inQueue front) cores

/-- The loop of `periodic` ends before its fuel does. -/
theorem mapQueue (books : Books config s) (first : ∀ t : Fin n, config.app t = t) {fuel : ℕ}
    (enough : s.numberOfTasksInQueue ≤ fuel) :
    Ensures (Books config) (· = .undefined) (Open.mapQueue config time fuel s) := by
  induction fuel generalizing s with
  | zero =>
    rw [Open.mapQueue, if_pos (Nat.le_zero.mp enough)]
    exact books
  | succ fuel ih =>
    rw [Open.mapQueue]
    split_ifs with empty
    · exact books
    · refine (books.scheduleFront first).bind fun ⟨mapped, s'⟩ ⟨books', shorter⟩ => ?_
      dsimp only at books' shorter ⊢
      split_ifs with again
      · exact ih books' (Nat.le_of_lt_succ ((shorter again).trans_le enough))
      · exact books'

theorem prefetch (books : Books config s) (first : ∀ t : Fin n, config.app t = t) :
    Ensures (Books config) (fun f => f = .undefined ∨ f = .exit)
      (Open.prefetch config time s) := by
  have front {s : State n m} (books : Books config s) :
      Ensures (Books config) (fun f => f = .undefined ∨ f = .exit)
        (Open.scheduleFront config time s >>= fun r => pure r.2) :=
    ((books.scheduleFront first).imp (fun _ done => done.1) fun _ => .inl).bind
      fun _ books' => books'
  rw [Open.prefetch]
  split_ifs with empty queued found
  · exact front books
  · exact .inr rfl
  · exact front ((books.readjust _).fetchTasksIntoQueue time)
  · exact books

theorem threadCreate (books : Books config s) (coreIsFree : Bool) :
    Ensures (Books config) (fun f => f = .undefined ∨ f = .exit)
      (Open.threadCreate config time coreIsFree s) := by
  -- the new thread is on no core, also after its task has been scheduled
  have scheduled : Ensures (fun s' : State n m => Books config s' ∧
      s'.numThreads = s.numThreads + 1 ∧ s'.exited = s.exited ∧
      ∀ c, (s'.systemCores c).assignedThreadID = (s.systemCores c).assignedThreadID)
      (fun f => f = .undefined ∨ f = .exit)
      (scheduleNew config s.numThreads time { s with numThreads := s.numThreads + 1 }) := by
    rw [scheduleNew]
    split_ifs with isFirst
    · have waits : (s.openTasks ⟨s.numThreads, isFirst⟩).Waits := by
        constructor
        all_goals
          refine Bool.eq_false_iff.mpr fun begun => ?_
          exact absurd (books.started ⟨s.numThreads, isFirst⟩ (by simp [begun])) (lt_irrefl _)
      refine ((books.create.schedule_initial (t := ⟨s.numThreads, isFirst⟩) waits
        (Nat.lt_succ_self _)).imp (fun _ done => done) fun _ => .inl).bind
        fun ⟨mapped, s'⟩ done => ?_
      dsimp only
      split_ifs
      · exact .inr rfl
      · exact done
    · exact ⟨books.create, rfl, rfl, fun _ => rfl⟩
  refine scheduled.bind fun s' ⟨books', number, exited, threads⟩ => ?_
  have assigned : Books config (Open.setAffinity config s.numThreads s').2 := by
    refine books'.setAffinity (number ▸ Nat.lt_succ_self _) (fun gone => ?_) fun c runs => ?_
    · exact lt_irrefl _ (books.exited_created _ (exited ▸ gone))
    · rw [threads] at runs
      exact lt_irrefl _ (books.thread_alive c _ runs).1
  dsimp only
  split_ifs
  · exact .inr rfl
  · exact assigned

/-- The cores that no task has, and those of the active tasks, are all cores. -/
theorem free_cores (books : Books config s) (nodup : config.preferredCore.Nodup) :
    s.numberOfFreeCores + s.totalCoreRequirementsOfActiveTasks = m := by
  have all := Finset.card_eq_sum_card_fiberwise (f := fun c => (s.systemCores c).assignedTaskID)
    (s := Finset.univ) (t := Finset.univ) fun _ _ => Finset.mem_univ _
  rw [Finset.card_univ, Fintype.card_fin, Fintype.sum_option] at all
  refine Eq.trans ?_ all.symm
  rw [State.numberOfFreeCores, State.totalCoreRequirementsOfActiveTasks, Finset.sum_filter]
  refine congrArg _ (Finset.sum_congr rfl fun t _ => ?_)
  split_ifs with active
  · exact (books.owns nodup t active).symm
  · refine (Finset.card_eq_zero.mpr (Finset.filter_eq_empty_iff.mpr fun c _ own => ?_)).symm
    exact active (books.owner_active c t own)

/-- Every task is counted in one of its states. -/
theorem task_states (books : Books config s) :
    s.numberOfActiveTasks + s.numberOfTasksCompleted + s.numberOfTasksInQueue +
      s.numberOfTasksWaitingToSchedule = n := by
  simp only [State.numberOfActiveTasks, State.numberOfTasksCompleted, State.numberOfTasksInQueue,
    State.numberOfTasksWaitingToSchedule, Finset.card_filter, ← Finset.sum_add_distrib]
  refine (Finset.sum_congr rfl fun t _ => ?_).trans
    ((Fintype.card_eq_sum_ones (α := Fin n)).symm.trans (Fintype.card_fin n))
  have one := books.oneState t
  revert one
  rcases s.openTasks t with ⟨a, b, c, d, requirement, arrival, start, departure⟩
  cases a <;> cases b <;> cases c <;> cases d <;> simp [OpenTask.OneState, OpenTask.flags]

/-- **The checks** of `periodic` do not fail. -/
theorem consistent (books : Books config s) (nodup : config.preferredCore.Nodup) :
    Consistent s := by
  have cores := books.free_cores nodup
  exact ⟨by omega, books.task_states⟩

theorem periodic (books : Books config s) (first : ∀ t : Fin n, config.app t = t) :
    Ensures (Books config)
      (fun f => f = .undefined ∨ f = .inconsistent ∧ ¬config.preferredCore.Nodup)
      (Open.periodic config time s) := by
  rw [Open.periodic]
  split_ifs with failed
  · exact .inr ⟨rfl, fun nodup => failed.2 (books.consistent nodup)⟩
  · exact .inl rfl
  · refine ((books.fetchTasksIntoQueue time).mapQueue first
      (State.numberOfTasksInQueue_le _)).imp (fun _ kept => kept) fun _ => .inl
  · exact books

/-! ## Runs -/

theorem start (requirement : Fin n → ℕ) (arrival : Fin n → UInt64) :
    Books config (start requirement arrival : State n m) := by
  constructor <;> intros <;> simp_all [Open.start, OpenTask.OneState, OpenTask.flags]

/-- Every call keeps the books. -/
theorem step (books : Books config s) (first : ∀ t : Fin n, config.app t = t) {event : Event}
    (legal : Legal config s event) :
    Ensures (Books config)
      (fun f => f = .undefined ∨ f = .exit ∨ f = .inconsistent ∧ ¬config.preferredCore.Nodup)
      (Open.step config event s) := by
  cases event with
  | create time coreIsFree =>
    exact (books.threadCreate coreIsFree).imp (fun _ kept => kept) fun _ => Or.imp_right .inl
  | exit thread time =>
    exact ((books.release first legal).prefetch first).imp (fun _ kept => kept)
      fun _ => Or.imp_right .inl
  | periodic time => exact (books.periodic first).imp (fun _ kept => kept) fun _ => Or.imp_right .inr

/-- The books agree after every run. -/
theorem of_run {requirement : Fin n → ℕ} {arrival : Fin n → UInt64} {events : List Event}
    (first : ∀ t : Fin n, config.app t = t)
    (legal : Along (Legal config) (Open.step config) events (Open.start requirement arrival)) :
    Ensures (Books config)
      (fun f => f = .undefined ∨ f = .exit ∨ f = .inconsistent ∧ ¬config.preferredCore.Nodup)
      (runEvents (Open.step config) events (Open.start requirement arrival)) :=
  legal.ensures_runEvents (fun _ _ legal books => books.step first legal)
    (Books.start requirement arrival)

end Books

/-- What the books say about a state. -/
def Bookkeeping (config : Config n m) (s : State n m) : Prop :=
  (∀ t, (s.openTasks t).OneState) ∧
    (∀ t, (s.openTasks t).active = true →
      (s.owned t).card = (s.openTasks t).taskCoreRequirement) ∧
    (∀ c t, (s.systemCores c).assignedTaskID = some t → (s.openTasks t).active = true) ∧
    (∀ c thread, (s.systemCores c).assignedThreadID = some thread →
      (s.systemCores c).assignedTaskID = some (config.app thread)) ∧
    (∀ c c' thread, (s.systemCores c).assignedThreadID = some thread →
      (s.systemCores c').assignedThreadID = some thread → c = c') ∧
    Consistent s

/-- **The books agree** in every state of every run, and the checks of `periodic` never end it, if no
core is twice in the list of preferred cores. -/
theorem bookkeeping (config : Config n m) (requirement : Fin n → ℕ) (arrival : Fin n → UInt64)
    (events : List Event) (first : ∀ t : Fin n, config.app t = t)
    (legal : Along (Legal config) (step config) events (start requirement arrival))
    (distinct : config.preferredCore.Nodup) :
    Ensures (Bookkeeping config) (fun f => f ≠ .inconsistent ∧ f ≠ .unfinished)
      (runEvents (step config) events (start requirement arrival)) := by
  refine (Books.of_run first legal).imp (fun s books => ?_) fun f fault => ?_
  · exact ⟨books.oneState, books.owns distinct, books.owner_active, books.thread_task,
      books.thread_once, books.consistent distinct⟩
  · rcases fault with rfl | rfl | ⟨-, twice⟩
    · exact ⟨nofun, nofun⟩
    · exact ⟨nofun, nofun⟩
    · exact absurd distinct twice

/-- Two cores, the first of them preferred twice, and a task that requires both. -/
def preferredTwice : Config 1 2 := ⟨fun _ => true, [0, 0], 1000000, fun _ => 0⟩

theorem bookkeeping_once :
    Ensures (Bookkeeping { preferredTwice with preferredCore := [0] })
      (fun f => f ≠ .inconsistent ∧ f ≠ .unfinished)
      (runEvents (step { preferredTwice with preferredCore := [0] })
        [.create 0 true, .exit 0 2000000, .periodic 3000000]
        (start (fun _ => 2) fun _ => 0)) := by
  refine bookkeeping _ _ _ _ (by decide) ⟨trivial, fun t ran => ?_⟩ (by decide)
  cases ran
  exact ⟨⟨⟨0, by decide⟩, by decide⟩, fun _ _ => ⟨trivial, fun _ _ => trivial⟩⟩

/-- The task owns one core and not two, and the next check ends the run. -/
theorem bookkeeping_twice :
    ¬∀ (n m : ℕ) (config : Config n m) (requirement : Fin n → ℕ) (arrival : Fin n → UInt64)
      (events : List Event), (∀ t : Fin n, config.app t = t) →
      Along (Legal config) (step config) events (start requirement arrival) →
      Ensures (Bookkeeping config) (fun f => f ≠ .inconsistent)
        (runEvents (step config) events (start requirement arrival)) := by
  intro all
  have run := all 1 2 preferredTwice (fun _ => 2) (fun _ => 0)
    [.create 0 true, .periodic 1000000] (by decide) ⟨trivial, fun _ _ => ⟨trivial, fun _ _ => trivial⟩⟩
  have ended : runEvents (step preferredTwice) [.create 0 true, .periodic 1000000]
      (start (fun _ => 2) fun _ => 0) = .error .inconsistent := by rfl
  rw [ended] at run
  exact run rfl

end GpuHotSpot.Common.Open
