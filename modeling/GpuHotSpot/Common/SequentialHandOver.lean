import GpuHotSpot.Common.SchedulerPinnedBase
import GpuHotSpot.Lib.Machine

/-!
# Handing a core over

When the thread of a core is over and one other thread waits for that core, rescheduling gives
the core to it.

* `ensures_reschedule_only`: rescheduling does nothing else.
-/

namespace GpuHotSpot.Common.Sequential

open Fallible
open PinnedBase (Fault Status StallType ThreadInfo ThreadState)

/-! ## Moving threads -/

/-- What changes when a core is handed from a thread that is over to one that waits for it. -/
structure HandedOver (s s' : PinnedBase.State) (core old new : ℕ) : Prop where
  numThreads : s'.numThreads = s.numThreads
  cores : s'.coreThreadRunning = Function.update s.coreThreadRunning core (some new)
  coreRunning : ∀ t, (s'.threadInfo t).coreRunning =
    if t = new then some core else if t = old then none else (s.threadInfo t).coreRunning
  coreAffinity : ∀ t, (s'.threadInfo t).coreAffinity = (s.threadInfo t).coreAffinity
  others : ∀ t, t ≠ new → t ≠ old → s'.threadInfo t = s.threadInfo t
  thread : ∀ t, s'.thread t =
    if t = new then { s.thread t with
      status := .running
      core := some core }
    else if t = old then { s.thread t with core := none } else s.thread t
  runnable : ∀ t, s'.isRunnable t = s.isRunnable t

section HandOver

variable {c : PinnedBase.Config} {s : PinnedBase.State} {core old new : ℕ}

theorem ensures_setRunnable (t : ℕ) (runnable : Bool) :
    Ensures (· = { s with threadsRunnable := s.threadsRunnable.set t runnable }) (fun _ => True)
      (s.setRunnable t runnable) := by
  unfold PinnedBase.State.setRunnable
  split_ifs
  · exact rfl
  · trivial

variable {again : SubsecondTime → ℕ → PinnedBase.State → Except Fault PinnedBase.State}

/-- Nothing is rescheduled for a thread whose cores are taken. -/
theorem rescheduleFreeCore_taken {t : ℕ} (time : SubsecondTime)
    (taken : ∀ core, (s.threadInfo t).coreAffinity core = true → s.coreThreadRunning core ≠ none) :
    PinnedBase.rescheduleFreeCore c again t time s = .ok s := by
  have found : PinnedBase.findFreeCoreForThread c s t = none := by
    refine List.find?_eq_none.mpr fun core _ free => ?_
    simp only [Bool.and_eq_true, Option.isNone_iff_eq_none] at free
    exact taken core free.1 free.2
  rw [PinnedBase.rescheduleFreeCore, found]

/-- The thread with its core. -/
def woken (s : PinnedBase.State) (core t : ℕ) : PinnedBase.State :=
  { s with
    thread := Function.update s.thread t { s.thread t with
      status := .running
      core := some core }
    threadsRunnable := s.threadsRunnable.set t true }

/-- A thread that waits for a core and has no other core is woken, which reschedules nothing. -/
theorem ensures_moveThread_wakes (time : SubsecondTime)
    (waits : s.thread new = ⟨.stalled, .unscheduled, none⟩)
    (taken : ∀ core, (s.threadInfo new).coreAffinity core = true →
      s.coreThreadRunning core ≠ none) :
    Ensures (· = woken s core new) (fun _ => True)
      (PinnedBase.moveThread c again new (some core) time s) := by
  unfold PinnedBase.moveThread PinnedBase.wakeThread
  dsimp only
  split_ifs with beyond waiting
  · trivial
  · unfold PinnedBase.resumeThread
    rw [bind_assoc]
    refine (ensures_setRunnable new true).bind fun u now => ?_
    subst now
    rw [rescheduleFreeCore_taken]
    · simp only [ok_bind, ensures_ok, woken, PinnedBase.State.setThread, Function.update_self,
        Function.update_idem]
    · exact taken
  · rw [waits] at waiting
    exact absurd ⟨rfl, rfl, rfl, rfl⟩ waiting

/-- The thread without its core. -/
def released (s : PinnedBase.State) (core t : ℕ) (time : SubsecondTime) : PinnedBase.State :=
  ((s.setCoreRunning t none).setInfo t fun info =>
    { info with lastScheduledOut := time + .ps core }).setThread t fun th => { th with core := none }

theorem ensures_scheduleOut (time : SubsecondTime) (running : s.coreThreadRunning core = some old) :
    Ensures (· = released s core old time) (fun _ => True)
      (PinnedBase.scheduleOut c again core time s) := by
  rw [PinnedBase.scheduleOut, running]
  dsimp only
  rw [PinnedBase.moveThread]
  split_ifs
  · trivial
  · exact rfl

/-- The thread with its core, to which it was not assigned before. -/
def assigned (s : PinnedBase.State) (core t : ℕ) (time : SubsecondTime) : PinnedBase.State :=
  woken (((s.setThreadRunning core (some t)).setCoreRunning t (some core)).setInfo t fun info =>
    { info with lastScheduledIn := time }) core t

theorem ensures_scheduleIn (time : SubsecondTime)
    (waits : s.thread new = ⟨.stalled, .unscheduled, none⟩)
    (nowhere : (s.threadInfo new).coreRunning = none)
    (own : ∀ core', (s.threadInfo new).coreAffinity core' = true → core' = core) :
    Ensures (· = assigned s core new time) (fun _ => True)
      (PinnedBase.scheduleIn c again core (some new) time s) := by
  have free : ((s.setThreadRunning core (some new)).threadInfo new).coreRunning = none := nowhere
  simp only [PinnedBase.scheduleIn, free]
  refine ensures_moveThread_wakes time waits fun core' affinity => ?_
  simp only [PinnedBase.State.setInfo, PinnedBase.State.setCoreRunning, Function.update_self]
    at affinity
  rw [own core' affinity]
  simp [PinnedBase.State.setInfo, PinnedBase.State.setCoreRunning,
    PinnedBase.State.setThreadRunning]

theorem getD_set {threads : List Bool} {t : ℕ} (inside : t < threads.length) (r : Bool) (u : ℕ) :
    (threads.set t r).getD u false = if u = t then r else threads.getD u false := by
  rw [List.getD_eq_getElem?_getD, List.getD_eq_getElem?_getD]
  split_ifs with same
  · rw [same, List.getElem?_set_self inside]
    rfl
  · rw [List.getElem?_set_ne (Ne.symm same)]

theorem getD_append_replicate (threads : List Bool) (n u : ℕ) :
    (threads ++ List.replicate n false).getD u false = threads.getD u false := by
  rw [List.getD_eq_getElem?_getD, List.getD_eq_getElem?_getD, List.getElem?_append]
  split_ifs with inside
  · rfl
  · rw [List.getElem?_eq_none (not_lt.mp inside), List.getElem?_replicate]
    split_ifs <;> rfl

theorem handedOver_assigned {quantum : SubsecondTime} {time : SubsecondTime} (other : new ≠ old)
    (ready : s.isRunnable new = true) :
    HandedOver s ((assigned (released s core old time) core new time).setQuantumLeft core quantum)
      core old new := by
  refine ⟨rfl, rfl, fun t => ?_, fun t => ?_, fun t notNew notOld => ?_, fun t => ?_, fun t => ?_⟩
  all_goals simp only [assigned, woken, released, PinnedBase.State.setQuantumLeft,
    PinnedBase.State.setThread, PinnedBase.State.setInfo, PinnedBase.State.setCoreRunning,
    PinnedBase.State.setThreadRunning, PinnedBase.State.isRunnable, Function.update_apply]
  · split_ifs <;> rfl
  · split_ifs <;> simp_all
  · rw [if_neg notNew, if_neg notNew, if_neg notOld, if_neg notOld]
  · split_ifs <;> simp_all
  · rw [getD_set (PinnedBase.State.lt_of_isRunnable ready)]
    split_ifs with isNew
    · rw [isNew]
      exact ready.symm
    · rfl

/-- **Hand-over.** Rescheduling gives the core of a thread that is over to the only one that may run
on it. -/
theorem ensures_reschedule_only (time : SubsecondTime) (running : s.coreThreadRunning core = some old)
    (started : (s.thread old).status ≠ .initializing) (other : new ≠ old)
    (only : ∀ t, s.isCandidate core t = true ↔ t = new)
    (waits : s.thread new = ⟨.stalled, .unscheduled, none⟩)
    (nowhere : (s.threadInfo new).coreRunning = none)
    (own : ∀ core', (s.threadInfo new).coreAffinity core' = true → core' = core) :
    Ensures (HandedOver s · core old new) (fun _ => True) (PinnedBase.reschedule c time core s) := by
  unfold PinnedBase.reschedule PinnedBase.rescheduleWithin
  dsimp only
  rw [running, PinnedBase.chooseThread_only time only, if_neg (by simpa using started)]
  split_ifs with short same
  · trivial
  · exact absurd (Option.some.inj same).symm other
  · rw [PinnedBase.switchThread, bind_assoc]
    refine (ensures_scheduleOut time running).bind fun u out => ?_
    subst out
    refine (ensures_scheduleIn time ?_ ?_ ?_).bind fun v into => ?_
    · rw [← waits]
      exact Function.update_of_ne other _ _
    · rw [← nowhere]
      simp only [released, PinnedBase.State.setThread, PinnedBase.State.setInfo,
        PinnedBase.State.setCoreRunning, Function.update_of_ne other]
    · intro core' affinity
      refine own core' ?_
      simpa only [released, PinnedBase.State.setThread, PinnedBase.State.setInfo,
        PinnedBase.State.setCoreRunning, Function.update_of_ne other] using affinity
    · subst into
      have candidate := (only new).mpr rfl
      simp only [PinnedBase.State.isCandidate, Bool.and_eq_true] at candidate
      exact handedOver_assigned other candidate.1.2

end HandOver

end GpuHotSpot.Common.Sequential
