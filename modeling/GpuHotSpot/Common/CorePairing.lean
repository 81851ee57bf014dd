import Mathlib.Data.Finset.Card
import Mathlib.Data.Finset.Range
import GpuHotSpot.Common.SchedulerPinnedBase
import GpuHotSpot.Lib.Machine

/-!
# Threads and cores stay paired

The pinned scheduler keeps two maps that should be each other's inverse: the thread that a
core runs and the core that a thread runs on.

* `ensures_rescheduleWithin`: rescheduling keeps them so, and the nesting of its calls ends.
* `ensures_step`: so does every event.
* `pairing`: threads and cores are paired after every run.
-/

namespace GpuHotSpot.Common.PinnedBase

open Fallible

variable {c : Config} {s s' : State} {t core : ℕ} {new : Option ℕ} {time : SubsecondTime}

/-! ## The two maps -/

/-- A core runs a thread if and only if the thread runs on the core. -/
def Paired (s : State) : Prop :=
  ∀ core t, s.coreThreadRunning core = some t ↔ (s.threadInfo t).coreRunning = some core

/-- The maps are paired, and a thread that is not created runs nowhere. -/
structure Inv (s : State) : Prop where
  paired : Paired s
  fresh : ∀ t, s.numThreads ≤ t → (s.threadInfo t).coreRunning = none

theorem Paired.thread_unique (paired : Paired s) {core core' : ℕ}
    (here : s.coreThreadRunning core = some t) (there : s.coreThreadRunning core' = some t) :
    core = core' := by
  have one := ((paired core t).mp here).symm.trans ((paired core' t).mp there)
  exact Option.some.inj one

/-- An update that does not touch the maps. -/
theorem Inv.of_same (inv : Inv s) (cores : s'.coreThreadRunning = s.coreThreadRunning)
    (threads : ∀ t, (s'.threadInfo t).coreRunning = (s.threadInfo t).coreRunning)
    (number : s.numThreads ≤ s'.numThreads) : Inv s' := by
  refine ⟨fun core t => ?_, fun t beyond => ?_⟩
  · rw [cores, threads]
    exact inv.paired core t
  · rw [threads]
    exact inv.fresh t (number.trans beyond)

theorem setInfo_coreRunning {f : ThreadInfo → ThreadInfo}
    (keeps : ∀ info, (f info).coreRunning = info.coreRunning) (u : ℕ) :
    ((s.setInfo t f).threadInfo u).coreRunning = (s.threadInfo u).coreRunning := by
  simp only [State.setInfo, Function.update_apply]
  split_ifs with same
  · rw [keeps, same]
  · rfl

theorem Inv.setInfo (inv : Inv s) {f : ThreadInfo → ThreadInfo}
    (keeps : ∀ info, (f info).coreRunning = info.coreRunning) : Inv (s.setInfo t f) :=
  inv.of_same rfl (setInfo_coreRunning keeps) le_rfl

theorem Inv.setThread (inv : Inv s) (f : ThreadState → ThreadState) : Inv (s.setThread t f) :=
  inv.of_same rfl (fun _ => rfl) le_rfl

theorem Inv.setQuantumLeft (inv : Inv s) (left : SubsecondTime) :
    Inv (s.setQuantumLeft core left) :=
  inv.of_same rfl (fun _ => rfl) le_rfl

theorem Inv.setRunnable (inv : Inv s) (runnable : Bool) :
    Ensures Inv (· ≠ .unfinished) (s.setRunnable t runnable) := by
  unfold State.setRunnable
  split_ifs
  · exact inv.of_same rfl (fun _ => rfl) le_rfl
  · exact nofun

/-- A core without a thread and a thread without a core are paired. -/
theorem Inv.occupy (inv : Inv (s.setThreadRunning core none)) (created : t < s.numThreads)
    (free : (s.threadInfo t).coreRunning = none) :
    Inv ((s.setThreadRunning core (some t)).setCoreRunning t (some core)) := by
  refine ⟨fun core' u => ?_, fun u beyond => ?_⟩
  · have old := inv.paired core' u
    simp only [State.setThreadRunning, State.setCoreRunning, State.setInfo,
      Function.update_apply] at old ⊢
    by_cases sameThread : u = t
    · subst sameThread
      by_cases sameCore : core' = core
      · simp [sameCore]
      · simp only [if_neg sameCore] at old ⊢
        rw [old, free]
        simp [Ne.symm sameCore]
    · by_cases sameCore : core' = core
      · subst sameCore
        simp only [if_neg sameThread] at old ⊢
        rw [← old]
        simp [Ne.symm sameThread]
      · simpa only [if_neg sameCore, if_neg sameThread] using old
  · have apart : u ≠ t := fun same => absurd (same ▸ beyond) (not_le.mpr created)
    simp only [State.setThreadRunning, State.setCoreRunning, State.setInfo,
      Function.update_of_ne apart]
    exact inv.fresh u beyond

/-- A thread leaves its core. -/
theorem Inv.release (inv : Inv s) (runs : s.coreThreadRunning core = some t) :
    Inv ((s.setCoreRunning t none).setThreadRunning core none) := by
  refine ⟨fun core' u => ?_, fun u beyond => ?_⟩
  · have old := inv.paired core' u
    have here := (inv.paired core t).mp runs
    simp only [State.setThreadRunning, State.setCoreRunning, State.setInfo,
      Function.update_apply]
    by_cases sameCore : core' = core
    · subst sameCore
      simp only [if_true, reduceCtorEq, false_iff]
      by_cases sameThread : u = t
      · simp [sameThread]
      · rw [if_neg sameThread, ← old, runs]
        simp [Ne.symm sameThread]
    · by_cases sameThread : u = t
      · subst sameThread
        rw [if_neg sameCore, if_pos rfl, old, here]
        simp [Ne.symm sameCore]
      · rw [if_neg sameCore, if_neg sameThread, old]
  · by_cases same : u = t
    · simp [State.setThreadRunning, State.setCoreRunning, State.setInfo, same]
    · simp only [State.setThreadRunning, State.setCoreRunning, State.setInfo,
        Function.update_of_ne same]
      exact inv.fresh u beyond

/-! ## Rescheduling -/

/-- The application cores that run no thread. -/
def freeCores (c : Config) (s : State) : Finset ℕ :=
  (Finset.range c.applicationCores).filter fun core => s.coreThreadRunning core = none

theorem freeCores_setThreadRunning (s : State) (core t : ℕ) :
    freeCores c (s.setThreadRunning core (some t)) = (freeCores c s).erase core := by
  ext core'
  simp only [freeCores, State.setThreadRunning, Finset.mem_filter, Finset.mem_range,
    Finset.mem_erase, Function.update_apply]
  split_ifs with same
  · simp [same]
  · simp [same]

theorem findFreeCoreForThread_free (found : findFreeCoreForThread c s t = some core) :
    core ∈ freeCores c s := by
  have here := List.find?_some found
  have member := List.mem_of_find?_eq_some found
  simp only [Bool.and_eq_true, Option.isNone_iff_eq_none] at here
  exact Finset.mem_filter.mpr ⟨by simpa using member, here.2⟩

/-- The thread in a core is left out of what has to be filled yet. -/
def toFill (c : Config) (s : State) (core : ℕ) : ℕ :=
  (freeCores c s).card + if core ∈ freeCores c s then 0 else 1

/-- A rescheduling that can be relied on for the free cores when few of them are left. -/
def Sound (c : Config) (depth : ℕ) (again : SubsecondTime → ℕ → State → Except Fault State) : Prop :=
  ∀ time core s, Inv s → toFill c s core < depth →
    Ensures Inv (· ≠ .unfinished) (again time core s)

section Nested

variable {depth : ℕ} {again : SubsecondTime → ℕ → State → Except Fault State}

theorem Sound.rescheduleFreeCore (sound : Sound c depth again) (inv : Inv s)
    (few : (freeCores c s).card < depth) (t : ℕ) (time : SubsecondTime) :
    Ensures Inv (· ≠ .unfinished) (rescheduleFreeCore c again t time s) := by
  unfold PinnedBase.rescheduleFreeCore
  cases found : findFreeCoreForThread c s t with
  | none => exact inv
  | some core =>
    refine sound time core s inv ?_
    rw [toFill, if_pos (findFreeCoreForThread_free found)]
    exact few

theorem Sound.resumeThread (sound : Sound c depth again) (inv : Inv s)
    (few : (freeCores c s).card < depth) (t : ℕ) (time : SubsecondTime) :
    Ensures Inv (· ≠ .unfinished) (resumeThread c again t time s) := by
  unfold PinnedBase.resumeThread State.setRunnable
  split_ifs
  · exact sound.rescheduleFreeCore (s := { s.setThread t _ with threadsRunnable := _ })
      (inv.of_same rfl (fun _ => rfl) le_rfl) few t time
  · exact nofun

theorem Sound.wakeThread (sound : Sound c depth again) (inv : Inv s)
    (few : (freeCores c s).card < depth) (t : ℕ) (core : Option ℕ) (time : SubsecondTime) :
    Ensures Inv (· ≠ .unfinished) (wakeThread c again t core time s) := by
  unfold PinnedBase.wakeThread
  dsimp only
  split_ifs
  · exact sound.resumeThread inv few t time
  · exact inv

/-- A move is an error unless the thread is created. -/
theorem Sound.moveThread (sound : Sound c depth again) (inv : t < s.numThreads → Inv s)
    (few : (freeCores c s).card < depth) (core : Option ℕ) (time : SubsecondTime) :
    Ensures Inv (· ≠ .unfinished) (moveThread c again t core time s) := by
  unfold PinnedBase.moveThread
  split_ifs with beyond
  · exact nofun
  · refine (sound.wakeThread (inv (not_le.mp beyond)) few t core time).bind fun u now => ?_
    exact now.setThread _

/-- The new thread of a core was waiting. It is known to the core before it is moved, so that what
its waking reschedules are other cores. -/
theorem Sound.scheduleIn (sound : Sound c depth again) (inv : Inv (s.setThreadRunning core none))
    (waits : ∀ t ∈ new, (s.threadInfo t).coreRunning = none)
    (few : ((freeCores c s).erase core).card < depth) :
    Ensures Inv (· ≠ .unfinished) (scheduleIn c again core new time s) := by
  cases new with
  | none => exact inv
  | some t =>
    have waiting : ((s.setThreadRunning core (some t)).threadInfo t).coreRunning = none :=
      waits t rfl
    simp only [PinnedBase.scheduleIn, waiting]
    refine sound.moveThread (fun created => ?_) ?_ _ time
    · exact (inv.occupy created (waits t rfl)).setInfo fun _ => rfl
    · have kept := freeCores_setThreadRunning (c := c) s core t
      exact (congrArg Finset.card kept).trans_lt few

/-- The thread before is moved to no core, which wakes nobody. -/
theorem Sound.switchThread (sound : Sound c depth again) (inv : Inv s)
    (waits : ∀ t ∈ new, (s.threadInfo t).coreRunning = none) (few : toFill c s core < depth + 1) :
    Ensures Inv (· ≠ .unfinished) (switchThread c again core new time s) := by
  have left : ((freeCores c s).erase core).card < depth := by
    rw [toFill] at few
    split_ifs at few with free
    · rw [Finset.card_erase_of_mem free]
      have := Finset.card_pos.mpr ⟨core, free⟩
      omega
    · rw [Finset.erase_eq_of_notMem free]
      omega
  unfold PinnedBase.switchThread PinnedBase.scheduleOut
  cases running : s.coreThreadRunning core with
  | none =>
    refine sound.scheduleIn ?_ waits left
    exact inv.of_same (by rw [State.setThreadRunning, ← running, Function.update_eq_self])
      (fun _ => rfl) le_rfl
  | some t =>
    dsimp only
    unfold PinnedBase.moveThread
    split_ifs
    · exact nofun
    · refine sound.scheduleIn ?_ ?_ left
      · refine (inv.release running).of_same rfl (fun u => ?_) le_rfl
        exact setInfo_coreRunning
          (f := fun info => { info with lastScheduledOut := time + .ps core }) (fun _ => rfl) u
      · intro u new
        refine (setInfo_coreRunning
          (f := fun info => { info with lastScheduledOut := time + .ps core })
          (fun _ => rfl) u).trans ?_
        simp only [State.setCoreRunning, State.setInfo, Function.update_apply]
        split_ifs with same
        · rfl
        · exact waits u new

/-- What is chosen for another thread's place runs nowhere. -/
theorem chooseThread_waits (inv : Inv s) (chosen : chooseThread s time core = some t)
    (other : s.coreThreadRunning core ≠ some t) : (s.threadInfo t).coreRunning = none := by
  have candidate := chooseThread_spec chosen
  simp only [State.isCandidate, Bool.and_eq_true, Bool.or_eq_true, Bool.not_eq_true',
    ThreadInfo.isRunning, Option.isSome_eq_false_iff, Option.isNone_iff_eq_none,
    beq_iff_eq] at candidate
  rcases candidate.2 with free | here
  · exact free
  · exact absurd ((inv.paired core t).mpr here) other

/-- **Rescheduling.** A core gets a thread that was waiting, and the one before leaves it. Every nested
call fills a free core, so there is an end to them. -/
theorem sound_rescheduleWithin (depth : ℕ) : Sound c depth (rescheduleWithin c depth) := by
  induction depth with
  | zero => exact fun _ _ _ _ few => absurd few (Nat.not_lt_zero _)
  | succ depth ih =>
    intro time core s inv few
    unfold rescheduleWithin
    dsimp only
    split_ifs with starting short same
    · exact inv
    · exact nofun
    · exact inv.setQuantumLeft _
    · have waits : ∀ t ∈ chooseThread s time core, (s.threadInfo t).coreRunning = none :=
        fun t chosen => chooseThread_waits inv chosen fun here => same (here.trans chosen.symm)
      refine (ih.switchThread inv waits few).bind fun u now => ?_
      exact now.setQuantumLeft _

end Nested

theorem ensures_reschedule (inv : Inv s) (time : SubsecondTime) (core : ℕ) :
    Ensures Inv (· ≠ .unfinished) (reschedule c time core s) := by
  refine sound_rescheduleWithin _ time core s inv ?_
  have few : (freeCores c s).card ≤ c.applicationCores :=
    (Finset.card_filter_le _ _).trans_eq (Finset.card_range _)
  rw [toFill]
  split_ifs <;> omega

theorem ensures_rescheduleFreeCore (inv : Inv s) (t : ℕ) (time : SubsecondTime) :
    Ensures Inv (· ≠ .unfinished) (rescheduleFreeCore c (reschedule c) t time s) := by
  unfold rescheduleFreeCore
  cases findFreeCoreForThread c s t with
  | none => exact inv
  | some core => exact ensures_reschedule inv time core

/-! ## Events -/

theorem foldl_addAffinity_coreRunning (cores : List ℕ) (info : ThreadInfo) :
    (cores.foldl ThreadInfo.addAffinity info).coreRunning = info.coreRunning := by
  induction cores generalizing info with
  | nil => rfl
  | cons core cores ih => exact ih _

/-- The new thread gets the core that is free, or none. -/
theorem Inv.placeThread (inv : Inv s) (created : t < s.numThreads)
    (waits : (s.threadInfo t).coreRunning = none) : Inv (placeThread c t s).1 := by
  unfold PinnedBase.placeThread
  cases found : findFreeCoreForThread c s t with
  | none =>
    refine inv.of_same rfl (fun u => ?_) le_rfl
    simp only [State.setCoreRunning, State.setInfo, Function.update_apply]
    split_ifs with same
    · rw [same, waits]
    · rfl
  | some core =>
    have free : s.coreThreadRunning core = none :=
      (Finset.mem_filter.mp (findFreeCoreForThread_free found)).2
    refine Inv.setQuantumLeft ?_ _
    refine Inv.occupy ?_ created waits
    exact inv.of_same (by rw [State.setThreadRunning, ← free, Function.update_eq_self])
      (fun _ => rfl) le_rfl

theorem ensures_threadCreate (inv : Inv s) (created : t < s.numThreads)
    (waits : (s.threadInfo t).coreRunning = none) (affinity : List ℕ) :
    Ensures (fun placed => Inv placed.1) (· ≠ .unfinished)
      (threadCreate c (initialAffinity c affinity) t s) := by
  unfold threadCreate
  generalize sized : s.resizeInfo t = u
  unfold State.resizeInfo at sized
  have now : Inv u := sized ▸ inv.of_same (by split_ifs <;> rfl) (fun _ => by split_ifs <;> rfl)
    (by split_ifs <;> rfl)
  have here : t < u.numThreads := sized ▸ created.trans_eq (by split_ifs <;> rfl)
  have none : (u.threadInfo t).coreRunning = none := by
    rw [← waits, ← sized]
    split_ifs <;> rfl
  dsimp only
  split_ifs
  · exact now.placeThread here none
  · unfold initialAffinity
    have keeps : ∀ info : ThreadInfo,
        (affinity.foldl ThreadInfo.addAffinity info.clearAffinity).coreRunning =
          info.coreRunning := fun info => foldl_addAffinity_coreRunning affinity info.clearAffinity
    split_ifs
    · exact (now.setInfo keeps).placeThread here ((setInfo_coreRunning keeps t).trans none)
    · exact nofun

theorem ensures_createThread (inv : Inv s) (affinity : List ℕ) :
    Ensures Inv (· ≠ .unfinished) (createThread c (initialAffinity c affinity) s) := by
  have pushed : Inv s.pushThread := inv.of_same rfl (fun _ => rfl) (Nat.le_succ _)
  refine (ensures_threadCreate pushed (Nat.lt_succ_self _) (inv.fresh _ le_rfl) affinity).bind
    fun placed now => ?_
  exact now.setThread _

theorem ensures_threadStall (inv : Inv s) (t : ℕ) (time : SubsecondTime) :
    Ensures Inv (· ≠ .unfinished) (threadStall c t time s) := by
  unfold threadStall
  cases (s.threadInfo t).coreRunning with
  | none => exact inv
  | some core => exact ensures_reschedule inv time core

theorem ensures_threadYield (inv : Inv s) (t : ℕ) (time : SubsecondTime) :
    Ensures Inv (· ≠ .unfinished) (threadYield c t time s) := by
  unfold threadYield
  cases (s.threadInfo t).coreRunning with
  | none => exact inv
  | some core =>
    refine (ensures_reschedule (inv.setQuantumLeft 0) time core).bind fun u now => ?_
    split_ifs
    · exact now
    · exact ensures_rescheduleFreeCore now t time

theorem ensures_setAffinityMask (inv : Inv s) (t : ℕ) (mask : Option (List ℕ)) :
    Ensures Inv (· ≠ .unfinished) (setAffinityMask c t mask s) := by
  have explicit : Inv (s.setInfo t ThreadInfo.setExplicitAffinity) := inv.setInfo fun _ => rfl
  unfold setAffinityMask
  cases mask with
  | none => exact explicit.setInfo fun info => foldl_addAffinity_coreRunning _ info
  | some cpus =>
    dsimp only
    split_ifs
    · exact explicit.setInfo fun info => foldl_addAffinity_coreRunning cpus info.clearAffinity
    · exact nofun

theorem ensures_threadSetAffinity (inv : Inv s) (calling : Option ℕ) (t : ℕ)
    (mask : Option (List ℕ)) (time : SubsecondTime) :
    Ensures Inv (· ≠ .unfinished) (threadSetAffinity c calling t mask time s) := by
  unfold threadSetAffinity
  generalize sized : (if s.infoSize ≤ t then { s with infoSize := t + 16 } else s) = u
  have resized : Inv u := sized ▸ inv.of_same (by split_ifs <;> rfl)
    (fun _ => by split_ifs <;> rfl) (by split_ifs <;> rfl)
  refine (ensures_setAffinityMask resized t mask).bind fun v now => ?_
  cases (v.threadInfo t).coreRunning with
  | some core =>
    dsimp only
    split_ifs
    · exact now
    · exact ensures_threadYield now t time
    · exact nofun
    · exact now
    · exact now.setQuantumLeft _
  | none =>
    dsimp only
    split_ifs
    · exact now
    · exact ensures_threadYield now t time
    · exact nofun
    · exact ensures_rescheduleFreeCore now t time
    · exact now

theorem ensures_onThreadStall (inv : Inv s) (t : ℕ) (reason : StallType) (time : SubsecondTime) :
    Ensures Inv (· ≠ .unfinished) (onThreadStall c t reason time s) := by
  unfold onThreadStall
  split_ifs
  · exact nofun
  · exact inv.setThread _
  · refine ((inv.setThread _).setRunnable false).bind fun u now => ?_
    exact ensures_threadStall now t time

theorem ensures_onThreadResume (inv : Inv s) (t : ℕ) (time : SubsecondTime) :
    Ensures Inv (· ≠ .unfinished) (onThreadResume c t time s) := by
  unfold onThreadResume resumeThread
  split_ifs
  · exact nofun
  · refine ((inv.setThread _).setRunnable true).bind fun u now => ?_
    exact ensures_rescheduleFreeCore now t time

theorem ensures_beginStart (inv : Inv s) (t : ℕ) :
    Ensures Inv (· ≠ .unfinished) (beginStart t s) := by
  unfold beginStart
  split_ifs
  · exact nofun
  · dsimp only
    split_ifs
    · refine Inv.setRunnable ?_ true
      exact inv.of_same rfl (fun _ => rfl) le_rfl
    · exact (inv.setThread _).setRunnable true

theorem ensures_beginExit (inv : Inv s) (t : ℕ) :
    Ensures Inv (· ≠ .unfinished) (beginExit t s) := by
  unfold beginExit
  split_ifs
  · exact nofun
  · exact (inv.setThread _).setRunnable false

theorem ensures_periodic (inv : Inv s) (time : SubsecondTime) :
    Ensures Inv (· ≠ .unfinished) (periodic c time s) := by
  unfold periodic
  refine (Ensures.foldlM (fun u core _ now => ?_) inv).bind fun u now => ?_
  · unfold periodicCore
    dsimp only
    split_ifs
    · exact ensures_reschedule now time core
    · exact now.setQuantumLeft _
  · exact now.of_same rfl (fun _ => rfl) le_rfl

/-- Every event keeps threads and cores paired. -/
theorem ensures_step (e : Event) (inv : Inv s) : Ensures Inv (· ≠ .unfinished) (step c e s) := by
  cases e with
  | create affinity => exact ensures_createThread inv affinity
  | start t time =>
    refine (ensures_beginStart inv t).bind fun u begun => ?_
    refine (ensures_rescheduleFreeCore begun t time).bind fun u now => ?_
    exact now.setThread _
  | stall t reason time => exact ensures_onThreadStall inv t reason time
  | resume t time => exact ensures_onThreadResume inv t time
  | yield t time => exact ensures_threadYield inv t time
  | setAffinity calling t mask time => exact ensures_threadSetAffinity inv calling t mask time
  | exit t time =>
    refine (ensures_beginExit inv t).bind fun u begun => ?_
    exact ensures_threadStall begun t time
  | periodic time => exact ensures_periodic inv time

theorem inv_init : Inv State.init :=
  ⟨fun _ _ => iff_of_false nofun nofun, fun _ _ => rfl⟩

/-- **Threads and cores stay paired.** In every state that a run reaches, the two maps are each
other's inverse, so no thread runs on two cores. A thread that rescheduling chooses, in any state,
is runnable and has affinity to the core. No run is lost in nested calls. -/
theorem pairing (c : Config) (events : List Event) :
    runEvents (step c) events State.init ≠ .error .unfinished ∧
      ∀ s, runEvents (step c) events State.init = .ok s →
        (∀ core t, s.coreThreadRunning core = some t ↔ (s.threadInfo t).coreRunning = some core) ∧
        (∀ core core' t, s.coreThreadRunning core = some t → s.coreThreadRunning core' = some t →
          core = core') ∧ ∀ u time core t, chooseThread u time core = some t →
          u.isRunnable t = true ∧ (u.threadInfo t).coreAffinity core = true := by
  have run : Ensures Inv (· ≠ .unfinished) (runEvents (step c) events State.init) :=
    ensures_runEvents (fun e s inv => ensures_step e inv) inv_init
  refine ⟨fun lost => ?_, fun s ran => ?_⟩
  · rw [lost] at run
    exact run rfl
  · have inv := run.of_ok ran
    refine ⟨inv.paired, fun core core' t here there => inv.paired.thread_unique here there,
      fun u time core t chosen => ?_⟩
    have candidate := chooseThread_spec chosen
    simp only [State.isCandidate, Bool.and_eq_true] at candidate
    exact ⟨candidate.1.2, candidate.1.1⟩

end GpuHotSpot.Common.PinnedBase
