import GpuHotSpot.Common.SchedulerPinnedBase
import GpuHotSpot.Lib.Machine

/-!
# The sequential scheduler

`common/scheduler/scheduler_sequential.cc`. The threads are given to the cores in sets, in the
order of their creation: the first set to core 0, the next one to core 1, and so on. On its
core each thread is to run after the one before it has exited.
-/

namespace GpuHotSpot.Common.Sequential

open PinnedBase (Fault Status StallType ThreadInfo)

/-- `SchedulerSequential` with its base. The waiting threads of a core are sorted, as its priority
queue has the smallest one on top. -/
structure State where
  base : PinnedBase.State
  coreWaitingThreads : ℕ → List ℕ
  nextThreadToExecute : ℕ → ℤ
  seqs : List ℤ
  currentPinballSet : ℕ
  totalPinballs : ℕ

/-- The quantum of the base is 10 s. -/
def config (cores : ℕ) : PinnedBase.Config := ⟨cores, 10 ^ 19⟩

/-- The constructor. Each core needs its set. -/
def schedulerSequential (cores : ℕ) (sizes : List ℤ) : Except Fault State :=
  if sizes.length = cores then
    .ok
      { base := .init
        coreWaitingThreads := fun _ => []
        nextThreadToExecute := fun core => (sizes.take core).sum
        seqs := sizes
        currentPinballSet := 0
        totalPinballs := 0 }
  else .error .undefined

section Scheduler

variable (cores : ℕ)

/-- `atoi(getAffinityString())`: the first core that the thread has affinity to. -/
def affinityCore (info : ThreadInfo) : ℕ :=
  ((List.range cores).find? info.coreAffinity).getD 0

def threadSetInitialAffinity (t : ℕ) (s : State) : Except Fault State :=
  match s.seqs[s.currentPinballSet]? with
  | none => .error .undefined
  | some left =>
    let seqs := s.seqs.set s.currentPinballSet (left - 1)
    .ok
      { s with
        base := s.base.setInfo t fun info =>
          (info.setAffinitySingle s.currentPinballSet).setExplicitAffinity
        seqs := seqs
        currentPinballSet :=
          if left - 1 = 0 then s.currentPinballSet + 1 else s.currentPinballSet }

/-- `createThread` with the `threadCreate` of the base and the initial affinity of this scheduler. -/
def createThread (s : State) : Except Fault State :=
  let t := s.base.numThreads
  let place (s : State) : State :=
    let placed := PinnedBase.placeThread (config cores) t s.base
    { s with base := placed.1.setThread t fun th => { th with core := placed.2 } }
  let s := { s with base := s.base.pushThread.resizeInfo t }
  if (s.base.threadInfo t).hasAffinity then .ok (place s)
  else do
    let s ← threadSetInitialAffinity t s
    .ok (place s)

def threadStart (t : ℕ) (s : State) : Except Fault State :=
  let s := { s with totalPinballs := s.totalPinballs + 1 }
  let core := affinityCore cores (s.base.threadInfo t)
  if s.base.coreThreadRunning core = some t then
    .ok
      { s with
        nextThreadToExecute :=
          Function.update s.nextThreadToExecute core (s.nextThreadToExecute core + 1) }
  else do
    let base ← s.base.setRunnable t false
    .ok
      { s with
        base := base
        coreWaitingThreads := Function.update s.coreWaitingThreads core
          (List.orderedInsert (· ≤ ·) t (s.coreWaitingThreads core)) }

/-- The next thread gets the core if it is on top of the queue. Otherwise nothing happens to the core,
which still has its last thread. -/
def threadExit (t : ℕ) (time : SubsecondTime) (s : State) : Except Fault State := do
  let base ← s.base.setRunnable t false
  let core := affinityCore cores (base.threadInfo t)
  let s := { s with base := base.setInfo t fun info => { info with lastScheduledOut := time } }
  match s.coreWaitingThreads core with
  | [] => .ok s
  | next :: waiting =>
    if (next : ℤ) ≠ s.nextThreadToExecute core then .ok s
    else do
      let base ← s.base.setRunnable next true
      let base ← PinnedBase.reschedule (config cores) time core base
      .ok
        { s with
          base := base
          coreWaitingThreads := Function.update s.coreWaitingThreads core waiting
          nextThreadToExecute :=
            Function.update s.nextThreadToExecute core (s.nextThreadToExecute core + 1) }

inductive Event where
  | create
  | start (t : ℕ) (time : SubsecondTime)
  | exit (t : ℕ) (time : SubsecondTime)
  deriving DecidableEq

def step : Event → State → Except Fault State
  | .create, s => createThread cores s
  | .start t _, s => do
      let base ← PinnedBase.beginStart t s.base
      let s ← threadStart cores t { s with base := base }
      .ok { s with base := PinnedBase.endStart t s.base }
  | .exit t time, s => do
      let base ← PinnedBase.beginExit t s.base
      threadExit cores t time { s with base := base }

end Scheduler

/-! ## The sets of threads -/

/-- The core whose set the thread is in. A set without threads takes all that are left. -/
def pinballCore : List ℤ → ℕ → ℕ
  | [], _ => 0
  | size :: sizes, t =>
    if size ≤ 0 ∨ (t : ℤ) < size then 0 else pinballCore sizes (t - size.toNat) + 1

/-- The sets that are not full after so many threads, each with the threads it still takes. -/
def setsLeft : List ℤ → ℕ → List ℤ
  | [], _ => []
  | size :: sizes, n =>
    if size ≤ 0 ∨ (n : ℤ) < size then (size - n) :: sizes else setsLeft sizes (n - size.toNat)

theorem setsLeft_zero (sizes : List ℤ) : setsLeft sizes 0 = sizes := by
  cases sizes with
  | nil => rfl
  | cons size sizes =>
    rw [setsLeft, if_pos (by omega)]
    simp

theorem pinballCore_zero (sizes : List ℤ) : pinballCore sizes 0 = 0 := by
  cases sizes with
  | nil => rfl
  | cons size sizes => rw [pinballCore, if_pos (by omega)]

/-- One more thread is one less for the first set that is not full. -/
theorem setsLeft_succ {sizes rest : List ℤ} {n : ℕ} {left : ℤ}
    (now : setsLeft sizes n = left :: rest) :
    (setsLeft sizes (n + 1) = if left - 1 = 0 then rest else (left - 1) :: rest) ∧
      pinballCore sizes (n + 1) =
        if left - 1 = 0 then pinballCore sizes n + 1 else pinballCore sizes n := by
  induction sizes generalizing n with
  | nil => cases now
  | cons size sizes ih =>
    by_cases here : size ≤ 0 ∨ (n : ℤ) < size
    · rw [setsLeft, if_pos here] at now
      obtain ⟨rfl, rfl⟩ := List.cons.inj now
      by_cases still : size ≤ 0 ∨ ((n + 1 : ℕ) : ℤ) < size
      · have more : ¬size - (n : ℤ) - 1 = 0 := by omega
        rw [setsLeft, pinballCore, pinballCore, if_pos still, if_pos still, if_pos here,
          if_neg more, if_neg more]
        exact ⟨congrArg (· :: sizes) (by omega), rfl⟩
      · have full : size - (n : ℤ) - 1 = 0 := by omega
        have start : n + 1 - size.toNat = 0 := by omega
        rw [setsLeft, pinballCore, pinballCore, if_neg still, if_neg still, if_pos here,
          if_pos full, if_pos full, start, setsLeft_zero, pinballCore_zero]
        exact ⟨rfl, rfl⟩
    · have later : ¬(size ≤ 0 ∨ ((n + 1 : ℕ) : ℤ) < size) := by omega
      have shift : n + 1 - size.toNat = n - size.toNat + 1 := by omega
      rw [setsLeft, if_neg here] at now
      obtain ⟨sets, core⟩ := ih now
      rw [setsLeft, pinballCore, pinballCore, if_neg later, if_neg later, if_neg here, shift, sets,
        core]
      refine ⟨rfl, ?_⟩
      split_ifs <;> rfl

theorem pinballCore_mono (sizes : List ℤ) : Monotone (pinballCore sizes) := by
  induction sizes with
  | nil => exact fun _ _ _ => le_rfl
  | cons size sizes ih =>
    intro t u le
    rw [pinballCore, pinballCore]
    split_ifs with first second
    · exact le_rfl
    · exact Nat.zero_le _
    · omega
    · exact Nat.succ_le_succ (ih (Nat.sub_le_sub_right le _))

/-- The first thread of a set comes after all the sets before. -/
theorem eq_sum_of_first {sizes : List ℤ} {t : ℕ} (inside : pinballCore sizes t < sizes.length)
    (first : ∀ u < t, pinballCore sizes u ≠ pinballCore sizes t) :
    (t : ℤ) = (sizes.take (pinballCore sizes t)).sum := by
  induction sizes generalizing t with
  | nil => cases inside
  | cons size sizes ih =>
    rw [pinballCore] at inside ⊢
    by_cases here : size ≤ 0 ∨ (t : ℤ) < size
    · have zero : t = 0 := by
        by_contra positive
        refine first 0 (Nat.pos_of_ne_zero positive) ?_
        rw [pinballCore_zero, pinballCore, if_pos here]
      rw [if_pos here, zero]
      rfl
    · rw [if_neg here] at inside ⊢
      have rest := ih (t := t - size.toNat) (Nat.lt_of_succ_lt_succ inside) fun u before same => ?_
      · rw [List.take_succ_cons, List.sum_cons, ← rest]
        omega
      · refine first (u + size.toNat) (by omega) ?_
        have later : ¬(size ≤ 0 ∨ ((u + size.toNat : ℕ) : ℤ) < size) := by omega
        rw [pinballCore, pinballCore, if_neg later, if_neg here, Nat.add_sub_cancel, same]

end GpuHotSpot.Common.Sequential
