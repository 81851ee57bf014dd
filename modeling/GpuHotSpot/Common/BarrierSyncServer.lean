import Mathlib
import GpuHotSpot.Lib.Machine

/-!
# The barrier server

`common/system/barrier_sync_server.cc`, outside fast-forward: the cores wait for each other at the
end of each quantum.  Times are natural numbers.

* `synchronize`, `threadExit`, `threadStall`, `threadMigrate`, `setDisable`, `advance`: the entries.
* `step`: one event.
* `isBarrierReached_iff`, `doRelease_spec`, `takeOut_spec`: what the loops compute.
-/

namespace GpuHotSpot.Common.BarrierSyncServer

open Fallible

/-! ## The state -/

/-- The assertions of the server, and a loop that does not end in a number of rounds. -/
inductive Stop
  | alreadyInBarrier
  | stillReleasing
  | deadlocked
  | neverEnds
  deriving DecidableEq, Repr

/-- The configuration; the master of a group is not in a group itself. -/
structure Config where
  applicationCores : ℕ
  barrierInterval : ℕ
  numHostCores : ℕ
  coreGroup : ℕ → Option ℕ
  interval_pos : 0 < barrierInterval
  masters : ∀ core master, coreGroup core = some master →
    master < applicationCores ∧ coreGroup master = none

/-- The fields of the server, and then the records of the run: the cores that `doRelease` signalled,
the cores that `barrierRelease` took out of the barrier for a signal, and those of the callers,
which return at once. -/
structure Server where
  localClock : ℕ → ℕ
  barrierAcquire : ℕ → Bool
  coreThread : ℕ → Option ℕ
  toRelease : List ℕ
  nextBarrierTime : ℕ
  globalTime : ℕ
  disable : Bool
  signalled : List ℕ
  taken : List ℕ
  returned : List ℕ

/-- What `HOOK_PERIODIC` does in a round of `barrierRelease`, besides waking threads. -/
inductive Action
  | migrate (thread : ℕ)
  | disable

/-- The simulator around a call of `barrierRelease`: in each round of its loop, what the hooks do,
whether a thread runs after them, and whether a timeout is left; then `std::random_shuffle`. -/
structure Environment where
  hooks : ℕ → List Action
  anyThreadRunning : ℕ → Bool
  hasTimeout : ℕ → Bool
  shuffle : List ℕ → List ℕ
  shuffle_perm : ∀ cores, (shuffle cores).Perm cores

section Code

variable (config : Config)

/-- The server after the constructor. -/
def Server.start : Server :=
  ⟨fun _ => 0, fun _ => false, fun _ => none, [], config.barrierInterval, 0, false, [], [], []⟩

/-- The cores in the order of the loops. -/
def Config.cores : List ℕ := List.range config.applicationCores

/-! ## Releasing -/

/-- `doRelease`. -/
def doRelease : ℕ → Server → Server
  | 0, s => s
  | n + 1, s =>
    match s.toRelease.getLast? with
    | none => s
    | some core =>
      doRelease n
        { s with toRelease := s.toRelease.dropLast, signalled := s.signalled ++ [core] }

/-- `releaseThread`. -/
def releaseThread (thread : ℕ) (s : Server) : Server :=
  doRelease 1 { s with localClock := fun core =>
    if core < config.applicationCores ∧ s.barrierAcquire core ∧ s.coreThread core = some thread
    then 0 else s.localClock core }

/-- `abortBarrier`. -/
def abortBarrier (s : Server) : Server :=
  { s with barrierAcquire := fun core =>
    if core < config.applicationCores then false else s.barrierAcquire core }

/-- `setDisable`. -/
def setDisable (disable : Bool) (s : Server) : Server :=
  let s := { s with disable := disable }
  if disable then abortBarrier config s else s

/-! ## The barrier -/

/-- The loop of `isBarrierReached`, with `single_core_barrier_reached`. -/
def reached (running : ℕ → Bool) (s : Server) : List ℕ → Bool → Bool
  | [], single => single
  | core :: cores, single =>
    if config.coreGroup core ≠ none then reached running s cores single
    else if running core then
      if s.localClock core < s.nextBarrierTime then false else reached running s cores true
    else reached running s cores single

/-- `isBarrierReached`; `running` is `isCoreRunning`. -/
def isBarrierReached (running : ℕ → Bool) (s : Server) : Bool :=
  reached config running s config.cores false

/-- One core of the loop of `barrierRelease`, with `core_resumed` and `must_wait`. -/
def takeOut (caller : Option ℕ) (st : Server × Bool × Bool) (core : ℕ) : Server × Bool × Bool :=
  let (s, coreResumed, mustWait) := st
  if s.localClock core < s.nextBarrierTime ∧ s.barrierAcquire core then
    let s := { s with barrierAcquire := Function.update s.barrierAcquire core false }
    if s.coreThread core = caller then ({ s with returned := s.returned ++ [core] }, true, false)
    else
      ({ s with toRelease := s.toRelease ++ [core], taken := s.taken ++ [core] }, true, mustWait)
  else (s, coreResumed, mustWait)

/-- What the hooks do. -/
def act (s : Server) : Action → Server
  | .migrate thread => releaseThread config thread s
  | .disable => setDisable config true s

/-- The end of `barrierRelease`. -/
def finish (env : Environment) (s : Server) : Server :=
  doRelease config.numHostCores { s with toRelease := env.shuffle s.toRelease }

/-- The loop of `barrierRelease`, for a number of rounds: whether the caller must wait. -/
def releaseLoop (caller : Option ℕ) (continueUntilRelease : Bool) (env : Environment) :
    ℕ → ℕ → Server → Except Stop (Bool × Server)
  | 0, _, _ => .error .neverEnds
  | rounds + 1, round, s =>
    let s := (env.hooks round).foldl (act config) { s with globalTime := s.nextBarrierTime }
    if continueUntilRelease ∧ env.anyThreadRunning round then .ok (false, s)
    else if continueUntilRelease ∧ ¬ env.hasTimeout round then .error .deadlocked
    else if s.disable then .ok (false, s)
    else
      let s := { s with nextBarrierTime := s.nextBarrierTime + config.barrierInterval }
      match config.cores.foldl (takeOut caller) (s, false, true) with
      | (s, true, mustWait) => .ok (mustWait, finish config env s)
      | (s, false, _) => releaseLoop caller continueUntilRelease env rounds (round + 1) s

/-- `barrierRelease`, with a number of rounds for its loop. -/
def barrierRelease (caller : Option ℕ) (continueUntilRelease : Bool) (env : Environment)
    (rounds : ℕ) (s : Server) : Except Stop (Bool × Server) :=
  if s.toRelease ≠ [] then .error .stillReleasing
  else releaseLoop config caller continueUntilRelease env rounds 0 s

/-- Rounds after which the barrier time is above each clock. -/
def enoughRounds (s : Server) : ℕ := (config.cores.map s.localClock).sum + 1

/-- `signal`. -/
def signal (running : ℕ → Bool) (env : Environment) (s : Server) : Except Stop Server :=
  if s.disable then .ok s
  else if isBarrierReached config running s then do
    let (_, s) ← barrierRelease config none false env (enoughRounds config s) s
    pure s
  else .ok s

/-! ## The entries -/

/-- The core that takes part in the barrier for a core. -/
def Config.master (core : ℕ) : ℕ := (config.coreGroup core).getD core

/-- `synchronize`, until the thread waits or returns. -/
def synchronize (core thread time : ℕ) (running : ℕ → Bool) (env : Environment) (s : Server) :
    Except Stop Server :=
  let master := config.master core
  if s.disable then .ok s
  else if s.barrierAcquire master then .error .alreadyInBarrier
  else if time < s.nextBarrierTime then .ok s
  else do
    let s := doRelease 1 s
    let s := { s with
      localClock := Function.update s.localClock master time
      barrierAcquire := Function.update s.barrierAcquire master true
      coreThread := Function.update s.coreThread master (some thread) }
    if isBarrierReached config running s then do
      let (_, s) ← barrierRelease config (some thread) false env (enoughRounds config s) s
      pure s
    else pure s

/-- `threadExit` and `threadStall`. -/
def threadStops (thread : ℕ) (running : ℕ → Bool) (env : Environment) (s : Server) :
    Except Stop Server :=
  signal config running env (releaseThread config thread s)

def threadExit (thread : ℕ) (running : ℕ → Bool) (env : Environment) : Server → Except Stop Server :=
  threadStops config thread running env

def threadStall (thread : ℕ) (running : ℕ → Bool) (env : Environment) : Server → Except Stop Server :=
  threadStops config thread running env

/-- `threadMigrate`. -/
def threadMigrate (thread : ℕ) : Server → Server := releaseThread config thread

/-- `advance`, which is called while no thread runs, with a number of rounds for its loop. -/
def advance (env : Environment) (rounds : ℕ) (s : Server) : Except Stop Server := do
  let (_, s) ← barrierRelease config none true env rounds s
  pure s

/-! ## Events -/

inductive Event
  | synchronize (core thread time : ℕ) (running : ℕ → Bool) (env : Environment)
  | threadExit (thread : ℕ) (running : ℕ → Bool) (env : Environment)
  | threadStall (thread : ℕ) (running : ℕ → Bool) (env : Environment)
  | threadMigrate (thread : ℕ)
  | setDisable (disable : Bool)
  | advance (running : ℕ → Bool) (env : Environment) (rounds : ℕ)

/-- One event. -/
def step (e : Event) (s : Server) : Except Stop Server :=
  match e with
  | .synchronize core thread time running env => synchronize config core thread time running env s
  | .threadExit thread running env => threadExit config thread running env s
  | .threadStall thread running env => threadStall config thread running env s
  | .threadMigrate thread => .ok (threadMigrate config thread s)
  | .setDisable disable => .ok (setDisable config disable s)
  | .advance _ env rounds => advance config env rounds s

end Code

/-! ## What the loops compute -/

variable {config : Config} {s s' s'' : Server} {running : ℕ → Bool}

/-- A core that `isBarrierReached` looks at. -/
def Checked (config : Config) (running : ℕ → Bool) (core : ℕ) : Prop :=
  config.coreGroup core = none ∧ running core = true

theorem reached_iff (cores : List ℕ) (single : Bool) :
    reached config running s cores single = true ↔
      (∀ c ∈ cores, Checked config running c → s.nextBarrierTime ≤ s.localClock c) ∧
        (single = true ∨ ∃ c ∈ cores, Checked config running c) := by
  induction cores generalizing single with
  | nil => simp [reached]
  | cons core cores ih =>
    unfold reached
    by_cases grouped : config.coreGroup core ≠ none
    · have skipped : ¬ Checked config running core := fun checked => grouped checked.1
      rw [if_pos grouped, ih]
      simp [skipped]
    · rw [if_neg grouped]
      have ungrouped : config.coreGroup core = none := not_not.1 grouped
      by_cases runs : running core = true
      · have checked : Checked config running core := ⟨ungrouped, runs⟩
        rw [if_pos runs]
        by_cases early : s.localClock core < s.nextBarrierTime
        · rw [if_pos early]
          simp [checked, early]
        · rw [if_neg early, ih]
          simp [checked, Nat.le_of_not_lt early]
      · have skipped : ¬ Checked config running core := fun checked => runs checked.2
        rw [if_neg runs, ih]
        simp [skipped]

/-- **The barrier is reached** when all running cores have come to it, and there is one. -/
theorem isBarrierReached_iff :
    isBarrierReached config running s = true ↔
      (∀ c < config.applicationCores, Checked config running c →
        s.nextBarrierTime ≤ s.localClock c) ∧
      ∃ c < config.applicationCores, Checked config running c := by
  rw [isBarrierReached, reached_iff]
  simp [Config.cores]

/-- Deferred releases are signalled, each of them once. -/
structure Releases (s s' : Server) : Prop where
  localClock : s'.localClock = s.localClock
  barrierAcquire : s'.barrierAcquire = s.barrierAcquire
  coreThread : s'.coreThread = s.coreThread
  nextBarrierTime : s'.nextBarrierTime = s.nextBarrierTime
  globalTime : s'.globalTime = s.globalTime
  disable : s'.disable = s.disable
  taken : s'.taken = s.taken
  returned : s'.returned = s.returned
  sublist : s'.toRelease.Sublist s.toRelease
  perm : (s'.signalled ++ s'.toRelease).Perm (s.signalled ++ s.toRelease)

theorem Releases.refl (s : Server) : Releases s s :=
  ⟨rfl, rfl, rfl, rfl, rfl, rfl, rfl, rfl, List.Sublist.refl _, List.Perm.refl _⟩

theorem Releases.trans (first : Releases s s') (second : Releases s' s'') : Releases s s'' where
  localClock := second.localClock.trans first.localClock
  barrierAcquire := second.barrierAcquire.trans first.barrierAcquire
  coreThread := second.coreThread.trans first.coreThread
  nextBarrierTime := second.nextBarrierTime.trans first.nextBarrierTime
  globalTime := second.globalTime.trans first.globalTime
  disable := second.disable.trans first.disable
  taken := second.taken.trans first.taken
  returned := second.returned.trans first.returned
  sublist := second.sublist.trans first.sublist
  perm := second.perm.trans first.perm

/-- **`doRelease`** signals cores from the end of the list. -/
theorem doRelease_spec (n : ℕ) (s : Server) : Releases s (doRelease n s) := by
  induction n generalizing s with
  | zero => exact Releases.refl s
  | succ n ih =>
    unfold doRelease
    cases last : s.toRelease.getLast? with
    | none => exact Releases.refl s
    | some core =>
      have split : s.toRelease.dropLast ++ [core] = s.toRelease :=
        List.dropLast_append_getLast? core last
      have perm : (s.signalled ++ [core] ++ s.toRelease.dropLast).Perm
          (s.signalled ++ s.toRelease) := by
        rw [List.append_assoc, ← split, List.dropLast_concat]
        exact (List.perm_append_comm).append_left s.signalled
      have one : Releases s { s with
          toRelease := s.toRelease.dropLast, signalled := s.signalled ++ [core] } :=
        ⟨rfl, rfl, rfl, rfl, rfl, rfl, rfl, rfl, List.dropLast_sublist s.toRelease, perm⟩
      exact one.trans (ih _)

theorem doRelease_one (s : Server) : (doRelease 1 s).toRelease = s.toRelease.dropLast := by
  unfold doRelease
  cases last : s.toRelease.getLast? with
  | none => rw [List.getLast?_eq_none_iff.1 last, List.dropLast_nil]
  | some core => rfl

theorem doRelease_nil (n : ℕ) (nothing : s.toRelease = []) : doRelease n s = s := by
  cases n with
  | zero => rfl
  | succ n => simp [doRelease, nothing]

/-- A core that is taken out of the barrier, for a signal or because it is the caller's. -/
def due (s : Server) (core : ℕ) : Bool :=
  decide (s.localClock core < s.nextBarrierTime) && s.barrierAcquire core

def dueSignal (caller : Option ℕ) (s : Server) (core : ℕ) : Bool :=
  due s core && decide (s.coreThread core ≠ caller)

def dueReturn (caller : Option ℕ) (s : Server) (core : ℕ) : Bool :=
  due s core && decide (s.coreThread core = caller)

/-- The cores that are due leave the barrier. -/
structure TakesOut (caller : Option ℕ) (cores : List ℕ) (s s' : Server) : Prop where
  localClock : s'.localClock = s.localClock
  coreThread : s'.coreThread = s.coreThread
  nextBarrierTime : s'.nextBarrierTime = s.nextBarrierTime
  globalTime : s'.globalTime = s.globalTime
  disable : s'.disable = s.disable
  signalled : s'.signalled = s.signalled
  barrierAcquire : ∀ c, s'.barrierAcquire c = (s.barrierAcquire c && !(decide (c ∈ cores) && due s c))
  toRelease : s'.toRelease = s.toRelease ++ cores.filter (dueSignal caller s)
  taken : s'.taken = s.taken ++ cores.filter (dueSignal caller s)
  returned : s'.returned = s.returned ++ cores.filter (dueReturn caller s)

/-- **The loop over the cores** takes out each core that is due. -/
theorem takeOut_spec (caller : Option ℕ) {cores : List ℕ} (nodup : cores.Nodup)
    (resumed mustWait : Bool) :
    TakesOut caller cores s (cores.foldl (takeOut caller) (s, resumed, mustWait)).1 ∧
      (cores.foldl (takeOut caller) (s, resumed, mustWait)).2.1 = (resumed || cores.any (due s)) := by
  induction cores generalizing s resumed mustWait with
  | nil =>
    exact ⟨⟨rfl, rfl, rfl, rfl, rfl, rfl, fun c => by simp, by simp, by simp, by simp⟩, by simp⟩
  | cons core cores ih =>
    obtain ⟨fresh, nodup⟩ := List.nodup_cons.1 nodup
    rw [List.foldl_cons]
    by_cases isDue : s.localClock core < s.nextBarrierTime ∧ s.barrierAcquire core
    · have due_core : due s core = true := by simp [due, isDue]
      -- The cores that follow are due as before.
      have same : ∀ s₁ : Server, s₁.localClock = s.localClock →
          s₁.nextBarrierTime = s.nextBarrierTime → s₁.coreThread = s.coreThread →
          s₁.barrierAcquire = Function.update s.barrierAcquire core false →
          (∀ c ∈ cores, due s₁ c = due s c) ∧
          cores.filter (dueSignal caller s₁) = cores.filter (dueSignal caller s) ∧
          cores.filter (dueReturn caller s₁) = cores.filter (dueReturn caller s) := by
        intro s₁ clock next thread acquire
        have each : ∀ c ∈ cores, due s₁ c = due s c := by
          intro c member
          have other : c ≠ core := fun same => fresh (same ▸ member)
          rw [due, due, clock, next, acquire, Function.update_of_ne other]
        refine ⟨each, List.filter_congr fun c member => ?_, List.filter_congr fun c member => ?_⟩
        · rw [dueSignal, dueSignal, each c member, thread]
        · rw [dueReturn, dueReturn, each c member, thread]
      have acquires : ∀ (s₁ s₂ : Server),
          s₁.barrierAcquire = Function.update s.barrierAcquire core false →
          (∀ c ∈ cores, due s₁ c = due s c) →
          (∀ c, s₂.barrierAcquire c =
            (s₁.barrierAcquire c && !(decide (c ∈ cores) && due s₁ c))) →
          ∀ c, s₂.barrierAcquire c =
            (s.barrierAcquire c && !(decide (c ∈ core :: cores) && due s c)) := by
        intro s₁ s₂ acquire each rest c
        rw [rest, acquire]
        by_cases isCore : c = core
        · subst isCore
          simp [due_core]
        · rw [Function.update_of_ne isCore]
          by_cases member : c ∈ cores
          · simp [member, each c member]
          · simp [member, isCore]
      by_cases isCaller : s.coreThread core = caller
      · let s₁ : Server := { s with
          barrierAcquire := Function.update s.barrierAcquire core false
          returned := s.returned ++ [core] }
        have stepped : takeOut caller (s, resumed, mustWait) core = (s₁, true, false) := by
          simp only [takeOut, if_pos isDue, if_pos isCaller, s₁]
        rw [stepped]
        obtain ⟨takes, any⟩ := ih (s := s₁) nodup true false
        obtain ⟨each, signal, back⟩ := same s₁ rfl rfl rfl rfl
        refine ⟨⟨takes.localClock, takes.coreThread, takes.nextBarrierTime, takes.globalTime,
          takes.disable, takes.signalled, acquires _ _ rfl each takes.barrierAcquire, ?_, ?_, ?_⟩,
          ?_⟩
        · rw [takes.toRelease, signal]
          simp [dueSignal, isCaller, s₁]
        · rw [takes.taken, signal]
          simp [dueSignal, isCaller, s₁]
        · rw [takes.returned, back]
          simp [dueReturn, isCaller, due_core, s₁]
        · rw [any]
          simp [due_core]
      · let s₁ : Server := { s with
          barrierAcquire := Function.update s.barrierAcquire core false
          toRelease := s.toRelease ++ [core]
          taken := s.taken ++ [core] }
        have stepped : takeOut caller (s, resumed, mustWait) core = (s₁, true, mustWait) := by
          simp only [takeOut, if_pos isDue, if_neg isCaller, s₁]
        rw [stepped]
        obtain ⟨takes, any⟩ := ih (s := s₁) nodup true mustWait
        obtain ⟨each, signal, back⟩ := same s₁ rfl rfl rfl rfl
        refine ⟨⟨takes.localClock, takes.coreThread, takes.nextBarrierTime, takes.globalTime,
          takes.disable, takes.signalled, acquires _ _ rfl each takes.barrierAcquire, ?_, ?_, ?_⟩,
          ?_⟩
        · rw [takes.toRelease, signal]
          simp [dueSignal, isCaller, due_core, s₁]
        · rw [takes.taken, signal]
          simp [dueSignal, isCaller, due_core, s₁]
        · rw [takes.returned, back]
          simp [dueReturn, isCaller, s₁]
        · rw [any]
          simp [due_core]
    · have not_due : due s core = false := by
        simp only [due, Bool.and_eq_false_iff, decide_eq_false_iff_not]
        by_cases early : s.localClock core < s.nextBarrierTime
        · exact .inr (by simpa [early] using isDue)
        · exact .inl early
      have stepped : takeOut caller (s, resumed, mustWait) core = (s, resumed, mustWait) := by
        simp only [takeOut, if_neg isDue]
      rw [stepped]
      obtain ⟨takes, any⟩ := ih (s := s) nodup resumed mustWait
      refine ⟨⟨takes.localClock, takes.coreThread, takes.nextBarrierTime, takes.globalTime,
        takes.disable, takes.signalled, fun c => ?_, ?_, ?_, ?_⟩, ?_⟩
      · rw [takes.barrierAcquire]
        by_cases isCore : c = core
        · subst isCore
          simp [not_due]
        · simp [isCore]
      · rw [takes.toRelease]
        simp [dueSignal, not_due]
      · rw [takes.taken]
        simp [dueSignal, not_due]
      · rw [takes.returned]
        simp [dueReturn, not_due]
      · rw [any]
        simp [not_due]

end GpuHotSpot.Common.BarrierSyncServer
