import Mathlib
import GpuHotSpot.Lib.Machine

/-!
# The barrier of the SMT threads

`common/performance_model/performance_models/rob_performance_model/smt_timer.cc`: the SMT threads of a
core wait for each other before one of them executes. How many instructions a thread has in its
buffer is given with each event; the buffers and `execute` are those of `rob_smt_timer.cc`.

* `simulate`, `wake`, `synchronized`: the parts of `simulate` between which the lock is free.
* `step`: one event.
-/

namespace GpuHotSpot.Common.SmtTimer

open Fallible

/-! ## The state -/

/-- A loop that does not end in a number of rounds, a failed assertion, and an event that cannot
occur. -/
inductive Stop
  | neverEnds
  | noThread
  | cannotOccur
  deriving DecidableEq

/-- The cores of the SMT threads; an `smtthread_id_t` has eight bits, of which all ones are
`INVALID_SMTTHREAD_ID`. Without a client there is no global barrier. -/
structure Config where
  numThreads : ℕ
  numThreads_lt : numThreads < 256
  core : ℕ → ℕ
  hasClient : Bool

/-- `SmtThread`, with the host threads that wait on its condition and those that were signalled and
have not got the lock yet. -/
structure SmtThread where
  thread : Option ℕ
  inWakeup : Bool
  running : Bool
  inBarrier : Bool
  waiting : ℕ
  woken : ℕ

/-- The fields of the timer, with the threads in `client->synchronize()`, and then the records of the
run: the threads signalled, and those told to execute since the last release. -/
structure Timer where
  threads : ℕ → SmtThread
  inSync : Bool
  enabled : Bool
  executeThread : Option ℕ
  syncing : List ℕ
  signalled : List ℕ
  told : List ℕ

/-- `threadNumSurplusInstructions` and `threadHasEnoughInstructions`; the buffers are circular queues
of 32 bits. -/
structure Occupancy where
  surplus : ℕ → ℕ
  enough : ℕ → Bool
  surplus_lt : ∀ t, surplus t < 2 ^ 32

section Code

variable (config : Config) (rounds : ℕ) (occupancy : Occupancy)

/-- The timer with its threads registered. -/
def Timer.start : Timer where
  threads := fun _ => ⟨none, false, false, false, 0, 0⟩
  inSync := false
  enabled := true
  executeThread := some 0
  syncing := []
  signalled := []
  told := []

def Timer.update (t : ℕ) (f : SmtThread → SmtThread) (s : Timer) : Timer :=
  { s with threads := Function.update s.threads t (f (s.threads t)) }

/-- The order of the loops. -/
def Config.order : List ℕ := List.range config.numThreads

def findSmtThreadFromThread (thread : ℕ) (s : Timer) : Option ℕ :=
  config.order.find? fun t => (s.threads t).thread = some thread

def findSmtThreadFromCore (core : ℕ) : Option ℕ := config.order.find? fun t => config.core t = core

/-- `in_barrier = false; cond.signal()`, which wakes one host thread, if one waits. -/
def SmtThread.release (th : SmtThread) : SmtThread where
  thread := th.thread
  inWakeup := th.inWakeup
  running := th.running
  inBarrier := false
  waiting := th.waiting - 1
  woken := if th.waiting = 0 then th.woken else th.woken + 1

def release (t : ℕ) (s : Timer) : Timer :=
  let s := s.update t SmtThread.release
  { s with signalled := s.signalled ++ [t] }

/-- `cond.wait`. -/
def wait (t : ℕ) (s : Timer) : Timer := s.update t fun th => { th with waiting := th.waiting + 1 }

/-! ## The barrier -/

/-- The loop of `isBarrierReached`, with `any_in_barrier`. -/
def reached (s : Timer) : List ℕ → Bool → Bool
  | [], any => any
  | t :: ts, any =>
    if (s.threads t).running && !(s.threads t).inBarrier then false
    else if (s.threads t).inBarrier then reached s ts true
    else reached s ts any

def isBarrierReached (s : Timer) : Bool := !s.inSync && reached s config.order false

/-- The variables of `barrierRelease`. -/
structure Release where
  timer : Timer
  numRunning : ℕ
  releaseMe : Bool

/-- A thread is let out: signalled, unless it is the caller. -/
def Release.letOut (caller : Option ℕ) (t : ℕ) (r : Release) : Release :=
  let numRunning := if (r.timer.threads t).running then r.numRunning + 1 else r.numRunning
  if caller = some t then { r with numRunning := numRunning, releaseMe := true }
  else { r with numRunning := numRunning, timer := release t r.timer }

/-- `execute_thread = t`. -/
def Release.execute (t : ℕ) (r : Release) : Release :=
  { r with timer := { r.timer with executeThread := some t } }

/-- The first loop: threads that need more instructions are let out. -/
def releaseNeedy (releaseAll : Bool) (caller : Option ℕ) : List ℕ → Release → Release
  | [], r => r
  | t :: ts, r =>
    if !(r.timer.threads t).inBarrier then
      releaseNeedy releaseAll caller ts
        { r with numRunning :=
            if (r.timer.threads t).running then r.numRunning + 1 else r.numRunning }
    else if occupancy.enough t then releaseNeedy releaseAll caller ts r
    else if releaseAll then releaseNeedy releaseAll caller ts (r.letOut caller t)
    else (r.letOut caller t).execute t

/-- A pass of the second loop: running threads with a surplus below the limit are let out. -/
def releaseLowest (releaseAll : Bool) (caller : Option ℕ) (limit : ℕ) : List ℕ → Release → Release
  | [], r => r
  | t :: ts, r =>
    if (r.timer.threads t).inBarrier && (r.timer.threads t).running &&
        occupancy.surplus t < limit then
      if releaseAll then releaseLowest releaseAll caller limit ts (r.letOut caller t)
      else (r.letOut caller t).execute t
    else releaseLowest releaseAll caller limit ts r

/-- `while (num_running == 0)`, of at most so many rounds. -/
def releaseSomeone (releaseAll : Bool) (caller : Option ℕ) : ℕ → ℕ → Release → Except Stop Release
  | 0, _, r => if r.numRunning ≠ 0 then .ok r else .error .neverEnds
  | rounds + 1, limit, r =>
    if r.numRunning ≠ 0 then .ok r
    else releaseSomeone releaseAll caller rounds (limit * 2 % 2 ^ 64)
      (releaseLowest occupancy releaseAll caller limit config.order r)

/-- `barrierRelease`, with `release_me`. -/
def barrierRelease (releaseAll : Bool) (caller : Option ℕ) (s : Timer) : Except Stop Release :=
  releaseSomeone config occupancy releaseAll caller rounds 1
    (releaseNeedy occupancy releaseAll caller config.order
      ⟨{ s with executeThread := caller, told := [] }, 0, false⟩)

/-- `signalBarrier`. -/
def signalBarrier (s : Timer) : Except Stop Timer :=
  if isBarrierReached config s then
    Release.timer <$> barrierRelease config rounds occupancy false none s
  else .ok s

/-- `simulate` after `barrier` has returned: the thread that is told to execute goes to the global
barrier; without one, and after it, it lets the others out. -/
def leave (after : Occupancy) (t : ℕ) (s : Timer) : Except Stop Timer :=
  if s.executeThread = some t then
    let s := { s with executeThread := none, told := s.told ++ [t] }
    if config.hasClient then .ok { s with inSync := true, syncing := t :: s.syncing }
    else Release.timer <$> barrierRelease config rounds after true (some t) s
  else .ok s

/-- A thread enters the barrier. -/
def enter (t : ℕ) (s : Timer) : Timer := s.update t fun th => { th with inBarrier := true }

/-- `barrier` for a thread of an enabled timer, and what follows if it does not wait. -/
def barrier (after : Occupancy) (t : ℕ) (s : Timer) : Except Stop Timer :=
  if (s.threads t).thread = none then .error .noThread
  else if !isBarrierReached config (enter t s) then .ok (wait t (enter t s))
  else do
    let r ← barrierRelease config rounds occupancy false (some t) (enter t s)
    if r.releaseMe then
      leave config rounds after t (r.timer.update t fun th => { th with inBarrier := false })
    else .ok (wait t r.timer)

/-! ## Notifications -/

def threadStart (thread : ℕ) (s : Timer) : Timer :=
  match findSmtThreadFromThread config thread s with
  | none => s
  | some t => s.update t fun th => { th with running := true }

/-- The first part of `threadExit` and `threadStall`. -/
def threadStops (thread : ℕ) (s : Timer) : Timer :=
  match findSmtThreadFromThread config thread s with
  | none => s
  | some t => s.update t fun th => { th with running := false }

def threadResume (thread : ℕ) (s : Timer) : Timer :=
  match findSmtThreadFromThread config thread s with
  | none => s
  | some t => s.update t fun th => { th with inWakeup := true, running := true }

/-- `threadMigrate`: the thread leaves where it was, and comes to a core, which may be another's. -/
def threadMigrate (thread core : ℕ) (s : Timer) : Timer :=
  let gone := match findSmtThreadFromThread config thread s with
    | none => s
    | some t =>
      let s := s.update t fun th => { th with running := false, thread := none }
      if (s.threads t).inBarrier then release t s else s
  match findSmtThreadFromCore config core with
  | none => gone
  | some t =>
    gone.update t fun th => { th with inWakeup := true, running := true, thread := some thread }

/-- The loop of `disable`. -/
def releaseAllThreads : List ℕ → Timer → Timer
  | [], s => s
  | t :: ts, s => releaseAllThreads ts (if (s.threads t).inBarrier then release t s else s)

/-- `disable`. -/
def disable (s : Timer) : Timer := releaseAllThreads config.order { s with enabled := false }

/-! ## Events -/

/-- What happens next; `after` is the occupancy when `execute` has returned. -/
inductive Event
  | threadStart (thread : ℕ)
  | threadExit (thread : ℕ) (occupancy : Occupancy)
  | threadStall (thread : ℕ) (occupancy : Occupancy)
  | threadResume (thread : ℕ)
  | threadMigrate (thread core : ℕ)
  | simulate (t : ℕ) (occupancy after : Occupancy)
  | wake (t : ℕ) (after : Occupancy)
  | synchronized (t : ℕ) (occupancy : Occupancy)
  | enable
  | disable
  | roiBegin

/-- One event. A thread that was signalled goes on in `barrier`; one that comes back from
`client->synchronize()` lets the others out. -/
def step (e : Event) (s : Timer) : Except Stop Timer :=
  match e with
  | .threadStart thread => .ok (threadStart config thread s)
  | .threadExit thread occupancy | .threadStall thread occupancy =>
    signalBarrier config rounds occupancy (threadStops config thread s)
  | .threadResume thread => .ok (threadResume config thread s)
  | .threadMigrate thread core => .ok (threadMigrate config thread core s)
  | .simulate t occupancy after =>
    if config.numThreads ≤ t then .error .cannotOccur
    else if 128 < occupancy.surplus t ∧ s.enabled then
      barrier config rounds occupancy after t s
    else .ok s
  | .wake t after =>
    if (s.threads t).woken = 0 then .error .cannotOccur
    else leave config rounds after t (s.update t fun th => { th with woken := th.woken - 1 })
  | .synchronized t occupancy =>
    if t ∉ s.syncing then .error .cannotOccur
    else Release.timer <$> barrierRelease config rounds occupancy true (some t)
      { s with inSync := false, syncing := s.syncing.erase t }
  | .enable => .ok { s with enabled := true }
  | .disable => .ok (disable config s)
  | .roiBegin =>
    .ok { s with threads := fun t =>
      if t < config.numThreads then { s.threads t with inWakeup := false } else s.threads t }

/-- Where an event evaluates `isBarrierReached`: in which state, for which caller, and with which
occupancy. -/
def evaluation (e : Event) (s : Timer) : Option (Timer × Option ℕ × Occupancy) :=
  match e with
  | .threadExit thread occupancy | .threadStall thread occupancy =>
    some (threadStops config thread s, none, occupancy)
  | .simulate t occupancy _ =>
    if t < config.numThreads ∧ 128 < occupancy.surplus t ∧ s.enabled = true ∧
        (s.threads t).thread ≠ none then
      some (enter t s, some t, occupancy)
    else none
  | _ => none

end Code

end GpuHotSpot.Common.SmtTimer
