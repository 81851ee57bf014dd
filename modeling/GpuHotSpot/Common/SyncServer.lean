import GpuHotSpot.Lib.Machine
import GpuHotSpot.Lib.WaitQueues

/-!
# The synchronisation server

`common/system/sync_server.cc`: mutexes, condition variables and barriers of the simulated
threads.  A thread that must wait is stalled inside its call, and the request of another thread
lets the call return.

* `step`: one request.
* `Server.queue`: the threads that wait at a mutex, a condition variable or a barrier.
-/

namespace GpuHotSpot.Common

open Fallible

namespace SyncServer

/-! ## The state -/

/-- Femtoseconds in 64 bits. -/
abbrev SubsecondTime := UInt64

/-- The assertions of the server, and the access to a barrier that was not made. -/
inductive Stop
  | invalidMutexId
  | notOwner
  | noSuchBarrier
  deriving DecidableEq, Repr

structure SimMutex where
  owner : Option ℕ
  waiting : List ℕ
  deriving DecidableEq, Repr

structure CondWaiter where
  threadId : ℕ
  mutex : ℕ
  deriving DecidableEq, Repr

structure SimBarrier where
  waiting : List ℕ
  count : UInt32
  deriving DecidableEq, Repr

/-- A call in which a thread can be stalled. -/
inductive Call
  | mutexLock (mux : ℕ)
  | condWait (cond mux : ℕ)
  | barrierWait (barrier : ℕ)
  deriving DecidableEq, Repr

/-- What a call returns. -/
inductive Reply
  | done
  | at (time : SubsecondTime)
  | locked (time : SubsecondTime) (success : Bool)
  | handle (barrier : ℕ)
  deriving DecidableEq, Repr

/-- The tables of the server, the call that each stalled thread is in, and the calls that returned
during the last request. -/
structure Server where
  mutexes : ℕ → Option SimMutex
  conds : ℕ → Option (List CondWaiter)
  barriers : List SimBarrier
  calls : ℕ → Option Call
  returned : List (ℕ × Reply)

/-- The server before the first request. -/
def Server.start : Server := ⟨fun _ => none, fun _ => none, [], fun _ => none, []⟩

/-- The mutex that the other calls wait for in the end. -/
def Call.mutex : Call → Option ℕ
  | .mutexLock mux => some mux
  | .condWait _ mux => some mux
  | .barrierWait _ => none

section Code

variable (rescheduleCost : SubsecondTime)

/-- What a stalled call returns when its thread is resumed. -/
def Call.reply (time : SubsecondTime) : Call → Reply
  | .mutexLock _ => .locked (time + rescheduleCost) true
  | .condWait _ _ => .at time
  | .barrierWait _ => .at time

namespace Server

/-- `*psimmux`; a new mutex is free. -/
def mutexAt (s : Server) (mux : ℕ) : SimMutex := (s.mutexes mux).getD ⟨none, []⟩

/-- `*psimcond`. -/
def condAt (s : Server) (cond : ℕ) : List CondWaiter := (s.conds cond).getD []

def setMutex (mux : ℕ) (mutex : SimMutex) (s : Server) : Server :=
  { s with mutexes := Function.update s.mutexes mux (some mutex) }

def setCond (cond : ℕ) (waiting : List CondWaiter) (s : Server) : Server :=
  { s with conds := Function.update s.conds cond (some waiting) }

def setBarrier (barrier : ℕ) (b : SimBarrier) (s : Server) : Server :=
  { s with barriers := s.barriers.set barrier b }

def answer (threadId : ℕ) (reply : Reply) (s : Server) : Server :=
  { s with returned := s.returned ++ [(threadId, reply)] }

/-- `ThreadManager::stallThread`. -/
def stallThread (threadId : ℕ) (call : Call) (s : Server) : Server :=
  { s with calls := Function.update s.calls threadId (some call) }

/-- `ThreadManager::resumeThread`: the call of the thread returns. -/
def resumeThread (threadId : ℕ) (time : SubsecondTime) (s : Server) : Server :=
  match s.calls threadId with
  | none => s
  | some call =>
    ({ s with calls := Function.update s.calls threadId none }).answer threadId
      (call.reply rescheduleCost time)

/-- The server when a request comes in. -/
def fresh (s : Server) : Server := { s with returned := [] }

/-- `SyncServer::getMutex` with `canCreate`. -/
def getMutex (mux : ℕ) (s : Server) : Server := s.setMutex mux (s.mutexAt mux)

/-- `SyncServer::getCond`. -/
def getCond (cond : ℕ) (s : Server) : Server := s.setCond cond (s.condAt cond)

end Server

/-! ## Mutexes -/

/-- `SimMutex::isLocked`. -/
def SimMutex.isLocked (threadId : ℕ) (mutex : SimMutex) : Bool :=
  match mutex.owner with
  | none => false
  | some owner => owner ≠ threadId

/-- `SimMutex::lock`: the time when the thread owns the mutex, unless it stalls. -/
def lock (mux threadId : ℕ) (time : SubsecondTime) (s : Server) :
    Server × Option SubsecondTime :=
  let mutex := s.mutexAt mux
  match mutex.owner with
  | none => (s.setMutex mux { mutex with owner := some threadId }, some time)
  | some _ =>
    ((s.setMutex mux { mutex with waiting := mutex.waiting ++ [threadId] }).stallThread threadId
      (.mutexLock mux), none)

/-- `SimMutex::lock_async`. -/
def lockAsync (mux threadId : ℕ) (time : SubsecondTime) (s : Server) : Server :=
  let mutex := s.mutexAt mux
  match mutex.owner with
  | none =>
    (s.setMutex mux { mutex with owner := some threadId }).resumeThread rescheduleCost threadId
      time
  | some _ => s.setMutex mux { mutex with waiting := mutex.waiting ++ [threadId] }

/-- `SimMutex::unlock`: the new owner. -/
def unlock (mux threadId : ℕ) (time : SubsecondTime) (s : Server) :
    Except Stop (Server × Option ℕ) :=
  let mutex := s.mutexAt mux
  if mutex.owner = some threadId then
    match mutex.waiting with
    | [] => .ok (s.setMutex mux ⟨none, []⟩, none)
    | waiter :: rest =>
      .ok ((s.setMutex mux ⟨some waiter, rest⟩).resumeThread rescheduleCost waiter time,
        some waiter)
  else .error .notOwner

/-- `SyncServer::mutexLock`. -/
def mutexLock (threadId mux : ℕ) (tryLock : Bool) (time : SubsecondTime) (s : Server) : Server :=
  let s := s.getMutex mux
  if tryLock && (s.mutexAt mux).isLocked threadId then s.answer threadId (.locked time false)
  else
    match lock mux threadId time s with
    | (s, some timeEnd) => s.answer threadId (.locked (timeEnd + rescheduleCost) true)
    | (s, none) => s

/-- `SyncServer::mutexUnlock`. -/
def mutexUnlock (threadId mux : ℕ) (time : SubsecondTime) (s : Server) : Except Stop Server :=
  match s.mutexes mux with
  | none => .error .invalidMutexId
  | some _ => do
      let (s, newOwner) ← unlock rescheduleCost mux threadId (time + rescheduleCost) s
      pure (s.answer threadId (.at (time + if newOwner = none then 0 else rescheduleCost)))

/-! ## Condition variables -/

/-- `SyncServer::condWait` with `SimCond::wait`. -/
def condWait (threadId cond mux : ℕ) (time : SubsecondTime) (s : Server) : Except Stop Server := do
  let s := (s.getMutex mux).getCond cond
  let (s, _) ← unlock rescheduleCost mux threadId time s
  pure ((s.setCond cond (s.condAt cond ++ [⟨threadId, mux⟩])).stallThread threadId
    (.condWait cond mux))

/-- The first waiter of the condition goes to its mutex. -/
def wake (cond : ℕ) (woken : CondWaiter) (rest : List CondWaiter) (time : SubsecondTime)
    (s : Server) : Server :=
  lockAsync rescheduleCost woken.mutex woken.threadId time (s.setCond cond rest)

/-- `SyncServer::condSignal` with `SimCond::signal`. -/
def condSignal (threadId cond : ℕ) (time : SubsecondTime) (s : Server) : Server :=
  let s := s.getCond cond
  match s.condAt cond with
  | [] => s.answer threadId (.at time)
  | woken :: rest => (wake rescheduleCost cond woken rest time s).answer threadId (.at time)

/-- The loop of `SimCond::broadcast`, for the waiters that it finds. -/
def broadcast (cond : ℕ) (time : SubsecondTime) : List CondWaiter → Server → Server
  | [], s => s
  | woken :: rest, s => broadcast cond time rest (wake rescheduleCost cond woken rest time s)

/-- `SyncServer::condBroadcast`. -/
def condBroadcast (threadId cond : ℕ) (time : SubsecondTime) (s : Server) : Server :=
  let s := s.getCond cond
  (broadcast rescheduleCost cond time (s.condAt cond) s).answer threadId (.at time)

/-! ## Barriers -/

/-- `SyncServer::barrierInit`. -/
def barrierInit (threadId : ℕ) (count : UInt32) (s : Server) : Server :=
  let s' : Server := { s with barriers := s.barriers ++ [⟨[], count⟩] }
  s'.answer threadId (.handle s.barriers.length)

/-- The loop of `SimBarrier::wait`. -/
def release (time : SubsecondTime) : List ℕ → Server → Server
  | [], s => s
  | waiter :: rest, s => release time rest (s.resumeThread rescheduleCost waiter time)

/-- `SyncServer::barrierWait` with `SimBarrier::wait`. -/
def barrierWait (threadId barrier : ℕ) (time : SubsecondTime) (s : Server) : Except Stop Server :=
  match s.barriers[barrier]? with
  | none => .error .noSuchBarrier
  | some b =>
    if b.waiting.length = (b.count - 1).toNat then
      .ok ((release rescheduleCost time b.waiting
        (s.setBarrier barrier { b with waiting := [] })).answer threadId (.at time))
    else
      .ok ((s.setBarrier barrier { b with waiting := b.waiting ++ [threadId] }).stallThread
        threadId (.barrierWait barrier))

/-! ## Requests -/

inductive Op
  | mutexInit (mux : ℕ)
  | mutexLock (mux : ℕ) (tryLock : Bool)
  | mutexUnlock (mux : ℕ)
  | condInit (cond : ℕ)
  | condWait (cond mux : ℕ)
  | condSignal (cond : ℕ)
  | condBroadcast (cond : ℕ)
  | barrierInit (count : UInt32)
  | barrierWait (barrier : ℕ)
  deriving DecidableEq, Repr

/-- A request with the thread that makes it and the time of its core. -/
structure Request where
  threadId : ℕ
  time : SubsecondTime
  op : Op

/-- One request. -/
def step (r : Request) (s : Server) : Except Stop Server :=
  let s := s.fresh
  match r.op with
  | .mutexInit mux => .ok ((s.getMutex mux).answer r.threadId .done)
  | .mutexLock mux tryLock => .ok (mutexLock rescheduleCost r.threadId mux tryLock r.time s)
  | .mutexUnlock mux => mutexUnlock rescheduleCost r.threadId mux r.time s
  | .condInit cond => .ok ((s.getCond cond).answer r.threadId .done)
  | .condWait cond mux => condWait rescheduleCost r.threadId cond mux r.time s
  | .condSignal cond => .ok (condSignal rescheduleCost r.threadId cond r.time s)
  | .condBroadcast cond => .ok (condBroadcast rescheduleCost r.threadId cond r.time s)
  | .barrierInit count => .ok (barrierInit r.threadId count s)
  | .barrierWait barrier => barrierWait rescheduleCost r.threadId barrier r.time s

end Code

/-! ## The queues -/

/-- Where a stalled thread waits. -/
inductive Place
  | mutex (mux : ℕ)
  | cond (cond : ℕ)
  | barrier (barrier : ℕ)
  deriving DecidableEq

namespace Server

/-- The threads that wait at a place, the first one first. -/
def queue (s : Server) : Place → List ℕ
  | .mutex mux => (s.mutexAt mux).waiting
  | .cond cond => (s.condAt cond).map CondWaiter.threadId
  | .barrier barrier => (s.barriers[barrier]?.map SimBarrier.waiting).getD []

variable {s : Server} {mux cond barrier threadId : ℕ} {time rescheduleCost : SubsecondTime}

@[simp] theorem mutexAt_setMutex (mutex : SimMutex) :
    (s.setMutex mux mutex).mutexAt = Function.update s.mutexAt mux mutex := by
  funext m
  by_cases same : m = mux
  · subst same
    simp [mutexAt, setMutex]
  · simp [mutexAt, setMutex, same]

@[simp] theorem condAt_setCond (waiting : List CondWaiter) :
    (s.setCond cond waiting).condAt = Function.update s.condAt cond waiting := by
  funext c
  by_cases same : c = cond
  · subst same
    simp [condAt, setCond]
  · simp [condAt, setCond, same]

@[simp] theorem mutexAt_getMutex : (s.getMutex mux).mutexAt = s.mutexAt := by
  rw [getMutex, mutexAt_setMutex, Function.update_eq_self]

@[simp] theorem condAt_getCond : (s.getCond cond).condAt = s.condAt := by
  rw [getCond, condAt_setCond, Function.update_eq_self]

@[simp] theorem condAt_setMutex (mutex : SimMutex) : (s.setMutex mux mutex).condAt = s.condAt := rfl

@[simp] theorem barriers_setMutex (mutex : SimMutex) :
    (s.setMutex mux mutex).barriers = s.barriers := rfl

@[simp] theorem calls_setMutex (mutex : SimMutex) : (s.setMutex mux mutex).calls = s.calls := rfl

@[simp] theorem mutexAt_setCond (waiting : List CondWaiter) :
    (s.setCond cond waiting).mutexAt = s.mutexAt := rfl

@[simp] theorem barriers_setCond (waiting : List CondWaiter) :
    (s.setCond cond waiting).barriers = s.barriers := rfl

@[simp] theorem calls_setCond (waiting : List CondWaiter) :
    (s.setCond cond waiting).calls = s.calls := rfl

@[simp] theorem calls_stallThread (call : Call) :
    (s.stallThread threadId call).calls = Function.update s.calls threadId (some call) := rfl

@[simp] theorem mutexAt_stallThread (call : Call) :
    (s.stallThread threadId call).mutexAt = s.mutexAt := rfl

@[simp] theorem condAt_stallThread (call : Call) :
    (s.stallThread threadId call).condAt = s.condAt := rfl

@[simp] theorem barriers_stallThread (call : Call) :
    (s.stallThread threadId call).barriers = s.barriers := rfl

@[simp] theorem calls_resumeThread :
    (s.resumeThread rescheduleCost threadId time).calls =
      Function.update s.calls threadId none := by
  unfold resumeThread
  cases running : s.calls threadId with
  | none => exact (Function.update_eq_self_iff.2 running.symm).symm
  | some call => rfl

@[simp] theorem mutexAt_resumeThread :
    (s.resumeThread rescheduleCost threadId time).mutexAt = s.mutexAt := by
  unfold resumeThread
  cases s.calls threadId <;> rfl

@[simp] theorem condAt_resumeThread :
    (s.resumeThread rescheduleCost threadId time).condAt = s.condAt := by
  unfold resumeThread
  cases s.calls threadId <;> rfl

@[simp] theorem barriers_resumeThread :
    (s.resumeThread rescheduleCost threadId time).barriers = s.barriers := by
  unfold resumeThread
  cases s.calls threadId <;> rfl

/-- A thread that is resumed returns from its call. -/
theorem returned_resumeThread (stalled : s.calls threadId ≠ none) :
    (s.resumeThread rescheduleCost threadId time).returned.map Prod.fst =
      s.returned.map Prod.fst ++ [threadId] := by
  unfold resumeThread
  cases running : s.calls threadId with
  | none => exact absurd running stalled
  | some call => simp [answer]

/-- The queues are read off the tables. -/
theorem queue_congr {s' : Server} (mutexes : s'.mutexAt = s.mutexAt) (conds : s'.condAt = s.condAt)
    (barriers : s'.barriers = s.barriers) : s'.queue = s.queue := by
  funext p
  cases p with
  | mutex mux => simp only [queue, mutexes]
  | cond cond => simp only [queue, conds]
  | barrier barrier => simp only [queue, barriers]

@[simp] theorem queue_stallThread (call : Call) : (s.stallThread threadId call).queue = s.queue :=
  rfl

@[simp] theorem queue_resumeThread :
    (s.resumeThread rescheduleCost threadId time).queue = s.queue :=
  queue_congr mutexAt_resumeThread condAt_resumeThread barriers_resumeThread

theorem queue_setMutex (mutex : SimMutex) :
    (s.setMutex mux mutex).queue = Function.update s.queue (.mutex mux) mutex.waiting := by
  funext p
  cases p with
  | mutex m =>
    by_cases same : m = mux
    · subst same
      simp [queue]
    · simp [queue, same]
  | cond cond => rfl
  | barrier barrier => rfl

theorem queue_setCond (waiting : List CondWaiter) :
    (s.setCond cond waiting).queue =
      Function.update s.queue (.cond cond) (waiting.map CondWaiter.threadId) := by
  funext p
  cases p with
  | mutex m => rfl
  | cond c =>
    by_cases same : c = cond
    · subst same
      simp [queue]
    · simp [queue, same]
  | barrier barrier => rfl

theorem queue_setBarrier {b : SimBarrier} (known : s.barriers[barrier]? = some b)
    (b' : SimBarrier) :
    (s.setBarrier barrier b').queue = Function.update s.queue (.barrier barrier) b'.waiting := by
  have inside : barrier < s.barriers.length := (List.getElem?_eq_some_iff.1 known).1
  funext p
  cases p with
  | mutex m => rfl
  | cond c => rfl
  | barrier c =>
    by_cases same : c = barrier
    · subst same
      simp [queue, setBarrier, inside]
    · simp [queue, setBarrier, same, List.getElem?_set_ne (Ne.symm same)]

end Server

end SyncServer

end GpuHotSpot.Common
