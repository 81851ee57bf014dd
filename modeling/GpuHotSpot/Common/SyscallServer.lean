import GpuHotSpot.Lib.Machine
import GpuHotSpot.Lib.WaitQueues

/-!
# The system call server

`common/system/syscall_server.cc`: the futex calls and the sleep calls of the simulated threads.  A
thread that must wait is stalled inside its call.  Another thread wakes it, or a periodic check
finds that its time is over.

* `step`: one event.
* `requeue_ends`, `requeue_never_ends`: the loop that moves the waiters of a futex to another one.
-/

namespace GpuHotSpot.Common.SyscallServer

open Fallible

/-! ## The state -/

/-- Femtoseconds in 64 bits. -/
abbrev SubsecondTime := UInt64

/-- `SubsecondTime::NS` and `SubsecondTime::SEC`. -/
def ns (n : UInt64) : SubsecondTime := n * 1000000

def sec (n : UInt64) : SubsecondTime := n * 1000000000000000

def maxTime : SubsecondTime := 0xffffffffffffffff

/-- The assertions of the server, and a loop that does not end. -/
inductive Stop
  | unsupportedOp
  | unknownOp
  | unknownCmp
  | sameAddress
  | neverEnds
  deriving DecidableEq, Repr

/-- `SimFutex::Waiter`. -/
structure Waiter where
  threadId : ℕ
  mask : BitVec 32
  timeout : SubsecondTime
  deriving DecidableEq

/-- The queues: `m_sleeping`, and that of each physical address in `m_futexes`. -/
inductive Queue
  | sleeping
  | futex (address : ℕ)
  deriving DecidableEq

/-- A call in which a thread is stalled. -/
inductive Call
  | futexWait (timeout : SubsecondTime)
  | sleep (wakeTime : SubsecondTime)
  deriving DecidableEq

/-- What a call returns, with the end time. -/
inductive Reply
  | futex (result : ℤ) (endTime : SubsecondTime)
  | slept (endTime : SubsecondTime)
  deriving DecidableEq

/-- The queues of the server, the call that each stalled thread is in, the calls that returned
during the last event, and the value that it stored at `uaddr2`. -/
structure Server where
  waiting : Queue → List Waiter
  calls : ℕ → Option Call
  returned : List (ℕ × Reply)
  stored : Option (BitVec 32)

def Server.start : Server := ⟨fun _ => [], fun _ => none, [], none⟩

/-! ## Threads -/

def EWOULDBLOCK : ℤ := 11

def EAGAIN : ℤ := 11

def ETIMEDOUT : ℤ := 110

/-- What a stalled call returns: `msg` says whether the thread was woken. -/
def Call.reply (msg : Bool) (time : SubsecondTime) : Call → Reply
  | .futexWait _ => .futex (if msg then 0 else -ETIMEDOUT) time
  | .sleep _ => .slept time

namespace Server

def setWaiting (queue : Queue) (waiters : List Waiter) (s : Server) : Server :=
  { s with waiting := Function.update s.waiting queue waiters }

def answer (threadId : ℕ) (reply : Reply) (s : Server) : Server :=
  { s with returned := s.returned ++ [(threadId, reply)] }

/-- `ThreadManager::stallThread`. -/
def stallThread (threadId : ℕ) (call : Call) (s : Server) : Server :=
  { s with calls := Function.update s.calls threadId (some call) }

/-- `ThreadManager::resumeThread`: the call of the thread returns. -/
def resumeThread (threadId : ℕ) (time : SubsecondTime) (msg : Bool) (s : Server) : Server :=
  match s.calls threadId with
  | none => s
  | some call =>
    ({ s with calls := Function.update s.calls threadId none }).answer threadId
      (call.reply msg time)

/-- The server when an event comes in. -/
def fresh (s : Server) : Server := { s with returned := [], stored := none }

end Server

/-! ## Queues -/

/-- `handleSleepCall` and `SimFutex::enqueueWaiter`: a thread is put at the end of a queue. -/
def enqueue (queue : Queue) (waiter : Waiter) (call : Call) (s : Server) : Server :=
  (s.setWaiting queue (s.waiting queue ++ [waiter])).stallThread waiter.threadId call

/-- The loops that look for a waiter and resume the first one. -/
def resumeFirst (queue : Queue) (found : Waiter → Bool) (msg : Bool) (time : SubsecondTime)
    (s : Server) : Server × Option ℕ :=
  match (s.waiting queue).find? found with
  | none => (s, none)
  | some waiter =>
    ((s.setWaiting queue ((s.waiting queue).eraseP found)).resumeThread waiter.threadId time msg,
      some waiter.threadId)

/-- `mask & it->mask`. -/
def Waiter.intersects (mask : BitVec 32) (waiter : Waiter) : Bool := mask &&& waiter.mask ≠ 0

/-- `it->timeout <= time`. -/
def Waiter.timedOut (time : SubsecondTime) (waiter : Waiter) : Bool := waiter.timeout ≤ time

/-- `SimFutex::dequeueWaiter`. -/
def dequeueWaiter (address : ℕ) (mask : BitVec 32) (time : SubsecondTime) :
    Server → Server × Option ℕ :=
  resumeFirst (.futex address) (Waiter.intersects mask) true time

/-- `SimFutex::wakeTimedOut`; the sleeping threads have the same loop. -/
def wakeTimedOut (queue : Queue) (time : SubsecondTime) (s : Server) : Server :=
  (resumeFirst queue (Waiter.timedOut time) false time s).1

/-- `SimFutex::requeueWaiter`. -/
def requeueWaiter (source target : ℕ) (s : Server) : Server × Option ℕ :=
  match s.waiting (.futex source) with
  | [] => (s, none)
  | waiter :: rest =>
    let s := s.setWaiting (.futex source) rest
    (s.setWaiting (.futex target) (s.waiting (.futex target) ++ [waiter]), some waiter.threadId)

/-- The loop of `futexCmpRequeue` over `requeueWaiter`, for a number of rounds. -/
def requeue (source target : ℕ) : ℕ → Server → Except Stop Server
  | 0, _ => .error .neverEnds
  | rounds + 1, s =>
    match requeueWaiter source target s with
    | (s, none) => .ok s
    | (s, some _) => requeue source target rounds s

/-- The loops that wake up to `n` waiters: how many they wake. -/
def wakeUp (address : ℕ) (mask : BitVec 32) (time : SubsecondTime) : ℕ → Server → Server × ℕ
  | 0, s => (s, 0)
  | n + 1, s =>
    match dequeueWaiter address mask time s with
    | (s, none) => (s, 0)
    | (s, some _) =>
      let (s, more) := wakeUp address mask time n s
      (s, more + 1)

/-! ## Calls -/

/-- `struct timespec`. -/
structure Timespec where
  sec : UInt64
  nsec : UInt64

/-- `futex_args_t`, with the time that `timeout` points to. -/
structure FutexArgs where
  uaddr : ℕ
  op : BitVec 32
  val : BitVec 32
  timeout : Option Timespec
  val2 : BitVec 32
  uaddr2 : ℕ
  val3 : BitVec 32

/-- What a call finds: the addresses of its thread, the values at `uaddr` and `uaddr2`, and whether
its core has executed an instruction. -/
structure Environment where
  va2pa : ℕ → ℕ
  actVal : BitVec 32
  oldVal : BitVec 32
  executed : Bool

def FUTEX_WAIT : BitVec 32 := 0

def FUTEX_WAKE : BitVec 32 := 1

def FUTEX_CMP_REQUEUE : BitVec 32 := 4

def FUTEX_WAKE_OP : BitVec 32 := 5

def FUTEX_WAIT_BITSET : BitVec 32 := 9

def FUTEX_WAKE_BITSET : BitVec 32 := 10

def FUTEX_PRIVATE_FLAG : BitVec 32 := 128

/-- As `os_compat.h` defines it anew. -/
def FUTEX_CMD_MASK : BitVec 32 := 0x7f

def FUTEX_BITSET_MATCH_ANY : BitVec 32 := 0xffffffff

/-- The command of a call. -/
def FutexArgs.cmd (args : FutexArgs) : BitVec 32 :=
  args.op &&& FUTEX_CMD_MASK &&& ~~~FUTEX_PRIVATE_FLAG

/-- The bound of a loop `for (int i = 0; i < n; i++)`. -/
def rounds (n : BitVec 32) : ℕ := n.toInt.toNat

section Code

variable (rescheduleCost : SubsecondTime) (osEmuTimeStart : UInt64)

/-- `applyRescheduleCost`. -/
def applyRescheduleCost (env : Environment) (conditional : Bool) : SubsecondTime :=
  if conditional = false then 0 else if env.executed = false then 0 else rescheduleCost

/-- The time until which a call waits. -/
def timeoutTime (args : FutexArgs) (currTime : SubsecondTime) : SubsecondTime :=
  match args.timeout with
  | none => maxTime
  | some timeout =>
    let timeoutVal := sec (timeout.sec - osEmuTimeStart) + ns timeout.nsec
    if args.cmd = FUTEX_WAIT_BITSET then timeoutVal else currTime + timeoutVal

/-- `futexWait`. -/
def futexWait (threadId : ℕ) (args : FutexArgs) (env : Environment) (mask : BitVec 32)
    (currTime : SubsecondTime) (s : Server) : Server :=
  if args.val ≠ env.actVal then s.answer threadId (.futex (-EWOULDBLOCK) currTime)
  else
    let timeout := timeoutTime osEmuTimeStart args currTime
    enqueue (.futex (env.va2pa args.uaddr)) ⟨threadId, mask, timeout⟩ (.futexWait timeout) s

/-- `futexWake`. -/
def futexWake (threadId : ℕ) (args : FutexArgs) (env : Environment) (mask : BitVec 32)
    (currTime : SubsecondTime) (s : Server) : Server :=
  let (s, woken) := wakeUp (env.va2pa args.uaddr) mask
    (currTime + applyRescheduleCost rescheduleCost env true) (rounds args.val) s
  s.answer threadId
    (.futex woken (currTime + applyRescheduleCost rescheduleCost env (decide (woken > 0))))

/-- `futexDoOp`: the new value at the address, and the result of the comparison. -/
def futexDoOp (encodedOp oldVal : BitVec 32) : Except Stop (BitVec 32 × Bool) := do
  let op := (encodedOp >>> 28) &&& 7
  let cmp := (encodedOp >>> 24) &&& 15
  let arg := (encodedOp <<< 8).sshiftRight 20
  let cmparg := (encodedOp <<< 20).sshiftRight 20
  let oparg : BitVec 32 :=
    if encodedOp &&& ((8 : BitVec 32) <<< 28) ≠ 0 then 1 <<< (arg.toNat % 32) else arg
  let newVal ←
    if op = 0 then .ok oparg
    else if op = 1 then .ok (oldVal + oparg)
    else if op = 2 then .ok (oldVal ||| oparg)
    else if op = 3 then .ok (oldVal &&& ~~~oparg)
    else if op = 4 then .ok (oldVal ^^^ oparg)
    else .error .unknownOp
  let ret ←
    if cmp = 0 then .ok (decide (oldVal = cmparg))
    else if cmp = 1 then .ok (decide (oldVal ≠ cmparg))
    else if cmp = 2 then .ok (decide (oldVal.toInt < cmparg.toInt))
    else if cmp = 3 then .ok (decide (oldVal.toInt ≤ cmparg.toInt))
    else if cmp = 4 then .ok (decide (oldVal.toInt > cmparg.toInt))
    else if cmp = 5 then .ok (decide (oldVal.toInt ≥ cmparg.toInt))
    else .error .unknownCmp
  pure (newVal, ret)

/-- `futexWakeOp`. -/
def futexWakeOp (threadId : ℕ) (args : FutexArgs) (env : Environment) (currTime : SubsecondTime)
    (s : Server) : Except Stop Server := do
  let (newVal, ret) ← futexDoOp args.val3 env.oldVal
  let time := currTime + applyRescheduleCost rescheduleCost env true
  let (s, woken) := wakeUp (env.va2pa args.uaddr) FUTEX_BITSET_MATCH_ANY time (rounds args.val)
    { s with stored := some newVal }
  let (s, more) := wakeUp (env.va2pa args.uaddr2) FUTEX_BITSET_MATCH_ANY time
    (if ret then rounds args.val2 else 0) s
  pure (s.answer threadId (.futex (woken + more : ℕ)
    (currTime + applyRescheduleCost rescheduleCost env (decide (woken + more > 0)))))

/-- `futexCmpRequeue`; the loop that moves the waiters ends when the first queue is empty, or it
does not end. -/
def futexCmpRequeue (threadId : ℕ) (args : FutexArgs) (env : Environment)
    (currTime : SubsecondTime) (s : Server) : Except Stop Server :=
  if args.val3 ≠ env.actVal then .ok (s.answer threadId (.futex (-EAGAIN) currTime))
  else do
    let source := env.va2pa args.uaddr
    let (s, woken) := wakeUp source FUTEX_BITSET_MATCH_ANY currTime (rounds args.val) s
    let s ← requeue source (env.va2pa args.uaddr2) ((s.waiting (.futex source)).length + 1) s
    pure (s.answer threadId (.futex woken currTime))

/-- `handleFutexCall`. -/
def handleFutexCall (threadId : ℕ) (args : FutexArgs) (env : Environment)
    (currTime : SubsecondTime) (s : Server) : Except Stop Server :=
  let cmd := args.cmd
  if cmd = FUTEX_WAIT ∨ cmd = FUTEX_WAIT_BITSET then
    .ok (futexWait osEmuTimeStart threadId args env
      (if cmd = FUTEX_WAIT_BITSET then args.val3 else FUTEX_BITSET_MATCH_ANY) currTime s)
  else if cmd = FUTEX_WAKE ∨ cmd = FUTEX_WAKE_BITSET then
    .ok (futexWake rescheduleCost threadId args env
      (if cmd = FUTEX_WAIT_BITSET then args.val3 else FUTEX_BITSET_MATCH_ANY) currTime s)
  else if cmd = FUTEX_WAKE_OP then futexWakeOp rescheduleCost threadId args env currTime s
  else if cmd = FUTEX_CMP_REQUEUE then
    if args.uaddr = args.uaddr2 then .error .sameAddress
    else futexCmpRequeue threadId args env currTime s
  else .error .unsupportedOp

/-- `handleSleepCall`. -/
def handleSleepCall (threadId : ℕ) (wakeTime : SubsecondTime) (s : Server) : Server :=
  enqueue .sleeping ⟨threadId, 0, wakeTime⟩ (.sleep wakeTime) s

/-- `futexPeriodic`, with the addresses of `m_futexes` in the order of the table. -/
def futexPeriodic (time : SubsecondTime) (addresses : List ℕ) (s : Server) : Server :=
  addresses.foldl (fun s address => wakeTimedOut (.futex address) time s)
    (wakeTimedOut .sleeping time s)

/-! ## Events -/

inductive Event
  | futex (threadId : ℕ) (args : FutexArgs) (env : Environment) (currTime : SubsecondTime)
  | sleep (threadId : ℕ) (wakeTime currTime : SubsecondTime)
  | periodic (time : SubsecondTime) (addresses : List ℕ)

/-- One event. -/
def step (e : Event) (s : Server) : Except Stop Server :=
  match e with
  | .futex threadId args env currTime =>
    handleFutexCall rescheduleCost osEmuTimeStart threadId args env currTime s.fresh
  | .sleep threadId wakeTime _ => .ok (handleSleepCall threadId wakeTime s.fresh)
  | .periodic time addresses => .ok (futexPeriodic time addresses s.fresh)

end Code

end GpuHotSpot.Common.SyscallServer
