import GpuHotSpot.Common.RobTimer

/-!
# The reorder buffers of the SMT threads of a core

`common/performance_model/performance_models/rob_performance_model/rob_smt_timer.cc`. Each thread has a
queue, a window and a front end of its own; the clock, the reservation stations, the ports and the
queues of loads and stores are shared. In a cycle the threads take turns: one of them dispatches. The
dependencies of a micro-op are looked up when it is dispatched, not when it enters.

What a thread does in the issue and commit stages is, line by line, what `RobTimer` does, so a thread is
shown to these stages as a timer (`view`) and taken back (`put`).
-/

namespace GpuHotSpot.Common.RobSmtTimer

open Fallible RobTimer

/-! ## The state -/

/-- The threads and how they share the core. -/
structure Config (κ : Type) extends RobTimer.Config κ where
  numThreads : ℕ
  windowRepartition : Bool
  simultaneousIssue : Bool

/-- What `m_cpiCurrentFrontEndStall` points to. -/
inductive CpiComponent
  | smt
  | branchPredictor
  | rsFull
  | instructionCache (where_ : HitWhere)
  deriving DecidableEq

/-- What a front end does: it stalls for a micro-op, from a time on, when a cycle has a length, and
until a time; or it dispatches a micro-op. -/
inductive Record
  | stall (sequenceNumber start period : ℕ) (stop : Time)
  | dispatch (sequenceNumber : ℕ) (time : Time)
  deriving DecidableEq

/-- `RobThread`, with `running` of the `SmtThread`; the micro-ops that entered, and what the front end
did. -/
structure RobThread where
  now : ℕ
  instrs : ℕ
  rob : Rob
  numInRob : ℕ
  nextSequenceNumber : ℕ
  frontendStalledUntil : Time
  inIcacheMiss : Bool
  nextEvent : Time
  registerDependencies : RegisterDependencies
  memoryDependencies : MemoryDependencies
  cpiCurrentFrontEndStall : Option CpiComponent
  running : Bool
  entered : List DynamicMicroOp
  records : List Record

/-- The constructor of `RobThread`. -/
def RobThread.start : RobThread where
  now := 0
  instrs := 0
  rob := ⟨0, []⟩
  numInRob := 0
  nextSequenceNumber := 0
  frontendStalledUntil := (0 : ℕ)
  inIcacheMiss := false
  nextEvent := (0 : ℕ)
  registerDependencies := fun _ => none
  memoryDependencies := .start
  cpiCurrentFrontEndStall := some .smt
  running := false
  entered := []
  records := []

/-- The fields of the timer, and the accesses of the memory so far. -/
structure Timer (κ : Type) where
  threads : ℕ → RobThread
  currentWindowSize : ℕ
  dispatchThread : ℕ
  issueThread : ℕ
  contention : κ
  now : ℕ
  period : ℕ
  lastStoreDone : ℕ
  loadQueue : ContentionModel
  storeQueue : ContentionModel
  rsEntriesUsed : ℕ
  accesses : List Access

variable {κ : Type} (config : Config κ)

/-- `computeCurrentWindowsize`. -/
def computeCurrentWindowsize (threads : ℕ → RobThread) : ℕ :=
  if config.windowRepartition then
    let numThreadsAwake := (List.range config.numThreads).countP fun t => (threads t).running
    if 0 < numThreadsAwake then config.windowSize / numThreadsAwake else config.windowSize
  else config.windowSize / config.numThreads

/-- The constructor, with the threads registered. -/
def Timer.start (period : ℕ) : Timer κ where
  threads := fun _ => .start
  currentWindowSize := computeCurrentWindowsize config fun _ => .start
  dispatchThread := 0
  issueThread := 0
  contention := config.contentionStart
  now := 0
  period := period
  lastStoreDone := 0
  loadQueue := .start config.outstandingLoads
  storeQueue := .start config.outstandingStores
  rsEntriesUsed := 0
  accesses := []

/-- The timer as a thread sees it; cycles are never skipped for the sake of checking it. -/
def Timer.view (thread : ℕ) (s : Timer κ) : RobTimer.Timer κ :=
  let t := s.threads thread
  { RobTimer.Timer.start config.toConfig s.period with
    rob := t.rob
    numInRob := t.numInRob
    rsEntriesUsed := s.rsEntriesUsed
    contention := s.contention
    now := s.now
    frontendStalledUntil := t.frontendStalledUntil
    inIcacheMiss := t.inIcacheMiss
    lastStoreDone := s.lastStoreDone
    loadQueue := s.loadQueue
    storeQueue := s.storeQueue
    nextSequenceNumber := t.nextSequenceNumber
    registerDependencies := t.registerDependencies
    memoryDependencies := t.memoryDependencies
    accesses := s.accesses
    entered := t.entered }

/-- One thread changes. -/
def Timer.setThread (thread : ℕ) (f : RobThread → RobThread) (s : Timer κ) : Timer κ :=
  { s with threads := Function.update s.threads thread (f (s.threads thread)) }

/-- A thread takes back what is its own. -/
def RobThread.put (v : RobTimer.Timer κ) (t : RobThread) : RobThread :=
  { t with
    rob := v.rob
    numInRob := v.numInRob
    nextSequenceNumber := v.nextSequenceNumber
    frontendStalledUntil := v.frontendStalledUntil
    inIcacheMiss := v.inIcacheMiss
    registerDependencies := v.registerDependencies
    memoryDependencies := v.memoryDependencies
    entered := v.entered }

/-- The timer when a stage has changed what a thread sees of it, and the thread changes then. -/
def Timer.put (thread : ℕ) (v : RobTimer.Timer κ) (f : RobThread → RobThread) (s : Timer κ) :
    Timer κ :=
  { s.setThread thread fun t => f (t.put v) with
    contention := v.contention
    lastStoreDone := v.lastStoreDone
    loadQueue := v.loadQueue
    storeQueue := v.storeQueue
    rsEntriesUsed := v.rsEntriesUsed
    accesses := v.accesses }

/-! ## A micro-op enters -/

/-- A pass of the loop of `pushInstructions`, for a micro-op that is not squashed. -/
def push (t : RobThread) (op : DynamicMicroOp) : Except Stop RobThread :=
  if t.rob.size = config.windowSize + 255 then .error .queueFull
  else
    .ok { t with
      rob := t.rob.push (RobEntry.init op t.nextSequenceNumber)
      nextSequenceNumber := t.nextSequenceNumber + 1
      entered := t.entered ++ [op] }

/-- `pushInstructions`. -/
def pushInstructions (thread : ℕ) (insts : List DynamicMicroOp) (s : Timer κ) :
    Except Stop (Timer κ) := do
  let t ← (insts.filter fun op => !op.squashed).foldlM (push config) (s.threads thread)
  .ok (s.setThread thread fun _ => t)

/-! ## Dependencies -/

def lowestValidSequenceNumber (rob : Rob) (p : ℕ) : ℕ :=
  if 0 < rob.size then rob.frontSequenceNumber else (rob.slot p).uop.sequenceNumber

/-- A pass of the loop over the dependencies of the entry at `self`; those that have left the queue
are within its instruction. -/
def register (lowestValid self : ℕ) (r : Registering) (dependency : ℕ) : Except Stop Registering :=
  if dependency < lowestValid then
    if r.depsToRemove.length < 8 then
      .ok { r with depsToRemove := r.depsToRemove ++ [dependency] }
    else .error .depsToRemove
  else RobTimer.register self r dependency

/-- The part of `setDependencies` after the dependencies are known. -/
def link (lowestValid self : ℕ) (rob : Rob) (entry : RobEntry) : Except Stop (Rob × RobEntry) := do
  let dependencies ← entry.uop.getDependencies
  let r ← dependencies.foldlM (register lowestValid self) ⟨rob, entry.readyMax, []⟩
  if r.depsToRemove.length < 16 then do
    let uop ← r.depsToRemove.foldlM (fun uop x => uop.removeDependency x) entry.uop
    let entry := { entry with uop := uop, readyMax := r.readyMax }
    if uop.getDependenciesLength = 0 then .ok (r.rob, { entry with ready := entry.readyMax })
    else .ok (r.rob, entry)
  else .error .depsToRemove

/-- Store-to-load forwarding, of a load. -/
def forwardLoad (rob : Rob) (uop : DynamicMicroOp) : Except Stop DynamicMicroOp :=
  if config.storeToLoadForwarding && uop.isLoad then forward rob uop else .ok uop

/-- `setDependencies`, for the entry at `p`. -/
def setDependencies (p : ℕ) (s : RobTimer.Timer κ) : Except Stop (RobTimer.Timer κ) := do
  let lowestValid := lowestValidSequenceNumber s.rob p
  let entry ← setAddressProducers s.rob s.registerDependencies lowestValid (s.rob.slot p)
  let (registers, uop) ← s.registerDependencies.setDependencies lowestValid entry.uop
  let (memory, uop) ← s.memoryDependencies.setDependencies lowestValid uop
  let uop ← forwardLoad config s.rob uop
  let (rob, entry) ← link lowestValid p s.rob { entry with uop := uop }
  .ok { s with
    rob := rob.modify p fun e => { entry with dependants := e.dependants }
    registerDependencies := registers
    memoryDependencies := memory }

/-! ## Dispatch -/

/-- The variables of the loop of `tryDispatch`, with the two `next_event` and what the front end has
done. -/
structure Dispatch (κ : Type) where
  timer : RobTimer.Timer κ
  uopsDispatched : ℕ
  nextEvent : Time
  threadNextEvent : Time
  cpiCurrentFrontEndStall : Option CpiComponent
  records : List Record

/-- A pass of this loop. -/
def dispatchBody (currentWindowSize : ℕ) (d : Dispatch κ) : Except Stop (Pass (Dispatch κ)) :=
  let s := d.timer
  if ¬ s.numInRob < currentWindowSize then .ok (.stop d)
  else do
    let p ← s.rob.pointerAt s.numInRob
    let uop := (s.rob.slot p).uop
    if d.uopsDispatched = config.dispatchWidth then .ok (.stop d)
    else if uop.iCacheHitWhere ≠ .l1i ∧ s.inIcacheMiss = false then
      let stalledUntil : Time := (s.now + uop.iCacheLatency * s.period : ℕ)
      .ok (.stop { d with
        timer := { s with frontendStalledUntil := stalledUntil, inIcacheMiss := true }
        cpiCurrentFrontEndStall := some (.instructionCache uop.iCacheHitWhere)
        records := d.records ++ [.stall uop.sequenceNumber s.now s.period stalledUntil] })
    else
      let s := if uop.iCacheHitWhere ≠ .l1i then { s with inIcacheMiss := false } else s
      if s.rsEntriesUsed = config.rsEntries then
        .ok (.stop { d with timer := s, cpiCurrentFrontEndStall := some .rsFull })
      else do
        let s ← setDependencies config p s
        let s := s.dispatch p
        let nextEvent := min d.nextEvent (s.rob.slot p).ready
        let d := { d with
          timer := s
          uopsDispatched := d.uopsDispatched + 1
          nextEvent := nextEvent
          threadNextEvent := min d.threadNextEvent nextEvent
          records := d.records ++ [.dispatch uop.sequenceNumber (s.rob.slot p).dispatched] }
        if uop.microOp.branch && uop.branchMispredicted then
          .ok (.stop { d with
            timer := { s with frontendStalledUntil := ⊤ }
            cpiCurrentFrontEndStall := some .branchPredictor })
        else .ok (.next d)

/-- `tryDispatch`: has the thread dispatched? -/
def tryDispatch (thread : ℕ) (nextEvent : Time) (s : Timer κ) :
    Except Stop (Bool × Timer κ × Time) := do
  let t := s.threads thread
  let d ← loop (dispatchBody config s.currentWindowSize) (s.currentWindowSize + 1)
    ⟨s.view config thread, 0, nextEvent, t.nextEvent, none, t.records⟩
  let s' := s.put thread d.timer fun t =>
    { t with
      nextEvent := d.threadNextEvent
      cpiCurrentFrontEndStall := d.cpiCurrentFrontEndStall
      records := d.records }
  let nextEvent :=
    if d.timer.numInRob < s.currentWindowSize then min d.timer.frontendStalledUntil d.nextEvent
    else d.nextEvent
  .ok (decide (0 < d.uopsDispatched), s', nextEvent)

/-- The threads in turn, from one of them. -/
def threadsFrom (first : ℕ) : List ℕ :=
  (List.range config.numThreads).map fun i => (first + i) % config.numThreads

/-- The variables of the loop of `doDispatch`. -/
structure Round (κ : Type) where
  timer : Timer κ
  nextEvent : Time
  threadDispatchedFrom : ℕ
  hasDispatched : Bool

/-- A pass of this loop: the front end is stalled, the thread is idle, its window is full, or another
thread has dispatched; or else it tries to dispatch. -/
def dispatchThread (r : Round κ) (thread : ℕ) : Except Stop (Round κ) :=
  let t := r.timer.threads thread
  if (r.timer.now : Time) < t.frontendStalledUntil then .ok r
  else if !t.running || decide (r.timer.now < t.now) then .ok r
  else if r.timer.currentWindowSize ≤ t.numInRob then .ok r
  else if r.hasDispatched then .ok r
  else do
    let (hasDispatched, s, nextEvent) ← tryDispatch config thread r.nextEvent r.timer
    .ok ⟨s, nextEvent, if hasDispatched then thread else r.threadDispatchedFrom, hasDispatched⟩

/-- `doDispatch`. -/
def doDispatch (s : Timer κ) : Except Stop (Timer κ × Time) := do
  let r ← (threadsFrom config s.dispatchThread).foldlM (dispatchThread config)
    ⟨s, ⊤, s.dispatchThread, false⟩
  .ok ({ r.timer with dispatchThread := (r.threadDispatchedFrom + 1) % config.numThreads },
    r.nextEvent)

/-! ## Issue and commit -/

/-- `tryIssue`: has the thread issued? -/
def tryIssue (thread : ℕ) (nextEvent : Time) (s : Timer κ) :
    Except Stop (Bool × Timer κ × Time) := do
  let w ← loop (issueBody config.toConfig) ((s.threads thread).numInRob + 1)
    ⟨s.view config thread, 0, 0, ⊤, true, false, false, false⟩
  let s' := s.put thread w.timer fun t => { t with nextEvent := w.nextEvent }
  .ok (decide (0 < w.numIssued), s', min nextEvent w.nextEvent)

/-- The loop of `doIssue`, over the threads that are left; a thread that issues may end it. -/
def issueThreads : List ℕ → Time → Timer κ → Except Stop (Option ℕ × Timer κ × Time)
  | [], nextEvent, s => .ok (none, s, nextEvent)
  | thread :: threads, nextEvent, s =>
    if (s.now : Time) < (s.threads thread).nextEvent then issueThreads threads nextEvent s
    else if 0 < (s.threads thread).numInRob then do
      let (hasIssued, s, nextEvent) ← tryIssue config thread nextEvent s
      if hasIssued && !config.simultaneousIssue then .ok (some thread, s, nextEvent)
      else issueThreads threads nextEvent s
    else issueThreads threads nextEvent s

/-- The ports are free. -/
def Timer.initCycle (s : Timer κ) : Timer κ :=
  { s with
    contention := match config.contention with
      | none => s.contention
      | some contention => contention.initCycle s.now s.period s.contention }

/-- `doIssue`. -/
def doIssue (s : Timer κ) : Except Stop (Timer κ × Time) := do
  let (last, s', nextEvent) ←
    issueThreads config (threadsFrom config s.issueThread) ⊤ (s.initCycle config)
  .ok ({ s' with issueThread := (last.getD s.issueThread + 1) % config.numThreads }, nextEvent)

/-- A pass of the loop of `doCommit`. -/
def commitThread (s : Timer κ) (thread : ℕ) : Except Stop (Timer κ) := do
  let t := s.threads thread
  let c ← loop (commitBody config.toConfig) (t.rob.size + 1) ⟨s.view config thread, 0, 0⟩
  .ok (s.put thread c.timer fun t => { t with instrs := t.instrs + c.instructionsExecuted })

/-- `doCommit`. -/
def doCommit (s : Timer κ) : Except Stop (Timer κ × Time) := do
  let s ← (List.range config.numThreads).foldlM (commitThread config) s
  let rob := (s.threads 0).rob
  .ok (s, if rob.size = 0 then ⊤ else (rob.slot rob.first).done)

/-! ## A cycle -/

/-- `canExecute`, of a thread: it may dispatch in this cycle. -/
def canDispatch (s : Timer κ) (thread : ℕ) : Bool :=
  let t := s.threads thread
  !(decide ((s.now : Time) < t.frontendStalledUntil) || decide (s.now < t.now) ||
    decide (s.currentWindowSize ≤ t.numInRob) || !t.running)

/-- `canExecute`: each thread that may dispatch has enough micro-ops. -/
def canExecute (s : Timer κ) : Bool :=
  (List.range config.numThreads).all fun thread =>
    !canDispatch s thread ||
      !decide ((s.threads thread).rob.size < (s.threads thread).numInRob + 2 * config.dispatchWidth)

/-- `executeCycle`; a core with one thread skips to the next event. -/
def executeCycle (s : Timer κ) : Except Stop (Timer κ) := do
  let (s, nextDispatch) ← doDispatch config s
  let (s, nextIssue) ← doIssue config s
  let (s, nextCommit) ← doCommit config s
  let nextEvent := min nextDispatch (min nextIssue nextCommit)
  let skip :=
    if 1 < config.numThreads then s.period
    else if nextEvent ≠ ⊤ ∧ (s.now + s.period : ℕ) < nextEvent then nextEvent.untopD 0 - s.now
    else s.period
  .ok { s with now := s.now + skip }

/-! ## Events -/

/-- Micro-ops enter; a round of `execute`; a call of `synchronize`; a thread goes to sleep or wakes up; a
change of the frequency. -/
inductive Event
  | pushInstructions (thread : ℕ) (insts : List DynamicMicroOp)
  | executeCycle
  | synchronize (thread time : ℕ)
  | setRunning (thread : ℕ) (running : Bool)
  | changePeriod (period : ℕ)

/-- `synchronize`: the clock goes on to the earliest thread. -/
def synchronize (thread time : ℕ) (s : Timer κ) : Timer κ :=
  let s := s.setThread thread fun t => { t with now := time }
  let earliest : Time := (List.range config.numThreads).foldl
    (fun earliest t => min earliest ((s.threads t).now : Time)) ⊤
  if (s.now : Time) < earliest then { s with now := earliest.untopD 0 } else s

/-- `notifyNumActiveThreadsChange`, when a thread goes to sleep or wakes up. -/
def setRunning (thread : ℕ) (running : Bool) (s : Timer κ) : Timer κ :=
  let s := s.setThread thread fun t => { t with running := running }
  { s with currentWindowSize := computeCurrentWindowsize config s.threads }

/-- One event. -/
def step (e : Event) (s : Timer κ) : Except Stop (Timer κ) :=
  match e with
  | .pushInstructions thread insts =>
    if thread < config.numThreads then pushInstructions config thread insts s
    else .error .cannotOccur
  | .executeCycle =>
    if canExecute config s then executeCycle config s else .error .cannotOccur
  | .synchronize thread time =>
    if thread < config.numThreads then .ok (synchronize config thread time s)
    else .error .cannotOccur
  | .setRunning thread running =>
    if thread < config.numThreads then .ok (setRunning config thread running s)
    else .error .cannotOccur
  | .changePeriod period =>
    if period = 0 then .error .cannotOccur else .ok { s with period := period }

end GpuHotSpot.Common.RobSmtTimer
