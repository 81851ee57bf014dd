import GpuHotSpot.Common.MicroOp
import GpuHotSpot.Lib.Loop
import Mathlib.Algebra.Order.Monoid.Unbundled.WithTop
import Mathlib.Order.Lattice.Nat

/-!
# The reorder buffer of a core

`common/performance_model/performance_models/rob_performance_model/rob_timer.cc`, with the queue of
`circular_queue.h` and `contention_model.cc`. A micro-op enters the queue, is dispatched into the
window, is issued when its operands are ready, and is committed in order.

Times are numbers without a bound, and `MaxTime` is a time of its own. The queue keeps what was popped:
a slot is known by how many elements were pushed before it, and nothing reads a popped one. What a
memory access returns depends on the accesses before it and on the time.
-/

namespace GpuHotSpot.Common.RobTimer

open Fallible

/-- `SubsecondTime`; the greatest one is `MaxTime`. -/
abbrev Time := WithTop ℕ

/-- `SubsecondTime::divideRounded`. -/
def divideRounded (time period : ℕ) : ℕ := (time + (period / 2 + 1)) / period

/-! ## Contention -/

/-- `ContentionModel`: when each of the outstanding requests is done, and its tag. -/
structure ContentionModel where
  time : List (ℕ × ℕ)
  last : ℕ
  deriving DecidableEq

namespace ContentionModel

def start (numOutstanding : ℕ) : ContentionModel := ⟨List.replicate numOutstanding (0, 0), 0⟩

/-- `hasFreeSlot` without a tag, which is a tag with all bits set. -/
def hasFreeSlot (now : ℕ) (q : ContentionModel) : Bool :=
  q.time.any fun unit => unit.1 ≤ now || unit.2 = 2 ^ 64 - 1

/-- The unit that is free now, or the first one to be free. -/
def firstFree (now : ℕ) : List (ℕ × ℕ) → (i best bestTime : ℕ) → ℕ
  | [], _, best, _ => best
  | (time, _) :: units, i, best, bestTime =>
    if time ≤ now then i
    else if time < bestTime then firstFree now units (i + 1) i time
    else firstFree now units (i + 1) best bestTime

/-- `getCompletionTime`, of which nobody reads the result. -/
def complete (now delay tag : ℕ) (q : ContentionModel) : ContentionModel :=
  if q.time.length = 0 ∨ now = 0 ∨ now < q.last then q
  else
    let first := (q.time.getD 0 (0, 0)).1
    let unit := firstFree now q.time 0 0 first
    let begins := max now (q.time.getD unit (0, 0)).1
    ⟨q.time.set unit (begins + delay, tag), now⟩

end ContentionModel

/-- `RobContention`: the ports and units of a core; a state of them is a `κ`. -/
structure RobContention (κ : Type) where
  initCycle : (now period : ℕ) → κ → κ
  tryIssue : DynamicMicroOp → κ → Bool × κ
  doIssue : DynamicMicroOp → κ → κ
  noMore : κ → Bool

/-! ## The state -/

/-- An access of `accessMemory`: a read or a write of so many bytes. -/
structure Access where
  read : Bool
  address : ℕ
  size : ℕ
  instruction : ℕ
  now : ℕ
  deriving DecidableEq

/-- The configuration, and what the memory answers: the latency and where the access hits. -/
structure Config (κ : Type) where
  dispatchWidth : ℕ
  commitWidth : ℕ
  windowSize : ℕ
  rsEntries : ℕ
  mispredictionPenalty : ℕ
  storeToLoadForwarding : Bool
  noAddressDisambiguation : Bool
  inorder : Bool
  outstandingLoads : ℕ
  outstandingStores : ℕ
  contention : Option (RobContention κ)
  contentionStart : κ
  memory : List Access → Access → ℕ × HitWhere
  assertSkip : Bool

/-- `RobEntry`; a pointer to an entry is the number of its slot. -/
structure RobEntry where
  uop : DynamicMicroOp
  dependants : List ℕ
  addressProducers : List ℕ
  dispatched : Time
  ready : Time
  readyMax : Time
  addressReady : Time
  addressReadyMax : Time
  issued : Time
  done : Time
  deriving DecidableEq

/-- `RobEntry::init`. -/
def RobEntry.init (uop : DynamicMicroOp) (sequenceNumber : ℕ) : RobEntry where
  uop := { uop with sequenceNumber := sequenceNumber }
  dependants := []
  addressProducers := []
  dispatched := ⊤
  ready := ⊤
  readyMax := (0 : ℕ)
  addressReady := ⊤
  addressReadyMax := (0 : ℕ)
  issued := ⊤
  done := ⊤

/-- A slot that was never used. -/
def RobEntry.unused : RobEntry :=
  .init ⟨⟨.invalid, [], [], [], false, false, false, 0, 0⟩, 0, 0, 0, [], 0, false, 0, false, .unknown,
    .l1i, 0, false⟩ 0

/-- `CircularQueue<RobEntry>`: all elements ever pushed, and the number of those popped. -/
structure Rob where
  first : ℕ
  entries : List RobEntry

namespace Rob

variable (q : Rob)

def size : ℕ := q.entries.length - q.first

/-- What a pointer points to. -/
def slot (p : ℕ) : RobEntry := q.entries.getD p RobEntry.unused

def modify (p : ℕ) (f : RobEntry → RobEntry) : Rob := { q with entries := q.entries.modify p f }

/-- `next`, and what is then written to the slot. -/
def push (e : RobEntry) : Rob := { q with entries := q.entries ++ [e] }

/-- `pop`. -/
def pop : Rob := { q with first := q.first + 1 }

/-- `at`, as a pointer. -/
def pointerAt (i : ℕ) : Except Stop ℕ := if i < q.size then .ok (q.first + i) else .error .outsideQueue

def frontSequenceNumber : ℕ := (q.slot q.first).uop.sequenceNumber

/-- `findEntryBySequenceNumber`. -/
def findEntryBySequenceNumber (x : ℕ) : Except Stop ℕ :=
  if q.frontSequenceNumber ≤ x ∧ x - q.frontSequenceNumber < q.size then
    let p := q.first + (x - q.frontSequenceNumber)
    if (q.slot p).uop.sequenceNumber = x then .ok p else .error .outsideQueue
  else .error .outsideQueue

end Rob

/-- The CPI stack. -/
inductive CpiComponent
  | base
  | branchPredictor
  | serialization
  | rsFull
  | instructionCache (where_ : HitWhere)
  | dataCache (where_ : HitWhere)
  deriving DecidableEq

/-- A line of the issue stage: when the micro-op is issued, when its result is there for others, and
when the execution is over. -/
structure Issue where
  sequenceNumber : ℕ
  time : ℕ
  cycleDepend : ℕ
  cycleDone : ℕ
  deriving DecidableEq

/-- What `traceInstruction` gets. -/
structure Commit where
  sequenceNumber : ℕ
  dispatched : Time
  issued : Time
  done : Time
  committed : ℕ
  deriving DecidableEq

/-- The fields of the timer; the accesses of the memory so far; the micro-ops that entered, were issued
and were committed; the variables of a call of `simulate`, and what the calls returned. -/
structure Timer (κ : Type) where
  rob : Rob
  numInRob : ℕ
  rsEntriesUsed : ℕ
  contention : κ
  now : ℕ
  period : ℕ
  frontendStalledUntil : Time
  inIcacheMiss : Bool
  lastStoreDone : ℕ
  loadQueue : ContentionModel
  storeQueue : ContentionModel
  nextSequenceNumber : ℕ
  willSkip : Bool
  timeSkipped : ℕ
  registerDependencies : RegisterDependencies
  memoryDependencies : MemoryDependencies
  cpiCurrentFrontEndStall : Option CpiComponent
  cpi : CpiComponent → ℕ
  accesses : List Access
  entered : List DynamicMicroOp
  issues : List Issue
  commits : List Commit
  simulating : Bool
  totalInsnExec : ℕ
  totalLat : ℕ
  returned : List (ℕ × ℕ)

variable {κ : Type} (config : Config κ)

/-- The constructor. -/
def Timer.start (period : ℕ) : Timer κ where
  rob := ⟨0, []⟩
  numInRob := 0
  rsEntriesUsed := 0
  contention := config.contentionStart
  now := 0
  period := period
  frontendStalledUntil := (0 : ℕ)
  inIcacheMiss := false
  lastStoreDone := 0
  loadQueue := .start config.outstandingLoads
  storeQueue := .start config.outstandingStores
  nextSequenceNumber := 0
  willSkip := false
  timeSkipped := 0
  registerDependencies := fun _ => none
  memoryDependencies := .start
  cpiCurrentFrontEndStall := none
  cpi := fun _ => 0
  accesses := []
  entered := []
  issues := []
  commits := []
  simulating := false
  totalInsnExec := 0
  totalLat := 0
  returned := []

/-! ## A micro-op enters -/

/-- A pass of the loop over the address registers of a store. -/
def addAddressRegister (rob : Rob) (producers : RegisterDependencies) (lowestValid : ℕ)
    (entry : RobEntry) (register : ℕ) : Except Stop RobEntry :=
  match producers.peekProducer register lowestValid with
  | none => .ok entry
  | some addressProducer => do
      let p ← rob.findEntryBySequenceNumber addressProducer
      if (rob.slot p).done ≠ ⊤ then
        .ok { entry with addressReadyMax := max entry.addressReadyMax (rob.slot p).done }
      else .ok { entry with addressProducers := entry.addressProducers ++ [addressProducer] }

/-- The address of a store. -/
def setAddressProducers (rob : Rob) (producers : RegisterDependencies) (lowestValid : ℕ)
    (entry : RobEntry) : Except Stop RobEntry :=
  if entry.uop.isStore then do
    let entry ← entry.uop.microOp.addressRegisters.foldlM
      (addAddressRegister rob producers lowestValid) entry
    if entry.addressProducers.length = 0 then
      .ok { entry with addressReady := entry.addressReadyMax }
    else .ok entry
  else .ok entry

/-- The first store among the dependencies, with its pointer. -/
def findStore (rob : Rob) : List ℕ → Except Stop (Option (ℕ × ℕ))
  | [] => .ok none
  | x :: xs => do
      let p ← rob.findEntryBySequenceNumber x
      if (rob.slot p).uop.isStore then .ok (some (x, p)) else findStore rob xs

/-- Store-to-load forwarding: the load depends on what the store depends on instead. -/
def forward (rob : Rob) (uop : DynamicMicroOp) : Except Stop DynamicMicroOp := do
  let dependencies ← uop.getDependencies
  match ← findStore rob dependencies with
  | none => .ok uop
  | some (x, p) => do
      let uop ← uop.removeDependency x
      let operands ← (rob.slot p).uop.getDependencies
      operands.foldlM (fun uop operand => uop.addDependency operand) uop

/-- The variables of the loop over the dependencies of a new entry, whose pointer is `self`. -/
structure Registering where
  rob : Rob
  readyMax : Time
  depsToRemove : List ℕ

/-- A pass of this loop; `deps_to_remove` has room for eight. -/
def register (self : ℕ) (r : Registering) (dependency : ℕ) : Except Stop Registering := do
  let p ← r.rob.findEntryBySequenceNumber dependency
  if (r.rob.slot p).done ≠ ⊤ then
    if r.depsToRemove.length < 8 then
      .ok { r with
        readyMax := max r.readyMax (r.rob.slot p).done
        depsToRemove := r.depsToRemove ++ [dependency] }
    else .error .depsToRemove
  else
    .ok { r with
      rob := r.rob.modify p fun e => { e with dependants := e.dependants ++ [self] } }

/-- The part of the first loop of `simulate` after the dependencies are known; the assertion compares
with the size of the array divided by that of an `int`. -/
def link (rob : Rob) (entry : RobEntry) : Except Stop (Rob × RobEntry) := do
  let dependencies ← entry.uop.getDependencies
  let r ← dependencies.foldlM (register rob.entries.length) ⟨rob, entry.readyMax, []⟩
  if r.depsToRemove.length < 16 then do
    let uop ← r.depsToRemove.foldlM (fun uop x => uop.removeDependency x) entry.uop
    let entry := { entry with uop := uop, readyMax := r.readyMax }
    if uop.getDependenciesLength = 0 then .ok (r.rob, { entry with ready := entry.readyMax })
    else .ok (r.rob, entry)
  else .error .depsToRemove

/-- `lowestValidSequenceNumber`; the new entry is in the queue by then. -/
def lowestValid (s : Timer κ) : ℕ :=
  if s.rob.size = 0 then s.nextSequenceNumber else s.rob.frontSequenceNumber

/-- The first loop of `simulate`, for a micro-op that is not squashed. -/
def enter (s : Timer κ) (op : DynamicMicroOp) : Except Stop (Timer κ) :=
  if s.rob.size = config.windowSize + 255 then .error .queueFull
  else do
    let entry := RobEntry.init op s.nextSequenceNumber
    let entry ← setAddressProducers s.rob s.registerDependencies (lowestValid s) entry
    let (registers, uop) ← s.registerDependencies.setDependencies (lowestValid s) entry.uop
    let (memory, uop) ← s.memoryDependencies.setDependencies (lowestValid s) uop
    let uop ← if config.storeToLoadForwarding && uop.isLoad then forward s.rob uop else .ok uop
    let (rob, entry) ← link s.rob { entry with uop := uop }
    .ok { s with
      rob := rob.push entry
      nextSequenceNumber := s.nextSequenceNumber + 1
      registerDependencies := registers
      memoryDependencies := memory
      entered := s.entered ++ [op] }

/-- The first loop of `simulate`. -/
def enterAll (insts : List DynamicMicroOp) (s : Timer κ) : Except Stop (Timer κ) :=
  (insts.filter fun op => !op.squashed).foldlM (enter config) s

/-! ## Dispatch -/

/-- `findCpiComponent`: the entries before the first one that still executes are skipped. -/
def findCpiComponent (s : Timer κ) : List ℕ → Except Stop (Option CpiComponent)
  | [] => .ok none
  | i :: is => do
      let p ← s.rob.pointerAt i
      let entry := s.rob.slot p
      if entry.done < s.now then findCpiComponent s is
      else if entry.uop.microOp.serializing || entry.uop.microOp.membar then
        .ok (some .serialization)
      else if entry.uop.isLoad || entry.uop.isStore then
        .ok (some (.dataCache entry.uop.dCacheHitWhere))
      else .ok none

/-- The variables of the loop of `doDispatch`. -/
structure Dispatch (κ : Type) where
  timer : Timer κ
  uopsDispatched : ℕ
  nextEvent : Time
  cpiFrontEnd : Option CpiComponent

/-- The entry at `p` gets into the window. -/
def Timer.dispatch (p : ℕ) (s : Timer κ) : Timer κ :=
  { s with
    rob := s.rob.modify p fun e =>
      { e with dispatched := s.now, ready := max e.ready (s.now + s.period : ℕ) }
    numInRob := s.numInRob + 1
    rsEntriesUsed := s.rsEntriesUsed + 1 }

/-- A pass of this loop. -/
def dispatchBody (d : Dispatch κ) : Except Stop (Pass (Dispatch κ)) :=
  let s := d.timer
  if ¬ s.numInRob < config.windowSize then .ok (.stop d)
  else do
    let p ← s.rob.pointerAt s.numInRob
    let uop := (s.rob.slot p).uop
    if d.uopsDispatched = config.dispatchWidth then .ok (.stop d)
    else if uop.iCacheHitWhere ≠ .l1i ∧ s.inIcacheMiss = false then
      .ok (.stop { d with
        timer := { s with
          frontendStalledUntil := (s.now + uop.iCacheLatency * s.period : ℕ)
          inIcacheMiss := true }
        cpiFrontEnd := some (.instructionCache uop.iCacheHitWhere) })
    else
      let s := if uop.iCacheHitWhere ≠ .l1i then { s with inIcacheMiss := false } else s
      if s.rsEntriesUsed = config.rsEntries then
        .ok (.stop { d with timer := s, cpiFrontEnd := some .rsFull })
      else if config.assertSkip && s.willSkip then .error .skipped
      else
        let s := s.dispatch p
        let d := { d with
          timer := s
          uopsDispatched := d.uopsDispatched + 1
          nextEvent := min d.nextEvent (s.rob.slot p).ready }
        if uop.microOp.branch && uop.branchMispredicted then
          .ok (.stop { d with
            timer := { s with frontendStalledUntil := ⊤ }
            cpiFrontEnd := some .branchPredictor })
        else .ok (.next d)

/-- The first part of `doDispatch`: the front end. -/
def dispatchFrontEnd (s : Timer κ) : Except Stop (Dispatch κ) :=
  if s.frontendStalledUntil ≤ s.now then do
    let d ← loop (dispatchBody config) (config.windowSize + 1) ⟨s, 0, ⊤, none⟩
    .ok { d with timer := { d.timer with cpiCurrentFrontEndStall := d.cpiFrontEnd } }
  else .ok ⟨s, 0, ⊤, s.cpiCurrentFrontEndStall⟩

/-- The component that the cycle counts for. -/
def cpiComponent (s : Timer κ) (frontEnd robHead : Option CpiComponent) : CpiComponent :=
  match frontEnd with
  | some frontEnd => robHead.getD frontEnd
  | none => if s.numInRob = config.windowSize then robHead.getD .base else .base

/-- `doDispatch`, with the CPI component. -/
def doDispatch (s : Timer κ) : Except Stop (Timer κ × Time × CpiComponent) := do
  let d ← dispatchFrontEnd config s
  let s := d.timer
  let robHead ← findCpiComponent s (List.range s.numInRob)
  let nextEvent :=
    if s.numInRob = config.windowSize then d.nextEvent
    else min s.frontendStalledUntil d.nextEvent
  .ok (s, nextEvent, cpiComponent config s d.cpiFrontEnd robHead)

/-! ## Issue -/

/-- The access of a load or store that has not been made yet. -/
def accessMemory (uop : DynamicMicroOp) (s : Timer κ) : DynamicMicroOp × Timer κ :=
  if (uop.isLoad || uop.isStore) && uop.dCacheHitWhere = .unknown then
    let access : Access := ⟨uop.isLoad, uop.address, uop.microOp.memoryAccessSize,
      uop.microOp.instruction, s.now⟩
    let result := config.memory s.accesses access
    ({ uop with
        execLatency := (uop.execLatency + divideRounded result.1 s.period) % 2 ^ 32
        dCacheHitWhere := result.2 },
      { s with accesses := s.accesses ++ [access] })
  else (uop, s)

/-- The queue of loads or of stores. -/
def occupyQueue (uop : DynamicMicroOp) (s : Timer κ) : Timer κ :=
  let delay := uop.execLatency * s.period
  if uop.isLoad then { s with loadQueue := s.loadQueue.complete s.now delay uop.address }
  else if uop.isStore then { s with storeQueue := s.storeQueue.complete s.now delay uop.address }
  else s

/-- When the micro-op is issued and its result is available: at once for a store. -/
def issueTimes (uop : DynamicMicroOp) (s : Timer κ) : Issue where
  sequenceNumber := uop.sequenceNumber
  time := s.now
  cycleDepend := if uop.isStore then s.now + s.period else s.now + uop.execLatency * s.period
  cycleDone := s.now + uop.execLatency * s.period + s.period

/-- When the micro-op can be committed. -/
def doneTime (uop : DynamicMicroOp) (s : Timer κ) : ℕ :=
  if uop.isStore then s.now + s.period else s.now + uop.execLatency * s.period + s.period

/-- The part of `issueInstruction` before the loop over the dependants of the entry at `p`. -/
def Timer.issue (p : ℕ) (uop : DynamicMicroOp) (s : Timer κ) : Timer κ :=
  { s with
    rob := s.rob.modify p fun e => { e with uop := uop, issued := s.now, done := doneTime uop s }
    rsEntriesUsed := s.rsEntriesUsed - 1
    lastStoreDone :=
      if uop.isStore then max s.lastStoreDone (issueTimes uop s).cycleDone else s.lastStoreDone
    contention := match config.contention with
      | none => s.contention
      | some contention => contention.doIssue uop s.contention
    issues := s.issues ++ [issueTimes uop s] }

/-- A pass of the loop over the address producers of a dependant of the entry at `p`. -/
def produceAddress (rob : Rob) (p cycleDepend : ℕ) (r : Time × Bool) (addressProducer : ℕ) :
    Except Stop (Time × Bool) :=
  if rob.frontSequenceNumber ≤ addressProducer then do
    let producer ← rob.findEntryBySequenceNumber addressProducer
    .ok (if producer = p then max r.1 (cycleDepend : ℕ) else r.1,
      if (rob.slot producer).done = ⊤ then false else r.2)
  else .ok r

/-- A store among the dependants: is its address known? -/
def resolveAddress (rob : Rob) (p cycleDepend : ℕ) (dep : RobEntry) : Except Stop RobEntry :=
  if dep.uop.isStore ∧ dep.addressReady = ⊤ then do
    let (addressReadyMax, ready) ← dep.addressProducers.foldlM (produceAddress rob p cycleDepend)
      (dep.addressReadyMax, true)
    if ready then
      .ok { dep with addressReadyMax := addressReadyMax, addressReady := addressReadyMax }
    else .ok { dep with addressReadyMax := addressReadyMax }
  else .ok dep

/-- A pass of the loop over the dependants of the entry at `p`. -/
def wake (p : ℕ) (issue : Issue) (rob : Rob) (dependant : ℕ) : Except Stop Rob :=
  if rob.first ≤ dependant ∧ dependant < rob.entries.length then
    let dep := rob.slot dependant
    if dep.uop.getDependenciesLength = 0 then .error .noDependencies
    else do
      let readyMax := max dep.readyMax (issue.cycleDepend : ℕ)
      let uop ← dep.uop.removeDependency issue.sequenceNumber
      let ready := if uop.getDependenciesLength = 0 then readyMax else dep.ready
      let dep ← resolveAddress rob p issue.cycleDepend
        { dep with uop := uop, readyMax := readyMax, ready := ready }
      .ok (rob.modify dependant fun _ => dep)
  else .error .dangling

/-- When the front end goes on after a mispredicted branch; the penalty less two is a number of 64
bits. -/
def resumeTime (now period : ℕ) : ℕ :=
  if 2 ≤ config.mispredictionPenalty then now + (config.mispredictionPenalty - 2) * period
  else if (2 - config.mispredictionPenalty) * period ≤ now then
    now - (2 - config.mispredictionPenalty) * period
  else 2 ^ 64 + now - (2 - config.mispredictionPenalty) * period

/-- `issueInstruction`, for the entry at `p`, with `next_event`. -/
def issueInstruction (p : ℕ) (nextEvent : Time) (s : Timer κ) :
    Except Stop (Timer κ × Time) := do
  let entry := s.rob.slot p
  let (uop, s) := accessMemory config entry.uop s
  let s := occupyQueue uop s
  if uop.isStore ∧ ¬ entry.addressReady ≤ entry.ready then .error .addressNotReady
  else do
    let issue := issueTimes uop s
    let nextEvent := min nextEvent (doneTime uop s : ℕ)
    let s := s.issue config p uop
    let rob ← (s.rob.slot p).dependants.foldlM (wake p issue) s.rob
    let s := { s with rob := rob }
    if uop.microOp.branch && uop.branchMispredicted then
      .ok ({ s with frontendStalledUntil := (resumeTime config s.now s.period : ℕ) }, nextEvent)
    else .ok (s, nextEvent)

/-- The variables of the loop of `doIssue`. -/
structure Walk (κ : Type) where
  timer : Timer κ
  i : ℕ
  numIssued : ℕ
  nextEvent : Time
  headOfQueue : Bool
  noMoreLoad : Bool
  noMoreStore : Bool
  haveUnresolvedStore : Bool

/-- What the conditions before the structural hazards say. -/
inductive Verdict
  | blocked
  | membarBlocked
  | serializingBlocked
  | canIssue
  deriving DecidableEq

/-- The chain of conditions of `doIssue`. -/
def verdict (w : Walk κ) (entry : RobEntry) : Verdict :=
  let s := w.timer
  let uop := entry.uop
  if (s.now : Time) < entry.ready then .blocked
  else if (w.noMoreLoad && uop.isLoad) || (w.noMoreStore && uop.isStore) then .blocked
  else if uop.microOp.serializing then
    if w.headOfQueue && s.lastStoreDone ≤ s.now then .canIssue else .serializingBlocked
  else if uop.microOp.membar then
    if w.headOfQueue && s.lastStoreDone ≤ s.now then .canIssue else .membarBlocked
  else if config.contention.isNone && w.numIssued = config.dispatchWidth then .blocked
  else if uop.isLoad && !s.loadQueue.hasFreeSlot s.now then .blocked
  else if uop.isLoad && config.noAddressDisambiguation && w.haveUnresolvedStore then .blocked
  else if uop.isStore && (!w.headOfQueue || !s.storeQueue.hasFreeSlot s.now) then .blocked
  else .canIssue

/-- `tryIssue`, which already takes the port. -/
def tryIssue (uop : DynamicMicroOp) (s : Timer κ) : Bool × Timer κ :=
  match config.contention with
  | none => (true, s)
  | some contention =>
    let r := contention.tryIssue uop s.contention
    (r.1, { s with contention := r.2 })

/-- The end of a pass: nothing more can be issued in this cycle. -/
def endOfPass (w : Walk κ) : Pass (Walk κ) :=
  let noMore := match config.contention with
    | none => decide (w.numIssued = config.dispatchWidth)
    | some contention => contention.noMore w.timer.contention
  if noMore then .stop w else .next { w with i := w.i + 1 }

/-- The entry at `p` is not issued. -/
def leave (w : Walk κ) (entry : RobEntry) : Pass (Walk κ) :=
  let w := { w with
    headOfQueue := false
    haveUnresolvedStore :=
      w.haveUnresolvedStore || (entry.uop.isStore && (w.timer.now : Time) < entry.addressReady) }
  if config.inorder then .stop w else endOfPass config w

/-- A pass for the entry at `p`, which is not done. -/
def issueEntry (w : Walk κ) (p : ℕ) : Except Stop (Pass (Walk κ)) :=
  let entry := w.timer.rob.slot p
  let w := { w with nextEvent := min w.nextEvent entry.ready }
  match verdict config w entry with
  | .serializingBlocked => .ok (.stop w)
  | .blocked => .ok (leave config w entry)
  | .membarBlocked => .ok (leave config { w with noMoreLoad := true, noMoreStore := true } entry)
  | .canIssue => do
      let (gotPort, s) := tryIssue config entry.uop w.timer
      let w := { w with timer := s }
      if gotPort then do
        let (s, nextEvent) ← issueInstruction config p w.nextEvent w.timer
        if config.assertSkip && s.willSkip then .error .skipped
        else
          .ok (endOfPass config
            { w with timer := s, nextEvent := nextEvent, numIssued := w.numIssued + 1 })
      else .ok (leave config w entry)

/-- A pass of the loop of `doIssue`. -/
def issueBody (w : Walk κ) : Except Stop (Pass (Walk κ)) :=
  if ¬ w.i < w.timer.numInRob then .ok (.stop w)
  else do
    let p ← w.timer.rob.pointerAt w.i
    let entry := w.timer.rob.slot p
    if entry.done ≠ ⊤ then
      .ok (.next { w with i := w.i + 1, nextEvent := min w.nextEvent entry.done })
    else issueEntry config w p

/-- The walk at its start; the ports are free. -/
def Walk.start (s : Timer κ) : Walk κ where
  timer := { s with
    contention := match config.contention with
      | none => s.contention
      | some contention => contention.initCycle s.now s.period s.contention }
  i := 0
  numIssued := 0
  nextEvent := ⊤
  headOfQueue := true
  noMoreLoad := false
  noMoreStore := false
  haveUnresolvedStore := false

/-- `doIssue`. -/
def doIssue (s : Timer κ) : Except Stop (Timer κ × Time) := do
  let w ← loop (issueBody config) (s.numInRob + 1) (Walk.start config s)
  .ok (w.timer, w.nextEvent)

/-! ## Commit -/

/-- The variables of the loop of `doCommit`. -/
structure Committing (κ : Type) where
  timer : Timer κ
  instructionsExecuted : ℕ
  numCommitted : ℕ

/-- The entry at the front leaves the queue. -/
def Timer.commit (s : Timer κ) : Timer κ :=
  let entry := s.rob.slot s.rob.first
  { s with
    rob := s.rob.pop
    numInRob := s.numInRob - 1
    commits := s.commits ++
      [⟨entry.uop.sequenceNumber, entry.dispatched, entry.issued, entry.done, s.now⟩] }

/-- A pass of this loop. -/
def commitBody (c : Committing κ) : Except Stop (Pass (Committing κ)) :=
  let s := c.timer
  let entry := s.rob.slot s.rob.first
  if s.rob.size = 0 ∨ ¬ entry.done ≤ s.now then .ok (.stop c)
  else if config.assertSkip && s.willSkip then .error .skipped
  else
    let c : Committing κ :=
      ⟨s.commit, c.instructionsExecuted + if entry.uop.last then 1 else 0, c.numCommitted + 1⟩
    if c.numCommitted = config.commitWidth then .ok (.stop c) else .ok (.next c)

/-- `doCommit`, with the number of instructions executed. -/
def doCommit (s : Timer κ) : Except Stop (Timer κ × Time × ℕ) := do
  let c ← loop (commitBody config) (s.rob.size + 1) ⟨s, 0, 0⟩
  let s := c.timer
  .ok (s, if s.rob.size = 0 then ⊤ else (s.rob.slot s.rob.first).done, c.instructionsExecuted)

/-! ## A cycle -/

/-- The clock goes on to the next event; every cycle is simulated when the skipping is being checked. -/
def advance (nextEvent : Time) (component : CpiComponent) (s : Timer κ) : Timer κ × ℕ :=
  let willSkip := decide (nextEvent ≠ ⊤ ∧ (s.now + s.period : ℕ) < nextEvent)
  let skip := if willSkip then nextEvent.untopD 0 - s.now else s.period
  let latency := if config.assertSkip then s.period else skip
  let skipped :=
    if config.assertSkip then if willSkip then s.period else 0
    else if s.period < skip then skip - s.period else 0
  ({ s with
      willSkip := willSkip
      now := s.now + latency
      timeSkipped := s.timeSkipped + skipped
      cpi := Function.update s.cpi component (s.cpi component + latency) },
    latency)

/-- `execute`: what it returns are the number of instructions and the latency. -/
def execute (s : Timer κ) : Except Stop (Timer κ × ℕ × ℕ) :=
  if s.frontendStalledUntil ≤ s.now ∧ s.rob.size < s.numInRob + 2 * config.dispatchWidth then
    .ok (s, 0, 0)
  else do
    let (s, nextDispatch, component) ← doDispatch config s
    let (s, nextIssue) ← doIssue config s
    let (s, nextCommit, instructionsExecuted) ← doCommit config s
    let (s, latency) :=
      advance config (min nextDispatch (min nextIssue nextCommit)) component s
    .ok (s, instructionsExecuted, latency)

/-! ## Events -/

/-- A call of `simulate` and a round of its second loop; a call of `synchronize`; and a change of the
frequency. -/
inductive Event
  | simulate (insts : List DynamicMicroOp)
  | execute
  | synchronize (time : ℕ)
  | changePeriod (period : ℕ)

/-- A call of `simulate` returns when `execute` has returned no latency. -/
def finishRound (instructionsExecuted latency : ℕ) (s : Timer κ) : Timer κ :=
  let totalInsnExec := s.totalInsnExec + instructionsExecuted
  let totalLat := s.totalLat + latency
  if latency = 0 then
    { s with
      simulating := false
      totalInsnExec := totalInsnExec
      totalLat := totalLat
      returned := s.returned ++ [(totalInsnExec, totalLat)] }
  else { s with totalInsnExec := totalInsnExec, totalLat := totalLat }

/-- One event. A micro-op has no dependencies before it enters. -/
def step (e : Event) (s : Timer κ) : Except Stop (Timer κ) :=
  match e with
  | .simulate insts =>
    if s.simulating || insts.any fun op => !op.dependencies.isEmpty then .error .cannotOccur
    else enterAll config insts { s with simulating := true, totalInsnExec := 0, totalLat := 0 }
  | .execute =>
    if s.simulating then do
      let (s, instructionsExecuted, latency) ← execute config s
      .ok (finishRound instructionsExecuted latency s)
    else .error .cannotOccur
  | .synchronize time => if s.simulating then .error .cannotOccur else .ok { s with now := time }
  | .changePeriod period =>
    if period = 0 then .error .cannotOccur else .ok { s with period := period }

/-! ## A narrow core -/

/-- A core that dispatches one micro-op in a cycle, without ports. -/
def narrowConfig : Config Unit where
  dispatchWidth := 1
  commitWidth := 4
  windowSize := 16
  rsEntries := 16
  mispredictionPenalty := 8
  storeToLoadForwarding := true
  noAddressDisambiguation := true
  inorder := false
  outstandingLoads := 10
  outstandingStores := 10
  contention := none
  contentionStart := ()
  memory := fun _ _ => (3, .l1Own)
  assertSkip := false

/-- A micro-op that reads and writes registers. -/
def plainMicroOp (sources destinations : List ℕ) (latency : ℕ) (serializing : Bool) : DynamicMicroOp where
  microOp := ⟨.execute, sources, [], destinations, serializing, false, false, 0, 0⟩
  intraInstructionDependencies := 0
  microOpTypeOffset := 0
  sequenceNumber := 0
  dependencies := []
  address := 0
  squashed := false
  execLatency := latency
  branchMispredicted := false
  dCacheHitWhere := .unknown
  iCacheHitWhere := .l1i
  iCacheLatency := 0
  last := true

/-- A load or store. -/
def memoryMicroOp (uopType : UopType) (sources destinations : List ℕ) (address : ℕ) : DynamicMicroOp :=
  { plainMicroOp sources destinations 1 false with
    microOp := ⟨uopType, sources, [], destinations, false, false, false, 8, 0⟩
    address := address }

end GpuHotSpot.Common.RobTimer
