import GpuHotSpot.Lib.Machine
import Mathlib.Data.List.Range
import Mathlib.Logic.Function.Basic

/-!
# Micro-operations and their dependencies

`common/performance_model/performance_models/micro_op`: `micro_op.h`, `dynamic_micro_op.cc`,
`register_dependencies.cc` and `memory_dependencies.cc`. A micro-op of the reorder buffer has a
sequence number, and its dependencies are the sequence numbers of earlier ones: those of its own
instruction are a range, the others are in an array.

* `addDependency`, `removeDependency`, `getDependencies`: the list of dependencies.
-/

namespace GpuHotSpot.Common.RobTimer

open Fallible

/-- The assertions that may fail, a pointer to a slot that is no longer in use, a write past the end
of `deps_to_remove`, and an event that cannot occur. -/
inductive Stop
  | queueFull
  | outsideQueue
  | tooManyDependencies
  | dependenciesOverflow
  | notIntraInstruction
  | notADependency
  | noDependencies
  | depsToRemove
  | addressNotReady
  | dangling
  | skipped
  | cannotOccur
  deriving DecidableEq

/-- `HitWhere::where_t`. -/
inductive HitWhere
  | whereFirst | l1i | l1Own | l2Own | l3Own | l4Own | miss | nucaCache | dramCache | dram
  | dramLocal | dramRemote | cacheRemote | sibling | l1Sibling | l2Sibling | l3Sibling | l4Sibling
  | unknown | predicateFalse | prefetchNoMapping
  deriving DecidableEq

inductive UopType
  | invalid | load | execute | store
  deriving DecidableEq

/-- `MicroOp`: what the decoder knows. -/
structure MicroOp where
  uopType : UopType
  sourceRegisters : List ℕ
  addressRegisters : List ℕ
  destinationRegisters : List ℕ
  serializing : Bool
  branch : Bool
  membar : Bool
  memoryAccessSize : ℕ
  instruction : ℕ
  deriving DecidableEq

/-- `DynamicMicroOp`; the first two of its numbers are copied from the micro-op and changed when
micro-ops of the instruction are squashed. -/
structure DynamicMicroOp where
  microOp : MicroOp
  intraInstructionDependencies : ℕ
  microOpTypeOffset : ℕ
  sequenceNumber : ℕ
  dependencies : List ℕ
  address : ℕ
  squashed : Bool
  execLatency : ℕ
  branchMispredicted : Bool
  dCacheHitWhere : HitWhere
  iCacheHitWhere : HitWhere
  iCacheLatency : ℕ
  last : Bool
  deriving DecidableEq

/-- `MAXIMUM_NUMBER_OF_DEPENDENCIES`. -/
def maximumNumberOfDependencies : ℕ := 3 + 11

namespace DynamicMicroOp

variable (x : ℕ) (u : DynamicMicroOp)

def isLoad : Bool := u.microOp.uopType = .load

def isStore : Bool := u.microOp.uopType = .store

/-- The number of the first micro-op that this one depends on within its instruction, if the
instruction has such a micro-op; `removeDependency` and `getDependency` subtract in 64 bits. -/
def firstIntra : ℕ := u.sequenceNumber - u.microOpTypeOffset - u.intraInstructionDependencies

def WithinInstruction : Prop :=
  u.microOpTypeOffset + u.intraInstructionDependencies ≤ u.sequenceNumber

instance : Decidable u.WithinInstruction := inferInstanceAs (Decidable (_ ≤ _))

def getDependenciesLength : ℕ := u.intraInstructionDependencies + u.dependencies.length

/-- The sequence numbers that `getDependency` returns. -/
def allDependencies : List ℕ :=
  (List.range u.intraInstructionDependencies).map (u.firstIntra + ·) ++ u.dependencies

/-- `getDependency` for each index. A number below zero wraps around, and is in no queue. -/
def getDependencies : Except Stop (List ℕ) :=
  if u.intraInstructionDependencies ≠ 0 ∧ ¬ u.WithinInstruction then .error .outsideQueue
  else .ok u.allDependencies

/-- `addDependency`. -/
def addDependency : Except Stop DynamicMicroOp :=
  if x ∈ u.dependencies then .ok u
  else if u.dependencies.length < maximumNumberOfDependencies then
    .ok { u with dependencies := u.dependencies ++ [x] }
  else .error .tooManyDependencies

/-- The loop of `removeDependency` over the dependencies within the instruction: those before `x` move
to the array. -/
def removeIntra (first : ℕ) : ℕ → List ℕ → Except Stop (ℕ × List ℕ)
  | 0, _ => .error .notIntraInstruction
  | n + 1, dependencies =>
    if x = first then .ok (n, dependencies)
    else if (dependencies ++ [first]).length < maximumNumberOfDependencies then
      removeIntra (first + 1) n (dependencies ++ [first])
    else .error .dependenciesOverflow

/-- The other case of `removeDependency`: `x` is put at the end of the array and cut off. -/
def removeRegular (dependencies : List ℕ) : Except Stop (List ℕ) :=
  match dependencies.getLast? with
  | none => .error .notADependency
  | some last =>
    if last = x then .ok dependencies.dropLast
    else if x ∈ dependencies then .ok (dependencies.set (dependencies.idxOf x) last).dropLast
    else .error .notADependency

/-- `removeDependency`. -/
def removeDependency : Except Stop DynamicMicroOp :=
  if u.WithinInstruction ∧ u.firstIntra ≤ x then do
    let (n, dependencies) ← removeIntra x u.firstIntra u.intraInstructionDependencies u.dependencies
    .ok { u with intraInstructionDependencies := n, dependencies := dependencies }
  else do
    let dependencies ← removeRegular x u.dependencies
    .ok { u with dependencies := dependencies }

end DynamicMicroOp

/-! ## Producers -/

/-- `RegisterDependencies`: who last wrote each register. -/
abbrev RegisterDependencies := ℕ → Option ℕ

namespace RegisterDependencies

/-- A source register; a producer that has left the window is forgotten. -/
def addSource (lowestValid : ℕ) (r : RegisterDependencies × DynamicMicroOp) (source : ℕ) :
    Except Stop (RegisterDependencies × DynamicMicroOp) :=
  match r.1 source with
  | none => .ok r
  | some producer =>
    if lowestValid ≤ producer then do
      let u ← r.2.addDependency producer
      .ok (r.1, u)
    else .ok (Function.update r.1 source none, r.2)

/-- `RegisterDependencies::setDependencies`. -/
def setDependencies (lowestValid : ℕ) (producers : RegisterDependencies) (u : DynamicMicroOp) :
    Except Stop (RegisterDependencies × DynamicMicroOp) := do
  let (producers, u) ← u.microOp.sourceRegisters.foldlM (addSource lowestValid) (producers, u)
  .ok (u.microOp.destinationRegisters.foldl
    (fun producers destination => Function.update producers destination (some u.sequenceNumber))
    producers, u)

/-- `RegisterDependencies::peekProducer`. -/
def peekProducer (register lowestValid : ℕ) (producers : RegisterDependencies) : Option ℕ :=
  (producers register).filter (lowestValid ≤ ·)

end RegisterDependencies

/-- `MemoryDependencies`: the stores of the window, each with its address, and the last barrier. -/
structure MemoryDependencies where
  producers : List (ℕ × ℕ)
  membar : Option ℕ

namespace MemoryDependencies

def start : MemoryDependencies := ⟨[], none⟩

/-- `MemoryDependencies::add`; the queue has room for 1024 elements. -/
def add (sequenceNumber address : ℕ) (m : MemoryDependencies) : Except Stop MemoryDependencies :=
  if m.producers.length < 1024 then
    .ok { m with producers := m.producers ++ [(sequenceNumber, address)] }
  else .error .queueFull

/-- `MemoryDependencies::find`. -/
def find (address : ℕ) (m : MemoryDependencies) : Option ℕ :=
  (m.producers.reverse.find? fun p => p.2 = address).map Prod.fst

/-- `MemoryDependencies::clean`. -/
def clean (lowestValid : ℕ) (m : MemoryDependencies) : MemoryDependencies :=
  { m with producers := m.producers.dropWhile fun p => p.1 < lowestValid }

/-- The dependency on the last barrier. -/
def addMembar (lowestValid : ℕ) (m : MemoryDependencies) (u : DynamicMicroOp) :
    Except Stop DynamicMicroOp :=
  match m.membar with
  | none => .ok u
  | some membar => if lowestValid < membar then u.addDependency membar else .ok u

/-- `MemoryDependencies::setDependencies`. -/
def setDependencies (lowestValid : ℕ) (m : MemoryDependencies) (u : DynamicMicroOp) :
    Except Stop (MemoryDependencies × DynamicMicroOp) :=
  let m := m.clean lowestValid
  if u.isLoad then do
    let u ← match m.find u.address with
      | none => .ok u
      | some producer => u.addDependency producer
    let u ← m.addMembar lowestValid u
    .ok (m, u)
  else if u.isStore then do
    let m ← m.add u.sequenceNumber u.address
    let u ← m.addMembar lowestValid u
    .ok (m, u)
  else if u.microOp.membar then do
    let u ← m.addMembar lowestValid u
    .ok ({ m with membar := some u.sequenceNumber }, u)
  else .ok (m, u)

end MemoryDependencies

end GpuHotSpot.Common.RobTimer
