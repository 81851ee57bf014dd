import GpuHotSpot.Common.DependencyLists

/-!
# Squashed micro-ops

`common/performance_model/performance_models/micro_op_performance_model.cc`: the memory accesses of an
instruction are matched with its loads and stores, and a micro-op that touches a cache line again is
squashed. Afterwards the dependencies within the instruction are counted again, without the micro-ops
that are squashed.

* `SquashedAgain`: which micro-ops should be squashed.
* `DependenciesKept`, `Flagged`: what the micro-ops that survive should know.
-/

namespace GpuHotSpot.Common.UopSquashing

open Fallible
open RobTimer

/-- What is asserted of an instruction and its memory accesses. -/
inductive Failure
  | countMismatch
  | indexOutside
  | wrongType
  | dependencies
  | operandsLeft
  deriving DecidableEq

/-- `DynamicMicroOp`, with the members that squashing uses; `typeOffset` is the constant member of its
`MicroOp`. -/
structure Uop extends DynamicMicroOp where
  typeOffset : ℕ
  first : Bool
  squashedCount : ℕ
  deriving DecidableEq

def Uop.survives (u : Uop) : Bool := !u.squashed

/-! ## Decoding -/

/-- The micro-op at the index, as the decoder makes it: type, offset and dependencies. -/
def decodeUop (numLoads numExecs numStores : ℕ) (details : DynamicMicroOp) (index : ℕ) : Uop :=
  let (uopType, offset, dependencies) :=
    if index < numLoads then (UopType.load, index, 0)
    else if index < numLoads + numExecs then (UopType.execute, index - numLoads, numLoads)
    else (UopType.store, index - numLoads - numExecs, numExecs)
  { details with
    microOp := { details.microOp with uopType := uopType }
    intraInstructionDependencies := dependencies
    microOpTypeOffset := offset
    dependencies := []
    squashed := false
    last := index + 1 = numLoads + numExecs + numStores
    typeOffset := offset
    first := index = 0
    squashedCount := 0 }

/-- An instruction without any micro-op gets one that executes. -/
def execsOf (numLoads numExecs numStores : ℕ) : ℕ :=
  if numLoads + numExecs + numStores = 0 then 1 else numExecs

/-- The micro-ops of an instruction; `details` has the rest of their members. -/
def decode (details : ℕ → DynamicMicroOp) (numLoads numExecs numStores : ℕ) : List Uop :=
  (List.range (numLoads + execsOf numLoads numExecs numStores + numStores)).map fun index =>
    decodeUop numLoads (execsOf numLoads numExecs numStores) numStores (details index) index

/-! ## Accesses -/

inductive Direction
  | read | write
  deriving DecidableEq

/-- `MemoryInfo` of an operand, with its latency in cycles. -/
structure MemoryInfo where
  dir : Direction
  addr : ℕ
  latency : ℕ
  hitWhere : HitWhere

/-- `info.addr & ~63`. -/
def cacheLine (addr : ℕ) : ℕ := addr / 64 * 64

/-- The first micro-op of the list that is not squashed is marked. -/
def markFirst (mark : Uop → Uop) : List Uop → List Uop
  | [] => []
  | u :: us => if u.squashed then u :: markFirst mark us else mark u :: us

/-- The same from the end of the list. -/
def markLast (mark : Uop → Uop) (us : List Uop) : List Uop := (markFirst mark us.reverse).reverse

/-- `squash` of the micro-op at the index. -/
def squash (index : ℕ) (us : List Uop) : List Uop :=
  markLast (fun u => { u with last := true }) (markFirst (fun u => { u with first := true })
    (us.modify index fun u => { u with squashed := true }))

/-- The variables of the loop over the operands. -/
structure Progress where
  currentUops : List Uop
  cacheLinesRead : List ℕ
  cacheLinesWritten : List ℕ
  numReadsDone : ℕ
  numWritesDone : ℕ
  doSquashing : Bool

section Accesses

variable (bypass : DynamicMicroOp → ℕ)

/-- The latency, address and place of an access. -/
def complete (info : MemoryInfo) (u : Uop) : Uop :=
  { u with
    execLatency := info.latency + bypass u.toDynamicMicroOp
    address := info.addr
    dCacheHitWhere := info.hitWhere }

/-- An access of the micro-op at `base + done`, which must be of the type; the micro-ops afterwards, and
whether one was squashed. -/
def access (uopType : UopType) (base : Option ℕ) (done : ℕ) (lines : List ℕ) (info : MemoryInfo)
    (us : List Uop) : Except Failure (List Uop × Bool) :=
  match base with
  | none => .error .countMismatch
  | some base =>
    match us[base + done]? with
    | none => .error .indexOutside
    | some u =>
      if u.microOp.uopType ≠ uopType then .error .wrongType
      else
        let again := decide (cacheLine info.addr ∈ lines)
        let us := if again then squash (base + done) us else us
        .ok (us.modify (base + done) (complete bypass info), again)

/-- One memory operand. -/
def operand (loadBase storeBase : Option ℕ) (p : Progress) (info : MemoryInfo) :
    Except Failure Progress :=
  match info.dir with
  | .read => do
      let (us, again) ←
        access bypass .load loadBase p.numReadsDone p.cacheLinesRead info p.currentUops
      .ok { p with
        currentUops := us
        cacheLinesRead := p.cacheLinesRead ++ [cacheLine info.addr]
        numReadsDone := p.numReadsDone + 1
        doSquashing := p.doSquashing || again }
  | .write => do
      let (us, again) ←
        access bypass .store storeBase p.numWritesDone p.cacheLinesWritten info p.currentUops
      .ok { p with
        currentUops := us
        cacheLinesWritten := p.cacheLinesWritten ++ [cacheLine info.addr]
        numWritesDone := p.numWritesDone + 1
        doSquashing := p.doSquashing || again }

/-! ## Counting again -/

/-- The first loop of `doSquashing`: offsets among the micro-ops of a type that are not squashed, and
the numbers of those that are. -/
def recount (squashedCount : ℕ) (uopType : UopType) (offset : ℕ) : List Uop → List Uop
  | [] => []
  | u :: us =>
    if u.squashed then
      { u with squashedCount := squashedCount + 1 } :: recount (squashedCount + 1) uopType offset us
    else
      let offset := if u.microOp.uopType ≠ uopType then 0 else offset
      { u with microOpTypeOffset := offset, squashedCount := squashedCount } ::
        recount squashedCount u.microOp.uopType (offset + 1) us

/-- The second loop, for one micro-op. -/
def redepend (us : List Uop) (i : ℕ) (u : Uop) : Except Failure Uop :=
  if u.squashed ∨ u.intraInstructionDependencies = 0 then .ok u
  else
    let iBase := i - u.typeOffset
    if iBase < u.intraInstructionDependencies then .error .dependencies
    else
      match us[iBase]?, us[iBase - u.intraInstructionDependencies]? with
      | some b, some d => .ok { u with
          intraInstructionDependencies :=
            u.intraInstructionDependencies - (b.squashedCount - d.squashedCount) }
      | _, _ => .error .indexOutside

/-- `doSquashing`. -/
def doSquashing (us : List Uop) : Except Failure (List Uop) :=
  (recount 0 .invalid 0 us).zipIdx.mapM fun (u, i) => redepend (recount 0 .invalid 0 us) i u

/-- The micro-ops after the loop over the operands, counted again if one was squashed. -/
def Progress.finish (p : Progress) : Except Failure (List Uop) :=
  if p.doSquashing then UopSquashing.doSquashing p.currentUops else .ok p.currentUops

/-- `handleInstruction`, from the micro-ops of the instruction and its memory operands on. -/
def handleInstruction (currentUops : List Uop) (infos : List MemoryInfo) :
    Except Failure (List Uop) := do
  let loadBase := currentUops.findIdx? fun u => u.isLoad
  let storeBase := currentUops.findIdx? fun u => u.isStore
  let p ← infos.foldlM (operand bypass loadBase storeBase) ⟨currentUops, [], [], 0, 0, false⟩
  let us ← p.finish
  if p.numReadsDone = currentUops.countP (·.isLoad) ∧
      p.numWritesDone = currentUops.countP (·.isStore) then
    .ok us
  else .error .operandsLeft

end Accesses

/-! ## What should hold -/

/-- The cache lines that the operands of a direction touch. -/
def linesOf (dir : Direction) (infos : List MemoryInfo) : List ℕ :=
  (infos.filter fun info => info.dir = dir).map fun info => cacheLine info.addr

/-- The line at the index was touched before. -/
def TouchedAgain (lines : List ℕ) (k : ℕ) : Prop := ∃ line ∈ lines.take k, lines[k]? = some line

/-- **What is squashed**: the loads whose operand reads a line that an operand before it reads, and the
stores whose operand writes a line that one before it writes. -/
def SquashedAgain (infos : List MemoryInfo) (original us : List Uop) : Prop :=
  ∀ (i : ℕ) (u v : Uop), original[i]? = some u → us[i]? = some v →
    (v.squashed = true ↔
      u.isLoad = true ∧ TouchedAgain (linesOf .read infos) u.microOpTypeOffset ∨
        u.isStore = true ∧ TouchedAgain (linesOf .write infos) u.microOpTypeOffset)

/-- How many of the first `i` micro-ops survive. -/
def rank (us : List Uop) (i : ℕ) : ℕ := (us.take i).countP Uop.survives

/-- The micro-op at the index survives. -/
def survivesAt (us : List Uop) (i : ℕ) : Bool := us[i]?.any Uop.survives

/-- The micro-op at the index, with its number when those that survive get consecutive numbers. -/
def numbered (base : ℕ) (us : List Uop) (i : ℕ) (v : Uop) : DynamicMicroOp :=
  { v.toDynamicMicroOp with sequenceNumber := base + rank us i }

/-- The micro-ops that survive depend on those that survive among their dependencies within the
instruction. -/
def DependenciesKept (original us : List Uop) : Prop :=
  ∀ base i u v, original[i]? = some u → us[i]? = some v → v.survives = true →
    (numbered base us i v).getDependencies =
      .ok (((List.range' (i - u.microOpTypeOffset - u.intraInstructionDependencies)
        u.intraInstructionDependencies).filter (survivesAt us)).map (base + rank us ·))

/-- The oldest micro-op that survives is the only one of them that is marked as the first one, and the
youngest one the only one that is marked as the last one. -/
structure Flagged (us : List Uop) : Prop where
  remaining : ∃ i, survivesAt us i = true
  first : ∀ i v, us[i]? = some v → v.survives = true →
    (v.first = true ↔ ∀ j < i, survivesAt us j = false)
  last : ∀ i v, us[i]? = some v → v.survives = true →
    (v.last = true ↔ ∀ j > i, survivesAt us j = false)

end GpuHotSpot.Common.UopSquashing
