import Mathlib.Data.Finset.Insert
import Mathlib.Data.Finset.Union

/-!
# The simulation loop

`gpu-simulator/accel-sim.cc`: commands are read into a window of kernels, every
kernel of the window whose stream is free is launched, the core runs until it
reports a finished kernel or is idle, and finished kernels leave the window.

GPGPU-Sim's core is not part of this repository. `GpgpuSim` is what the loop uses
of it, for a core of any behaviour.
-/

namespace GpuHotSpot.GpuSimulator

/-! ## The core -/

/-- A GPGPU-Sim core as the loop uses it. `launched`, `finished` and `reported` are the views the
assumptions speak of: only launched kernels finish, only finished kernels are reported and each
once, no launched kernel still runs when the core is inactive, and the cycle limit is never hit. -/
structure GpgpuSim where
  State : Type
  init : State
  canStartKernel : State → Bool
  active : State → Bool
  cycleInsnCtaMaxHit : State → Bool
  launch : State → ℕ → State
  cycle : State → State
  finishedKernel : State → ℕ × State
  perfMemcpyToGpu : State → ℕ → ℕ → State
  launched : State → Finset ℕ
  finished : State → Finset ℕ
  reported : State → Finset ℕ
  launched_init : launched init = ∅
  finished_init : finished init = ∅
  launched_launch : ∀ s uid, launched (launch s uid) = insert uid (launched s)
  finished_launch : ∀ s uid, finished (launch s uid) = finished s
  launched_cycle : ∀ s, launched (cycle s) = launched s
  finished_cycle : ∀ s, finished s ⊆ finished (cycle s)
  finished_cycle_launched : ∀ s, finished (cycle s) ⊆ finished s ∪ launched s
  launched_finishedKernel : ∀ s, launched (finishedKernel s).2 = launched s
  finished_finishedKernel : ∀ s, finished (finishedKernel s).2 = finished s
  launched_perfMemcpyToGpu : ∀ s address count, launched (perfMemcpyToGpu s address count) = launched s
  finished_perfMemcpyToGpu : ∀ s address count, finished (perfMemcpyToGpu s address count) = finished s
  finishedKernel_finished : ∀ s, (finishedKernel s).1 ≠ 0 → (finishedKernel s).1 ∈ finished s
  finishedKernel_once : ∀ s, (finishedKernel s).1 ≠ 0 → (finishedKernel s).1 ∉ reported s
  reported_finishedKernel : ∀ s, (finishedKernel s).1 ≠ 0 →
    reported (finishedKernel s).2 = insert (finishedKernel s).1 (reported s)
  idle : ∀ s, active s = false → launched s ⊆ finished s
  limit_never_hit : ∀ s, cycleInsnCtaMaxHit s = false

/-! ## The framework -/

/-- `trace_command`, with what the trace header says of a kernel. -/
inductive TraceCommand
  | cpuGpuMemCopy (addre bcount : ℕ)
  | kernelLaunch (cudaStreamId : ℕ)
  deriving DecidableEq

/-- `trace_kernel_info_t`. GPGPU-Sim numbers kernels from 1 as they are made. -/
structure KernelInfo where
  uid : ℕ
  cudaStreamId : ℕ
  wasLaunched : Bool
  deriving DecidableEq

/-- `set_launched`. -/
def KernelInfo.setLaunched (k : KernelInfo) : KernelInfo := { k with wasLaunched := true }

variable {sim : GpgpuSim}

/-- `accel_sim_framework`, with the number the next kernel will get. -/
@[ext]
structure Framework (sim : GpgpuSim) where
  commandlistIndex : ℕ
  kernelsInfo : List KernelInfo
  busyStreams : List ℕ
  nextUid : ℕ
  gpgpuSim : sim.State

/-- `init`. -/
def Framework.init : Framework sim := ⟨0, [], [], 1, sim.init⟩

/-- What the loop does to a kernel, and the core in which it does it. -/
inductive Event (sim : GpgpuSim)
  | launched (k : KernelInfo) (core : sim.State)
  | removed (k : KernelInfo) (core : sim.State)

/-- A pass of the loop of `parse_commandlist`. -/
def Framework.command (f : Framework sim) : TraceCommand → Framework sim
  | .cpuGpuMemCopy addre bcount => { f with
      gpgpuSim := sim.perfMemcpyToGpu f.gpgpuSim addre bcount
      commandlistIndex := f.commandlistIndex + 1 }
  | .kernelLaunch cudaStreamId => { f with
      kernelsInfo := f.kernelsInfo ++ [⟨f.nextUid, cudaStreamId, false⟩]
      nextUid := f.nextUid + 1
      commandlistIndex := f.commandlistIndex + 1 }

/-- The loop of `parse_commandlist` over the commands left. -/
def parseCommands (windowSize : ℕ) : List TraceCommand → Framework sim → Framework sim
  | [], f => f
  | command :: commands, f =>
    if f.kernelsInfo.length < windowSize then
      parseCommands windowSize commands (f.command command)
    else f

/-- `parse_commandlist`. -/
def Framework.parseCommandlist (commandlist : List TraceCommand) (windowSize : ℕ)
    (f : Framework sim) : Framework sim :=
  parseCommands windowSize (commandlist.drop f.commandlistIndex) f

/-- The condition under which the loop launches a kernel. -/
def startable (core : sim.State) (busyStreams : List ℕ) (k : KernelInfo) : Bool :=
  !busyStreams.contains k.cudaStreamId && sim.canStartKernel core && !k.wasLaunched

/-- The loop that launches kernels: the window, the busy streams and the core behind it, and what
it did. -/
def launchFrom (core : sim.State) (busyStreams : List ℕ) :
    List KernelInfo → List KernelInfo × List ℕ × sim.State × List (Event sim)
  | [] => ([], busyStreams, core, [])
  | k :: kernels =>
    if startable core busyStreams k then
      let (rest, busy, core', events) :=
        launchFrom (sim.launch core k.uid) (busyStreams ++ [k.cudaStreamId]) kernels
      (k.setLaunched :: rest, busy, core', .launched k core :: events)
    else
      let (rest, busy, core', events) := launchFrom core busyStreams kernels
      (k :: rest, busy, core', events)

/-- The first half of a pass of `simulation_loop`: commands are read and kernels launched. -/
def Framework.launchKernels (commandlist : List TraceCommand) (windowSize : ℕ)
    (f : Framework sim) : Framework sim × List (Event sim) :=
  let g := f.parseCommandlist commandlist windowSize
  let (kernels, busy, core, events) := launchFrom g.gpgpuSim g.busyStreams g.kernelsInfo
  ({ g with kernelsInfo := kernels, busyStreams := busy, gpgpuSim := core }, events)

/-- `simulate`: the kernel reported finished, 0 for none, and the core; `none` if the core still
runs after that many cycles. The loop asks whether the core is active before it cycles, so the
branch that stops all kernels is never taken. -/
def simulate : ℕ → sim.State → Option (ℕ × sim.State)
  | 0, _ => none
  | cycles + 1, core =>
    if !sim.active core then some (0, core)
    else
      let core := sim.cycle core
      let active := sim.active core
      let (finishedKernelUid, core) := sim.finishedKernel core
      if active && finishedKernelUid = 0 then simulate cycles core
      else some (finishedKernelUid, core)

/-- The loop of `cleanup` from index `j`: the window and the busy streams behind it, and what it
did. Where a kernel is erased, the next one takes its index and `j++` passes over it. -/
def cleanupFrom (core : sim.State) (finishedKernel j : ℕ) (kernelsInfo : List KernelInfo)
    (busyStreams : List ℕ) : List KernelInfo × List ℕ × List (Event sim) :=
  if inRange : j < kernelsInfo.length then
    if kernelsInfo[j].uid = finishedKernel || sim.cycleInsnCtaMaxHit core || !sim.active core then
      if !sim.cycleInsnCtaMaxHit core && sim.active core then
        (kernelsInfo.eraseIdx j, busyStreams.erase kernelsInfo[j].cudaStreamId,
          [.removed kernelsInfo[j] core])
      else
        let (kernels, busy, events) := cleanupFrom core finishedKernel (j + 1)
          (kernelsInfo.eraseIdx j) (busyStreams.erase kernelsInfo[j].cudaStreamId)
        (kernels, busy, .removed kernelsInfo[j] core :: events)
    else cleanupFrom core finishedKernel (j + 1) kernelsInfo busyStreams
  else (kernelsInfo, busyStreams, [])
termination_by kernelsInfo.length - j
decreasing_by
  · rw [List.length_eraseIdx_of_lt inRange]
    omega
  · omega

/-- `cleanup`. An empty window leaves `k` null and fails the assertion. -/
def Framework.cleanup (f : Framework sim) (finishedKernel : ℕ) :
    Option (Framework sim × List (Event sim)) :=
  if f.kernelsInfo = [] then none
  else
    let (kernels, busy, events) :=
      cleanupFrom f.gpgpuSim finishedKernel 0 f.kernelsInfo f.busyStreams
    some ({ f with kernelsInfo := kernels, busyStreams := busy }, events)

/-- The second half of a pass: the core runs for at most that many cycles, and `cleanup` follows
if there is something to clean up. -/
def Framework.simulateAndCleanup (cycles : ℕ) (f : Framework sim) :
    Option (Framework sim × List (Event sim)) :=
  (simulate cycles f.gpgpuSim).bind fun (finishedKernelUid, core) =>
    let g := { f with gpgpuSim := core }
    if finishedKernelUid ≠ 0 || sim.cycleInsnCtaMaxHit core || !sim.active core then
      g.cleanup finishedKernelUid
    else some (g, [])

/-- The condition of the loop of `simulation_loop`. -/
def Framework.Unfinished (commandlist : List TraceCommand) (f : Framework sim) : Prop :=
  f.commandlistIndex < commandlist.length ∨ f.kernelsInfo ≠ []

/-- Where a pass of the loop stands. -/
inductive Point
  | head
  | launched

/-- **Runs of `simulation_loop`**: where the loop stands, the framework there, everything it has
done, and the framework of every pass in front of its second half. -/
inductive Run (sim : GpgpuSim) (commandlist : List TraceCommand) (windowSize : ℕ) :
    Point → Framework sim → List (Event sim) → List (Framework sim) → Prop
  | start : Run sim commandlist windowSize .head .init [] []
  | launch {f : Framework sim} {events : List (Event sim)} {passes : List (Framework sim)} :
    Run sim commandlist windowSize .head f events passes → f.Unfinished commandlist →
    Run sim commandlist windowSize .launched (f.launchKernels commandlist windowSize).1
      (events ++ (f.launchKernels commandlist windowSize).2) passes
  | finish {f f' : Framework sim} {events done : List (Event sim)} {passes : List (Framework sim)}
      {cycles : ℕ} :
    Run sim commandlist windowSize .launched f events passes →
    f.simulateAndCleanup cycles = some (f', done) →
    Run sim commandlist windowSize .head f' (events ++ done) (passes ++ [f])

end GpuHotSpot.GpuSimulator
