import Mathlib.Data.List.Induction
import Mathlib.Data.Nat.Bitwise
import Mathlib.Data.Nat.Log
import Mathlib.Algebra.BigOperators.Group.List.Basic
import Mathlib.Logic.Function.Basic
import Mathlib.Tactic.Ring

/-!
# Access counts of the memory banks

`common/core/memory_subsystem/pr_l1_pr_l2_dram_directory_msi/dram_trace_collect.cc`: each
read and each write that reaches the memory is counted in its bank, apart in low power
mode, and the counts of an epoch are pushed to `rdt` or `wrt` when it is over.

The access that closes an epoch is counted nowhere, and a write is counted in the power
mode of the bank that was read last.

* `bankAccessed_lt`: no access leaves the arrays.
* `accessTrace_counts_iff`: when a call counts its access.
* `counted_iff`: when every access of a run is counted.
-/

namespace GpuHotSpot.Common.DramTrace

def maxNumOfBanks : ℕ := 128
def accumulationTime : ℕ := 1000

/-! ## Configuration and banks -/

/-- `memory/type_of_stack`. -/
inductive StackType where
  | threeDMem | twoPointFiveD | threeD | ddr | other
  deriving DecidableEq

/-- `LOW_POWER` and `NORMAL_POWER`. -/
inductive PowerMode where
  | lowPower | normalPower
  deriving DecidableEq

/-- The memory section of a configuration. The banks fit the arrays, and their bits an `int`. -/
structure MemoryConfig where
  typeOfStack : StackType
  numOfChannels : ℕ
  numOfBanks : ℕ
  bankOffsetInPa : ℕ
  channels_pos : 0 < numOfChannels
  channels_le : numOfChannels ≤ numOfBanks
  banks_le : numOfBanks ≤ maxNumOfBanks
  mask_fits : Nat.log 2 numOfBanks + bankOffsetInPa < 32

namespace MemoryConfig

variable (c : MemoryConfig)

def bankAddressBits : ℕ := Nat.log 2 c.numOfBanks

def banksPerLayer : ℕ := if c.typeOfStack = .ddr then c.numOfBanks else c.numOfChannels

def banksPerChannel : ℕ := c.numOfBanks / c.numOfChannels - 1

def bankMask : ℕ := (1 <<< c.bankAddressBits - 1) <<< c.bankOffsetInPa

/-- The bank of an access, `none` where the type of the stack ends the program. The channels take
turns. -/
def bankAccessed (address mcpFlag : ℕ) : Option ℕ :=
  match c.typeOfStack with
  | .threeDMem | .twoPointFiveD | .threeD =>
    some ((((address &&& c.bankMask) >>> c.bankOffsetInPa) &&& c.banksPerChannel) *
      c.banksPerLayer + mcpFlag % c.numOfChannels)
  | .ddr => some ((address &&& c.bankMask) >>> c.bankOffsetInPa)
  | .other => none

/-- `MCP_FLAG` after an access. -/
def nextMcpFlag (mcpFlag : ℕ) : ℕ :=
  match c.typeOfStack with
  | .ddr | .other => mcpFlag
  | _ => if mcpFlag + 1 = c.numOfChannels then 0 else mcpFlag + 1

variable {c} {address mcpFlag bank : ℕ}

theorem bankBits_lt : (address &&& c.bankMask) >>> c.bankOffsetInPa < c.numOfBanks := by
  have banks : c.numOfBanks ≠ 0 := (c.channels_pos.trans_le c.channels_le).ne'
  have bits : 2 ^ c.bankAddressBits ≤ c.numOfBanks := Nat.pow_log_le_self 2 banks
  refine lt_of_lt_of_le ?_ bits
  rw [Nat.shiftRight_and_distrib, bankMask, Nat.shiftLeft_shiftRight, Nat.one_shiftLeft]
  exact Nat.and_lt_two_pow _ (Nat.sub_lt (Nat.two_pow_pos _) one_pos)

/-- No access leaves the arrays. -/
theorem bankAccessed_lt (accessed : c.bankAccessed address mcpFlag = some bank) :
    bank < c.numOfBanks := by
  have interleaved : c.typeOfStack ≠ .ddr →
      (((address &&& c.bankMask) >>> c.bankOffsetInPa) &&& c.banksPerChannel) *
        c.banksPerLayer + mcpFlag % c.numOfChannels < c.numOfBanks := by
    intro apart
    rw [banksPerLayer, if_neg apart]
    have channel := Nat.mod_lt mcpFlag c.channels_pos
    have layer : ((address &&& c.bankMask) >>> c.bankOffsetInPa) &&& c.banksPerChannel ≤
        c.banksPerChannel := Nat.and_le_right
    have layers : c.banksPerChannel + 1 = c.numOfBanks / c.numOfChannels :=
      Nat.sub_add_cancel (Nat.div_pos c.channels_le c.channels_pos)
    have whole := Nat.div_mul_le_self c.numOfBanks c.numOfChannels
    rw [← layers, Nat.add_mul, Nat.one_mul] at whole
    have below := Nat.mul_le_mul_right c.numOfChannels layer
    omega
  cases stack : c.typeOfStack with
  | ddr =>
    simp only [bankAccessed, stack, Option.some.injEq] at accessed
    exact accessed ▸ bankBits_lt
  | other => simp [bankAccessed, stack] at accessed
  | threeDMem | twoPointFiveD | threeD =>
    simp only [bankAccessed, stack, Option.some.injEq] at accessed
    exact accessed ▸ interleaved (by simp [stack])

end MemoryConfig

/-! ## Counting -/

/-- Reads and writes have each their own globals. -/
inductive Kind where
  | read | write
  deriving DecidableEq

/-- `read_trace_data` and `write_trace_data`: the counts of an epoch. -/
structure TraceData where
  intervalStartTime : ℕ
  accessCountPerEpoch : ℕ
  bankAccessCount : PowerMode → ℕ → ℕ

/-- The globals of the reads, or of the writes. The arrays `…_lowpower` are those of `lowPower`. -/
structure Side where
  onEntryToRoi : Bool
  roiStartTime : ℕ
  accessCountPerBank : PowerMode → ℕ → ℕ
  accessCountExport : PowerMode → ℕ → ℕ
  accessCount : ℕ
  intervalStartTime : ℕ
  lastPrintedTimestamp : ℕ
  bankAccessed : ℕ
  trace : List TraceData

/-- Globals are zero at the start. -/
def Side.init : Side where
  onEntryToRoi := false
  roiStartTime := 0
  accessCountPerBank := fun _ _ => 0
  accessCountExport := fun _ _ => 0
  accessCount := 0
  intervalStartTime := 0
  lastPrintedTimestamp := 0
  bankAccessed := 0
  trace := []

structure Globals where
  totalAccessCount : ℕ
  mcpFlag : ℕ
  side : Kind → Side

def Globals.init : Globals := ⟨0, 0, fun _ => .init⟩

/-- A call at a time in microseconds, with the modes of the banks as they are then. -/
structure Call where
  kind : Kind
  address : ℕ
  now : ℕ
  inROI : Bool
  modes : ℕ → PowerMode

namespace Side

variable (numOfBanks now : ℕ) (s : Side)

def enterRoi : Side :=
  if s.onEntryToRoi then s
  else
    { s with
      onEntryToRoi := true
      roiStartTime := now
      lastPrintedTimestamp := now % 2 ^ 32 }

def resetCounts : Side :=
  { s with accessCountPerBank := fun mode b =>
      if b < numOfBanks then 0 else s.accessCountPerBank mode b }

/-- The epochs without an access, one record each. The time stamp has 32 bits, so that a loop that
does not end in `2 ^ 32` passes does not end. -/
def emptyEpochs : ℕ → ℕ → ℕ → List TraceData → Option (List TraceData)
  | 0, _, _, _ => none
  | passes + 1, start, lastPrinted, trace =>
    let next := (lastPrinted + accumulationTime) % 2 ^ 32
    if next < start then emptyEpochs passes start next (trace ++ [⟨next, 0, fun _ _ => 0⟩])
    else some trace

/-- The access is the first of a new epoch: the counts so far are pushed, and the counters start at
zero. -/
def closeEpoch : Option Side :=
  let start := now - now % accumulationTime
  (emptyEpochs (2 ^ 32 + 1) start s.lastPrintedTimestamp s.trace).map fun trace =>
    { s with
      intervalStartTime := start
      trace := trace ++ [⟨start, s.accessCount, fun mode b =>
        if b < numOfBanks then s.accessCountPerBank mode b % 2 ^ 32 else 0⟩]
      accessCountExport := fun mode b =>
        if b < numOfBanks then s.accessCountPerBank mode b else s.accessCountExport mode b
      accessCountPerBank := fun mode b =>
        if b < numOfBanks then 0 else s.accessCountPerBank mode b
      accessCount := 0
      lastPrintedTimestamp := start % 2 ^ 32 }

/-- The access is counted in its bank. -/
def count (mode : PowerMode) : Side :=
  { s with
    accessCountPerBank := fun m b =>
      if m = mode ∧ b = s.bankAccessed then (s.accessCountPerBank m b + 1) % 2 ^ 64
      else s.accessCountPerBank m b
    accessCount := (s.accessCount + 1) % 2 ^ 32 }

/-- The accesses to a bank in all records and in the counters. -/
def counted (mode : PowerMode) (b : ℕ) : ℕ :=
  (s.trace.map fun r => r.bankAccessCount mode b).sum + s.accessCountPerBank mode b

end Side

variable (c : MemoryConfig)

/-- The body that `dram_read_trace` and `dram_write_trace` share: `modeBank` is the bank whose power
mode is looked up. -/
def accessTrace (modeBank : ℕ → ℕ) (call : Call) (g : Globals) : Option Globals :=
  if !call.inROI then some g
  else
    let entered := (g.side call.kind).enterRoi call.now
    let s := if g.totalAccessCount = 0 then entered.resetCounts c.numOfBanks else entered
    match c.bankAccessed call.address g.mcpFlag with
    | none => none
    | some bank =>
      let s := { s with bankAccessed := bank }
      let counted :=
        if accumulationTime + s.intervalStartTime < call.now then
          s.closeEpoch c.numOfBanks call.now
        else some (s.count (call.modes (modeBank bank)))
      counted.map fun s =>
        { totalAccessCount := (g.totalAccessCount + 1) % 2 ^ 32
          mcpFlag := c.nextMcpFlag g.mcpFlag
          side := Function.update g.side call.kind s }

/-- `dram_read_trace`. -/
def dramReadTrace (call : Call) (g : Globals) : Option Globals :=
  accessTrace c (fun bank => bank) call g

/-- `dram_write_trace` looks up the mode of the bank that was read last. -/
def dramWriteTrace (call : Call) (g : Globals) : Option Globals :=
  accessTrace c (fun _ => (g.side .read).bankAccessed) call g

def dramTrace (call : Call) (g : Globals) : Option Globals :=
  match call.kind with
  | .read => dramReadTrace c call g
  | .write => dramWriteTrace c call g

/-- The calls one after the other. -/
def run : List Call → Globals → Option Globals
  | [], g => some g
  | call :: calls, g => (dramTrace c call g).bind (run calls)

/-! ## What should be counted -/

/-- An access to a bank in a power mode. -/
structure Access where
  kind : Kind
  bank : ℕ
  mode : PowerMode
  deriving DecidableEq

/-- The accesses of calls, in the banks that are computed for them and in the modes of these. -/
def accesses : List Call → ℕ → List Access
  | [], _ => []
  | call :: calls, mcpFlag =>
    ((c.bankAccessed call.address mcpFlag).toList.map fun bank =>
      ⟨call.kind, bank, call.modes bank⟩) ++ accesses calls (c.nextMcpFlag mcpFlag)

/-- Every access is counted once, in its own bank and power mode. -/
def Counted (calls : List Call) (g : Globals) : Prop :=
  ∀ kind mode, ∀ b < c.numOfBanks,
    (g.side kind).counted mode b = (accesses c calls 0).count ⟨kind, b, mode⟩

/-- The bank whose power mode a call looks up. -/
def modeBank (g : Globals) (call : Call) (bank : ℕ) : ℕ :=
  match call.kind with
  | .read => bank
  | .write => (g.side .read).bankAccessed

/-- The access belongs to the epoch that is open; it is counted in the mode of its own bank; it is
not the one at which the number of all accesses, having wrapped around, clears counters in use; and
its counter does not wrap around. -/
def CountsAccess (g : Globals) (call : Call) : Prop :=
  ∃ bank, c.bankAccessed call.address g.mcpFlag = some bank ∧
    call.now ≤ accumulationTime + (g.side call.kind).intervalStartTime ∧
    call.modes (modeBank g call bank) = call.modes bank ∧
    (g.totalAccessCount = 0 → ∀ mode, ∀ b < c.numOfBanks,
      (g.side call.kind).accessCountPerBank mode b = 0) ∧
    (g.side call.kind).accessCountPerBank (call.modes bank) bank + 1 < 2 ^ 64

section Step

variable {c} {g g' : Globals} {call : Call} {calls : List Call} {bank b : ℕ} {s s' : Side}
  {mode : PowerMode}

theorem accesses_append (before after : List Call) (mcpFlag : ℕ) :
    accesses c (before ++ after) mcpFlag =
      accesses c before mcpFlag ++ accesses c after (c.nextMcpFlag^[before.length] mcpFlag) := by
  induction before generalizing mcpFlag with
  | nil => rfl
  | cons call before ih =>
    rw [List.cons_append, accesses, accesses, ih, List.append_assoc, List.length_cons,
      Function.iterate_succ_apply]

namespace Side

/-- The globals of a call's kind once its bank is computed. -/
def opened (c : MemoryConfig) (g : Globals) (call : Call) (bank : ℕ) : Side :=
  let entered := (g.side call.kind).enterRoi call.now
  { if g.totalAccessCount = 0 then entered.resetCounts c.numOfBanks else entered with
    bankAccessed := bank }

@[simp] theorem trace_opened : (opened c g call bank).trace = (g.side call.kind).trace := by
  simp only [opened, resetCounts, enterRoi]
  split_ifs <;> rfl

@[simp] theorem intervalStartTime_opened :
    (opened c g call bank).intervalStartTime = (g.side call.kind).intervalStartTime := by
  simp only [opened, resetCounts, enterRoi]
  split_ifs <;> rfl

theorem accessCountPerBank_opened (inside : b < c.numOfBanks) :
    (opened c g call bank).accessCountPerBank mode b =
      if g.totalAccessCount = 0 then 0 else (g.side call.kind).accessCountPerBank mode b := by
  simp only [opened, resetCounts, enterRoi]
  split_ifs <;> simp [inside]

theorem emptyEpochs_spec {passes start lastPrinted : ℕ} {trace trace' : List TraceData}
    (ended : emptyEpochs passes start lastPrinted trace = some trace') (mode : PowerMode) (b : ℕ) :
    (trace'.map fun r => r.bankAccessCount mode b).sum =
      (trace.map fun r => r.bankAccessCount mode b).sum := by
  induction passes generalizing lastPrinted trace with
  | zero => cases ended
  | succ passes ih =>
    simp only [emptyEpochs] at ended
    split_ifs at ended with more
    · rw [ih ended]
      simp
    · cases ended
      rfl

/-- Closing an epoch counts nothing. -/
theorem counted_closeEpoch_le {numOfBanks now : ℕ} (mode : PowerMode) (inside : b < numOfBanks)
    (closed : s.closeEpoch numOfBanks now = some s') : s'.counted mode b ≤ s.counted mode b := by
  obtain ⟨trace, ended, rfl⟩ := Option.map_eq_some_iff.mp closed
  have pushed := emptyEpochs_spec ended mode b
  have cut := Nat.mod_le (s.accessCountPerBank mode b) (2 ^ 32)
  simp only [counted, List.map_append, List.sum_append, pushed, List.map_cons, List.map_nil,
    List.sum_singleton, if_pos inside]
  omega

theorem counted_count : (s.count mode).counted mode s.bankAccessed =
    (s.trace.map fun r => r.bankAccessCount mode s.bankAccessed).sum +
      (s.accessCountPerBank mode s.bankAccessed + 1) % 2 ^ 64 := by
  simp [counted, count]

theorem counted_count_other {m : PowerMode} (apart : ¬(m = mode ∧ b = s.bankAccessed)) :
    (s.count mode).counted m b = s.counted m b := by
  simp only [counted, count, if_neg apart]

/-- One access is counted if and only if it is in its own mode, nothing was wiped before, and the
counter does not wrap around. -/
theorem counted_count_iff {numOfBanks : ℕ} {own : PowerMode} {old wiped : PowerMode → ℕ → ℕ}
    (inside : s.bankAccessed < numOfBanks)
    (sum : ∀ m, ∀ b < numOfBanks, s.counted m b + wiped m b = old m b) :
    (∀ m, ∀ b < numOfBanks, (s.count mode).counted m b =
      old m b + if s.bankAccessed = b ∧ own = m then 1 else 0) ↔
    mode = own ∧ (∀ m, ∀ b < numOfBanks, wiped m b = 0) ∧
      s.accessCountPerBank own s.bankAccessed + 1 < 2 ^ 64 := by
  have here := sum own s.bankAccessed inside
  have stored : s.counted own s.bankAccessed =
      (s.trace.map fun r => r.bankAccessCount own s.bankAccessed).sum +
        s.accessCountPerBank own s.bankAccessed := rfl
  constructor
  · intro after
    have one := after own s.bankAccessed inside
    rw [if_pos ⟨rfl, rfl⟩] at one
    have same : mode = own := by
      by_contra apart
      rw [counted_count_other fun both => apart both.1.symm] at one
      omega
    subst same
    rw [counted_count] at one
    have wraps := Nat.mod_le (s.accessCountPerBank mode s.bankAccessed + 1) (2 ^ 64)
    have small : s.accessCountPerBank mode s.bankAccessed + 1 < 2 ^ 64 := by
      have bound := Nat.mod_lt (s.accessCountPerBank mode s.bankAccessed + 1) (Nat.two_pow_pos 64)
      omega
    refine ⟨rfl, fun m b below => ?_, small⟩
    by_cases own : m = mode ∧ b = s.bankAccessed
    · obtain ⟨rfl, rfl⟩ := own
      omega
    · have other := after m b below
      have apart : ¬(s.bankAccessed = b ∧ mode = m) := fun both => own ⟨both.2.symm, both.1.symm⟩
      rw [counted_count_other own, if_neg apart] at other
      have total := sum m b below
      omega
  · rintro ⟨rfl, none, small⟩ m b below
    have total := sum m b below
    rw [none m b below] at total
    by_cases own : m = mode ∧ b = s.bankAccessed
    · obtain ⟨rfl, rfl⟩ := own
      rw [counted_count, Nat.mod_eq_of_lt small, if_pos ⟨rfl, rfl⟩]
      omega
    · have apart : ¬(s.bankAccessed = b ∧ mode = m) := fun both => own ⟨both.2.symm, both.1.symm⟩
      rw [counted_count_other own, if_neg apart]
      omega

end Side

/-- What a call does, by its bank and by whether it closes an epoch. -/
theorem dramTrace_eq (inROI : call.inROI = true) :
    dramTrace c call g = (c.bankAccessed call.address g.mcpFlag).bind fun bank =>
      let s := Side.opened c g call bank
      (if accumulationTime + s.intervalStartTime < call.now then s.closeEpoch c.numOfBanks call.now
        else some (s.count (call.modes (modeBank g call bank)))).map fun s =>
          { totalAccessCount := (g.totalAccessCount + 1) % 2 ^ 32
            mcpFlag := c.nextMcpFlag g.mcpFlag
            side := Function.update g.side call.kind s } := by
  rcases call with ⟨kind, address, now, roi, modes⟩
  cases inROI
  cases kind <;>
  · simp only [dramTrace, dramReadTrace, dramWriteTrace, accessTrace, Bool.not_true,
      Bool.false_eq_true, if_false, modeBank]
    cases c.bankAccessed address g.mcpFlag <;> rfl

/-- The flag of the channels goes on with every access. -/
theorem mcpFlag_dramTrace (inROI : call.inROI = true) (traced : dramTrace c call g = some g') :
    g'.mcpFlag = c.nextMcpFlag g.mcpFlag := by
  rw [dramTrace_eq inROI] at traced
  obtain ⟨bank, -, counted⟩ := Option.bind_eq_some_iff.mp traced
  obtain ⟨s, -, rfl⟩ := Option.map_eq_some_iff.mp counted
  rfl

theorem count_accesses_concat (flag : g.mcpFlag = c.nextMcpFlag^[calls.length] 0)
    (accessed : c.bankAccessed call.address g.mcpFlag = some bank) (kind : Kind)
    (mode : PowerMode) (b : ℕ) :
    (accesses c (calls ++ [call]) 0).count ⟨kind, b, mode⟩ =
      (accesses c calls 0).count ⟨kind, b, mode⟩ +
        if call.kind = kind ∧ bank = b ∧ call.modes bank = mode then 1 else 0 := by
  rw [accesses_append, ← flag, List.count_append]
  simp only [accesses, accessed, Option.toList_some, List.map_cons, List.map_nil,
    List.append_nil, List.count_singleton, beq_iff_eq, Access.mk.injEq]

/-- The globals of the other kind stay right by themselves. -/
theorem counted_update_iff (counted : Counted c calls g)
    (flag : g.mcpFlag = c.nextMcpFlag^[calls.length] 0)
    (accessed : c.bankAccessed call.address g.mcpFlag = some bank) (total mcpFlag : ℕ) :
    Counted c (calls ++ [call]) ⟨total, mcpFlag, Function.update g.side call.kind s⟩ ↔
      ∀ mode, ∀ b < c.numOfBanks, s.counted mode b =
        (accesses c calls 0).count ⟨call.kind, b, mode⟩ +
          if bank = b ∧ call.modes bank = mode then 1 else 0 := by
  have last := count_accesses_concat flag accessed
  constructor
  · intro all mode b below
    have one := all call.kind mode b below
    simp only [last, Function.update_self, true_and] at one
    exact one
  · intro all kind mode b below
    by_cases same : kind = call.kind
    · subst same
      simp only [last, Function.update_self, true_and]
      exact all mode b below
    · simp only [last, Function.update_of_ne same, Ne.symm same, false_and, if_false, add_zero]
      exact counted kind mode b below

/-- **When a call counts its access.** -/
theorem dramTrace_counts_iff (inROI : call.inROI = true) (counted : Counted c calls g)
    (flag : g.mcpFlag = c.nextMcpFlag^[calls.length] 0) :
    (∃ g', dramTrace c call g = some g' ∧ Counted c (calls ++ [call]) g') ↔
      CountsAccess c g call := by
  rw [dramTrace_eq inROI]
  cases accessed : c.bankAccessed call.address g.mcpFlag with
  | none => simp [CountsAccess, accessed]
  | some bank =>
    have inside := MemoryConfig.bankAccessed_lt accessed
    set s := Side.opened c g call bank with opened
    -- what the reset of the counters takes away
    set wiped : PowerMode → ℕ → ℕ := fun mode b =>
      if g.totalAccessCount = 0 then (g.side call.kind).accessCountPerBank mode b else 0
      with wipes
    have sum : ∀ mode, ∀ b < c.numOfBanks, s.counted mode b + wiped mode b =
        (accesses c calls 0).count ⟨call.kind, b, mode⟩ := by
      intro mode b below
      rw [← counted call.kind mode b below, Side.counted, Side.counted, opened,
        Side.trace_opened, Side.accessCountPerBank_opened below, wipes]
      dsimp only
      split_ifs <;> omega
    have unwiped : (∀ mode, ∀ b < c.numOfBanks, wiped mode b = 0) ↔
        (g.totalAccessCount = 0 → ∀ mode, ∀ b < c.numOfBanks,
          (g.side call.kind).accessCountPerBank mode b = 0) := by
      rw [wipes]
      by_cases zero : g.totalAccessCount = 0 <;> simp [zero]
    simp only [Option.bind_some, Option.map_eq_some_iff, CountsAccess, accessed,
      Option.some.injEq, exists_eq_left']
    have interval : s.intervalStartTime = (g.side call.kind).intervalStartTime :=
      Side.intervalStartTime_opened
    rw [← opened, ← not_lt, ← interval, ← unwiped]
    have small : (∀ mode, ∀ b < c.numOfBanks, wiped mode b = 0) →
        (g.side call.kind).accessCountPerBank (call.modes bank) bank =
          s.accessCountPerBank (call.modes bank) bank := by
      intro none
      have zero := none (call.modes bank) bank inside
      rw [opened, Side.accessCountPerBank_opened inside]
      rw [wipes] at zero
      dsimp only at zero
      split_ifs at zero ⊢
      · exact zero
      · rfl
    constructor
    · rintro ⟨g', ⟨s', left, rfl⟩, after⟩
      have here := (counted_update_iff counted flag accessed _ _).mp after
      split_ifs at left with closes
      · -- the access that closes an epoch is missing
        have fewer := Side.counted_closeEpoch_le (call.modes bank) inside left
        have more := here (call.modes bank) bank inside
        have opening := sum (call.modes bank) bank inside
        rw [if_pos ⟨rfl, rfl⟩] at more
        omega
      · cases left
        obtain ⟨same, none, fits⟩ := (Side.counted_count_iff inside sum).mp here
        exact ⟨closes, same, none, (small none).symm ▸ fits⟩
    · rintro ⟨open_, same, none, fits⟩
      rw [if_neg open_]
      refine ⟨_, ⟨_, rfl, rfl⟩, (counted_update_iff counted flag accessed _ _).mpr ?_⟩
      exact (Side.counted_count_iff inside sum).mpr ⟨same, none, small none ▸ fits⟩

end Step

/-! ## Runs -/

section Run

variable {c} {g g' : Globals} {call : Call} {calls before : List Call}

theorem run_append (before after : List Call) (g : Globals) :
    run c (before ++ after) g = (run c before g).bind (run c after) := by
  induction before generalizing g with
  | nil => rfl
  | cons call before ih =>
    rw [List.cons_append, run, run, Option.bind_assoc]
    exact congrArg _ (funext ih)

theorem run_concat : run c (calls ++ [call]) g = (run c calls g).bind (dramTrace c call) := by
  have one : run c [call] = dramTrace c call := by
    funext g
    rw [run]
    cases dramTrace c call g <;> rfl
  rw [run_append, one]

theorem mcpFlag_run (inROI : ∀ call ∈ calls, call.inROI = true)
    (ran : run c calls .init = some g) : g.mcpFlag = c.nextMcpFlag^[calls.length] 0 := by
  induction calls using List.reverseRecOn generalizing g with
  | nil => cases ran; rfl
  | append_singleton calls call ih =>
    rw [run_concat] at ran
    obtain ⟨earlier, reached, traced⟩ := Option.bind_eq_some_iff.mp ran
    rw [mcpFlag_dramTrace (inROI call (by simp)) traced,
      ih (fun call member => inROI call (by simp [member])) reached, List.length_append,
      List.length_singleton, Function.iterate_succ_apply']

theorem counted_init : Counted c [] .init := by
  intro kind mode b below
  rfl

end Run

/-- **All accesses of a run.** Every access is counted once, in its own bank and power mode, after
every call of a run, if and only if every call counts its access. -/
theorem counted_iff (c : MemoryConfig) (calls : List Call)
    (inROI : ∀ call ∈ calls, call.inROI = true) :
    (∀ before, before <+: calls → ∃ g, run c before .init = some g ∧ Counted c before g) ↔
      ∀ before call, before ++ [call] <+: calls → ∀ g, run c before .init = some g →
        CountsAccess c g call := by
  have entered : ∀ {before}, before <+: calls → ∀ call ∈ before, call.inROI = true :=
    fun front call member => inROI call (front.subset member)
  constructor
  · intro all before call front g reached
    have shorter := (List.prefix_append before [call]).trans front
    obtain ⟨g₁, reached₁, counted⟩ := all before shorter
    cases reached.symm.trans reached₁
    obtain ⟨g', ran, after⟩ := all _ front
    rw [run_concat, reached, Option.bind_some] at ran
    exact (dramTrace_counts_iff (entered front call (by simp)) counted
      (mcpFlag_run (entered shorter) reached)).mp ⟨g', ran, after⟩
  · intro counts before front
    induction before using List.reverseRecOn with
    | nil => exact ⟨_, rfl, counted_init⟩
    | append_singleton before call ih =>
      have shorter := (List.prefix_append before [call]).trans front
      obtain ⟨g, reached, counted⟩ := ih shorter
      rw [run_concat, reached, Option.bind_some]
      exact (dramTrace_counts_iff (entered front call (by simp)) counted
        (mcpFlag_run (entered shorter) reached)).mpr (counts before call front g reached)

/-! ## An access after a thousand microseconds -/

/-- The configuration of `config/gainestown_3Dmem.cfg`. -/
def gainestown3Dmem : MemoryConfig where
  typeOfStack := .threeDMem
  numOfChannels := 4
  numOfBanks := 128
  bankOffsetInPa := 6
  channels_pos := by decide
  channels_le := by decide
  banks_le := by decide
  mask_fits := by decide +kernel

/-- A read of address zero. -/
def readAt (now : ℕ) : Call := ⟨.read, 0, now, true, fun _ => .normalPower⟩

/-- A write to the second channel, whose bank alone is in low power mode. -/
def lowPowerWrite : Call :=
  ⟨.write, 0, 1, true, fun b => if b = 1 then .lowPower else .normalPower⟩

/-- A first read that comes late is in no count, and a write after a read is counted in the mode of
the bank that was read. -/
theorem late_read_uncounted :
    ((run gainestown3Dmem [readAt 1001] .init).map fun g =>
      ((g.side .read).counted .normalPower 0, (g.side .read).counted .lowPower 0)) = some (0, 0) ∧
    accesses gainestown3Dmem [readAt 1001] 0 = [⟨.read, 0, .normalPower⟩] ∧
    ((run gainestown3Dmem [readAt 0, lowPowerWrite] .init).map fun g =>
      ((g.side .write).counted .normalPower 1, (g.side .write).counted .lowPower 1)) = some (1, 0) ∧
    accesses gainestown3Dmem [readAt 0, lowPowerWrite] 0 =
      [⟨.read, 0, .normalPower⟩, ⟨.write, 1, .lowPower⟩] := by
  decide +kernel

/-- The late read does not count its access. -/
theorem counted_iff_late :
    ¬∀ before, before <+: [readAt 1001] →
      ∃ g, run gainestown3Dmem before .init = some g ∧ Counted gainestown3Dmem before g := by
  intro all
  obtain ⟨bank, -, early, -⟩ := (counted_iff gainestown3Dmem [readAt 1001] (by decide)).mp all []
    (readAt 1001) (List.prefix_refl _) .init rfl
  exact absurd early (by decide)

end GpuHotSpot.Common.DramTrace
