import GpuHotSpot.Common.BankDecoding
import GpuHotSpot.Lib.Machine
import Mathlib.Algebra.BigOperators.Group.Finset.Piecewise

/-!
# Latency breakdowns

`common/core/memory_subsystem/pr_l1_pr_l2_dram_directory_msi/shmem_perf.cc`: how the latency of a
memory access is split into components, from time stamps on its way; and
`common/performance_model/dram_perf_model_constant.cc` and `dram_perf_model_readwrite.cc`, which
stamp the way through the DRAM.

* `accounted_run_iff`: when no component counts time that has not passed.
* `addsUp_iff`: when the DRAM components grow by the latency that the model returns.

A packet adds its whole queue delay before the time of the packet is looked at, and the model with a
constant latency stamps the end of every access by the latency of the normal power mode. Times are
natural numbers of femtoseconds; the queue models' answers are parameters.
-/

namespace GpuHotSpot.Common.Breakdown

open Fallible DramTrace

/-- `ShmemPerf::shmem_times_type_t`. -/
inductive ShmemTime
  | nocBase | nocQueue | tdAccess | invImbalance | remoteCacheInv | remoteCacheFwd | remoteCacheWb
  | pendingHit | nucaTags | nucaQueue | nucaBus | nucaData | dramCache | dramCacheTags
  | dramCacheQueue | dramCacheBus | dramCacheData | dram | dramQueue | dramBus | dramDevice
  | unknown
  deriving DecidableEq, Repr

/-- The components up to `NUM_SHMEM_TIMES`. -/
def ShmemTime.all : List ShmemTime :=
  [.nocBase, .nocQueue, .tdAccess, .invImbalance, .remoteCacheInv, .remoteCacheFwd, .remoteCacheWb,
    .pendingHit, .nucaTags, .nucaQueue, .nucaBus, .nucaData, .dramCache, .dramCacheTags,
    .dramCacheQueue, .dramCacheBus, .dramCacheData, .dram, .dramQueue, .dramBus, .dramDevice,
    .unknown]

instance : Fintype ShmemTime where
  elems := ⟨ShmemTime.all, by decide⟩
  complete := fun reason => by cases reason <;> decide

structure ShmemPerf where
  timeBegin : ℕ
  timeLast : ℕ
  times : ShmemTime → ℕ

namespace ShmemPerf

def reset (time : ℕ) : ShmemPerf := ⟨time, time, fun _ => 0⟩

/-- A component grows. -/
def addTo (reason : ShmemTime) (time : ℕ) (p : ShmemPerf) : ShmemPerf :=
  { p with times := Function.update p.times reason (p.times reason + time) }

/-- The last time becomes another one. -/
def moveTo (time : ℕ) (p : ShmemPerf) : ShmemPerf := { p with timeLast := time }

def updateTime (time : ℕ) (reason : ShmemTime) (p : ShmemPerf) : ShmemPerf :=
  if p.timeLast < time then (p.addTo reason (time - p.timeLast)).moveTo time else p

/-- `updatePacket`, by the time and the queue delay of the packet. -/
def updatePacket (time queueDelay : ℕ) (p : ShmemPerf) : ShmemPerf :=
  if p.timeLast < time then
    ((p.addTo .nocQueue queueDelay).moveTo (p.timeLast + queueDelay)).updateTime time .nocBase
  else p

/-- All components together. -/
def total (p : ShmemPerf) : ℕ := ∑ reason, p.times reason

end ShmemPerf

/-! ## Stamps -/

/-- The calls of a `ShmemPerf` after `reset`. -/
inductive Stamp
  | updateTime (time : ℕ) (reason : ShmemTime)
  | updatePacket (time queueDelay : ℕ)
  deriving DecidableEq, Repr

/-- A `ShmemPerf`, and the latest time that it was given. -/
structure Stamped where
  perf : ShmemPerf
  latest : ℕ

def Stamped.step : Stamp → Stamped → Except Empty Stamped
  | .updateTime time reason, s => .ok ⟨s.perf.updateTime time reason, max s.latest time⟩
  | .updatePacket time queueDelay, s =>
    .ok ⟨s.perf.updatePacket time queueDelay, max s.latest time⟩

def Stamped.start (time : ℕ) : Stamped := ⟨.reset time, time⟩

/-- The components sum up to the time since the reset, and that is no later than any time given. -/
structure Accounted (s : Stamped) : Prop where
  elapsed : s.perf.total = s.perf.timeLast - s.perf.timeBegin
  started : s.perf.timeBegin ≤ s.perf.timeLast
  passed : s.perf.timeLast ≤ s.latest

/-- The queue delay of a packet that counts ends no later than the latest time given. -/
def Covers (s : Stamped) : Stamp → Prop
  | .updateTime _ _ => True
  | .updatePacket time queueDelay =>
    s.perf.timeLast < time → s.perf.timeLast + queueDelay ≤ max s.latest time

instance (s : Stamped) : ∀ stamp, Decidable (Covers s stamp)
  | .updateTime _ _ => .isTrue trivial
  | .updatePacket _ _ => inferInstanceAs (Decidable (_ → _))

variable {p : ShmemPerf} {s : Stamped} {reason : ShmemTime} {time queueDelay : ℕ}

namespace ShmemPerf

@[simp] theorem timeLast_addTo : (p.addTo reason time).timeLast = p.timeLast := rfl

@[simp] theorem timeBegin_addTo : (p.addTo reason time).timeBegin = p.timeBegin := rfl

@[simp] theorem timeLast_moveTo : (p.moveTo time).timeLast = time := rfl

@[simp] theorem timeBegin_moveTo : (p.moveTo time).timeBegin = p.timeBegin := rfl

@[simp] theorem total_moveTo : (p.moveTo time).total = p.total := rfl

/-- A component grows, and so do all together. -/
@[simp] theorem total_addTo : (p.addTo reason time).total = p.total + time := by
  show ∑ other, Function.update p.times reason (p.times reason + time) other = p.total + time
  rw [Finset.sum_update_of_mem (Finset.mem_univ reason), total,
    ← Finset.add_sum_erase _ p.times (Finset.mem_univ reason), Finset.sdiff_singleton_eq_erase]
  exact Nat.add_right_comm _ _ _

/-- The components and the last time move on together. -/
def Elapsed (p : ShmemPerf) : Prop := p.timeBegin ≤ p.timeLast ∧ p.timeBegin + p.total = p.timeLast

/-- A stamp that is not late moves the last time to its own. -/
theorem timeLast_updateTime : (p.updateTime time reason).timeLast = max p.timeLast time := by
  rw [updateTime]
  split
  · next later => exact (max_eq_right later.le).symm
  · next late => exact (max_eq_left (Nat.le_of_not_lt late)).symm

theorem Elapsed.updateTime (elapsed : p.Elapsed) : (p.updateTime time reason).Elapsed := by
  rw [ShmemPerf.updateTime]
  split
  · next later =>
      obtain ⟨started, sum⟩ := elapsed
      refine ⟨started.trans later.le, ?_⟩
      simp only [timeBegin_moveTo, timeBegin_addTo, total_moveTo, total_addTo, timeLast_moveTo]
      omega
  · exact elapsed

theorem Elapsed.updatePacket (elapsed : p.Elapsed) : (p.updatePacket time queueDelay).Elapsed := by
  rw [ShmemPerf.updatePacket]
  split
  · refine Elapsed.updateTime ?_
    obtain ⟨started, sum⟩ := elapsed
    refine ⟨started.trans (Nat.le_add_right _ _), ?_⟩
    simp only [timeBegin_moveTo, timeBegin_addTo, total_moveTo, total_addTo, timeLast_moveTo]
    rw [← Nat.add_assoc, sum]
  · exact elapsed

/-- A packet that is not late moves the last time on by its queue delay at least. -/
theorem timeLast_updatePacket : (p.updatePacket time queueDelay).timeLast =
    if p.timeLast < time then max (p.timeLast + queueDelay) time else p.timeLast := by
  rw [updatePacket]
  split
  · exact timeLast_updateTime
  · rfl

end ShmemPerf

theorem elapsed_step {stamp : Stamp} {s' : Stamped} (elapsed : s.perf.Elapsed)
    (moved : Stamped.step stamp s = .ok s') : s'.perf.Elapsed := by
  cases stamp with
  | updateTime time reason =>
    cases moved
    exact elapsed.updateTime
  | updatePacket time queueDelay =>
    cases moved
    exact elapsed.updatePacket

theorem accounted_of_elapsed (elapsed : s.perf.Elapsed) :
    Accounted s ↔ s.perf.timeLast ≤ s.latest :=
  ⟨Accounted.passed, fun passed => ⟨Nat.eq_sub_of_add_eq' elapsed.2, elapsed.1, passed⟩⟩

/-- **One stamp** leaves the account in order exactly if it does not count time that has not
passed. -/
theorem accounted_step_iff {stamp : Stamp} {s' : Stamped} (elapsed : s.perf.Elapsed)
    (accounted : Accounted s) (moved : Stamped.step stamp s = .ok s') :
    Accounted s' ↔ Covers s stamp := by
  rw [accounted_of_elapsed (elapsed_step elapsed moved)]
  cases stamp with
  | updateTime time reason =>
    cases moved
    refine iff_of_true ?_ trivial
    rw [ShmemPerf.timeLast_updateTime]
    exact max_le_max_right _ accounted.passed
  | updatePacket time queueDelay =>
    cases moved
    rw [ShmemPerf.timeLast_updatePacket, Covers]
    dsimp only
    split
    · next later =>
        rw [max_le_iff, imp_iff_right later]
        exact and_iff_left (le_max_right _ _)
    · next late =>
        exact iff_of_true (accounted.passed.trans (le_max_left _ _)) fun later =>
          absurd later late

/-- The account is in order after every part of a run exactly if every packet covers its delay. -/
theorem accounted_run_iff (begin : ℕ) (stamps : List Stamp) :
    (∀ pre, pre <+: stamps → ∀ s, runEvents Stamped.step pre (.start begin) = .ok s →
      Accounted s) ↔ Along Covers Stamped.step stamps (.start begin) := by
  have zero : (ShmemPerf.reset begin).total = 0 := Finset.sum_eq_zero fun _ _ => rfl
  have elapsed : (Stamped.start begin).perf.Elapsed := ⟨le_rfl, congrArg (begin + ·) zero⟩
  exact along_iff_reached (fun stamp s s' elapsed moved => elapsed_step elapsed moved)
    (fun stamp s s' elapsed accounted moved => accounted_step_iff elapsed accounted moved)
    (fun stamp s e => e.elim) elapsed ((accounted_of_elapsed elapsed).2 le_rfl)

/-! ## The DRAM -/

/-- `DramCntlrInterface::access_t`. -/
inductive AccessType
  | read
  | write
  deriving DecidableEq, Repr

structure Access where
  pktTime : ℕ
  pktSize : ℕ
  requester : ℤ
  address : ℕ
  accessType : AccessType

/-- What the models read from the configuration; the bandwidth is in bits per microsecond. -/
structure DramConfig where
  enabled : Bool
  applicationCores : ℤ
  dramBandwidth : ℕ
  dramAccessCost : ℕ
  dramAccessCostLowpower : ℕ
  queueModelEnabled : Bool
  sharedReadwrite : Bool

/-- `ComponentBandwidth::getRoundedLatency`. -/
def DramConfig.getRoundedLatency (c : DramConfig) (bits : ℕ) : ℕ :=
  (bits * 10 ^ 9 + 10 ^ 9 / 2) / c.dramBandwidth

def DramConfig.processingTime (c : DramConfig) (a : Access) : ℕ :=
  c.getRoundedLatency (8 * a.pktSize)

/-- The model is enabled, and the access is that of an application core. -/
def DramConfig.Models (c : DramConfig) (a : Access) : Prop :=
  c.enabled ∧ a.requester < c.applicationCores

instance (c : DramConfig) (a : Access) : Decidable (c.Models a) :=
  inferInstanceAs (Decidable (_ ∧ _))

/-- The four stamps of an access. -/
def stampAccess (pktTime queueDelay processingTime accessCost : ℕ) (perf : ShmemPerf) :
    ShmemPerf :=
  (((perf.updateTime pktTime .unknown).updateTime (pktTime + queueDelay) .dramQueue).updateTime
    (pktTime + queueDelay + processingTime) .dramBus).updateTime
    (pktTime + queueDelay + processingTime + accessCost) .dramDevice

/-- The counters of `DramPerfModelConstant`. -/
structure DramPerfModelConstant where
  numAccesses : ℕ
  totalQueueingDelay : ℕ
  totalAccessLatency : ℕ

/-- `LOW_POWER`. -/
def lowPower : ℕ := 0

/-- The banks and their power modes, and the flag of `get_address_bank`. -/
structure Banks where
  memory : Memory
  mcpFlag : ℕ
  bankModes : ℕ → ℕ

/-- `bank_mode` of an access. -/
def Banks.bankMode (b : Banks) (a : Access) : ℕ :=
  b.bankModes (b.memory.getAddressBank a.address b.mcpFlag)

/-- `DramPerfModelConstant::getAccessLatency`; `computed` is what the queue model answers. -/
def DramPerfModelConstant.getAccessLatency (c : DramConfig) (b : Banks) (computed : ℕ)
    (a : Access) (perf : ShmemPerf) (m : DramPerfModelConstant) :
    ℕ × ShmemPerf × DramPerfModelConstant :=
  if c.Models a then
    let queueDelay := if c.queueModelEnabled then computed else 0
    let accessLatency :=
      if b.bankMode a = lowPower then queueDelay + c.processingTime a + c.dramAccessCostLowpower
      else queueDelay + c.processingTime a + c.dramAccessCost
    (accessLatency, stampAccess a.pktTime queueDelay (c.processingTime a) c.dramAccessCost perf,
      ⟨m.numAccesses + 1, m.totalQueueingDelay + queueDelay, m.totalAccessLatency + accessLatency⟩)
  else (0, perf, m)

/-- The counters of `DramPerfModelReadWrite`. -/
structure DramPerfModelReadWrite where
  numAccesses : ℕ
  totalReadQueueingDelay : ℕ
  totalWriteQueueingDelay : ℕ
  totalAccessLatency : ℕ

/-- `DramPerfModelReadWrite::getAccessLatency`; `computedRead` and `computedWrite` are what the two
queue models answer. With a shared bandwidth a read asks both, and takes the answer of the first. -/
def DramPerfModelReadWrite.getAccessLatency (c : DramConfig) (computedRead computedWrite : ℕ)
    (a : Access) (perf : ShmemPerf) (m : DramPerfModelReadWrite) :
    ℕ × ShmemPerf × DramPerfModelReadWrite :=
  if c.Models a then
    let queueDelay :=
      if c.queueModelEnabled then
        match a.accessType with
        | .read => computedRead
        | .write => computedWrite
      else 0
    let accessLatency := queueDelay + c.processingTime a + c.dramAccessCost
    (accessLatency, stampAccess a.pktTime queueDelay (c.processingTime a) c.dramAccessCost perf,
      match a.accessType with
      | .read => ⟨m.numAccesses + 1, m.totalReadQueueingDelay + queueDelay,
          m.totalWriteQueueingDelay, m.totalAccessLatency + accessLatency⟩
      | .write => ⟨m.numAccesses + 1, m.totalReadQueueingDelay,
          m.totalWriteQueueingDelay + queueDelay, m.totalAccessLatency + accessLatency⟩)
  else (0, perf, m)

/-- The queue, bus and device components together. -/
def ShmemPerf.dramTotal (p : ShmemPerf) : ℕ :=
  p.times .dramQueue + p.times .dramBus + p.times .dramDevice

/-- The DRAM components grow by the latency that is returned. -/
def AddsUp {M : Type} (perf : ShmemPerf) (result : ℕ × ShmemPerf × M) : Prop :=
  result.2.1.dramTotal = perf.dramTotal + result.1

/-- A component after a stamp. -/
theorem ShmemPerf.times_updateTime (other : ShmemTime) : (p.updateTime time reason).times other =
    p.times other + if other = reason then time - p.timeLast else 0 := by
  rw [updateTime]
  split
  · show Function.update p.times reason _ other = _
    rw [Function.update_apply]
    split
    · next same => rw [same]
    · rfl
  · next late => rw [Nat.sub_eq_zero_of_le (Nat.le_of_not_lt late), ite_self, Nat.add_zero]

/-- **The stamps of an access** that is not late add the three parts of its way. -/
theorem dramTotal_stampAccess {pktTime processingTime accessCost : ℕ}
    (inOrder : p.timeLast ≤ pktTime) :
    (stampAccess pktTime queueDelay processingTime accessCost p).dramTotal =
      p.dramTotal + (queueDelay + processingTime + accessCost) := by
  have first : max p.timeLast pktTime = pktTime := max_eq_right inOrder
  have second : max pktTime (pktTime + queueDelay) = pktTime + queueDelay :=
    max_eq_right (Nat.le_add_right _ _)
  have third : max (pktTime + queueDelay) (pktTime + queueDelay + processingTime) =
      pktTime + queueDelay + processingTime := max_eq_right (Nat.le_add_right _ _)
  simp only [stampAccess, ShmemPerf.dramTotal, ShmemPerf.times_updateTime,
    ShmemPerf.timeLast_updateTime, first, second, third, reduceCtorEq, if_false, if_true]
  omega

/-- An access in the low power mode needs its two costs to be the same. -/
def CostsAgree (c : DramConfig) (b : Banks) (a : Access) : Prop :=
  c.Models a → b.bankMode a = lowPower → c.dramAccessCostLowpower = c.dramAccessCost

theorem constant_addsUp_iff (c : DramConfig) (b : Banks) (computed : ℕ) (a : Access)
    (m : DramPerfModelConstant) (inOrder : p.timeLast ≤ a.pktTime) :
    AddsUp p (m.getAccessLatency c b computed a p) ↔ CostsAgree c b a := by
  rw [AddsUp, DramPerfModelConstant.getAccessLatency, CostsAgree]
  by_cases models : c.Models a
  · rw [if_pos models, imp_iff_right models]
    dsimp only
    rw [dramTotal_stampAccess inOrder]
    by_cases low : b.bankMode a = lowPower
    · rw [if_pos low, imp_iff_right low, Nat.add_left_cancel_iff, Nat.add_left_cancel_iff]
      exact eq_comm
    · rw [if_neg low]
      exact iff_of_true rfl fun low' => absurd low' low
  · rw [if_neg models]
    exact iff_of_true rfl fun models' => absurd models' models

theorem readWrite_addsUp (c : DramConfig) (computedRead computedWrite : ℕ) (a : Access)
    (m : DramPerfModelReadWrite) (inOrder : p.timeLast ≤ a.pktTime) :
    AddsUp p (m.getAccessLatency c computedRead computedWrite a p) := by
  rw [AddsUp, DramPerfModelReadWrite.getAccessLatency]
  split
  · exact dramTotal_stampAccess inOrder
  · rfl

/-- **Latency breakdowns.** No component counts time that has not passed, in every state of a run,
exactly if each packet covers its queue delay; the DRAM components grow by the latency of an access
exactly if the two costs agree where the constant model is asked in the low power mode. -/
theorem breakdown_iff (begin : ℕ) (stamps : List Stamp) (c : DramConfig) (b : Banks)
    (computed computedWrite : ℕ) (a : Access) (perf : ShmemPerf)
    (inOrder : perf.timeLast ≤ a.pktTime) :
    ((∀ pre, pre <+: stamps → ∀ s, runEvents Stamped.step pre (.start begin) = .ok s →
        Accounted s) ↔ Along Covers Stamped.step stamps (.start begin)) ∧
    (∀ m : DramPerfModelConstant,
      AddsUp perf (m.getAccessLatency c b computed a perf) ↔ CostsAgree c b a) ∧
    ∀ m : DramPerfModelReadWrite,
      AddsUp perf (m.getAccessLatency c computed computedWrite a perf) :=
  ⟨accounted_run_iff begin stamps, fun m => constant_addsUp_iff c b computed a m inOrder,
    fun m => readWrite_addsUp c computed computedWrite a m inOrder⟩

/-- A model with a queue and the two costs, of which that of the low power mode comes second. -/
def served (normal lowpower : ℕ) : DramConfig := ⟨true, 1, 64, normal, lowpower, true, false⟩

/-- Banks that are all in one power mode. -/
def banksIn (mode : ℕ) : Banks := ⟨⟨.ddr, 1, 8, 3, 0, 8, 7, 7⟩, 0, fun _ => mode⟩

/-- The first access of the first core. -/
def firstAccess : Access := ⟨10, 8, 0, 0, .read⟩

/-- On its way to the directory and the DRAM: two packets that were held up. -/
def wayToDram : List Stamp :=
  [.updateTime 4 .tdAccess, .updatePacket 9 3, .updatePacket 12 2, .updateTime 15 .dram]

/-- In the normal power mode the costs may differ, and in the low power mode they have to agree. -/
theorem breakdown_iff_served :
    (∀ pre, pre <+: wayToDram → ∀ s, runEvents Stamped.step pre (.start 0) = .ok s → Accounted s) ∧
    AddsUp (.reset 10) ((⟨0, 0, 0⟩ : DramPerfModelConstant).getAccessLatency (served 40 20)
      (banksIn 1) 7 firstAccess (.reset 10)) ∧
    ¬ AddsUp (.reset 10) ((⟨0, 0, 0⟩ : DramPerfModelConstant).getAccessLatency (served 40 20)
      (banksIn lowPower) 7 firstAccess (.reset 10)) ∧
    AddsUp (.reset 10) ((⟨0, 0, 0⟩ : DramPerfModelConstant).getAccessLatency (served 40 40)
      (banksIn lowPower) 7 firstAccess (.reset 10)) ∧
    AddsUp (.reset 10) ((⟨0, 0, 0, 0⟩ : DramPerfModelReadWrite).getAccessLatency (served 40 20)
      7 8 firstAccess (.reset 10)) := by
  have normal := breakdown_iff 0 wayToDram (served 40 20) (banksIn 1) 7 8 firstAccess (.reset 10)
    le_rfl
  have low := breakdown_iff 0 [] (served 40 20) (banksIn lowPower) 7 8 firstAccess (.reset 10) le_rfl
  have agree := breakdown_iff 0 [] (served 40 40) (banksIn lowPower) 7 8 firstAccess (.reset 10)
    le_rfl
  refine ⟨normal.1.2 (by decide), (normal.2.1 _).2 fun _ mode => ?_, fun sum => ?_,
    (agree.2.1 _).2 fun _ _ => rfl, normal.2.2 _⟩
  · exact absurd mode (by decide)
  · exact absurd ((low.2.1 _).1 sum (by decide) rfl) (by decide)

/-- A packet with a longer delay than has passed, and an access in the low power mode with a cost of
its own. -/
theorem not_breakdown_delay : (¬ ∀ begin stamps pre, pre <+: stamps → ∀ s,
      runEvents Stamped.step pre (.start begin) = .ok s → Accounted s) ∧
    ¬ ∀ c b computed a perf (m : DramPerfModelConstant), perf.timeLast ≤ a.pktTime →
      AddsUp perf (m.getAccessLatency c b computed a perf) := by
  constructor
  · intro all
    have late := all 0 [.updatePacket 5 8] _ (List.prefix_refl _) _ rfl
    exact absurd late.passed (by decide)
  · intro all
    have cheap := all (served 40 20) (banksIn lowPower) 0 firstAccess (.reset 10) ⟨0, 0, 0⟩ le_rfl
    rw [AddsUp] at cheap
    exact absurd cheap (by decide)

end GpuHotSpot.Common.Breakdown
