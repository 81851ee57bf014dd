import GpuHotSpot.Common.Cache

/-!
# Replacement policies

`common/core/memory_subsystem/cache/cache_set.cc` and the sets of the policies `round_robin`, `lru`,
`lru_qbs`, `nru`, `nmru`, `plru`, `srrip` and `srrip_qbs`: how a set chooses the way of a new line,
and what it keeps of the uses of its ways.

* `CacheSet.step`: what a cache asks of a set, for any order of accesses, insertions, invalidations
  and changes of state.
* `Kept`: what holds of every set that is reached.

The counters and pointers are of type `UInt8`: their values are below 256. The histograms of
`CacheSetInfoLRU` are only printed; what is kept of it are its assertions.
-/

namespace GpuHotSpot.Common.Caches

open Fallible

/-! ## What all sets share -/

/-- What a set stops with. -/
inductive SetFault
  /-- "Error Finding LRU bits", "Error finding replacement index", or "Should not reach here". -/
  | noCandidate
  /-- "PLRU selected an invalid replacement candidate", and the same of SRRIP. -/
  | invalidCandidate
  /-- "CacheCntlr == NULL, QBS can only be used when cntlr is passed in". -/
  | noCntlr
  /-- "Index >= Associativity", of `CacheSetInfoLRU::increment`. -/
  | counterOutOfRange
  /-- "No place to store attempt# histogram but attempt != 0". -/
  | attemptOutOfRange
  /-- "PLRU not implemented for associativity". -/
  | unsupportedAssociativity
  /-- A recursion without an end. -/
  | endless
  /-- An index that is not below the associativity. -/
  | indexOutOfRange
  /-- A line that is not there. -/
  | noLine
  deriving DecidableEq, Repr

/-- The controller that a policy asks, by its answers `CacheCntlr::isInLowerLevelCache`; some
callers pass none. -/
abbrev Cntlr := Option (BlockInfo → Bool)

/-- `CacheSet::isValidReplacement`. -/
def isValidReplacement (ways : ℕ → BlockInfo) (index : ℕ) : Prop :=
  (ways index).cstate ≠ .sharedUpgrading

instance (ways : ℕ → BlockInfo) (index : ℕ) : Decidable (isValidReplacement ways index) :=
  inferInstanceAs (Decidable (_ ≠ _))

/-- The loop that all policies but round robin begin with. -/
def firstInvalid (associativity : ℕ) (ways : ℕ → BlockInfo) : Option ℕ :=
  (List.range associativity).find? fun i => ¬ (ways i).isValid

/-- `CacheSetInfoLRU::increment`. -/
def increment (associativity index : ℕ) : Except SetFault Unit :=
  if index < associativity then .ok () else .error .counterOutOfRange

/-- `CacheSetInfoLRU::incrementAttempt`. -/
def incrementAttempt (numAttempts attempt : ℕ) : Except SetFault Unit :=
  if 1 < numAttempts ∨ attempt = 0 then .ok () else .error .attemptOutOfRange

/-- Whether a candidate is rejected: only before the last attempt. -/
def qbsReject (numAttempts attempt : ℕ) (cntlr : Cntlr) (info : BlockInfo) : Except SetFault Bool :=
  if attempt + 1 < numAttempts then
    match cntlr with
    | none => .error .noCntlr
    | some isInLowerLevelCache => .ok (isInLowerLevelCache info)
  else .ok false

/-- `CacheSetLRU::moveToMRU`, and `CacheSetNMRU::updateReplacementIndex`. -/
def moveToMRU (associativity : ℕ) (bits : ℕ → ℕ) (accessed : ℕ) : ℕ → ℕ :=
  let aged := (List.range associativity).foldl (fun bits i =>
    if bits i < bits accessed then Function.update bits i (bits i + 1) else bits) bits
  Function.update aged accessed 0

/-- The next value of a replacement pointer. -/
def nextPointer (associativity pointer : ℕ) : ℕ := (pointer + 1) % associativity % 256

/-- The search from a replacement pointer, over `left` ways. -/
def searchFrom (associativity : ℕ) (picks : ℕ → Prop) [DecidablePred picks] : ℕ → ℕ → Option ℕ
  | 0, _ => none
  | left + 1, pointer =>
    if picks pointer then some pointer
    else searchFrom associativity picks left (nextPointer associativity pointer)

/-! ## The sets of the policies -/

section Policies

variable (associativity : ℕ) (ways : ℕ → BlockInfo) (cntlr : Cntlr)

structure CacheSetLRU where
  numAttempts : ℕ
  lruBits : ℕ → ℕ

namespace CacheSetLRU

def create (numAttempts : ℕ) : CacheSetLRU := ⟨numAttempts, fun i => i % 256⟩

/-- The way with the highest counter among those that may be replaced, and way 0 if all of these
have counter 0. -/
def select (bits : ℕ → ℕ) : ℕ :=
  ((List.range associativity).foldl (fun (found : ℕ × ℕ) i =>
    if found.2 < bits i ∧ isValidReplacement ways i then (i, bits i) else found) (0, 0)).1

/-- The attempts from `attempt` on, of which `left` are left. -/
def attempts (numAttempts : ℕ) : ℕ → ℕ → (ℕ → ℕ) → Except SetFault (ℕ × (ℕ → ℕ))
  | 0, _, _ => .error .noCandidate
  | left + 1, attempt, bits =>
    let index := select associativity ways bits
    if index < associativity then do
      let reject ← qbsReject numAttempts attempt cntlr (ways index)
      if reject then
        attempts numAttempts left (attempt + 1) (moveToMRU associativity bits index)
      else do
        incrementAttempt numAttempts attempt
        .ok (index, moveToMRU associativity bits index)
    else .error .noCandidate

def getReplacementIndex (s : CacheSetLRU) : Except SetFault (ℕ × CacheSetLRU) :=
  match firstInvalid associativity ways with
  | some i => .ok (i, { s with lruBits := moveToMRU associativity s.lruBits i })
  | none => do
      let (index, bits) ← attempts associativity ways cntlr s.numAttempts s.numAttempts 0 s.lruBits
      .ok (index, { s with lruBits := bits })

def updateReplacementIndex (accessed : ℕ) (s : CacheSetLRU) : Except SetFault CacheSetLRU := do
  increment associativity (s.lruBits accessed)
  .ok { s with lruBits := moveToMRU associativity s.lruBits accessed }

end CacheSetLRU

structure CacheSetNRU where
  lruBits : ℕ → ℕ
  numBitsSet : ℕ
  replacementPointer : ℕ

namespace CacheSetNRU

def create : CacheSetNRU := ⟨fun _ => 0, 0, 0⟩

def updateReplacementIndex (accessed : ℕ) (s : CacheSetNRU) : CacheSetNRU :=
  let numBitsSet := (s.numBitsSet + 1) % 256
  if numBitsSet = associativity then { s with lruBits := fun _ => 0, numBitsSet := 0 }
  else { s with lruBits := Function.update s.lruBits accessed 1, numBitsSet := numBitsSet }

/-- `have_zero_bit`. -/
def haveZeroBit (bits : ℕ → ℕ) : Prop := ∃ i < associativity, bits i = 0 ∧ isValidReplacement ways i

instance (bits : ℕ → ℕ) : Decidable (haveZeroBit associativity ways bits) :=
  inferInstanceAs (Decidable (∃ i < associativity, _))

def getReplacementIndex (s : CacheSetNRU) : Except SetFault (ℕ × CacheSetNRU) :=
  match firstInvalid associativity ways with
  | some i => .ok (i, s.updateReplacementIndex associativity i)
  | none =>
    match searchFrom associativity (fun i => (s.lruBits i = 0 ∨
        ¬ haveZeroBit associativity ways s.lruBits) ∧ isValidReplacement ways i)
        associativity s.replacementPointer with
    | none => .error .noCandidate
    | some index =>
      let s := { s with replacementPointer := nextPointer associativity index }
      .ok (index, s.updateReplacementIndex associativity index)

end CacheSetNRU

structure CacheSetNMRU where
  lruBits : ℕ → ℕ
  replacementPointer : ℕ

namespace CacheSetNMRU

def create : CacheSetNMRU := ⟨fun i => i % 256, 0⟩

def updateReplacementIndex (accessed : ℕ) (s : CacheSetNMRU) : CacheSetNMRU :=
  { s with lruBits := moveToMRU associativity s.lruBits accessed }

def getReplacementIndex (s : CacheSetNMRU) : Except SetFault (ℕ × CacheSetNMRU) :=
  match firstInvalid associativity ways with
  | some i => .ok (i, s.updateReplacementIndex associativity i)
  | none =>
    match searchFrom associativity (fun i => s.lruBits i ≠ 0 ∧ isValidReplacement ways i)
        associativity s.replacementPointer with
    | none => .error .noCandidate
    | some index =>
      let s := { s with replacementPointer := nextPointer associativity index }
      .ok (index, s.updateReplacementIndex associativity index)

end CacheSetNMRU

/-- The bits of the tree, of the values 0 and 1. -/
structure CacheSetPLRU where
  b : ℕ → ℕ

namespace CacheSetPLRU

def create : Except SetFault CacheSetPLRU :=
  if associativity = 4 ∨ associativity = 8 then .ok ⟨fun _ => 0⟩
  else .error .unsupportedAssociativity

/-- The writes of an update. -/
def write (writes : List (ℕ × ℕ)) (s : CacheSetPLRU) : CacheSetPLRU :=
  ⟨writes.foldl (fun b (write : ℕ × ℕ) => Function.update b write.1 write.2) s.b⟩

def updateReplacementIndex (accessed : ℕ) (s : CacheSetPLRU) : Except SetFault CacheSetPLRU :=
  if associativity = 4 then
    .ok (match accessed with
      | 0 => s.write [(0, 1), (1, 1)]
      | 1 => s.write [(0, 1), (1, 0)]
      | 2 => s.write [(0, 0), (2, 1)]
      | 3 => s.write [(0, 0), (2, 0)]
      | _ => s)
  else if associativity = 8 then
    .ok (match accessed with
      | 0 => s.write [(0, 1), (1, 1), (2, 1)]
      | 1 => s.write [(0, 1), (1, 1), (2, 0)]
      | 2 => s.write [(0, 1), (1, 0), (3, 1)]
      | 3 => s.write [(0, 1), (1, 0), (3, 0)]
      | 4 => s.write [(0, 0), (4, 1), (5, 1)]
      | 5 => s.write [(0, 0), (4, 1), (5, 0)]
      | 6 => s.write [(0, 0), (4, 0), (6, 1)]
      | 7 => s.write [(0, 0), (4, 0), (6, 0)]
      | _ => s)
  else .error .unsupportedAssociativity

/-- `retValue`: the way that the bits lead to. -/
def retValue (s : CacheSetPLRU) : Except SetFault ℕ :=
  if associativity = 4 then
    .ok (if s.b 0 = 0 then (if s.b 1 = 0 then 0 else 1) else (if s.b 2 = 0 then 2 else 3))
  else if associativity = 8 then
    .ok (if s.b 0 = 0 then
        (if s.b 1 = 0 then (if s.b 2 = 0 then 0 else 1) else (if s.b 3 = 0 then 2 else 3))
      else (if s.b 4 = 0 then (if s.b 5 = 0 then 4 else 5) else (if s.b 6 = 0 then 6 else 7)))
  else .error .unsupportedAssociativity

def getReplacementIndex (s : CacheSetPLRU) : Except SetFault (ℕ × CacheSetPLRU) :=
  match firstInvalid associativity ways with
  | some i => do .ok (i, ← s.updateReplacementIndex associativity i)
  | none => do
      let index ← s.retValue associativity
      if isValidReplacement ways index then
        .ok (index, ← s.updateReplacementIndex associativity index)
      else .error .invalidCandidate

end CacheSetPLRU

structure CacheSetSRRIP where
  rripMax : ℕ
  rripInsert : ℕ
  numAttempts : ℕ
  rripBits : ℕ → ℕ
  replacementPointer : ℕ

namespace CacheSetSRRIP

/-- The maximum of counters of so many bits, cut to 8 bits. The shift of the source is defined for
fewer than 32 bits. -/
def create (numbits numAttempts : ℕ) : CacheSetSRRIP :=
  let rripMax := (2 ^ numbits - 1) % 256
  let rripInsert := (rripMax + 255) % 256
  ⟨rripMax, rripInsert, numAttempts, fun _ => rripInsert, 0⟩

/-- The inner loop, with `left` steps left: it goes on, with the next attempt, or returns a way. -/
def scan : ℕ → ℕ → CacheSetSRRIP → Except SetFault ((ℕ × CacheSetSRRIP) ⊕ (ℕ × CacheSetSRRIP))
  | 0, attempt, s => .ok (.inl (attempt, s))
  | left + 1, attempt, s =>
    let index := s.replacementPointer
    if s.rripMax ≤ s.rripBits index then do
      let reject ← qbsReject s.numAttempts attempt cntlr (ways index)
      if reject then
        scan left (attempt + 1) { s with rripBits := Function.update s.rripBits index 0 }
      else do
        let s := { s with
          replacementPointer := nextPointer associativity index
          rripBits := Function.update s.rripBits index s.rripInsert }
        incrementAttempt s.numAttempts attempt
        if isValidReplacement ways index then .ok (.inr (index, s)) else .error .invalidCandidate
    else scan left attempt { s with replacementPointer := nextPointer associativity index }

/-- The increments after a round. -/
def age (s : CacheSetSRRIP) : CacheSetSRRIP :=
  { s with rripBits := fun i =>
      if i < associativity ∧ s.rripBits i < s.rripMax then s.rripBits i + 1 else s.rripBits i }

/-- The outer loop, with `left` rounds left. -/
def rounds : ℕ → ℕ → CacheSetSRRIP → Except SetFault (ℕ × CacheSetSRRIP)
  | 0, _, _ => .error .noCandidate
  | left + 1, attempt, s => do
      match ← scan associativity ways cntlr associativity attempt s with
      | .inl (attempt, s) => rounds left attempt (s.age associativity)
      | .inr found => .ok found

def getReplacementIndex (s : CacheSetSRRIP) : Except SetFault (ℕ × CacheSetSRRIP) :=
  match firstInvalid associativity ways with
  | some i => .ok (i, { s with rripBits := Function.update s.rripBits i s.rripInsert })
  | none => rounds associativity ways cntlr (s.rripMax + 1) 0 s

def updateReplacementIndex (accessed : ℕ) (s : CacheSetSRRIP) : Except SetFault CacheSetSRRIP := do
  increment associativity (s.rripBits accessed)
  .ok { s with rripBits := Function.update s.rripBits accessed (s.rripBits accessed - 1) }

end CacheSetSRRIP

structure CacheSetRoundRobin where
  replacementIndex : ℕ

namespace CacheSetRoundRobin

def create : CacheSetRoundRobin := ⟨associativity - 1⟩

/-- The index before another one, around the set. -/
def previous (index : ℕ) : ℕ := if index = 0 then associativity - 1 else index - 1

/-- The recursion, to the depth `left`: where none of the ways may be replaced it has no end. -/
def descend : ℕ → CacheSetRoundRobin → Except SetFault (ℕ × CacheSetRoundRobin)
  | 0, _ => .error .endless
  | left + 1, s =>
    let index := previous associativity s.replacementIndex
    if isValidReplacement ways index then .ok (s.replacementIndex, ⟨index⟩)
    else descend left ⟨index⟩

def getReplacementIndex (s : CacheSetRoundRobin) : Except SetFault (ℕ × CacheSetRoundRobin) :=
  descend associativity ways associativity s

end CacheSetRoundRobin

end Policies

/-! ## The set of a policy -/

/-- The values of `CacheBase::ReplacementPolicy` but `MRU` and `RANDOM`. -/
inductive Policy
  | roundRobin
  | lru
  | lruQbs
  | nru
  | nmru
  | plru
  | srrip
  | srripQbs
  deriving DecidableEq, Repr

/-- What the configuration says of a cache: its associativity, `qbs/attempts` and `srrip/bits`. -/
structure SetConfig where
  associativity : ℕ
  attempts : ℤ
  bits : ℤ

/-- `CacheSet::getNumQBSAttempts`. -/
def getNumQBSAttempts (cfg : SetConfig) : Policy → ℕ
  | .lruQbs | .srripQbs => (cfg.attempts % 256).toNat
  | _ => 1

/-- The part of a set that its policy adds. -/
inductive Replacer
  | roundRobin (s : CacheSetRoundRobin)
  | lru (s : CacheSetLRU)
  | nru (s : CacheSetNRU)
  | nmru (s : CacheSetNMRU)
  | plru (s : CacheSetPLRU)
  | srrip (s : CacheSetSRRIP)

def Replacer.getReplacementIndex (associativity : ℕ) (ways : ℕ → BlockInfo) (cntlr : Cntlr) :
    Replacer → Except SetFault (ℕ × Replacer)
  | .roundRobin s => do
      let (index, s) ← s.getReplacementIndex associativity ways
      .ok (index, .roundRobin s)
  | .lru s => do
      let (index, s) ← s.getReplacementIndex associativity ways cntlr
      .ok (index, .lru s)
  | .nru s => do
      let (index, s) ← s.getReplacementIndex associativity ways
      .ok (index, .nru s)
  | .nmru s => do
      let (index, s) ← s.getReplacementIndex associativity ways
      .ok (index, .nmru s)
  | .plru s => do
      let (index, s) ← s.getReplacementIndex associativity ways
      .ok (index, .plru s)
  | .srrip s => do
      let (index, s) ← s.getReplacementIndex associativity ways cntlr
      .ok (index, .srrip s)

def Replacer.updateReplacementIndex (associativity accessed : ℕ) :
    Replacer → Except SetFault Replacer
  | .roundRobin s => .ok (.roundRobin s)
  | .lru s => do .ok (.lru (← s.updateReplacementIndex associativity accessed))
  | .nru s => .ok (.nru (s.updateReplacementIndex associativity accessed))
  | .nmru s => .ok (.nmru (s.updateReplacementIndex associativity accessed))
  | .plru s => do .ok (.plru (← s.updateReplacementIndex associativity accessed))
  | .srrip s => do .ok (.srrip (← s.updateReplacementIndex associativity accessed))

structure CacheSet where
  ways : ℕ → BlockInfo
  replacer : Replacer

/-- A line after `CacheBlockInfo::invalidate`; the options stay. -/
def BlockInfo.invalidate (info : BlockInfo) : BlockInfo :=
  { info with tag := invalidTag, cstate := .invalid }

/-- `CacheSet::createCacheSet`. -/
def createCacheSet (cfg : SetConfig) (policy : Policy) : Except SetFault CacheSet := do
  let numAttempts := getNumQBSAttempts cfg policy
  let replacer : Replacer ← match policy with
    | .roundRobin => .ok (.roundRobin (.create cfg.associativity))
    | .lru | .lruQbs => .ok (.lru (.create numAttempts))
    | .nru => .ok (.nru .create)
    | .nmru => .ok (.nmru .create)
    | .plru => do .ok (.plru (← CacheSetPLRU.create cfg.associativity))
    | .srrip | .srripQbs => .ok (.srrip (.create (cfg.bits % 256).toNat numAttempts))
  .ok ⟨fun _ => ⟨invalidTag, .invalid, false⟩, replacer⟩

/-! ## What a cache asks of a set -/

/-- The tag of an address: with blocks of two bytes or more it is not that of an invalid line. -/
abbrev Tag := { tag : ℕ // tag ≠ invalidTag }

/-- `accessSingleLine`, `insertSingleLine`, `invalidateSingleLine`, and a `setCState` of the line
that `peekSingleLine` gives. -/
inductive SetEvent
  | access (tag : Tag) (updateReplacement : Bool)
  | insert (tag : Tag) (cntlr : Cntlr)
  | invalidate (tag : Tag)
  | setCState (tag : Tag) (cstate : CState)

namespace CacheSet

/-- `CacheSet::find`. -/
def find (associativity : ℕ) (tag : Tag) (set : CacheSet) : Option ℕ :=
  (List.range associativity).reverse.find? fun index => (set.ways index).tag = tag.val

def setWay (index : ℕ) (info : BlockInfo) (set : CacheSet) : CacheSet :=
  { set with ways := Function.update set.ways index info }

/-- `CacheSet::insert` of a new line. -/
def insert (associativity : ℕ) (tag : Tag) (cntlr : Cntlr) (set : CacheSet) :
    Except SetFault CacheSet := do
  let (index, replacer) ← set.replacer.getReplacementIndex associativity set.ways cntlr
  if index < associativity then
    .ok (setWay index ⟨tag.val, .invalid, false⟩ { set with replacer := replacer })
  else .error .indexOutOfRange

/-- `CacheSet::read_line` and `CacheSet::write_line` of the line with the tag, if there is one. -/
def access (associativity : ℕ) (tag : Tag) (updateReplacement : Bool) (set : CacheSet) :
    Except SetFault CacheSet :=
  match set.find associativity tag with
  | none => .ok set
  | some index =>
    if updateReplacement then do
      .ok { set with replacer := ← set.replacer.updateReplacementIndex associativity index }
    else .ok set

/-- `CacheSet::invalidate`. -/
def invalidate (associativity : ℕ) (tag : Tag) (set : CacheSet) : CacheSet :=
  match set.find associativity tag with
  | none => set
  | some index => set.setWay index (set.ways index).invalidate

def setCState (associativity : ℕ) (tag : Tag) (cstate : CState) (set : CacheSet) :
    Except SetFault CacheSet :=
  match set.find associativity tag with
  | none => .error .noLine
  | some index => .ok (set.setWay index { set.ways index with cstate := cstate })

def step (associativity : ℕ) : SetEvent → CacheSet → Except SetFault CacheSet
  | .access tag updateReplacement, set => set.access associativity tag updateReplacement
  | .insert tag cntlr, set => set.insert associativity tag cntlr
  | .invalidate tag, set => .ok (set.invalidate associativity tag)
  | .setCState tag cstate, set => set.setCState associativity tag cstate

/-- A set that a run of the events leads to. -/
def Reached (cfg : SetConfig) (policy : Policy) (set : CacheSet) : Prop :=
  ∃ created events, createCacheSet cfg policy = .ok created ∧
    runEvents (step cfg.associativity) events created = .ok set

end CacheSet

/-! ## Counters of recency -/

theorem foldl_age (bits : ℕ → ℕ) (accessed k w : ℕ) :
    (List.range k).foldl (fun bits i =>
        if bits i < bits accessed then Function.update bits i (bits i + 1) else bits) bits w =
      if w < k ∧ bits w < bits accessed then bits w + 1 else bits w := by
  induction k generalizing w with
  | zero => simp
  | succ k ih =>
    -- The counter of the way that is accessed does not change in the loop.
    rw [List.range_succ, List.foldl_append, List.foldl_cons, List.foldl_nil]
    simp only [ih, Nat.lt_irrefl, and_false, false_and, if_false]
    rcases Nat.lt_trichotomy w k with before | same | after
    · split
      · rw [Function.update_of_ne before.ne, ih]
        simp [before, Nat.lt_succ_of_lt before]
      · rw [ih]
        simp [before, Nat.lt_succ_of_lt before]
    · subst same
      by_cases older : bits w < bits accessed
      · simp [older]
      · simp [older, ih]
    · have outside : ¬ w < k + 1 := by omega
      split
      · rw [Function.update_of_ne after.ne', ih]
        simp [outside, after.not_gt]
      · rw [ih]
        simp [outside, after.not_gt]

/-- **The counters after a use:** that of the way is 0, and those below it have gone up by one. -/
theorem moveToMRU_apply (associativity : ℕ) (bits : ℕ → ℕ) (accessed w : ℕ) :
    moveToMRU associativity bits accessed w = if w = accessed then 0
      else if w < associativity ∧ bits w < bits accessed then bits w + 1 else bits w := by
  simp only [moveToMRU, Function.update_apply, foldl_age]

/-! ## Replacement pointers -/

/-- The ways that a replacement pointer reaches, a number of 8 bits. -/
def pointed (associativity : ℕ) : ℕ := min associativity 256

variable {associativity pointer : ℕ}

theorem pointed_le : pointed associativity ≤ associativity := min_le_left _ _

theorem pointed_pos (positive : 0 < associativity) : 0 < pointed associativity :=
  lt_min positive (by decide)

/-- The pointer goes around the ways that it reaches. -/
theorem nextPointer_eq (inside : pointer < pointed associativity) :
    nextPointer associativity pointer = (pointer + 1) % pointed associativity := by
  rw [nextPointer]
  rw [pointed] at inside ⊢
  rcases Nat.le_total associativity 256 with small | large
  · rw [min_eq_left small] at inside ⊢
    exact Nat.mod_eq_of_lt (lt_of_lt_of_le (Nat.mod_lt _ (by omega)) small)
  · rw [min_eq_right large] at inside ⊢
    rcases Nat.lt_or_ge (pointer + 1) associativity with before | last
    · rw [Nat.mod_eq_of_lt before]
    · rw [show pointer + 1 = 256 by omega, show associativity = 256 by omega]

theorem nextPointer_lt (inside : pointer < pointed associativity) :
    nextPointer associativity pointer < pointed associativity := by
  rw [nextPointer_eq inside]
  exact Nat.mod_lt _ (by omega)

variable {picks : ℕ → Prop} [DecidablePred picks] {left index : ℕ}

/-- A search finds a way that it picks. -/
theorem searchFrom_spec (inside : pointer < pointed associativity)
    (found : searchFrom associativity picks left pointer = some index) :
    picks index ∧ index < pointed associativity := by
  induction left generalizing pointer with
  | zero => exact nomatch found
  | succ left ih =>
    rw [searchFrom] at found
    split at found
    · next picked =>
        cases found
        exact ⟨picked, inside⟩
    · exact ih (nextPointer_lt inside) found

/-- A search that fails picks none of the ways that it looks at. -/
theorem searchFrom_none (inside : pointer < pointed associativity)
    (missing : searchFrom associativity picks left pointer = none) {i : ℕ} (near : i < left) :
    ¬ picks ((pointer + i) % pointed associativity) := by
  induction left generalizing pointer i with
  | zero => exact absurd near (Nat.not_lt_zero _)
  | succ left ih =>
    rw [searchFrom] at missing
    split at missing
    · exact nomatch missing
    · next passed =>
        cases i with
        | zero =>
          rw [Nat.add_zero, Nat.mod_eq_of_lt inside]
          exact passed
        | succ i =>
          have later := ih (nextPointer_lt inside) missing (Nat.lt_of_succ_lt_succ near)
          rw [nextPointer_eq inside, Nat.mod_add_mod, Nat.add_right_comm] at later
          exact later

/-- **The search of all ways.** It finds a way that it picks, where the pointer reaches one. -/
theorem searchFrom_isSome_iff (inside : pointer < pointed associativity) :
    (searchFrom associativity picks associativity pointer).isSome ↔
      ∃ i < pointed associativity, picks i := by
  constructor
  · intro found
    obtain ⟨index, here⟩ := Option.isSome_iff_exists.1 found
    have ⟨picked, reached⟩ := searchFrom_spec inside here
    exact ⟨index, reached, picked⟩
  · rintro ⟨i, reached, picked⟩
    rw [Option.isSome_iff_ne_none]
    intro missing
    -- The way is so many steps after the pointer, around the set.
    have far : (pointed associativity - pointer + i) % pointed associativity < associativity :=
      lt_of_lt_of_le (Nat.mod_lt _ (by omega)) pointed_le
    have passed := searchFrom_none inside missing far
    rw [Nat.add_mod_mod, ← Nat.add_assoc, Nat.add_sub_cancel' inside.le, Nat.add_mod_left,
      Nat.mod_eq_of_lt reached] at passed
    exact passed picked

/-! ## What holds of every set -/

/-- The pointer or index of a policy is that of a way. -/
def Replacer.Formed (associativity : ℕ) : Replacer → Prop
  | .roundRobin s => s.replacementIndex < associativity
  | .lru _ => True
  | .nru s => s.replacementPointer < pointed associativity
  | .nmru s => s.replacementPointer < pointed associativity
  | .plru _ => associativity = 4 ∨ associativity = 8
  | .srrip s => s.replacementPointer < pointed associativity

variable {ways : ℕ → BlockInfo} {cntlr : Cntlr}

theorem CacheSetRoundRobin.previous_lt {index : ℕ} (inside : index < associativity) :
    previous associativity index < associativity := by
  rw [previous]
  split
  · omega
  · omega

theorem CacheSetRoundRobin.descend_formed {s : CacheSetRoundRobin}
    (inside : s.replacementIndex < associativity) :
    Ensures (fun result => result.2.replacementIndex < associativity) (fun _ => True)
      (descend associativity ways left s) := by
  induction left generalizing s with
  | zero => trivial
  | succ left ih =>
    rw [descend]
    split
    · exact previous_lt inside
    · exact ih (previous_lt inside)

/-- The pointer of a set of SRRIP, in the middle of its search. -/
theorem CacheSetSRRIP.scan_formed {attempt : ℕ} {s : CacheSetSRRIP}
    (inside : s.replacementPointer < pointed associativity) :
    Ensures (fun result => match result with
        | .inl (_, s) => s.replacementPointer < pointed associativity
        | .inr (_, s) => s.replacementPointer < pointed associativity) (fun _ => True)
      (scan associativity ways cntlr left attempt s) := by
  induction left generalizing attempt s with
  | zero => exact inside
  | succ left ih =>
    rw [scan]
    split
    · refine (ensures_any (qbsReject s.numAttempts attempt cntlr _)).bind fun reject _ => ?_
      cases reject with
      | true => exact ih (s := { s with rripBits := _ }) inside
      | false =>
        refine (ensures_any (incrementAttempt s.numAttempts attempt)).bind fun _ _ => ?_
        split
        · exact nextPointer_lt inside
        · trivial
    · exact ih (s := { s with replacementPointer := _ }) (nextPointer_lt inside)

theorem CacheSetSRRIP.rounds_formed {attempt : ℕ} {s : CacheSetSRRIP}
    (inside : s.replacementPointer < pointed associativity) :
    Ensures (fun result => result.2.replacementPointer < pointed associativity) (fun _ => True)
      (rounds associativity ways cntlr left attempt s) := by
  induction left generalizing attempt s with
  | zero => trivial
  | succ left ih =>
    rw [rounds]
    refine (scan_formed inside).bind fun result formed => ?_
    cases result with
    | inl further => exact ih (s := further.2.age associativity) formed
    | inr found => exact formed

theorem CacheSetSRRIP.getReplacementIndex_formed {s : CacheSetSRRIP}
    (inside : s.replacementPointer < pointed associativity) :
    Ensures (fun result => result.2.replacementPointer < pointed associativity) (fun _ => True)
      (s.getReplacementIndex associativity ways cntlr) := by
  rw [getReplacementIndex]
  cases firstInvalid associativity ways with
  | some i => exact inside
  | none => exact rounds_formed inside

@[simp] theorem CacheSetNRU.replacementPointer_update (accessed : ℕ) (s : CacheSetNRU) :
    (s.updateReplacementIndex associativity accessed).replacementPointer =
      s.replacementPointer := by
  rw [updateReplacementIndex]
  split <;> rfl

theorem CacheSetNRU.getReplacementIndex_formed {s : CacheSetNRU}
    (inside : s.replacementPointer < pointed associativity) :
    Ensures (fun result => result.2.replacementPointer < pointed associativity) (fun _ => True)
      (s.getReplacementIndex associativity ways) := by
  rw [getReplacementIndex]
  cases firstInvalid associativity ways with
  | some i => simpa using inside
  | none =>
    dsimp only
    split
    · trivial
    · next index found =>
        simpa using nextPointer_lt (searchFrom_spec inside found).2

theorem CacheSetNMRU.getReplacementIndex_formed {s : CacheSetNMRU}
    (inside : s.replacementPointer < pointed associativity) :
    Ensures (fun result => result.2.replacementPointer < pointed associativity) (fun _ => True)
      (s.getReplacementIndex associativity ways) := by
  rw [getReplacementIndex]
  cases firstInvalid associativity ways with
  | some i => exact inside
  | none =>
    dsimp only
    split
    · trivial
    · next index found => exact nextPointer_lt (searchFrom_spec inside found).2

theorem Replacer.getReplacementIndex_formed {replacer : Replacer}
    (formed : replacer.Formed associativity) :
    Ensures (fun result => result.2.Formed associativity) (fun _ => True)
      (replacer.getReplacementIndex associativity ways cntlr) := by
  cases replacer with
  | roundRobin s => exact (s.descend_formed formed).bind fun _ formed => formed
  | lru s => exact (ensures_any _).bind fun _ _ => trivial
  | nru s => exact (s.getReplacementIndex_formed formed).bind fun _ formed => formed
  | nmru s => exact (s.getReplacementIndex_formed formed).bind fun _ formed => formed
  | plru s => exact (ensures_any _).bind fun _ _ => formed
  | srrip s => exact (s.getReplacementIndex_formed formed).bind fun _ formed => formed

theorem Replacer.updateReplacementIndex_formed {replacer : Replacer} (accessed : ℕ)
    (formed : replacer.Formed associativity) :
    Ensures (Replacer.Formed associativity) (fun _ => True)
      (replacer.updateReplacementIndex associativity accessed) := by
  cases replacer with
  | roundRobin s => exact formed
  | lru s => exact (ensures_any _).bind fun _ _ => trivial
  | nru s => simpa [updateReplacementIndex, Formed] using formed
  | nmru s => exact formed
  | plru s => exact (ensures_any _).bind fun _ _ => formed
  | srrip s =>
    rw [updateReplacementIndex, CacheSetSRRIP.updateReplacementIndex]
    cases increment associativity (s.rripBits accessed) with
    | error _ => trivial
    | ok _ => exact formed

/-- No line that is not in use is in an upgrade, and the policy's part is formed. -/
structure CacheSet.Kept (associativity : ℕ) (set : CacheSet) : Prop where
  unused : ∀ i, ¬ (set.ways i).isValid → isValidReplacement set.ways i
  formed : set.replacer.Formed associativity

namespace CacheSet

variable {set : CacheSet} {tag : Tag} {index : ℕ}

theorem find_spec (found : set.find associativity tag = some index) :
    index < associativity ∧ (set.ways index).tag = tag.val := by
  have member := List.mem_of_find?_eq_some found
  have tag := List.find?_some found
  exact ⟨List.mem_range.1 (List.mem_reverse.1 member), of_decide_eq_true tag⟩

/-- A way changes: it is in use, or it is not in an upgrade. -/
theorem Kept.setWay (kept : Kept associativity set) {info : BlockInfo}
    (good : info.isValid ∨ info.cstate ≠ .sharedUpgrading) :
    Kept associativity (set.setWay index info) where
  unused i invalid := by
    simp only [CacheSet.setWay, isValidReplacement, Function.update_apply] at invalid ⊢
    split at invalid
    · next here =>
        rw [if_pos here]
        exact good.resolve_left invalid
    · next other =>
        rw [if_neg other]
        exact kept.unused i invalid
  formed := kept.formed

/-- **Each step keeps the set.** -/
theorem Kept.step (kept : Kept associativity set) (event : SetEvent) :
    Ensures (Kept associativity) (fun _ => True) (set.step associativity event) := by
  cases event with
  | access tag updateReplacement =>
    rw [CacheSet.step, access]
    split
    · exact kept
    · next index found =>
        split
        · exact (set.replacer.updateReplacementIndex_formed index kept.formed).bind
            fun _ formed => ⟨kept.unused, formed⟩
        · exact kept
  | insert tag cntlr =>
    refine (set.replacer.getReplacementIndex_formed kept.formed).bind fun result formed => ?_
    dsimp only
    split
    · have moved : Kept associativity { set with replacer := result.2 } := ⟨kept.unused, formed⟩
      exact moved.setWay (.inl tag.property)
    · trivial
  | invalidate tag =>
    rw [CacheSet.step, invalidate]
    split
    · exact kept
    · exact kept.setWay (.inr nofun)
  | setCState tag cstate =>
    rw [CacheSet.step, CacheSet.setCState]
    split
    · trivial
    · next index found =>
        refine kept.setWay (.inl ?_)
        rw [BlockInfo.isValid, (find_spec found).2]
        exact tag.property

theorem Kept.create {cfg : SetConfig} {policy : Policy} (positive : 0 < cfg.associativity)
    (created : createCacheSet cfg policy = .ok set) : Kept cfg.associativity set := by
  have start := pointed_pos positive
  cases policy with
  | plru =>
    rw [createCacheSet] at created
    simp only [CacheSetPLRU.create] at created
    split at created
    · next accepted =>
        cases created
        exact ⟨fun _ _ => nofun, accepted⟩
    · exact nomatch created
  | roundRobin =>
    cases created
    exact ⟨fun _ _ => nofun, Nat.sub_lt positive Nat.one_pos⟩
  | lru =>
    cases created
    exact ⟨fun _ _ => nofun, trivial⟩
  | lruQbs =>
    cases created
    exact ⟨fun _ _ => nofun, trivial⟩
  | nru =>
    cases created
    exact ⟨fun _ _ => nofun, start⟩
  | nmru =>
    cases created
    exact ⟨fun _ _ => nofun, start⟩
  | srrip =>
    cases created
    exact ⟨fun _ _ => nofun, start⟩
  | srripQbs =>
    cases created
    exact ⟨fun _ _ => nofun, start⟩

/-- **Every set that is reached is kept.** -/
theorem Reached.kept {cfg : SetConfig} {policy : Policy} (reached : Reached cfg policy set)
    (positive : 0 < cfg.associativity) : Kept cfg.associativity set := by
  obtain ⟨created, events, start, ran⟩ := reached
  exact (ensures_runEvents (fun event _ kept => kept.step event)
    (Kept.create positive start)).of_ok ran

end CacheSet

end GpuHotSpot.Common.Caches
