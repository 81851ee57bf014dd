import GpuHotSpot.Common.AddressHomeLookup
import GpuHotSpot.Lib.Machine
import GpuHotSpot.Lib.XorHash
import Mathlib.Data.Nat.Log

/-!
# Set indices

`common/core/memory_subsystem/cache/cache_base.cc`: how an address is split in a tag and the index of
a set, with the seven hashes of the block number.

* `floorLog2_eq`: `floorLog2` of a number that is not zero.
* `setIndex_lt`: the index is in range.
* `indexesSets_iff`: when each address gets an index in range, and tag and index tell the blocks
  apart.
-/

namespace GpuHotSpot.Common

/-! ## The code -/

/-- One step of `floorLog2`: the upper half of the bits, if any is set. -/
def floorLog2Step (mask : UInt32) (shift : UInt32) (s : UInt32 × UInt32) : UInt32 × UInt32 :=
  if s.2 &&& mask ≠ 0 then (s.1 + shift, s.2 >>> shift) else s

/-- `floorLog2`, with the `SInt32` it returns taken as the `UInt32` that it is assigned to. -/
def floorLog2 (n : UInt32) : UInt32 :=
  if n = 0 then -1
  else
    let s := floorLog2Step 0xffff0000 16 (0, n)
    let s := floorLog2Step 0x0000ff00 8 s
    let s := floorLog2Step 0x000000f0 4 s
    let s := floorLog2Step 0x0000000c 2 s
    if s.2 &&& 0x00000002 ≠ 0 then s.1 + 1 else s.1

/-- `rng_seed`. -/
def rngSeed (seed : UInt64) : UInt64 := (seed <<< 16) + 0x330E

/-- `rng_next`: what it returns, and the next state. -/
def rngNext (state : UInt64) : UInt64 × UInt64 :=
  let state : UInt64 := 0x5DEECE66D * state + 0xB
  let state := state &&& ((1 : UInt64) <<< 48) - 1
  (state >>> 16, state)

namespace CacheBase

/-- `CacheBase::hash_t`. -/
inductive Hash
  | invalid
  | mask
  | mod
  | rng1Mod
  | rng2Mod
  | primeDis
  | xorMod
  | merMod
  deriving DecidableEq, Repr

def parseAddressHash (hashName : String) : Option Hash :=
  if hashName = "mask" then some .mask
  else if hashName = "mod" then some .mod
  else if hashName = "rng1_mod" then some .rng1Mod
  else if hashName = "rng2_mod" then some .rng2Mod
  else if hashName = "prime_dis" then some .primeDis
  else if hashName = "xor_mod" then some .xorMod
  else if hashName = "mersenne_mod" then some .merMod
  else none

/-- How an address fails to be split. -/
inductive Failure
  | lookup (failure : LookupFailure)
  | divisionByZero
  | shift
  | invalidHash
  deriving DecidableEq, Repr

/-- The check of the constructor. With no sets, the shift by -1 takes the low six bits. -/
def Accepts (numSets : UInt32) (hash : Hash) : Prop :=
  numSets.toUInt64 = 1 <<< (floorLog2 numSets).toUInt64 ∨ hash ≠ .mask

instance (numSets : UInt32) (hash : Hash) : Decidable (Accepts numSets hash) :=
  inferInstanceAs (Decidable (_ ∨ _))

end CacheBase

/-- `CacheBase`, as its constructor leaves it. -/
structure CacheBase where
  blocksize : UInt32
  hash : CacheBase.Hash
  numSets : UInt32
  ahl : Option AddressHomeLookup
  accepted : CacheBase.Accepts numSets hash

namespace CacheBase

/-- A shift to the right, which is defined for fewer than 64 bits. -/
def shiftRight (a : UInt64) (shift : UInt32) : Except Failure UInt64 :=
  if shift < 64 then .ok (a >>> shift.toUInt64) else .error .shift

/-- A remainder. -/
def rem (a b : UInt64) : Except Failure UInt64 :=
  if b = 0 then .error .divisionByZero else .ok (a % b)

variable (c : CacheBase)

def logBlocksize : UInt32 := floorLog2 c.blocksize

def logNumSets : UInt32 := floorLog2 c.numSets

/-- The `switch` of `splitAddress`. -/
def setIndex (blockNum : UInt64) : Except Failure UInt32 :=
  let numSets := c.numSets.toUInt64
  match c.hash with
  | .mask => .ok (blockNum &&& (c.numSets - 1).toUInt64).toUInt32
  | .mod => (rem blockNum numSets).map (·.toUInt32)
  | .rng1Mod => (rem (rngNext (rngSeed blockNum)).1 numSets).map (·.toUInt32)
  | .rng2Mod => (rem (rngNext (rngNext (rngSeed blockNum)).2).1 numSets).map (·.toUInt32)
  | .primeDis => do
      let si ← rem blockNum numSets
      let ti ← shiftRight blockNum c.logNumSets
      (rem (3 * ti + si) numSets).map (·.toUInt32)
  | .xorMod => do
      let si ← rem blockNum numSets
      let ti ← shiftRight blockNum c.logNumSets
      let ti ← rem ti numSets
      .ok (si ^^^ ti).toUInt32
  | .merMod => (rem blockNum (c.numSets - 1).toUInt64).map (·.toUInt32)
  | .invalid => .error .invalidHash

/-- The address that the set is chosen by. -/
def linearAddress (address : UInt64) : Except Failure UInt64 :=
  match c.ahl with
  | none => .ok address
  | some ahl => (ahl.getLinearAddress address).mapError .lookup

/-- `splitAddress`: tag and index of the set. -/
def splitAddress (address : UInt64) : Except Failure (UInt64 × UInt32) := do
  let tag ← shiftRight address c.logBlocksize
  let linearAddress ← c.linearAddress address
  let blockNum ← shiftRight linearAddress c.logBlocksize
  let setIndex ← c.setIndex blockNum
  .ok (tag, setIndex)

def tagToAddress (tag : UInt64) : Except Failure UInt64 :=
  if c.logBlocksize < 64 then .ok (tag <<< c.logBlocksize.toUInt64) else .error .shift

/-! ## The purpose -/

/-- The linear address, as a number. -/
def linear (a : ℕ) : ℕ :=
  match c.ahl with
  | none => a
  | some ahl =>
    a / 2 ^ ahl.ahlParam.toNat / ahl.totalModules.toNat * 2 ^ ahl.ahlParam.toNat +
      a % 2 ^ ahl.ahlParam.toNat

/-- The number of the block that the set is chosen by. -/
def blockNumber (a : ℕ) : ℕ := c.linear a / c.blocksize.toNat

/-- How many block numbers there are. -/
def blockNumbers : ℕ := c.blockNumber (2 ^ 64 - 1) + 1

/-- The xor of the two remainders of a block number is in range. -/
def XorInRange (n b : ℕ) : Prop := (b % n) ^^^ (b / 2 ^ Nat.log 2 n % n) < n

/-- The sizes that go with a hash. A number of sets that is no power of two goes with the hash by xor
only if the addresses do not suffice for as many blocks as `num_sets` times its largest power of
two, and by chance none of these leaves the range. -/
structure Sized : Prop where
  known : c.hash ≠ .invalid
  lookup : ∀ ahl, c.ahl = some ahl → ahl.totalModules ≠ 0
  block : ∃ k, c.blocksize.toNat = 2 ^ k
  some : c.numSets ≠ 0
  several : c.hash = .merMod → c.numSets ≠ 1
  xor : c.hash = .xorMod → (∃ k, c.numSets.toNat = 2 ^ k) ∨
    c.blockNumbers < c.numSets.toNat * 2 ^ Nat.log 2 c.numSets.toNat ∧
      ∀ b < c.blockNumbers, XorInRange c.numSets.toNat b

open AddressHomeLookup in
/-- Each address has an index in range, and tag and index tell the blocks apart. -/
structure IndexesSets : Prop where
  inRange : ∀ a, ∃ tag index, c.splitAddress a = .ok (tag, index) ∧ index < c.numSets
  identifies : ∀ a b, c.splitAddress a = c.splitAddress b ↔ SameBlock c.blocksize.toNat a b
  base : ∀ a tag index, c.splitAddress a = .ok (tag, index) → ∃ base,
    c.tagToAddress tag = .ok base ∧
      base.toNat = a.toNat / c.blocksize.toNat * c.blocksize.toNat

end CacheBase

/-! ## Logarithms -/

/-- What a step of `floorLog2` has found of a logarithm when the bits left are fewer than `s`. -/
def LogLeft (s log : ℕ) (q : UInt32 × UInt32) : Prop :=
  q.2.toNat ≠ 0 ∧ q.2.toNat < 2 ^ s ∧ q.1.toNat + Nat.log 2 q.2.toNat = log

/-- The mask of a step finds the numbers with a bit in the upper half. -/
theorem and_mask_ne_zero (s : ℕ) {n : UInt32} (mask : UInt32)
    (upper : mask.toNat = 2 ^ s * (2 ^ s - 1)) (below : n.toNat < 2 ^ (s + s)) :
    n &&& mask ≠ 0 ↔ 2 ^ s ≤ n.toNat := by
  have shifted : (n &&& mask).toNat / 2 ^ s = n.toNat / 2 ^ s := by
    rw [UInt32.toNat_and, Nat.and_div_two_pow, upper, Nat.mul_div_cancel_left _ (Nat.two_pow_pos s),
      Nat.and_two_pow_sub_one_eq_mod, Nat.mod_eq_of_lt]
    rwa [Nat.div_lt_iff_lt_mul (Nat.two_pow_pos s), ← pow_add]
  have aligned : (n &&& mask).toNat % 2 ^ s = 0 := by
    rw [UInt32.toNat_and, Nat.and_mod_two_pow, upper, Nat.mul_mod_right, Nat.and_zero]
  have split := Nat.div_add_mod (n &&& mask).toNat (2 ^ s)
  rw [aligned, shifted, add_zero] at split
  rw [Ne, ← UInt32.toNat_inj, ← split, UInt32.toNat_zero, Nat.mul_eq_zero, not_or,
    Nat.div_eq_zero_iff]
  have := Nat.two_pow_pos s
  omega

theorem LogLeft.step {s log : ℕ} {q : UInt32 × UInt32} (few : log < 32) (mask shift : UInt32)
    (left : LogLeft (s + s) log q) (half : shift.toNat = s)
    (upper : mask.toNat = 2 ^ s * (2 ^ s - 1)) (small : s < 32) :
    LogLeft s log (floorLog2Step mask shift q) := by
  obtain ⟨some, below, sum⟩ := left
  rw [floorLog2Step]
  split_ifs with bits
  · rw [and_mask_ne_zero _ _ upper below] at bits
    have shifted : (q.2 >>> shift).toNat = q.2.toNat / 2 ^ s := by
      rw [UInt32.toNat_shiftRight, half, Nat.mod_eq_of_lt small, Nat.shiftRight_eq_div_pow]
    have large := Nat.le_log_of_pow_le Nat.one_lt_two bits
    refine ⟨?_, ?_, ?_⟩
    · rw [shifted]
      exact (Nat.div_pos bits (Nat.two_pow_pos s)).ne'
    · rwa [shifted, Nat.div_lt_iff_lt_mul (Nat.two_pow_pos s), ← pow_add]
    · rw [shifted, Nat.log_div_base_pow, UInt32.toNat_add, half, Nat.mod_eq_of_lt (by omega)]
      omega
  · rw [and_mask_ne_zero _ _ upper below, not_le] at bits
    exact ⟨some, bits, sum⟩

/-- **The logarithm**, for each number but zero. -/
theorem floorLog2_eq {n : UInt32} (some : n ≠ 0) : (floorLog2 n).toNat = Nat.log 2 n.toNat := by
  have nonzero : n.toNat ≠ 0 := fun zero => some (UInt32.toNat_inj.1 zero)
  have few : Nat.log 2 n.toNat < 32 := Nat.log_lt_of_lt_pow nonzero n.toNat_lt
  have start : LogLeft (16 + 16) (Nat.log 2 n.toNat) (0, n) := ⟨nonzero, n.toNat_lt, zero_add _⟩
  have left : LogLeft (8 + 8) (Nat.log 2 n.toNat) _ :=
    start.step few 0xffff0000 16 rfl rfl (by decide)
  have left : LogLeft (4 + 4) (Nat.log 2 n.toNat) _ :=
    left.step few 0x0000ff00 8 rfl rfl (by decide)
  have left : LogLeft (2 + 2) (Nat.log 2 n.toNat) _ :=
    left.step few 0x000000f0 4 rfl rfl (by decide)
  obtain ⟨rest, below, sum⟩ : LogLeft (1 + 1) (Nat.log 2 n.toNat) _ :=
    left.step few 0x0000000c 2 rfl rfl (by decide)
  rw [floorLog2, if_neg some]
  dsimp only
  generalize floorLog2Step 0x0000000c 2 _ = q at *
  have last := and_mask_ne_zero 1 0x00000002 rfl below
  split_ifs with bit
  · rw [last] at bit
    have one : Nat.log 2 q.2.toNat = 1 :=
      Nat.log_eq_of_pow_le_of_lt_pow bit (by omega)
    rw [UInt32.toNat_add, UInt32.toNat_one, Nat.mod_eq_of_lt (by omega)]
    omega
  · rw [last] at bit
    have zero : Nat.log 2 q.2.toNat = 0 := Nat.log_of_lt (by omega)
    omega

namespace CacheBase

open Fallible

variable {c : CacheBase}

/-! ## The index of a set -/

theorem rem_ok {a b : UInt64} (some : b.toNat ≠ 0) : rem a b = .ok (a % b) := by
  rw [rem, if_neg fun zero => some (congrArg UInt64.toNat zero)]

theorem map_rem {a b : UInt64} (some : b.toNat ≠ 0) :
    (rem a b).map (·.toUInt32) = .ok (a % b).toUInt32 := by
  rw [rem_ok some]
  rfl

/-- A remainder modulo the number of sets is in range. -/
theorem toNat_rem_lt (some : c.numSets ≠ 0) (a : UInt64) :
    (a % c.numSets.toUInt64).toNat < c.numSets.toNat := by
  rw [UInt64.toNat_mod, UInt32.toNat_toUInt64]
  exact Nat.mod_lt _ (Nat.pos_of_ne_zero fun zero => some (UInt32.toNat_inj.1 zero))

theorem toUInt32_lt {a : UInt64} (below : a.toNat < c.numSets.toNat) : a.toUInt32 < c.numSets := by
  rw [UInt32.lt_iff_toNat_lt, UInt64.toNat_toUInt32]
  exact lt_of_le_of_lt (Nat.mod_le _ _) below

theorem toNat_shiftRight {a : UInt64} {shift : UInt32} (small : shift.toNat < 64) :
    (a >>> shift.toUInt64).toNat = a.toNat / 2 ^ shift.toNat := by
  rw [UInt64.toNat_shiftRight, UInt32.toNat_toUInt64, Nat.mod_eq_of_lt small,
    Nat.shiftRight_eq_div_pow]

theorem shiftRight_ok {a : UInt64} {shift : UInt32} (small : shift.toNat < 64) :
    shiftRight a shift = .ok (a >>> shift.toUInt64) :=
  if_pos (UInt32.lt_iff_toNat_lt.2 small)

theorem logNumSets_eq (some : c.numSets ≠ 0) : c.logNumSets.toNat = Nat.log 2 c.numSets.toNat :=
  floorLog2_eq some

theorem log_lt {n : UInt32} (some : n ≠ 0) : Nat.log 2 n.toNat < 32 :=
  Nat.log_lt_of_lt_pow (fun zero => some (UInt32.toNat_inj.1 zero)) n.toNat_lt

/-- The xor of two remainders. -/
theorem setIndex_xorMod (some : c.numSets ≠ 0) (hash : c.hash = .xorMod) (block : UInt64) :
    ∃ index : UInt64, c.setIndex block = .ok index.toUInt32 ∧ index.toNat =
      (block.toNat % c.numSets.toNat) ^^^
        (block.toNat / 2 ^ Nat.log 2 c.numSets.toNat % c.numSets.toNat) := by
  have nonzero : c.numSets.toUInt64.toNat ≠ 0 := by
    rw [UInt32.toNat_toUInt64]
    exact fun zero => some (UInt32.toNat_inj.1 zero)
  have small : c.logNumSets.toNat < 64 := by
    rw [logNumSets_eq some]
    exact (log_lt some).trans (by decide)
  refine ⟨(block % c.numSets.toUInt64) ^^^
    (block >>> c.logNumSets.toUInt64 % c.numSets.toUInt64), ?_, ?_⟩
  · rw [setIndex, hash]
    dsimp only
    rw [rem_ok nonzero, shiftRight_ok small, ok_bind, ok_bind, rem_ok nonzero, ok_bind]
  · rw [UInt64.toNat_xor, UInt64.toNat_mod, UInt64.toNat_mod, toNat_shiftRight small,
      logNumSets_eq some, UInt32.toNat_toUInt64]

/-- **In range.** The sets that the hashes accept. -/
theorem setIndex_lt (some : c.numSets ≠ 0) (known : c.hash ≠ .invalid)
    (two : c.hash = .merMod → c.numSets ≠ 1) (block : UInt64)
    (inRange : c.hash = .xorMod → XorInRange c.numSets.toNat block.toNat) :
    ∃ index, c.setIndex block = .ok index ∧ index < c.numSets := by
  have positive : 0 < c.numSets.toNat :=
    Nat.pos_of_ne_zero fun zero => some (UInt32.toNat_inj.1 zero)
  have nonzero : c.numSets.toUInt64.toNat ≠ 0 := by
    rw [UInt32.toNat_toUInt64]
    exact positive.ne'
  have small : c.logNumSets.toNat < 64 := by
    rw [logNumSets_eq some]
    exact (log_lt some).trans (by decide)
  cases hash : c.hash with
  | invalid => exact absurd hash known
  | mask =>
    rw [setIndex, hash]
    refine ⟨_, rfl, toUInt32_lt ?_⟩
    have least : (1 : UInt32) ≤ c.numSets := by
      rw [UInt32.le_iff_toNat_le, UInt32.toNat_one]
      exact positive
    rw [UInt64.toNat_and, UInt32.toNat_toUInt64, UInt32.toNat_sub_of_le _ _ least,
      UInt32.toNat_one]
    exact lt_of_le_of_lt Nat.and_le_right (Nat.sub_lt positive Nat.one_pos)
  | mod =>
    rw [setIndex, hash]
    exact ⟨_, map_rem nonzero, toUInt32_lt (toNat_rem_lt some _)⟩
  | rng1Mod =>
    rw [setIndex, hash]
    exact ⟨_, map_rem nonzero, toUInt32_lt (toNat_rem_lt some _)⟩
  | rng2Mod =>
    rw [setIndex, hash]
    exact ⟨_, map_rem nonzero, toUInt32_lt (toNat_rem_lt some _)⟩
  | primeDis =>
    rw [setIndex, hash]
    dsimp only
    rw [rem_ok nonzero, shiftRight_ok small, ok_bind, ok_bind]
    exact ⟨_, map_rem nonzero, toUInt32_lt (toNat_rem_lt some _)⟩
  | xorMod =>
    obtain ⟨index, found, value⟩ := setIndex_xorMod some hash block
    refine ⟨_, found, toUInt32_lt ?_⟩
    rw [value]
    exact inRange hash
  | merMod =>
    have least : (1 : UInt32) ≤ c.numSets := by
      rw [UInt32.le_iff_toNat_le, UInt32.toNat_one]
      exact positive
    have fewer : (c.numSets - 1).toUInt64.toNat = c.numSets.toNat - 1 := by
      rw [UInt32.toNat_toUInt64, UInt32.toNat_sub_of_le _ _ least, UInt32.toNat_one]
    have several : c.numSets.toNat ≠ 1 := fun one => two hash (UInt32.toNat_inj.1 one)
    rw [setIndex, hash]
    refine ⟨_, map_rem (by rw [fewer]; omega), toUInt32_lt ?_⟩
    rw [UInt64.toNat_mod, fewer]
    exact (Nat.mod_lt _ (by omega)).trans (Nat.sub_lt positive Nat.one_pos)

/-! ## Block numbers -/

theorem linearAddress_eq_ok (lookup : ∀ ahl, c.ahl = some ahl → ahl.totalModules ≠ 0) (a : UInt64) :
    ∃ linear, c.linearAddress a = .ok linear ∧ linear.toNat = c.linear a.toNat := by
  rw [linearAddress, linear]
  cases here : c.ahl with
  | none => exact ⟨a, rfl, rfl⟩
  | some ahl =>
    obtain ⟨linear, found⟩ := AddressHomeLookup.exists_getLinearAddress (lookup ahl here) a
    refine ⟨linear, ?_, (AddressHomeLookup.getLinearAddress_eq_ok_iff (lookup ahl here)).1 found⟩
    dsimp only
    rw [found]
    rfl

theorem logBlocksize_eq {k : ℕ} (block : c.blocksize.toNat = 2 ^ k) :
    c.logBlocksize.toNat = k ∧ k < 32 := by
  have some : c.blocksize ≠ 0 := by
    rintro none
    rw [none] at block
    exact (Nat.two_pow_pos k).ne block
  have log := floorLog2_eq some
  have small := log_lt some
  rw [block, Nat.log_pow Nat.one_lt_two] at log small
  exact ⟨log, small⟩

/-- What an address is split in. -/
theorem splitAddress_eq (lookup : ∀ ahl, c.ahl = some ahl → ahl.totalModules ≠ 0) {k : ℕ}
    (block : c.blocksize.toNat = 2 ^ k) (a : UInt64) :
    ∃ num tag : UInt64, num.toNat = c.blockNumber a.toNat ∧
      tag.toNat = a.toNat / c.blocksize.toNat ∧
      c.splitAddress a = (c.setIndex num).map fun index => (tag, index) := by
  obtain ⟨log, small⟩ := logBlocksize_eq block
  have shift : c.logBlocksize.toNat < 64 := by omega
  obtain ⟨linear, found, value⟩ := linearAddress_eq_ok lookup a
  refine ⟨linear >>> c.logBlocksize.toUInt64, a >>> c.logBlocksize.toUInt64, ?_, ?_, ?_⟩
  · rw [toNat_shiftRight shift, value, log, blockNumber, block]
  · rw [toNat_shiftRight shift, log, block]
  · rw [splitAddress, shiftRight_ok shift, ok_bind, found, ok_bind, shiftRight_ok shift, ok_bind]
    cases c.setIndex (linear >>> c.logBlocksize.toUInt64) with
    | error failure => rfl
    | ok index => rfl

/-- Addresses of one block have one block number. -/
theorem blockNumber_congr {k : ℕ} (block : c.blocksize.toNat = 2 ^ k) {a b : ℕ}
    (same : a / c.blocksize.toNat = b / c.blocksize.toNat) : c.blockNumber a = c.blockNumber b := by
  rw [block] at same
  rw [blockNumber, blockNumber, linear, linear, block]
  cases c.ahl with
  | none => exact same
  | some ahl =>
    dsimp only
    generalize ahl.totalModules.toNat = modules
    generalize ahl.ahlParam.toNat = p
    rcases Nat.le_total k p with inner | outer
    · -- a unit of the lookup is made of whole blocks
      obtain ⟨l, rfl⟩ := Nat.exists_eq_add_of_le inner
      have number (x : ℕ) : (x / 2 ^ (k + l) / modules * 2 ^ (k + l) + x % 2 ^ (k + l)) / 2 ^ k =
          x / 2 ^ k / 2 ^ l / modules * 2 ^ l + x / 2 ^ k % 2 ^ l := by
        rw [pow_add, Nat.mul_left_comm, Nat.mul_add_div (Nat.two_pow_pos k),
          Nat.mod_mul_right_div_self, ← Nat.div_div_eq_div_mul x (2 ^ k) (2 ^ l)]
      rw [number, number, same]
    · -- a block is made of whole units of the lookup
      obtain ⟨l, rfl⟩ := Nat.exists_eq_add_of_le outer
      have number (x : ℕ) : (x / 2 ^ p / modules * 2 ^ p + x % 2 ^ p) / 2 ^ (p + l) =
          x / 2 ^ (p + l) / modules := by
        rw [pow_add, ← Nat.div_div_eq_div_mul, Nat.mul_comm, Nat.mul_add_div (Nat.two_pow_pos p),
          Nat.div_eq_of_lt (Nat.mod_lt _ (Nat.two_pow_pos p)), add_zero, Nat.div_div_eq_div_mul,
          Nat.mul_comm modules, ← Nat.div_div_eq_div_mul, Nat.div_div_eq_div_mul x]
      rw [number, number, same]

/-- The last address is the last of its unit. -/
theorem last_mod {p : ℕ} (inside : p ≤ 64) : (2 ^ 64 - 1) % 2 ^ p = 2 ^ p - 1 := by
  obtain ⟨l, sum⟩ := Nat.exists_eq_add_of_le inside
  have positive := Nat.two_pow_pos p
  have units := Nat.two_pow_pos l
  have split : 2 ^ p * 2 ^ l - 1 = 2 ^ p * (2 ^ l - 1) + (2 ^ p - 1) := by
    rw [Nat.mul_sub, Nat.mul_one]
    have : 2 ^ p ≤ 2 ^ p * 2 ^ l := Nat.le_mul_of_pos_right _ units
    omega
  rw [sum, pow_add, split, Nat.mul_add_mod, Nat.mod_eq_of_lt (by omega)]

theorem linear_le {a : ℕ} (inside : a < 2 ^ 64) : c.linear a ≤ c.linear (2 ^ 64 - 1) := by
  rw [linear, linear]
  cases c.ahl with
  | none => exact Nat.le_sub_one_of_lt inside
  | some ahl =>
    have shift := ahl.ahlParam_lt
    have offset := Nat.mod_lt a (Nat.two_pow_pos ahl.ahlParam.toNat)
    dsimp only
    rw [last_mod (by omega)]
    exact Nat.add_le_add (Nat.mul_le_mul_right _ (Nat.div_le_div_right
      (Nat.div_le_div_right (Nat.le_sub_one_of_lt inside)))) (Nat.le_sub_one_of_lt offset)

/-- Each linear address up to the last is that of an address. -/
theorem exists_linear (lookup : ∀ ahl, c.ahl = some ahl → ahl.totalModules ≠ 0) {x : ℕ}
    (inside : x ≤ c.linear (2 ^ 64 - 1)) : ∃ a : UInt64, c.linear a.toNat = x := by
  suffices number : ∃ a < 2 ^ 64, c.linear a = x by
    obtain ⟨a, below, value⟩ := number
    exact ⟨.ofNat a, by rw [UInt64.toNat_ofNat_of_lt' below, value]⟩
  unfold linear at *
  cases here : c.ahl with
  | none =>
    rw [here] at inside
    exact ⟨x, Nat.lt_of_le_pred (by decide) inside, rfl⟩
  | some ahl =>
    have shift := ahl.ahlParam_lt
    have last := last_mod (by omega : ahl.ahlParam.toNat ≤ 64)
    have modules : 0 < ahl.totalModules.toNat :=
      Nat.pos_of_ne_zero fun zero => lookup ahl here (UInt32.toNat_inj.1 zero)
    have positive := Nat.two_pow_pos ahl.ahlParam.toNat
    rw [here] at inside
    dsimp only at inside ⊢
    generalize ahl.totalModules.toNat = n at *
    generalize 2 ^ ahl.ahlParam.toNat = unit at *
    have split := Nat.div_add_mod' (2 ^ 64 - 1) unit
    rw [last] at split inside
    have offset := Nat.mod_lt x positive
    have quotient : x / unit ≤ (2 ^ 64 - 1) / unit / n := by
      rw [← Nat.lt_succ_iff, Nat.div_lt_iff_lt_mul positive, Nat.succ_mul]
      omega
    have number : x / unit * n * unit ≤ (2 ^ 64 - 1) / unit * unit :=
      Nat.mul_le_mul_right _ ((Nat.le_div_iff_mul_le modules).1 quotient)
    refine ⟨x / unit * n * unit + x % unit, by omega, ?_⟩
    have block : (x / unit * n * unit + x % unit) / unit = x / unit * n := by
      rw [Nat.mul_comm, Nat.mul_add_div positive, Nat.div_eq_of_lt offset, add_zero]
    rw [Nat.mul_add_mod_of_lt offset, block, Nat.mul_div_cancel _ modules, Nat.div_add_mod']

theorem exists_blockNumber (lookup : ∀ ahl, c.ahl = some ahl → ahl.totalModules ≠ 0)
    (some : 0 < c.blocksize.toNat) {b : ℕ} (inside : b < c.blockNumbers) :
    ∃ a : UInt64, c.blockNumber a.toNat = b := by
  rw [blockNumbers, Nat.lt_succ_iff, blockNumber, Nat.le_div_iff_mul_le some] at inside
  obtain ⟨a, linear⟩ := exists_linear lookup inside
  exact ⟨a, by rw [blockNumber, linear, Nat.mul_div_cancel _ some]⟩

/-! ## Tags and indices -/

theorem blockNumber_lt {a : UInt64} : c.blockNumber a.toNat < c.blockNumbers :=
  Nat.lt_succ_of_le (Nat.div_le_div_right (linear_le a.toNat_lt))

/-- The sizes are enough. -/
theorem Sized.indexesSets (sized : c.Sized) : c.IndexesSets := by
  obtain ⟨k, block⟩ := sized.block
  have positive : 0 < c.blocksize.toNat := block ▸ Nat.two_pow_pos k
  have xor (a : UInt64) (hash : c.hash = .xorMod) :
      XorInRange c.numSets.toNat (c.blockNumber a.toNat) := by
    rcases sized.xor hash with ⟨l, power⟩ | ⟨-, inRange⟩
    · have log : Nat.log 2 c.numSets.toNat = l := by rw [power, Nat.log_pow Nat.one_lt_two]
      rw [XorInRange, log]
      exact xor_mod_lt power _
    · exact inRange _ blockNumber_lt
  have split (a : UInt64) : ∃ num tag : UInt64, ∃ index, num.toNat = c.blockNumber a.toNat ∧
      tag.toNat = a.toNat / c.blocksize.toNat ∧ c.setIndex num = .ok index ∧ index < c.numSets ∧
      c.splitAddress a = .ok (tag, index) := by
    obtain ⟨num, tag, number, value, splits⟩ := splitAddress_eq sized.lookup block a
    obtain ⟨index, found, below⟩ := setIndex_lt sized.some sized.known sized.several num
      fun hash => number ▸ xor a hash
    exact ⟨num, tag, index, number, value, found, below, by rw [splits, found]; rfl⟩
  refine ⟨fun a => ?_, fun a b => ?_, fun a tag index found => ?_⟩
  · obtain ⟨-, tag, index, -, -, -, below, splits⟩ := split a
    exact ⟨tag, index, splits, below⟩
  · obtain ⟨num, tag, index, number, value, found, -, splits⟩ := split a
    obtain ⟨num', tag', index', number', value', found', -, splits'⟩ := split b
    rw [splits, splits', AddressHomeLookup.sameBlock_iff positive]
    constructor
    · intro same
      cases same
      rw [← value, ← value']
    · intro same
      have tags : tag = tag' := UInt64.toNat_inj.1 (by rw [value, value', same])
      have nums : num = num' :=
        UInt64.toNat_inj.1 (by rw [number, number', blockNumber_congr block same])
      rw [nums, found'] at found
      cases found
      rw [tags]
  · obtain ⟨_, tag', _, -, value, -, -, splits⟩ := split a
    rw [splits] at found
    cases found
    obtain ⟨log, small⟩ := logBlocksize_eq block
    have shift : c.logBlocksize.toNat < 64 := by omega
    refine ⟨_, if_pos (UInt32.lt_iff_toNat_lt.2 shift), ?_⟩
    rw [UInt64.toNat_shiftLeft, UInt32.toNat_toUInt64, Nat.mod_eq_of_lt shift, Nat.shiftLeft_eq,
      value, log, block]
    exact Nat.mod_eq_of_lt (lt_of_le_of_lt (Nat.div_mul_le_self _ _) a.toNat_lt)

/-- What was computed for an address that was split. -/
theorem splitAddress_ok {a tag : UInt64} {index : UInt32}
    (found : c.splitAddress a = .ok (tag, index)) : c.logBlocksize.toNat < 64 ∧
      tag = a >>> c.logBlocksize.toUInt64 ∧ (∃ linear, c.linearAddress a = .ok linear) ∧
      ∃ num, c.setIndex num = .ok index := by
  obtain ⟨tag', shifted, found⟩ := bind_ok.1 found
  obtain ⟨linear, here, found⟩ := bind_ok.1 found
  obtain ⟨num, -, found⟩ := bind_ok.1 found
  obtain ⟨index', indexed, found⟩ := bind_ok.1 found
  cases found
  rw [shiftRight] at shifted
  split_ifs at shifted with small
  cases shifted
  exact ⟨UInt32.lt_iff_toNat_lt.1 small, rfl, ⟨linear, here⟩, num, indexed⟩

/-- Blocks that are no power of two are not told apart by their tags. -/
theorem IndexesSets.block (indexes : c.IndexesSets) : ∃ k, c.blocksize.toNat = 2 ^ k := by
  obtain ⟨tag, index, found, -⟩ := indexes.inRange 0
  obtain ⟨shift, tag_eq, -, -⟩ := splitAddress_ok found
  have some : c.blocksize ≠ 0 := by
    intro none
    rw [logBlocksize, none] at shift
    exact absurd shift (by decide)
  have nonzero : c.blocksize.toNat ≠ 0 := fun zero => some (UInt32.toNat_inj.1 zero)
  have log : c.logBlocksize.toNat = Nat.log 2 c.blocksize.toNat := floorLog2_eq some
  have least := Nat.pow_log_le_self 2 nonzero
  refine ⟨Nat.log 2 c.blocksize.toNat, ?_⟩
  by_contra other
  have bounded := c.blocksize.toNat_lt
  obtain ⟨a, value⟩ : ∃ a : UInt64, a.toNat = 2 ^ Nat.log 2 c.blocksize.toNat :=
    ⟨.ofNat _, UInt64.toNat_ofNat_of_lt' (show _ < 2 ^ 64 by omega)⟩
  have same : AddressHomeLookup.SameBlock c.blocksize.toNat 0 a := by
    rw [AddressHomeLookup.sameBlock_iff (Nat.pos_of_ne_zero nonzero), value, UInt64.toNat_zero,
      Nat.zero_div, Nat.div_eq_of_lt (by omega)]
  obtain ⟨tag', index', found', -⟩ := indexes.inRange a
  obtain ⟨-, tag_eq', -, -⟩ := splitAddress_ok found'
  have equal := (found.symm.trans ((indexes.identifies 0 a).2 same)).trans found'
  cases equal
  have tags := congrArg UInt64.toNat (tag_eq.symm.trans tag_eq')
  rw [toNat_shiftRight shift, toNat_shiftRight shift, value, log,
    Nat.div_self (Nat.two_pow_pos _), UInt64.toNat_zero, Nat.zero_div] at tags
  exact absurd tags (by decide)

/-- The sizes are needed. -/
theorem IndexesSets.sized (indexes : c.IndexesSets) : c.Sized := by
  obtain ⟨k, block⟩ := indexes.block
  obtain ⟨tag, index, found, below⟩ := indexes.inRange 0
  obtain ⟨-, -, ⟨linear, here⟩, num, indexed⟩ := splitAddress_ok found
  have lookup : ∀ ahl, c.ahl = some ahl → ahl.totalModules ≠ 0 := by
    intro ahl present none
    rw [linearAddress, present] at here
    dsimp only at here
    rw [AddressHomeLookup.getLinearAddress, AddressHomeLookup.getLinearBlock, if_pos none] at here
    cases here
  have nonzero : c.numSets ≠ 0 := by
    intro none
    rw [none] at below
    exact absurd below UInt32.not_lt_zero
  refine ⟨?_, lookup, ⟨k, block⟩, nonzero, ?_, fun hash => ?_⟩
  · intro hash
    rw [setIndex, hash] at indexed
    cases indexed
  · intro hash one
    rw [setIndex, hash, one] at indexed
    cases indexed
  · have inRange : ∀ b < c.blockNumbers, XorInRange c.numSets.toNat b := by
      intro b inside
      obtain ⟨a, rfl⟩ := exists_blockNumber lookup (block ▸ Nat.two_pow_pos k) inside
      obtain ⟨tag, index, found, below⟩ := indexes.inRange a
      obtain ⟨num, tag', number, -, splits⟩ := splitAddress_eq lookup block a
      obtain ⟨wide, xor, value⟩ := setIndex_xorMod nonzero hash num
      have positive := Nat.pos_of_ne_zero fun zero => nonzero (UInt32.toNat_inj.1 zero)
      have narrow : wide.toNat < 2 ^ 32 := by
        rw [value]
        exact Nat.xor_lt_two_pow ((Nat.mod_lt _ positive).trans c.numSets.toNat_lt)
          ((Nat.mod_lt _ positive).trans c.numSets.toNat_lt)
      rw [splits, xor] at found
      cases found
      rwa [UInt32.lt_iff_toNat_lt, UInt64.toNat_toUInt32, Nat.mod_eq_of_lt narrow, value,
        number] at below
    by_cases power : ∃ l, c.numSets.toNat = 2 ^ l
    · exact .inl power
    · refine .inr ⟨?_, inRange⟩
      by_contra enough
      have positive : c.numSets.toNat ≠ 0 := fun zero => nonzero (UInt32.toNat_inj.1 zero)
      have low := Nat.pow_log_le_self 2 positive
      obtain ⟨b, few, outside⟩ := exists_xor_mod_ge
        (lt_of_le_of_ne low fun same => power ⟨_, same.symm⟩)
        (Nat.lt_pow_succ_log_self Nat.one_lt_two c.numSets.toNat)
      exact absurd (inRange b (by omega)) (not_lt.mpr outside)

/-- **Set indices.** Each address gets an index in range, and tag and index tell the blocks apart,
exactly for sizes that go with the hash. The constructor asks for a power of two only with the
hash by masking. -/
theorem indexesSets_iff (c : CacheBase) : c.IndexesSets ↔ c.Sized :=
  ⟨IndexesSets.sized, Sized.indexesSets⟩

/-- Blocks of 64 addresses, without a lookup. -/
def plain (hash : Hash) (numSets : UInt32) (accepted : Accepts numSets hash) : CacheBase :=
  ⟨64, hash, numSets, none, accepted⟩

/-- **Out of range.** Of three sets hashed by xor block 2 is in set 3; and the hash modulo a
set less divides by zero if there is one set. -/
theorem not_indexesSets_plain :
    (plain .xorMod 3 (by decide)).splitAddress 128 = .ok (2, 3) ∧
      ¬ (plain .xorMod 3 (by decide)).IndexesSets ∧
      (plain .merMod 1 (by decide)).splitAddress 0 = .error .divisionByZero ∧
      ¬ (plain .merMod 1 (by decide)).IndexesSets := by
  have third : (plain .xorMod 3 (by decide)).splitAddress 128 = .ok (2, 3) := by decide
  have single : (plain .merMod 1 (by decide)).splitAddress 0 = .error .divisionByZero := by decide
  refine ⟨third, fun indexes => ?_, single, fun indexes => ?_⟩
  · obtain ⟨tag, index, found, below⟩ := indexes.inRange 128
    cases third.symm.trans found
    exact absurd below (by decide)
  · obtain ⟨tag, index, found, -⟩ := indexes.inRange 0
    cases single.symm.trans found

end CacheBase

end GpuHotSpot.Common
