import GpuHotSpot.Common.DramTrace
import GpuHotSpot.Lib.BitMask

/-!
# From addresses to memory banks

`dram_trace_collect.cc`: `read_memory_config` makes a mask of the bits of a bank and one of the
banks of a channel; the banks of accesses are taken from the address by these. The first is made by
shifting an `int`, and the second is used in place of a remainder.

* `readMemoryConfig_mask`: what the mask of the banks selects.
* `decodesAll_iff`: when all banks are reached and no others.
-/

namespace GpuHotSpot.Common.DramTrace

open Lib.BitMask

/-! ## The configuration -/

/-- The memory section of a configuration, as it is read. -/
structure MemorySection where
  typeOfStack : StackType
  numChannels : ℕ
  numBanks : ℕ
  bankOffsetInPa : ℕ

/-- The globals of the configuration. -/
structure Memory where
  typeOfStack : StackType
  numOfChannels : ℕ
  numOfBanks : ℕ
  bankAddressBits : ℕ
  bankOffsetInPa : ℕ
  banksPerLayer : ℕ
  banksPerChannel : ℕ
  bankMask : ℕ

/-- A shift of an `int` to the left. From the sign bit on the result is negative, and extended to 64
bits; beyond that it is not defined. -/
def shiftInt (value offset : ℕ) : Option ℕ :=
  if 32 ≤ offset then none
  else if value <<< offset < 2 ^ 31 then some (value <<< offset)
  else if value <<< offset < 2 ^ 32 then some (value <<< offset + (2 ^ 64 - 2 ^ 32))
  else none

/-- `read_memory_config`, with no result where the mask is not defined. -/
def readMemoryConfig (c : MemorySection) : Option Memory :=
  let bankAddressBits := Nat.log 2 c.numBanks
  (shiftInt (1 <<< bankAddressBits - 1) c.bankOffsetInPa).map fun bankMask =>
    { typeOfStack := c.typeOfStack
      numOfChannels := c.numChannels
      numOfBanks := c.numBanks
      bankAddressBits := bankAddressBits
      bankOffsetInPa := c.bankOffsetInPa
      banksPerLayer := if c.typeOfStack = .ddr then c.numBanks else c.numChannels
      banksPerChannel := c.numBanks / c.numChannels - 1
      bankMask := bankMask }

namespace Memory

variable (m : Memory)

/-- The bank of an address, before it is stored in 32 bits. -/
def bank (address mcpFlag : ℕ) : Option ℕ :=
  match m.typeOfStack with
  | .threeDMem | .twoPointFiveD | .threeD =>
    some ((((address &&& m.bankMask) >>> m.bankOffsetInPa) &&& m.banksPerChannel) *
      m.banksPerLayer + mcpFlag % m.numOfChannels)
  | .ddr => some ((address &&& m.bankMask) >>> m.bankOffsetInPa)
  | .other => none

/-- The bank in `dram_read_trace` and in `dram_write_trace`, which end the program at a stack of
another type. -/
def bankAccessed (address mcpFlag : ℕ) : Option ℕ :=
  (m.bank address mcpFlag).map fun bank => bank % 2 ^ 32

/-- `get_address_bank`, which returns `-1` at a stack of another type. -/
def getAddressBank (address mcpFlag : ℕ) : ℕ :=
  ((m.bank address mcpFlag).map fun bank => bank % 2 ^ 32).getD (2 ^ 32 - 1)

/-- `MCP_FLAG` after an access. -/
def nextMcpFlag (mcpFlag : ℕ) : ℕ :=
  match m.typeOfStack with
  | .ddr | .other => mcpFlag
  | _ => if mcpFlag + 1 = m.numOfChannels then 0 else mcpFlag + 1

/-- The values of `MCP_FLAG`, which is zero at the start. -/
def Reachable (mcpFlag : ℕ) : Prop := ∃ accesses, mcpFlag = m.nextMcpFlag^[accesses] 0

end Memory

/-- Every address, with every value of the flag, has a bank of the memory, and every bank is that of
some address. -/
structure DecodesAll (c : MemorySection) (m : Memory) : Prop where
  address_lt : ∀ address < 2 ^ 64, ∀ flag, m.Reachable flag →
    m.getAddressBank address flag < c.numBanks
  access_lt : ∀ address < 2 ^ 64, ∀ flag, m.Reachable flag →
    ∀ bank, m.bankAccessed address flag = some bank → bank < c.numBanks
  covers : ∀ bank < c.numBanks, ∃ address < 2 ^ 64, ∃ flag, m.Reachable flag ∧
    m.getAddressBank address flag = bank ∧ m.bankAccessed address flag = some bank

/-- What is promised of a memory section. -/
structure MemorySection.Valid (c : MemorySection) : Prop where
  channels_dvd : c.numChannels ∣ c.numBanks
  banks_pos : 0 < c.numBanks
  banks_le : c.numBanks ≤ maxNumOfBanks
  offset_lt : Nat.log 2 c.numBanks + c.bankOffsetInPa < 64

/-- The mask fits in an `int`, or in its bits where the sign does not matter, and the number that is
selected by a mask of ones is a power of two. -/
def MemorySection.Decodable (c : MemorySection) : Prop :=
  match c.typeOfStack with
  | .threeDMem | .twoPointFiveD | .threeD =>
    c.bankOffsetInPa < 32 ∧ Nat.log 2 c.numBanks + c.bankOffsetInPa ≤ 32 ∧
      (c.numBanks / c.numChannels).isPowerOfTwo
  | .ddr =>
    Nat.log 2 c.numBanks + c.bankOffsetInPa < 32 ∧ c.numBanks.isPowerOfTwo
  | .other => False

/-! ## The configurations of the access counts -/

def MemoryConfig.toSection (c : MemoryConfig) : MemorySection :=
  ⟨c.typeOfStack, c.numOfChannels, c.numOfBanks, c.bankOffsetInPa⟩

theorem two_pow_sub_one_shiftLeft (bits offset : ℕ) :
    (1 <<< bits - 1) <<< offset = 2 ^ (bits + offset) - 2 ^ offset := by
  rw [Nat.one_shiftLeft, Nat.shiftLeft_eq, Nat.sub_mul, one_mul, pow_add]

/-! ## The mask -/

/-- How many bits the mask selects: a mask that reaches the sign selects all above it too. -/
def selectedBits (bits offset : ℕ) : ℕ := if bits + offset < 32 then bits else 64 - offset

section Mask

variable {bits offset : ℕ}

/-- The shift of ones. -/
theorem shiftInt_ones (low : offset < 32) (fits : bits + offset ≤ 32) :
    shiftInt (1 <<< bits - 1) offset = some ((1 <<< selectedBits bits offset - 1) <<< offset) := by
  have value := two_pow_sub_one_shiftLeft bits offset
  have positive := Nat.two_pow_pos offset
  rw [shiftInt, if_neg (not_le.mpr low), value, selectedBits]
  by_cases small : bits + offset < 32
  · have below : 2 ^ (bits + offset) ≤ 2 ^ 31 := Nat.pow_le_pow_right two_pos (by omega)
    rw [if_pos (by omega), if_pos small, value]
  · have whole : bits + offset = 32 := by omega
    have half : 2 ^ offset ≤ 2 ^ 31 := Nat.pow_le_pow_right two_pos (by omega)
    rw [if_neg (by rw [whole]; omega), if_pos (by rw [whole]; omega), if_neg small,
      two_pow_sub_one_shiftLeft, whole, Nat.sub_add_cancel (by omega)]
    congr 1
    omega

/-- A shift beyond the bits of an `int` is not defined. -/
theorem shiftInt_ones_undefined (undefined : 32 ≤ offset ∨ 32 < bits + offset) :
    shiftInt (1 <<< bits - 1) offset = none := by
  rw [shiftInt]
  by_cases high : 32 ≤ offset
  · rw [if_pos high]
  · have half : 2 ^ offset ≤ 2 ^ 31 := Nat.pow_le_pow_right two_pos (by omega)
    have large : 2 ^ 33 ≤ 2 ^ (bits + offset) := Nat.pow_le_pow_right two_pos (by omega)
    rw [if_neg high, two_pow_sub_one_shiftLeft, if_neg (by omega), if_neg (by omega)]

/-- What the mask of ones selects. -/
theorem and_ones_shiftRight (address width : ℕ) :
    (address &&& (1 <<< width - 1) <<< offset) >>> offset = (address >>> offset) % 2 ^ width := by
  refine and_shiftRight_of_ones ?_ address
  rw [Nat.shiftLeft_shiftRight, Nat.one_shiftLeft]

end Mask

section Decoding

variable {c : MemorySection} {m : Memory} {address flag bank : ℕ}

/-- **What `read_memory_config` reads.** -/
theorem readMemoryConfig_eq_some_iff :
    readMemoryConfig c = some m ↔
      c.bankOffsetInPa < 32 ∧ Nat.log 2 c.numBanks + c.bankOffsetInPa ≤ 32 ∧ m =
        { typeOfStack := c.typeOfStack
          numOfChannels := c.numChannels
          numOfBanks := c.numBanks
          bankAddressBits := Nat.log 2 c.numBanks
          bankOffsetInPa := c.bankOffsetInPa
          banksPerLayer := if c.typeOfStack = .ddr then c.numBanks else c.numChannels
          banksPerChannel := c.numBanks / c.numChannels - 1
          bankMask := (1 <<< selectedBits (Nat.log 2 c.numBanks) c.bankOffsetInPa - 1) <<<
            c.bankOffsetInPa } := by
  rw [readMemoryConfig]
  by_cases defined : c.bankOffsetInPa < 32 ∧ Nat.log 2 c.numBanks + c.bankOffsetInPa ≤ 32
  · rw [shiftInt_ones defined.1 defined.2, Option.map_some, Option.some.injEq, eq_comm]
    simp only [defined.1, defined.2, true_and]
  · rw [shiftInt_ones_undefined (by omega), Option.map_none]
    constructor
    · intro none
      cases none
    · intro read
      exact absurd ⟨read.1, read.2.1⟩ defined

/-- Banks from a formula. -/
theorem decodesAll_iff_of_bank {value : ℕ → ℕ → ℕ}
    (banks : ∀ address flag, m.bank address flag = some (value address flag)) :
    DecodesAll c m ↔ (∀ address < 2 ^ 64, ∀ flag, m.Reachable flag →
        value address flag % 2 ^ 32 < c.numBanks) ∧
      ∀ bank < c.numBanks, ∃ address < 2 ^ 64, ∃ flag, m.Reachable flag ∧
        value address flag % 2 ^ 32 = bank := by
  have accessed : ∀ address flag, m.bankAccessed address flag =
      some (value address flag % 2 ^ 32) := by
    intro address flag
    rw [Memory.bankAccessed, banks, Option.map_some]
  have found : ∀ address flag, m.getAddressBank address flag = value address flag % 2 ^ 32 := by
    intro address flag
    rw [Memory.getAddressBank, banks, Option.map_some, Option.getD_some]
  constructor
  · intro decodes
    refine ⟨fun address small flag reachable => ?_, fun bank below => ?_⟩
    · rw [← found]
      exact decodes.address_lt address small flag reachable
    · obtain ⟨address, small, flag, reachable, same, -⟩ := decodes.covers bank below
      exact ⟨address, small, flag, reachable, by rw [← found, same]⟩
  · rintro ⟨inside, covers⟩
    refine ⟨fun address small flag reachable => ?_, fun address small flag reachable bank is => ?_,
      fun bank below => ?_⟩
    · rw [found]
      exact inside address small flag reachable
    · rw [accessed, Option.some.injEq] at is
      exact is ▸ inside address small flag reachable
    · obtain ⟨address, small, flag, reachable, same⟩ := covers bank below
      exact ⟨address, small, flag, reachable, by rw [found, same], by rw [accessed, same]⟩

/-- The channels take turns. -/
theorem reachable_of_lt (ddr : m.typeOfStack ≠ .ddr) (other : m.typeOfStack ≠ .other)
    (channel : flag < m.numOfChannels) : m.Reachable flag := by
  have next : ∀ flag, m.nextMcpFlag flag =
      if flag + 1 = m.numOfChannels then 0 else flag + 1 := by
    intro flag
    rw [Memory.nextMcpFlag]
    cases stack : m.typeOfStack with
    | ddr => exact absurd stack ddr
    | other => exact absurd stack other
    | threeDMem | twoPointFiveD | threeD => rfl
  refine ⟨flag, ?_⟩
  induction flag with
  | zero => rfl
  | succ flag ih =>
    rw [Function.iterate_succ_apply', ← ih (by omega), next, if_neg (by omega)]

/-- The address whose bank bits are a number. -/
theorem address_lt {number bits offset : ℕ} (small : number < 2 ^ bits) (fits : bits + offset < 64) :
    number <<< offset < 2 ^ 64 := by
  rw [Nat.shiftLeft_eq]
  calc number * 2 ^ offset < 2 ^ bits * 2 ^ offset :=
        Nat.mul_lt_mul_of_pos_right small (Nat.two_pow_pos offset)
    _ = 2 ^ (bits + offset) := (pow_add 2 bits offset).symm
    _ ≤ 2 ^ 64 := Nat.pow_le_pow_right two_pos fits.le

/-- **Banks in the layers of channels.** They are all reached if and only if the layers are a power
of two. -/
theorem decodesAll_interleaved_iff {width : ℕ} (valid : c.Valid)
    (wide : Nat.log 2 c.numBanks ≤ width) (channels : ∀ flag < c.numChannels, m.Reachable flag)
    (banks : ∀ address flag, m.bank address flag =
      some (((address >>> c.bankOffsetInPa) % 2 ^ width &&& (c.numBanks / c.numChannels - 1)) *
        c.numChannels + flag % c.numChannels)) :
    DecodesAll c m ↔ (c.numBanks / c.numChannels).isPowerOfTwo := by
  rw [decodesAll_iff_of_bank banks]
  obtain ⟨layers, total⟩ := valid.channels_dvd
  have positive : 0 < c.numChannels * layers := total ▸ valid.banks_pos
  have channelsPos : 0 < c.numChannels := Nat.pos_of_mul_pos_right positive
  have layersPos : 0 < layers := Nat.pos_of_mul_pos_left positive
  have ratio : c.numBanks / c.numChannels = layers := by
    rw [total, Nat.mul_div_cancel_left _ channelsPos]
  have atMost : c.numBanks < 2 ^ 32 := valid.banks_le.trans_lt (by decide)
  rw [ratio]
  have inside : ∀ x flag,
      (x &&& (layers - 1)) * c.numChannels + flag % c.numChannels < c.numBanks := by
    intro x flag
    have layer : x &&& (layers - 1) ≤ layers - 1 := Nat.and_le_right
    have channel := Nat.mod_lt flag channelsPos
    have below := Nat.mul_le_mul_right c.numChannels layer
    rw [Nat.sub_mul, one_mul] at below
    have whole : layers * c.numChannels = c.numBanks := by rw [total, Nat.mul_comm]
    have one := Nat.le_mul_of_pos_left c.numChannels layersPos
    omega
  have stored : ∀ x flag,
      ((x &&& (layers - 1)) * c.numChannels + flag % c.numChannels) % 2 ^ 32 =
        (x &&& (layers - 1)) * c.numChannels + flag % c.numChannels :=
    fun x flag => Nat.mod_eq_of_lt ((inside x flag).trans atMost)
  have power : layers.isPowerOfTwo ↔ ∀ l ≤ layers - 1, ∃ x, x &&& (layers - 1) = l := by
    rw [and_mask_covers_iff, Nat.sub_add_cancel layersPos]
  simp only [stored]
  constructor
  · rintro ⟨-, covers⟩
    refine power.mpr fun l below => ?_
    have bank : l * c.numChannels < c.numBanks := by
      rw [total, Nat.mul_comm]
      exact Nat.mul_lt_mul_of_pos_left (by omega) channelsPos
    obtain ⟨address, -, flag, -, same⟩ := covers (l * c.numChannels) bank
    have divided := congrArg (fun n => n / c.numChannels) same
    simp only [Nat.mul_div_cancel _ channelsPos] at divided
    rw [Nat.mul_comm, Nat.mul_add_div channelsPos, Nat.div_eq_of_lt (Nat.mod_lt _ channelsPos),
      add_zero] at divided
    exact ⟨_, divided⟩
  · intro covered
    refine ⟨fun address _ flag _ => inside _ flag, fun bank below => ?_⟩
    obtain ⟨k, two⟩ := covered
    have layer : bank / c.numChannels < layers := by
      rw [Nat.div_lt_iff_lt_mul channelsPos, Nat.mul_comm, ← total]
      exact below
    have bits : k ≤ Nat.log 2 c.numBanks := by
      refine Nat.le_log_of_pow_le Nat.one_lt_two ?_
      rw [← two, total]
      exact Nat.le_mul_of_pos_left layers channelsPos
    have narrow : bank / c.numChannels < 2 ^ Nat.log 2 c.numBanks :=
      (two ▸ layer).trans_le (Nat.pow_le_pow_right two_pos bits)
    refine ⟨(bank / c.numChannels) <<< c.bankOffsetInPa, address_lt narrow valid.offset_lt,
      bank % c.numChannels, channels _ (Nat.mod_lt _ channelsPos), ?_⟩
    rw [Nat.shiftLeft_shiftRight,
      Nat.mod_eq_of_lt (narrow.trans_le (Nat.pow_le_pow_right two_pos wide)), Nat.mod_mod, two,
      Nat.and_two_pow_sub_one_eq_mod, Nat.mod_eq_of_lt (two ▸ layer), Nat.mul_comm,
      Nat.div_add_mod]

/-- **Banks of a stack without layers.** -/
theorem decodesAll_ddr_iff (valid : c.Valid) (low : c.bankOffsetInPa < 32)
    (fits : Nat.log 2 c.numBanks + c.bankOffsetInPa ≤ 32) (start : m.Reachable 0)
    (banks : ∀ address flag, m.bank address flag = some ((address >>> c.bankOffsetInPa) %
        2 ^ selectedBits (Nat.log 2 c.numBanks) c.bankOffsetInPa)) :
    DecodesAll c m ↔ Nat.log 2 c.numBanks + c.bankOffsetInPa < 32 ∧ c.numBanks.isPowerOfTwo := by
  rw [decodesAll_iff_of_bank banks]
  have lower : 2 ^ Nat.log 2 c.numBanks ≤ c.numBanks := Nat.pow_log_le_self 2 valid.banks_pos.ne'
  have upper : c.numBanks < 2 ^ (Nat.log 2 c.numBanks + 1) :=
    Nat.lt_pow_succ_log_self Nat.one_lt_two _
  have few : Nat.log 2 c.numBanks < 8 :=
    Nat.log_lt_of_lt_pow valid.banks_pos.ne' (valid.banks_le.trans_lt (by decide))
  set bits := Nat.log 2 c.numBanks with bitsOf
  have short : 2 ^ bits ≤ 2 ^ 32 := Nat.pow_le_pow_right two_pos (by omega)
  by_cases signless : bits + c.bankOffsetInPa < 32
  · rw [selectedBits, if_pos signless]
    have stored : ∀ x : ℕ, x % 2 ^ bits % 2 ^ 32 = x % 2 ^ bits := fun x =>
      Nat.mod_eq_of_lt ((Nat.mod_lt x (Nat.two_pow_pos bits)).trans_le short)
    simp only [stored, signless, true_and]
    constructor
    · rintro ⟨-, covers⟩
      have positive := valid.banks_pos
      obtain ⟨address, -, flag, -, last⟩ := covers (c.numBanks - 1) (by omega)
      have below := Nat.mod_lt (address >>> c.bankOffsetInPa) (Nat.two_pow_pos bits)
      exact ⟨bits, by omega⟩
    · rintro ⟨k, two⟩
      have exact : c.numBanks = 2 ^ bits := by
        rw [bitsOf, two, Nat.log_pow Nat.one_lt_two]
      refine ⟨fun address _ flag _ => (Nat.mod_lt _ (Nat.two_pow_pos bits)).trans_le lower,
        fun bank below => ?_⟩
      rw [exact] at below
      refine ⟨bank <<< c.bankOffsetInPa, address_lt below valid.offset_lt, 0, start, ?_⟩
      rw [Nat.shiftLeft_shiftRight, Nat.mod_eq_of_lt below]
  · -- the mask reaches the sign, and selects one bit too many
    have whole : bits + c.bankOffsetInPa = 32 := by omega
    simp only [signless, false_and, iff_false]
    rintro ⟨inside, -⟩
    have above := inside (2 ^ (bits + 1) <<< c.bankOffsetInPa)
      (@address_lt _ (bits + 2) _ (Nat.pow_lt_pow_right Nat.one_lt_two (by omega)) (by omega))
      0 start
    rw [Nat.shiftLeft_shiftRight, selectedBits, if_neg signless, Nat.mod_eq_of_lt
      (Nat.pow_lt_pow_right Nat.one_lt_two (by omega)), Nat.mod_eq_of_lt
      (Nat.pow_lt_pow_right Nat.one_lt_two (by omega))] at above
    omega

end Decoding

theorem MemorySection.Decodable.mask_fits {c : MemorySection} (decodable : c.Decodable) :
    c.bankOffsetInPa < 32 ∧ Nat.log 2 c.numBanks + c.bankOffsetInPa ≤ 32 := by
  rw [MemorySection.Decodable] at decodable
  cases stack : c.typeOfStack with
  | ddr =>
    rw [stack] at decodable
    exact ⟨by omega, decodable.1.le⟩
  | other =>
    rw [stack] at decodable
    exact decodable.elim
  | threeDMem | twoPointFiveD | threeD =>
    rw [stack] at decodable
    exact ⟨decodable.1, decodable.2.1⟩

/-- **When all banks are reached and no others.** For every valid memory section, the banks of all
addresses and flags are those of the memory, if and only if the section is decodable. -/
theorem decodesAll_iff (c : MemorySection) (valid : c.Valid) :
    (∃ m, readMemoryConfig c = some m ∧ DecodesAll c m) ↔ c.Decodable := by
  by_cases defined : c.bankOffsetInPa < 32 ∧ Nat.log 2 c.numBanks + c.bankOffsetInPa ≤ 32
  · obtain ⟨low, fits⟩ := defined
    obtain ⟨m, read⟩ : ∃ m, readMemoryConfig c = some m :=
      ⟨_, readMemoryConfig_eq_some_iff.2 ⟨low, fits, rfl⟩⟩
    obtain ⟨-, -, globals⟩ := readMemoryConfig_eq_some_iff.1 read
    have one : (∃ m, readMemoryConfig c = some m ∧ DecodesAll c m) ↔ DecodesAll c m := by
      simp only [read, Option.some.injEq, exists_eq_left']
    have wide : Nat.log 2 c.numBanks ≤
        selectedBits (Nat.log 2 c.numBanks) c.bankOffsetInPa := by
      rw [selectedBits]
      split_ifs
      · exact le_rfl
      · have below := valid.offset_lt
        omega
    rw [one, MemorySection.Decodable]
    cases stack : c.typeOfStack with
    | ddr =>
      refine decodesAll_ddr_iff valid low fits ⟨0, rfl⟩ fun address flag => ?_
      rw [globals, Memory.bank]
      simp only [stack]
      rw [and_ones_shiftRight]
    | other =>
      refine iff_false_intro fun decodes => ?_
      have none : ∀ address flag, m.bank address flag = none := by
        intro address flag
        rw [globals, Memory.bank]
        simp only [stack]
      obtain ⟨address, -, flag, -, -, accessed⟩ := decodes.covers 0 valid.banks_pos
      rw [Memory.bankAccessed, none] at accessed
      cases accessed
    | threeDMem | twoPointFiveD | threeD =>
      simp only [low, fits, true_and]
      refine decodesAll_interleaved_iff valid wide (fun flag channel => ?_)
        fun address flag => ?_
      · refine reachable_of_lt ?_ ?_ ?_ <;> rw [globals] <;> simp [stack, channel]
      · rw [globals, Memory.bank]
        simp only [stack, and_ones_shiftRight, reduceCtorEq, if_false]
  · refine ⟨?_, fun decodable => absurd decodable.mask_fits defined⟩
    rintro ⟨m, read, -⟩
    obtain ⟨low, fits, -⟩ := readMemoryConfig_eq_some_iff.1 read
    exact absurd ⟨low, fits⟩ defined

/-- The configuration of `config/gainestown_3Dmem.cfg`. -/
theorem decodesAll_gainestown :
    ∃ m, readMemoryConfig gainestown3Dmem.toSection = some m ∧
      DecodesAll gainestown3Dmem.toSection m := by
  refine (decodesAll_iff gainestown3Dmem.toSection
    ⟨by decide, by decide, by decide, by decide +kernel⟩).mpr ?_
  exact ⟨by decide, by decide +kernel, 5, by decide⟩

/-- Twelve banks in four channels. -/
def twelveBanks : MemorySection := ⟨.threeDMem, 4, 12, 6⟩

/-- The second layer of twelve banks is never reached. -/
theorem decodesAll_twelveBanks :
    twelveBanks.Valid ∧ ¬∃ m, readMemoryConfig twelveBanks = some m ∧ DecodesAll twelveBanks m := by
  refine ⟨⟨by decide, by decide, by decide, by decide +kernel⟩, ?_⟩
  rintro ⟨m, read, decodes⟩
  obtain ⟨-, -, rfl⟩ := readMemoryConfig_eq_some_iff.1 read
  obtain ⟨address, -, flag, -, -, accessed⟩ := decodes.covers 4 (by decide)
  simp only [Memory.bankAccessed, Memory.bank, twelveBanks, Option.map_some,
    Option.some.injEq, reduceCtorEq, if_false] at accessed
  -- the layer of a bank is zero or two
  have even : ∀ x, (x &&& (12 / 4 - 1)) % 2 = 0 := by
    intro x
    have bit : (x &&& (12 / 4 - 1)).testBit 0 = false := by
      rw [Nat.testBit_and, show (12 / 4 - 1 : ℕ).testBit 0 = false by decide, Bool.and_false]
    rw [Nat.testBit_zero, decide_eq_false_iff_not] at bit
    omega
  have layer := even ((address &&& (1 <<< selectedBits (Nat.log 2 12) 6 - 1) <<< 6) >>> 6)
  have small : (address &&& (1 <<< selectedBits (Nat.log 2 12) 6 - 1) <<< 6) >>> 6 &&&
      (12 / 4 - 1) ≤ 12 / 4 - 1 := Nat.and_le_right
  omega

end GpuHotSpot.Common.DramTrace
