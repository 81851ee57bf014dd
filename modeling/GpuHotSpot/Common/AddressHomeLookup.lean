import Mathlib.Data.List.Nodup
import Mathlib.Data.Nat.Bitwise
import Mathlib.Data.UInt

/-!
# Home lookup

`common/core/memory_subsystem/address_home_lookup.cc`: the blocks of `2 ^ ahl_param` addresses are
dealt out to the cores of a list in turn, and numbered anew at each core.

* `getHome_eq_ok`, `getLinearAddress_eq_ok`: home and linear address by division.
* `isBijection_iff`: home and linear address determine an address, and the linear addresses of a
  home are consecutive, if the cores can be counted in a `SInt32`; that the addresses of a cache
  block share a home further takes one core, or a cache block size that divides `2 ^ ahl_param`.
-/

namespace GpuHotSpot.Common

/-- `core_id_t`. -/
abbrev CoreId := Int32

/-- How a lookup fails. -/
inductive LookupFailure
  | divisionByZero
  | moduleNum
  | outOfBounds
  deriving DecidableEq, Repr

/-- The check of the constructor. It is defined for shifts within an `int`. -/
def AddressHomeLookup.Accepts (ahlParam cacheBlockSize : UInt32) : Prop :=
  ahlParam < 32 ∧ cacheBlockSize.toInt32 ≤ 1 <<< ahlParam.toInt32

instance (ahlParam cacheBlockSize : UInt32) :
    Decidable (AddressHomeLookup.Accepts ahlParam cacheBlockSize) :=
  inferInstanceAs (Decidable (_ ∧ _))

/-- `AddressHomeLookup`, as its constructor leaves it. -/
structure AddressHomeLookup where
  ahlParam : UInt32
  coreList : List CoreId
  cacheBlockSize : UInt32
  accepted : AddressHomeLookup.Accepts ahlParam cacheBlockSize

namespace AddressHomeLookup

/-! ## The code -/

section Code

variable (ahl : AddressHomeLookup)

def ahlMask : UInt64 := (1 <<< ahl.ahlParam.toUInt64) - 1

def totalModules : UInt32 := .ofNat ahl.coreList.length

def getHome (address : UInt64) : Except LookupFailure CoreId :=
  if ahl.totalModules = 0 then .error .divisionByZero
  else
    let moduleNum : Int32 :=
      ((address >>> ahl.ahlParam.toUInt64) % ahl.totalModules.toUInt64).toUInt32.toInt32
    if 0 ≤ moduleNum ∧ moduleNum < ahl.totalModules.toInt32 then
      match ahl.coreList[moduleNum.toInt.toNat]? with
      | some core => .ok core
      | none => .error .outOfBounds
    else .error .moduleNum

def getLinearBlock (address : UInt64) : Except LookupFailure UInt64 :=
  if ahl.totalModules = 0 then .error .divisionByZero
  else .ok ((address >>> ahl.ahlParam.toUInt64) / ahl.totalModules.toUInt64)

def getLinearAddress (address : UInt64) : Except LookupFailure UInt64 := do
  let linearBlock ← ahl.getLinearBlock address
  .ok ((linearBlock <<< ahl.ahlParam.toUInt64) ||| (address &&& ahl.ahlMask))

end Code

/-! ## The purpose -/

/-- Two addresses are in one block of a size. -/
def SameBlock (size : ℕ) (a b : UInt64) : Prop :=
  ∃ n, a.toNat ∈ Set.Ico (n * size) ((n + 1) * size) ∧ b.toNat ∈ Set.Ico (n * size) ((n + 1) * size)

/-- A lookup places each address at one home, and there at an address of its own. -/
structure IsBijection (ahl : AddressHomeLookup) : Prop where
  returns : ∀ a, ∃ home ∈ ahl.coreList, ∃ linear,
    ahl.getHome a = .ok home ∧ ahl.getLinearAddress a = .ok linear
  determines : ∀ a b, ahl.getHome a = ahl.getHome b →
    ahl.getLinearAddress a = ahl.getLinearAddress b → a = b
  shares : ∀ a b, SameBlock ahl.cacheBlockSize.toNat a b → ahl.getHome a = ahl.getHome b
  consecutive : ∀ home ∈ ahl.coreList, ∃ blocks, 0 < blocks ∧ ∀ linear : UInt64,
    (∃ a, ahl.getHome a = .ok home ∧ ahl.getLinearAddress a = .ok linear) ↔
      linear.toNat < blocks * 2 ^ ahl.ahlParam.toNat
  blocks : ∀ a b linear linear', SameBlock ahl.cacheBlockSize.toNat a b →
    ahl.getLinearAddress a = .ok linear → ahl.getLinearAddress b = .ok linear' →
    SameBlock ahl.cacheBlockSize.toNat linear linear'

variable {ahl : AddressHomeLookup}

/-! ## Home and linear address -/

theorem ahlParam_lt (ahl : AddressHomeLookup) : ahl.ahlParam.toNat < 32 :=
  UInt32.lt_iff_toNat_lt.1 ahl.accepted.1

theorem toNat_shiftRight (ahl : AddressHomeLookup) (a : UInt64) :
    (a >>> ahl.ahlParam.toUInt64).toNat = a.toNat / 2 ^ ahl.ahlParam.toNat := by
  rw [UInt64.toNat_shiftRight, Nat.shiftRight_eq_div_pow, UInt32.toNat_toUInt64,
    Nat.mod_eq_of_lt (by have := ahl.ahlParam_lt; omega)]

theorem toNat_totalModules (few : ahl.coreList.length < 2 ^ 32) :
    ahl.totalModules.toNat = ahl.coreList.length := by
  rw [totalModules, UInt32.toNat_ofNat', Nat.mod_eq_of_lt few]

theorem totalModules_ne_zero (nonempty : ahl.coreList ≠ [])
    (few : ahl.coreList.length < 2 ^ 32) : ahl.totalModules ≠ 0 := by
  intro none
  have := toNat_totalModules few
  rw [none] at this
  exact nonempty (List.length_eq_zero_iff.mp this.symm)

theorem toInt_toInt32 (n : UInt32) : n.toInt32.toInt = (n.toNat : ℤ).bmod (2 ^ 32) := by
  rw [← Int32.toInt_toBitVec, UInt32.toBitVec_toInt32, BitVec.toInt_eq_toNat_bmod]
  rfl

/-- A number that fits is what its `SInt32` is. -/
theorem toInt_toInt32_of_lt {n : UInt32} (fits : n.toNat < 2 ^ 31) :
    n.toInt32.toInt = n.toNat := by
  rw [toInt_toInt32]
  exact Int.bmod_eq_of_le (by omega) (by omega)

/-- A number that does not fit is negative. -/
theorem toInt_toInt32_of_le {n : UInt32} (large : 2 ^ 31 ≤ n.toNat) : n.toInt32.toInt < 0 := by
  have bounded := n.toNat_lt
  rw [toInt_toInt32, Int.bmod_def]
  split_ifs <;> omega

/-- The number of the module, as a `SInt32`. -/
theorem toInt_moduleNum (ahl : AddressHomeLookup) {n : ℕ} (few : n < 2 ^ 31)
    (total : ahl.totalModules.toNat = n) (positive : 0 < n) (a : UInt64) :
    (((a >>> ahl.ahlParam.toUInt64) % ahl.totalModules.toUInt64).toUInt32.toInt32).toInt =
      (a.toNat / 2 ^ ahl.ahlParam.toNat % n : ℕ) := by
  have below := Nat.mod_lt (a.toNat / 2 ^ ahl.ahlParam.toNat) positive
  have value : ((a >>> ahl.ahlParam.toUInt64) % ahl.totalModules.toUInt64).toUInt32.toNat =
      a.toNat / 2 ^ ahl.ahlParam.toNat % n := by
    rw [UInt64.toNat_toUInt32, UInt64.toNat_mod, toNat_shiftRight, UInt32.toNat_toUInt64, total]
    exact Nat.mod_eq_of_lt (by omega)
  rw [toInt_toInt32_of_lt (by omega), value]

/-- **The home** is the core that the number of the block of `2 ^ ahl_param` addresses selects. -/
theorem getHome_eq_ok (nonempty : ahl.coreList ≠ []) (few : ahl.coreList.length < 2 ^ 31)
    {a : UInt64} {home : CoreId} : ahl.getHome a = .ok home ↔
      ahl.coreList[a.toNat / 2 ^ ahl.ahlParam.toNat % ahl.coreList.length]? = some home := by
  have total := toNat_totalModules (few.trans (by decide))
  have positive := List.length_pos_of_ne_nil nonempty
  have below := Nat.mod_lt (a.toNat / 2 ^ ahl.ahlParam.toNat) positive
  have moduleNum := ahl.toInt_moduleNum few total positive a
  rw [getHome, if_neg (totalModules_ne_zero nonempty (few.trans (by decide)))]
  dsimp only
  rw [if_pos, moduleNum, Int.toNat_natCast, List.getElem?_eq_getElem below]
  · simp
  · rw [Int32.le_iff_toInt_le, Int32.lt_iff_toInt_lt, moduleNum,
      toInt_toInt32_of_lt (by omega), total]
    exact ⟨Int.natCast_nonneg _, Int.ofNat_lt.2 below⟩

theorem toNat_and_ahlMask (ahl : AddressHomeLookup) (a : UInt64) :
    (a &&& ahl.ahlMask).toNat = a.toNat % 2 ^ ahl.ahlParam.toNat := by
  have shift := ahl.ahlParam_lt
  have power : ((1 : UInt64) <<< ahl.ahlParam.toUInt64).toNat = 2 ^ ahl.ahlParam.toNat := by
    rw [UInt64.toNat_shiftLeft, UInt32.toNat_toUInt64,
      Nat.mod_eq_of_lt (by omega : ahl.ahlParam.toNat < 64), Nat.shiftLeft_eq, UInt64.toNat_one,
      one_mul]
    exact Nat.mod_eq_of_lt (Nat.pow_lt_pow_right (Nat.lt_succ_self 1) (by omega))
  have one : (1 : UInt64) ≤ 1 <<< ahl.ahlParam.toUInt64 := by
    rw [UInt64.le_iff_toNat_le, power]
    exact Nat.one_le_two_pow
  rw [ahlMask, UInt64.toNat_and, UInt64.toNat_sub_of_le _ _ one, power, UInt64.toNat_one,
    Nat.and_two_pow_sub_one_eq_mod]

theorem exists_getLinearAddress (some : ahl.totalModules ≠ 0) (a : UInt64) :
    ∃ linear, ahl.getLinearAddress a = .ok linear := by
  rw [getLinearAddress, getLinearBlock, if_neg some]
  exact ⟨_, rfl⟩

/-- The linear address by division: the number of the block changes, the offset in it stays. -/
theorem getLinearAddress_eq_ok_iff (some : ahl.totalModules ≠ 0) {a linear : UInt64} :
    ahl.getLinearAddress a = .ok linear ↔ linear.toNat =
      a.toNat / 2 ^ ahl.ahlParam.toNat / ahl.totalModules.toNat * 2 ^ ahl.ahlParam.toNat +
        a.toNat % 2 ^ ahl.ahlParam.toNat := by
  have shift := ahl.ahlParam_lt
  have within : a.toNat / 2 ^ ahl.ahlParam.toNat / ahl.totalModules.toNat *
      2 ^ ahl.ahlParam.toNat < 2 ^ 64 :=
    calc
      _ ≤ a.toNat / 2 ^ ahl.ahlParam.toNat * 2 ^ ahl.ahlParam.toNat :=
        Nat.mul_le_mul_right _ (Nat.div_le_self _ _)
      _ ≤ a.toNat := Nat.div_mul_le_self _ _
      _ < 2 ^ 64 := a.toNat_lt
  have value : (((a >>> ahl.ahlParam.toUInt64) / ahl.totalModules.toUInt64) <<<
      ahl.ahlParam.toUInt64 ||| (a &&& ahl.ahlMask)).toNat =
      a.toNat / 2 ^ ahl.ahlParam.toNat / ahl.totalModules.toNat * 2 ^ ahl.ahlParam.toNat +
        a.toNat % 2 ^ ahl.ahlParam.toNat := by
    rw [UInt64.toNat_or, toNat_and_ahlMask, UInt64.toNat_shiftLeft, UInt64.toNat_div,
      toNat_shiftRight, UInt32.toNat_toUInt64, UInt32.toNat_toUInt64,
      Nat.mod_eq_of_lt (by omega : ahl.ahlParam.toNat < 64), Nat.shiftLeft_eq,
      Nat.mod_eq_of_lt within, ← Nat.shiftLeft_eq,
      Nat.shiftLeft_add_eq_or_of_lt (Nat.mod_lt _ (Nat.two_pow_pos _))]
  rw [getLinearAddress, getLinearBlock, if_neg some, ← value]
  constructor
  · intro same
    cases same
    rfl
  · exact fun same => congrArg Except.ok (UInt64.toNat_inj.1 same).symm

theorem getLinearAddress_eq_ok (nonempty : ahl.coreList ≠ [])
    (few : ahl.coreList.length < 2 ^ 32) {a linear : UInt64} :
    ahl.getLinearAddress a = .ok linear ↔ linear.toNat =
      a.toNat / 2 ^ ahl.ahlParam.toNat / ahl.coreList.length * 2 ^ ahl.ahlParam.toNat +
        a.toNat % 2 ^ ahl.ahlParam.toNat := by
  rw [getLinearAddress_eq_ok_iff (totalModules_ne_zero nonempty few), toNat_totalModules few]

/-- Whatever the number of cores, a home is one of the first `m_total_modules`. -/
theorem getHome_ok {a : UInt64} {home : CoreId} (found : ahl.getHome a = .ok home) :
    ahl.totalModules.toNat < 2 ^ 31 ∧
      ∃ m < ahl.totalModules.toNat, ahl.coreList[m]? = some home := by
  rw [getHome] at found
  dsimp only at found
  split_ifs at found with none inside
  rw [Int32.le_iff_toInt_le, Int32.lt_iff_toInt_lt] at inside
  generalize (a >>> ahl.ahlParam.toUInt64 % ahl.totalModules.toUInt64).toUInt32.toInt32 = num at *
  have zero : (0 : Int32).toInt = 0 := rfl
  rw [zero] at inside
  rcases Nat.lt_or_ge ahl.totalModules.toNat (2 ^ 31) with fits | large
  · rw [toInt_toInt32_of_lt fits] at inside
    cases here : ahl.coreList[num.toInt.toNat]? with
    | none =>
      rw [here] at found
      cases found
    | some core =>
      rw [here] at found
      cases found
      exact ⟨fits, _, by omega, here⟩
  · have := toInt_toInt32_of_le large
    omega

/-! ## Blocks -/

theorem sameBlock_iff {size : ℕ} (positive : 0 < size) {a b : UInt64} :
    SameBlock size a b ↔ a.toNat / size = b.toNat / size := by
  have inside (n x : ℕ) : x ∈ Set.Ico (n * size) ((n + 1) * size) ↔ x / size = n := by
    rw [Nat.div_eq_iff positive, Set.mem_Ico, Nat.add_mul, one_mul]
    omega
  simp only [SameBlock, inside]
  constructor
  · rintro ⟨n, first, second⟩
    rw [first, second]
  · exact fun same => ⟨_, rfl, same.symm⟩

theorem not_sameBlock_zero (a b : UInt64) : ¬ SameBlock 0 a b := by
  rintro ⟨n, first, -⟩
  simp at first

/-- A block of a size that divides another is in one block of the other. -/
theorem SameBlock.div_eq {size unit : ℕ} (positive : 0 < size) (divides : size ∣ unit)
    {a b : UInt64} (same : SameBlock size a b) : a.toNat / unit = b.toNat / unit := by
  obtain ⟨c, rfl⟩ := divides
  rw [← Nat.div_div_eq_div_mul, ← Nat.div_div_eq_div_mul, (sameBlock_iff positive).1 same]

/-! ## The lookup as a bijection -/

section Counted

variable (nonempty : ahl.coreList ≠ []) (few : ahl.coreList.length < 2 ^ 31)

include nonempty few

theorem getHome_returns (a : UInt64) : ∃ home ∈ ahl.coreList, ∃ linear,
    ahl.getHome a = .ok home ∧ ahl.getLinearAddress a = .ok linear := by
  have below := Nat.mod_lt (a.toNat / 2 ^ ahl.ahlParam.toNat) (List.length_pos_of_ne_nil nonempty)
  obtain ⟨linear, found⟩ :=
    exists_getLinearAddress (totalModules_ne_zero nonempty (few.trans (by decide))) a
  exact ⟨_, List.getElem_mem below, linear,
    (getHome_eq_ok nonempty few).2 (List.getElem?_eq_getElem below), found⟩

/-- Addresses of one block of `2 ^ ahl_param` share a home. -/
theorem getHome_congr {a b : UInt64} (same : a.toNat / 2 ^ ahl.ahlParam.toNat %
      ahl.coreList.length = b.toNat / 2 ^ ahl.ahlParam.toNat % ahl.coreList.length) :
    ahl.getHome a = ahl.getHome b := by
  obtain ⟨home, -, -, found, -⟩ := getHome_returns nonempty few b
  rw [found, getHome_eq_ok nonempty few, same]
  exact (getHome_eq_ok nonempty few).1 found

variable (distinct : ahl.coreList.Nodup)

include distinct

/-- Each home has a module of its own. -/
theorem module_eq_of_getHome_eq {a b : UInt64} (same : ahl.getHome a = ahl.getHome b) :
    a.toNat / 2 ^ ahl.ahlParam.toNat % ahl.coreList.length =
      b.toNat / 2 ^ ahl.ahlParam.toNat % ahl.coreList.length := by
  obtain ⟨home, -, -, found, -⟩ := getHome_returns nonempty few b
  have first := (getHome_eq_ok nonempty few).1 (same.trans found)
  have second := (getHome_eq_ok nonempty few).1 found
  exact (List.getElem?_inj (Nat.mod_lt _ (List.length_pos_of_ne_nil nonempty)) distinct).1
    (first.trans second.symm)

/-- Home and linear address determine an address. -/
theorem eq_of_getHome_eq {a b : UInt64} (same : ahl.getHome a = ahl.getHome b)
    (linear : ahl.getLinearAddress a = ahl.getLinearAddress b) : a = b := by
  have modules := module_eq_of_getHome_eq nonempty few distinct same
  obtain ⟨-, -, x, -, here⟩ := getHome_returns nonempty few b
  have first := (getLinearAddress_eq_ok nonempty (few.trans (by decide))).1 (linear.trans here)
  have second := (getLinearAddress_eq_ok nonempty (few.trans (by decide))).1 here
  have positive := Nat.two_pow_pos ahl.ahlParam.toNat
  generalize 2 ^ ahl.ahlParam.toNat = unit at *
  have equal := first.symm.trans second
  have offsets : a.toNat % unit = b.toNat % unit := by
    have := congrArg (· % unit) equal
    simpa [Nat.add_mod, Nat.mul_mod_left] using this
  have quotients : a.toNat / unit / ahl.coreList.length = b.toNat / unit / ahl.coreList.length := by
    rw [offsets] at equal
    exact Nat.eq_of_mul_eq_mul_right positive (Nat.add_right_cancel equal)
  have numbers : a.toNat / unit = b.toNat / unit := by
    rw [← Nat.div_add_mod (a.toNat / unit) ahl.coreList.length, quotients, modules,
      Nat.div_add_mod]
  rw [← UInt64.toNat_inj, ← Nat.div_add_mod a.toNat unit, numbers, offsets, Nat.div_add_mod]

/-- How many blocks of `2 ^ ahl_param` addresses a module has. -/
def blockCount (ahl : AddressHomeLookup) (m : ℕ) : ℕ :=
  (2 ^ (64 - ahl.ahlParam.toNat) - 1 - m) / ahl.coreList.length + 1

/-- **The linear addresses** of a home are the first ones. -/
theorem exists_linear_iff {m : ℕ} {home : CoreId} (here : ahl.coreList[m]? = some home)
    (linear : UInt64) :
    (∃ a, ahl.getHome a = .ok home ∧ ahl.getLinearAddress a = .ok linear) ↔
      linear.toNat < ahl.blockCount m * 2 ^ ahl.ahlParam.toNat := by
  have shift := ahl.ahlParam_lt
  have range : 2 ^ (64 - ahl.ahlParam.toNat) * 2 ^ ahl.ahlParam.toNat = 2 ^ 64 := by
    rw [← pow_add, Nat.sub_add_cancel (by omega)]
  have wide : 2 ^ 33 ≤ 2 ^ (64 - ahl.ahlParam.toNat) :=
    Nat.pow_le_pow_right (Nat.succ_pos 1) (by omega)
  have positive := Nat.two_pow_pos ahl.ahlParam.toNat
  obtain ⟨inside, -⟩ := List.getElem?_eq_some_iff.1 here
  have large := few.trans (by decide : 2 ^ 31 < 2 ^ 32)
  rw [blockCount]
  generalize 2 ^ (64 - ahl.ahlParam.toNat) = units at *
  constructor
  · rintro ⟨a, home, address⟩
    have own := (List.getElem?_inj (Nat.mod_lt _ (List.length_pos_of_ne_nil nonempty)) distinct).1
      (((getHome_eq_ok nonempty few).1 home).trans here.symm)
    rw [(getLinearAddress_eq_ok nonempty large).1 address]
    generalize 2 ^ ahl.ahlParam.toNat = unit at *
    have below : a.toNat / unit < units := by
      rw [Nat.div_lt_iff_lt_mul positive, range]
      exact a.toNat_lt
    have split := Nat.div_add_mod (a.toNat / unit) ahl.coreList.length
    rw [own, Nat.mul_comm] at split
    have quotient : a.toNat / unit / ahl.coreList.length ≤ (units - 1 - m) / ahl.coreList.length := by
      rw [Nat.le_div_iff_mul_le (by omega)]
      omega
    have offset := Nat.mod_lt a.toNat positive
    calc
      _ < (a.toNat / unit / ahl.coreList.length + 1) * unit := by
        rw [Nat.add_mul, one_mul]
        omega
      _ ≤ _ := Nat.mul_le_mul_right _ (Nat.succ_le_succ quotient)
  · intro below
    generalize unit_def : 2 ^ ahl.ahlParam.toNat = unit at *
    have quotient : linear.toNat / unit ≤ (units - 1 - m) / ahl.coreList.length :=
      Nat.lt_succ_iff.1 ((Nat.div_lt_iff_lt_mul positive).2 below)
    have number : linear.toNat / unit * ahl.coreList.length + m < units := by
      rw [Nat.le_div_iff_mul_le (by omega)] at quotient
      omega
    have offset := Nat.mod_lt linear.toNat positive
    obtain ⟨address, value⟩ : ∃ a : UInt64, a.toNat =
        (linear.toNat / unit * ahl.coreList.length + m) * unit + linear.toNat % unit := by
      refine ⟨.ofNat _, UInt64.toNat_ofNat_of_lt' ?_⟩
      calc
        _ < (linear.toNat / unit * ahl.coreList.length + m + 1) * unit := by
          rw [Nat.add_mul _ 1, one_mul]
          omega
        _ ≤ units * unit := Nat.mul_le_mul_right _ number
        _ = _ := range
    have block : address.toNat / unit = linear.toNat / unit * ahl.coreList.length + m := by
      rw [value, Nat.mul_comm, Nat.mul_add_div positive, Nat.div_eq_of_lt offset, add_zero]
    refine ⟨address, (getHome_eq_ok nonempty few).2 ?_, (getLinearAddress_eq_ok nonempty large).2 ?_⟩
    · rw [unit_def, block, Nat.mul_add_mod_of_lt inside, here]
    · rw [unit_def, block, value, Nat.mul_add_mod_of_lt offset,
        Nat.mul_comm (linear.toNat / unit), Nat.mul_add_div (by omega), Nat.div_eq_of_lt inside,
        add_zero, Nat.div_add_mod']

end Counted

/-- Cache blocks go to cache blocks. -/
theorem SameBlock.linear (nonempty : ahl.coreList ≠ []) (few : ahl.coreList.length < 2 ^ 31)
    {size : ℕ} (positive : 0 < size) (divides : size ∣ 2 ^ ahl.ahlParam.toNat)
    {a b x y : UInt64} (same : SameBlock size a b) (first : ahl.getLinearAddress a = .ok x)
    (second : ahl.getLinearAddress b = .ok y) : SameBlock size x y := by
  have units := same.div_eq positive divides
  have blocks := (sameBlock_iff positive).1 same
  have large := few.trans (by decide : 2 ^ 31 < 2 ^ 32)
  rw [sameBlock_iff positive, (getLinearAddress_eq_ok nonempty large).1 first,
    (getLinearAddress_eq_ok nonempty large).1 second, units]
  obtain ⟨c, unit⟩ := divides
  rw [unit, Nat.mul_left_comm, Nat.mul_add_div positive, Nat.mul_add_div positive,
    Nat.mod_mul_right_div_self, Nat.mod_mul_right_div_self, blocks]

/-- With more cores than a `SInt32` counts, not all are found. -/
theorem IsBijection.few (bijection : ahl.IsBijection) (distinct : ahl.coreList.Nodup) :
    ahl.coreList.length < 2 ^ 31 := by
  by_contra many
  obtain ⟨home, -, -, found, -⟩ := bijection.returns 0
  obtain ⟨fits, -⟩ := getHome_ok found
  have inside : ahl.totalModules.toNat < ahl.coreList.length := by omega
  obtain ⟨blocks, some, linear⟩ :=
    bijection.consecutive _ (List.getElem_mem inside)
  obtain ⟨a, beyond, -⟩ := (linear 0).2 (Nat.mul_pos some (Nat.two_pow_pos _))
  obtain ⟨-, m, below, here⟩ := getHome_ok beyond
  have same := (List.getElem?_inj inside distinct).1
    ((List.getElem?_eq_getElem inside).trans here.symm)
  omega

/-- Over a boundary of the blocks of `2 ^ ahl_param` the home changes. -/
theorem IsBijection.aligned (bijection : ahl.IsBijection) (distinct : ahl.coreList.Nodup)
    (several : 1 < ahl.coreList.length) (some : ahl.cacheBlockSize.toNat ≠ 0) :
    ahl.cacheBlockSize.toNat ∣ 2 ^ ahl.ahlParam.toNat := by
  have few := bijection.few distinct
  have nonempty : ahl.coreList ≠ [] := List.ne_nil_of_length_pos (by omega)
  have shift := ahl.ahlParam_lt
  have below : 2 ^ ahl.ahlParam.toNat < 2 ^ 64 :=
    Nat.pow_lt_pow_right (Nat.lt_succ_self 1) (by omega)
  have positive := Nat.two_pow_pos ahl.ahlParam.toNat
  obtain ⟨last, atLast⟩ : ∃ a : UInt64, a.toNat = 2 ^ ahl.ahlParam.toNat - 1 :=
    ⟨.ofNat _, UInt64.toNat_ofNat_of_lt' (Nat.lt_of_le_of_lt (Nat.sub_le _ _) below)⟩
  obtain ⟨next, atNext⟩ : ∃ a : UInt64, a.toNat = 2 ^ ahl.ahlParam.toNat :=
    ⟨.ofNat _, UInt64.toNat_ofNat_of_lt' below⟩
  by_contra crosses
  have within : SameBlock ahl.cacheBlockSize.toNat last next := by
    rw [sameBlock_iff (Nat.pos_of_ne_zero some), atLast, atNext]
    generalize 2 ^ ahl.ahlParam.toNat = unit at *
    generalize ahl.cacheBlockSize.toNat = size at *
    have split := Nat.div_add_mod unit size
    have rest : unit % size ≠ 0 := fun none => crosses (Nat.dvd_of_mod_eq_zero none)
    have bound := Nat.mod_lt unit (Nat.pos_of_ne_zero some)
    rw [Nat.div_eq_iff (Nat.pos_of_ne_zero some), Nat.mul_comm]
    omega
  have modules := module_eq_of_getHome_eq nonempty few distinct (bijection.shares _ _ within)
  rw [atLast, atNext, Nat.div_eq_of_lt (by omega), Nat.div_self positive, Nat.zero_mod,
    Nat.mod_eq_of_lt several] at modules
  exact absurd modules (by decide)

/-- **Home lookup.** For cores that a `SInt32` counts, home and linear address determine an address,
and the linear addresses of each home are consecutive from zero on. The addresses of one cache
block share a home exactly if there is one core, or the size of a cache block divides
`2 ^ ahl_param`; the check of the constructor asks for less. -/
theorem isBijection_iff (ahl : AddressHomeLookup) (nonempty : ahl.coreList ≠ [])
    (distinct : ahl.coreList.Nodup) :
    ahl.IsBijection ↔ ahl.coreList.length < 2 ^ 31 ∧ (ahl.coreList.length = 1 ∨
      ahl.cacheBlockSize.toNat = 0 ∨ ahl.cacheBlockSize.toNat ∣ 2 ^ ahl.ahlParam.toNat) := by
  have positive := List.length_pos_of_ne_nil nonempty
  constructor
  · intro bijection
    refine ⟨bijection.few distinct, ?_⟩
    by_cases several : 1 < ahl.coreList.length
    · by_cases none : ahl.cacheBlockSize.toNat = 0
      · exact .inr (.inl none)
      · exact .inr (.inr (bijection.aligned distinct several none))
    · exact .inl (by omega)
  · rintro ⟨few, aligned⟩
    have large := few.trans (by decide : 2 ^ 31 < 2 ^ 32)
    refine ⟨getHome_returns nonempty few, fun a b => eq_of_getHome_eq nonempty few distinct,
      fun a b same => getHome_congr nonempty few ?_, fun home member => ?_,
      fun a b x y same first second => ?_⟩
    · rcases aligned with one | none | divides
      · rw [one, Nat.mod_one, Nat.mod_one]
      · exact absurd (none ▸ same) (not_sameBlock_zero a b)
      · rw [same.div_eq (Nat.pos_of_dvd_of_pos divides (Nat.two_pow_pos _)) divides]
    · obtain ⟨m, here⟩ := List.mem_iff_getElem?.1 member
      exact ⟨ahl.blockCount m, Nat.succ_pos _, exists_linear_iff nonempty few distinct here⟩
    · rcases aligned with one | none | divides
      · have still {a x : UInt64} (linear : ahl.getLinearAddress a = .ok x) : x = a := by
          rw [← UInt64.toNat_inj, (getLinearAddress_eq_ok nonempty large).1 linear, one, Nat.div_one,
            Nat.div_add_mod']
        rwa [still first, still second]
      · exact absurd (none ▸ same) (not_sameBlock_zero a b)
      · exact same.linear nonempty few (Nat.pos_of_dvd_of_pos divides (Nat.two_pow_pos _)) divides
          first second

/-- Two cores that share blocks of 64 addresses, with cache blocks of a given size. -/
def twoCores (cacheBlockSize : UInt32) (accepted : Accepts 6 cacheBlockSize) : AddressHomeLookup :=
  ⟨6, [0, 1], cacheBlockSize, accepted⟩

theorem isBijection_iff_twoCores :
    (twoCores 64 (by decide)).IsBijection ↔ [(0 : CoreId), 1].length < 2 ^ 31 ∧
      ([(0 : CoreId), 1].length = 1 ∨ (64 : UInt32).toNat = 0 ∨
        (64 : UInt32).toNat ∣ 2 ^ (6 : UInt32).toNat) :=
  isBijection_iff (twoCores 64 (by decide)) (by decide) (by decide)

/-- **Cache blocks of 48 addresses are accepted**, but the second has two homes. -/
theorem not_isBijection_twoCores :
    (twoCores 48 (by decide)).coreList ≠ [] ∧ (twoCores 48 (by decide)).coreList.Nodup ∧
      SameBlock 48 63 64 ∧ (twoCores 48 (by decide)).getHome 63 = .ok 0 ∧
      (twoCores 48 (by decide)).getHome 64 = .ok 1 ∧ ¬ (twoCores 48 (by decide)).IsBijection := by
  have same : SameBlock 48 63 64 := ⟨1, ⟨by decide, by decide⟩, ⟨by decide, by decide⟩⟩
  have first : (twoCores 48 (by decide)).getHome 63 = .ok 0 := by decide
  have second : (twoCores 48 (by decide)).getHome 64 = .ok 1 := by decide
  refine ⟨by decide, by decide, same, first, second, fun bijection => ?_⟩
  have equal := first.symm.trans ((bijection.shares 63 64 same).trans second)
  exact absurd equal (by decide)

end AddressHomeLookup

end GpuHotSpot.Common
