import GpuHotSpot.Common.CacheBase
import GpuHotSpot.Common.VictimSelection

/-!
# TLBs

`common/core/memory_subsystem/parametric_dram_directory_msi/tlb.cc`: a chain of TLBs, each an LRU
cache of pages, where each level takes the pages that the level before it evicts.

* `Tlb.once_insert_iff`: when a level holds each page once after an insertion.
* `allocate_spec`: what an allocation makes of a chain.
* `hierarchy_iff`: along a run each level holds each page once exactly if no page is pushed to a
  level that holds it already; an allocated page is always held by the first level, and an evicted
  one by the next.
-/

namespace GpuHotSpot.Common.Caches

open Fallible

/-! ## The code -/

theorem toNat_shift_page (address : UInt64) : (address >>> 12).toNat = address.toNat / 2 ^ 12 := by
  rw [UInt64.toNat_shiftRight, Nat.shiftRight_eq_div_pow]
  rfl

/-- The tag of a page of 4 KB. -/
def pageTag (address : UInt64) : Tag :=
  ⟨(address >>> 12).toNat, by
    have := address.toNat_lt
    rw [toNat_shift_page, invalidTag]
    omega⟩

def tagToAddress (tag : ℕ) : UInt64 := UInt64.ofNat tag <<< 12

/-- `TLB` without its next level; `access` and `miss` are its statistics. -/
structure Tlb where
  numSets : UInt32
  associativity : ℕ
  sets : ℕ → CacheSet
  access : UInt64
  miss : UInt64

/-- What the constructor stops with. -/
inductive TlbFailure
  | divisionByZero
  | notMultiple
  | notPowerOfTwo
  | set (fault : SetFault)
  deriving DecidableEq, Repr

/-- `TLB::TLB`, with the sets of a cache hashed by masking. -/
def Tlb.create (numEntries associativity : UInt32) : Except TlbFailure Tlb :=
  if associativity = 0 then .error .divisionByZero
  else if ¬ CacheBase.Accepts (numEntries / associativity) .mask then .error .notPowerOfTwo
  else if numEntries / associativity * associativity ≠ numEntries then .error .notMultiple
  else
    match createCacheSet ⟨associativity.toNat, 0, 0⟩ .lru with
    | .error fault => .error (.set fault)
    | .ok set => .ok ⟨numEntries / associativity, associativity.toNat, fun _ => set, 0, 0⟩

namespace Tlb

/-- The set of a tag, by `HASH_MASK`. -/
def setIndex (tlb : Tlb) (tag : ℕ) : ℕ := tag &&& (tlb.numSets - 1).toNat

def setSet (tlb : Tlb) (i : ℕ) (set : CacheSet) : Tlb :=
  { tlb with sets := Function.update tlb.sets i set }

/-- `m_cache.accessSingleLine`, whether there is a line, and with `update_replacement`. -/
def accessSingleLine (tlb : Tlb) (address : UInt64) : Except SetFault (Bool × Tlb) := do
  let tag := pageTag address
  let i := tlb.setIndex tag
  let set ← (tlb.sets i).access tlb.associativity tag true
  .ok (((tlb.sets i).find tlb.associativity tag).isSome, tlb.setSet i set)

/-- The way that is replaced for a page. -/
def choice (tlb : Tlb) (address : UInt64) : Except SetFault (ℕ × Replacer) :=
  let set := tlb.sets (tlb.setIndex (pageTag address))
  set.replacer.getReplacementIndex tlb.associativity set.ways none

/-- `m_cache.insertSingleLine`: the address of the page that is evicted. -/
def insertSingleLine (tlb : Tlb) (address : UInt64) : Except SetFault (Option UInt64 × Tlb) := do
  let tag := pageTag address
  let i := tlb.setIndex tag
  let set := tlb.sets i
  let (index, replacer) ← tlb.choice address
  if index < tlb.associativity then
    let old := set.ways index
    .ok (if old.isValid then some (tagToAddress old.tag) else none,
      tlb.setSet i (CacheSet.setWay index ⟨tag, .invalid, false⟩ { set with replacer := replacer }))
  else .error .indexOutOfRange

end Tlb

/-- `TLB::allocate` along a chain of levels. -/
def allocate (address : UInt64) : List Tlb → Except SetFault (List Tlb)
  | [] => .ok []
  | tlb :: next => do
      let (evictAddr, tlb) ← tlb.insertSingleLine address
      match evictAddr with
      | none => .ok (tlb :: next)
      | some evictAddr => do
          let next ← allocate evictAddr next
          .ok (tlb :: next)

/-- `TLB::lookup` along a chain of levels. -/
def lookup (address : UInt64) (allocateOnMiss : Bool) :
    List Tlb → Except SetFault (Bool × List Tlb)
  | [] => .ok (false, [])
  | tlb :: next => do
      let (hit, tlb) ← tlb.accessSingleLine address
      let tlb := { tlb with access := tlb.access + 1 }
      if hit then .ok (true, tlb :: next)
      else do
        let tlb := { tlb with miss := tlb.miss + 1 }
        let (hit, next) ← lookup address false next
        if allocateOnMiss then do
          let levels ← allocate address (tlb :: next)
          .ok (hit, levels)
        else .ok (hit, tlb :: next)

/-- A call of `lookup` on the first level: an address, and `allocate_on_miss`. -/
abbrev Lookup := UInt64 × Bool

def lookupStep (call : Lookup) (levels : List Tlb) : Except SetFault (List Tlb) := do
  let (_, levels) ← lookup call.1 call.2 levels
  .ok levels

/-! ## What a hierarchy is for -/

namespace Tlb

/-- A page is at a way of its set. -/
structure At (tlb : Tlb) (tag : Tag) (way : ℕ) : Prop where
  inside : way < tlb.associativity
  tag : ((tlb.sets (tlb.setIndex tag)).ways way).tag = tag

def Holds (tlb : Tlb) (tag : Tag) : Prop := ∃ way, tlb.At tag way

/-- No two entries have one tag. -/
def Once (tlb : Tlb) : Prop :=
  ∀ i v j w, v < tlb.associativity → w < tlb.associativity → ((tlb.sets i).ways v).isValid →
    ((tlb.sets i).ways v).tag = ((tlb.sets j).ways w).tag → i = j ∧ v = w

/-- All ways of the set of a page are in use. -/
def Full (tlb : Tlb) (tag : Tag) : Prop :=
  ¬ HasInvalid tlb.associativity (tlb.sets (tlb.setIndex tag)).ways

end Tlb

/-- After an allocation the first level holds the page, and the next one the page that was evicted,
where the set was full. -/
def Allocated : UInt64 → List Tlb → List Tlb → Prop
  | address, tlb :: next, tlb' :: next' => tlb'.Holds (pageTag address) ∧
      (tlb.Full (pageTag address) → ∃ evictAddr,
        tlb.insertSingleLine address = .ok (some evictAddr, tlb') ∧
          tlb.Holds (pageTag evictAddr) ∧ Allocated evictAddr next next')
  | _, [], [] => True
  | _, _, _ => False

/-- No page is pushed to a level that holds it, but for the way that is replaced. -/
def Fresh : UInt64 → List Tlb → Prop
  | address, tlb :: next =>
    (∀ index replacer, tlb.choice address = .ok (index, replacer) →
      ∀ way, tlb.At (pageTag address) way → way = index) ∧
    ∀ evictAddr tlb', tlb.insertSingleLine address = .ok (some evictAddr, tlb') →
      Fresh evictAddr next
  | _, [] => True

/-- The first level does not hold the page. -/
def Misses (address : UInt64) : List Tlb → Prop
  | tlb :: _ => ¬ tlb.Holds (pageTag address)
  | [] => False

/-- The condition of a step: where it allocates, no page is pushed to a level that holds it. The
allocation sees the counters of recency that looking up the page has left. -/
def Pushes (levels : List Tlb) (call : Lookup) : Prop :=
  call.2 = true → Misses call.1 levels → ∀ hit touched,
    lookup call.1 false levels = .ok (hit, touched) → Fresh call.1 touched

/-- A hierarchy holds each page once per level, hits in the first level what it has just allocated,
and keeps the page that an allocation evicts in the next level. -/
structure Hierarchy (levels : List Tlb) : Prop where
  once : ∀ tlb ∈ levels, tlb.Once
  hits : ∀ address hit levels', lookup address true levels = .ok (hit, levels') →
    levels' ≠ [] → ∀ again, pageTag again = pageTag address → ∀ allocateOnMiss, ∃ levels'',
      lookup again allocateOnMiss levels' = .ok (true, levels'') ∧ levels''.tail = levels'.tail
  victims : ∀ address, Misses address levels → ∃ hit touched levels',
    lookup address false levels = .ok (hit, touched) ∧
      lookup address true levels = .ok (hit, levels') ∧ Allocated address touched levels'

/-! ## The policy -/

variable {associativity : ℕ} {ways : ℕ → BlockInfo} {replacer : Replacer}

/-- LRU with one attempt, and counters that `CacheSetInfoLRU` can count. -/
def IsLru (associativity : ℕ) (replacer : Replacer) : Prop :=
  ∃ s, replacer = .lru s ∧ s.numAttempts = 1 ∧ ∀ w < associativity, s.lruBits w < associativity

theorem moveToMRU_lt {bits : ℕ → ℕ} (below : ∀ w < associativity, bits w < associativity)
    {accessed : ℕ} (inside : accessed < associativity) :
    ∀ w < associativity, moveToMRU associativity bits accessed w < associativity := by
  intro w here
  have own := below w here
  have other := below accessed inside
  rw [moveToMRU_apply]
  split_ifs <;> omega

/-- A way is always found, and one that is not in use first. -/
theorem IsLru.choice (lru : IsLru associativity replacer) (positive : 0 < associativity)
    (ways : ℕ → BlockInfo) : ∃ index < associativity, ∃ replacer',
      replacer.getReplacementIndex associativity ways none = .ok (index, replacer') ∧
      IsLru associativity replacer' ∧ (HasInvalid associativity ways → ¬ (ways index).isValid) := by
  obtain ⟨s, rfl, one, below⟩ := lru
  rw [Replacer.getReplacementIndex, CacheSetLRU.getReplacementIndex]
  cases found : firstInvalid associativity ways with
  | some i =>
    have ⟨inside, invalid⟩ := firstInvalid_some found
    exact ⟨i, inside, _, rfl, ⟨_, rfl, one, moveToMRU_lt below inside⟩, fun _ => invalid⟩
  | none =>
    have inside : CacheSetLRU.select associativity ways s.lruBits < associativity := by
      rcases CacheSetLRU.select_spec associativity ways s.lruBits with ⟨zero, -⟩ | ⟨free, -⟩
      · rw [zero]
        exact positive
      · exact free.1
    have attempt : CacheSetLRU.attempts associativity ways none s.numAttempts s.numAttempts 0
        s.lruBits = .ok (CacheSetLRU.select associativity ways s.lruBits,
          moveToMRU associativity s.lruBits
            (CacheSetLRU.select associativity ways s.lruBits)) := by
      rw [one, CacheSetLRU.attempts, if_pos inside]
      rfl
    dsimp only
    rw [attempt]
    exact ⟨_, inside, _, rfl, ⟨_, rfl, one, moveToMRU_lt below inside⟩,
      fun some => absurd some (firstInvalid_none found)⟩

theorem IsLru.update (lru : IsLru associativity replacer) {accessed : ℕ}
    (inside : accessed < associativity) : ∃ replacer',
      replacer.updateReplacementIndex associativity accessed = .ok replacer' ∧
      IsLru associativity replacer' := by
  obtain ⟨s, rfl, one, below⟩ := lru
  rw [Replacer.updateReplacementIndex, CacheSetLRU.updateReplacementIndex, increment,
    if_pos (below accessed inside)]
  exact ⟨_, rfl, _, rfl, one, moveToMRU_lt below inside⟩

/-! ## One level -/

namespace Tlb

/-- What holds of each level: LRU sets, and pages in the sets of their tags. -/
structure Formed (tlb : Tlb) : Prop where
  positive : 0 < tlb.associativity
  lru : ∀ i, IsLru tlb.associativity (tlb.sets i).replacer
  home : ∀ i w, w < tlb.associativity → ((tlb.sets i).ways w).isValid →
    ∃ address, ((tlb.sets i).ways w).tag = pageTag address ∧ tlb.setIndex (pageTag address) = i

variable {tlb tlb' : Tlb}

theorem create_formed {numEntries associativity : UInt32}
    (created : create numEntries associativity = .ok tlb) : tlb.Formed ∧ tlb.Once := by
  rw [create] at created
  split_ifs at created with zero power multiple
  cases created
  have positive : 0 < associativity.toNat :=
    Nat.pos_of_ne_zero fun none => zero (UInt32.toNat_inj.1 none)
  have unused : ¬ (BlockInfo.mk invalidTag .invalid false).isValid := fun valid => valid rfl
  exact ⟨⟨positive, fun i => ⟨_, rfl, rfl, fun w inside =>
      lt_of_le_of_lt (Nat.mod_le w 256) inside⟩, fun i w _ valid => absurd valid unused⟩,
    fun i v j w _ _ valid => absurd valid unused⟩

theorem at_of_find {tag : Tag} {way : ℕ}
    (found : (tlb.sets (tlb.setIndex tag)).find tlb.associativity tag = some way) :
    tlb.At tag way :=
  ⟨(CacheSet.find_spec found).1, (CacheSet.find_spec found).2⟩

theorem holds_iff {tag : Tag} : tlb.Holds tag ↔
    ((tlb.sets (tlb.setIndex tag)).find tlb.associativity tag).isSome := by
  constructor
  · rintro ⟨way, inside, here⟩
    rw [Option.isSome_iff_ne_none]
    intro missing
    exact List.find?_eq_none.1 missing way (List.mem_reverse.2 (List.mem_range.2 inside))
      (decide_eq_true here)
  · intro found
    obtain ⟨way, here⟩ := Option.isSome_iff_exists.1 found
    exact ⟨way, at_of_find here⟩

/-- Two levels with the same lines. -/
structure SameLines (tlb tlb' : Tlb) : Prop where
  numSets : tlb'.numSets = tlb.numSets
  associativity : tlb'.associativity = tlb.associativity
  ways : ∀ i, (tlb'.sets i).ways = (tlb.sets i).ways

theorem SameLines.at_iff (same : SameLines tlb tlb') {tag : Tag} {way : ℕ} :
    tlb'.At tag way ↔ tlb.At tag way := by
  have index : tlb'.setIndex tag = tlb.setIndex tag := by rw [setIndex, setIndex, same.numSets]
  constructor
  · rintro ⟨inside, here⟩
    exact ⟨same.associativity ▸ inside, by rwa [index, same.ways] at here⟩
  · rintro ⟨inside, here⟩
    exact ⟨same.associativity.symm ▸ inside, by rwa [index, same.ways]⟩

theorem SameLines.once_iff (same : SameLines tlb tlb') : tlb'.Once ↔ tlb.Once := by
  simp only [Once, same.associativity, same.ways]

@[simp] theorem setIndex_setSet (i : ℕ) (set : CacheSet) (tag : ℕ) :
    (tlb.setSet i set).setIndex tag = tlb.setIndex tag := rfl

theorem sets_setSet_self (i : ℕ) (set : CacheSet) : (tlb.setSet i set).sets i = set :=
  Function.update_self ..

theorem sets_setSet_of_ne {i j : ℕ} (other : j ≠ i) (set : CacheSet) :
    (tlb.setSet i set).sets j = tlb.sets j :=
  Function.update_of_ne other ..

theorem Formed.setSet (formed : tlb.Formed) {i : ℕ} {set : CacheSet}
    (lru : IsLru tlb.associativity set.replacer)
    (home : ∀ w < tlb.associativity, (set.ways w).isValid → ∃ address,
      (set.ways w).tag = pageTag address ∧ tlb.setIndex (pageTag address) = i) :
    (tlb.setSet i set).Formed := by
  refine ⟨formed.positive, fun j => ?_, fun j w inside valid => ?_⟩
  · by_cases same : j = i
    · subst same
      rw [sets_setSet_self]
      exact lru
    · rw [sets_setSet_of_ne same]
      exact formed.lru j
  · by_cases same : j = i
    · subst same
      rw [sets_setSet_self] at valid ⊢
      exact home w inside valid
    · rw [sets_setSet_of_ne same] at valid ⊢
      exact formed.home j w inside valid

/-- **An access** finds the page if it is there, and changes no line. -/
theorem Formed.access (formed : tlb.Formed) (address : UInt64) : ∃ tlb',
    tlb.accessSingleLine address =
      .ok (((tlb.sets (tlb.setIndex (pageTag address))).find tlb.associativity
        (pageTag address)).isSome, tlb') ∧ tlb'.Formed ∧ SameLines tlb tlb' := by
  have accessed : ∃ set, (tlb.sets (tlb.setIndex (pageTag address))).access tlb.associativity
      (pageTag address) true = .ok set ∧ IsLru tlb.associativity set.replacer ∧
      set.ways = (tlb.sets (tlb.setIndex (pageTag address))).ways := by
    rw [CacheSet.access]
    cases found : (tlb.sets (tlb.setIndex (pageTag address))).find tlb.associativity
        (pageTag address) with
    | none => exact ⟨_, rfl, formed.lru _, rfl⟩
    | some way =>
      obtain ⟨replacer, updated, lru⟩ := (formed.lru _).update (at_of_find found).inside
      refine ⟨{ tlb.sets (tlb.setIndex (pageTag address)) with replacer := replacer }, ?_, lru,
        rfl⟩
      dsimp only
      rw [if_pos rfl, updated]
      rfl
  obtain ⟨set, ran, lru, ways⟩ := accessed
  refine ⟨_, by rw [accessSingleLine, ran]; rfl, formed.setSet lru fun w inside valid => ?_,
    ⟨rfl, rfl, fun i => ?_⟩⟩
  · rw [ways] at valid ⊢
    exact formed.home _ w inside valid
  · by_cases same : i = tlb.setIndex (pageTag address)
    · rw [same, sets_setSet_self, ways]
    · rw [sets_setSet_of_ne same]

theorem toNat_tagToAddress {tag : ℕ} (small : tag < 2 ^ 52) :
    (tagToAddress tag).toNat = tag * 2 ^ 12 := by
  rw [tagToAddress, UInt64.toNat_shiftLeft, UInt64.toNat_ofNat_of_lt' (by
    rw [UInt64.size]
    omega), Nat.shiftLeft_eq]
  exact Nat.mod_eq_of_lt (show tag * 2 ^ 12 < 2 ^ 64 by omega)

theorem pageTag_tagToAddress (address : UInt64) :
    pageTag (tagToAddress (pageTag address)) = pageTag address := by
  have bounded := address.toNat_lt
  have tag : (pageTag address : ℕ) = address.toNat / 2 ^ 12 := toNat_shift_page address
  have small : (pageTag address : ℕ) < 2 ^ 52 := by
    rw [tag]
    omega
  refine Subtype.ext ((toNat_shift_page _).trans ?_)
  rw [toNat_tagToAddress small]
  exact Nat.mul_div_cancel _ (by decide)

/-- The line of a set at a way is the new one, or was there before. -/
theorem ways_insert (tlb : Tlb) (i index : ℕ) (info : BlockInfo) (replacer : Replacer) (j w : ℕ) :
    ((tlb.setSet i (CacheSet.setWay index info
      { tlb.sets i with replacer := replacer })).sets j).ways w =
      if j = i ∧ w = index then info else (tlb.sets j).ways w := by
  by_cases same : j = i
  · subst same
    rw [sets_setSet_self, CacheSet.setWay]
    change Function.update (tlb.sets j).ways index info w = _
    by_cases here : w = index
    · rw [if_pos ⟨rfl, here⟩, here, Function.update_self]
    · rw [if_neg fun both => here both.2, Function.update_of_ne here]
  · rw [sets_setSet_of_ne same, if_neg fun both => same both.1]

/-- An entry with the tag of a page is in its set. -/
theorem Formed.at_of_tag (formed : tlb.Formed) {address : UInt64} {i w : ℕ}
    (inside : w < tlb.associativity) (tag : ((tlb.sets i).ways w).tag = pageTag address) :
    i = tlb.setIndex (pageTag address) ∧ tlb.At (pageTag address) w := by
  have valid : ((tlb.sets i).ways w).isValid := by
    rw [BlockInfo.isValid, tag]
    exact (pageTag address).2
  obtain ⟨other, same, home⟩ := formed.home i w inside valid
  rw [← same, tag] at home
  subst home
  exact ⟨rfl, inside, tag⟩

/-- **An insertion** puts the page at a way, and evicts the page that was there if the set was
full. -/
theorem Formed.insert (formed : tlb.Formed) (address : UInt64) : ∃ index replacer evictAddr tlb',
    tlb.choice address = .ok (index, replacer) ∧
      tlb.insertSingleLine address = .ok (evictAddr, tlb') ∧ tlb'.Formed ∧
      tlb'.At (pageTag address) index ∧
      (tlb.Full (pageTag address) → ∃ victim, evictAddr = some victim ∧
        tlb.At (pageTag victim) index) ∧
      (tlb.Once → (tlb'.Once ↔ ∀ way, tlb.At (pageTag address) way → way = index)) := by
  obtain ⟨index, inside, replacer, chosen, lru, invalid⟩ :=
    (formed.lru (tlb.setIndex (pageTag address))).choice formed.positive
      (tlb.sets (tlb.setIndex (pageTag address))).ways
  have inserted : tlb.insertSingleLine address = .ok
      (if ((tlb.sets (tlb.setIndex (pageTag address))).ways index).isValid then
          some (tagToAddress ((tlb.sets (tlb.setIndex (pageTag address))).ways index).tag)
        else none,
      tlb.setSet (tlb.setIndex (pageTag address))
        (CacheSet.setWay index ⟨pageTag address, .invalid, false⟩
          { tlb.sets (tlb.setIndex (pageTag address)) with replacer := replacer })) := by
    rw [insertSingleLine, choice, chosen]
    exact if_pos inside
  have lines := tlb.ways_insert (tlb.setIndex (pageTag address)) index
    ⟨pageTag address, .invalid, false⟩ replacer
  refine ⟨index, replacer, _, _, chosen, inserted, ?_, ⟨inside, ?_⟩, fun full => ?_, fun once => ?_⟩
  · refine formed.setSet lru fun w here valid => ?_
    change (Function.update (tlb.sets (tlb.setIndex (pageTag address))).ways index
      ⟨pageTag address, .invalid, false⟩ w).isValid at valid
    change ∃ other, (Function.update (tlb.sets (tlb.setIndex (pageTag address))).ways index
      ⟨pageTag address, .invalid, false⟩ w).tag = _ ∧ _
    by_cases same : w = index
    · rw [same, Function.update_self]
      exact ⟨address, rfl, rfl⟩
    · rw [Function.update_of_ne same] at valid ⊢
      exact formed.home _ w here valid
  · rw [setIndex_setSet, lines, if_pos ⟨rfl, rfl⟩]
  · have valid : ((tlb.sets (tlb.setIndex (pageTag address))).ways index).isValid := by
      by_contra unused
      exact full ⟨index, inside, unused⟩
    obtain ⟨victim, tag, home⟩ := formed.home _ _ inside valid
    refine ⟨_, if_pos valid, inside, ?_⟩
    rw [tag, pageTag_tagToAddress, home, tag]
  · constructor
    · intro once' way here
      have own := lines (tlb.setIndex (pageTag address)) index
      rw [if_pos ⟨rfl, rfl⟩] at own
      refine (once' (tlb.setIndex (pageTag address)) index (tlb.setIndex (pageTag address)) way
        inside here.inside ?_ ?_).2.symm
      · rw [own]
        exact (pageTag address).2
      · rw [own, lines]
        split_ifs with same
        · rfl
        · exact here.tag.symm
    · intro absent j v k w first second valid same
      have other {j v : ℕ} (within : v < tlb.associativity)
          (outside : ¬ (j = tlb.setIndex (pageTag address) ∧ v = index))
          (tag : ((tlb.sets j).ways v).tag = pageTag address) : False := by
        obtain ⟨home, here⟩ := formed.at_of_tag within tag
        exact outside ⟨home, absent v here⟩
      rw [lines] at valid same
      rw [lines] at same
      split_ifs at valid same with one two two
      · exact ⟨one.1.trans two.1.symm, one.2.trans two.2.symm⟩
      · exact (other second two same.symm).elim
      · exact (other first one same).elim
      · exact once j v k w first second valid same

end Tlb

/-! ## The chain -/

variable {levels : List Tlb} {address : UInt64}

theorem Tlb.Formed.count {tlb : Tlb} (formed : tlb.Formed) (access miss : UInt64) :
    ({ tlb with access := access, miss := miss } : Tlb).Formed :=
  ⟨formed.positive, formed.lru, formed.home⟩

/-- A level that is only looked up. -/
def Touched (tlb tlb' : Tlb) : Prop := tlb'.Formed ∧ Tlb.SameLines tlb tlb'

theorem Touched.count {tlb tlb' : Tlb} (touched : Touched tlb tlb') (access miss : UInt64) :
    Touched tlb { tlb' with access := access, miss := miss } :=
  ⟨touched.1.count access miss, touched.2.numSets, touched.2.associativity, touched.2.ways⟩

theorem touched_refl (formed : ∀ tlb ∈ levels, tlb.Formed) : List.Forall₂ Touched levels levels :=
  List.forall₂_same.2 fun tlb member => ⟨formed tlb member, rfl, rfl, fun _ => rfl⟩

theorem once_iff_of_touched {levels' : List Tlb} (touched : List.Forall₂ Touched levels levels') :
    (∀ tlb ∈ levels', tlb.Once) ↔ ∀ tlb ∈ levels, tlb.Once := by
  induction touched with
  | nil => exact Iff.rfl
  | cons head _ ih => rw [List.forall_mem_cons, List.forall_mem_cons, head.2.once_iff, ih]

theorem formed_of_touched {levels' : List Tlb} (touched : List.Forall₂ Touched levels levels') :
    ∀ tlb ∈ levels', tlb.Formed := by
  induction touched with
  | nil => exact fun tlb none => absurd none List.not_mem_nil
  | cons head _ ih => exact List.forall_mem_cons.2 ⟨head.1, ih⟩

section Head

variable {tlb : Tlb} {next : List Tlb} (formed : tlb.Formed)

include formed

/-- A hit in the first level. -/
theorem lookup_of_holds (holds : tlb.Holds (pageTag address)) : ∃ tlb', Touched tlb tlb' ∧
    ∀ allocateOnMiss next,
      lookup address allocateOnMiss (tlb :: next) = .ok (true, tlb' :: next) := by
  obtain ⟨tlb', accessed, kept⟩ := formed.access address
  rw [Tlb.holds_iff.1 holds] at accessed
  refine ⟨_, Touched.count kept (tlb'.access + 1) tlb'.miss, fun allocateOnMiss next => ?_⟩
  rw [lookup, accessed]
  rfl

/-- A miss in the first level. -/
theorem lookup_of_not_holds (misses : ¬ tlb.Holds (pageTag address)) : ∃ tlb', Touched tlb tlb' ∧
    ∀ allocateOnMiss next, lookup address allocateOnMiss (tlb :: next) = (do
      let (hit, next) ← lookup address false next
      if allocateOnMiss then do
        let levels ← allocate address (tlb' :: next)
        .ok (hit, levels)
      else .ok (hit, tlb' :: next)) := by
  obtain ⟨tlb', accessed, kept⟩ := formed.access address
  rw [Bool.eq_false_iff.2 (mt Tlb.holds_iff.2 misses)] at accessed
  refine ⟨_, Touched.count kept (tlb'.access + 1) (tlb'.miss + 1), fun allocateOnMiss next => ?_⟩
  rw [lookup, accessed]
  rfl

end Head

/-- **A lookup without allocation** changes no line. -/
theorem lookup_false (formed : ∀ tlb ∈ levels, tlb.Formed) (address : UInt64) : ∃ hit touched,
    lookup address false levels = .ok (hit, touched) ∧ List.Forall₂ Touched levels touched := by
  induction levels with
  | nil => exact ⟨false, [], rfl, .nil⟩
  | cons tlb next ih =>
    have rest : ∀ other ∈ next, other.Formed :=
      fun other member => formed other (List.mem_cons_of_mem _ member)
    by_cases holds : tlb.Holds (pageTag address)
    · obtain ⟨tlb', head, found⟩ := lookup_of_holds (formed tlb List.mem_cons_self) holds
      exact ⟨_, _, found false next, .cons head (touched_refl rest)⟩
    · obtain ⟨tlb', head, found⟩ := lookup_of_not_holds (formed tlb List.mem_cons_self) holds
      obtain ⟨hit, touched, below, kept⟩ := ih rest
      refine ⟨hit, tlb' :: touched, ?_, .cons head kept⟩
      rw [found, below]
      rfl

/-- **An allocation** puts the page in the first level, and each page that is evicted in the next
one. -/
theorem allocate_spec (formed : ∀ tlb ∈ levels, tlb.Formed) (address : UInt64) : ∃ levels',
    allocate address levels = .ok levels' ∧ (∀ tlb ∈ levels', tlb.Formed) ∧
      Allocated address levels levels' ∧
      ((∀ tlb ∈ levels, tlb.Once) → ((∀ tlb ∈ levels', tlb.Once) ↔ Fresh address levels)) := by
  induction levels generalizing address with
  | nil =>
    exact ⟨[], rfl, fun tlb none => absurd none List.not_mem_nil, trivial,
      fun once => iff_of_true once trivial⟩
  | cons tlb next ih =>
    have rest : ∀ other ∈ next, other.Formed :=
      fun other member => formed other (List.mem_cons_of_mem _ member)
    obtain ⟨index, replacer, evictAddr, tlb', chosen, inserted, formed', here, evicts, exact⟩ :=
      (formed tlb List.mem_cons_self).insert address
    have now : (∀ index replacer, tlb.choice address = .ok (index, replacer) →
        ∀ way, tlb.At (pageTag address) way → way = index) ↔
        ∀ way, tlb.At (pageTag address) way → way = index := by
      constructor
      · exact fun all => all index replacer chosen
      · intro own _ _ other
        cases chosen.symm.trans other
        exact own
    rw [allocate, inserted, ok_bind]
    dsimp only
    cases evictAddr with
    | none =>
      refine ⟨_, rfl, List.forall_mem_cons.2 ⟨formed', rest⟩, ⟨⟨index, here⟩, fun full => ?_⟩,
        fun once => ?_⟩
      · obtain ⟨victim, evicted, -⟩ := evicts full
        cases evicted
      · rw [List.forall_mem_cons] at once ⊢
        rw [exact once.1, Fresh, now]
        refine and_congr_right fun _ => iff_of_true once.2 fun victim _ other => ?_
        cases inserted.symm.trans other
    | some victim =>
      obtain ⟨next', ran, rest', below, decides⟩ := ih rest victim
      dsimp only
      rw [ran]
      refine ⟨_, rfl, List.forall_mem_cons.2 ⟨formed', rest'⟩, ⟨⟨index, here⟩, fun full => ?_⟩,
        fun once => ?_⟩
      · obtain ⟨own, evicted, held⟩ := evicts full
        cases evicted
        exact ⟨victim, inserted, ⟨index, held⟩, below⟩
      · rw [List.forall_mem_cons] at once ⊢
        rw [exact once.1, Fresh, now, decides once.2]
        refine and_congr_right fun _ => ⟨fun fresh own _ other => ?_,
          fun all => all _ _ inserted⟩
        cases inserted.symm.trans other
        exact fresh

/-! ## Lookups -/

/-- A lookup that allocates: the levels are looked up, then the page is inserted. -/
theorem lookup_true (formed : ∀ tlb ∈ levels, tlb.Formed) (misses : Misses address levels) :
    ∃ hit touched levels', lookup address false levels = .ok (hit, touched) ∧
      List.Forall₂ Touched levels touched ∧ allocate address touched = .ok levels' ∧
      lookup address true levels = .ok (hit, levels') := by
  cases levels with
  | nil => exact misses.elim
  | cons tlb next =>
    have rest : ∀ other ∈ next, other.Formed :=
      fun other member => formed other (List.mem_cons_of_mem _ member)
    obtain ⟨tlb', head, found⟩ := lookup_of_not_holds (formed tlb List.mem_cons_self) misses
    obtain ⟨hit, touched, below, kept⟩ := lookup_false rest address
    have all := List.Forall₂.cons head kept
    obtain ⟨levels', ran, -⟩ := allocate_spec (formed_of_touched all) address
    refine ⟨hit, tlb' :: touched, levels', ?_, all, ran, ?_⟩
    · rw [found, below]
      rfl
    · rw [found, below, ok_bind]
      dsimp only
      rw [if_pos rfl, ran]
      rfl

/-- A lookup that allocates nothing. -/
theorem lookup_touched (formed : ∀ tlb ∈ levels, tlb.Formed) {allocateOnMiss : Bool}
    (idle : ¬ (allocateOnMiss = true ∧ Misses address levels)) : ∃ hit touched,
    lookup address allocateOnMiss levels = .ok (hit, touched) ∧
      List.Forall₂ Touched levels touched := by
  cases allocateOnMiss with
  | false => exact lookup_false formed address
  | true =>
    cases levels with
    | nil => exact ⟨false, [], rfl, .nil⟩
    | cons tlb next =>
      have holds : tlb.Holds (pageTag address) := by
        by_contra misses
        exact idle ⟨rfl, misses⟩
      obtain ⟨tlb', head, found⟩ := lookup_of_holds (formed tlb List.mem_cons_self) holds
      exact ⟨_, _, found true next, .cons head (touched_refl fun other member =>
        formed other (List.mem_cons_of_mem _ member))⟩

/-- **One call** succeeds, and leaves each level with each page once exactly if it pushes no page to
a level that holds it. -/
theorem lookupStep_spec (formed : ∀ tlb ∈ levels, tlb.Formed) (call : Lookup) : ∃ levels',
    lookupStep call levels = .ok levels' ∧ (∀ tlb ∈ levels', tlb.Formed) ∧
      ((∀ tlb ∈ levels, tlb.Once) → ((∀ tlb ∈ levels', tlb.Once) ↔ Pushes levels call)) := by
  obtain ⟨address, allocateOnMiss⟩ := call
  by_cases allocates : allocateOnMiss = true ∧ Misses address levels
  · obtain ⟨hit, touched, levels', below, kept, ran, found⟩ := lookup_true formed allocates.2
    obtain ⟨other, again, formed', -, decides⟩ :=
      allocate_spec (formed_of_touched kept) address
    cases ran.symm.trans again
    refine ⟨levels', ?_, formed', fun once => ?_⟩
    · rw [lookupStep, allocates.1, found]
      rfl
    · rw [decides ((once_iff_of_touched kept).2 once)]
      constructor
      · intro fresh _ _ hit' touched' other
        cases below.symm.trans other
        exact fresh
      · exact fun pushes => pushes allocates.1 allocates.2 hit touched below
  · obtain ⟨hit, touched, found, kept⟩ := lookup_touched formed allocates
    refine ⟨touched, ?_, formed_of_touched kept, fun once => ?_⟩
    · rw [lookupStep, found]
      rfl
    · refine iff_of_true ((once_iff_of_touched kept).2 once) fun flag misses => ?_
      exact absurd ⟨flag, misses⟩ allocates

/-- What was allocated last is found in the first level. -/
theorem hits_of_formed (formed : ∀ tlb ∈ levels, tlb.Formed) {hit : Bool} {levels' : List Tlb}
    (found : lookup address true levels = .ok (hit, levels')) (nonempty : levels' ≠ [])
    {again : UInt64} (same : pageTag again = pageTag address) (allocateOnMiss : Bool) :
    ∃ levels'', lookup again allocateOnMiss levels' = .ok (true, levels'') ∧
      levels''.tail = levels'.tail := by
  have held : ∃ tlb next, levels' = tlb :: next ∧ tlb.Formed ∧ tlb.Holds (pageTag address) := by
    by_cases misses : Misses address levels
    · obtain ⟨hit', touched, other, -, kept, ran, found'⟩ := lookup_true formed misses
      cases found.symm.trans found'
      obtain ⟨other, again, formed', allocated, -⟩ :=
        allocate_spec (formed_of_touched kept) address
      cases ran.symm.trans again
      cases touched with
      | nil => cases levels' with
          | nil => exact absurd rfl nonempty
          | cons => exact allocated.elim
      | cons first rest => cases levels' with
          | nil => exact absurd rfl nonempty
          | cons tlb next => exact ⟨tlb, next, rfl, formed' tlb List.mem_cons_self, allocated.1⟩
    · cases levels with
      | nil =>
        cases found
        exact absurd rfl nonempty
      | cons tlb next =>
        have holds : tlb.Holds (pageTag address) := not_not.1 misses
        obtain ⟨tlb', head, found'⟩ := lookup_of_holds (formed tlb List.mem_cons_self) holds
        cases found.symm.trans (found' true next)
        obtain ⟨way, here⟩ := holds
        exact ⟨_, _, rfl, head.1, way, head.2.at_iff.2 here⟩
  obtain ⟨tlb, next, rfl, formed', holds⟩ := held
  obtain ⟨tlb', -, again'⟩ := lookup_of_holds formed' (same ▸ holds)
  exact ⟨_, again' allocateOnMiss next, rfl⟩

/-- A chain holds each page once per level, and is a hierarchy then. -/
theorem hierarchy_iff_once (formed : ∀ tlb ∈ levels, tlb.Formed) :
    Hierarchy levels ↔ ∀ tlb ∈ levels, tlb.Once := by
  refine ⟨fun hierarchy => hierarchy.once, fun once => ⟨once, ?_, fun address misses => ?_⟩⟩
  · exact fun address hit levels' found nonempty again same allocateOnMiss =>
      hits_of_formed formed found nonempty same allocateOnMiss
  · obtain ⟨hit, touched, levels', below, kept, ran, found⟩ := lookup_true formed misses
    obtain ⟨other, again, -, allocated, -⟩ := allocate_spec (formed_of_touched kept) address
    cases ran.symm.trans again
    exact ⟨hit, touched, levels', below, found, allocated⟩

/-- A chain of new TLBs, by their numbers of entries and their associativities. -/
def createLevels (configs : List (UInt32 × UInt32)) : Except TlbFailure (List Tlb) :=
  configs.mapM fun config => Tlb.create config.1 config.2

theorem createLevels_formed {configs : List (UInt32 × UInt32)}
    (created : createLevels configs = .ok levels) :
    (∀ tlb ∈ levels, tlb.Formed) ∧ ∀ tlb ∈ levels, tlb.Once := by
  induction configs generalizing levels with
  | nil =>
    cases created
    exact ⟨fun tlb none => absurd none List.not_mem_nil,
      fun tlb none => absurd none List.not_mem_nil⟩
  | cons config configs ih =>
    rw [createLevels, List.mapM_cons] at created
    obtain ⟨tlb, head, rest⟩ := bind_ok.1 created
    obtain ⟨next, below, same⟩ := bind_ok.1 rest
    cases same
    have own := Tlb.create_formed head
    have others := ih below
    exact ⟨List.forall_mem_cons.2 ⟨own.1, others.1⟩, List.forall_mem_cons.2 ⟨own.2, others.2⟩⟩

theorem run_formed (formed : ∀ tlb ∈ levels, tlb.Formed) (calls : List Lookup) :
    ∃ levels', runEvents lookupStep calls levels = .ok levels' := by
  induction calls generalizing levels with
  | nil => exact ⟨levels, rfl⟩
  | cons call calls ih =>
    obtain ⟨levels', moved, kept, -⟩ := lookupStep_spec formed call
    obtain ⟨last, ran⟩ := ih kept
    refine ⟨last, ?_⟩
    rw [runEvents, moved]
    exact ran

/-- **TLB hierarchies.** All along a run of lookups on a new chain each level holds each page once,
what was allocated last is found in the first level, and what an allocation evicts is in the next
one, exactly if no allocation pushes a page to a level that holds it already. -/
theorem hierarchy_iff {configs : List (UInt32 × UInt32)} {levels : List Tlb}
    (created : createLevels configs = .ok levels) (calls : List Lookup) :
    (∃ levels', runEvents lookupStep calls levels = .ok levels') ∧
      ((∀ pre, pre <+: calls → ∀ levels', runEvents lookupStep pre levels = .ok levels' →
        Hierarchy levels') ↔ Along Pushes lookupStep calls levels) := by
  obtain ⟨formed, once⟩ := createLevels_formed created
  have total (call : Lookup) (levels : List Tlb) (kept : ∀ tlb ∈ levels, tlb.Formed) :
      ∃ levels', lookupStep call levels = .ok levels' ∧ ∀ tlb ∈ levels', tlb.Formed := by
    obtain ⟨levels', moved, kept', -⟩ := lookupStep_spec kept call
    exact ⟨levels', moved, kept'⟩
  refine ⟨run_formed formed calls, along_iff_prefixes total ?_ formed
    ((hierarchy_iff_once formed).2 once)⟩
  intro call levels levels' kept hierarchy moved
  obtain ⟨other, again, kept', decides⟩ := lookupStep_spec kept call
  cases moved.symm.trans again
  rw [hierarchy_iff_once kept']
  exact decides hierarchy.once

/-- Two levels of one set each, by their associativities. -/
def twoLevels (first second : ℕ) : List Tlb :=
  [first, second].map fun associativity => ⟨1, associativity, fun _ =>
    ⟨fun _ => ⟨invalidTag, .invalid, false⟩, .lru (CacheSetLRU.create 1)⟩, 0, 0⟩

/-- A created chain, two lookups: a TLB of one entry over one of two. -/
theorem hierarchy_iff_twoLevels : ∃ levels, createLevels [(1, 1), (2, 2)] = .ok levels ∧
    (∃ levels', runEvents lookupStep [(0, true), (4096, true)] levels = .ok levels') ∧
      ((∀ pre, pre <+: [(0, true), (4096, true)] → ∀ levels',
        runEvents lookupStep pre levels = .ok levels' → Hierarchy levels') ↔
        Along Pushes lookupStep [(0, true), (4096, true)] levels) :=
  ⟨_, rfl, @hierarchy_iff [(1, 1), (2, 2)] _ rfl [(0, true), (4096, true)]⟩

/-- A TLB of one entry over one of four: with two pages in turn, the second level holds the first
page twice. -/
theorem not_hierarchy_twoPages : ∃ levels levels', createLevels [(1, 1), (4, 4)] = .ok levels ∧
    runEvents lookupStep [(0, true), (4096, true), (0, true), (4096, true)] levels = .ok levels' ∧
      ¬ Hierarchy levels' := by
  refine ⟨twoLevels 1 4, ?_⟩
  have twice : (match runEvents lookupStep [(0, true), (4096, true), (0, true), (4096, true)]
      (twoLevels 1 4) with
    | .ok levels => levels.any fun tlb => decide (2 < tlb.associativity ∧
        ((tlb.sets 0).ways 0).tag = 0 ∧ ((tlb.sets 0).ways 2).tag = 0)
    | .error _ => false) = true := by decide_cbv
  cases ran : runEvents lookupStep [(0, true), (4096, true), (0, true), (4096, true)]
      (twoLevels 1 4) with
  | error fault =>
    rw [ran] at twice
    cases twice
  | ok levels =>
    rw [ran] at twice
    refine ⟨levels, rfl, rfl, fun hierarchy => ?_⟩
    obtain ⟨tlb, member, found⟩ := List.any_eq_true.1 twice
    obtain ⟨inside, first, second⟩ := of_decide_eq_true found
    have same := hierarchy.once tlb member 0 0 0 2 (by omega) inside (by
      rw [BlockInfo.isValid, first]
      decide) (first.trans second.symm)
    exact absurd same.2 (by decide)

end GpuHotSpot.Common.Caches
