import GpuHotSpot.Lib.Machine
import Mathlib.Data.Finset.Sort
import Mathlib.Data.List.Find
import Mathlib.Data.Nat.Bitwise
import Mathlib.Logic.Function.Basic

/-!
# The directory cache

`common/core/memory_subsystem/directory_schemes/` and `dram_directory_cache.cc`: the entries of the
DRAM directory, and the sets that find them.

* `getDirectoryEntry_spec`, `replaceDirectoryEntry_spec`: the entry that an address has is found again.
-/

namespace GpuHotSpot.Common.DramDirectory

open Fallible

/-! ## Entries -/

/-- `DirectoryState::dstate_t`. -/
inductive DState
  | uncached
  | shared
  | owned
  | modified
  | exclusive
  deriving DecidableEq, Repr

/-- `Directory::DirectoryType`. -/
inductive DirectoryType
  | fullMap
  | limitedNoBroadcast
  | limitless
  deriving DecidableEq, Repr

/-- The assertions and the error branches. -/
inductive Stop
  | alreadySharer
  | notSharer
  | ownerNotSharer
  | noSharers
  | addFailed
  | noEntry
  | notInSet
  | notReplaced
  | noReplacement
  | requestsOutstanding
  | unsupportedState
  | unsupportedType
  | cachedData
  | requesterIsOwner
  | sharersLeft
  | noRequest
  | dataPayload
  | noData
  | unexpectedWriteBack
  | outOfRounds
  deriving DecidableEq, Repr

/-- `DirectoryEntry`; `none` is `INVALID_CORE_ID`. -/
structure Entry where
  address : ℕ
  dstate : DState
  owner : Option ℕ
  forwarder : Option ℕ
  sharers : Finset ℕ

/-- The configuration of the directory; `fresh n` is what the memory of the entry that is created
`n`-th holds where `m_forwarder_id` is. -/
structure DirectoryConfig where
  directoryType : DirectoryType
  maxHwSharers : ℕ
  maxNumSharers : ℕ
  associativity : ℕ
  numSets : ℕ
  logCacheBlockSize : ℕ
  fresh : ℕ → Option ℕ

/-- `getMaxHwSharers`, after an entry has been created. -/
def DirectoryConfig.getMaxHwSharers (config : DirectoryConfig) : ℕ :=
  match config.directoryType with
  | .fullMap => config.maxNumSharers
  | .limitedNoBroadcast | .limitless => config.maxHwSharers

namespace Entry

/-- `getNumSharers`. -/
def getNumSharers (e : Entry) : ℕ := e.sharers.card

/-- The list of `getSharersList`; no scheme asks for a broadcast. -/
def getSharersList (e : Entry) : List ℕ := e.sharers.sort (· ≤ ·)

/-- `addSharer`. -/
def addSharer (config : DirectoryConfig) (sharer : ℕ) (e : Entry) : Except Stop (Bool × Entry) :=
  if sharer ∈ e.sharers then .error .alreadySharer
  else if config.directoryType ≠ .limitless ∧ config.getMaxHwSharers ≤ e.getNumSharers then
    .ok (false, e)
  else .ok (true, { e with sharers := insert sharer e.sharers })

/-- `removeSharer`. -/
def removeSharer (sharer : ℕ) (e : Entry) : Except Stop Entry :=
  if sharer ∈ e.sharers then .ok { e with sharers := e.sharers.erase sharer }
  else .error .notSharer

/-- `setOwner` of a core. -/
def setOwner (owner : ℕ) (e : Entry) : Except Stop Entry :=
  if owner ∈ e.sharers then .ok { e with owner := some owner } else .error .ownerNotSharer

/-- `getOneSharer`; `random` is what `Random::next` returns. -/
def getOneSharer (config : DirectoryConfig) (random : ℕ) (e : Entry) : Except Stop ℕ :=
  let index := match config.directoryType with
    | .limitless => 0
    | .fullMap | .limitedNoBroadcast => random % e.getNumSharers
  match e.getSharersList[index]? with
  | some sharer => .ok sharer
  | none => .error .noSharers

end Entry

/-! ## The directory cache -/

/-- The entries at their pointers, and how many were created; the ways of each set that are in use,
in order, while the others are free; and `m_replaced_directory_entry_list`. -/
structure DirectoryCache where
  heap : ℕ → Entry
  created : ℕ
  ways : ℕ → List ℕ
  replacementPtrs : ℕ → ℕ
  replaced : List ℕ

section Code

variable (config : DirectoryConfig)

/-- The set index of `splitAddress`. -/
def DirectoryConfig.setIndex (address : ℕ) : ℕ :=
  (address >>> config.logCacheBlockSize) % 2 ^ 32 &&& (config.numSets - 1)

/-- `createDirectoryEntry`, which does not initialise the forwarder, and `setAddress`. -/
def createDirectoryEntry (address : ℕ) (c : DirectoryCache) : ℕ × DirectoryCache :=
  (c.created, { c with
    heap := Function.update c.heap c.created
      ⟨address, .uncached, none, config.fresh c.created, ∅⟩
    created := c.created + 1 })

/-- Whether the entry at a pointer is that of an address. -/
def DirectoryCache.isOf (c : DirectoryCache) (address pointer : ℕ) : Bool :=
  decide ((c.heap pointer).address = address)

/-- `getDirectoryEntry`: the entry in its set, a free way, or a replaced entry. -/
def getDirectoryEntry (address : ℕ) (c : DirectoryCache) : Option ℕ × DirectoryCache :=
  let set := config.setIndex address
  match (c.ways set).find? (c.isOf address) with
  | some pointer => (some pointer, c)
  | none =>
    if (c.ways set).length < config.associativity then
      let (pointer, c) := createDirectoryEntry config address c
      (some pointer, { c with ways := Function.update c.ways set (c.ways set ++ [pointer]) })
    else (c.replaced.find? (c.isOf address), c)

/-- `getReplacementCandidates`. -/
def getReplacementCandidates (address : ℕ) (c : DirectoryCache) : List ℕ × DirectoryCache :=
  let set := config.setIndex address
  let ptr := c.replacementPtrs set
  let candidates := (List.range config.associativity).filterMap fun i =>
    (c.ways set)[(i + ptr) % 2 ^ 32 % config.associativity]?
  (candidates, { c with
    replacementPtrs := Function.update c.replacementPtrs set ((ptr + 1) % 2 ^ 32) })

/-- `replaceDirectoryEntry`. -/
def replaceDirectoryEntry (replacedAddress address : ℕ) (c : DirectoryCache) :
    Except Stop (ℕ × DirectoryCache) :=
  let set := config.setIndex replacedAddress
  match (c.ways set).find? (c.isOf replacedAddress) with
  | some pointer =>
    let way := (c.ways set).findIdx (c.isOf replacedAddress)
    let c := { c with replaced := c.replaced ++ [pointer] }
    let (created, c) := createDirectoryEntry config address c
    .ok (created, { c with ways := Function.update c.ways set ((c.ways set).set way created) })
  | none => .error .notInSet

/-- `invalidateDirectoryEntry`. -/
def invalidateDirectoryEntry (address : ℕ) (c : DirectoryCache) : Except Stop DirectoryCache :=
  match c.replaced.find? (c.isOf address) with
  | some _ => .ok { c with replaced := c.replaced.eraseIdx (c.replaced.findIdx (c.isOf address)) }
  | none => .error .notReplaced

/-- The entry at a pointer is changed. -/
def DirectoryCache.write (pointer : ℕ) (e : Entry) (c : DirectoryCache) : DirectoryCache :=
  { c with heap := Function.update c.heap pointer e }

end Code

/-! ## Well-formed entries -/

/-- An entry is well formed. -/
structure Entry.Form (config : DirectoryConfig) (e : Entry) : Prop where
  uncached : e.dstate = .uncached ↔ e.sharers = ∅
  owner : e.dstate = .exclusive ∨ e.dstate = .modified →
    ∃ core, e.owner = some core ∧ e.sharers = {core}
  forwarder : ∀ core, e.forwarder = some core → core ∈ e.sharers
  limited : config.directoryType = .limitedNoBroadcast → e.getNumSharers ≤ config.maxHwSharers

variable {config : DirectoryConfig} {c c' : DirectoryCache} {pointer address : ℕ} {e : Entry}

/-- All entries are, if the entries found no core where the forwarder is. -/
def Formed (config : DirectoryConfig) (c : DirectoryCache) : Prop :=
  (∀ n < c.created, config.fresh n = none) → ∀ pointer < c.created, (c.heap pointer).Form config

/-- A new entry. -/
theorem Formed.create (formed : Formed config c) (address : ℕ) :
    Formed config (createDirectoryEntry config address c).2 := by
  intro fresh pointer created
  change pointer < c.created + 1 at created
  change (Function.update c.heap c.created _ pointer).Form config
  by_cases new : pointer = c.created
  · rw [new, Function.update_self]
    refine ⟨⟨fun _ => rfl, fun _ => rfl⟩, fun state => ?_, fun core forwards => ?_,
      fun _ => Nat.zero_le _⟩
    · rcases state with state | state <;> cases state
    · rw [fresh c.created (Nat.lt_succ_self _)] at forwards
      cases forwards
  · rw [Function.update_of_ne new]
    exact formed (fun n below => fresh n (Nat.lt_succ_of_lt below)) pointer (by omega)

theorem Formed.write (formed : Formed config c) (form : (∀ n < c.created, config.fresh n = none) →
    e.Form config) (pointer : ℕ) : Formed config (c.write pointer e) := by
  intro fresh other created
  change (Function.update c.heap pointer e other).Form config
  by_cases same : other = pointer
  · rw [same, Function.update_self]
    exact form fresh
  · rw [Function.update_of_ne same]
    exact formed fresh other created

/-! ## The sets -/

/-- Each entry is in the set of its address. -/
structure Shape (config : DirectoryConfig) (c : DirectoryCache) : Prop where
  inSet : ∀ i, ∀ p ∈ c.ways i, config.setIndex (c.heap p).address = i ∧ p < c.created
  inList : ∀ p ∈ c.replaced, p < c.created

/-- The entry of an address. -/
def Located (config : DirectoryConfig) (pointer address : ℕ) (c : DirectoryCache) : Prop :=
  (c.ways (config.setIndex address)).find? (c.isOf address) = some pointer ∨
    (c.ways (config.setIndex address)).find? (c.isOf address) = none ∧
      config.associativity ≤ (c.ways (config.setIndex address)).length ∧
      c.replaced.find? (c.isOf address) = some pointer

theorem isOf_iff : c.isOf address pointer = true ↔ (c.heap pointer).address = address :=
  decide_eq_true_iff

/-- **The entry of an address** is found again. -/
theorem Located.get (located : Located config pointer address c) :
    getDirectoryEntry config address c = (some pointer, c) := by
  unfold getDirectoryEntry
  rcases located with found | ⟨absent, full, found⟩
  · simp only [found]
  · simp only [absent, if_neg (Nat.not_lt_of_le full), found]

theorem Located.created (located : Located config pointer address c) (shape : Shape config c) :
    pointer < c.created := by
  rcases located with found | ⟨-, -, found⟩
  · exact (shape.inSet _ pointer (List.mem_of_find?_eq_some found)).2
  · exact shape.inList pointer (List.mem_of_find?_eq_some found)

/-- A change that keeps the address keeps each entry where it is. -/
theorem isOf_write (keeps : e.address = (c.heap pointer).address) (address : ℕ) :
    (c.write pointer e).isOf address = c.isOf address := by
  funext other
  unfold DirectoryCache.isOf
  change decide ((Function.update c.heap pointer e other).address = address) = _
  by_cases same : other = pointer
  · rw [same, Function.update_self, keeps]
  · rw [Function.update_of_ne same]

theorem Located.write {other : ℕ} (located : Located config pointer address c)
    (keeps : e.address = (c.heap other).address) :
    Located config pointer address (c.write other e) := by
  unfold Located
  rw [isOf_write keeps]
  exact located

theorem Shape.write (shape : Shape config c) (keeps : e.address = (c.heap pointer).address) :
    Shape config (c.write pointer e) where
  inSet i p member := by
    change config.setIndex (Function.update c.heap pointer e p).address = i ∧ p < c.created
    by_cases same : p = pointer
    · rw [same, Function.update_self, keeps, ← same]
      exact shape.inSet i p member
    · rw [Function.update_of_ne same]
      exact shape.inSet i p member
  inList := shape.inList

/-! ## The operations -/

/-- The directory cache when a free way is taken. -/
def takeWay (config : DirectoryConfig) (address : ℕ) (c : DirectoryCache) : DirectoryCache :=
  let set := config.setIndex address
  { (createDirectoryEntry config address c).2 with
    ways := Function.update c.ways set (c.ways set ++ [c.created]) }

theorem getDirectoryEntry_free
    (absent : (c.ways (config.setIndex address)).find? (c.isOf address) = none)
    (free : (c.ways (config.setIndex address)).length < config.associativity) :
    getDirectoryEntry config address c = (some c.created, takeWay config address c) := by
  unfold getDirectoryEntry
  simp only [absent, if_pos free]
  rfl

theorem getDirectoryEntry_full
    (absent : (c.ways (config.setIndex address)).find? (c.isOf address) = none)
    (full : ¬ (c.ways (config.setIndex address)).length < config.associativity) :
    getDirectoryEntry config address c = (c.replaced.find? (c.isOf address), c) := by
  unfold getDirectoryEntry
  simp only [absent, if_neg full]

/-- A new entry does not change whose the others are. -/
theorem isOf_create {other : ℕ} (created : pointer < c.created) :
    (createDirectoryEntry config other c).2.isOf address pointer = c.isOf address pointer := by
  unfold DirectoryCache.isOf
  change decide ((Function.update c.heap c.created _ pointer).address = address) = _
  rw [Function.update_of_ne (Nat.ne_of_lt created)]

theorem isOf_created : (createDirectoryEntry config address c).2.isOf address c.created = true := by
  rw [isOf_iff]
  change (Function.update c.heap c.created _ c.created).address = address
  rw [Function.update_self]

/-- The set of a new entry, with the new entry in some way. -/
theorem Shape.create {ways : ℕ → List ℕ} {replaced : List ℕ} (shape : Shape config c)
    (mem : ∀ i, ∀ p ∈ ways i, p ∈ c.ways i ∨ p = c.created ∧ i = config.setIndex address)
    (list : ∀ p ∈ replaced, p < c.created) :
    Shape config { (createDirectoryEntry config address c).2 with
      ways := ways, replaced := replaced } where
  inSet i p member := by
    change config.setIndex (Function.update c.heap c.created _ p).address = i ∧ p < c.created + 1
    rcases mem i p member with old | ⟨new, isSet⟩
    · obtain ⟨index, created⟩ := shape.inSet i p old
      rw [Function.update_of_ne (Nat.ne_of_lt created)]
      exact ⟨index, Nat.lt_succ_of_lt created⟩
    · rw [new, Function.update_self]
      exact ⟨isSet.symm, Nat.lt_succ_self _⟩
  inList p member := Nat.lt_succ_of_lt (list p member)

theorem takeWay_shape (shape : Shape config c) (address : ℕ) :
    Shape config (takeWay config address c) := by
  refine shape.create (fun i p member => ?_) shape.inList
  by_cases isSet : i = config.setIndex address
  · rw [isSet, Function.update_self] at member
    rcases List.mem_append.1 member with old | new
    · exact .inl (isSet ▸ old)
    · exact .inr ⟨List.mem_singleton.1 new, isSet⟩
  · rw [Function.update_of_ne isSet] at member
    exact .inl member

theorem takeWay_located (shape : Shape config c)
    (absent : (c.ways (config.setIndex address)).find? (c.isOf address) = none) :
    Located config c.created address (takeWay config address c) := by
  left
  change (Function.update c.ways _ _ (config.setIndex address)).find?
    ((createDirectoryEntry config address c).2.isOf address) = some c.created
  rw [Function.update_self, List.find?_append]
  have still : (c.ways (config.setIndex address)).find?
      ((createDirectoryEntry config address c).2.isOf address) = none := by
    refine List.find?_eq_none.2 fun p member => ?_
    rw [isOf_create (shape.inSet _ p member).2]
    exact List.find?_eq_none.1 absent p member
  rw [still, Option.none_or, List.find?_singleton, isOf_created]
  rfl

/-- `getDirectoryEntry` returns the entry of the address, or none when each way of the set is that
of another address. -/
theorem getDirectoryEntry_spec (shape : Shape config c) (formed : Formed config c) (address : ℕ) :
    Shape config (getDirectoryEntry config address c).2 ∧
      Formed config (getDirectoryEntry config address c).2 ∧
      (∀ pointer, (getDirectoryEntry config address c).1 = some pointer →
        Located config pointer address (getDirectoryEntry config address c).2) ∧
      ((getDirectoryEntry config address c).1 = none → (getDirectoryEntry config address c).2 = c ∧
        ∀ p ∈ c.ways (config.setIndex address), (c.heap p).address ≠ address) := by
  cases found : (c.ways (config.setIndex address)).find? (c.isOf address) with
  | some p =>
    have located : Located config p address c := .inl found
    rw [located.get]
    refine ⟨shape, formed, fun pointer same => ?_, nofun⟩
    cases same
    exact located
  | none =>
    by_cases free : (c.ways (config.setIndex address)).length < config.associativity
    · rw [getDirectoryEntry_free found free]
      refine ⟨takeWay_shape shape address, formed.create address, fun pointer same => ?_, nofun⟩
      cases same
      exact takeWay_located shape found
    · rw [getDirectoryEntry_full found free]
      refine ⟨shape, formed, fun pointer same => ?_, fun _ => ⟨rfl, fun p member same => ?_⟩⟩
      · exact .inr ⟨found, Nat.le_of_not_lt free, same⟩
      · exact List.find?_eq_none.1 found p member (isOf_iff.2 same)

/-- The entry of an address is the first one in its set. -/
def InWay (config : DirectoryConfig) (pointer address : ℕ) (c : DirectoryCache) : Prop :=
  (c.ways (config.setIndex address)).find? (c.isOf address) = some pointer

/-- A way keeps its entry when another address is looked up. -/
theorem InWay.get {other : ℕ} (inWay : InWay config pointer address c) (shape : Shape config c) :
    InWay config pointer address (getDirectoryEntry config other c).2 := by
  cases found : (c.ways (config.setIndex other)).find? (c.isOf other) with
  | some p =>
    have located : Located config p other c := .inl found
    rw [located.get]
    exact inWay
  | none =>
    by_cases free : (c.ways (config.setIndex other)).length < config.associativity
    · rw [getDirectoryEntry_free found free]
      have still : (c.ways (config.setIndex address)).find?
          ((createDirectoryEntry config other c).2.isOf address) = some pointer := by
        rw [← inWay]
        exact List.find?_congr fun p member => isOf_create (shape.inSet _ p member).2
      change (Function.update c.ways _ _ (config.setIndex address)).find?
        ((createDirectoryEntry config other c).2.isOf address) = some pointer
      by_cases isSet : config.setIndex address = config.setIndex other
      · rw [isSet, Function.update_self, List.find?_append, ← isSet, still]
        rfl
      · rw [Function.update_of_ne isSet]
        exact still
    · rw [getDirectoryEntry_full found free]
      exact inWay

/-- The only element of a list with a property is found. -/
theorem find?_set {l : List ℕ} {q : ℕ → Bool} {i x : ℕ} (inside : i < l.length) (isX : q x = true)
    (others : ∀ y ∈ l, q y = false) : (l.set i x).find? q = some x := by
  induction l generalizing i with
  | nil => cases inside
  | cons y l ih =>
    cases i with
    | zero => exact List.find?_cons_of_pos isX
    | succ i =>
      rw [List.set_cons_succ, List.find?_cons_of_neg]
      · exact ih (Nat.lt_of_succ_lt_succ inside) fun z member =>
          others z (List.mem_cons_of_mem y member)
      · rw [others y List.mem_cons_self]
        nofun

/-- **`replaceDirectoryEntry`** gives the way of another address to the address, if it has none. -/
theorem replaceDirectoryEntry_spec {replacedAddress : ℕ} (shape : Shape config c)
    (formed : Formed config c)
    (absent : ∀ p ∈ c.ways (config.setIndex address), (c.heap p).address ≠ address)
    (same : config.setIndex replacedAddress = config.setIndex address) :
    Ensures (fun r => Shape config r.2 ∧ Formed config r.2 ∧ InWay config r.1 address r.2)
      (fun _ => True) (replaceDirectoryEntry config replacedAddress address c) := by
  unfold replaceDirectoryEntry
  cases found : (c.ways (config.setIndex replacedAddress)).find? (c.isOf replacedAddress) with
  | none => simp only [found, ensures_error]
  | some p =>
    simp only [found, ensures_ok]
    have member : p ∈ c.ways (config.setIndex address) := same ▸ List.mem_of_find?_eq_some found
    have inside : (c.ways (config.setIndex replacedAddress)).findIdx (c.isOf replacedAddress) <
        (c.ways (config.setIndex replacedAddress)).length :=
      List.findIdx_lt_length_of_exists
        ⟨p, List.mem_of_find?_eq_some found, List.find?_some found⟩
    refine ⟨shape.create (fun i q inWays => ?_) fun q inList => ?_, formed.create address, ?_⟩
    · by_cases isSet : i = config.setIndex replacedAddress
      · rw [isSet, Function.update_self] at inWays
        rcases List.mem_or_eq_of_mem_set inWays with old | new
        · exact .inl (isSet ▸ old)
        · exact .inr ⟨new, isSet.trans same⟩
      · rw [Function.update_of_ne isSet] at inWays
        exact .inl inWays
    · rcases List.mem_append.1 inList with old | new
      · exact shape.inList q old
      · rw [List.mem_singleton.1 new]
        exact (shape.inSet _ p member).2
    · let way := (c.ways (config.setIndex replacedAddress)).findIdx (c.isOf replacedAddress)
      change (Function.update c.ways (config.setIndex replacedAddress)
        ((c.ways (config.setIndex replacedAddress)).set way c.created)
        (config.setIndex address)).find?
          ((createDirectoryEntry config address c).2.isOf address) = some c.created
      rw [← same, Function.update_self]
      refine find?_set inside isOf_created fun q inWays => ?_
      rw [same] at inWays
      rw [isOf_create (shape.inSet _ q inWays).2]
      exact decide_eq_false (absent q inWays)

theorem invalidateDirectoryEntry_spec (shape : Shape config c) (formed : Formed config c)
    (address : ℕ) :
    Ensures (fun c' => Shape config c' ∧ Formed config c' ∧ c'.heap = c.heap ∧ c'.ways = c.ways)
      (fun _ => True) (invalidateDirectoryEntry address c) := by
  unfold invalidateDirectoryEntry
  cases c.replaced.find? (c.isOf address) with
  | none => trivial
  | some p =>
    refine ⟨⟨shape.inSet, fun q member => ?_⟩, formed, rfl, rfl⟩
    exact shape.inList q (List.mem_of_mem_eraseIdx member)

/-- Each candidate has the set of the address. -/
theorem getReplacementCandidates_spec (shape : Shape config c) (formed : Formed config c)
    (address : ℕ) :
    Shape config (getReplacementCandidates config address c).2 ∧
      Formed config (getReplacementCandidates config address c).2 ∧
      (getReplacementCandidates config address c).2.heap = c.heap ∧
      (getReplacementCandidates config address c).2.ways = c.ways ∧
      ∀ p ∈ (getReplacementCandidates config address c).1, p ∈ c.ways (config.setIndex address) := by
  refine ⟨⟨shape.inSet, shape.inList⟩, formed, rfl, rfl, fun p member => ?_⟩
  obtain ⟨i, -, at_i⟩ := List.mem_filterMap.1 member
  exact List.mem_of_getElem? at_i

end GpuHotSpot.Common.DramDirectory
