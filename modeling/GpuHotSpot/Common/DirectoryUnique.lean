import Mathlib.Data.List.Nodup
import Mathlib.Data.List.InsertIdx
import GpuHotSpot.Common.DirectoryForm
import GpuHotSpot.Common.DirectoryService

/-!
# One entry for each address

An entry that is replaced leaves its way to another address and waits in a list until it is
nullified, and in the meantime its address can be requested again. A set that has had to replace an
entry stays full, so the look-up takes no free way for the address before it comes to the list.

* `Unique`: the addresses of a set and of the list are all different.
* `Unique.get`, `Unique.replace`, `Unique.invalidate`: the operations of the directory cache keep
  them so, and find the entries that they look for.
* `OneEntry`: the list has the addresses that are being nullified.
* `run_oneEntry`: this is so after every sequence of messages.
-/

namespace GpuHotSpot.Common.DramDirectory

open Fallible

/-! ## Addresses -/

section Cache

variable {config : DirectoryConfig} {c c' : DirectoryCache} {pointer address : ℕ} {l : List ℕ}

/-- The addresses of the entries at some pointers. -/
def DirectoryCache.addresses (c : DirectoryCache) (l : List ℕ) : List ℕ :=
  l.map fun p => (c.heap p).address

/-- The only entry of an address is found. -/
theorem find?_isOf (nodup : (c.addresses l).Nodup) (member : pointer ∈ l)
    (isIts : (c.heap pointer).address = address) : l.find? (c.isOf address) = some pointer := by
  induction l with
  | nil => cases member
  | cons p l ih =>
    obtain ⟨new, rest⟩ := List.nodup_cons.mp nodup
    rcases List.mem_cons.mp member with rfl | later
    · exact List.find?_cons_of_pos (isOf_iff.2 isIts)
    · rw [List.find?_cons_of_neg, ih rest later]
      intro isOf
      refine new (List.mem_map.mpr ⟨pointer, later, ?_⟩)
      exact isIts.trans (isOf_iff.1 isOf).symm

theorem find?_isOf_none : l.find? (c.isOf address) = none ↔ address ∉ c.addresses l := by
  rw [List.find?_eq_none, DirectoryCache.addresses, List.mem_map, not_exists]
  exact forall_congr' fun p => by rw [isOf_iff, not_and]

theorem find?_isOf_some (member : address ∈ c.addresses l) :
    ∃ p ∈ l, l.find? (c.isOf address) = some p ∧ (c.heap p).address = address := by
  cases found : l.find? (c.isOf address) with
  | none => exact absurd member (find?_isOf_none.1 found)
  | some p => exact ⟨p, List.mem_of_find?_eq_some found, rfl, isOf_iff.1 (List.find?_some found)⟩

/-- The index of the entry of an address. -/
theorem findIdx_isOf : l.findIdx (c.isOf address) = (c.addresses l).idxOf address := by
  rw [List.idxOf, DirectoryCache.addresses, List.findIdx_map]
  refine congrArg (List.findIdx · l) (funext fun p => ?_)
  rw [Function.comp_apply, DirectoryCache.isOf, beq_eq_decide]

/-- Creating an entry leaves the addresses of the others. -/
theorem addresses_create (created : ∀ p ∈ l, p < c.created) :
    (createDirectoryEntry config address c).2.addresses l = c.addresses l := by
  refine List.map_congr_left fun p member => ?_
  change (Function.update c.heap c.created _ p).address = _
  rw [Function.update_of_ne (Nat.ne_of_lt (created p member))]

theorem address_created :
    ((createDirectoryEntry config address c).2.heap c.created).address = address :=
  isOf_iff.1 isOf_created

/-! ## Entries of different addresses -/

/-- **The entries of a set and of the list** have different addresses, and a set from which an entry
was replaced is full. -/
structure Unique (config : DirectoryConfig) (c : DirectoryCache) : Prop where
  shape : Shape config c
  inSet : ∀ i, (c.addresses (c.ways i)).Nodup
  inList : (c.addresses c.replaced).Nodup
  apart : ∀ a ∈ c.addresses c.replaced, a ∉ c.addresses (c.ways (config.setIndex a))
  full : ∀ a ∈ c.addresses c.replaced,
    config.associativity ≤ (c.ways (config.setIndex a)).length

/-- The entries of an address, in its set and in the list. -/
def DirectoryCache.entriesOf (config : DirectoryConfig) (address : ℕ) (c : DirectoryCache) :
    List ℕ :=
  (c.ways (config.setIndex address) ++ c.replaced).filter (c.isOf address)

namespace Unique

theorem congr (unique : Unique config c) (ways : c'.ways = c.ways)
    (replaced : c'.replaced = c.replaced) (created : c'.created = c.created)
    (same : ∀ p, (c'.heap p).address = (c.heap p).address) : Unique config c' := by
  have addresses (l : List ℕ) : c'.addresses l = c.addresses l :=
    List.map_congr_left fun p _ => same p
  refine ⟨⟨fun i p member => ?_, ?_⟩, fun i => ?_, ?_, ?_, ?_⟩
  · rw [same, created]
    exact unique.shape.inSet i p (ways ▸ member)
  · rw [replaced, created]
    exact unique.shape.inList
  · rw [addresses, ways]
    exact unique.inSet i
  · rw [addresses, replaced]
    exact unique.inList
  · rw [replaced, addresses]
    intro a inList
    rw [ways, addresses]
    exact unique.apart a inList
  · rw [replaced, addresses, ways]
    exact unique.full

/-- **An address has at most one entry.** -/
theorem entriesOf_length (unique : Unique config c) (address : ℕ) :
    (c.entriesOf config address).length ≤ 1 := by
  have count (l : List ℕ) : l.countP (c.isOf address) = (c.addresses l).count address := by
    rw [List.count, DirectoryCache.addresses, List.countP_map]
    refine congrArg (List.countP · l) (funext fun p => ?_)
    rw [Function.comp_apply, DirectoryCache.isOf, beq_eq_decide]
  rw [DirectoryCache.entriesOf, ← List.countP_eq_length_filter, List.countP_append, count, count]
  have once := List.nodup_iff_count_le_one.mp (unique.inSet (config.setIndex address)) address
  have listed := List.nodup_iff_count_le_one.mp unique.inList address
  by_cases inList : address ∈ c.addresses c.replaced
  · rw [List.count_eq_zero_of_not_mem (unique.apart address inList)]
    omega
  · rw [List.count_eq_zero_of_not_mem inList]
    omega

/-- **The entry of an address** is looked up. -/
theorem get_entry (unique : Unique config c) (entry : pointer ∈ c.entriesOf config address) :
    getDirectoryEntry config address c = (some pointer, c) := by
  obtain ⟨member, isOf⟩ := List.mem_filter.mp entry
  have isIts := isOf_iff.1 isOf
  refine Located.get ?_
  rcases List.mem_append.mp member with inSet | inList
  · exact .inl (find?_isOf (unique.inSet _) inSet isIts)
  · have listed : address ∈ c.addresses c.replaced := List.mem_map.mpr ⟨pointer, inList, isIts⟩
    exact .inr ⟨find?_isOf_none.2 (unique.apart address listed), unique.full address listed,
      find?_isOf unique.inList inList isIts⟩

/-- What is known when `getDirectoryEntry` finds no entry of the address. -/
structure NoEntry (config : DirectoryConfig) (address : ℕ) (c : DirectoryCache) : Prop where
  notInSet : address ∉ c.addresses (c.ways (config.setIndex address))
  notInList : address ∉ c.addresses c.replaced
  full : config.associativity ≤ (c.ways (config.setIndex address)).length

/-- **`getDirectoryEntry`** keeps the addresses different, and the list. -/
theorem get (unique : Unique config c) (address : ℕ) :
    Unique config (getDirectoryEntry config address c).2 ∧
      (getDirectoryEntry config address c).2.addresses
          (getDirectoryEntry config address c).2.replaced = c.addresses c.replaced ∧
      ((getDirectoryEntry config address c).1 = none →
        NoEntry config address (getDirectoryEntry config address c).2) := by
  cases found : (c.ways (config.setIndex address)).find? (c.isOf address) with
  | some p =>
    have located : Located config p address c := .inl found
    rw [located.get]
    exact ⟨unique, rfl, nofun⟩
  | none =>
    have absent := find?_isOf_none.1 found
    by_cases free : (c.ways (config.setIndex address)).length < config.associativity
    · rw [getDirectoryEntry_free found free]
      have inWays (i : ℕ) : (takeWay config address c).addresses (c.ways i) =
          c.addresses (c.ways i) :=
        addresses_create fun p member => (unique.shape.inSet i p member).2
      have inList : (takeWay config address c).addresses c.replaced = c.addresses c.replaced :=
        addresses_create unique.shape.inList
      have new : address ∉ c.addresses c.replaced := fun listed =>
        absurd (unique.full address listed) (by omega)
      have ways (i : ℕ) :
          (takeWay config address c).addresses ((takeWay config address c).ways i) =
          if i = config.setIndex address then c.addresses (c.ways i) ++ [address]
          else c.addresses (c.ways i) := by
        change (takeWay config address c).addresses (Function.update c.ways _ _ i) = _
        split_ifs with isSet
        · rw [isSet, Function.update_self, DirectoryCache.addresses, List.map_append,
            ← DirectoryCache.addresses, inWays]
          exact congrArg (c.addresses _ ++ [·]) address_created
        · rw [Function.update_of_ne isSet, inWays]
      refine ⟨⟨takeWay_shape unique.shape address, fun i => ?_, ?_, ?_, ?_⟩, inList, nofun⟩
      · rw [ways]
        split_ifs with isSet
        · refine List.nodup_append.mpr ⟨unique.inSet i, List.nodup_singleton _, ?_⟩
          intro a old b single same
          exact absent (isSet ▸ (List.mem_singleton.mp single) ▸ same ▸ old)
        · exact unique.inSet i
      · exact inList ▸ unique.inList
      · change ∀ a ∈ (takeWay config address c).addresses c.replaced, _
        rw [inList]
        intro a listed
        rw [ways]
        split_ifs with isSet
        · rw [List.mem_append, List.mem_singleton, not_or]
          exact ⟨unique.apart a listed, fun same => new (same ▸ listed)⟩
        · exact unique.apart a listed
      · change ∀ a ∈ (takeWay config address c).addresses c.replaced, _
        rw [inList]
        intro a listed
        refine (unique.full a listed).trans ?_
        change (c.ways _).length ≤ (Function.update c.ways _ _ _).length
        by_cases isSet : config.setIndex a = config.setIndex address
        · rw [isSet, Function.update_self, List.length_append]
          omega
        · rw [Function.update_of_ne isSet]
    · rw [getDirectoryEntry_full found free]
      exact ⟨unique, rfl, fun none => ⟨absent, find?_isOf_none.1 none, Nat.le_of_not_lt free⟩⟩

/-- An element whose only occurrence is replaced is gone. -/
theorem not_mem_set_idxOf {a b : ℕ} (nodup : l.Nodup) (other : a ≠ b) :
    a ∉ l.set (l.idxOf a) b := by
  induction l with
  | nil => exact List.not_mem_nil
  | cons x l ih =>
    obtain ⟨once, rest⟩ := List.nodup_cons.mp nodup
    rcases eq_or_ne x a with rfl | ne
    · rw [List.idxOf_cons_self, List.set_cons_zero, List.mem_cons, not_or]
      exact ⟨other, once⟩
    · rw [List.idxOf_cons_ne _ ne, List.set_cons_succ, List.mem_cons, not_or]
      exact ⟨ne.symm, ih rest⟩

/-- The address of an entry of a set is not in the list. -/
theorem notInList (unique : Unique config c) {set : ℕ} (member : pointer ∈ c.ways set) :
    (c.heap pointer).address ∉ c.addresses c.replaced := fun listed => by
  have isSet := (unique.shape.inSet set pointer member).1
  refine unique.apart _ listed ?_
  rw [isSet]
  exact List.mem_map.mpr ⟨pointer, member, rfl⟩

/-- **`replaceDirectoryEntry`** finds the entry, which joins the list. -/
theorem replace (unique : Unique config c) (none : NoEntry config address c) {replaced : ℕ}
    (member : replaced ∈ c.ways (config.setIndex address)) :
    Ensures (fun r => Unique config r.2 ∧ r.2.addresses r.2.replaced =
        c.addresses c.replaced ++ [(c.heap replaced).address])
      (fun _ => False) (replaceDirectoryEntry config (c.heap replaced).address address c) := by
  set gone := (c.heap replaced).address with isGone
  have sameSet : config.setIndex gone = config.setIndex address :=
    (unique.shape.inSet _ replaced member).1
  have goneSet : gone ∈ c.addresses (c.ways (config.setIndex address)) :=
    List.mem_map.mpr ⟨replaced, member, rfl⟩
  have found : (c.ways (config.setIndex address)).find? (c.isOf gone) = some replaced :=
    find?_isOf (unique.inSet _) member rfl
  have goneList : gone ∉ c.addresses c.replaced := unique.notInList member
  unfold replaceDirectoryEntry
  simp only [sameSet, found, ensures_ok, findIdx_isOf]
  set c' : DirectoryCache := { (createDirectoryEntry config address
      { c with replaced := c.replaced ++ [replaced] }).2 with
    ways := Function.update c.ways (config.setIndex address)
      ((c.ways (config.setIndex address)).set
        ((c.addresses (c.ways (config.setIndex address))).idxOf gone) c.created) } with isNew
  change Unique config c' ∧ c'.addresses (c.replaced ++ [replaced]) = _
  have old {l : List ℕ} (created : ∀ p ∈ l, p < c.created) : c'.addresses l = c.addresses l :=
    addresses_create created
  have listed : c'.addresses (c.replaced ++ [replaced]) = c.addresses c.replaced ++ [gone] := by
    refine (old fun p inList => ?_).trans (List.map_append)
    rcases List.mem_append.mp inList with before | last
    · exact unique.shape.inList p before
    · rw [List.mem_singleton.mp last]
      exact (unique.shape.inSet _ replaced member).2
  have ways (i : ℕ) : c'.addresses (c'.ways i) = if i = config.setIndex address then
      (c.addresses (c.ways i)).set ((c.addresses (c.ways i)).idxOf gone) address
      else c.addresses (c.ways i) := by
    change c'.addresses (Function.update c.ways _ _ i) = _
    split_ifs with isSet
    · rw [isSet, Function.update_self, DirectoryCache.addresses, List.map_set,
        ← DirectoryCache.addresses, old fun p inWays => (unique.shape.inSet _ p inWays).2]
      exact congrArg _ address_created
    · rw [Function.update_of_ne isSet, old fun p inWays => (unique.shape.inSet i p inWays).2]
  refine ⟨⟨?_, fun i => ?_, ?_, fun a inList => ?_, fun a inList => ?_⟩, listed⟩
  · refine unique.shape.create (fun i p inWays => ?_) fun p inList => ?_
    · by_cases isSet : i = config.setIndex address
      · rw [isSet, Function.update_self] at inWays
        rcases List.mem_or_eq_of_mem_set inWays with before | new
        · exact .inl (isSet ▸ before)
        · exact .inr ⟨new, isSet⟩
      · rw [Function.update_of_ne isSet] at inWays
        exact .inl inWays
    · rcases List.mem_append.mp inList with before | last
      · exact unique.shape.inList p before
      · rw [List.mem_singleton.mp last]
        exact (unique.shape.inSet _ replaced member).2
  · rw [ways]
    split_ifs with isSet
    · exact (unique.inSet i).set (isSet ▸ none.notInSet)
    · exact unique.inSet i
  · change (c'.addresses (c.replaced ++ [replaced])).Nodup
    rw [listed]
    refine List.nodup_append.mpr ⟨unique.inList, List.nodup_singleton _, ?_⟩
    intro a before b last same
    exact goneList ((List.mem_singleton.mp last) ▸ same ▸ before)
  · change a ∈ c'.addresses (c.replaced ++ [replaced]) at inList
    rw [listed, List.mem_append, List.mem_singleton] at inList
    rw [ways]
    rcases inList with before | rfl
    · split_ifs with isSet
      · intro inSet
        rcases List.mem_or_eq_of_mem_set inSet with still | new
        · exact unique.apart a before still
        · exact none.notInList (new ▸ before)
      · exact unique.apart a before
    · rw [if_pos sameSet, sameSet]
      exact not_mem_set_idxOf (unique.inSet _) fun same => none.notInSet (same ▸ goneSet)
  · change a ∈ c'.addresses (c.replaced ++ [replaced]) at inList
    rw [listed, List.mem_append, List.mem_singleton] at inList
    have full : config.associativity ≤ (c.ways (config.setIndex a)).length := by
      rcases inList with before | rfl
      · exact unique.full a before
      · rw [sameSet]
        exact none.full
    change _ ≤ (Function.update c.ways _ _ _).length
    by_cases isSet : config.setIndex a = config.setIndex address
    · rw [isSet, Function.update_self, List.length_set, ← isSet]
      exact full
    · rw [Function.update_of_ne isSet]
      exact full

/-- **`invalidateDirectoryEntry`** finds an address of the list, which leaves it. -/
theorem invalidate (unique : Unique config c) (listed : address ∈ c.addresses c.replaced) :
    Ensures (fun c' => Unique config c' ∧ ∀ a, a ∈ c'.addresses c'.replaced ↔
        a ∈ c.addresses c.replaced ∧ a ≠ address)
      (fun _ => False) (invalidateDirectoryEntry address c) := by
  obtain ⟨p, -, found, -⟩ := find?_isOf_some listed
  unfold invalidateDirectoryEntry
  simp only [found, ensures_ok, findIdx_isOf]
  have left : c.addresses (c.replaced.eraseIdx ((c.addresses c.replaced).idxOf address)) =
      (c.addresses c.replaced).erase address := by
    rw [DirectoryCache.addresses, ← List.eraseIdx_map, ← DirectoryCache.addresses,
      List.eraseIdx_idxOf_eq_erase]
  refine ⟨⟨⟨unique.shape.inSet, fun p member => ?_⟩, unique.inSet, ?_, fun a inList => ?_,
    fun a inList => ?_⟩, fun a => ?_⟩
  · exact unique.shape.inList p (List.mem_of_mem_eraseIdx member)
  · exact left ▸ unique.inList.erase address
  · exact unique.apart a (List.mem_of_mem_erase (left ▸ inList))
  · exact unique.full a (List.mem_of_mem_erase (left ▸ inList))
  · refine (iff_of_eq (congrArg (a ∈ ·) left)).trans (unique.inList.mem_erase_iff.trans and_comm)

end Unique

end Cache

/-! ## Addresses that are being nullified -/

variable {D N : Type} {config : Config D N} {s s' s'' : Cntlr D N} {address requester : ℕ}
  {req : ShmemReq D} {cached : Option D}

/-- The requests of an address, with the address and the type of each. -/
def Cntlr.waiting (s : Cntlr D N) (address : ℕ) : List (ℕ × MsgType) :=
  (s.queues address).map fun req => (req.msg.address, req.msg.msgType)

/-- **The invariant**: the list has the addresses with a nullify request, which is in front. -/
structure OneEntry (config : Config D N) (s : Cntlr D N) : Prop where
  unique : Unique config.directory s.cache
  queued : ∀ a, ∀ k ∈ s.waiting a, k.1 = a ∧ isRequest k.2 = true
  behind : ∀ a, ∀ k ∈ (s.waiting a).tail, k.2 ≠ .nullifyReq
  nullified : ∀ a, a ∈ s.cache.addresses s.cache.replaced ↔
    (s.waiting a).head? = some (a, .nullifyReq)

/-- No search of the directory cache has failed. -/
def Told (stop : Stop) : Prop := stop ≠ .notInSet ∧ stop ≠ .notReplaced

/-- The addresses and the queues stay as they are. -/
structure Quiet (s s' : Cntlr D N) : Prop where
  ways : s'.cache.ways = s.cache.ways
  replaced : s'.cache.replaced = s.cache.replaced
  created : s'.cache.created = s.cache.created
  entry : ∀ p, (s'.cache.heap p).address = (s.cache.heap p).address
  waiting : ∀ a, s'.waiting a = s.waiting a

theorem OneEntry.quiet (one : OneEntry config s) (quiet : Quiet s s') : OneEntry config s' := by
  have listed : s'.cache.addresses s'.cache.replaced = s.cache.addresses s.cache.replaced := by
    rw [quiet.replaced]
    exact List.map_congr_left fun p _ => quiet.entry p
  refine ⟨one.unique.congr quiet.ways quiet.replaced quiet.created quiet.entry, fun a => ?_,
    fun a => ?_, fun a => ?_⟩
  · rw [quiet.waiting]
    exact one.queued a
  · rw [quiet.waiting]
    exact one.behind a
  · rw [listed, quiet.waiting]
    exact one.nullified a

theorem Quiet.refl (s : Cntlr D N) : Quiet s s := ⟨rfl, rfl, rfl, fun _ => rfl, fun _ => rfl⟩

theorem Quiet.trans (first : Quiet s s') (second : Quiet s' s'') : Quiet s s'' where
  ways := second.ways.trans first.ways
  replaced := second.replaced.trans first.replaced
  created := second.created.trans first.created
  entry p := (second.entry p).trans (first.entry p)
  waiting a := (second.waiting a).trans (first.waiting a)

/-- The log and the NUCA cache do not matter. -/
theorem Quiet.of_same (cache : s'.cache = s.cache) (queues : s'.queues = s.queues) :
    Quiet s s' := by
  refine ⟨?_, ?_, ?_, fun p => ?_, fun a => ?_⟩
  · rw [cache]
  · rw [cache]
  · rw [cache]
  · rw [cache]
  · rw [Cntlr.waiting, queues, Cntlr.waiting]

theorem Quiet.write (pointer : ℕ) (e : Entry) (keeps : e.address = (s.entry pointer).address) :
    Quiet s (s.write pointer e) := by
  refine ⟨rfl, rfl, rfl, fun p => ?_, fun _ => rfl⟩
  change (Function.update s.cache.heap pointer e p).address = _
  rcases eq_or_ne p pointer with rfl | ne
  · rw [Function.update_self]
    exact keeps
  · rw [Function.update_of_ne ne]

theorem Quiet.setFront {rest : List (ShmemReq D)} (changed : ShmemReq D)
    (front : s.queues address = req :: rest) (sameAddress : changed.msg.address = req.msg.address)
    (sameType : changed.msg.msgType = req.msg.msgType) : Quiet s (s.setFront address changed) := by
  refine ⟨rfl, rfl, rfl, fun _ => rfl, fun a => ?_⟩
  change (Function.update s.queues address (changed :: (s.queues address).tail) a).map _ = _
  rcases eq_or_ne a address with rfl | ne
  · rw [Function.update_self, Cntlr.waiting, front, List.tail_cons, List.map_cons, List.map_cons,
      sameAddress, sameType]
  · rw [Function.update_of_ne ne]
    rfl

theorem Quiet.foldl {A : Type} {send : Cntlr D N → A → Cntlr D N}
    (each : ∀ s a, Quiet s (send s a)) (l : List A) (s : Cntlr D N) : Quiet s (l.foldl send s) := by
  induction l generalizing s with
  | nil => exact .refl s
  | cons a l ih => exact (each s a).trans (ih (send s a))

theorem sendToEach_quiet (cores : List ℕ) (msgType : MsgType) :
    Quiet s (sendToEach cores msgType requester address s) := by
  refine .foldl (fun s core => ?_) cores s
  exact .of_same rfl rfl

theorem sendForUpgrade_quiet (sharers : List ℕ) (hasCopy : Bool) :
    Quiet s (sendForUpgrade sharers hasCopy requester address s) := by
  refine .foldl (fun s sharer => ?_) sharers.zipIdx s
  dsimp only
  split_ifs
  · exact .of_same rfl rfl
  · exact .of_same rfl rfl
  · exact .refl s

theorem readNuca_quiet (config : Config D N) (address : ℕ) (s : Cntlr D N) :
    Quiet s (readNuca config address s).2 := by
  unfold readNuca
  cases config.nuca <;> exact .of_same rfl rfl

theorem sendDataToNUCA_quiet (data : D) : Quiet s (sendDataToNUCA config address data s) :=
  .of_same (sendDataToNUCA_cache data) (sendDataToNUCA_queues data)

theorem sendDataToDram_quiet (data : Option D) :
    Ensures (Quiet s) Told (sendDataToDram config address requester data s) := by
  unfold sendDataToDram
  split
  · exact ⟨nofun, nofun⟩
  · split
    · exact sendDataToNUCA_quiet _
    · exact .of_same rfl rfl

/-! ## Looking up -/

/-- The invariant holds, and the queue of the address stays as it is. -/
structure Keeps (config : Config D N) (address : ℕ) (s s' : Cntlr D N) : Prop where
  one : OneEntry config s'
  waiting : s'.waiting address = s.waiting address

theorem Keeps.of_quiet (one : OneEntry config s) (quiet : Quiet s s') : Keeps config address s s' :=
  ⟨one.quiet quiet, quiet.waiting address⟩

theorem Keeps.quiet (keeps : Keeps config address s s') (quiet : Quiet s' s'') :
    Keeps config address s s'' :=
  ⟨keeps.one.quiet quiet, (quiet.waiting address).trans keeps.waiting⟩

theorem Keeps.trans (first : Keeps config address s s') (second : Keeps config address s' s'') :
    Keeps config address s s'' := ⟨second.one, second.waiting.trans first.waiting⟩

theorem find_keeps (one : OneEntry config s) (address : ℕ) :
    OneEntry config (find config address s).2 ∧
      (∀ a, (find config address s).2.waiting a = s.waiting a) ∧ ((find config address s).1 = none →
        Unique.NoEntry config.directory address (find config address s).2.cache) := by
  obtain ⟨unique, listed, none⟩ := one.unique.get address
  refine ⟨⟨unique, one.queued, one.behind, fun a => ?_⟩, fun _ => rfl, none⟩
  change a ∈ (getDirectoryEntry config.directory address s.cache).2.addresses
    (getDirectoryEntry config.directory address s.cache).2.replaced ↔ _
  rw [listed]
  exact one.nullified a

theorem entryOf_keeps (one : OneEntry config s) (looked : ℕ) :
    Ensures (fun r => OneEntry config r.2 ∧ ∀ a, r.2.waiting a = s.waiting a) Told
      (entryOf config looked s) := by
  obtain ⟨one', waiting, -⟩ := find_keeps one looked
  unfold entryOf
  rcases found : find config looked s with ⟨none | pointer, s'⟩
  · exact ⟨nofun, nofun⟩
  · rw [found] at one' waiting
    exact ⟨one', waiting⟩

theorem retrieveDataAndSendToL2Cache_keeps (one : OneEntry config s) (reply : MsgType) :
    Ensures (fun r => Keeps config address s r.2) Told
      (retrieveDataAndSendToL2Cache config reply requester address cached s) := by
  unfold retrieveDataAndSendToL2Cache
  refine (entryOf_keeps one address).bind fun ⟨pointer, s₁⟩ ⟨one₁, waiting₁⟩ => ?_
  have kept : Keeps config address s s₁ := ⟨one₁, waiting₁ address⟩
  cases cached with
  | some data =>
    exact (kept.quiet (.write pointer { s₁.entry pointer with forwarder := some requester }
      rfl)).quiet (.of_same rfl rfl)
  | none =>
    have read := kept.quiet (readNuca_quiet config address s₁)
    dsimp only
    rcases loaded : readNuca config address s₁ with ⟨hit, s₂⟩
    rw [loaded] at read
    cases hit with
    | some data => exact read.quiet (.of_same rfl rfl)
    | none =>
      dsimp only
      split
      · exact ⟨nofun, nofun⟩
      next front rest queue =>
        split_ifs
        · exact (read.quiet (.setFront
            { front with forwardingFrom := (s₂.entry pointer).forwarder }
            queue rfl rfl)).quiet (.of_same rfl rfl)
        · exact (read.quiet (.setFront { front with waitForData := true }
            queue rfl rfl)).quiet (.of_same rfl rfl)

/-! ## Queues that change -/

/-- The front request of an address that is not in the list leaves its queue. -/
theorem oneEntry_dequeue (unique : Unique config.directory s.cache)
    (queued : ∀ a, ∀ k ∈ s.waiting a, k.1 = a ∧ isRequest k.2 = true)
    (behind : ∀ a, ∀ k ∈ (s.waiting a).tail, k.2 ≠ .nullifyReq)
    (gone : address ∉ s.cache.addresses s.cache.replaced)
    (others : ∀ a, a ≠ address → (a ∈ s.cache.addresses s.cache.replaced ↔
      (s.waiting a).head? = some (a, .nullifyReq))) : OneEntry config (s.dequeue address) := by
  have self : (s.dequeue address).waiting address = (s.waiting address).tail := by
    change (Function.update s.queues address _ address).map _ = _
    rw [Function.update_self, Cntlr.waiting, List.map_tail]
  have other {a : ℕ} (ne : a ≠ address) : (s.dequeue address).waiting a = s.waiting a := by
    change (Function.update s.queues address _ a).map _ = _
    rw [Function.update_of_ne ne]
    rfl
  refine ⟨unique, fun a k member => ?_, fun a k member => ?_, fun a => ?_⟩
  · rcases eq_or_ne a address with rfl | ne
    · exact queued a k (List.mem_of_mem_tail (self ▸ member))
    · exact queued a k (other ne ▸ member)
  · rcases eq_or_ne a address with rfl | ne
    · exact behind a k (List.mem_of_mem_tail (self ▸ member))
    · exact behind a k (other ne ▸ member)
  · rcases eq_or_ne a address with rfl | ne
    · rw [self]
      refine iff_of_false gone fun head => ?_
      exact behind a _ (List.mem_of_mem_head? head) rfl
    · rw [other ne]
      exact others a ne

/-- **A request** is dequeued. -/
theorem OneEntry.dequeue (one : OneEntry config s)
    (request : (s.waiting address).head? ≠ some (address, .nullifyReq)) :
    OneEntry config (s.dequeue address) :=
  oneEntry_dequeue one.unique one.queued one.behind
    (fun listed => request ((one.nullified _).mp listed)) fun a _ => one.nullified a

theorem waiting_enqueue (a : ℕ) : (s.enqueue req).waiting a =
    if a = req.msg.address then s.waiting a ++ [(req.msg.address, req.msg.msgType)]
    else s.waiting a := by
  change (Function.update s.queues req.msg.address (s.queues req.msg.address ++ [req]) a).map _ = _
  split_ifs with isIts
  · rw [isIts, Function.update_self, List.map_append]
    rfl
  · rw [Function.update_of_ne isIts]
    rfl

/-- **A request** joins its queue. -/
theorem OneEntry.enqueue (one : OneEntry config s) (isReq : isRequest req.msg.msgType = true)
    (request : req.msg.msgType ≠ .nullifyReq) : OneEntry config (s.enqueue req) := by
  refine ⟨one.unique, fun a k member => ?_, fun a k member => ?_, fun a => ?_⟩
  · rw [waiting_enqueue] at member
    split_ifs at member with isIts
    · rcases List.mem_append.mp member with before | last
      · exact one.queued a k before
      · rw [List.mem_singleton.mp last]
        exact ⟨isIts.symm, isReq⟩
    · exact one.queued a k member
  · rw [waiting_enqueue] at member
    split_ifs at member with isIts
    · cases queue : s.waiting a with
      | nil =>
        rw [queue] at member
        cases member
      | cons first rest =>
        rw [queue, List.cons_append, List.tail_cons] at member
        rcases List.mem_append.mp member with before | last
        · exact one.behind a k (queue ▸ before)
        · rw [List.mem_singleton.mp last]
          exact request
    · exact one.behind a k member
  · rw [waiting_enqueue]
    refine (one.nullified a).trans ?_
    split_ifs with isIts
    · cases queue : s.waiting a with
      | nil =>
        refine iff_of_false nofun fun head => ?_
        exact request (Prod.mk.inj (Option.some.inj head)).2
      | cons first rest => rfl
    · rfl

/-! ## Nullifying -/

/-- **The entry that is nullified** leaves the list when its last copy is gone; its request is
dequeued then. -/
theorem processNullifyReq_keeps (one : OneEntry config s)
    (front : (s.waiting req.msg.address).head? = some (req.msg.address, .nullifyReq)) :
    Ensures (fun r => (r.1 = false → OneEntry config r.2) ∧
        (r.1 = true → OneEntry config (r.2.dequeue req.msg.address)) ∧
        ∀ a, r.2.waiting a = s.waiting a) Told (processNullifyReq config req s) := by
  unfold processNullifyReq
  refine (entryOf_keeps one req.msg.address).bind fun ⟨pointer, s₁⟩ ⟨one₁, waiting₁⟩ => ?_
  dsimp only
  split
  · exact ⟨fun _ => one₁.quiet (.of_same rfl rfl), nofun, waiting₁⟩
  · exact ⟨fun _ => one₁.quiet (.of_same rfl rfl), nofun, waiting₁⟩
  · have sent : Quiet s₁ (sendToEach (s₁.entry pointer).getSharersList .invReq req.msg.requester
        req.msg.address s₁) := sendToEach_quiet _ _
    exact ⟨fun _ => one₁.quiet sent, nofun, fun a => (sent.waiting a).trans (waiting₁ a)⟩
  · have listed : req.msg.address ∈ s₁.cache.addresses s₁.cache.replaced := by
      rw [one₁.nullified, waiting₁]
      exact front
    refine ((one₁.unique.invalidate listed).imp (fun _ done => done) fun _ => False.elim).bind
      fun cache ⟨unique, left⟩ => ⟨nofun, fun _ => ?_, waiting₁⟩
    refine oneEntry_dequeue unique one₁.queued one₁.behind (fun still => ?_) fun a ne => ?_
    · exact ((left _).mp still).2 rfl
    · exact (left a).trans ((and_iff_left ne).trans (one₁.nullified a))
  · exact ⟨nofun, nofun⟩

/-- **An entry is replaced**, and its address gets a nullify request. -/
theorem replaceCandidate_keeps (one : OneEntry config s) {replaced : ℕ}
    (none : Unique.NoEntry config.directory req.msg.address s.cache)
    (member : replaced ∈ s.cache.ways (config.directory.setIndex req.msg.address))
    (waits : s.waiting req.msg.address ≠ []) :
    Ensures (fun r => Keeps config req.msg.address s r.2) Told
      (replaceCandidate config req replaced s) := by
  unfold replaceCandidate
  refine ((one.unique.replace none member).imp (fun _ done => done) fun _ => False.elim).bind
    fun ⟨pointer, cache⟩ ⟨unique, listed⟩ => ?_
  dsimp only at unique listed ⊢
  set gone := (s.entry replaced).address with isGone
  set nullify : ShmemReq D := ShmemReq.of ⟨.nullifyReq, req.msg.requester, gone, Option.none⟩
  set s₁ : Cntlr D N := ({ s with cache := cache } : Cntlr D N).enqueue nullify with enqueued
  have waiting₁ (a : ℕ) : s₁.waiting a =
      if a = gone then s.waiting a ++ [(gone, .nullifyReq)] else s.waiting a :=
    waiting_enqueue a
  split_ifs with alone
  · exact ⟨nofun, nofun⟩
  have empty : s.waiting gone = [] := by
    have length : (s₁.waiting gone).length = 1 := (List.length_map _).trans (not_not.mp alone)
    rw [waiting₁, if_pos rfl, List.length_append] at length
    exact List.length_eq_zero_iff.mp (by simpa using length)
  have other : req.msg.address ≠ gone := fun same => waits (same ▸ empty)
  have one₁ : OneEntry config s₁ := by
    refine ⟨unique, fun a k inQueue => ?_, fun a k inTail => ?_, fun a => ?_⟩
    · rw [waiting₁] at inQueue
      split_ifs at inQueue with isIts
      · rw [isIts, empty, List.nil_append] at inQueue
        rw [List.mem_singleton.mp inQueue, isIts]
        exact ⟨rfl, rfl⟩
      · exact one.queued a k inQueue
    · rw [waiting₁] at inTail
      split_ifs at inTail with isIts
      · rw [isIts, empty] at inTail
        cases inTail
      · exact one.behind a k inTail
    · change a ∈ cache.addresses cache.replaced ↔ _
      rw [listed, waiting₁, List.mem_append, List.mem_singleton]
      split_ifs with isIts
      · rw [isIts, empty]
        exact iff_of_true (.inr rfl) rfl
      · exact (or_iff_left isIts).trans (one.nullified a)
  have front : (s₁.waiting nullify.msg.address).head? =
      some (nullify.msg.address, .nullifyReq) := by
    change (s₁.waiting gone).head? = _
    rw [waiting₁, if_pos rfl, empty]
    rfl
  refine (processNullifyReq_keeps one₁ front).bind fun ⟨done, s₂⟩ ⟨stays, leaves, waiting₂⟩ => ?_
  have waiting : s₂.waiting req.msg.address = s.waiting req.msg.address := by
    rw [waiting₂, waiting₁, if_neg other]
  cases done with
  | true =>
    refine ⟨leaves rfl, Eq.trans ?_ waiting⟩
    change (Function.update s₂.queues gone _ req.msg.address).map _ = _
    rw [Function.update_of_ne other]
    rfl
  | false => exact ⟨stays rfl, waiting⟩

theorem entryFor_keeps (one : OneEntry config s) (waits : s.waiting req.msg.address ≠ []) :
    Ensures (fun r => Keeps config req.msg.address s r.2) Told (entryFor config req s) := by
  obtain ⟨one₁, waiting₁, absent⟩ := find_keeps one req.msg.address
  unfold entryFor
  rcases found : find config req.msg.address s with ⟨none | pointer, s₁⟩
  · rw [found] at one₁ waiting₁ absent
    dsimp only at one₁ waiting₁ absent ⊢
    unfold processDirectoryEntryAllocationReq
    dsimp only
    cases chosen : (getReplacementCandidates config.directory req.msg.address s₁.cache).1.foldl
        (candidate { s₁ with cache :=
          (getReplacementCandidates config.directory req.msg.address s₁.cache).2 }) none with
    | none => exact ⟨nofun, nofun⟩
    | some replaced =>
      have candidates := (candidate_mem chosen).resolve_right nofun
      obtain ⟨i, -, at_i⟩ := List.mem_filterMap.mp candidates
      have quiet : Quiet s₁ { s₁ with cache :=
          (getReplacementCandidates config.directory req.msg.address s₁.cache).2 } :=
        ⟨rfl, rfl, rfl, fun _ => rfl, fun _ => rfl⟩
      have none := absent rfl
      refine (replaceCandidate_keeps (one₁.quiet quiet)
        ⟨none.notInSet, none.notInList, none.full⟩ (List.mem_of_getElem? at_i) ?_).mono
        fun r kept => ⟨kept.one, kept.waiting.trans (waiting₁ _)⟩
      exact fun empty => waits ((waiting₁ _).symm.trans empty)
  · rw [found] at one₁ waiting₁
    exact ⟨one₁, waiting₁ _⟩

/-! ## Changes of an entry -/

section Entries

variable {directory : DirectoryConfig} {e : Entry} {core : ℕ}

theorem addSharer_told :
    Ensures (fun r => r.2.address = e.address) Told (e.addSharer directory core) := by
  unfold Entry.addSharer
  split_ifs
  · exact ⟨nofun, nofun⟩
  · exact rfl
  · exact rfl

theorem setOwner_told : Ensures (fun e' => e'.address = e.address) Told (e.setOwner core) := by
  unfold Entry.setOwner
  split_ifs
  · exact rfl
  · exact ⟨nofun, nofun⟩

theorem removeSharer_told :
    Ensures (fun e' => e'.address = e.address) Told (e.removeSharer core) := by
  unfold Entry.removeSharer
  split_ifs
  · exact rfl
  · exact ⟨nofun, nofun⟩

theorem getOneSharer_told (random : ℕ) :
    Ensures (fun _ => True) Told (e.getOneSharer directory random) := by
  unfold Entry.getOneSharer
  dsimp only
  split
  · trivial
  · exact ⟨by rintro ⟨⟩, by rintro ⟨⟩⟩

theorem own_told (dstate : DState) :
    Ensures (fun e' => e'.address = e.address) Told (own config core dstate e) := by
  refine addSharer_told.bind fun ⟨added, e₁⟩ same => ?_
  dsimp only at same ⊢
  split_ifs
  · exact setOwner_told.bind fun e₂ same₂ => Eq.trans same₂ same
  · exact ⟨nofun, nofun⟩

theorem invalidate_told : Ensures (fun e' => e'.address = e.address) Told (invalidate core e) := by
  refine removeSharer_told.bind fun e₁ same => ?_
  dsimp only
  split_ifs <;> exact same

theorem flush_told : Ensures (fun e' => e'.address = e.address) Told (flush core e) := by
  refine removeSharer_told.bind fun e₁ same => ?_
  dsimp only
  split_ifs
  · exact same
  · exact same
  · exact ⟨nofun, nofun⟩

end Entries

/-! ## Requests -/

/-- The data of an entry that the requester owns. -/
theorem own_retrieve_keeps (one : OneEntry config s) (dstate : DState) (reply : MsgType)
    (pointer : ℕ) :
    Ensures (fun r => Keeps config address s r.2) Told (do
      let e ← own config requester dstate (s.entry pointer)
      retrieveDataAndSendToL2Cache config reply requester address cached (s.write pointer e)) := by
  refine (own_told dstate).bind fun e same => ?_
  have written : Quiet s (s.write pointer e) := .write pointer e same
  exact (retrieveDataAndSendToL2Cache_keeps (one.quiet written) reply).mono fun r kept =>
    (Keeps.of_quiet one written).trans kept

/-- What follows `entryFor`. -/
theorem entryFor_bind_keeps {f : ℕ × Cntlr D N → Except Stop (Bool × Cntlr D N)}
    (one : OneEntry config s) (waits : s.waiting req.msg.address ≠ [])
    (rest : ∀ pointer s₁, OneEntry config s₁ →
      Ensures (fun r => Keeps config req.msg.address s₁ r.2) Told (f (pointer, s₁))) :
    Ensures (fun r => Keeps config req.msg.address s r.2) Told (entryFor config req s >>= f) :=
  (entryFor_keeps one waits).bind fun ⟨pointer, s₁⟩ kept =>
    (rest pointer s₁ kept.one).mono fun _ later => kept.trans later

theorem processExReqFromL2Cache_keeps (one : OneEntry config s)
    (waits : s.waiting req.msg.address ≠ []) :
    Ensures (fun r => Keeps config req.msg.address s r.2) Told
      (processExReqFromL2Cache config req cached s) := by
  unfold processExReqFromL2Cache
  refine entryFor_bind_keeps one waits fun pointer s₁ one₁ => ?_
  dsimp only
  split
  · split_ifs
    · exact ⟨nofun, nofun⟩
    · exact .of_quiet one₁ (.of_same rfl rfl)
  · split_ifs
    · exact ⟨nofun, nofun⟩
    · exact .of_quiet one₁ (.of_same rfl rfl)
  · split_ifs
    · exact ⟨nofun, nofun⟩
    · exact .of_quiet one₁ (sendToEach_quiet _ _)
  · exact own_retrieve_keeps one₁ _ _ pointer
  · exact ⟨nofun, nofun⟩

theorem processShReqFromL2Cache_keeps (one : OneEntry config s) (random : ℕ)
    (waits : s.waiting req.msg.address ≠ []) :
    Ensures (fun r => Keeps config req.msg.address s r.2) Told
      (processShReqFromL2Cache config random req cached s) := by
  unfold processShReqFromL2Cache
  refine entryFor_bind_keeps one waits fun pointer s₁ one₁ => ?_
  dsimp only
  split
  · split_ifs
    · exact ⟨nofun, nofun⟩
    · exact ⟨nofun, nofun⟩
    · exact .of_quiet one₁ (.of_same rfl rfl)
  · split_ifs
    · exact ⟨nofun, nofun⟩
    · exact .of_quiet one₁ (.of_same rfl rfl)
  · split_ifs
    · exact retrieveDataAndSendToL2Cache_keeps one₁ _
    · refine addSharer_told.bind fun ⟨added, e⟩ same => ?_
      dsimp only at same ⊢
      split_ifs
      · have written : Quiet s₁ (s₁.write pointer e) := .write pointer e same
        exact (retrieveDataAndSendToL2Cache_keeps (one₁.quiet written) _).mono fun r kept =>
          (Keeps.of_quiet one₁ written).trans kept
      · exact (getOneSharer_told random).bind fun sharer _ => .of_quiet one₁ (.of_same rfl rfl)
  · split_ifs
    · exact own_retrieve_keeps one₁ _ _ pointer
    · exact own_retrieve_keeps one₁ _ _ pointer
  · exact ⟨nofun, nofun⟩

theorem processUpgradeReqFromL2Cache_keeps (one : OneEntry config s)
    (waits : s.waiting req.msg.address ≠ []) :
    Ensures (fun r => Keeps config req.msg.address s r.2) Told
      (processUpgradeReqFromL2Cache config req cached s) := by
  unfold processUpgradeReqFromL2Cache
  refine entryFor_bind_keeps one waits fun pointer s₁ one₁ => ?_
  have sends {msgType : MsgType} {receiver : Option ℕ} : Quiet s₁
      (s₁.sendToCache receiver msgType req.msg.requester req.msg.address Option.none) :=
    .of_same rfl rfl
  dsimp only
  split
  · split
    · exact ⟨nofun, nofun⟩
    · split_ifs
      · exact ⟨nofun, nofun⟩
      · exact .of_quiet one₁ (sends.trans (.write pointer _ rfl))
      · exact .of_quiet one₁ sends
  · split
    · exact ⟨nofun, nofun⟩
    · split_ifs
      · exact ⟨nofun, nofun⟩
      · exact .of_quiet one₁ (sends.trans (.write pointer _ rfl))
      · exact .of_quiet one₁ sends
  · split_ifs
    · refine setOwner_told.bind fun e same => .of_quiet one₁ ?_
      have written : Quiet s₁ (s₁.write pointer { e with dstate := .modified }) :=
        .write pointer _ same
      exact written.trans (.of_same rfl rfl)
    · exact .of_quiet one₁ (sendForUpgrade_quiet _ _)
  · split_ifs
    · exact ⟨nofun, nofun⟩
    · exact own_retrieve_keeps one₁ _ _ pointer
  · exact ⟨nofun, nofun⟩

/-- No nullify request is processed here. -/
theorem processReq_keeps (one : OneEntry config s) (random : ℕ)
    (waits : s.waiting req.msg.address ≠ []) :
    Ensures (fun r => Keeps config req.msg.address s r.2 ∧ req.msg.msgType ≠ .nullifyReq) Told
      (processReq config random req s) := by
  unfold processReq
  split
  next isEx =>
    exact (processExReqFromL2Cache_keeps one waits).mono fun r kept =>
      ⟨kept, by rw [isEx]; exact nofun⟩
  next isSh =>
    exact (processShReqFromL2Cache_keeps one random waits).mono fun r kept =>
      ⟨kept, by rw [isSh]; exact nofun⟩
  next isUpgrade =>
    exact (processUpgradeReqFromL2Cache_keeps one waits).mono fun r kept =>
      ⟨kept, by rw [isUpgrade]; exact nofun⟩
  · exact ⟨nofun, nofun⟩

/-- The front request of the address is done and may be dequeued, or it waits. -/
structure Settles (config : Config D N) (address : ℕ) (r : Bool × Cntlr D N) : Prop where
  waits : r.1 = false → OneEntry config r.2
  leaves : r.1 = true → OneEntry config (r.2.dequeue address)

theorem Settles.of_waits (one : OneEntry config s) : Settles config address (false, s) :=
  ⟨fun _ => one, nofun⟩

theorem Keeps.settles {r : Bool × Cntlr D N} (kept : Keeps config address s r.2)
    (request : (s.waiting address).head? ≠ some (address, .nullifyReq)) :
    Settles config address r :=
  ⟨fun _ => kept.one, fun _ => kept.one.dequeue (by rwa [kept.waiting])⟩

theorem waiting_cons {rest : List (ShmemReq D)} (queue : s.queues address = req :: rest) :
    s.waiting address = (req.msg.address, req.msg.msgType) ::
      rest.map fun req => (req.msg.address, req.msg.msgType) := by
  rw [Cntlr.waiting, queue, List.map_cons]

/-- **`processNextReqFromL2Cache`**, by induction on its rounds. -/
theorem processNextReqFromL2Cache_keeps (random rounds : ℕ)
    (leaves : OneEntry config (s.dequeue address)) :
    Ensures (OneEntry config) Told (processNextReqFromL2Cache config random address rounds s) := by
  induction rounds generalizing s with
  | zero => exact ⟨nofun, nofun⟩
  | succ rounds ih =>
    unfold processNextReqFromL2Cache
    split
    · exact ⟨nofun, nofun⟩
    next first rest queue =>
      dsimp only
      split
      · exact leaves
      next next others =>
        have queue' : (s.dequeue address).queues address = next :: others := by
          change Function.update s.queues address (s.queues address).tail address = _
          rw [Function.update_self, queue, List.tail_cons]
        have waiting := waiting_cons queue'
        have isIts : next.msg.address = address :=
          (leaves.queued address (next.msg.address, next.msg.msgType)
            (waiting ▸ List.mem_cons_self)).1
        refine (processReq_keeps leaves random ?_).bind fun ⟨done, s₁⟩ ⟨kept, request⟩ => ?_
        · rw [isIts, waiting]
          exact List.cons_ne_nil _ _
        · rw [isIts] at kept
          have settled : Settles config address (done, s₁) := kept.settles fun head => by
            rw [waiting, List.head?_cons] at head
            exact request (Prod.mk.inj (Option.some.inj head)).2
          cases done with
          | true => exact ih (settled.leaves rfl)
          | false => exact settled.waits rfl

theorem next_keeps {r : Bool × Cntlr D N} (random : ℕ) (settled : Settles config address r) :
    Ensures (OneEntry config) Told (next config random address r) := by
  unfold next
  split_ifs with done
  · exact processNextReqFromL2Cache_keeps random _ (settled.leaves done)
  · exact settled.waits (Bool.eq_false_iff.mpr done)

/-! ## Replies -/

/-- The front request of the queue that a reply is for. -/
theorem OneEntry.front (one : OneEntry config s) {rest : List (ShmemReq D)}
    (queue : s.queues address = req :: rest) : req.msg.address = address ∧
      isRequest req.msg.msgType = true ∧ s.waiting req.msg.address ≠ [] ∧
      (s.waiting req.msg.address).head? = some (req.msg.address, req.msg.msgType) := by
  have waiting := waiting_cons queue
  obtain ⟨isIts, isReq⟩ := one.queued address (req.msg.address, req.msg.msgType)
    (waiting ▸ List.mem_cons_self)
  dsimp only at isIts isReq
  refine ⟨isIts, isReq, ?_, ?_⟩
  · rw [isIts, waiting]
    exact List.cons_ne_nil _ _
  · rw [isIts, waiting, List.head?_cons, isIts]

theorem not_nullify {k : Option (ℕ × MsgType)} (head : k = some (address, req.msg.msgType))
    (other : req.msg.msgType ≠ .nullifyReq) : k ≠ some (address, .nullifyReq) := by
  rw [head]
  exact fun same => other (Prod.mk.inj (Option.some.inj same)).2

theorem processDRAMReply_keeps (one : OneEntry config s) (msg : ShmemMsg D) :
    Ensures (Settles config msg.address) Told (processDRAMReply config msg s) := by
  unfold processDRAMReply
  dsimp only
  split
  · exact ⟨nofun, nofun⟩
  next req rest queue =>
    obtain ⟨isIts, -, -, head⟩ := one.front queue
    rw [isIts] at head
    refine (entryOf_keeps one msg.address).bind fun ⟨pointer, s₁⟩ ⟨one₁, waiting₁⟩ => ?_
    have request : Ensures (fun _ => req.msg.msgType ≠ .nullifyReq) Told
        (replyType req.msg.msgType (s₁.entry pointer).dstate) := by
      unfold replyType
      split
      next isSh =>
        split_ifs
        · exact isSh ▸ nofun
        · exact isSh ▸ nofun
        · exact ⟨nofun, nofun⟩
      next isEx =>
        split_ifs
        · exact isEx ▸ nofun
        · exact ⟨nofun, nofun⟩
      next isUpgrade => exact isUpgrade ▸ nofun
      · exact ⟨nofun, nofun⟩
    refine request.bind fun reply other => ?_
    dsimp only
    split
    · exact ⟨nofun, nofun⟩
    next data _ =>
      have found : Keeps config msg.address s s₁ := ⟨one₁, waiting₁ _⟩
      have sent : Quiet s₁ (s₁.sendToCache (some req.msg.requester) reply req.msg.requester
        msg.address (some data)) := .of_same rfl rfl
      exact (found.quiet (sent.trans (sendDataToNUCA_quiet data))).settles (not_nullify head other)

theorem processInvRepFromL2Cache_keeps (one : OneEntry config s) (sender random : ℕ)
    (msg : ShmemMsg D) :
    Ensures (Settles config msg.address) Told
      (processInvRepFromL2Cache config sender random msg s) := by
  unfold processInvRepFromL2Cache
  refine (entryOf_keeps one msg.address).bind fun ⟨pointer, s₁⟩ ⟨one₁, _⟩ => ?_
  dsimp only
  split_ifs
  · exact ⟨nofun, nofun⟩
  refine invalidate_told.bind fun e same => ?_
  have one₂ : OneEntry config (s₁.write pointer e) := one₁.quiet (.write pointer e same)
  split
  · exact .of_waits one₂
  next req rest queue =>
    obtain ⟨isIts, isReq, waits, head⟩ := one₂.front queue
    rw [← isIts]
    split
    next isEx =>
      split_ifs
      · exact (processExReqFromL2Cache_keeps one₂ waits).mono fun _ kept =>
          kept.settles (not_nullify head (isEx ▸ nofun))
      · exact .of_waits one₂
    next isUpgrade =>
      have again : Quiet (s₁.write pointer e)
          ((s₁.write pointer e).write pointer { e with dstate := .uncached }) :=
        .write pointer _ (congrArg Entry.address (entry_write e)).symm
      split_ifs
      · exact (processUpgradeReqFromL2Cache_keeps one₂ waits).mono fun _ kept =>
          kept.settles (not_nullify head (isUpgrade ▸ nofun))
      · exact .of_waits one₂
      · refine (processUpgradeReqFromL2Cache_keeps (one₂.quiet again) waits).mono fun _ kept =>
          kept.settles (not_nullify head (isUpgrade ▸ nofun))
      · exact .of_waits one₂
    next isSh =>
      split_ifs
      · exact .of_waits one₂
      · exact .of_waits one₂
      · exact (processShReqFromL2Cache_keeps one₂ random waits).mono fun _ kept =>
          kept.settles (not_nullify head (isSh ▸ nofun))
    next notEx notUpgrade notSh =>
      rw [isNullify_of isReq notEx notSh notUpgrade] at head
      split_ifs
      · exact (processNullifyReq_keeps one₂ head).mono fun r done => ⟨done.1, done.2.1⟩
      · exact .of_waits one₂

theorem processFlushRepFromL2Cache_keeps (one : OneEntry config s) (sender random : ℕ)
    (msg : ShmemMsg D) :
    Ensures (Settles config msg.address) Told
      (processFlushRepFromL2Cache config sender random msg s) := by
  unfold processFlushRepFromL2Cache
  refine (entryOf_keeps one msg.address).bind fun ⟨pointer, s₁⟩ ⟨one₁, _⟩ => ?_
  dsimp only
  refine flush_told.bind fun e same => ?_
  have one₂ : OneEntry config (s₁.write pointer e) := one₁.quiet (.write pointer e same)
  split
  · exact (sendDataToDram_quiet _).bind fun s₃ quiet => .of_waits (one₂.quiet quiet)
  next req rest queue =>
    obtain ⟨isIts, isReq, waits, head⟩ := one₂.front queue
    rw [← isIts]
    rw [← isIts] at queue
    split
    next isEx =>
      exact (processExReqFromL2Cache_keeps one₂ waits).mono fun _ kept =>
        kept.settles (not_nullify head (isEx ▸ nofun))
    next isSh =>
      refine (sendDataToDram_quiet _).bind fun s₃ quiet => ?_
      refine (processShReqFromL2Cache_keeps (one₂.quiet quiet) random ?_).mono fun _ kept =>
        kept.settles ?_
      · rwa [quiet.waiting]
      · rw [quiet.waiting]
        exact not_nullify head (isSh ▸ nofun)
    next isUpgrade =>
      split_ifs
      · exact (processUpgradeReqFromL2Cache_keeps one₂ waits).mono fun _ kept =>
          kept.settles (not_nullify head (isUpgrade ▸ nofun))
      · exact .of_waits (one₂.quiet (.setFront _ queue rfl rfl))
    next notEx notSh notUpgrade =>
      rw [isNullify_of isReq notEx notSh notUpgrade] at head
      refine (sendDataToDram_quiet _).bind fun s₃ quiet => ?_
      refine (processNullifyReq_keeps (one₂.quiet quiet) ?_).mono fun r done =>
        ⟨done.1, done.2.1⟩
      rw [quiet.waiting]
      exact head

theorem processWbRepFromL2Cache_keeps (one : OneEntry config s) (sender random : ℕ)
    (msg : ShmemMsg D) :
    Ensures (Settles config msg.address) Told
      (processWbRepFromL2Cache config sender random msg s) := by
  unfold processWbRepFromL2Cache
  refine (entryOf_keeps one msg.address).bind fun ⟨pointer, s₁⟩ ⟨one₁, _⟩ => ?_
  have one₂ : OneEntry config
      (s₁.write pointer { s₁.entry pointer with owner := none, dstate := .shared }) :=
    one₁.quiet (.write pointer _ rfl)
  dsimp only
  split_ifs
  · split
    · exact ⟨nofun, nofun⟩
    next req rest queue =>
      obtain ⟨isIts, -, waits, head⟩ := one₂.front queue
      rw [← isIts]
      split_ifs with isSh
      · exact ⟨nofun, nofun⟩
      · exact (processShReqFromL2Cache_keeps one₂ random waits).mono fun _ kept =>
          kept.settles (not_nullify head (not_not.mp isSh ▸ nofun))
  · exact ⟨nofun, nofun⟩

/-! ## Runs -/

theorem handleReq_keeps (one : OneEntry config s) (random : ℕ) {msg : ShmemMsg D}
    (isReq : isRequest msg.msgType = true) (request : msg.msgType ≠ .nullifyReq) :
    Ensures (Settles config msg.address) Told (handleReq config random msg s) := by
  unfold handleReq
  split_ifs
  · exact ⟨nofun, nofun⟩
  · have queued : OneEntry config (s.enqueue (ShmemReq.of msg)) := one.enqueue isReq request
    have waiting : (s.enqueue (ShmemReq.of msg)).waiting msg.address =
        s.waiting msg.address ++ [(msg.address, msg.msgType)] :=
      (waiting_enqueue _).trans (if_pos rfl)
    dsimp only
    split_ifs with alone
    · have empty : s.waiting msg.address = [] := by
        have length : ((s.enqueue (ShmemReq.of msg)).waiting msg.address).length = 1 :=
          (List.length_map _).trans alone
        rw [waiting, List.length_append] at length
        exact List.length_eq_zero_iff.mp (by simpa using length)
      rw [empty, List.nil_append] at waiting
      have waits : (s.enqueue (ShmemReq.of msg)).waiting (ShmemReq.of msg).msg.address ≠ [] := by
        change (s.enqueue (ShmemReq.of msg)).waiting msg.address ≠ []
        rw [waiting]
        exact List.cons_ne_nil _ _
      refine (processReq_keeps queued random waits).mono fun r kept => kept.1.settles ?_
      change ((s.enqueue (ShmemReq.of msg)).waiting msg.address).head? ≠ _
      rw [waiting, List.head?_cons]
      exact fun same => request (Prod.mk.inj (Option.some.inj same)).2
    · exact .of_waits queued

theorem processMsg_keeps (one : OneEntry config s) (sender random : ℕ) (msg : ShmemMsg D) :
    Ensures (Settles config msg.address) Told (processMsg config sender random msg s) := by
  unfold processMsg
  split
  next isEx => exact handleReq_keeps one random (by rw [isEx]; rfl) (isEx ▸ nofun)
  next isSh => exact handleReq_keeps one random (by rw [isSh]; rfl) (isSh ▸ nofun)
  next isUpgrade => exact handleReq_keeps one random (by rw [isUpgrade]; rfl) (isUpgrade ▸ nofun)
  · exact processInvRepFromL2Cache_keeps one sender random msg
  · exact processFlushRepFromL2Cache_keeps one sender random msg
  · exact processWbRepFromL2Cache_keeps one sender random msg
  · exact ⟨nofun, nofun⟩

/-- **One message** keeps the invariant. -/
theorem step_keeps (one : OneEntry config s) (e : Event D) :
    Ensures (OneEntry config) Told (step config e s) := by
  cases e with
  | fromL2Cache sender random msg =>
    exact (processMsg_keeps (find_keeps one msg.address).1 sender random msg).bind
      fun r settled => next_keeps random settled
  | fromDRAM random msg =>
    change Ensures _ _ (handleMsgFromDRAM config random msg s)
    unfold handleMsgFromDRAM
    split_ifs
    · exact (processDRAMReply_keeps one msg).bind fun r settled => next_keeps random settled
    · exact ⟨nofun, nofun⟩

theorem OneEntry.start (replacementPtrs : ℕ → ℕ) (nuca : N) :
    OneEntry config (Cntlr.start replacementPtrs nuca : Cntlr D N) where
  unique := ⟨⟨nofun, nofun⟩, fun _ => List.nodup_nil, List.nodup_nil, nofun, nofun⟩
  queued := nofun
  behind := nofun
  nullified _ := iff_of_false List.not_mem_nil nofun

/-- What is said of the entries of an address: it has at most one, in its set or in the list; that
one is looked up; and the list has it where a nullify request is in front of its queue. -/
structure EntriesUnique (config : Config D N) (s : Cntlr D N) : Prop where
  atMostOne : ∀ a, (s.cache.entriesOf config.directory a).length ≤ 1
  found : ∀ a, ∀ pointer ∈ s.cache.entriesOf config.directory a,
    getDirectoryEntry config.directory a s.cache = (some pointer, s.cache)
  nullified : ∀ a, (∃ pointer ∈ s.cache.replaced, (s.cache.heap pointer).address = a) ↔
    ∃ req rest, s.queues a = req :: rest ∧ req.msg.msgType = .nullifyReq

theorem OneEntry.entriesUnique (one : OneEntry config s) : EntriesUnique config s where
  atMostOne := one.unique.entriesOf_length
  found _ _ entry := one.unique.get_entry entry
  nullified a := by
    refine (List.mem_map.symm.trans (one.nullified a)).trans ⟨fun head => ?_, ?_⟩
    · cases queue : s.queues a with
      | nil =>
        rw [Cntlr.waiting, queue] at head
        cases head
      | cons req rest =>
        rw [waiting_cons queue, List.head?_cons] at head
        exact ⟨req, rest, rfl, (Prod.mk.inj (Option.some.inj head)).2⟩
    · rintro ⟨req, rest, queue, isNull⟩
      have isIts := (one.front queue).1
      rw [waiting_cons queue, List.head?_cons, isIts, isNull]

/-- **Runs.** After every sequence of messages the entries are unique, and no search for an entry
that is replaced or invalidated has failed. -/
theorem run_oneEntry (config : Config D N) (replacementPtrs : ℕ → ℕ) (nuca : N)
    (es : List (Event D)) :
    Ensures (EntriesUnique config) (fun stop => Told stop ∧ InTime stop)
      (runEvents (step config) es (Cntlr.start replacementPtrs nuca)) := by
  have kept : Ensures (OneEntry config) Told
      (runEvents (step config) es (Cntlr.start replacementPtrs nuca)) :=
    ensures_runEvents (fun e s one => step_keeps one e) (OneEntry.start _ _)
  have served : Ensures (Serving (requestsOf es)) InTime
      (runEvents (step config) es (Cntlr.start replacementPtrs nuca)) :=
    runEvents_serves (Serving.start _ _) es
  cases ran : runEvents (step config) es (Cntlr.start replacementPtrs nuca) with
  | error stop =>
    rw [ran] at kept served
    exact ⟨kept, served⟩
  | ok s =>
    rw [ran] at kept
    exact OneEntry.entriesUnique kept

end GpuHotSpot.Common.DramDirectory
