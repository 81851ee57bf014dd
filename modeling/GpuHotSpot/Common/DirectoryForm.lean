import GpuHotSpot.Common.DramDirectoryCntlr

/-!
# Well-formed directory entries

* `WellFormed`: the shape of the sets, and the form of each entry if its forwarder was found invalid.
* `own_spec`, `addSharer_spec`, `invalidated_form`, `flushed_form`: what the handlers do to an entry.
* `step_wellFormed`: each message keeps them.
* `run_entriesFormed`: in each run in which new entries find no core where the forwarder is, each entry
  is well formed.
-/

namespace GpuHotSpot.Common.DramDirectory

open Fallible

variable {D N : Type} {config : Config D N} {s : Cntlr D N} {pointer address requester : ℕ}
  {req : ShmemReq D} {cached : Option D}

/-! ## Entries -/

section Entries

variable {directory : DirectoryConfig} {e e' : Entry}

/-- The forwarder moves to a sharer. -/
theorem Entry.Form.forward (form : e.Form directory) (member : requester ∈ e.sharers) :
    Entry.Form directory { e with forwarder := some requester } where
  uncached := form.uncached
  owner := form.owner
  forwarder core forwards := by
    cases forwards
    exact member
  limited := form.limited

/-- **`addSharer`** makes the requester a sharer within the limit. -/
theorem addSharer_spec (added : e.addSharer directory requester = .ok (true, e')) :
    e' = { e with sharers := insert requester e.sharers } ∧ requester ∉ e.sharers ∧
      (directory.directoryType = .limitedNoBroadcast → e'.getNumSharers ≤ directory.maxHwSharers) := by
  unfold Entry.addSharer at added
  split_ifs at added with member full
  · cases added
  · cases added
    refine ⟨rfl, member, fun limited => ?_⟩
    have room : ¬ directory.maxHwSharers ≤ e.sharers.card := by
      have capacity : directory.getMaxHwSharers = directory.maxHwSharers := by
        simp only [DirectoryConfig.getMaxHwSharers, limited]
      intro atLimit
      refine full ⟨by simp [limited], ?_⟩
      rw [capacity]
      exact atLimit
    change (insert requester e.sharers).card ≤ directory.maxHwSharers
    rw [Finset.card_insert_of_notMem member]
    omega

/-- A further sharer. -/
theorem Entry.Form.share (form : e.Form directory) (shared : e.dstate = .shared)
    (added : e.addSharer directory requester = .ok (true, e')) :
    e'.Form directory := by
  obtain ⟨rfl, -, limited⟩ := addSharer_spec added
  refine ⟨⟨fun state => ?_, fun empty => ?_⟩, fun state => ?_, fun core forwards => ?_, limited⟩
  · rw [shared] at state
    cases state
  · exact absurd empty (Finset.insert_ne_empty _ _)
  · rw [shared] at state
    rcases state with state | state <;> cases state
  · exact Finset.mem_insert_of_mem (form.forwarder core forwards)

/-- What `own` does. -/
theorem own_spec {dstate : DState} (owned : own config requester dstate e = .ok e') :
    e' = { e with
        sharers := insert requester e.sharers, owner := some requester, dstate := dstate } ∧
      (config.directory.directoryType = .limitedNoBroadcast →
        e'.getNumSharers ≤ config.directory.maxHwSharers) := by
  unfold DramDirectory.own at owned
  obtain ⟨⟨added, e₁⟩, ranAdd, owned⟩ := bind_ok.1 owned
  cases added with
  | false => cases owned
  | true =>
    obtain ⟨rfl, -, limited⟩ := addSharer_spec ranAdd
    obtain ⟨e₂, ranOwner, owned⟩ := bind_ok.1 owned
    unfold Entry.setOwner at ranOwner
    split_ifs at ranOwner with member
    cases ranOwner
    cases owned
    exact ⟨rfl, limited⟩

/-- **The first sharer** is the owner. -/
theorem Entry.Form.own {dstate : DState} (form : e.Form config.directory)
    (uncached : e.dstate = .uncached) (cachedState : dstate ≠ .uncached)
    (owned : own config requester dstate e = .ok e') : e'.Form config.directory := by
  have empty := form.uncached.1 uncached
  obtain ⟨rfl, limited⟩ := own_spec owned
  refine ⟨⟨fun state => absurd state cachedState, fun none => ?_⟩, fun _ => ?_,
    fun core forwards => ?_, limited⟩
  · exact absurd none (Finset.insert_ne_empty _ _)
  · refine ⟨requester, rfl, ?_⟩
    change insert requester e.sharers = {requester}
    rw [empty]
    rfl
  · have before := form.forwarder core forwards
    rw [empty] at before
    cases before

/-- The state after a sharer has left. -/
theorem dstate_of_left {sharers : Finset ℕ} {dstate : DState} (before : dstate ≠ .uncached) :
    (if sharers.card = 0 then DState.uncached else dstate) = .uncached ↔ sharers = ∅ := by
  by_cases none : sharers.card = 0
  · simp [Finset.card_eq_zero.1 none]
  · rw [if_neg none]
    exact ⟨fun state => absurd state before, fun empty => absurd (Finset.card_eq_zero.2 empty) none⟩

/-- What `invalidate` does. -/
theorem invalidate_ok {sender : ℕ} (invalidated : invalidate sender e = .ok e') :
    sender ∈ e.sharers ∧ e'.sharers = e.sharers.erase sender ∧ e'.address = e.address ∧
      e'.owner = e.owner ∧
      e'.forwarder = (if e.forwarder = some sender then none else e.forwarder) ∧
      e'.dstate = (if (e.sharers.erase sender).card = 0 then .uncached else e.dstate) := by
  unfold invalidate Entry.removeSharer at invalidated
  split_ifs at invalidated with member
  · rw [ok_bind] at invalidated
    cases invalidated
    refine ⟨member, ?_⟩
    simp only [Entry.getNumSharers]
    split_ifs <;> exact ⟨rfl, rfl, rfl, rfl, rfl⟩
  · cases invalidated

/-- An invalidation: the sender is no sharer any more. -/
theorem Entry.Form.invalidate {sender : ℕ} (form : e.Form directory)
    (shared : e.dstate = .shared ∨ e.dstate = .exclusive)
    (invalidated : DramDirectory.invalidate sender e = .ok e') : e'.Form directory := by
  obtain ⟨member, sharers, -, owner, forwarder, dstate⟩ := invalidate_ok invalidated
  have cachedState : e.dstate ≠ .uncached := by
    rcases shared with state | state <;> rw [state] <;> nofun
  refine ⟨?_, fun state => ?_, fun core forwards => ?_, fun limited => ?_⟩
  · rw [dstate, sharers]
    exact dstate_of_left cachedState
  · rw [dstate] at state
    split_ifs at state with none
    · rcases state with state | state <;> cases state
    · -- The only sharer has left.
      obtain ⟨core, -, only⟩ := form.owner state
      rw [only] at member none
      rw [Finset.mem_singleton.1 member] at none
      exact absurd (by simp) none
  · rw [forwarder] at forwards
    split_ifs at forwards with isSender
    rw [sharers]
    refine Finset.mem_erase.2 ⟨fun same => ?_, form.forwarder core forwards⟩
    exact isSender (same ▸ forwards)
  · rw [Entry.getNumSharers, sharers]
    exact (Finset.card_erase_le).trans (form.limited limited)

/-- What `flush` does. -/
theorem flush_ok {sender : ℕ} (flushed : flush sender e = .ok e') :
    sender ∈ e.sharers ∧ e'.sharers = e.sharers.erase sender ∧ e'.address = e.address ∧
      e'.forwarder = none ∧
      e'.dstate = (if (e.sharers.erase sender).card = 0 then .uncached else .shared) := by
  unfold flush Entry.removeSharer at flushed
  split_ifs at flushed with member
  · rw [ok_bind] at flushed
    simp only [Entry.getNumSharers] at flushed
    split_ifs at flushed with none shared
    · cases flushed
      exact ⟨member, rfl, rfl, rfl, (if_pos none).symm⟩
    · cases flushed
      exact ⟨member, rfl, rfl, rfl, shared.trans (if_neg none).symm⟩
  · cases flushed

/-- A flush: the sender is no sharer any more, and there is no forwarder. -/
theorem Entry.Form.flush {sender : ℕ} (form : e.Form directory)
    (flushed : DramDirectory.flush sender e = .ok e') : e'.Form directory := by
  obtain ⟨-, sharers, -, forwarder, dstate⟩ := flush_ok flushed
  refine ⟨?_, fun state => ?_, fun core forwards => ?_, fun limited => ?_⟩
  · rw [dstate, sharers]
    exact dstate_of_left nofun
  · rw [dstate] at state
    split_ifs at state with none
    · rcases state with state | state <;> cases state
    · rcases state with state | state <;> cases state
  · rw [forwarder] at forwards
    cases forwards
  · rw [Entry.getNumSharers, sharers]
    exact (Finset.card_erase_le).trans (form.limited limited)

/-- A write-back: the owner becomes a sharer among others. -/
theorem Entry.Form.writeBack {sender : ℕ} (form : e.Form directory) (member : sender ∈ e.sharers) :
    Entry.Form directory { e with owner := none, dstate := .shared } where
  uncached := by
    refine ⟨nofun, fun empty => ?_⟩
    rw [show e.sharers = ∅ from empty] at member
    cases member
  owner state := by rcases state with state | state <;> cases state
  forwarder := form.forwarder
  limited := form.limited

/-- An upgrade in place. -/
theorem Entry.Form.upgrade (form : e.Form directory) (only : e.sharers = {requester})
    (owner : e.owner = some requester) :
    Entry.Form directory { e with dstate := .modified } where
  uncached := by
    refine ⟨nofun, fun empty => ?_⟩
    rw [show e.sharers = ∅ from empty] at only
    exact absurd only.symm (Finset.singleton_ne_empty _)
  owner _ := ⟨requester, owner, only⟩
  forwarder := form.forwarder
  limited := form.limited

end Entries

/-! ## The controller -/

/-- The shape of the sets and the form of the entries. -/
structure WellFormed (config : Config D N) (s : Cntlr D N) : Prop where
  shape : Shape config.directory s.cache
  formed : Formed config.directory s.cache

/-- Nothing but the directory cache matters. -/
theorem WellFormed.congr {s' : Cntlr D N} (well : WellFormed config s) (same : s'.cache = s.cache) :
    WellFormed config s' := ⟨same ▸ well.shape, same ▸ well.formed⟩

/-- The entry of an address. -/
def HasEntry (config : Config D N) (pointer address : ℕ) (s : Cntlr D N) : Prop :=
  Located config.directory pointer address s.cache

/-- Whether the entries that were created found no core where the forwarder is. -/
def Fresh (config : Config D N) (s : Cntlr D N) : Prop :=
  ∀ n < s.cache.created, config.directory.fresh n = none

theorem WellFormed.form (well : WellFormed config s) (has : HasEntry config pointer address s)
    (fresh : Fresh config s) : (s.entry pointer).Form config.directory :=
  well.formed fresh pointer (has.created well.shape)

/-- **A change of the entry of an address.** -/
theorem WellFormed.write {e : Entry} (well : WellFormed config s)
    (has : HasEntry config pointer address s) (keeps : e.address = (s.entry pointer).address)
    (form : Fresh config s → (s.entry pointer).Form config.directory → e.Form config.directory) :
    WellFormed config (s.write pointer e) ∧ HasEntry config pointer address (s.write pointer e) := by
  refine ⟨⟨well.shape.write keeps, well.formed.write (fun fresh => ?_) pointer⟩,
    Located.write has keeps⟩
  exact form fresh (well.form has fresh)

theorem entry_write (e : Entry) : (s.write pointer e).entry pointer = e := Function.update_self ..

theorem find_spec (well : WellFormed config s) (address : ℕ) :
    WellFormed config (find config address s).2 ∧
      (∀ pointer, (find config address s).1 = some pointer →
        HasEntry config pointer address (find config address s).2) ∧
      ((find config address s).1 = none → (find config address s).2.cache = s.cache ∧
        ∀ p ∈ s.cache.ways (config.directory.setIndex address),
          (s.cache.heap p).address ≠ address) := by
  obtain ⟨shape, formed, located, absent⟩ :=
    getDirectoryEntry_spec well.shape well.formed address
  exact ⟨⟨shape, formed⟩, located, absent⟩

theorem HasEntry.get (has : HasEntry config pointer address s) :
    entryOf config address s = .ok (pointer, s) := by
  unfold entryOf find
  rw [Located.get has]

/-- Each way keeps its entry. -/
def KeepsWays (config : Config D N) (s s' : Cntlr D N) : Prop :=
  ∀ pointer address, InWay config.directory pointer address s.cache →
    InWay config.directory pointer address s'.cache

theorem entryOf_spec (well : WellFormed config s) (address : ℕ) :
    Ensures (fun r => WellFormed config r.2 ∧ HasEntry config r.1 address r.2 ∧
      KeepsWays config s r.2) (fun _ => True) (entryOf config address s) := by
  obtain ⟨well', has, -⟩ := find_spec well address
  have ways : KeepsWays config s (find config address s).2 := fun _ _ inWay =>
    inWay.get well.shape
  unfold entryOf
  rcases found : find config address s with ⟨none | pointer, s'⟩
  · trivial
  · rw [found] at well' has ways
    exact ⟨well', has pointer rfl, ways⟩

variable (requester address s) in
theorem sendToEach_cache (cores : List ℕ) (msgType : MsgType) :
    (sendToEach cores msgType requester address s).cache = s.cache := by
  unfold sendToEach
  induction cores generalizing s with
  | nil => rfl
  | cons core cores ih =>
    rw [List.foldl_cons, ih]
    rfl

theorem sendDataToNUCA_cache (data : D) : (sendDataToNUCA config address data s).cache = s.cache := by
  unfold sendDataToNUCA
  split
  · rfl
  · dsimp only
    split <;> rfl

variable (config address requester s) in
theorem sendDataToDram_cache (data : Option D) :
    Ensures (fun s' => s'.cache = s.cache) (fun _ => True)
      (sendDataToDram config address requester data s) := by
  unfold sendDataToDram
  cases data with
  | none => trivial
  | some data =>
    cases nuca : config.nuca with
    | none => exact rfl
    | some cache => exact sendDataToNUCA_cache data

variable (config address s) in
theorem readNuca_cache : (readNuca config address s).2.cache = s.cache := by
  unfold readNuca
  cases config.nuca <;> rfl

/-- **The data** are sent to a sharer, which may become the forwarder. -/
theorem retrieveDataAndSendToL2Cache_spec (well : WellFormed config s)
    (has : HasEntry config pointer address s) (member : requester ∈ (s.entry pointer).sharers)
    (reply : MsgType) :
    Ensures (fun r => WellFormed config r.2) (fun _ => True)
      (retrieveDataAndSendToL2Cache config reply requester address cached s) := by
  unfold retrieveDataAndSendToL2Cache
  rw [has.get, ok_bind]
  cases cached with
  | some data =>
    have forwarded := well.write (e := { s.entry pointer with forwarder := some requester }) has rfl
      fun _ form => form.forward member
    exact forwarded.1.congr rfl
  | none =>
    have same := readNuca_cache config s address
    dsimp only
    rcases read : readNuca config address s with ⟨none | data, s'⟩ <;> rw [read] at same
    · have well' : WellFormed config s' := well.congr same
      dsimp only
      cases s'.queues address with
      | nil => trivial
      | cons req rest =>
        dsimp only
        split_ifs
        · exact well'.congr rfl
        · exact well'.congr rfl
    · exact well.congr same

theorem processNullifyReq_spec (well : WellFormed config s) (req : ShmemReq D) :
    Ensures (fun r => WellFormed config r.2 ∧ KeepsWays config s r.2) (fun _ => True)
      (processNullifyReq config req s) := by
  unfold processNullifyReq
  refine (entryOf_spec well req.msg.address).bind fun r spec => ?_
  obtain ⟨pointer, s'⟩ := r
  obtain ⟨well', -, ways⟩ := spec
  dsimp only
  split
  · exact ⟨well'.congr rfl, ways⟩
  · exact ⟨well'.congr rfl, ways⟩
  · have same := sendToEach_cache s' req.msg.address req.msg.requester
      (s'.entry pointer).getSharersList .invReq
    refine ⟨well'.congr same, fun p a inWay => ?_⟩
    change InWay config.directory p a (sendToEach _ _ _ _ s').cache
    rw [same]
    exact ways p a inWay
  · refine (invalidateDirectoryEntry_spec well'.shape well'.formed req.msg.address).bind
      fun cache spec => ⟨⟨spec.1, spec.2.1⟩, fun p a inWay => ?_⟩
    have before := ways p a inWay
    unfold InWay DirectoryCache.isOf at before ⊢
    rw [spec.2.2.1, spec.2.2.2]
    exact before
  · trivial

/-- The candidate that is chosen is one of them. -/
theorem candidate_mem {candidates : List ℕ} {best : Option ℕ} {chosen : ℕ}
    (found : candidates.foldl (candidate s) best = some chosen) :
    chosen ∈ candidates ∨ best = some chosen := by
  induction candidates generalizing best with
  | nil => exact .inr found
  | cons it candidates ih =>
    rcases ih found with member | first
    · exact .inl (List.mem_cons_of_mem it member)
    · unfold candidate at first
      split_ifs at first
      · cases first
        exact .inl List.mem_cons_self
      · exact .inr first

/-- **A replaced entry** leaves its way to the address. -/
theorem replaceCandidate_spec (well : WellFormed config s) (req : ShmemReq D) {replaced : ℕ}
    (absent : ∀ p ∈ s.cache.ways (config.directory.setIndex req.msg.address),
      (s.cache.heap p).address ≠ req.msg.address)
    (member : replaced ∈ s.cache.ways (config.directory.setIndex req.msg.address)) :
    Ensures (fun r => WellFormed config r.2 ∧ HasEntry config r.1 req.msg.address r.2)
      (fun _ => True) (replaceCandidate config req replaced s) := by
  have same := (well.shape.inSet _ replaced member).1
  unfold replaceCandidate
  refine (replaceDirectoryEntry_spec well.shape well.formed absent same).bind fun r spec => ?_
  obtain ⟨pointer, cache⟩ := r
  obtain ⟨shape, formed, inWay⟩ := spec
  have well₂ : ∀ nullifyReq, WellFormed config
      (Cntlr.enqueue nullifyReq ({ s with cache := cache } : Cntlr D N)) :=
    fun _ => ⟨shape, formed⟩
  dsimp only
  split_ifs
  · trivial
  · refine (processNullifyReq_spec (well₂ _) _).bind fun r spec => ?_
    obtain ⟨done, s₃⟩ := r
    obtain ⟨well₃, ways₃⟩ := spec
    have has : HasEntry config pointer req.msg.address s₃ := .inl (ways₃ _ _ inWay)
    cases done with
    | true => exact ⟨well₃.congr rfl, has⟩
    | false => exact ⟨well₃, has⟩

/-- **Allocation** of the entry of an address that has none. -/
theorem processDirectoryEntryAllocationReq_spec (well : WellFormed config s) (req : ShmemReq D)
    (absent : ∀ p ∈ s.cache.ways (config.directory.setIndex req.msg.address),
      (s.cache.heap p).address ≠ req.msg.address) :
    Ensures (fun r => WellFormed config r.2 ∧ HasEntry config r.1 req.msg.address r.2)
      (fun _ => True) (processDirectoryEntryAllocationReq config req s) := by
  obtain ⟨shape, formed, heap, ways, members⟩ :=
    getReplacementCandidates_spec well.shape well.formed req.msg.address
  unfold processDirectoryEntryAllocationReq
  generalize getReplacementCandidates config.directory req.msg.address s.cache = candidates at *
  dsimp only
  cases chosen : candidates.1.foldl (candidate { s with cache := candidates.2 }) none with
  | none => trivial
  | some replaced =>
    have member : replaced ∈ candidates.1 := (candidate_mem chosen).resolve_right nofun
    have well' : WellFormed config ({ s with cache := candidates.2 } : Cntlr D N) :=
      ⟨shape, formed⟩
    refine replaceCandidate_spec well' req (fun p inWays => ?_) ?_
    · change (candidates.2.heap p).address ≠ _
      change p ∈ candidates.2.ways _ at inWays
      rw [heap]
      rw [ways] at inWays
      exact absent p inWays
    · change replaced ∈ candidates.2.ways _
      rw [ways]
      exact members replaced member

theorem entryFor_spec (well : WellFormed config s) (req : ShmemReq D) :
    Ensures (fun r => WellFormed config r.2 ∧ HasEntry config r.1 req.msg.address r.2)
      (fun _ => True) (entryFor config req s) := by
  obtain ⟨well', has, absent⟩ := find_spec well req.msg.address
  unfold entryFor
  rcases found : find config req.msg.address s with ⟨none | pointer, s'⟩
  · rw [found] at well' absent
    obtain ⟨same, others⟩ := absent rfl
    refine processDirectoryEntryAllocationReq_spec well' req fun p inWays => ?_
    change p ∈ s'.cache.ways _ at inWays
    change (s'.cache.heap p).address ≠ _
    rw [show s'.cache = s.cache from same] at inWays ⊢
    exact others p inWays
  · rw [found] at well' has
    exact ⟨well', has pointer rfl⟩

/-! ## Requests -/

/-- The requester owns an entry without sharers, and gets the data. -/
theorem own_retrieve_spec {dstate : DState} (well : WellFormed config s)
    (has : HasEntry config pointer address s) (uncached : (s.entry pointer).dstate = .uncached)
    (cachedState : dstate ≠ .uncached) (reply : MsgType) :
    Ensures (fun r => WellFormed config r.2) (fun _ => True) (do
      let e ← own config requester dstate (s.entry pointer)
      retrieveDataAndSendToL2Cache config reply requester address cached (s.write pointer e)) := by
  cases owned : own config requester dstate (s.entry pointer) with
  | error stop => trivial
  | ok e =>
    have keeps := (own_spec owned).1
    have member : requester ∈ e.sharers := keeps ▸ Finset.mem_insert_self _ _
    obtain ⟨well', has'⟩ := well.write (e := e) has (by rw [keeps]) fun _ form =>
      form.own uncached cachedState owned
    refine retrieveDataAndSendToL2Cache_spec well' has' ?_ reply
    rw [entry_write]
    exact member

theorem processExReqFromL2Cache_spec (well : WellFormed config s) (req : ShmemReq D)
    (cached : Option D) :
    Ensures (fun r => WellFormed config r.2) (fun _ => True)
      (processExReqFromL2Cache config req cached s) := by
  unfold processExReqFromL2Cache
  refine (entryFor_spec well req).bind fun r spec => ?_
  obtain ⟨pointer, s'⟩ := r
  obtain ⟨well', has⟩ : WellFormed config s' ∧ HasEntry config pointer req.msg.address s' := spec
  dsimp only
  split
  · split_ifs
    · trivial
    · exact well'.congr rfl
  · split_ifs
    · trivial
    · exact well'.congr rfl
  · split_ifs
    · trivial
    · exact well'.congr (sendToEach_cache _ _ _ _ _)
  next uncached => exact own_retrieve_spec well' has uncached (by decide) _
  · trivial

theorem processShReqFromL2Cache_spec (well : WellFormed config s) (random : ℕ) (req : ShmemReq D)
    (cached : Option D) :
    Ensures (fun r => WellFormed config r.2) (fun _ => True)
      (processShReqFromL2Cache config random req cached s) := by
  unfold processShReqFromL2Cache
  refine (entryFor_spec well req).bind fun r spec => ?_
  obtain ⟨pointer, s'⟩ := r
  obtain ⟨well', has⟩ : WellFormed config s' ∧ HasEntry config pointer req.msg.address s' := spec
  dsimp only
  split
  · split_ifs
    · trivial
    · trivial
    · exact well'.congr rfl
  · split_ifs
    · trivial
    · exact well'.congr rfl
  next shared =>
    split_ifs with member
    · exact retrieveDataAndSendToL2Cache_spec well' has member _
    · cases added : (s'.entry pointer).addSharer config.directory req.msg.requester with
      | error stop => trivial
      | ok r =>
        obtain ⟨isAdded, e⟩ := r
        simp only [ok_bind]
        split_ifs with yes
        · subst yes
          have keeps := (addSharer_spec added).1
          have member : req.msg.requester ∈ e.sharers := keeps ▸ Finset.mem_insert_self _ _
          obtain ⟨well₂, has₂⟩ := well'.write (e := e) has (by rw [keeps]) fun _ form =>
            form.share shared added
          refine retrieveDataAndSendToL2Cache_spec well₂ has₂ ?_ _
          rw [entry_write]
          exact member
        · cases e.getOneSharer config.directory random with
          | error stop => trivial
          | ok sharer => exact well'.congr rfl
  next uncached =>
    split_ifs
    · exact own_retrieve_spec well' has uncached (by decide) _
    · exact own_retrieve_spec well' has uncached (by decide) _
  · trivial

theorem sendForUpgrade_cache (sharers : List ℕ) (hasCopy : Bool) :
    (sendForUpgrade sharers hasCopy requester address s).cache = s.cache := by
  unfold sendForUpgrade
  induction sharers.zipIdx generalizing s with
  | nil => rfl
  | cons sharer sharers ih =>
    rw [List.foldl_cons, ih]
    dsimp only
    split_ifs <;> rfl

/-- A list of sharers with one element. -/
theorem sharers_of_list {e : Entry} (only : e.getSharersList = [requester]) :
    e.sharers = {requester} := by
  ext core
  have members : core ∈ e.getSharersList ↔ core ∈ e.sharers := Finset.mem_sort _
  rw [← members, only, List.mem_singleton, Finset.mem_singleton]

theorem processUpgradeReqFromL2Cache_spec (well : WellFormed config s) (req : ShmemReq D)
    (cached : Option D) :
    Ensures (fun r => WellFormed config r.2) (fun _ => True)
      (processUpgradeReqFromL2Cache config req cached s) := by
  unfold processUpgradeReqFromL2Cache
  refine (entryFor_spec well req).bind fun r spec => ?_
  obtain ⟨pointer, s'⟩ := r
  obtain ⟨well', has⟩ : WellFormed config s' ∧ HasEntry config pointer req.msg.address s' := spec
  -- An exclusive or modified entry whose owner is the requester.
  have upgraded : (s'.entry pointer).dstate = .exclusive ∨ (s'.entry pointer).dstate = .modified →
      ¬ (s'.entry pointer).owner ≠ some req.msg.requester →
      WellFormed config (s'.write pointer { s'.entry pointer with dstate := .modified }) := by
    intro state owner
    refine (well'.write (e := { s'.entry pointer with dstate := .modified }) has rfl
      fun _ form => ?_).1
    obtain ⟨core, isOwner, only⟩ := form.owner state
    have same := not_not.1 owner
    rw [isOwner] at same
    cases same
    exact form.upgrade only isOwner
  dsimp only
  split
  next state =>
    split
    · trivial
    · split_ifs with isRequester owner
      · trivial
      · exact (upgraded (.inl state) owner).congr rfl
      · exact well'.congr rfl
  next state =>
    split
    · trivial
    · split_ifs with isRequester owner
      · trivial
      · exact (upgraded (.inr state) owner).congr rfl
      · exact well'.congr rfl
  · split_ifs with only
    · have only := sharers_of_list only
      have member : req.msg.requester ∈ (s'.entry pointer).sharers := by
        rw [only]
        exact Finset.mem_singleton_self _
      rw [Entry.setOwner, if_pos member, ok_bind]
      have taken := well'.write
        (e := { s'.entry pointer with owner := some req.msg.requester, dstate := .modified }) has rfl
        fun _ form => ⟨⟨nofun, fun empty => ?_⟩, fun _ => ⟨_, rfl, only⟩, form.forwarder, form.limited⟩
      · exact taken.1.congr rfl
      · rw [show (s'.entry pointer).sharers = ∅ from empty] at only
        exact absurd only.symm (Finset.singleton_ne_empty _)
    · exact well'.congr (sendForUpgrade_cache _ _)
  next uncached =>
    split_ifs
    · trivial
    · exact own_retrieve_spec well' has uncached (by decide) _
  · trivial

theorem processReq_spec (well : WellFormed config s) (random : ℕ) (req : ShmemReq D) :
    Ensures (fun r => WellFormed config r.2) (fun _ => True) (processReq config random req s) := by
  unfold processReq
  split
  · exact processExReqFromL2Cache_spec well req none
  · exact processShReqFromL2Cache_spec well random req none
  · exact processUpgradeReqFromL2Cache_spec well req none
  · trivial

theorem processNextReqFromL2Cache_spec (well : WellFormed config s) (random address rounds : ℕ) :
    Ensures (WellFormed config) (fun _ => True)
      (processNextReqFromL2Cache config random address rounds s) := by
  induction rounds generalizing s with
  | zero => trivial
  | succ rounds ih =>
    unfold processNextReqFromL2Cache
    split
    · trivial
    · dsimp only
      split
      · exact well.congr rfl
      · have dequeued : WellFormed config (s.dequeue address) := well.congr rfl
        refine (processReq_spec dequeued random _).bind fun r spec => ?_
        split_ifs
        · exact ih spec
        · exact spec

theorem next_spec {r : Bool × Cntlr D N} (well : WellFormed config r.2) (random address : ℕ) :
    Ensures (WellFormed config) (fun _ => True) (next config random address r) := by
  unfold next
  split_ifs
  · exact processNextReqFromL2Cache_spec well random address _
  · exact well

/-! ## Replies -/

theorem processDRAMReply_spec (well : WellFormed config s) (msg : ShmemMsg D) :
    Ensures (fun r => WellFormed config r.2) (fun _ => True) (processDRAMReply config msg s) := by
  unfold processDRAMReply
  dsimp only
  split
  · trivial
  · refine (entryOf_spec well msg.address).bind fun r spec => ?_
    cases replyType _ (r.2.entry r.1).dstate with
    | error stop => trivial
    | ok reply =>
      rw [ok_bind]
      split
      · trivial
      · exact spec.1.congr (sendDataToNUCA_cache _)

theorem processInvRepFromL2Cache_spec (well : WellFormed config s) (sender random : ℕ)
    (msg : ShmemMsg D) :
    Ensures (fun r => WellFormed config r.2) (fun _ => True)
      (processInvRepFromL2Cache config sender random msg s) := by
  unfold processInvRepFromL2Cache
  refine (entryOf_spec well msg.address).bind fun r spec => ?_
  obtain ⟨pointer, s'⟩ := r
  obtain ⟨well', has, -⟩ :
    WellFormed config s' ∧ HasEntry config pointer msg.address s' ∧ _ := spec
  dsimp only
  split_ifs with state
  · trivial
  · have shared : (s'.entry pointer).dstate = .shared ∨ (s'.entry pointer).dstate = .exclusive := by
      by_cases isShared : (s'.entry pointer).dstate = .shared
      · exact .inl isShared
      · exact .inr (not_not.1 fun other => state ⟨isShared, other⟩)
    cases invalidated : invalidate sender (s'.entry pointer) with
    | error stop => trivial
    | ok e =>
      obtain ⟨-, -, keeps, -⟩ := invalidate_ok invalidated
      obtain ⟨well₂, has₂⟩ := well'.write (e := e) has keeps fun _ form =>
        form.invalidate shared invalidated
      rw [ok_bind]
      split
      · exact well₂
      · split
        · split_ifs
          · exact processExReqFromL2Cache_spec well₂ _ none
          · exact well₂
        · split_ifs with one member none
          · exact processUpgradeReqFromL2Cache_spec well₂ _ _
          · exact well₂
          · have again := well₂.write (e := { e with dstate := .uncached }) has₂
              (by rw [entry_write]) fun _ form => ?_
            · exact processUpgradeReqFromL2Cache_spec again.1 _ _
            · rw [entry_write] at form
              have empty : e.sharers = ∅ := Finset.card_eq_zero.1 none
              have state := form.uncached.2 empty
              have same : { e with dstate := .uncached } = e := by rw [← state]
              rw [same]
              exact form
          · exact well₂
        · split_ifs
          · exact well₂
          · exact well₂
          · exact processShReqFromL2Cache_spec well₂ random _ _
        · split_ifs
          · exact (processNullifyReq_spec well₂ _).mono fun r spec => spec.1
          · exact well₂

theorem processFlushRepFromL2Cache_spec (well : WellFormed config s) (sender random : ℕ)
    (msg : ShmemMsg D) :
    Ensures (fun r => WellFormed config r.2) (fun _ => True)
      (processFlushRepFromL2Cache config sender random msg s) := by
  unfold processFlushRepFromL2Cache
  refine (entryOf_spec well msg.address).bind fun r spec => ?_
  obtain ⟨pointer, s'⟩ := r
  obtain ⟨well', has, -⟩ :
    WellFormed config s' ∧ HasEntry config pointer msg.address s' ∧ _ := spec
  dsimp only
  cases flushed : flush sender (s'.entry pointer) with
  | error stop => trivial
  | ok e =>
    obtain ⟨-, -, keeps, -⟩ := flush_ok flushed
    obtain ⟨well₂, has₂⟩ := well'.write (e := e) has keeps fun _ form => form.flush flushed
    have dram := sendDataToDram_cache config (s'.write pointer e) msg.address msg.requester
      msg.dataBuf
    rw [ok_bind]
    split
    · exact dram.bind fun s₃ same => well₂.congr same
    · split
      · exact processExReqFromL2Cache_spec well₂ _ _
      · exact dram.bind fun s₃ same =>
          processShReqFromL2Cache_spec (well₂.congr same) random _ _
      · split_ifs
        · exact processUpgradeReqFromL2Cache_spec well₂ _ _
        · exact well₂.congr rfl
      · exact dram.bind fun s₃ same =>
          (processNullifyReq_spec (well₂.congr same) _).mono fun r spec => spec.1

theorem processWbRepFromL2Cache_spec (well : WellFormed config s) (sender random : ℕ)
    (msg : ShmemMsg D) :
    Ensures (fun r => WellFormed config r.2) (fun _ => True)
      (processWbRepFromL2Cache config sender random msg s) := by
  unfold processWbRepFromL2Cache
  refine (entryOf_spec well msg.address).bind fun r spec => ?_
  obtain ⟨pointer, s'⟩ := r
  obtain ⟨well', has, -⟩ :
    WellFormed config s' ∧ HasEntry config pointer msg.address s' ∧ _ := spec
  dsimp only
  split_ifs with member
  · obtain ⟨well₂, -⟩ := well'.write
      (e := { s'.entry pointer with owner := none, dstate := .shared }) has rfl fun _ form =>
        form.writeBack member
    split
    · trivial
    · split_ifs
      · trivial
      · exact processShReqFromL2Cache_spec well₂ random _ _
  · trivial

/-! ## Runs -/

theorem handleReq_spec (well : WellFormed config s) (random : ℕ) (msg : ShmemMsg D) :
    Ensures (fun r => WellFormed config r.2) (fun _ => True) (handleReq config random msg s) := by
  unfold handleReq
  split_ifs
  · trivial
  · have queued : WellFormed config (s.enqueue (ShmemReq.of msg)) := well.congr rfl
    dsimp only
    split_ifs
    · exact processReq_spec queued random _
    · exact queued

theorem processMsg_spec (well : WellFormed config s) (sender random : ℕ) (msg : ShmemMsg D) :
    Ensures (fun r => WellFormed config r.2) (fun _ => True)
      (processMsg config sender random msg s) := by
  unfold processMsg
  split
  · exact handleReq_spec well random msg
  · exact handleReq_spec well random msg
  · exact handleReq_spec well random msg
  · exact processInvRepFromL2Cache_spec well sender random msg
  · exact processFlushRepFromL2Cache_spec well sender random msg
  · exact processWbRepFromL2Cache_spec well sender random msg
  · trivial

/-- **One message** keeps the directory well formed. -/
theorem step_wellFormed (well : WellFormed config s) (e : Event D) :
    Ensures (WellFormed config) (fun _ => True) (step config e s) := by
  cases e with
  | fromL2Cache sender random msg =>
    have found := (find_spec well msg.address).1
    exact (processMsg_spec found sender random msg).bind fun r well =>
      next_spec well random msg.address
  | fromDRAM random msg =>
    change Ensures _ _ (handleMsgFromDRAM config random msg s)
    unfold handleMsgFromDRAM
    split_ifs
    · exact (processDRAMReply_spec well msg).bind fun r well => next_spec well random msg.address
    · trivial

theorem start_wellFormed (replacementPtrs : ℕ → ℕ) (nuca : N) :
    WellFormed config (Cntlr.start replacementPtrs nuca : Cntlr D N) :=
  ⟨⟨nofun, nofun⟩, fun _ _ created => absurd created (Nat.not_lt_zero _)⟩

/-- A live entry: one in a way, or one that is replaced and not yet nullified. -/
def Live (s : Cntlr D N) (pointer : ℕ) : Prop :=
  (∃ set, pointer ∈ s.cache.ways set) ∨ pointer ∈ s.cache.replaced

/-- **Runs.** When the memory of each entry that was created held no core where the forwarder is,
each live entry is well formed. -/
theorem run_entriesFormed {replacementPtrs : ℕ → ℕ} {nuca : N} {es : List (Event D)}
    (ran : runEvents (step config) es (Cntlr.start replacementPtrs nuca) = .ok s)
    (fresh : ∀ n < s.cache.created, config.directory.fresh n = none) (live : Live s pointer) :
    (s.entry pointer).Form config.directory := by
  have well : WellFormed config s := by
    have kept : Ensures (WellFormed config) (fun _ => True)
        (runEvents (step config) es (Cntlr.start replacementPtrs nuca)) :=
      ensures_runEvents (fun e s well => step_wellFormed well e) (start_wellFormed _ _)
    exact kept.of_ok ran
  have created : pointer < s.cache.created := by
    rcases live with ⟨set, inWay⟩ | inList
    · exact (well.shape.inSet set pointer inWay).2
    · exact well.shape.inList pointer inList
  exact well.formed fresh pointer created

/-! ## One request -/

/-- A directory with one entry, whose memory holds a core number where the forwarder is, or none. -/
def oneEntry (found : Option ℕ) : Config ℕ Unit where
  directory := ⟨.fullMap, 4, 4, 1, 1, 6, fun _ => found⟩
  protocol := .mesif
  nuca := none
  getHome _ := 0
  coreId := 0

/-- Core 2 reads the line at address 64. -/
def readRequest : Event ℕ := .fromL2Cache 2 0 ⟨.shReq, 2, 64, none⟩

/-- A clean entry of a first reader. -/
theorem run_entriesFormed_one :
    ∃ s, runEvents (step (oneEntry none)) [readRequest] (Cntlr.start (fun _ => 0) ()) = .ok s ∧
      (s.entry 0).Form (oneEntry none).directory := by
  obtain ⟨s, ran⟩ : ∃ s, runEvents (step (oneEntry none)) [readRequest]
      (Cntlr.start (fun _ => 0) ()) = .ok s := ⟨_, rfl⟩
  refine ⟨s, ran, run_entriesFormed ran (fun n _ => rfl) ?_⟩
  cases ran
  exact .inl ⟨0, List.mem_cons_self⟩

/-- The forwarder of a new entry is what its memory held: core 3 has no copy. -/
theorem forwarder_not_initialised :
    ∃ s, runEvents (step (oneEntry (some 3))) [readRequest] (Cntlr.start (fun _ => 0) ()) = .ok s ∧
      Live s 0 ∧ (s.entry 0).forwarder = some 3 ∧ (s.entry 0).sharers = {2} :=
  ⟨_, rfl, .inl ⟨0, List.mem_cons_self⟩, rfl, rfl⟩

end GpuHotSpot.Common.DramDirectory
