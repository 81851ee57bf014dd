import Mathlib.Data.Nat.Count
import GpuHotSpot.Common.DramDirectoryCache

/-!
# The software trap of LimitLESS entries

`DirectoryEntryLimitless` of `common/core/memory_subsystem/directory_schemes/` over the storage
classes of its sharers. The trap is enabled where `size` is the number of sharers that the hardware
supports. That is the number of bits stored, not of sharers: it is at least the number of cores.

* `count_eq`, `sharers_of_run`: the sharers are those of the calls.
* `runEvents_entryStep`: so are those of the entries of the directory cache.
* `enabled_iff`: when the trap is enabled.
* `getLatency_iff`: when that is right.
-/

namespace GpuHotSpot.Common.DramDirectory.Limitless

open Fallible

/-! ## The storage of the sharers -/

/-- `DirectorySharersBitset` of a size, and `DirectorySharersVector`. -/
inductive Storage
  | bitset (size : ℕ)
  | vector
  deriving DecidableEq

structure DirectorySharers where
  storage : Storage
  bits : List Bool

inductive Stop
  | tooManySharers
  | outOfRange
  | alreadySharer
  | notSharer
  | replyExpected
  deriving DecidableEq

/-- The constructors, with the assertion of the bit set. -/
def Storage.construct (maxNumSharers : ℕ) : Storage → Except Stop DirectorySharers
  | .bitset size =>
    if maxNumSharers ≤ size then .ok ⟨.bitset size, List.replicate size false⟩
    else .error .tooManySharers
  | .vector => .ok ⟨.vector, List.replicate maxNumSharers false⟩

namespace DirectorySharers

def size (s : DirectorySharers) : ℕ := s.bits.length

/-- `count`: that of `std::bitset`, or the loop over the vector. -/
def count (s : DirectorySharers) : ℕ :=
  match s.storage with
  | .bitset _ => s.bits.count true
  | .vector => (List.range s.size).foldl
      (fun numSharers j => if s.bits[j]? = some true then numSharers + 1 else numSharers) 0

/-- The cores whose bits are set. -/
def members (s : DirectorySharers) : Finset ℕ :=
  (Finset.range s.size).filter fun j => s.bits[j]? = some true

def set (sharer : ℕ) (value : Bool) (s : DirectorySharers) : DirectorySharers :=
  { s with bits := s.bits.set sharer value }

theorem mem_members {s : DirectorySharers} {j : ℕ} : j ∈ s.members ↔ s.bits[j]? = some true := by
  rw [members, Finset.mem_filter, Finset.mem_range, and_iff_right_of_imp]
  exact fun isSet => (List.getElem?_eq_some_iff.mp isSet).1

@[simp] theorem set_size (s : DirectorySharers) (sharer : ℕ) (value : Bool) :
    (s.set sharer value).size = s.size := List.length_set

theorem members_set_true {s : DirectorySharers} {sharer : ℕ} (inRange : sharer < s.size) :
    (s.set sharer true).members = insert sharer s.members := by
  ext j
  rw [Finset.mem_insert, mem_members, mem_members, set, List.getElem?_set]
  rcases eq_or_ne sharer j with rfl | ne
  · rw [if_pos rfl, if_pos (show sharer < s.bits.length from inRange)]
    simp
  · rw [if_neg ne, or_iff_right (Ne.symm ne)]

theorem members_set_false {s : DirectorySharers} {sharer : ℕ} (inRange : sharer < s.size) :
    (s.set sharer false).members = s.members.erase sharer := by
  ext j
  rw [Finset.mem_erase, mem_members, mem_members, set, List.getElem?_set]
  rcases eq_or_ne sharer j with rfl | ne
  · rw [if_pos rfl, if_pos (show sharer < s.bits.length from inRange)]
    simp
  · rw [if_neg ne, and_iff_right (Ne.symm ne)]

/-- The bits that are set, one by one. -/
theorem count_bits (bits : List Bool) :
    bits.count true = (List.range bits.length).countP fun j => bits[j]? = some true := by
  induction bits using List.reverseRecOn with
  | nil => rfl
  | append_singleton bits b ih =>
    have before : ((List.range bits.length).countP fun j => (bits ++ [b])[j]? = some true) =
        (List.range bits.length).countP fun j => bits[j]? = some true := by
      refine List.countP_congr fun j member => ?_
      rw [List.getElem?_append_left (List.mem_range.mp member)]
    rw [List.count_append, List.length_append, List.length_singleton, List.range_succ,
      List.countP_append, ih, before]
    cases b <;> simp

/-- **Every storage class counts the sharers.** -/
theorem count_eq (s : DirectorySharers) : s.count = s.members.card := by
  have all : s.members.card = (List.range s.size).countP fun j => s.bits[j]? = some true :=
    (Nat.count_eq_card_filter_range _ _).symm
  have loop (l : List ℕ) (numSharers : ℕ) : l.foldl
      (fun numSharers j => if s.bits[j]? = some true then numSharers + 1 else numSharers)
        numSharers = numSharers + l.countP fun j => s.bits[j]? = some true := by
    induction l generalizing numSharers with
    | nil => rfl
    | cons j l ih =>
      rw [List.foldl_cons, ih, List.countP_cons]
      by_cases isSet : s.bits[j]? = some true
      · simp only [isSet, if_true, decide_true]
        omega
      · simp [isSet]
  rw [all, count]
  cases s.storage with
  | bitset size => exact count_bits s.bits
  | vector =>
    dsimp only
    rw [loop, Nat.zero_add]

end DirectorySharers

/-! ## The entry -/

/-- `DirectoryEntryLimitless`. -/
structure LimitlessEntry where
  sharers : DirectorySharers
  softwareTrapEnabled : Bool
  softwareTrapPenalty : ℕ

/-- The storage class that `createDirectoryEntry` selects. -/
def storageClass (maxNumSharers : ℕ) : Storage :=
  if maxNumSharers ≤ 64 then .bitset 64
  else if maxNumSharers ≤ 128 then .bitset 128
  else if maxNumSharers ≤ 256 then .bitset 256
  else if maxNumSharers ≤ 1024 then .bitset 1024
  else .vector

/-- `createDirectoryEntry` of a directory of the type `limitless`. -/
def createDirectoryEntry (maxNumSharers penalty : ℕ) : Except Stop LimitlessEntry := do
  let sharers ← (storageClass maxNumSharers).construct maxNumSharers
  return ⟨sharers, false, penalty⟩

/-- The calls that change the sharers. -/
inductive Call
  | addSharer (sharer : ℕ)
  | removeSharer (sharer : ℕ) (replyExpected : Bool)

namespace LimitlessEntry

def getNumSharers (e : LimitlessEntry) : ℕ := e.sharers.count

/-- `addSharer`, which always returns true. -/
def addSharer (sharer maxHwSharers : ℕ) (e : LimitlessEntry) :
    Except Stop (Bool × LimitlessEntry) :=
  match e.sharers.bits[sharer]? with
  | none => .error .outOfRange
  | some true => .error .alreadySharer
  | some false => .ok (true, { e with
      softwareTrapEnabled := if e.sharers.size = maxHwSharers then true else e.softwareTrapEnabled
      sharers := e.sharers.set sharer true })

def removeSharer (sharer : ℕ) (replyExpected : Bool) (e : LimitlessEntry) :
    Except Stop LimitlessEntry :=
  if replyExpected then .error .replyExpected
  else match e.sharers.bits[sharer]? with
    | none => .error .outOfRange
    | some false => .error .notSharer
    | some true => .ok { e with sharers := e.sharers.set sharer false }

def getLatency (e : LimitlessEntry) : ℕ :=
  if e.softwareTrapEnabled then e.softwareTrapPenalty else 0

/-- One call. -/
def step (maxHwSharers : ℕ) : Call → LimitlessEntry → Except Stop LimitlessEntry
  | .addSharer sharer, e => do
      let (_, e) ← e.addSharer sharer maxHwSharers
      return e
  | .removeSharer sharer replyExpected, e => e.removeSharer sharer replyExpected

end LimitlessEntry

/-- The constructor's assertion holds for the class that is selected. -/
theorem construct_storageClass (maxNumSharers : ℕ) : ∃ s : DirectorySharers,
    (storageClass maxNumSharers).construct maxNumSharers = .ok s ∧ maxNumSharers ≤ s.size ∧
      s.members = ∅ := by
  have empty (storage : Storage) (size : ℕ) :
      (⟨storage, List.replicate size false⟩ : DirectorySharers).members = ∅ := by
    refine Finset.eq_empty_of_forall_notMem fun j member => ?_
    have isSet := DirectorySharers.mem_members.1 member
    rw [List.getElem?_replicate] at isSet
    split_ifs at isSet
    cases isSet
  have bitset {size : ℕ} (room : maxNumSharers ≤ size) : ∃ s : DirectorySharers,
      (Storage.bitset size).construct maxNumSharers = .ok s ∧ maxNumSharers ≤ s.size ∧
        s.members = ∅ :=
    ⟨_, if_pos room, by rwa [DirectorySharers.size, List.length_replicate], empty _ _⟩
  rw [storageClass]
  split_ifs with small medium large huge
  · exact bitset small
  · exact bitset medium
  · exact bitset large
  · exact bitset huge
  · exact ⟨_, rfl, by rw [DirectorySharers.size, List.length_replicate], empty _ _⟩

/-- What a call does. -/
theorem step_ok {maxHwSharers : ℕ} {call : Call} {e e' : LimitlessEntry}
    (moved : e.step maxHwSharers call = .ok e') :
    e'.sharers.size = e.sharers.size ∧ e'.softwareTrapPenalty = e.softwareTrapPenalty ∧
      match call with
      | .addSharer sharer => sharer ∉ e.sharers.members ∧
          e'.sharers.members = insert sharer e.sharers.members ∧ (e'.softwareTrapEnabled = true ↔
            e.softwareTrapEnabled = true ∨ e.sharers.size = maxHwSharers)
      | .removeSharer sharer replyExpected => replyExpected = false ∧
          sharer ∈ e.sharers.members ∧ e'.sharers.members = e.sharers.members.erase sharer ∧
          e'.softwareTrapEnabled = e.softwareTrapEnabled := by
  cases call with
  | addSharer sharer =>
    simp only [LimitlessEntry.step, LimitlessEntry.addSharer] at moved
    cases bit : e.sharers.bits[sharer]? with
    | none => simp [bit] at moved
    | some b =>
      have inRange : sharer < e.sharers.size := (List.getElem?_eq_some_iff.mp bit).1
      cases b with
      | true => simp [bit] at moved
      | false =>
        simp only [bit, ok_bind, pure, Except.pure, Except.ok.injEq] at moved
        subst moved
        refine ⟨DirectorySharers.set_size _ _ _, rfl, ?_,
          DirectorySharers.members_set_true inRange, ?_⟩
        · simp [DirectorySharers.mem_members, bit]
        · dsimp only
          split_ifs with full <;> simp [full]
  | removeSharer sharer replyExpected =>
    simp only [LimitlessEntry.step, LimitlessEntry.removeSharer] at moved
    split_ifs at moved with reply
    cases bit : e.sharers.bits[sharer]? with
    | none => simp [bit] at moved
    | some b =>
      have inRange : sharer < e.sharers.size := (List.getElem?_eq_some_iff.mp bit).1
      cases b with
      | false => simp [bit] at moved
      | true =>
        simp only [bit, Except.ok.injEq] at moved
        subst moved
        exact ⟨DirectorySharers.set_size _ _ _, rfl, Bool.eq_false_iff.mpr reply,
          DirectorySharers.mem_members.2 bit, DirectorySharers.members_set_false inRange,
          rfl⟩

/-- **The entries of the directory cache** are these without their storage. -/
theorem addSharer_entry {config : DirectoryConfig} (limitless : config.directoryType = .limitless)
    {entry : Entry} {e e' : LimitlessEntry} {sharer maxHwSharers : ℕ} {added : Bool}
    (same : entry.sharers = e.sharers.members)
    (ran : e.addSharer sharer maxHwSharers = .ok (added, e')) :
    entry.addSharer config sharer = .ok (added, { entry with sharers := e'.sharers.members }) := by
  rw [LimitlessEntry.addSharer] at ran
  cases bit : e.sharers.bits[sharer]? with
  | none => simp [bit] at ran
  | some b =>
    have inRange : sharer < e.sharers.size := (List.getElem?_eq_some_iff.mp bit).1
    cases b with
    | true => simp [bit] at ran
    | false =>
      simp only [bit, Except.ok.injEq, Prod.mk.injEq] at ran
      obtain ⟨rfl, rfl⟩ := ran
      have new : sharer ∉ entry.sharers := by
        simp [same, DirectorySharers.mem_members, bit]
      rw [Entry.addSharer, if_neg new, if_neg (by simp [limitless]), same,
        DirectorySharers.members_set_true inRange]

theorem removeSharer_entry {entry : Entry} {e e' : LimitlessEntry} {sharer : ℕ}
    (same : entry.sharers = e.sharers.members) (ran : e.removeSharer sharer false = .ok e') :
    entry.removeSharer sharer = .ok { entry with sharers := e'.sharers.members } := by
  obtain ⟨-, -, -, member, erased, -⟩ := @step_ok 0 (.removeSharer sharer false) e e' ran
  rw [Entry.removeSharer, if_pos (same ▸ member), erased, same]

/-- A call on an entry of the directory cache. -/
def entryStep (config : DirectoryConfig) : Call → Entry → Except DramDirectory.Stop Entry
  | .addSharer sharer, entry => do
      let (_, entry) ← entry.addSharer config sharer
      return entry
  | .removeSharer sharer _, entry => entry.removeSharer sharer

theorem entryStep_ok {config : DirectoryConfig} (limitless : config.directoryType = .limitless)
    {entry : Entry} {e e' : LimitlessEntry} {maxHwSharers : ℕ} {call : Call}
    (same : entry.sharers = e.sharers.members) (moved : e.step maxHwSharers call = .ok e') :
    entryStep config call entry = .ok { entry with sharers := e'.sharers.members } := by
  cases call with
  | addSharer sharer =>
    obtain ⟨⟨added, after⟩, ran, rest⟩ := bind_ok.1 moved
    cases rest
    exact bind_ok.2 ⟨_, addSharer_entry limitless same ran, rfl⟩
  | removeSharer sharer replyExpected =>
    obtain ⟨-, -, rfl, -⟩ := step_ok moved
    exact removeSharer_entry same moved

/-- **Refinement.** Whatever the storage class, the entries of the directory cache go through the
same calls with the same sharers, and the sharers are counted. -/
theorem runEvents_entryStep {config : DirectoryConfig}
    (limitless : config.directoryType = .limitless) {maxHwSharers : ℕ} {calls : List Call}
    {e₀ e : LimitlessEntry} {entry : Entry} (same : entry.sharers = e₀.sharers.members)
    (ran : runEvents (LimitlessEntry.step maxHwSharers) calls e₀ = .ok e) :
    runEvents (entryStep config) calls entry = .ok { entry with sharers := e.sharers.members } ∧
      e.getNumSharers = e.sharers.members.card := by
  refine ⟨?_, DirectorySharers.count_eq _⟩
  induction calls generalizing e₀ entry with
  | nil =>
    cases ran
    rw [← same]
    rfl
  | cons call calls ih =>
    obtain ⟨e₁, moved, rest⟩ := bind_ok.1 ran
    exact bind_ok.2 ⟨_, entryStep_ok limitless same moved, ih rfl rest⟩

/-- Two sharers, of which one is taken away. -/
theorem runEvents_entryStep_two : ∃ e₀ e : LimitlessEntry, createDirectoryEntry 4 200 = .ok e₀ ∧
    runEvents (entryStep ⟨.limitless, 1, 4, 1, 1, 6, fun _ => none⟩)
      [.addSharer 2, .addSharer 0, .removeSharer 2 false] ⟨0, .uncached, none, none, ∅⟩ =
      .ok ⟨0, .uncached, none, none, e.sharers.members⟩ ∧
    e.getNumSharers = e.sharers.members.card := by
  have ran : runEvents (LimitlessEntry.step 1) [.addSharer 2, .addSharer 0, .removeSharer 2 false]
      ⟨⟨.bitset 64, List.replicate 64 false⟩, false, 200⟩ = .ok _ := rfl
  exact ⟨_, _, rfl, runEvents_entryStep rfl (by decide) ran⟩

/-! ## The history of an entry -/

/-- The sharers after the calls, as a set. -/
def sharersAfter (calls : List Call) : Finset ℕ :=
  calls.foldl (fun sharers call => match call with
    | .addSharer sharer => insert sharer sharers
    | .removeSharer sharer _ => sharers.erase sharer) ∅

/-- Some sharer was added when there were already as many as the hardware supports. -/
def Overflows (maxHwSharers : ℕ) (calls : List Call) : Prop :=
  ∃ before sharer after, calls = before ++ .addSharer sharer :: after ∧
    maxHwSharers ≤ (sharersAfter before).card

/-- The sharers after a call are those of the history. -/
theorem sharersAfter_concat (calls : List Call) (call : Call) :
    sharersAfter (calls ++ [call]) = match call with
      | .addSharer sharer => insert sharer (sharersAfter calls)
      | .removeSharer sharer _ => (sharersAfter calls).erase sharer := by
  rw [sharersAfter, List.foldl_append]
  rfl

/-- **A history of calls**, by induction on it from its end: the entry has the sharers of the
history, and the trap is enabled by any sharer that is added where the size of the storage is the
number of sharers that the hardware supports. -/
theorem run_ok {maxHwSharers : ℕ} {calls : List Call} {e₀ e : LimitlessEntry}
    (empty : e₀.sharers.members = ∅) (disabled : e₀.softwareTrapEnabled = false)
    (ran : runEvents (LimitlessEntry.step maxHwSharers) calls e₀ = .ok e) :
    e.sharers.size = e₀.sharers.size ∧ e.softwareTrapPenalty = e₀.softwareTrapPenalty ∧
      e.sharers.members = sharersAfter calls ∧ (e.softwareTrapEnabled = true ↔
        e₀.sharers.size = maxHwSharers ∧ ∃ sharer, .addSharer sharer ∈ calls) := by
  induction calls using List.reverseRecOn generalizing e with
  | nil =>
    cases ran
    exact ⟨rfl, rfl, empty, by simp [disabled]⟩
  | append_singleton calls call ih =>
    rw [runEvents_concat] at ran
    obtain ⟨u, before, moved⟩ := bind_ok.1 ran
    obtain ⟨size, penalty, members, enabled⟩ := ih before
    obtain ⟨size', penalty', what⟩ := step_ok moved
    refine ⟨size'.trans size, penalty'.trans penalty, ?_, ?_⟩
    · rw [sharersAfter_concat, ← members]
      cases call with
      | addSharer sharer => exact what.2.1
      | removeSharer sharer => exact what.2.2.1
    · cases call with
      | addSharer sharer =>
        rw [what.2.2, enabled, size]
        constructor
        · rintro (⟨full, other, member⟩ | full)
          · exact ⟨full, other, List.mem_append_left _ member⟩
          · exact ⟨full, sharer, List.mem_append_right _ (List.mem_singleton_self _)⟩
        · exact fun added => .inr added.1
      | removeSharer sharer =>
        rw [what.2.2.2, enabled]
        simp

/-- A new entry. -/
theorem createDirectoryEntry_ok {maxNumSharers penalty : ℕ} {e : LimitlessEntry}
    (created : createDirectoryEntry maxNumSharers penalty = .ok e) :
    maxNumSharers ≤ e.sharers.size ∧ e.sharers.members = ∅ ∧ e.softwareTrapEnabled = false ∧
      e.softwareTrapPenalty = penalty := by
  obtain ⟨sharers, constructed, room, empty⟩ := construct_storageClass maxNumSharers
  rw [createDirectoryEntry, constructed] at created
  cases created
  exact ⟨room, empty, rfl, rfl⟩

/-- **The trap is never enabled** where the hardware supports fewer sharers than there are cores. -/
theorem getLatency_of_run {maxHwSharers maxNumSharers penalty : ℕ} {calls : List Call}
    {e₀ e : LimitlessEntry} (below : maxHwSharers < maxNumSharers)
    (created : createDirectoryEntry maxNumSharers penalty = .ok e₀)
    (ran : runEvents (LimitlessEntry.step maxHwSharers) calls e₀ = .ok e) : e.getLatency = 0 := by
  obtain ⟨room, empty, disabled, -⟩ := createDirectoryEntry_ok created
  obtain ⟨-, -, -, enabled⟩ := run_ok empty disabled ran
  rw [LimitlessEntry.getLatency, if_neg]
  exact fun trap => absurd (enabled.mp trap).1 (by omega)

/-- **Exactly when the latency is right**: where the penalty is that of no trap if and only if the
sharers have overflowed. -/
theorem getLatency_iff (maxHwSharers maxNumSharers penalty : ℕ) (calls : List Call)
    (e₀ e : LimitlessEntry) (below : maxHwSharers < maxNumSharers)
    (created : createDirectoryEntry maxNumSharers penalty = .ok e₀)
    (ran : runEvents (LimitlessEntry.step maxHwSharers) calls e₀ = .ok e) :
    (e.getLatency = penalty ↔ Overflows maxHwSharers calls) ↔
      (penalty = 0 ↔ Overflows maxHwSharers calls) := by
  rw [getLatency_of_run below created ran, eq_comm]

/-- One sharer of an entry that supports one. -/
theorem getLatency_iff_one : ∃ e₀ e, createDirectoryEntry 4 200 = .ok e₀ ∧
    runEvents (LimitlessEntry.step 1) [.addSharer 2] e₀ = .ok e ∧
    ((e.getLatency = 200 ↔ Overflows 1 [.addSharer 2]) ↔ (200 = 0 ↔ Overflows 1 [.addSharer 2])) :=
  ⟨_, _, rfl, rfl, getLatency_iff 1 4 200 [.addSharer 2] _ _ (by decide) rfl rfl⟩

/-- The second of two sharers traps into software where one is supported, and pays nothing. -/
theorem not_getLatency : ¬∀ (maxHwSharers maxNumSharers penalty : ℕ) (calls : List Call)
    (e₀ e : LimitlessEntry), maxHwSharers < maxNumSharers →
    createDirectoryEntry maxNumSharers penalty = .ok e₀ →
    runEvents (LimitlessEntry.step maxHwSharers) calls e₀ = .ok e →
    (e.getLatency = penalty ↔ Overflows maxHwSharers calls) := by
  intro all
  have paid := (all 1 4 200 [.addSharer 0, .addSharer 1] _ _ (by decide) rfl rfl).mpr
    ⟨[.addSharer 0], 1, [], rfl, by decide⟩
  revert paid
  decide

end GpuHotSpot.Common.DramDirectory.Limitless
