import GpuHotSpot.Lib.Circular
import GpuHotSpot.Lib.Machine
import Mathlib.Logic.Function.Basic

/-!
# The GHB prefetcher

`common/core/memory_subsystem/parametric_dram_directory_msi/ghb_prefetcher.cc`: a circular history
buffer of the differences between addresses.  A table leads from a delta to the entry that followed
it last, and each entry is linked to the one that followed the same delta before.

* `Follows`: the buffer and the table are those of the history.
* `predicts`: as long as no walk meets a place that its checks do not recognise as overwritten, and
  none goes on past the newest entry of a full buffer, only what happened is predicted.
-/

namespace GpuHotSpot.Common.GhbPrefetchers

open Fallible Circular

/-! ## The code -/

/-- `INVALID_ADDRESS`. -/
def invalidAddress : UInt64 := 0xFFFFFFFFFFFFFFFF

/-- `INVALID_DELTA`. -/
def invalidDelta : Int64 := Int64.maxValue

/-- `INVALID_INDEX`. -/
def invalidIndex : ℕ := 2 ^ 32 - 1

structure GHBEntry where
  nextIndex : ℕ
  delta : Int64
  generation : ℕ
  deriving DecidableEq, Repr

structure TableEntry where
  ghbIndex : ℕ
  delta : Int64
  generation : ℕ
  deriving DecidableEq, Repr

/-- What the constructor reads from the configuration. -/
structure Config where
  prefetchWidth : ℕ
  prefetchDepth : ℕ
  ghbSize : ℕ
  tableSize : ℕ
  ghbSize_lt : ghbSize < 2 ^ 32
  tableSize_lt : tableSize < 2 ^ 32

structure GhbPrefetcher where
  lastAddress : UInt64
  ghbHead : ℕ
  generation : ℕ
  ghb : ℕ → GHBEntry
  tableHead : ℕ
  ghbTable : ℕ → TableEntry

def GhbPrefetcher.create : GhbPrefetcher :=
  ⟨invalidAddress, 0, 0, fun _ => ⟨invalidIndex, invalidDelta, 0⟩, 0,
    fun _ => ⟨invalidIndex, invalidDelta, 0⟩⟩

/-- An index out of the range of a vector. -/
inductive Fault
  | outOfRange
  deriving DecidableEq, Repr

/-- The loop that looks for a delta in the table, from an index on. -/
def search (table : ℕ → TableEntry) (delta : Int64) : ℕ → ℕ → ℕ
  | 0, i => i
  | more + 1, i =>
    if (table i).delta ≠ invalidDelta ∧ (table i).delta ≠ delta then
      search table delta more (i + 1)
    else i

/-- `std::find` and `push_back`. -/
def addAddress (address : UInt64) (list : List UInt64) : List UInt64 :=
  if address ∈ list then list else list ++ [address]

section Code

variable (c : Config)

/-- The index of the table where a delta is. -/
def slotOf (delta : Int64) (table : ℕ → TableEntry) : Option ℕ :=
  let i := search table delta c.tableSize 0
  if i ≠ c.tableSize ∧ (table i).delta = delta then some i else none

/-- The loop over the depth, from an entry on. -/
def depthLoop (ghb : ℕ → GHBEntry) (ghbIndex : ℕ) :
    ℕ → ℕ → UInt64 → List UInt64 → List UInt64
  | 0, _, _, list => list
  | more + 1, depth, newAddress, list =>
    let entry := ghb ((ghbIndex + depth) % 2 ^ 32 % c.ghbSize)
    if entry.delta = invalidDelta then list
    else
      let newAddress := newAddress + entry.delta.toUInt64
      depthLoop ghb ghbIndex more (depth + 1) newAddress (addAddress newAddress list)

/-- Where the loop over the width goes on, which is nowhere from an index that is invalid. -/
def goesOn (ghbHead ghbIndex nextIndex : ℕ) : ℕ :=
  if (nextIndex > ghbIndex ∨ ghbIndex > ghbHead) ∧ nextIndex < ghbHead then invalidIndex
  else nextIndex

/-- The loop over the width, from an entry on. -/
def widthLoop (ghbHead : ℕ) (ghb : ℕ → GHBEntry) (currentAddress : UInt64) :
    ℕ → ℕ → List UInt64 → Except Fault (List UInt64)
  | 0, _, list => .ok list
  | more + 1, ghbIndex, list =>
    if ghbIndex = invalidIndex then .ok list
    else if ghbIndex < c.ghbSize then
      widthLoop ghbHead ghb currentAddress more
        (goesOn ghbHead ghbIndex (ghb ghbIndex).nextIndex)
        (depthLoop c ghb ghbIndex c.prefetchDepth 0 currentAddress list)
    else .error .outOfRange

/-- What the table holds of a delta, if it refers to an entry of the current generation. -/
def live (delta : Int64) (ghb : ℕ → GHBEntry) (table : ℕ → TableEntry) :
    Except Fault (Option ℕ) :=
  match slotOf c delta table with
  | none => .ok none
  | some i =>
    if (table i).ghbIndex < c.ghbSize then
      .ok (if (table i).generation = (ghb (table i).ghbIndex).generation then
        some (table i).ghbIndex else none)
    else .error .outOfRange

/-- The addresses to prefetch. -/
def predict (currentAddress : UInt64) (delta : Int64) (s : GhbPrefetcher) :
    Except Fault (List UInt64) := do
  match ← live c delta s.ghb s.ghbTable with
  | none => .ok []
  | some ghbIndex => widthLoop c s.ghbHead s.ghb currentAddress c.prefetchWidth ghbIndex []

/-- The entry at the head is linked, by the delta before it. -/
def link (prevDelta : Int64) (s : GhbPrefetcher) : Except Fault GhbPrefetcher := do
  let nextIndex ← live c prevDelta s.ghb s.ghbTable
  match slotOf c prevDelta s.ghbTable with
  | some i => .ok { s with
      ghb := Function.update s.ghb s.ghbHead
        { s.ghb s.ghbHead with nextIndex := nextIndex.getD invalidIndex }
      ghbTable := Function.update s.ghbTable i ⟨s.ghbHead, prevDelta, s.generation⟩ }
  | none =>
    if s.tableHead < c.tableSize then .ok { s with
      ghbTable := Function.update s.ghbTable s.tableHead ⟨s.ghbHead, prevDelta, s.generation⟩
      tableHead := (s.tableHead + 1) % c.tableSize }
    else .error .outOfRange

/-- The first entry of all has no delta before it. -/
def linkPrevious (prevDelta : Int64) (s : GhbPrefetcher) : Except Fault GhbPrefetcher :=
  if prevDelta ≠ invalidDelta then link c prevDelta s else .ok s

/-- The head goes on. -/
def advanceHead (s : GhbPrefetcher) : GhbPrefetcher :=
  if s.ghbHead + 1 = c.ghbSize then
    { s with ghbHead := 0, generation := (s.generation + 1) % 4 }
  else { s with ghbHead := s.ghbHead + 1 }

/-- The new delta is put into the buffer and the table. -/
def push (delta : Int64) (s : GhbPrefetcher) : Except Fault GhbPrefetcher :=
  if s.ghbHead < c.ghbSize then do
    let s := { s with
      ghb := Function.update s.ghb s.ghbHead ⟨invalidIndex, delta, s.generation⟩ }
    let prevHead := if s.ghbHead > 0 then s.ghbHead - 1 else c.ghbSize - 1
    let prevDelta := (s.ghb prevHead).delta
    let s ← linkPrevious c prevDelta s
    .ok (advanceHead c s)
  else .error .outOfRange

/-- `GhbPrefetcher::getNextAddress`. -/
def getNextAddress (currentAddress : UInt64) (s : GhbPrefetcher) :
    Except Fault (List UInt64 × GhbPrefetcher) :=
  if s.lastAddress = invalidAddress then .ok ([], { s with lastAddress := currentAddress })
  else do
    let delta := (currentAddress - s.lastAddress).toInt64
    let s := { s with lastAddress := currentAddress }
    let prefetchList ← predict c currentAddress delta s
    let s ← push c delta s
    .ok (prefetchList, s)

end Code

/-! ## The history -/

/-- The entries before one that followed a delta, the newest first. -/
def followersBefore (past : List Int64) (delta : Int64) : ℕ → List ℕ
  | 0 => []
  | m + 1 =>
    if 0 < m ∧ past[m - 1]? = some delta then m :: followersBefore past delta m
    else followersBefore past delta m

/-- The entries that followed a delta. -/
def followers (past : List Int64) (delta : Int64) : List ℕ :=
  followersBefore past delta past.length

/-- An address and the deltas after it. -/
def advance (address : UInt64) (deltas : List Int64) : UInt64 :=
  deltas.foldl (fun address delta => address + delta.toUInt64) address

/-- The entries that the loop over the width goes through. -/
def visits (ghbHead : ℕ) (ghb : ℕ → GHBEntry) : ℕ → ℕ → List ℕ
  | 0, _ => []
  | more + 1, ghbIndex =>
    if ghbIndex = invalidIndex then []
    else ghbIndex ::
      visits ghbHead ghb more (goesOn ghbHead ghbIndex (ghb ghbIndex).nextIndex)

/-- The state, and as a record of the run the deltas. -/
structure Recorder where
  state : GhbPrefetcher
  past : List Int64

def Recorder.start : Recorder := ⟨.create, []⟩

/-- The delta of an access. -/
def GhbPrefetcher.deltaTo (s : GhbPrefetcher) (currentAddress : UInt64) : Int64 :=
  (currentAddress - s.lastAddress).toInt64

def step (c : Config) (currentAddress : UInt64) (s : Recorder) : Except Fault Recorder := do
  let (_, state) ← getNextAddress c currentAddress s.state
  .ok ⟨state, if s.state.lastAddress = invalidAddress then s.past
    else s.past ++ [s.state.deltaTo currentAddress]⟩

/-- An address is predicted by entries one after the other that are in the buffer and followed the
delta. -/
def Happened (c : Config) (past : List Int64) (delta : Int64) (currentAddress a : UInt64) : Prop :=
  ∃ t ∈ followers past delta, Recorded c.ghbSize past.length t ∧ ∃ k, t + k < past.length ∧
    a = advance currentAddress ((past.drop t).take (k + 1))

/-- The walk goes through entries that followed the delta, from the newest one on, and all of them
are in the buffer still. -/
def WalksLive (c : Config) (past : List Int64) (delta : Int64) (walk : List ℕ) : Prop :=
  ∃ times, times <+: followers past delta ∧ walk = times.map (· % c.ghbSize) ∧
    ∀ t ∈ times, Recorded c.ghbSize past.length t

/-- What the prefetcher is for: an access succeeds, each address that it returns happened after an
earlier access with the same delta, and no entry is followed that was overwritten. -/
def Predicts (c : Config) (s : Recorder) (currentAddress : UInt64) : Prop :=
  ∃ list t, getNextAddress c currentAddress s.state = .ok (list, t) ∧
    if s.state.lastAddress = invalidAddress then list = []
    else (∀ a ∈ list, Happened c s.past (s.state.deltaTo currentAddress) currentAddress a) ∧
      ∀ ghbIndex, live c (s.state.deltaTo currentAddress) s.state.ghb s.state.ghbTable =
          .ok (some ghbIndex) →
        WalksLive c s.past (s.state.deltaTo currentAddress)
          (visits s.state.ghbHead s.state.ghb c.prefetchWidth ghbIndex)

/-! ## The condition -/

/-- A delta is in the table. -/
def Kept (c : Config) (table : ℕ → TableEntry) (delta : Int64) : Prop :=
  ∃ i < c.tableSize, (table i).delta = delta

/-- The place of the last entry that followed a delta in the table was not overwritten 4, 8, ...
times before entry `n`. -/
def Unaliased (c : Config) (table : ℕ → TableEntry) (past : List Int64) (n : ℕ)
    (delta : Int64) : Prop :=
  Kept c table delta → ∀ t, (followers past delta).head? = some t →
    overwritten c.ghbSize n t % 4 = 0 → overwritten c.ghbSize n t = 0

/-- From an entry on, the loop over the depth does not go on past the newest entry: it ends before,
or it meets an entry that is not valid. The sums of its indexes have 32 bits. -/
structure EndsInTime (c : Config) (ghb : ℕ → GHBEntry) (n t : ℕ) : Prop where
  ends : t + c.prefetchDepth ≤ n ∨
    ∃ k, t + k ≤ n ∧ (ghb ((t + k) % c.ghbSize)).delta = invalidDelta
  small : ∀ k < c.prefetchDepth, t + k ≤ n → t % c.ghbSize + k < 2 ^ 32

/-- The checks of the loop over the width recognise whether a link from a place leads to an entry
that was overwritten: the place is before the head, or the link leads back from behind it. -/
def Recognised (ghbHead ghbIndex nextIndex : ℕ) : Prop :=
  ghbIndex < ghbHead ∨ ghbHead < ghbIndex ∧ nextIndex < ghbIndex

/-- No walk goes wrong along the entries that followed a delta. -/
def Sound (c : Config) (ghb : ℕ → GHBEntry) (n : ℕ) : ℕ → List ℕ → Prop
  | 0, _ => True
  | _, [] => True
  | more + 1, t :: older => Recorded c.ghbSize n t → EndsInTime c ghb n t ∧
      ((ghb (t % c.ghbSize)).nextIndex ≠ invalidIndex →
        Recognised (n % c.ghbSize) (t % c.ghbSize) (ghb (t % c.ghbSize)).nextIndex ∧
        (goesOn (n % c.ghbSize) (t % c.ghbSize) (ghb (t % c.ghbSize)).nextIndex ≠ invalidIndex →
          Sound c ghb n more older))

/-- The condition of a step. -/
structure Proper (c : Config) (s : Recorder) (currentAddress : UInt64) : Prop where
  buffer : 2 ≤ c.ghbSize
  table : ∀ prevDelta, s.past.getLast? = some prevDelta → prevDelta ≠ invalidDelta →
    0 < c.tableSize
  valid : ¬ Kept c s.state.ghbTable invalidDelta ∨
    s.state.deltaTo currentAddress ≠ invalidDelta
  current : Unaliased c s.state.ghbTable s.past s.past.length (s.state.deltaTo currentAddress)
  previous : ∀ prevDelta, s.past.getLast? = some prevDelta →
    Unaliased c s.state.ghbTable s.past (s.past.length + 1) prevDelta
  walk : Kept c s.state.ghbTable (s.state.deltaTo currentAddress) →
    Sound c s.state.ghb s.past.length c.prefetchWidth
      (followers s.past (s.state.deltaTo currentAddress))

/-- The condition of a step that is not the first one. -/
def Careful (c : Config) (s : Recorder) (currentAddress : UInt64) : Prop :=
  s.state.lastAddress ≠ invalidAddress → Proper c s currentAddress

/-! ## Followers -/

variable {c : Config} {past : List Int64} {delta prevDelta : Int64} {n t u : ℕ}

theorem followersBefore_eq_cons {m : ℕ} {older : List ℕ}
    (same : followersBefore past delta m = t :: older) :
    t < m ∧ 0 < t ∧ past[t - 1]? = some delta ∧ older = followersBefore past delta t := by
  induction m with
  | zero => cases same
  | succ m ih =>
    rw [followersBefore] at same
    split_ifs at same with here
    · cases same
      exact ⟨Nat.lt_succ_self _, here.1, here.2, rfl⟩
    · obtain ⟨less, rest⟩ := ih same
      exact ⟨Nat.lt_succ_of_lt less, rest⟩

theorem head_followersBefore {m : ℕ} (first : (followersBefore past delta m).head? = some t) :
    followersBefore past delta m = t :: followersBefore past delta t := by
  obtain ⟨older, same⟩ := List.head?_eq_some_iff.1 first
  rw [same, (followersBefore_eq_cons same).2.2.2]

/-- A new entry does not change what followed a delta before. -/
theorem followersBefore_concat {m : ℕ} (inside : m ≤ past.length + 1) :
    followersBefore (past ++ [delta]) prevDelta m = followersBefore past prevDelta m := by
  induction m with
  | zero => rfl
  | succ m ih =>
    rw [followersBefore, followersBefore, ih (by omega)]
    by_cases positive : 0 < m
    · rw [List.getElem?_append_left (by omega)]
    · rw [if_neg fun both => positive both.1, if_neg fun both => positive both.1]

theorem getLast?_eq (past : List Int64) : past.getLast? = past[past.length - 1]? :=
  List.getLast?_eq_getElem?

theorem followers_concat_self (last : past.getLast? = some prevDelta) :
    followers (past ++ [delta]) prevDelta = past.length :: followers past prevDelta := by
  rw [getLast?_eq] at last
  obtain ⟨inside, -⟩ := List.getElem?_eq_some_iff.1 last
  rw [followers, List.length_append, List.length_singleton, followersBefore,
    followersBefore_concat (Nat.le_succ _), List.getElem?_append_left inside,
    if_pos ⟨by omega, last⟩]
  rfl

theorem followers_concat_of_ne {other : Int64} (different : past.getLast? ≠ some other) :
    followers (past ++ [delta]) other = followers past other := by
  rw [followers, List.length_append, List.length_singleton, followersBefore,
    followersBefore_concat (Nat.le_succ _), if_neg]
  · rfl
  · rintro ⟨positive, same⟩
    rw [List.getElem?_append_left (by omega), ← getLast?_eq] at same
    exact different same

/-! ## The table -/

/-- The first `filled` entries of the table are valid, for different deltas, and lead to the last
entries that followed them. -/
structure TableFollows (c : Config) (past : List Int64) (table : ℕ → TableEntry)
    (tableHead filled : ℕ) : Prop where
  filled_le : filled ≤ c.tableSize
  valid_iff : ∀ i < c.tableSize, (table i).delta ≠ invalidDelta ↔ i < filled
  head : filled < c.tableSize → tableHead = filled
  head_lt : 0 < c.tableSize → tableHead < c.tableSize
  distinct : ∀ i < filled, ∀ j < filled, (table i).delta = (table j).delta → i = j
  slot : ∀ i < filled, ∃ t, (followers past (table i).delta).head? = some t ∧
    (table i).ghbIndex = t % c.ghbSize ∧ (table i).generation = t / c.ghbSize % 4

variable {table : ℕ → TableEntry} {tableHead filled : ℕ}

theorem search_spec (table : ℕ → TableEntry) (delta : Int64) (more i : ℕ) :
    i ≤ search table delta more i ∧ search table delta more i ≤ i + more ∧
      (∀ j, i ≤ j → j < search table delta more i →
        (table j).delta ≠ invalidDelta ∧ (table j).delta ≠ delta) ∧
      (search table delta more i < i + more →
        (table (search table delta more i)).delta = invalidDelta ∨
          (table (search table delta more i)).delta = delta) := by
  induction more generalizing i with
  | zero => exact ⟨le_rfl, le_rfl, fun j low high => absurd high (not_lt.2 low),
      fun less => absurd less (lt_irrefl _)⟩
  | succ more ih =>
    rw [search]
    split_ifs with passes
    · obtain ⟨low, high, passed, ends⟩ := ih (i + 1)
      refine ⟨by omega, by omega, fun j from_i below => ?_, fun less => ends (by omega)⟩
      rcases Nat.eq_or_lt_of_le from_i with rfl | later
      · exact passes
      · exact passed j later below
    · refine ⟨le_rfl, by omega, fun j low high => absurd high (not_lt.2 low), fun _ => ?_⟩
      by_contra neither
      exact passes (not_or.1 neither)

theorem slotOf_eq_some {i : ℕ} (found : slotOf c delta table = some i) :
    i < c.tableSize ∧ (table i).delta = delta := by
  rw [slotOf] at found
  split_ifs at found with here
  cases found
  have spec := search_spec table delta c.tableSize 0
  exact ⟨by omega, here.2⟩

/-- A delta that is not found is not in the table. -/
theorem TableFollows.slotOf_eq_none (follows : TableFollows c past table tableHead filled)
    (missing : slotOf c delta table = none) (valid : delta ≠ invalidDelta) :
    ¬ Kept c table delta := by
  rintro ⟨j, inside, same⟩
  rw [slotOf] at missing
  split_ifs at missing with here
  obtain ⟨-, -, passed, ends⟩ := search_spec table delta c.tableSize 0
  rcases Nat.lt_or_ge j (search table delta c.tableSize 0) with before | after
  · exact (passed j (Nat.zero_le j) before).2 same
  · rcases ends (by omega) with invalid | found
    · have empty := mt (follows.valid_iff _ (by omega)).2 (not_not.2 invalid)
      have used := (follows.valid_iff j inside).1 (same.trans_ne valid)
      omega
    · exact here ⟨by omega, found⟩

theorem TableFollows.start (c : Config) :
    TableFollows c [] GhbPrefetcher.create.ghbTable 0 0 where
  filled_le := Nat.zero_le _
  valid_iff i _ := iff_of_false (not_not.2 rfl) (Nat.not_lt_zero i)
  head _ := rfl
  head_lt positive := positive
  distinct i none := absurd none (Nat.not_lt_zero i)
  slot i none := absurd none (Nat.not_lt_zero i)

/-- A new delta behind one that is not in the table. -/
theorem TableFollows.keep (follows : TableFollows c past table tableHead filled)
    (missing : ∀ prevDelta, past.getLast? = some prevDelta → ∀ i < filled,
      (table i).delta ≠ prevDelta) (delta : Int64) :
    TableFollows c (past ++ [delta]) table tableHead filled where
  filled_le := follows.filled_le
  valid_iff := follows.valid_iff
  head := follows.head
  head_lt := follows.head_lt
  distinct := follows.distinct
  slot i inside := by
    rw [followers_concat_of_ne fun last => missing _ last i inside rfl]
    exact follows.slot i inside

/-- The table entry of the last delta, after a new one. -/
def latest (c : Config) (past : List Int64) (prevDelta : Int64) : TableEntry :=
  ⟨past.length % c.ghbSize, prevDelta, past.length / c.ghbSize % 4⟩

/-- An entry of the table, when one of them was set to the last delta. -/
theorem TableFollows.slot_update (follows : TableFollows c past table tableHead filled)
    (last : past.getLast? = some prevDelta) (delta : Int64) (i : ℕ)
    (others : ∀ j < filled, j ≠ i → (table j).delta ≠ prevDelta) {j : ℕ}
    (inside : j = i ∨ j < filled) : ∃ t, (followers (past ++ [delta])
        (Function.update table i (latest c past prevDelta) j).delta).head? = some t ∧
      (Function.update table i (latest c past prevDelta) j).ghbIndex = t % c.ghbSize ∧
      (Function.update table i (latest c past prevDelta) j).generation = t / c.ghbSize % 4 := by
  by_cases same : j = i
  · rw [same, Function.update_self]
    refine ⟨past.length, ?_, rfl, rfl⟩
    rw [latest, followers_concat_self last]
    rfl
  · have before : j < filled := inside.resolve_left same
    rw [Function.update_of_ne same, followers_concat_of_ne fun other => ?_]
    · exact follows.slot j before
    · exact others j before same (Option.some.inj (other.symm.trans last))

/-- The last delta is in the table. -/
theorem TableFollows.set (follows : TableFollows c past table tableHead filled)
    (last : past.getLast? = some prevDelta) (valid : prevDelta ≠ invalidDelta) (delta : Int64)
    {i : ℕ} (inside : i < c.tableSize) (same : (table i).delta = prevDelta) :
    TableFollows c (past ++ [delta]) (Function.update table i (latest c past prevDelta)) tableHead
      filled := by
  have used : i < filled := (follows.valid_iff i inside).1 (same.trans_ne valid)
  have deltas (j : ℕ) :
      (Function.update table i (latest c past prevDelta) j).delta = (table j).delta := by
    by_cases here : j = i
    · rw [here, Function.update_self, same, latest]
    · rw [Function.update_of_ne here]
  refine ⟨follows.filled_le, fun j below => ?_, follows.head, follows.head_lt,
    fun j below k below' equal => ?_, fun j below => ?_⟩
  · rw [deltas]
    exact follows.valid_iff j below
  · rw [deltas, deltas] at equal
    exact follows.distinct j below k below' equal
  · refine follows.slot_update last delta i (fun k below' other equal => other ?_) (Or.inr below)
    exact follows.distinct k below' i used (equal.trans same.symm)

/-- The last delta is not in the table, and is put at its head. -/
theorem TableFollows.add (follows : TableFollows c past table tableHead filled)
    (last : past.getLast? = some prevDelta) (valid : prevDelta ≠ invalidDelta) (delta : Int64)
    (absent : ¬ Kept c table prevDelta) (positive : 0 < c.tableSize) : ∃ filled',
      TableFollows c (past ++ [delta]) (Function.update table tableHead (latest c past prevDelta))
        ((tableHead + 1) % c.tableSize) filled' := by
  have headLt := follows.head_lt positive
  have most := follows.filled_le
  have others (j : ℕ) (below : j < filled) : (table j).delta ≠ prevDelta :=
    fun same => absent ⟨j, by omega, same⟩
  have place : tableHead = filled ∨ filled = c.tableSize := by
    rcases Nat.lt_or_eq_of_le most with room | full
    · exact Or.inl (follows.head room)
    · exact Or.inr full
  have inside (j : ℕ) (below : j < max filled (tableHead + 1)) : j = tableHead ∨ j < filled := by
    omega
  refine ⟨max filled (tableHead + 1), by omega, fun j below => ?_, fun room => ?_,
    fun _ => Nat.mod_lt _ positive, fun j below k below' equal => ?_, fun j below => ?_⟩
  · by_cases here : j = tableHead
    · rw [here, Function.update_self]
      exact iff_of_true valid (by omega)
    · rw [Function.update_of_ne here, follows.valid_iff j below]
      omega
  · rw [Nat.mod_eq_of_lt (by omega)]
    omega
  · by_cases here : j = tableHead
    · by_cases here' : k = tableHead
      · exact here.trans here'.symm
      · rw [here, Function.update_self, Function.update_of_ne here'] at equal
        exact absurd equal.symm (others k ((inside k below').resolve_left here'))
    · by_cases here' : k = tableHead
      · rw [here', Function.update_self, Function.update_of_ne here] at equal
        exact absurd equal (others j ((inside j below).resolve_left here))
      · rw [Function.update_of_ne here, Function.update_of_ne here'] at equal
        exact follows.distinct j ((inside j below).resolve_left here) k
          ((inside k below').resolve_left here') equal
  · exact follows.slot_update last delta tableHead (fun k below' _ => others k below')
      (inside j below)

/-- What the table holds of a delta: nothing, or its last follower, which is in the buffer. -/
theorem TableFollows.live_spec (follows : TableFollows c past table tableHead filled)
    (positive : 0 < c.ghbSize) {ghb : ℕ → GHBEntry} (enough : past.length ≤ n)
    (generations : ∀ t, Recorded c.ghbSize n t →
      (ghb (t % c.ghbSize)).generation = t / c.ghbSize % 4)
    (valid : ¬ Kept c table invalidDelta ∨ delta ≠ invalidDelta)
    (unaliased : Unaliased c table past n delta) :
    live c delta ghb table = .ok none ∨ ∃ t, Kept c table delta ∧
      (followers past delta).head? = some t ∧ Recorded c.ghbSize n t ∧
      live c delta ghb table = .ok (some (t % c.ghbSize)) := by
  rw [live]
  cases found : slotOf c delta table with
  | none => exact Or.inl rfl
  | some i =>
    obtain ⟨inside, same⟩ := slotOf_eq_some found
    have kept : Kept c table delta := ⟨i, inside, same⟩
    have used : i < filled := by
      refine (follows.valid_iff i inside).1 (same.trans_ne fun invalid => ?_)
      exact valid.elim (fun absent => absent (invalid ▸ kept)) fun other => other invalid
    obtain ⟨t, first, index, generation⟩ := follows.slot i used
    rw [same] at first
    have before : t < n :=
      lt_of_lt_of_le (followersBefore_eq_cons (head_followersBefore first)).1 enough
    dsimp only
    rw [index, if_pos (Nat.mod_lt t positive), generation]
    have now := generations _ (recorded_occupant positive before)
    rw [occupant_mod, occupant_div positive] at now
    rw [now]
    split_ifs with equal
    · have zero := unaliased kept t first (by omega)
      exact Or.inr ⟨t, kept, first, (overwritten_eq_zero_iff positive before).1 zero, rfl⟩
    · exact Or.inl rfl

/-! ## The buffer -/

/-- An entry is not linked, or to the entry that followed the same delta before, which was in the
buffer then. -/
def Linked (c : Config) (past : List Int64) (t nextIndex : ℕ) : Prop :=
  nextIndex = invalidIndex ∨ ∃ prevDelta u, past[t - 1]? = some prevDelta ∧
    (followersBefore past prevDelta t).head? = some u ∧ t < u + c.ghbSize ∧
    nextIndex = u % c.ghbSize

/-- The buffer holds the last entries, and nothing where none was written. -/
structure BufferFollows (c : Config) (past : List Int64) (ghb : ℕ → GHBEntry) : Prop where
  entry : ∀ t, Recorded c.ghbSize past.length t →
    past[t]? = some (ghb (t % c.ghbSize)).delta ∧
      (ghb (t % c.ghbSize)).generation = t / c.ghbSize % 4
  link : ∀ t, Recorded c.ghbSize past.length t →
    Linked c past t (ghb (t % c.ghbSize)).nextIndex
  unwritten : ∀ i < c.ghbSize, past.length ≤ i → (ghb i).delta = invalidDelta

variable {ghb : ℕ → GHBEntry}

theorem BufferFollows.start (c : Config) : BufferFollows c [] GhbPrefetcher.create.ghb where
  entry t none := absurd none.1 (Nat.not_lt_zero t)
  link t none := absurd none.1 (Nat.not_lt_zero t)
  unwritten _ _ _ := rfl

theorem Linked.concat {nextIndex : ℕ} (linked : Linked c past t nextIndex)
    (inside : t ≤ past.length) (delta : Int64) : Linked c (past ++ [delta]) t nextIndex := by
  rcases linked with none | ⟨prevDelta, u, last, first, near, same⟩
  · exact Or.inl none
  · refine Or.inr ⟨prevDelta, u, ?_, ?_, near, same⟩
    · rw [List.getElem?_append_left (List.getElem?_eq_some_iff.1 last).1, last]
    · rw [followersBefore_concat (Nat.le_succ_of_le inside), first]

/-- **A new entry** at the head. -/
theorem BufferFollows.push (follows : BufferFollows c past ghb) (positive : 0 < c.ghbSize)
    (entry : GHBEntry) (generation : entry.generation = past.length / c.ghbSize % 4)
    (linked : Linked c past past.length entry.nextIndex) :
    BufferFollows c (past ++ [entry.delta])
      (Function.update ghb (past.length % c.ghbSize) entry) := by
  have split (t : ℕ) (here : Recorded c.ghbSize (past ++ [entry.delta]).length t) :
      t = past.length ∨ Recorded c.ghbSize past.length t ∧
        t % c.ghbSize ≠ past.length % c.ghbSize := by
    rw [List.length_append, List.length_singleton] at here
    exact (recorded_succ positive).1 here
  refine ⟨fun t here => ?_, fun t here => ?_, fun i inside unwritten => ?_⟩
  · rcases split t here with rfl | ⟨old, place⟩
    · rw [Function.update_self, List.getElem?_concat_length]
      exact ⟨rfl, generation⟩
    · rw [Function.update_of_ne place, List.getElem?_append_left old.1]
      exact follows.entry t old
  · rcases split t here with rfl | ⟨old, place⟩
    · rw [Function.update_self]
      exact linked.concat le_rfl _
    · rw [Function.update_of_ne place]
      exact (follows.link t old).concat old.1.le _
  · rw [List.length_append, List.length_singleton] at unwritten
    have other : i ≠ past.length % c.ghbSize := by
      rw [Nat.mod_eq_of_lt (by omega)]
      omega
    rw [Function.update_of_ne other]
    exact follows.unwritten i inside (by omega)

/-! ## Pushing a delta -/

/-- The state is that of the history. -/
structure Follows (c : Config) (past : List Int64) (s : GhbPrefetcher) : Prop where
  head : s.ghbHead = past.length % c.ghbSize
  generation : s.generation = past.length / c.ghbSize % 4
  buffer : BufferFollows c past s.ghb
  table : ∃ filled, TableFollows c past s.ghbTable s.tableHead filled

variable {s : GhbPrefetcher}

theorem Follows.start (c : Config) : Follows c [] .create where
  head := (Nat.zero_mod _).symm
  generation := by rw [List.length_nil, Nat.zero_div]; rfl
  buffer := .start c
  table := ⟨0, .start c⟩

/-- The place before the head has the last delta. -/
theorem Follows.prevDelta_eq (follows : Follows c past s) (two : 2 ≤ c.ghbSize) (entry : GHBEntry) :
    (Function.update s.ghb s.ghbHead entry
      (if s.ghbHead > 0 then s.ghbHead - 1 else c.ghbSize - 1)).delta =
      past.getLast?.getD invalidDelta := by
  have positive : 0 < c.ghbSize := by omega
  rcases Nat.eq_zero_or_pos past.length with zero | some
  · have nil := List.length_eq_zero_iff.1 zero
    have head : s.ghbHead = 0 := by rw [follows.head, zero, Nat.zero_mod]
    rw [head, if_neg (lt_irrefl 0), Function.update_of_ne (by omega), nil]
    exact follows.buffer.unwritten _ (by omega) (by omega)
  · obtain ⟨last, length⟩ : ∃ last, past.length = last + 1 := ⟨past.length - 1, by omega⟩
    have place : (if s.ghbHead > 0 then s.ghbHead - 1 else c.ghbSize - 1) = last % c.ghbSize ∧
        last % c.ghbSize ≠ s.ghbHead := by
      rw [follows.head, length]
      rcases succ_place (n := last) positive with ⟨end_, first, -⟩ | ⟨-, next, -⟩
      · rw [first, if_neg (lt_irrefl 0)]
        omega
      · rw [next, if_pos (Nat.succ_pos _)]
        omega
    rw [place.1, Function.update_of_ne place.2, getLast?_eq, length, Nat.add_sub_cancel]
    rw [(follows.buffer.entry last ⟨by omega, by omega⟩).1]
    rfl

/-- The buffer and the table have a new entry, but the head is still at it. -/
structure Written (c : Config) (past : List Int64) (delta : Int64) (s : GhbPrefetcher) :
    Prop where
  head : s.ghbHead = past.length % c.ghbSize
  generation : s.generation = past.length / c.ghbSize % 4
  buffer : BufferFollows c (past ++ [delta]) s.ghb
  table : ∃ filled, TableFollows c (past ++ [delta]) s.ghbTable s.tableHead filled

/-- The state with a new entry that is not linked. -/
def GhbPrefetcher.put (delta : Int64) (s : GhbPrefetcher) : GhbPrefetcher :=
  { s with ghb := Function.update s.ghb s.ghbHead ⟨invalidIndex, delta, s.generation⟩ }

theorem put_ghbTable (delta : Int64) (s : GhbPrefetcher) : (s.put delta).ghbTable = s.ghbTable :=
  rfl

theorem Follows.put_buffer (follows : Follows c past s) (positive : 0 < c.ghbSize) (delta : Int64) :
    BufferFollows c (past ++ [delta]) (s.put delta).ghb := by
  have pushed := follows.buffer.push positive ⟨invalidIndex, delta, s.generation⟩
    follows.generation (Or.inl rfl)
  rwa [← follows.head] at pushed

/-- **Linking** the new entry. -/
theorem Follows.link_spec (follows : Follows c past s) (positive : 0 < c.ghbSize)
    (last : past.getLast? = some prevDelta) (valid : prevDelta ≠ invalidDelta)
    (some : 0 < c.tableSize)
    (unaliased : Unaliased c s.ghbTable past (past.length + 1) prevDelta) (delta : Int64) :
    ∃ t, GhbPrefetchers.link c prevDelta (s.put delta) = .ok t ∧ Written c past delta t := by
  obtain ⟨filled, table⟩ := follows.table
  have buffer := follows.put_buffer positive delta
  have found := table.live_spec positive (Nat.le_succ past.length) (fun t here =>
    (buffer.entry t (by rwa [List.length_append, List.length_singleton])).2) (Or.inr valid)
    unaliased
  have entry : past.length % c.ghbSize = s.ghbHead ∧
      past.length / c.ghbSize % 4 = s.generation := ⟨follows.head.symm, follows.generation.symm⟩
  rw [GhbPrefetchers.link]
  cases place : slotOf c prevDelta s.ghbTable with
  | none =>
    have nothing : live c prevDelta (s.put delta).ghb s.ghbTable = .ok none := by
      rw [live, place]
    obtain ⟨filled', table'⟩ := table.add last valid delta
      (table.slotOf_eq_none place valid) some
    rw [latest, entry.1, entry.2] at table'
    rw [put_ghbTable, nothing, ok_bind, place]
    exact ⟨_, if_pos (table.head_lt some), follows.head, follows.generation, buffer, filled',
      table'⟩
  | some i =>
    obtain ⟨inside, same⟩ := slotOf_eq_some place
    have table' := table.set last valid delta inside same
    rw [latest, entry.1, entry.2] at table'
    obtain ⟨nextIndex, ran, linked⟩ : ∃ nextIndex,
        live c prevDelta (s.put delta).ghb s.ghbTable = .ok nextIndex ∧
          Linked c past past.length (nextIndex.getD invalidIndex) := by
      rcases found with ran | ⟨t, -, first, here, ran⟩
      · exact ⟨none, ran, Or.inl rfl⟩
      · refine ⟨_, ran, Or.inr ⟨prevDelta, t, ?_, first, here.2, rfl⟩⟩
        rw [← getLast?_eq, last]
    have linkedBuffer := follows.buffer.push positive
      ⟨nextIndex.getD invalidIndex, delta, s.generation⟩ follows.generation linked
    rw [entry.1] at linkedBuffer
    rw [put_ghbTable, ran, ok_bind, place]
    refine ⟨_, rfl, follows.head, follows.generation, ?_, filled, table'⟩
    dsimp only [GhbPrefetcher.put]
    rw [Function.update_self, Function.update_idem]
    exact linkedBuffer

/-- The head goes on to the next place. -/
theorem Written.advanceHead (written : Written c past delta s) (positive : 0 < c.ghbSize) :
    Follows c (past ++ [delta]) (advanceHead c s) := by
  have length : (past ++ [delta]).length = past.length + 1 := by
    rw [List.length_append, List.length_singleton]
  rw [GhbPrefetchers.advanceHead, written.head]
  rcases succ_place (n := past.length) positive with ⟨last, place, lap⟩ | ⟨inside, place, lap⟩
  · rw [if_pos last]
    refine ⟨?_, ?_, written.buffer, written.table⟩
    · rw [length, place]
    · rw [length, lap]
      change (s.generation + 1) % 4 = _
      rw [written.generation]
      omega
  · rw [if_neg inside.ne]
    refine ⟨?_, ?_, written.buffer, written.table⟩
    · rw [length, place]
    · rw [length, lap]
      exact written.generation

/-- **A new delta** is recorded. -/
theorem Follows.push_spec (follows : Follows c past s) (two : 2 ≤ c.ghbSize)
    (some : ∀ prevDelta, past.getLast? = some prevDelta → prevDelta ≠ invalidDelta →
      0 < c.tableSize) (unaliased : ∀ prevDelta, past.getLast? = .some prevDelta →
      Unaliased c s.ghbTable past (past.length + 1) prevDelta) (delta : Int64) :
    ∃ t, GhbPrefetchers.push c delta s = .ok t ∧ Follows c (past ++ [delta]) t := by
  have positive : 0 < c.ghbSize := by omega
  have inside : s.ghbHead < c.ghbSize := by
    rw [follows.head]
    exact Nat.mod_lt _ positive
  have written : ∃ t, linkPrevious c (past.getLast?.getD invalidDelta) (s.put delta) = .ok t ∧
      Written c past delta t := by
    obtain ⟨filled, table⟩ := follows.table
    cases last : past.getLast? with
    | none =>
      refine ⟨_, if_neg (not_not.2 rfl), follows.head, follows.generation,
        follows.put_buffer positive delta, filled, table.keep (fun prevDelta other => ?_) delta⟩
      cases last.symm.trans other
    | some prevDelta =>
      by_cases valid : prevDelta = invalidDelta
      · refine ⟨_, if_neg (not_not.2 valid), follows.head, follows.generation,
          follows.put_buffer positive delta, filled,
          table.keep (fun other same i used => ?_) delta⟩
        cases last.symm.trans same
        have most := table.filled_le
        rw [valid]
        exact (table.valid_iff i (by omega)).2 used
      · obtain ⟨t, linked, done⟩ := follows.link_spec positive last valid (some _ last valid)
          (unaliased _ last) delta
        exact ⟨t, (if_pos valid).trans linked, done⟩
  obtain ⟨t, ran, done⟩ := written
  refine ⟨_, ?_, done.advanceHead positive⟩
  rw [GhbPrefetchers.push, if_pos inside]
  dsimp only
  rw [follows.prevDelta_eq two]
  change (linkPrevious c _ (s.put delta) >>= _) = _
  rw [ran]
  rfl

/-! ## Walks -/

theorem mem_addAddress {address a : UInt64} {list : List UInt64} :
    a ∈ addAddress address list ↔ a ∈ list ∨ a = address := by
  rw [addAddress]
  split_ifs with there
  · exact ⟨Or.inl, fun either => either.elim id fun same => same ▸ there⟩
  · rw [List.mem_append, List.mem_singleton]

theorem advance_succ {k : ℕ} (address : UInt64) (here : past[t + k]? = some delta) :
    advance address ((past.drop t).take (k + 1)) =
      advance address ((past.drop t).take k) + delta.toUInt64 := by
  rw [List.take_add_one, List.getElem?_drop, here, advance, List.foldl_append]
  rfl

/-- An entry that the loop over the depth reads. -/
theorem BufferFollows.getElem?_eq (follows : BufferFollows c past ghb) {k : ℕ}
    (here : Recorded c.ghbSize past.length t) (inside : t + k < past.length) :
    past[t + k]? = some (ghb ((t + k) % c.ghbSize)).delta :=
  (follows.entry (t + k) ⟨inside, by
    have := here.2
    omega⟩).1

/-- **The loop over the depth** adds deltas that are in the buffer one after the other. -/
theorem BufferFollows.depthLoop (follows : BufferFollows c past ghb)
    (here : Recorded c.ghbSize past.length t) (ends : EndsInTime c ghb past.length t)
    (address : UInt64) {good : UInt64 → Prop}
    (sums : ∀ k, t + k < past.length → good (advance address ((past.drop t).take (k + 1))))
    (more depth : ℕ) (total : depth + more = c.prefetchDepth) (reached : t + depth ≤ past.length)
    (valid : ∀ k < depth, (ghb ((t + k) % c.ghbSize)).delta ≠ invalidDelta)
    {list : List UInt64} (old : ∀ a ∈ list, good a) :
    ∀ a ∈ depthLoop c ghb (t % c.ghbSize) more depth (advance address ((past.drop t).take depth))
      list, good a := by
  induction more generalizing depth list with
  | zero => exact old
  | succ more ih =>
    have index : (t % c.ghbSize + depth) % 2 ^ 32 % c.ghbSize = (t + depth) % c.ghbSize := by
      rw [Nat.mod_eq_of_lt (ends.small depth (by omega) reached), Nat.mod_add_mod]
    rw [GhbPrefetchers.depthLoop, index]
    by_cases invalid : (ghb ((t + depth) % c.ghbSize)).delta = invalidDelta
    · rw [if_pos invalid]
      exact old
    · have inside : t + depth < past.length := by
        refine lt_of_le_of_ne reached fun last => ?_
        rcases ends.ends with before | ⟨k, within, stops⟩
        · omega
        · rcases Nat.lt_or_ge k depth with earlier | later
          · exact valid k earlier stops
          · exact invalid ((show k = depth by omega) ▸ stops)
      have next := advance_succ address (follows.getElem?_eq here inside)
      rw [if_neg invalid]
      dsimp only
      rw [← next]
      refine ih (depth + 1) (by omega) inside (fun k below => ?_) fun a member => ?_
      · rcases Nat.lt_succ_iff_lt_or_eq.1 below with earlier | rfl
        · exact valid k earlier
        · exact invalid
      · exact (mem_addAddress.1 member).elim (old a) fun same => same ▸ sums depth inside

/-- Where the loop over the width goes on from an entry: nowhere, or to the entry that followed the
same delta before, which is in the buffer. -/
theorem BufferFollows.goesOn (follows : BufferFollows c past ghb)
    (here : Recorded c.ghbSize past.length t) (last : past[t - 1]? = some delta)
    (recognised : (ghb (t % c.ghbSize)).nextIndex ≠ invalidIndex →
      Recognised (past.length % c.ghbSize) (t % c.ghbSize) (ghb (t % c.ghbSize)).nextIndex) :
    goesOn (past.length % c.ghbSize) (t % c.ghbSize) (ghb (t % c.ghbSize)).nextIndex =
        invalidIndex ∨
      ∃ u, goesOn (past.length % c.ghbSize) (t % c.ghbSize) (ghb (t % c.ghbSize)).nextIndex =
          u % c.ghbSize ∧ (ghb (t % c.ghbSize)).nextIndex ≠ invalidIndex ∧
        (followersBefore past delta t).head? = some u ∧ Recorded c.ghbSize past.length u := by
  rw [GhbPrefetchers.goesOn]
  split_ifs with gone
  · exact Or.inl rfl
  · rcases follows.link t here with none | ⟨prevDelta, u, last', first, near, same⟩
    · exact Or.inl none
    · cases last.symm.trans last'
      have positive : 0 < c.ghbSize := by
        have := here.1
        have := here.2
        omega
      have valid : (ghb (t % c.ghbSize)).nextIndex ≠ invalidIndex := by
        have := Nat.mod_lt u positive
        have := c.ghbSize_lt
        rw [same, invalidIndex]
        omega
      have sound := recognised valid
      rw [same] at gone sound valid
      have older := (followersBefore_eq_cons (head_followersBefore first)).1
      refine Or.inr ⟨u, same, same ▸ valid, first, here.of_link older near sound gone⟩

theorem mod_ne_invalidIndex (positive : 0 < c.ghbSize) (t : ℕ) :
    t % c.ghbSize ≠ invalidIndex := by
  have := Nat.mod_lt t positive
  have := c.ghbSize_lt
  rw [invalidIndex]
  omega

theorem Recorded.positive {N : ℕ} (here : Recorded N n t) : 0 < N := by
  obtain ⟨before, near⟩ := here
  omega

/-- The loops end at an index that is not valid. -/
theorem widthLoop_invalid (ghbHead : ℕ) (address : UInt64) (width : ℕ) (list : List UInt64) :
    widthLoop c ghbHead ghb address width invalidIndex list = .ok list ∧
      visits ghbHead ghb width invalidIndex = [] := by
  cases width <;> exact ⟨rfl, rfl⟩

/-- **The loop over the width** goes through entries that followed the delta and are in the buffer,
and the addresses that it adds happened. -/
theorem BufferFollows.widthLoop (follows : BufferFollows c past ghb) (address : UInt64)
    (good : UInt64 → Prop)
    (sums : ∀ t ∈ followers past delta, Recorded c.ghbSize past.length t → ∀ k,
      t + k < past.length → good (advance address ((past.drop t).take (k + 1))))
    (width : ℕ) (here : Recorded c.ghbSize past.length t) (before : List ℕ)
    (chain : followers past delta = before ++ t :: followersBefore past delta t)
    (last : past[t - 1]? = some delta)
    (sound : Sound c ghb past.length width (t :: followersBefore past delta t))
    {list : List UInt64} (old : ∀ a ∈ list, good a) :
    (∃ list', widthLoop c (past.length % c.ghbSize) ghb address width (t % c.ghbSize) list =
      .ok list' ∧ ∀ a ∈ list', good a) ∧ ∃ times, times <+: t :: followersBefore past delta t ∧
      visits (past.length % c.ghbSize) ghb width (t % c.ghbSize) = times.map (· % c.ghbSize) ∧
      ∀ u ∈ times, Recorded c.ghbSize past.length u := by
  have member (u : ℕ) (among : u ∈ t :: followersBefore past delta t) : u ∈ followers past delta :=
    chain ▸ List.mem_append_right _ among
  induction width generalizing t before list with
  | zero => exact ⟨⟨list, rfl, old⟩, [], List.nil_prefix, rfl, nofun⟩
  | succ width ih =>
    obtain ⟨ends, links⟩ := sound here
    have positive := Recorded.positive here
    have added := follows.depthLoop here ends address
      (sums t (member t List.mem_cons_self) here) c.prefetchDepth 0 (Nat.zero_add _) here.1.le
      nofun old
    rw [GhbPrefetchers.widthLoop, if_neg (mod_ne_invalidIndex positive t),
      if_pos (Nat.mod_lt t positive), visits, if_neg (mod_ne_invalidIndex positive t)]
    rcases follows.goesOn here last fun valid => (links valid).1 with
      stops | ⟨u, next, valid, first, here'⟩
    · rw [stops, (widthLoop_invalid ..).1, (@widthLoop_invalid c ghb _ 0 _ []).2]
      refine ⟨⟨_, rfl, added⟩, [t], ?_, rfl, fun u among => ?_⟩
      · exact List.cons_prefix_cons.2 ⟨rfl, List.nil_prefix⟩
      · rw [List.mem_singleton.1 among]
        exact here
    · have older := head_followersBefore first
      have sound' := (links valid).2 (next ▸ mod_ne_invalidIndex positive u)
      rw [older] at sound' chain member ⊢
      have chain' :
          followers past delta = (before ++ [t]) ++ u :: followersBefore past delta u := by
        rw [chain, List.append_assoc]
        rfl
      rw [next]
      obtain ⟨ran, times, isPrefix, same, live⟩ := ih here' _ chain'
        (followersBefore_eq_cons older).2.2.1 sound' added
        fun u among => member u (List.mem_cons_of_mem _ among)
      refine ⟨ran, t :: times, List.cons_prefix_cons.2 ⟨rfl, isPrefix⟩, ?_, ?_⟩
      · rw [same, List.map_cons]
      · exact List.forall_mem_cons.2 ⟨here, live⟩

/-! ## Runs -/

/-- **The prediction** of a careful step. -/
theorem Follows.predict_spec {r : Recorder} {address : UInt64} (follows : Follows c r.past r.state)
    (proper : Proper c r address) : ∃ list,
      predict c address (r.state.deltaTo address) { r.state with lastAddress := address } =
        .ok list ∧
      (∀ a ∈ list, Happened c r.past (r.state.deltaTo address) address a) ∧
      ∀ ghbIndex, live c (r.state.deltaTo address) r.state.ghb r.state.ghbTable =
          .ok (some ghbIndex) →
        WalksLive c r.past (r.state.deltaTo address)
          (visits r.state.ghbHead r.state.ghb c.prefetchWidth ghbIndex) := by
  obtain ⟨filled, table⟩ := follows.table
  have positive : 0 < c.ghbSize := lt_of_lt_of_le Nat.two_pos proper.buffer
  rw [predict]
  dsimp only
  rcases table.live_spec positive le_rfl (fun t here => (follows.buffer.entry t here).2)
    proper.valid proper.current with nothing | ⟨t, kept, first, here, found⟩
  · rw [nothing]
    exact ⟨[], rfl, nofun, nofun⟩
  · have chain := head_followersBefore first
    have sound := proper.walk kept
    rw [followers, chain] at sound
    obtain ⟨⟨list, ran, good⟩, walks⟩ := follows.buffer.widthLoop address
      (Happened c r.past (r.state.deltaTo address) address)
      (fun u among here k inside => ⟨u, among, here, k, inside, rfl⟩) c.prefetchWidth here
      [] chain (followersBefore_eq_cons chain).2.2.1 sound
      fun a none => absurd none List.not_mem_nil
    rw [found, follows.head]
    refine ⟨list, ran, good, fun ghbIndex same => ?_⟩
    cases same
    rw [← chain] at walks
    exact walks

/-- **One access**. -/
theorem Follows.step_spec {r : Recorder} {address : UInt64} (follows : Follows c r.past r.state)
    (careful : Careful c r address) : Predicts c r address ∧
      ∃ r', step c address r = .ok r' ∧ Follows c r'.past r'.state := by
  by_cases first : r.state.lastAddress = invalidAddress
  · have ran : getNextAddress c address r.state =
        .ok ([], { r.state with lastAddress := address }) := by
      rw [getNextAddress, if_pos first]
    refine ⟨⟨_, _, ran, ?_⟩, ⟨{ r.state with lastAddress := address }, r.past⟩, ?_, ?_⟩
    · rw [if_pos first]
    · rw [step, ran, ok_bind, if_pos first]
    · exact ⟨follows.head, follows.generation, follows.buffer, follows.table⟩
  · have proper := careful first
    obtain ⟨list, predicted, good⟩ := follows.predict_spec proper
    have moved : Follows c r.past { r.state with lastAddress := address } :=
      ⟨follows.head, follows.generation, follows.buffer, follows.table⟩
    obtain ⟨s, pushed, follows'⟩ := moved.push_spec proper.buffer proper.table proper.previous
      (r.state.deltaTo address)
    have ran : getNextAddress c address r.state = .ok (list, s) := by
      rw [getNextAddress, if_neg first]
      change (predict c address (r.state.deltaTo address) _ >>= _) = _
      rw [predicted, ok_bind]
      change (push c (r.state.deltaTo address) _ >>= _) = _
      rw [pushed]
      rfl
    refine ⟨⟨list, s, ran, ?_⟩, ⟨s, r.past ++ [r.state.deltaTo address]⟩, ?_, follows'⟩
    · rw [if_neg first]
      exact good
    · rw [step, ran, ok_bind, if_neg first]

/-- **The GHB prefetcher** predicts only what happened, all along a run of careful accesses. -/
theorem predicts (c : Config) (addresses : List UInt64)
    (careful : Along (Careful c) (step c) addresses .start) :
    Along (Predicts c) (step c) addresses .start := by
  have initial : (fun r : Recorder => Follows c r.past r.state) .start := Follows.start c
  refine careful.imp (fun address r now follows => (Follows.step_spec follows now).1)
    (fun address r r' now follows moved => ?_) initial
  obtain ⟨-, other, again, kept⟩ := Follows.step_spec follows now
  cases moved.symm.trans again
  exact kept

/-- A buffer and a table of two entries each. -/
def small (depth : ℕ) : Config := ⟨1, depth, 2, 2, by decide, by decide⟩

theorem predicts_small : Along (Predicts (small 1)) (step (small 1)) [0, 1, 3, 4] .start := by
  refine predicts (small 1) [0, 1, 3, 4] ⟨fun first => absurd rfl first, fun t moved => ?_⟩
  cases moved
  refine ⟨fun _ => ⟨by decide, nofun, Or.inr (by decide), nofun, nofun, fun _ => trivial⟩,
    fun t moved => ?_⟩
  cases moved
  refine ⟨fun _ => ⟨by decide, fun _ _ _ => by decide, Or.inr (by decide), nofun, ?_,
    fun _ => trivial⟩, fun t moved => ?_⟩
  · rintro _ last _ t first
    cases last
    cases first
  cases moved
  refine ⟨fun _ => ⟨by decide, fun _ _ _ => by decide, Or.inr (by decide), ?_, ?_, ?_⟩,
    fun _ _ => trivial⟩
  · rintro _ t first -
    cases first
    rfl
  · rintro _ last _ t first
    cases last
    cases first
  · intro _
    change Recorded 2 2 1 → _
    refine fun _ => ⟨⟨Or.inl (by decide), fun k below _ => ?_⟩, fun linked => absurd rfl linked⟩
    change k < 1 at below
    change 1 + k < 2 ^ 32
    omega

/-- With a depth of two the loop goes on to the oldest entry of the full buffer: after the deltas 1
and 2, and 1 again, it predicts 7, but only 2 followed the first delta. -/
theorem not_predicts_small :
    ¬ Along (Predicts (small 2)) (step (small 2)) [0, 1, 3, 4] .start := by
  rintro ⟨-, along⟩
  obtain ⟨-, along⟩ := along _ rfl
  obtain ⟨-, along⟩ := along _ rfl
  obtain ⟨⟨list, t, ran, good⟩, -⟩ := along _ rfl
  cases ran
  obtain ⟨u, among, -, k, inside, same⟩ := good.1 7 (by decide)
  have first : u = 1 := List.mem_singleton.1 among
  subst first
  change 1 + k < 2 at inside
  obtain rfl : k = 0 := by omega
  exact absurd same (by decide)

end GpuHotSpot.Common.GhbPrefetchers
