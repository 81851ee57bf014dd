import Mathlib
import GpuHotSpot.Lib.Machine

/-!
# Caches

`common/core/memory_subsystem/cache/cache.cc`, `cache_base.cc` and `cache_set.cc`: a cache with data
arrays, for any number of sets, address hash and replacement policy.

* `WellPlaced`: each valid line is in the set of its address, and there once.
* `peekSingleLine_eq_some`: in such a cache, a line is found where it is.
* `WellPlaced.insert`: a line that is not in the cache can be put at any place of its set.
-/

namespace GpuHotSpot.Common.Caches

open Fallible

/-! ## Lines -/

/-- `CacheState::cstate_t`. -/
inductive CState
  | invalid
  | shared
  | sharedUpgrading
  | exclusive
  | owned
  | modified
  deriving DecidableEq, Repr

/-- The tag of an invalid line, `~0` in 64 bits. -/
def invalidTag : ℕ := 2 ^ 64 - 1

/-- `CacheBlockInfo`; of the options only `PREFETCH` is used. -/
structure BlockInfo where
  tag : ℕ
  cstate : CState
  prefetch : Bool
  deriving DecidableEq, Repr

/-- `CacheBlockInfo::isValid`. -/
def BlockInfo.isValid (info : BlockInfo) : Prop := info.tag ≠ invalidTag

instance (info : BlockInfo) : Decidable info.isValid := inferInstanceAs (Decidable (_ ≠ _))

/-- A line: its info and its part of `m_blocks`. -/
structure Line (D : Type) where
  info : BlockInfo
  data : D

/-- The failures: a replacement policy that finds no line, and its index out of range. -/
inductive Assertion
  | noReplacement
  | indexOutOfRange
  | lineGone
  deriving DecidableEq, Repr

/-! ## The code -/

/-- The parameters of a cache; `setIndex` is that of `splitAddress`. -/
structure Geometry where
  logBlocksize : ℕ
  associativity : ℕ
  setIndex : ℕ → ℕ

/-- The tag of `splitAddress`. -/
def Geometry.tag (g : Geometry) (address : ℕ) : ℕ := address >>> g.logBlocksize

def Geometry.tagToAddress (g : Geometry) (tag : ℕ) : ℕ := tag <<< g.logBlocksize

/-- A replacement policy with the state that it keeps for a set. -/
structure Replacement (R : Type) where
  getReplacementIndex : R → (ℕ → BlockInfo) → Option (ℕ × R)
  updateReplacementIndex : R → ℕ → R

/-- The lines by set and index, and the replacement state of the sets. -/
structure Cache (D R : Type) where
  lines : ℕ → ℕ → Line D
  replacement : ℕ → R

variable {D R : Type}

def Cache.setLine (set index : ℕ) (line : Line D) (c : Cache D R) : Cache D R :=
  { c with lines := Function.update c.lines set (Function.update (c.lines set) index line) }

def Cache.setReplacement (set : ℕ) (r : R) (c : Cache D R) : Cache D R :=
  { c with replacement := Function.update c.replacement set r }

inductive Access
  | load
  | store
  deriving DecidableEq, Repr

section Code

variable (g : Geometry) (replacement : Replacement R)

/-- `CacheSet::find`: the index of the line, from the last one to the first. -/
def find (set tag : ℕ) (c : Cache D R) : Option ℕ :=
  (List.range g.associativity).reverse.find? fun index => (c.lines set index).info.tag = tag

/-- `Cache::peekSingleLine`. -/
def peekSingleLine (address : ℕ) (c : Cache D R) : Option ℕ :=
  find g (g.setIndex address) (g.tag address) c

/-- A change of the info of a line that `peekSingleLine` found. -/
def setInfo (address : ℕ) (f : BlockInfo → BlockInfo) (c : Cache D R) :
    Except Assertion (Cache D R) :=
  match peekSingleLine g address c with
  | none => .error .lineGone
  | some index =>
    let line := c.lines (g.setIndex address) index
    .ok (c.setLine (g.setIndex address) index { line with info := f line.info })

/-- `Cache::accessSingleLine` for a whole line at a given index, with `update_replacement`: the data
in the buffer after it. -/
def accessSingleLine (address index : ℕ) (access : Access) (buff : D) (c : Cache D R) :
    D × Cache D R :=
  let set := g.setIndex address
  let c := c.setReplacement set (replacement.updateReplacementIndex (c.replacement set) index)
  match access with
  | .load => ((c.lines set index).data, c)
  | .store => (buff, c.setLine set index { c.lines set index with data := buff })

/-- `Cache::insertSingleLine` with `CacheSet::insert`: the line that is evicted. -/
def insertSingleLine (address : ℕ) (fillBuff : D) (c : Cache D R) :
    Except Assertion (Option (Line D) × Cache D R) :=
  let set := g.setIndex address
  match replacement.getReplacementIndex (c.replacement set) fun i => (c.lines set i).info with
  | none => .error .noReplacement
  | some (index, r) =>
    if index < g.associativity then
      let old := c.lines set index
      .ok (if old.info.isValid then some old else none,
        (c.setReplacement set r).setLine set index
          ⟨⟨g.tag address, .invalid, false⟩, fillBuff⟩)
    else .error .indexOutOfRange

end Code

/-! ## Where the lines are -/

variable {g : Geometry} {replacement : Replacement R} {c : Cache D R} {a b set index : ℕ}

@[simp] theorem lines_setReplacement (r : R) : (c.setReplacement set r).lines = c.lines := rfl

theorem lines_setLine (line : Line D) (set' index' : ℕ) :
    (c.setLine set index line).lines set' index' =
      if set' = set ∧ index' = index then line else c.lines set' index' := by
  by_cases sameSet : set' = set
  · subst sameSet
    by_cases sameIndex : index' = index
    · subst sameIndex
      simp [Cache.setLine]
    · simp [Cache.setLine, sameIndex]
  · simp [Cache.setLine, sameSet]

theorem lines_setLine_self (line : Line D) :
    (c.setLine set index line).lines set index = line := by
  rw [lines_setLine, if_pos ⟨rfl, rfl⟩]

/-- An address is that of a line. -/
structure IsLine (g : Geometry) (address : ℕ) : Prop where
  aligned : g.tagToAddress (g.tag address) = address
  valid : g.tag address ≠ invalidTag

/-- Addresses of lines are told apart by their tags. -/
theorem IsLine.eq_of_tag (line : IsLine g a) (other : IsLine g b) (same : g.tag a = g.tag b) :
    a = b := by
  rw [← line.aligned, ← other.aligned, same]

/-- Each valid line is in the set of its address, and there once. -/
structure WellPlaced (g : Geometry) (c : Cache D R) : Prop where
  home : ∀ set index, index < g.associativity → (c.lines set index).info.isValid →
    ∃ a, IsLine g a ∧ g.tag a = (c.lines set index).info.tag ∧ g.setIndex a = set
  once : ∀ set i j, i < g.associativity → j < g.associativity → (c.lines set i).info.isValid →
    (c.lines set i).info.tag = (c.lines set j).info.tag → i = j

/-- The line of an address is at an index of its set. -/
structure At (g : Geometry) (c : Cache D R) (a index : ℕ) : Prop where
  inside : index < g.associativity
  tag : (c.lines (g.setIndex a) index).info.tag = g.tag a

theorem At.unique (placed : WellPlaced g c) (line : IsLine g a) {i j : ℕ} (first : At g c a i)
    (second : At g c a j) : i = j := by
  refine placed.once (g.setIndex a) i j first.inside second.inside ?_ ?_
  · rw [BlockInfo.isValid, first.tag]
    exact line.valid
  · rw [first.tag, second.tag]

theorem at_of_peek (found : peekSingleLine g a c = some index) : At g c a index := by
  have member := List.mem_of_find?_eq_some found
  have tag := List.find?_some found
  exact ⟨List.mem_range.1 (List.mem_reverse.1 member), of_decide_eq_true tag⟩

/-- A line is found where it is. -/
theorem peekSingleLine_eq_some (placed : WellPlaced g c) (line : IsLine g a)
    (here : At g c a index) : peekSingleLine g a c = some index := by
  cases found : peekSingleLine g a c with
  | none =>
    have missing := List.find?_eq_none.1 found index
      (List.mem_reverse.2 (List.mem_range.2 here.inside))
    exact absurd (decide_eq_true here.tag) missing
  | some i => rw [At.unique placed line (at_of_peek found) here]

theorem not_at_of_peek (missing : peekSingleLine g a c = none) : ¬ At g c a index := by
  intro here
  have absent := List.find?_eq_none.1 missing index
    (List.mem_reverse.2 (List.mem_range.2 here.inside))
  exact absent (decide_eq_true here.tag)

/-! ## Changing a line -/

/-- A change that keeps the tags keeps the places. -/
theorem WellPlaced.congr {c' : Cache D R} (placed : WellPlaced g c)
    (tags : ∀ set i, (c'.lines set i).info.tag = (c.lines set i).info.tag) : WellPlaced g c' where
  home set i inside valid := by
    rw [BlockInfo.isValid, tags] at valid
    rw [tags]
    exact placed.home set i inside valid
  once set i j first second valid same := by
    rw [BlockInfo.isValid, tags] at valid
    rw [tags, tags] at same
    exact placed.once set i j first second valid same

theorem At.congr {c' : Cache D R}
    (tags : ∀ set i, (c'.lines set i).info.tag = (c.lines set i).info.tag) :
    At g c' a index ↔ At g c a index :=
  ⟨fun here => ⟨here.inside, (tags _ _).symm.trans here.tag⟩,
    fun here => ⟨here.inside, (tags _ _).trans here.tag⟩⟩

theorem peekSingleLine_congr {c' : Cache D R}
    (tags : ∀ set i, (c'.lines set i).info.tag = (c.lines set i).info.tag) :
    peekSingleLine g a c' = peekSingleLine g a c := by
  simp only [peekSingleLine, find, tags]

/-- A line that keeps its tag. -/
theorem tag_setLine {line : Line D} (same : line.info.tag = (c.lines set index).info.tag)
    (set' i : ℕ) :
    ((c.setLine set index line).lines set' i).info.tag = (c.lines set' i).info.tag := by
  rw [lines_setLine]
  by_cases here : set' = set ∧ i = index
  · rw [if_pos here, here.1, here.2]
    exact same
  · rw [if_neg here]

/-- **Inserting.** A line that is not in the cache can be put at any place of its set. -/
theorem WellPlaced.insert (placed : WellPlaced g c) (isLine : IsLine g a)
    (absent : ∀ i, ¬ At g c a i) {line : Line D}
    (tag : line.info.tag = g.tag a) : WellPlaced g (c.setLine (g.setIndex a) index line) where
  home set i inside valid := by
    rw [lines_setLine] at valid ⊢
    by_cases here : set = g.setIndex a ∧ i = index
    · rw [if_pos here]
      exact ⟨a, isLine, tag.symm, here.1.symm⟩
    · rw [if_neg here] at valid ⊢
      exact placed.home set i inside valid
  once set i j first second valid same := by
    rw [lines_setLine, lines_setLine] at same
    rw [lines_setLine] at valid
    by_cases here : set = g.setIndex a ∧ i = index
    · by_cases there : set = g.setIndex a ∧ j = index
      · exact here.2.trans there.2.symm
      · rw [if_pos here, if_neg there, tag, here.1] at same
        exact absurd ⟨second, same.symm⟩ (absent j)
    · rw [if_neg here] at valid same
      by_cases there : set = g.setIndex a ∧ j = index
      · rw [if_pos there, tag, there.1] at same
        exact absurd ⟨first, same⟩ (absent i)
      · rw [if_neg there] at same
        exact placed.once set i j first second valid same

/-- A line that was put in the cache is there. -/
theorem at_insert_self (inside : index < g.associativity) {line : Line D}
    (tag : line.info.tag = g.tag a) : At g (c.setLine (g.setIndex a) index line) a index :=
  ⟨inside, by rw [lines_setLine_self, tag]⟩

/-- Where another line is after the insertion: where it was, unless it was evicted. -/
theorem at_insert {line : Line D} (isLine : IsLine g b) (other : b ≠ a) (insertedIs : IsLine g a)
    (tag : line.info.tag = g.tag a) {i : ℕ} :
    At g (c.setLine (g.setIndex a) index line) b i ↔
      At g c b i ∧ ¬ (g.setIndex b = g.setIndex a ∧ i = index) := by
  constructor
  · rintro ⟨inside, same⟩
    rw [lines_setLine] at same
    by_cases here : g.setIndex b = g.setIndex a ∧ i = index
    · rw [if_pos here, tag] at same
      exact absurd (isLine.eq_of_tag insertedIs same.symm) other
    · rw [if_neg here] at same
      exact ⟨⟨inside, same⟩, here⟩
  · rintro ⟨⟨inside, same⟩, here⟩
    refine ⟨inside, ?_⟩
    rw [lines_setLine, if_neg here]
    exact same

end GpuHotSpot.Common.Caches
