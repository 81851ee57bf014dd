import GpuHotSpot.Common.Cache

/-!
# The NUCA slice

`common/core/memory_subsystem/parametric_dram_directory_msi/nuca_cache.cc`, and how
`dram_directory_cntlr.cc` writes to it: a cache in front of DRAM, without its times.

* `read`, `write`: the two calls.
* `Follows`: each line has the data of the last write to its address, and is modified if that write
  found it.
* `faithful_iff`: a read that hits returns the last data, and a dirty line that is evicted is
  reported, exactly as long as no line is evicted that a dirty write-back brought in and that was
  not written since.
-/

namespace GpuHotSpot.Common.NucaCaches

open Fallible Caches

/-! ## The code -/

/-- `HitWhere::where_t`, as far as it is used. -/
inductive HitWhere
  | miss
  | nucaCache
  deriving DecidableEq, Repr

variable {D R : Type}

/-- The cache, and the statistics. -/
structure NucaCache (D R : Type) where
  cache : Cache D R
  reads : UInt64
  writes : UInt64
  readMisses : UInt64
  writeMisses : UInt64

/-- Before the first call, all lines are invalid. -/
def NucaCache.start (data : D) (r : R) : NucaCache D R :=
  ⟨⟨fun _ _ => ⟨⟨invalidTag, .invalid, false⟩, data⟩, fun _ => r⟩, 0, 0, 0, 0⟩

/-- The parameters of `write` that it sets: `eviction`, `evict_address` and `evict_buf`. -/
structure Evicted (D : Type) where
  eviction : Bool
  evictAddress : ℕ
  evictBuf : D
  deriving DecidableEq, Repr

/-- A statistic that is counted with `count`. -/
def countIf (count : Bool) (n : UInt64) : UInt64 := if count then n + 1 else n

section Code

variable (g : Geometry) (replacement : Replacement R)

/-- `NucaCache::read`: the data in the buffer after it. -/
def read (address : ℕ) (dataBuf : D) (count : Bool) (s : NucaCache D R) :
    HitWhere × D × NucaCache D R :=
  match peekSingleLine g address s.cache with
  | some index =>
    let (dataBuf, cache) := accessSingleLine g replacement address index .load dataBuf s.cache
    (.nucaCache, dataBuf, { s with cache := cache, reads := countIf count s.reads })
  | none => (.miss, dataBuf, { s with
      readMisses := countIf count s.readMisses
      reads := countIf count s.reads })

/-- `block_info->setCState(CacheState::MODIFIED)`. -/
def setModified (address index : ℕ) (cache : Cache D R) : Cache D R :=
  let line := cache.lines (g.setIndex address) index
  cache.setLine (g.setIndex address) index
    { line with info := { line.info with cstate := .modified } }

/-- What `write` sets after an insertion. A line that is not dirty is not written back. -/
def evicted (line : Option (Line D)) (out : Evicted D) : Evicted D :=
  match line with
  | none => ⟨false, g.tagToAddress invalidTag, out.evictBuf⟩
  | some line => ⟨decide (line.info.cstate = .modified), g.tagToAddress line.info.tag, line.data⟩

/-- `NucaCache::write`. -/
def write (address : ℕ) (dataBuf : D) (out : Evicted D) (count : Bool) (s : NucaCache D R) :
    Except Assertion (HitWhere × Evicted D × NucaCache D R) :=
  match peekSingleLine g address s.cache with
  | some index =>
    let cache := setModified g address index s.cache
    let (_, cache) := accessSingleLine g replacement address index .store dataBuf cache
    .ok (.nucaCache, out, { s with cache := cache, writes := countIf count s.writes })
  | none => do
      let (line, cache) ← insertSingleLine g replacement address dataBuf s.cache
      .ok (.miss, evicted g line out, { s with
        cache := cache
        writeMisses := countIf count s.writeMisses
        writes := countIf count s.writes })

/-- `DramDirectoryCntlr::sendDataToNUCA`: the message to DRAM. Its variables for the eviction come
with any values. -/
def sendDataToNUCA (address : ℕ) (dataBuf : D) (out : Evicted D) (count : Bool)
    (s : NucaCache D R) : Except Assertion (Option (ℕ × D) × NucaCache D R) := do
  let (_, out, s) ← write g replacement address dataBuf out count s
  .ok (if out.eviction then some (out.evictAddress, out.evictBuf) else none, s)

end Code

/-! ## Runs -/

/-- The addresses that the directory uses are those of lines. -/
abbrev LineAddress (g : Geometry) := { a : ℕ // IsLine g a }

/-- A call. The slice does not see whether a write is `dirty`, a write-back, or a clean fill. -/
inductive Call (g : Geometry) (D : Type)
  | read (address : LineAddress g) (dataBuf : D) (count : Bool)
  | write (address : LineAddress g) (dataBuf : D) (out : Evicted D) (count dirty : Bool)

/-- A write of the run. -/
structure Written (D : Type) where
  data : D
  dirty : Bool
  hitWhere : HitWhere

/-- The slice, and as a record of the run the last write to each address. -/
structure Recorded (D R : Type) where
  slice : NucaCache D R
  last : ℕ → Option (Written D)

def Recorded.start (data : D) (r : R) : Recorded D R := ⟨.start data r, fun _ => none⟩

def step (g : Geometry) (replacement : Replacement R) (call : Call g D) (s : Recorded D R) :
    Except Assertion (Recorded D R) :=
  match call with
  | .read a dataBuf count =>
    .ok { s with slice := (read g replacement a dataBuf count s.slice).2.2 }
  | .write a dataBuf out count dirty => do
      let (hitWhere, _, slice) ← write g replacement a dataBuf out count s.slice
      .ok ⟨slice, Function.update s.last a (some ⟨dataBuf, dirty, hitWhere⟩)⟩

/-- An address is in the slice. -/
def Holds (g : Geometry) (a : ℕ) (slice : NucaCache D R) : Prop :=
  (peekSingleLine g a slice.cache).isSome

instance (g : Geometry) (a : ℕ) (slice : NucaCache D R) : Decidable (Holds g a slice) :=
  inferInstanceAs (Decidable (_ = true))

/-- A read that hits returns the data of the last write. When an address leaves the slice whose last
write was dirty, the call is a write, and it reports that address with that data. -/
def Faithful (g : Geometry) (replacement : Replacement R) (s : Recorded D R) : Call g D → Prop
  | .read a dataBuf count => ∀ hitWhere data slice,
      read g replacement a dataBuf count s.slice = (hitWhere, data, slice) →
        (hitWhere = .nucaCache → ∃ w, s.last a = some w ∧ data = w.data) ∧
        ∀ b : LineAddress g, Holds g b s.slice → Holds g b slice
  | .write a dataBuf out count _ => ∀ hitWhere out' slice,
      write g replacement a dataBuf out count s.slice = .ok (hitWhere, out', slice) →
        ∀ b : LineAddress g, Holds g b s.slice → ¬ Holds g b slice →
          ∀ w, s.last b = some w → w.dirty → out' = ⟨true, b, w.data⟩

/-- A write that misses does not replace a line whose last write was a dirty write-back that
missed. -/
def Keeps (g : Geometry) (replacement : Replacement R) (s : Recorded D R) : Call g D → Prop
  | .read .. => True
  | .write a .. => ¬ Holds g a s.slice → ∀ index r,
      replacement.getReplacementIndex (s.slice.cache.replacement (g.setIndex a))
        (fun i => (s.slice.cache.lines (g.setIndex a) i).info) = some (index, r) →
        ∀ b : LineAddress g, g.setIndex b = g.setIndex a → At g s.slice.cache b index →
          ∀ w, s.last b = some w → w.dirty → w.hitWhere = .nucaCache

/-! ## What the lines hold -/

variable {g : Geometry} {replacement : Replacement R} {cache cache' : Cache D R}
  {last : ℕ → Option (Written D)} {a index : ℕ}

/-- Each line has the data of the last write to its address, and is modified if that write found
it. -/
structure Follows (g : Geometry) (last : ℕ → Option (Written D)) (cache : Cache D R) : Prop where
  placed : WellPlaced g cache
  line : ∀ a index, IsLine g a → At g cache a index → ∃ w, last a = some w ∧
    (cache.lines (g.setIndex a) index).data = w.data ∧
    ((cache.lines (g.setIndex a) index).info.cstate = .modified ↔ w.hitWhere = .nucaCache)

theorem Follows.start (data : D) (r : R) :
    Follows g (fun _ => none) (NucaCache.start data r).cache where
  placed := ⟨fun _ _ _ valid => absurd rfl valid, fun _ _ _ _ _ valid => absurd rfl valid⟩
  line _ _ isLine here := absurd here.tag.symm isLine.valid

theorem Follows.congr (follows : Follows g last cache) (same : cache'.lines = cache.lines) :
    Follows g last cache' := by
  have tags (set i : ℕ) : (cache'.lines set i).info.tag = (cache.lines set i).info.tag := by
    rw [same]
  refine ⟨follows.placed.congr tags, fun a index isLine here => ?_⟩
  rw [same]
  exact follows.line a index isLine ((At.congr tags).1 here)

theorem holds_iff {slice : NucaCache D R} (placed : WellPlaced g slice.cache)
    (isLine : IsLine g a) : Holds g a slice ↔ ∃ index, At g slice.cache a index := by
  constructor
  · intro holds
    obtain ⟨index, found⟩ := Option.isSome_iff_exists.1 holds
    exact ⟨index, at_of_peek found⟩
  · rintro ⟨index, here⟩
    rw [Holds, peekSingleLine_eq_some placed isLine here]
    rfl

/-- **A write** to a line. -/
theorem Follows.put (follows : Follows g last cache) (isLine : IsLine g a)
    (inside : index < g.associativity) {line : Line D} (tag : line.info.tag = g.tag a)
    (placed : WellPlaced g (cache.setLine (g.setIndex a) index line)) (w : Written D)
    (data : line.data = w.data) (state : line.info.cstate = .modified ↔ w.hitWhere = .nucaCache) :
    Follows g (Function.update last a (some w)) (cache.setLine (g.setIndex a) index line) := by
  refine ⟨placed, fun b i other here => ?_⟩
  by_cases same : b = a
  · subst same
    have place : i = index := At.unique placed other here (at_insert_self inside tag)
    rw [place, lines_setLine_self]
    exact ⟨w, Function.update_self .., data, state⟩
  · obtain ⟨old, elsewhere⟩ := (at_insert other same isLine tag).1 here
    rw [Function.update_of_ne same, lines_setLine, if_neg elsewhere]
    exact follows.line b i other old

/-! ## The calls -/

section Calls

variable {s : NucaCache D R}

/-- The cache after an access of the line at an index. -/
def touched (replacement : Replacement R) (g : Geometry) (a index : ℕ) (cache : Cache D R) :
    Cache D R :=
  cache.setReplacement (g.setIndex a)
    (replacement.updateReplacementIndex (cache.replacement (g.setIndex a)) index)

theorem read_of_some (found : peekSingleLine g a s.cache = some index) (dataBuf : D)
    (count : Bool) : read g replacement a dataBuf count s =
      (.nucaCache, (s.cache.lines (g.setIndex a) index).data, { s with
        cache := touched replacement g a index s.cache
        reads := countIf count s.reads }) := by
  rw [read, found]
  rfl

theorem read_of_none (missing : peekSingleLine g a s.cache = none) (dataBuf : D) (count : Bool) :
    read g replacement a dataBuf count s = (.miss, dataBuf, { s with
      readMisses := countIf count s.readMisses
      reads := countIf count s.reads }) := by
  rw [read, missing]

/-- A read changes no line. -/
theorem read_lines (g : Geometry) (replacement : Replacement R) (a : ℕ) (dataBuf : D)
    (count : Bool) (s : NucaCache D R) :
    (read g replacement a dataBuf count s).2.2.cache.lines = s.cache.lines := by
  cases found : peekSingleLine g a s.cache with
  | some index =>
    rw [read_of_some found]
    rfl
  | none => rw [read_of_none found]

theorem write_of_some (found : peekSingleLine g a s.cache = some index) (dataBuf : D)
    (out : Evicted D) (count : Bool) : ∃ slice,
      write g replacement a dataBuf out count s = .ok (.nucaCache, out, slice) ∧
        slice.cache.lines = (s.cache.setLine (g.setIndex a) index
          ⟨{ (s.cache.lines (g.setIndex a) index).info with cstate := .modified },
            dataBuf⟩).lines := by
  refine ⟨{ s with
    cache := ((touched replacement g a index (setModified g a index s.cache)).setLine
      (g.setIndex a) index ⟨((setModified g a index s.cache).lines (g.setIndex a) index).info,
        dataBuf⟩)
    writes := countIf count s.writes }, ?_, ?_⟩
  · rw [write, found]
    rfl
  · dsimp only
    funext set i
    rw [lines_setLine, touched, lines_setReplacement, setModified, lines_setLine_self,
      lines_setLine, lines_setLine]
    split_ifs <;> rfl

theorem write_of_none (missing : peekSingleLine g a s.cache = none) {dataBuf : D}
    {out out' : Evicted D} {count : Bool} {hitWhere : HitWhere} {slice : NucaCache D R}
    (ran : write g replacement a dataBuf out count s = .ok (hitWhere, out', slice)) : ∃ index r,
      replacement.getReplacementIndex (s.cache.replacement (g.setIndex a))
        (fun i => (s.cache.lines (g.setIndex a) i).info) = some (index, r) ∧
      index < g.associativity ∧ hitWhere = .miss ∧
      slice.cache.lines = (s.cache.setLine (g.setIndex a) index
        ⟨⟨g.tag a, .invalid, false⟩, dataBuf⟩).lines ∧
      ((s.cache.lines (g.setIndex a) index).info.isValid →
        out' = evicted g (some (s.cache.lines (g.setIndex a) index)) out) := by
  rw [write, missing] at ran
  obtain ⟨⟨line, cache⟩, inserted, rest⟩ := bind_ok.1 ran
  cases rest
  rw [insertSingleLine] at inserted
  cases chosen : replacement.getReplacementIndex (s.cache.replacement (g.setIndex a))
      fun i => (s.cache.lines (g.setIndex a) i).info with
  | none =>
    rw [chosen] at inserted
    cases inserted
  | some choice =>
    obtain ⟨index, r⟩ := choice
    rw [chosen] at inserted
    dsimp only at inserted
    split_ifs at inserted with inside valid
    · cases inserted
      exact ⟨index, r, rfl, inside, rfl, rfl, fun _ => rfl⟩
    · cases inserted
      exact ⟨index, r, rfl, inside, rfl, rfl, fun other => absurd other valid⟩

end Calls

/-! ## One step -/

theorem tag_modified (set index : ℕ) (dataBuf : D) (set' i : ℕ) :
    ((cache.setLine set index
      ⟨{ (cache.lines set index).info with cstate := .modified }, dataBuf⟩).lines set' i).info.tag =
      (cache.lines set' i).info.tag := by
  refine tag_setLine ?_ set' i
  rfl

/-- A line that is written where it was. -/
theorem Follows.write_some (follows : Follows g last cache) (isLine : IsLine g a)
    (here : At g cache a index) (dataBuf : D) (dirty : Bool) :
    Follows g (Function.update last a (some ⟨dataBuf, dirty, .nucaCache⟩))
      (cache.setLine (g.setIndex a) index
        ⟨{ (cache.lines (g.setIndex a) index).info with cstate := .modified }, dataBuf⟩) := by
  refine follows.put isLine here.inside ?_ (follows.placed.congr (tag_modified _ _ _)) _ rfl
    (iff_of_true rfl rfl)
  exact here.tag

/-- A line that is inserted. -/
theorem Follows.write_none (follows : Follows g last cache) (isLine : IsLine g a)
    (missing : peekSingleLine g a cache = none) (inside : index < g.associativity) (dataBuf : D)
    (dirty : Bool) : Follows g (Function.update last a (some ⟨dataBuf, dirty, .miss⟩))
      (cache.setLine (g.setIndex a) index ⟨⟨g.tag a, .invalid, false⟩, dataBuf⟩) :=
  follows.put isLine inside rfl
    (follows.placed.insert isLine (fun _ => not_at_of_peek missing) rfl) _ rfl
    (iff_of_false nofun nofun)

variable {s t : Recorded D R} {call : Call g D}

/-- **One call** keeps what the lines hold. -/
theorem Follows.step (follows : Follows g s.last s.slice.cache)
    (moved : step g replacement call s = .ok t) : Follows g t.last t.slice.cache := by
  cases call with
  | read a dataBuf count =>
    cases moved
    exact follows.congr (read_lines g replacement a dataBuf count s.slice)
  | write a dataBuf out count dirty =>
    obtain ⟨⟨hitWhere, out', slice⟩, ran, rest⟩ := bind_ok.1 moved
    cases rest
    cases found : peekSingleLine g a s.slice.cache with
    | some index =>
      obtain ⟨slice', again, lines⟩ := write_of_some found dataBuf out count
      cases ran.symm.trans again
      exact (follows.write_some a.2 (at_of_peek found) dataBuf dirty).congr lines
    | none =>
      obtain ⟨index, r, -, inside, rfl, lines, -⟩ := write_of_none found ran
      exact (follows.write_none a.2 found inside dataBuf dirty).congr lines

/-- A write to a line that is in the slice evicts nothing. -/
theorem holds_of_write_some (follows : Follows g s.last s.slice.cache) {a b : LineAddress g}
    {dataBuf : D} {slice : NucaCache D R}
    (lines : slice.cache.lines = (s.slice.cache.setLine (g.setIndex a) index
      ⟨{ (s.slice.cache.lines (g.setIndex a) index).info with cstate := .modified },
        dataBuf⟩).lines) (holds : Holds g b s.slice) : Holds g b slice := by
  have tags (set i : ℕ) :
      (slice.cache.lines set i).info.tag = (s.slice.cache.lines set i).info.tag := by
    rw [lines]
    exact tag_modified _ _ _ set i
  obtain ⟨i, here⟩ := (holds_iff follows.placed b.2).1 holds
  exact (holds_iff (follows.placed.congr tags) b.2).2 ⟨i, (At.congr tags).2 here⟩

/-- What leaves the slice when a line is inserted is what was in its place. -/
theorem left_iff (follows : Follows g s.last s.slice.cache) {a b : LineAddress g}
    (missing : peekSingleLine g a s.slice.cache = none) (inside : index < g.associativity)
    {dataBuf : D} {slice : NucaCache D R}
    (lines : slice.cache.lines = (s.slice.cache.setLine (g.setIndex a) index
      ⟨⟨g.tag a, .invalid, false⟩, dataBuf⟩).lines) :
    (Holds g b s.slice ∧ ¬ Holds g b slice) ↔
      g.setIndex b = g.setIndex a ∧ At g s.slice.cache b index := by
  have placed : WellPlaced g slice.cache :=
    ((follows.write_none a.2 missing inside dataBuf false).congr lines).placed
  have at_iff (i : ℕ) : At g slice.cache b i ↔ At g (s.slice.cache.setLine (g.setIndex a) index
      ⟨⟨g.tag a, .invalid, false⟩, dataBuf⟩) b i :=
    At.congr fun set i => by rw [lines]
  rw [holds_iff follows.placed b.2, holds_iff placed b.2]
  by_cases same : b = a
  · subst same
    exact iff_of_false (fun both => not_at_of_peek missing both.1.choose_spec)
      fun both => not_at_of_peek missing both.2
  · have moved (i : ℕ) := (at_iff i).trans
      (at_insert b.2 (fun equal => same (Subtype.ext equal)) a.2 rfl)
    constructor
    · rintro ⟨⟨i, here⟩, gone⟩
      have place : g.setIndex b = g.setIndex a ∧ i = index := by
        by_contra elsewhere
        exact gone ⟨i, (moved i).2 ⟨here, elsewhere⟩⟩
      exact ⟨place.1, place.2 ▸ here⟩
    · rintro ⟨set, here⟩
      refine ⟨⟨index, here⟩, fun ⟨i, again⟩ => ?_⟩
      have ⟨old, elsewhere⟩ := (moved i).1 again
      exact elsewhere ⟨set, At.unique follows.placed b.2 old here⟩

theorem valid_of_at {set : ℕ} (isLine : IsLine g a) (here : At g cache a index)
    (same : g.setIndex a = set) : (cache.lines set index).info.isValid := by
  rw [BlockInfo.isValid, ← same, here.tag]
  exact isLine.valid

/-- What is reported of a line that is evicted. -/
theorem evicted_eq_iff (follows : Follows g s.last s.slice.cache) {b : LineAddress g}
    (here : At g s.slice.cache b index) (out : Evicted D) {w : Written D}
    (last : s.last b = some w) :
    evicted g (some (s.slice.cache.lines (g.setIndex b) index)) out = ⟨true, b, w.data⟩ ↔
      w.hitWhere = .nucaCache := by
  obtain ⟨w', same, data, state⟩ := follows.line b index b.2 here
  cases last.symm.trans same
  rw [evicted, here.tag, b.2.aligned, data, ← state]
  simp only [Evicted.mk.injEq, decide_eq_true_eq, and_true]

/-- **One call** is faithful exactly if it loses no dirty line. -/
theorem Follows.faithful_iff_keeps (follows : Follows g s.last s.slice.cache) (call : Call g D) :
    Faithful g replacement s call ↔ Keeps g replacement s call := by
  cases call with
  | read a dataBuf count =>
    refine iff_of_true (fun hitWhere data slice ran => ⟨fun hit => ?_, fun b holds => ?_⟩) trivial
    · cases found : peekSingleLine g a s.slice.cache with
      | some index =>
        cases (read_of_some found dataBuf count).symm.trans ran
        obtain ⟨w, last, same, -⟩ := follows.line a index a.2 (at_of_peek found)
        exact ⟨w, last, same⟩
      | none =>
        cases (read_of_none found dataBuf count).symm.trans ran
        cases hit
    · have lines := read_lines g replacement a dataBuf count s.slice
      rw [ran] at lines
      dsimp only at lines
      obtain ⟨i, here⟩ := (holds_iff follows.placed b.2).1 holds
      refine (holds_iff (follows.congr lines).placed b.2).2 ⟨i, here.inside, ?_⟩
      rw [lines]
      exact here.tag
  | write a dataBuf out count dirty =>
    cases found : peekSingleLine g a s.slice.cache with
    | some index =>
      obtain ⟨slice, ran, lines⟩ := write_of_some found dataBuf out count
      refine iff_of_true (fun hitWhere out' slice' again b holds left => ?_) fun missing => ?_
      · cases ran.symm.trans again
        exact absurd (holds_of_write_some follows lines holds) left
      · exact absurd (Option.isSome_of_eq_some found) missing
    | none =>
      constructor
      · intro faithful missing index r chosen b set here w last dirty
        obtain ⟨hitWhere, out', slice, ran⟩ : ∃ hitWhere out' slice,
            write g replacement a dataBuf out count s.slice = .ok (hitWhere, out', slice) := by
          rw [write, found]
          dsimp only
          rw [insertSingleLine, chosen]
          dsimp only
          rw [if_pos here.inside]
          exact ⟨_, _, _, rfl⟩
        obtain ⟨index', r', chosen', inside, -, lines, reported⟩ := write_of_none found ran
        cases chosen.symm.trans chosen'
        have left := (left_iff follows found inside lines).2 ⟨set, here⟩
        rw [← evicted_eq_iff follows here out last]
        rw [set, ← reported (valid_of_at b.2 here set)]
        exact faithful hitWhere out' slice ran b left.1 left.2 w last dirty
      · intro keeps hitWhere out' slice ran b holds left w last dirty
        obtain ⟨index, r, chosen, inside, -, lines, reported⟩ := write_of_none found ran
        obtain ⟨set, here⟩ := (left_iff follows found inside lines).1 ⟨holds, left⟩
        rw [reported (valid_of_at b.2 here set), ← set, evicted_eq_iff follows here out last]
        refine keeps (fun holds => ?_) index r chosen b set here w last dirty
        rw [Holds, found] at holds
        cases holds

/-! ## Runs -/

/-- **The NUCA slice is a write-back cache**, all along a run from the start, exactly if no step of
the run loses a dirty line. -/
theorem faithful_iff (g : Geometry) (replacement : Replacement R) (data : D) (r : R)
    (calls : List (Call g D)) :
    Along (Faithful g replacement) (step g replacement) calls (.start data r) ↔
      Along (Keeps g replacement) (step g replacement) calls (.start data r) :=
  Along.congr (fun _ _ _ follows moved => Follows.step follows moved)
    (fun call _ follows => Follows.faithful_iff_keeps follows call)
    (Follows.start (g := g) data r)

/-- **Write-back.** After any run, a dirty line that leaves the slice is sent to DRAM with the data of
the last write to it, if the step loses no dirty line. -/
theorem sendDataToNUCA_sends {data : D} {r : R} {calls : List (Call g D)} {a b : LineAddress g}
    {dataBuf : D} {out : Evicted D} {count dirty : Bool} {message : Option (ℕ × D)}
    {slice : NucaCache D R} {w : Written D}
    (ran : runEvents (step g replacement) calls (.start data r) = .ok s)
    (keeps : Keeps g replacement s (.write a dataBuf out count dirty))
    (sent : sendDataToNUCA g replacement a dataBuf out count s.slice = .ok (message, slice))
    (holds : Holds g b s.slice) (left : ¬ Holds g b slice) (last : s.last b = some w)
    (wasDirty : w.dirty) : message = some (↑b, w.data) := by
  have follows : Follows g s.last s.slice.cache := by
    have kept : Ensures (fun t : Recorded D R => Follows g t.last t.slice.cache) (fun _ => True)
        (runEvents (step g replacement) calls (.start data r)) := by
      refine ensures_runEvents (fun call t follows => ?_) (Follows.start data r)
      cases moved : step g replacement call t with
      | error stop => trivial
      | ok t' => exact Follows.step follows moved
    exact kept.of_ok ran
  obtain ⟨⟨hitWhere, out', slice'⟩, written, rest⟩ := bind_ok.1 sent
  cases rest
  have faithful := (follows.faithful_iff_keeps (.write a dataBuf out count dirty)).2 keeps
  rw [faithful hitWhere out' slice written b holds left w last wasDirty]
  rfl

/-! ## One line -/

/-- A slice with one line of 64 bytes. -/
def oneLine : Geometry := ⟨6, 1, fun _ => 0⟩

def onlyLine : Replacement Unit := ⟨fun _ _ => some (0, ()), fun _ _ => ()⟩

def first : LineAddress oneLine := ⟨0, by decide, by decide⟩

def second : LineAddress oneLine := ⟨64, by decide, by decide⟩

/-- One line is written twice. -/
def rewritten : List (Call oneLine ℕ) :=
  [.write first 7 ⟨false, 0, 0⟩ true true, .write first 9 ⟨false, 0, 0⟩ true true]

/-- The fill of another line sends the second data. -/
theorem sendDataToNUCA_sends_rewritten : ∃ s slice,
    runEvents (step oneLine onlyLine) rewritten (.start 0 ()) = .ok s ∧
    sendDataToNUCA oneLine onlyLine second 8 ⟨false, 0, 0⟩ false s.slice =
      .ok (some (↑first, 9), slice) := by
  obtain ⟨s, ran⟩ : ∃ s, runEvents (step oneLine onlyLine) rewritten (.start 0 ()) = .ok s :=
    ⟨_, rfl⟩
  obtain ⟨message, slice, sent⟩ : ∃ message slice, sendDataToNUCA oneLine onlyLine second 8
      ⟨false, 0, 0⟩ false s.slice = .ok (message, slice) := by
    cases ran
    exact ⟨_, _, rfl⟩
  have keeps : Keeps oneLine onlyLine s (.write second 8 ⟨false, 0, 0⟩ false false) := by
    intro _ index r chosen b _ here w last _
    cases chosen
    cases ran
    rw [show b = first from Subtype.ext (b.2.eq_of_tag first.2 here.tag.symm)] at last
    cases last
    rfl
  obtain rfl : message = some (↑first, 9) := by
    refine sendDataToNUCA_sends (b := first) (w := ⟨9, true, .nucaCache⟩) ran keeps sent ?_ ?_ ?_
      rfl
    · cases ran
      decide
    · cases ran
      cases sent
      decide
    · cases ran
      rfl
  exact ⟨s, slice, ran, sent⟩

/-- A dirty write-back of 7 to one line, and the fill of another one: nothing is reported. -/
theorem not_faithful_oneLine : ¬ Along (Faithful oneLine onlyLine) (step oneLine onlyLine)
    [.write first 7 ⟨false, 0, 0⟩ true true, .write second 8 ⟨false, 0, 0⟩ false false]
    (.start 0 ()) := by
  rintro ⟨-, along⟩
  have reported := (along _ rfl).1 .miss ⟨false, 0, 7⟩ _ rfl first (by decide) (by decide)
    ⟨7, true, .miss⟩ rfl rfl
  exact absurd reported (by decide)

end GpuHotSpot.Common.NucaCaches
