import GpuHotSpot.Common.Cache

/-!
# The DRAM cache

`common/core/memory_subsystem/dram/dram_cache.cc`: a cache in front of a DRAM controller, with an
optional prefetcher.  The controller returns the last data put to an address.

* `getDataFromDram`, `putDataToDram`: the two calls.
* `Transparent`: memory as the callers see it, by cached lines and by DRAM.
* `exists_step_iff`: a call returns if it is a read of a cached line that fetches no other line; all
  other calls look for a member of the `ShmemPerf` behind NULL.
* `run_transparent_iff`: a run goes as on plain memory exactly if all its calls return.
-/

namespace GpuHotSpot.Common.DramCaches

open Fallible Caches

/-! ## The code -/

/-- A `ShmemPerf *`; the times of the object are not modelled. -/
inductive PerfPointer
  | null
  | object
  deriving DecidableEq, Repr

/-- What ends a run: a failure of the cache, or a member of NULL. -/
inductive Stop
  | cache (failure : Assertion)
  | nullPerf
  deriving DecidableEq, Repr

/-- `ShmemPerf::updateTime`: its first test reads `m_time_last` of the object. -/
def updateTime : PerfPointer → Except Stop Unit
  | .null => .error .nullPerf
  | .object => .ok ()

/-- `accessDataArray`: all its calls of `updateTime` are on the one pointer. -/
def accessDataArray (perf : PerfPointer) : Except Stop Unit := updateTime perf

/-- A prefetcher: the addresses to fetch after an access. -/
structure Prefetcher (P : Type) where
  getNextAddress : P → ℕ → List ℕ × P

/-- What the constructor reads from the configuration. -/
structure Config (R P : Type) where
  geometry : Geometry
  replacement : Replacement R
  prefetcher : Option (Prefetcher P)
  prefetchOnPrefetchHit : Bool

variable {D R P : Type}

/-- The cache, the prefetcher and the data behind the DRAM controller; then the records of the run:
the data that the callers got, the lines put to DRAM, and the dirty lines that were evicted. -/
structure DramCache (D R P : Type) where
  cache : Cache D R
  prefetcher : P
  dram : ℕ → D
  got : List D
  puts : List (ℕ × D)
  evicted : List (ℕ × D)

/-- Before the first call, all lines are invalid. -/
def DramCache.start (data : D) (r : R) (p : P) (dram : ℕ → D) : DramCache D R P :=
  ⟨⟨fun _ _ => ⟨⟨invalidTag, .invalid, false⟩, data⟩, fun _ => r⟩, p, dram, [], [], []⟩

section Code

variable (config : Config R P)

/-- The write-back of `insertLine`: it puts `data_buf`, the data of the new line. -/
def writeBack (line : Line D) (dataBuf : D) (s : DramCache D R P) : DramCache D R P :=
  if line.info.cstate = .modified then
    let evictAddress := config.geometry.tagToAddress line.info.tag
    { s with
      dram := Function.update s.dram evictAddress dataBuf
      puts := s.puts ++ [(evictAddress, dataBuf)]
      evicted := s.evicted ++ [(evictAddress, line.data)] }
  else s

/-- `insertLine`; it passes NULL to `accessDataArray`. -/
def insertLine (access : Access) (address : ℕ) (dataBuf : D) (s : DramCache D R P) :
    Except Stop (DramCache D R P) := do
  let (evicted, cache) ←
    (insertSingleLine config.geometry config.replacement address dataBuf s.cache).mapError .cache
  let cache ← (setInfo config.geometry address (fun info =>
    { info with cstate := if access = .store then .modified else .shared }) cache).mapError .cache
  let s := { s with cache := cache }
  accessDataArray .null
  match evicted with
  | none => pure s
  | some line => pure (writeBack config line dataBuf s)

/-- One address of the loop of `callPrefetcher`. -/
def prefetch (prefetchAddress : ℕ) (s : DramCache D R P) : Except Stop (DramCache D R P) :=
  match peekSingleLine config.geometry prefetchAddress s.cache with
  | some _ => .ok s
  | none => do
      let s ← insertLine config .load prefetchAddress (s.dram prefetchAddress) s
      let cache ← (setInfo config.geometry prefetchAddress
        (fun info => { info with prefetch := true }) s.cache).mapError .cache
      pure { s with cache := cache }

/-- The addresses that `callPrefetcher` looks at, and the prefetcher after it. -/
def trained (trainAddress : ℕ) (cacheHit prefetchHit : Bool) (p : P) : List ℕ × P :=
  match config.prefetcher with
  | none => ([], p)
  | some prefetcher =>
    let (addresses, p) := prefetcher.getNextAddress p trainAddress
    (if !cacheHit || config.prefetchOnPrefetchHit && prefetchHit then addresses else [], p)

/-- `callPrefetcher`. -/
def callPrefetcher (trainAddress : ℕ) (cacheHit prefetchHit : Bool) (s : DramCache D R P) :
    Except Stop (DramCache D R P) :=
  let (addresses, p) := trained config trainAddress cacheHit prefetchHit s.prefetcher
  runEvents (prefetch config) addresses { s with prefetcher := p }

/-- What `doAccess` knows when it calls the prefetcher. -/
structure Accessed (D R P : Type) where
  cacheHit : Bool
  prefetchHit : Bool
  dataBuf : D
  state : DramCache D R P

/-- The part of `doAccess` before the prefetcher, when the line is at an index of its set. -/
def hit (access : Access) (address index : ℕ) (dataBuf : D) (s : DramCache D R P) :
    Accessed D R P :=
  let set := config.geometry.setIndex address
  let line := s.cache.lines set index
  let cache := s.cache.setLine set index { line with info := { line.info with prefetch := false } }
  let (dataBuf, cache) :=
    accessSingleLine config.geometry config.replacement address index access dataBuf cache
  let line' := cache.lines set index
  let cache :=
    if access = .store then
      cache.setLine set index { line' with info := { line'.info with cstate := .modified } }
    else cache
  ⟨true, line.info.prefetch, dataBuf, { s with cache := cache }⟩

/-- The part of `doAccess` before the prefetcher. -/
def access (access : Access) (address : ℕ) (dataBuf : D) (perf : PerfPointer)
    (s : DramCache D R P) : Except Stop (Accessed D R P) := do
  updateTime perf
  match peekSingleLine config.geometry address s.cache with
  | some index =>
      accessDataArray perf
      pure (hit config access address index dataBuf s)
  | none =>
      let dataBuf := if access = .load then s.dram address else dataBuf
      let s ← insertLine config access address dataBuf s
      pure ⟨false, false, dataBuf, s⟩

/-- `doAccess`: whether the line was in the cache, and the data in the buffer. -/
def doAccess (kind : Access) (address : ℕ) (dataBuf : D) (perf : PerfPointer)
    (s : DramCache D R P) : Except Stop (Bool × D × DramCache D R P) := do
  let a ← access config kind address dataBuf perf s
  let s ← callPrefetcher config address a.cacheHit a.prefetchHit a.state
  pure (a.cacheHit, a.dataBuf, s)

/-- A call; the buffer of `getDataFromDram` comes with any data. -/
inductive Call (D : Type)
  | getDataFromDram (address : ℕ) (dataBuf : D) (perf : PerfPointer)
  | putDataToDram (address : ℕ) (dataBuf : D)

def Call.address : Call D → ℕ
  | .getDataFromDram address _ _ => address
  | .putDataToDram address _ => address

/-- One call; the data that `getDataFromDram` returns is recorded, and `putDataToDram` passes NULL
to `doAccess`. -/
def step (call : Call D) (s : DramCache D R P) : Except Stop (DramCache D R P) :=
  match call with
  | .getDataFromDram address dataBuf perf => do
      let (_, data, s) ← doAccess config .load address dataBuf perf s
      pure { s with got := s.got ++ [data] }
  | .putDataToDram address dataBuf => do
      let (_, _, s) ← doAccess config .store address dataBuf .null s
      pure s

end Code

/-! ## Memory as the callers see it -/

variable {config : Config R P} {memory : ℕ → D} {s t : DramCache D R P} {a b : ℕ} {data : D}

/-- Each address has its data in the cache or in DRAM; a line that is not dirty has it in both. -/
structure Transparent (config : Config R P) (memory : ℕ → D) (s : DramCache D R P) : Prop where
  placed : WellPlaced config.geometry s.cache
  cached : ∀ a i, IsLine config.geometry a → At config.geometry s.cache a i →
    (s.cache.lines (config.geometry.setIndex a) i).data = memory a ∧
      ((s.cache.lines (config.geometry.setIndex a) i).info.cstate ≠ .modified →
        s.dram a = memory a)
  uncached : ∀ a, IsLine config.geometry a → (∀ i, ¬ At config.geometry s.cache a i) →
    s.dram a = memory a
  written : s.puts = s.evicted

theorem Transparent.start (data : D) (r : R) (p : P) (dram : ℕ → D) :
    Transparent config dram (DramCache.start data r p dram) where
  placed := ⟨fun _ _ _ valid => absurd rfl valid, fun _ _ _ _ _ valid => absurd rfl valid⟩
  cached _ _ isLine here := absurd here.tag.symm isLine.valid
  uncached _ _ _ := rfl
  written := rfl

/-! ## Calls -/

/-- Memory does not see the prefetch bits, the replacement state and the prefetcher. -/
theorem Transparent.congr (view : Transparent config memory s)
    (tags : ∀ k i, (t.cache.lines k i).info.tag = (s.cache.lines k i).info.tag)
    (states : ∀ k i, (t.cache.lines k i).info.cstate = (s.cache.lines k i).info.cstate)
    (data : ∀ k i, (t.cache.lines k i).data = (s.cache.lines k i).data)
    (dram : t.dram = s.dram) (puts : t.puts = s.puts) (evicted : t.evicted = s.evicted) :
    Transparent config memory t where
  placed := view.placed.congr tags
  cached a i isLine here := by
    rw [data, states, dram]
    exact view.cached a i isLine ((At.congr tags).1 here)
  uncached a isLine absent := by
    rw [dram]
    exact view.uncached a isLine fun i here => absent i ((At.congr tags).2 here)
  written := by rw [puts, evicted, view.written]

/-- A change of one line that only touches its prefetch bit. -/
theorem Transparent.setPrefetch (view : Transparent config memory s) (k i : ℕ) (bit : Bool) :
    let old := s.cache.lines k i
    let line : Line D := { old with info := { old.info with prefetch := bit } }
    Transparent config memory { s with cache := s.cache.setLine k i line } := by
  intro old line
  refine view.congr (fun k' i' => ?_) (fun k' i' => ?_) (fun k' i' => ?_) rfl rfl rfl <;>
    simp only [lines_setLine] <;> by_cases here : k' = k ∧ i' = i
  · rw [if_pos here, here.1, here.2]
  · rw [if_neg here]
  · rw [if_pos here, here.1, here.2]
  · rw [if_neg here]
  · rw [if_pos here, here.1, here.2]
  · rw [if_neg here]

/-- A read that hits keeps the tags. -/
theorem tag_hit (index : ℕ) (buf : D) (k i : ℕ) :
    ((hit config .load a index buf s).state.cache.lines k i).info.tag =
      (s.cache.lines k i).info.tag := by
  change ((s.cache.setLine (config.geometry.setIndex a) index _).lines k i).info.tag = _
  refine tag_setLine ?_ k i
  rfl

/-- **A read that hits** returns the data of memory, and memory stays. -/
theorem hit_load (view : Transparent config memory s) (isLine : IsLine config.geometry a)
    {index : ℕ} (here : At config.geometry s.cache a index) (buf : D) :
    Transparent config memory (hit config .load a index buf s).state ∧
      (hit config .load a index buf s).dataBuf = memory a := by
  obtain ⟨cached, -⟩ := view.cached a index isLine here
  have cleared := view.setPrefetch (config.geometry.setIndex a) index false
  refine ⟨cleared.congr (fun _ _ => rfl) (fun _ _ => rfl) (fun _ _ => rfl) rfl rfl rfl, ?_⟩
  simp only [hit, accessSingleLine, lines_setReplacement, lines_setLine_self]
  exact cached

/-! ## Which calls return -/

/-- **An insertion** does not return: `accessDataArray` gets NULL. -/
theorem insertLine_ne_ok (kind : Access) (buf : D) : insertLine config kind a buf s ≠ .ok t := by
  intro ran
  obtain ⟨evicted, -, ran⟩ := bind_ok.1 ran
  obtain ⟨cache, -, ran⟩ := bind_ok.1 ran
  cases ran

/-- **One prefetch** returns if the line is cached, and then does nothing. -/
theorem prefetch_ok :
    prefetch config b s = .ok t ↔ peekSingleLine config.geometry b s.cache ≠ none ∧ t = s := by
  unfold prefetch
  cases found : peekSingleLine config.geometry b s.cache with
  | some index =>
    refine ⟨fun ran => ⟨Option.some_ne_none index, (Except.ok.inj ran).symm⟩, fun same => ?_⟩
    rw [same.2]
  | none =>
    refine ⟨fun ran => ?_, fun absent => absurd rfl absent.1⟩
    obtain ⟨u, inserted, -⟩ := bind_ok.1 ran
    exact absurd inserted (insertLine_ne_ok .load _)

theorem prefetches_ok {addresses : List ℕ} :
    runEvents (prefetch config) addresses s = .ok t ↔
      (∀ b ∈ addresses, peekSingleLine config.geometry b s.cache ≠ none) ∧ t = s := by
  induction addresses with
  | nil =>
    refine ⟨fun ran => ⟨fun b member => absurd member List.not_mem_nil, ?_⟩, fun same => ?_⟩
    · exact (Except.ok.inj ran).symm
    · rw [same.2]
      rfl
  | cons b addresses ih =>
    rw [List.forall_mem_cons]
    constructor
    · intro ran
      obtain ⟨u, first, rest⟩ := bind_ok.1 ran
      obtain ⟨here, rfl⟩ := prefetch_ok.1 first
      obtain ⟨later, same⟩ := ih.1 rest
      exact ⟨⟨here, later⟩, same⟩
    · rintro ⟨⟨here, later⟩, same⟩
      exact bind_ok.2 ⟨s, prefetch_ok.2 ⟨here, rfl⟩, ih.2 ⟨later, same⟩⟩

/-- The addresses that a read of the line at an index gives to the prefetch loop. -/
def fetched (config : Config R P) (a index : ℕ) (s : DramCache D R P) : List ℕ :=
  (trained config a true (s.cache.lines (config.geometry.setIndex a) index).info.prefetch
    s.prefetcher).1

/-- A read with a `ShmemPerf`, of a cached line, that fetches only cached lines. -/
def Served (config : Config R P) (s : DramCache D R P) : Call D → Prop
  | .getDataFromDram a _ perf => perf = .object ∧
      ∃ index, peekSingleLine config.geometry a s.cache = some index ∧
        ∀ b ∈ fetched config a index s, peekSingleLine config.geometry b s.cache ≠ none
  | .putDataToDram _ _ => False

/-- The state after a served read of the line at an index. -/
def afterRead (config : Config R P) (a index : ℕ) (buf : D) (s : DramCache D R P) :
    DramCache D R P :=
  let result := hit config .load a index buf s
  { result.state with
    prefetcher := (trained config a true result.prefetchHit s.prefetcher).2
    got := s.got ++ [result.dataBuf] }

/-- **The prefetcher** after a read that hits. -/
theorem callPrefetcher_hit {index : ℕ} (buf : D) :
    let result := hit config .load a index buf s
    callPrefetcher config a true result.prefetchHit result.state = .ok t ↔
      (∀ b ∈ fetched config a index s, peekSingleLine config.geometry b s.cache ≠ none) ∧
        t = { result.state with
          prefetcher := (trained config a true result.prefetchHit s.prefetcher).2 } := by
  intro result
  have peeks : ∀ b, peekSingleLine config.geometry b result.state.cache =
      peekSingleLine config.geometry b s.cache :=
    fun b => peekSingleLine_congr fun k i => tag_hit index buf k i
  refine Iff.trans prefetches_ok (and_congr_left fun _ => forall_congr' fun b => ?_)
  exact forall_congr' fun _ => by rw [← peeks b]

/-- **Reads.** -/
theorem getDataFromDram_ok {buf : D} {perf : PerfPointer} :
    step config (.getDataFromDram a buf perf) s = .ok t ↔ perf = .object ∧
      ∃ index, peekSingleLine config.geometry a s.cache = some index ∧
        (∀ b ∈ fetched config a index s, peekSingleLine config.geometry b s.cache ≠ none) ∧
        t = afterRead config a index buf s := by
  constructor
  · intro ran
    obtain ⟨done, ran, same⟩ := bind_ok.1 ran
    obtain ⟨result, accessed, ran⟩ := bind_ok.1 ran
    obtain ⟨u, fetching, same'⟩ := bind_ok.1 ran
    cases perf with
    | null => cases accessed
    | object =>
      refine ⟨rfl, ?_⟩
      simp only [access, updateTime, ok_bind] at accessed
      cases found : peekSingleLine config.geometry a s.cache with
      | none =>
        rw [found] at accessed
        obtain ⟨v, inserted, -⟩ := bind_ok.1 accessed
        exact absurd inserted (insertLine_ne_ok .load _)
      | some index =>
        rw [found] at accessed
        cases accessed
        obtain ⟨cached, rfl⟩ := (callPrefetcher_hit buf).1 fetching
        cases same'
        cases same
        exact ⟨index, rfl, cached, rfl⟩
  · rintro ⟨rfl, index, found, cached, rfl⟩
    have accessed : access config .load a buf .object s = .ok (hit config .load a index buf s) := by
      simp only [access, updateTime, accessDataArray, ok_bind, found]
      rfl
    have fetching := (callPrefetcher_hit buf).2 ⟨cached, rfl⟩
    refine bind_ok.2 ⟨_, bind_ok.2 ⟨_, accessed, bind_ok.2 ⟨_, fetching, rfl⟩⟩, rfl⟩

/-- **Which calls return.** -/
theorem exists_step_iff {call : Call D} :
    (∃ t, step config call s = .ok t) ↔ Served config s call := by
  cases call with
  | getDataFromDram a buf perf =>
    refine ⟨fun returned => ?_, fun served => ?_⟩
    · obtain ⟨t, ran⟩ := returned
      obtain ⟨pointer, index, here, cached, -⟩ := getDataFromDram_ok.1 ran
      exact ⟨pointer, index, here, cached⟩
    · obtain ⟨pointer, index, here, cached⟩ := served
      exact ⟨_, getDataFromDram_ok.2 ⟨pointer, index, here, cached, rfl⟩⟩
  | putDataToDram a buf =>
    refine ⟨fun returned => ?_, False.elim⟩
    obtain ⟨t, ran⟩ := returned
    cases ran

/-! ## Plain memory -/

/-- Memory without a cache, and the data that the callers got. -/
structure Plain (D : Type) where
  memory : ℕ → D
  got : List D

/-- A call on plain memory. -/
def plainStep (m : Plain D) : Call D → Plain D
  | .getDataFromDram a _ _ => { m with got := m.got ++ [m.memory a] }
  | .putDataToDram a buf => { m with memory := Function.update m.memory a buf }

/-- The cached system and plain memory. -/
structure Agrees (config : Config R P) (m : Plain D) (s : DramCache D R P) : Prop where
  transparent : Transparent config m.memory s
  got : s.got = m.got

/-- **One call** that returns does the same as on plain memory. -/
theorem Agrees.step {m : Plain D} (agrees : Agrees config m s) {call : Call D}
    (isLine : IsLine config.geometry call.address) (ran : step config call s = .ok t) :
    Agrees config (plainStep m call) t := by
  cases call with
  | getDataFromDram a buf perf =>
    obtain ⟨-, index, here, -, rfl⟩ := getDataFromDram_ok.1 ran
    obtain ⟨view, data⟩ := hit_load (a := a) agrees.transparent isLine (at_of_peek here) buf
    refine ⟨view.congr (fun _ _ => rfl) (fun _ _ => rfl) (fun _ _ => rfl) rfl rfl rfl, ?_⟩
    change s.got ++ [_] = m.got ++ [m.memory a]
    rw [data, agrees.got]
  | putDataToDram a buf => exact ((exists_step_iff.1 ⟨t, ran⟩ : False)).elim

/-- **Runs** that return do the same as on plain memory. -/
theorem Agrees.run {calls : List (Call D)}
    (lines : ∀ call ∈ calls, IsLine config.geometry call.address) {m : Plain D}
    (agrees : Agrees config m s) (ran : runEvents (DramCaches.step config) calls s = .ok t) :
    Agrees config (calls.foldl plainStep m) t := by
  induction calls generalizing m s with
  | nil =>
    cases ran
    exact agrees
  | cons call calls ih =>
    obtain ⟨isLine, lines⟩ := List.forall_mem_cons.1 lines
    obtain ⟨u, first, rest⟩ := bind_ok.1 ran
    exact ih lines (agrees.step isLine first) rest

/-- A new cache serves no call. -/
theorem not_served_start {data : D} {r : R} {p : P} {dram : ℕ → D} {call : Call D}
    (isLine : IsLine config.geometry call.address) :
    ¬ Served config (DramCache.start data r p dram) call := by
  cases call with
  | getDataFromDram a buf perf =>
    rintro ⟨-, index, here, -⟩
    exact isLine.valid (at_of_peek here).tag.symm
  | putDataToDram a buf => exact id

/-- **Transparency.** From a state that agrees with plain memory, a run goes to its end and does the
same as on plain memory exactly if each of its calls is served; from a new cache, exactly if there
is no call. -/
theorem run_transparent_iff {calls : List (Call D)}
    (lines : ∀ call ∈ calls, IsLine config.geometry call.address) :
    (∀ (m : Plain D) (s : DramCache D R P), Agrees config m s →
      ((∃ t, runEvents (step config) calls s = .ok t ∧ Agrees config (calls.foldl plainStep m) t) ↔
        Along (Served config) (step config) calls s)) ∧ ∀ (data : D) (r : R) (p : P) (dram : ℕ → D),
      (∃ t, runEvents (step config) calls (DramCache.start data r p dram) = .ok t ∧
        Agrees config (calls.foldl plainStep ⟨dram, []⟩) t) ↔ calls = [] := by
  have returns : ∀ (m : Plain D) (s : DramCache D R P), Agrees config m s →
      ((∃ t, runEvents (step config) calls s = .ok t ∧ Agrees config (calls.foldl plainStep m) t) ↔
        Along (Served config) (step config) calls s) := by
    intro m s agrees
    rw [← exists_runEvents_iff_along fun _ _ => exists_step_iff]
    refine exists_congr fun t => and_iff_left_of_imp fun ran => ?_
    exact agrees.run lines ran
  refine ⟨returns, fun data r p dram => ?_⟩
  rw [returns ⟨dram, []⟩ _ ⟨Transparent.start data r p dram, rfl⟩]
  cases calls with
  | nil => exact iff_of_true trivial rfl
  | cons call calls =>
    refine iff_of_false (fun along => ?_) (List.cons_ne_nil call calls)
    exact not_served_start (lines call List.mem_cons_self) along.1

/-! ## A warm set -/

/-- A cache with one set of two lines; the prefetcher asks for the line after the trained one. -/
def nextLine : Config Unit Unit :=
  ⟨⟨6, 2, fun _ => 0⟩, ⟨fun _ _ => some (0, ()), fun _ _ => ()⟩,
    some ⟨fun _ address => ([address + 64], ())⟩, true⟩

/-- The lines 64, which the prefetcher fetched, and 128 are cached. -/
def warm : DramCache ℕ Unit Unit :=
  ⟨⟨fun set index => if set ≠ 0 then ⟨⟨invalidTag, .invalid, false⟩, 0⟩ else
      if index = 0 then ⟨⟨1, .shared, true⟩, 7⟩ else ⟨⟨2, .modified, false⟩, 8⟩,
    fun _ => ()⟩, (), fun address => if address = 64 then 7 else 0, [], [], []⟩

/-- The memory behind the two lines. -/
def warmMemory (address : ℕ) : ℕ :=
  if address = 64 then 7 else if address = 128 then 8 else 0

/-- Both lines are read. -/
def reads : List (Call ℕ) := [.getDataFromDram 64 0 .object, .getDataFromDram 128 0 .object]

theorem isLine_reads : ∀ call ∈ reads, IsLine nextLine.geometry call.address := by
  intro call member
  rcases List.mem_cons.1 member with rfl | member
  · exact ⟨by decide, by decide⟩
  · rw [List.mem_singleton.1 member]
    exact ⟨by decide, by decide⟩

theorem tag_warm {i : ℕ} (inside : i < 2) : (warm.cache.lines 0 i).info.tag = i + 1 := by
  interval_cases i <;> rfl

theorem set_of_valid_warm {k i : ℕ} (valid : (warm.cache.lines k i).info.isValid) : k = 0 := by
  by_contra other
  exact valid (by simp only [warm, ne_eq, other, not_false_eq_true, if_true])

theorem warm_agrees : Agrees nextLine ⟨warmMemory, []⟩ warm where
  got := rfl
  transparent := by
    refine ⟨⟨fun k i inside valid => ⟨64 * (i + 1), ?_⟩, fun k i j first second valid same => ?_⟩,
      fun a i isLine here => ?_, fun a isLine gone => ?_, rfl⟩
    · change i < 2 at inside
      rw [set_of_valid_warm valid]
      interval_cases i <;> exact ⟨⟨by decide, by decide⟩, rfl, rfl⟩
    · rw [set_of_valid_warm valid, tag_warm first, tag_warm second] at same
      exact Nat.succ.inj same
    · have address : a = 64 * (i + 1) := by
        have tag : i + 1 = nextLine.geometry.tag a := (tag_warm here.inside).symm.trans here.tag
        rw [← isLine.aligned, ← tag]
        exact (Nat.shiftLeft_eq _ 6).trans (Nat.mul_comm _ _)
      have inside : i < 2 := here.inside
      subst address
      interval_cases i
      · exact ⟨rfl, fun _ => rfl⟩
      · exact ⟨rfl, fun clean => absurd rfl clean⟩
    · have first : a ≠ 64 := by
        rintro rfl
        exact gone 0 ⟨by decide, rfl⟩
      have second : a ≠ 128 := by
        rintro rfl
        exact gone 1 ⟨by decide, rfl⟩
      simp only [warm, warmMemory, if_neg first, if_neg second]

/-- A warm set serves both reads, with a prefetch hit among them; a new cache serves none. -/
theorem run_transparent_warm :
    (∃ t, runEvents (step nextLine) reads warm = .ok t ∧ t.got = [7, 8]) ∧
      ¬ ∃ t, runEvents (step nextLine) reads (DramCache.start 0 () () fun _ => 0) = .ok t ∧
        Agrees nextLine (reads.foldl plainStep ⟨fun _ => 0, []⟩) t := by
  obtain ⟨served, fresh⟩ := @run_transparent_iff ℕ Unit Unit nextLine reads isLine_reads
  have along : Along (Served nextLine) (step nextLine) reads warm := by
    refine ⟨⟨rfl, 0, by decide, by decide⟩, fun t moved => ?_⟩
    cases moved
    exact ⟨⟨rfl, 1, by decide, by decide⟩, fun _ _ => trivial⟩
  obtain ⟨t, ran, agrees⟩ := (served ⟨warmMemory, []⟩ warm warm_agrees).2 along
  exact ⟨⟨t, ran, agrees.got⟩, fun returns => List.cons_ne_nil _ _ ((fresh 0 () () _).1 returns)⟩

/-- The put of a new cache and, without it, the read after it find no member behind NULL. -/
theorem put_stops :
    runEvents (step nextLine) [.putDataToDram 64 7, .getDataFromDram 64 0 .object]
        (DramCache.start 0 () () fun _ => 0) = .error .nullPerf ∧
      runEvents (step nextLine) [.getDataFromDram 64 0 .object]
        (DramCache.start 0 () () fun _ => 0) = .error .nullPerf ∧
      ([.putDataToDram 64 7, .getDataFromDram 64 0 .object].foldl plainStep
        (⟨fun _ => 0, []⟩ : Plain ℕ)).got = [7] :=
  ⟨rfl, rfl, rfl⟩

end GpuHotSpot.Common.DramCaches
