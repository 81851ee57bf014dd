import GpuHotSpot.Common.RobProducers
import GpuHotSpot.Lib.Splits
import Mathlib.Data.Finset.Card

/-!
# Exact dependencies

What `RegisterDependencies` and `MemoryDependencies` add to the micro-ops of a stream, against the
last older micro-op of the stream that writes the register, stores to the address, or is a barrier.

* `Knows`: what the tables know about the older micro-ops.
* `exact_iff`: when each micro-op gets exactly what it should.

The dependencies on barriers go wrong in two ways: `setDependencies` compares the barrier with the
lowest valid number strictly, where a store or the writer of a register may have that number itself;
and a load or store that is marked as a barrier is never recorded as one.
-/

namespace GpuHotSpot.Common.DependencyTables

open Fallible
open RobTimer

/-! ## Streams -/

/-- `producers` and `membar` of both classes. -/
abbrev Tables := RegisterDependencies × MemoryDependencies

/-- A new micro-op, and the lowest sequence number that is valid at that time. -/
structure Arrival where
  op : DynamicMicroOp
  low : ℕ

/-- The two calls for a new micro-op. -/
def Arrival.enter (s : Tables) (a : Arrival) : Except Stop (Tables × DynamicMicroOp) := do
  let (registers, u) ← RegisterDependencies.setDependencies a.low s.1 a.op
  let (memory, u) ← MemoryDependencies.setDependencies a.low s.2 u
  .ok ((registers, memory), u)

def Tables.start : Tables := (fun _ => none, MemoryDependencies.start)

/-- The tables after the micro-ops. -/
def enterAll (arrivals : List Arrival) : Except Stop Tables :=
  runEvents (fun a s => (a.enter s).map Prod.fst) arrivals Tables.start

/-- The stores among the micro-ops that are in the window. -/
def storesFrom (low : ℕ) (ops : List DynamicMicroOp) : List DynamicMicroOp :=
  ops.filter fun op => op.isStore && low ≤ op.sequenceNumber

/-- Consecutive sequence numbers, and a window that moves on and never has more than 1024 stores. -/
structure Steady (first : ℕ) (arrivals : List Arrival) : Prop where
  numbered : ∀ older a newer, arrivals = older ++ a :: newer →
    a.op.sequenceNumber = first + older.length
  fresh : ∀ a ∈ arrivals, a.op.dependencies = []
  moves : arrivals.Pairwise fun a b => a.low ≤ b.low
  below : ∀ a ∈ arrivals, a.low ≤ a.op.sequenceNumber
  window : ∀ older a newer, arrivals = older ++ a :: newer →
    (storesFrom a.low (older.map Arrival.op ++ [a.op])).length ≤ 1024

/-- A stream of micro-ops. -/
structure Stream where
  first : ℕ
  arrivals : List Arrival
  steady : Steady first arrivals

/-! ## What should happen -/

/-- The last of the micro-ops with the property. -/
def latest (p : DynamicMicroOp → Bool) (older : List DynamicMicroOp) : Option ℕ :=
  (older.reverse.find? p).map DynamicMicroOp.sequenceNumber

def writes (register : ℕ) (op : DynamicMicroOp) : Bool :=
  register ∈ op.microOp.destinationRegisters

def storesTo (address : ℕ) (op : DynamicMicroOp) : Bool := op.isStore && op.address = address

/-- `isMemBarrier`. -/
def isMemBarrier (op : DynamicMicroOp) : Bool := op.microOp.membar

/-- A barrier that neither loads nor stores. -/
def isFence (op : DynamicMicroOp) : Bool := !op.isLoad && !op.isStore && op.microOp.membar

/-- The micro-op is a load, a store or a barrier. -/
def ordered (op : DynamicMicroOp) : Bool := op.isLoad || op.isStore || op.microOp.membar

/-- The writers of the source registers and, for a load, the last store to its address, as far as they
are valid. -/
def sources (older : List DynamicMicroOp) (a : Arrival) : List ℕ :=
  a.op.microOp.sourceRegisters.filterMap (fun r => (latest (writes r) older).filter (a.low ≤ ·)) ++
    if a.op.isLoad then ((latest (storesTo a.op.address) older).filter (a.low ≤ ·)).toList else []

/-- The dependencies that a micro-op should get: besides `sources`, the last barrier. -/
def expected (older : List DynamicMicroOp) (a : Arrival) : List ℕ :=
  sources older a ++
    if ordered a.op then ((latest isMemBarrier older).filter (a.low ≤ ·)).toList else []

/-- Each micro-op enters, with exactly the dependencies that it should get. -/
def Exact (arrivals : List Arrival) : Prop :=
  ∀ older a newer, arrivals = older ++ a :: newer → ∃ s s' u, enterAll older = .ok s ∧
    a.enter s = .ok (s', u) ∧ u.dependencies.Nodup ∧
    ∀ y, y ∈ u.dependencies ↔ y ∈ expected (older.map Arrival.op) a

/-- The last barrier is a fence above the lowest valid number, unless the micro-op depends on it
anyway; likewise the last fence is the last barrier. -/
structure BarrierSeen (older : List DynamicMicroOp) (a : Arrival) : Prop where
  found : ∀ y, latest isMemBarrier older = some y → a.low ≤ y → y ∉ sources older a →
    latest isFence older = some y ∧ a.low < y
  only : ∀ y, latest isFence older = some y → a.low < y → y ∉ sources older a →
    latest isMemBarrier older = some y

/-- The array of dependencies has room. -/
def HasRoom (older : List DynamicMicroOp) (a : Arrival) : Prop :=
  (expected older a).dedup.length ≤ maximumNumberOfDependencies

/-! ## The array -/

section AddAll

variable {u : DynamicMicroOp} {xs dependencies : List ℕ} {y : ℕ}

/-- Several calls of `addDependency`. -/
def addAll (xs : List ℕ) (u : DynamicMicroOp) : Except Stop DynamicMicroOp :=
  xs.foldlM (fun u x => u.addDependency x) u

/-- The array with one more dependency, unless it is there. -/
def adjoin (dependencies : List ℕ) (x : ℕ) : List ℕ :=
  if x ∈ dependencies then dependencies else dependencies ++ [x]

theorem mem_adjoin {x : ℕ} : y ∈ adjoin dependencies x ↔ y ∈ dependencies ∨ y = x := by
  rw [adjoin]
  split_ifs with already
  · refine ⟨.inl, ?_⟩
    rintro (there | rfl)
    · exact there
    · exact already
  · rw [List.mem_append, List.mem_singleton]

theorem length_le_adjoin (dependencies : List ℕ) (x : ℕ) :
    dependencies.length ≤ (adjoin dependencies x).length := by
  rw [adjoin]
  split_ifs
  · exact le_rfl
  · rw [List.length_append]
    exact Nat.le_add_right _ _

theorem nodup_adjoin (nodup : dependencies.Nodup) (x : ℕ) : (adjoin dependencies x).Nodup := by
  rw [adjoin]
  split_ifs with already
  · exact nodup
  · refine List.nodup_append.mpr ⟨nodup, List.nodup_singleton x, fun y member z single same => ?_⟩
    rw [List.mem_singleton] at single
    exact already (single ▸ same ▸ member)

theorem addDependency_eq {x : ℕ} (room : u.dependencies.length ≤ maximumNumberOfDependencies) :
    u.addDependency x = if (adjoin u.dependencies x).length ≤ maximumNumberOfDependencies then
        .ok { u with dependencies := adjoin u.dependencies x }
      else .error .tooManyDependencies := by
  rw [DynamicMicroOp.addDependency, adjoin]
  by_cases already : x ∈ u.dependencies
  · rw [if_pos already, if_pos already, if_pos room]
  · rw [if_neg already, if_neg already, List.length_append, List.length_singleton]
    exact if_congr Nat.lt_iff_add_one_le rfl rfl

theorem mem_foldl_adjoin : y ∈ xs.foldl adjoin dependencies ↔ y ∈ dependencies ∨ y ∈ xs := by
  induction xs generalizing dependencies with
  | nil => simp
  | cons x xs ih => rw [List.foldl_cons, ih, mem_adjoin, List.mem_cons, or_assoc]

theorem nodup_foldl_adjoin (nodup : dependencies.Nodup) : (xs.foldl adjoin dependencies).Nodup := by
  induction xs generalizing dependencies with
  | nil => exact nodup
  | cons x xs ih => exact ih (nodup_adjoin nodup x)

theorem length_le_foldl_adjoin : dependencies.length ≤ (xs.foldl adjoin dependencies).length := by
  induction xs generalizing dependencies with
  | nil => exact le_rfl
  | cons x xs ih => exact (length_le_adjoin dependencies x).trans ih

/-- How many dependencies there are at the end. -/
theorem length_foldl_adjoin : (xs.foldl adjoin []).length = xs.dedup.length := by
  refine List.Perm.length_eq ?_
  rw [List.perm_ext_iff_of_nodup (nodup_foldl_adjoin List.nodup_nil) (List.nodup_dedup xs)]
  intro y
  rw [mem_foldl_adjoin, List.mem_dedup]
  simp

/-- The calls of `addDependency` end with an array that is too long, or put each dependency in it. -/
theorem addAll_eq (room : u.dependencies.length ≤ maximumNumberOfDependencies) :
    addAll xs u = if (xs.foldl adjoin u.dependencies).length ≤ maximumNumberOfDependencies then
        .ok { u with dependencies := xs.foldl adjoin u.dependencies }
      else .error .tooManyDependencies := by
  induction xs generalizing u with
  | nil => exact (if_pos room).symm
  | cons x xs ih =>
    rw [addAll, List.foldlM_cons, addDependency_eq room, List.foldl_cons]
    by_cases one : (adjoin u.dependencies x).length ≤ maximumNumberOfDependencies
    · rw [if_pos one, ok_bind]
      exact ih (u := { u with dependencies := adjoin u.dependencies x }) one
    · have all : ¬ (xs.foldl adjoin (adjoin u.dependencies x)).length ≤
          maximumNumberOfDependencies := fun fits => one (length_le_foldl_adjoin.trans fits)
      rw [if_neg one, if_neg all, error_bind]

theorem addAll_append (xs ys : List ℕ) (u : DynamicMicroOp) :
    addAll (xs ++ ys) u = addAll xs u >>= addAll ys := by
  rw [addAll, List.foldlM_append]
  rfl

theorem addAll_toList (x : Option ℕ) (u : DynamicMicroOp) : addAll x.toList u =
    match x with
    | none => .ok u
    | some x => u.addDependency x := by
  cases x with
  | none => rfl
  | some x => exact bind_pure _

end AddAll

/-! ## What the calls add -/

section Calls

variable {u : DynamicMicroOp} {low : ℕ} {known producers : RegisterDependencies}
  {m : MemoryDependencies}

/-- A producer that is no longer valid may be forgotten. -/
theorem forgets_forget {r x : ℕ} (forgets : RegisterDependencies.Forgets low known producers)
    (here : producers r = some x) (old : ¬ low ≤ x) :
    RegisterDependencies.Forgets low known (Function.update producers r none) := by
  intro q y
  by_cases same : q = r
  · subst same
    rw [Function.update_self]
    refine ⟨nofun, fun before valid => ?_⟩
    have now := (forgets q y).2 before valid
    rw [here, Option.some.injEq] at now
    exact absurd (now ▸ valid) old
  · rw [Function.update_of_ne same]
    exact forgets q y

/-- The valid producer of a register, as the table knows it. -/
theorem forgets_filter {r : ℕ} (forgets : RegisterDependencies.Forgets low known producers) :
    (known r).filter (low ≤ ·) = (producers r).filter (low ≤ ·) := by
  ext y
  rw [Option.filter_eq_some_iff, Option.filter_eq_some_iff, decide_eq_true_eq]
  exact and_congr_left fun valid => ⟨fun before => (forgets r y).2 before valid, (forgets r y).1⟩

theorem addSource_valid {r x : ℕ} (here : producers r = some x) (valid : low ≤ x) :
    RegisterDependencies.addSource low (producers, u) r =
      (u.addDependency x).map (Prod.mk producers) := by
  simp only [RegisterDependencies.addSource, here, if_pos valid]
  cases u.addDependency x <;> rfl

theorem addSource_old {r x : ℕ} (here : producers r = some x) (old : ¬ low ≤ x) :
    RegisterDependencies.addSource low (producers, u) r =
      .ok (Function.update producers r none, u) := by
  simp only [RegisterDependencies.addSource, here, if_neg old]

theorem addSource_none {r : ℕ} (here : producers r = none) :
    RegisterDependencies.addSource low (producers, u) r = .ok (producers, u) := by
  simp only [RegisterDependencies.addSource, here]

/-- **Registers**: the calls of `addDependency` for the source registers. -/
theorem addSources_eq (registers : List ℕ)
    (forgets : RegisterDependencies.Forgets low known producers) :
    ∃ kept, RegisterDependencies.Forgets low known kept ∧
      registers.foldlM (RegisterDependencies.addSource low) (producers, u) =
        (addAll (registers.filterMap fun r => (known r).filter (low ≤ ·)) u).map (Prod.mk kept) := by
  induction registers generalizing producers u with
  | nil => exact ⟨producers, forgets, rfl⟩
  | cons r registers ih =>
    have valid := forgets_filter (r := r) forgets
    rw [List.foldlM_cons]
    cases here : producers r with
    | none =>
      rw [here, Option.filter_none] at valid
      simp only [addSource_none here, List.filterMap_cons, valid]
      exact ih forgets
    | some x =>
      rw [here] at valid
      by_cases new : low ≤ x
      · rw [Option.filter_some_pos (by simpa using new)] at valid
        simp only [addSource_valid here new, List.filterMap_cons, valid, addAll, List.foldlM_cons]
        cases u.addDependency x with
        | error e => exact ⟨producers, forgets, rfl⟩
        | ok v => exact ih forgets
      · rw [Option.filter_some_neg (by simpa using new)] at valid
        simp only [addSource_old here new, List.filterMap_cons, valid]
        exact ih (forgets_forget forgets here new)

/-- What a call adds for the stores and the barriers. -/
def memorySources (low : ℕ) (m : MemoryDependencies) (u : DynamicMicroOp) : List ℕ :=
  (if u.isLoad then ((m.clean low).find u.address).toList else []) ++
    if ordered u then (m.membar.filter (low < ·)).toList else []

/-- What a call does to the tables of `MemoryDependencies`. -/
def memoryAfter (low : ℕ) (m : MemoryDependencies) (u : DynamicMicroOp) : MemoryDependencies where
  producers := (m.clean low).producers ++ if u.isStore then [(u.sequenceNumber, u.address)] else []
  membar := MemoryDependencies.membarAfter u m.membar

theorem addMembar_eq (low : ℕ) (m : MemoryDependencies) (u : DynamicMicroOp) :
    m.addMembar low u = addAll (m.membar.filter (low < ·)).toList u := by
  rw [MemoryDependencies.addMembar]
  cases m.membar with
  | none => rfl
  | some membar =>
    dsimp only
    by_cases above : low < membar
    · rw [if_pos above, Option.filter_some_pos (by simpa using above)]
      exact (addAll_toList (some membar) u).symm
    · rw [if_neg above, Option.filter_some_neg (by simpa using above)]
      rfl

theorem isStore_of_isLoad (load : u.isLoad = true) : u.isStore = false := by
  rw [DynamicMicroOp.isLoad, decide_eq_true_eq] at load
  simp [DynamicMicroOp.isStore, load]

/-- The same tables, whatever is added. -/
theorem bind_ok_eq_map {F A B : Type} (x : Except F A) (b : B) :
    (x >>= fun a => Except.ok (b, a)) = x.map (Prod.mk b) := by
  cases x <;> rfl

/-- **Memory**: the calls of `addDependency` for the last store and the last barrier, unless the queue
is full. -/
theorem memory_setDependencies_eq (room : u.isStore = true → (m.clean low).producers.length < 1024) :
    m.setDependencies low u =
      (addAll (memorySources low m u) u).map (Prod.mk (memoryAfter low m u)) := by
  rw [MemoryDependencies.setDependencies, memorySources, addAll_append]
  dsimp only
  have membar : (m.clean low).membar = m.membar := rfl
  by_cases load : u.isLoad = true
  · have noStore := isStore_of_isLoad load
    have orders : ordered u = true := by simp [ordered, load]
    have after : memoryAfter low m u = m.clean low := by
      simp [memoryAfter, MemoryDependencies.membarAfter, MemoryDependencies.clean, load, noStore]
    rw [if_pos load, if_pos load, if_pos orders, addAll_toList, after, ← bind_ok_eq_map, bind_assoc]
    simp only [addMembar_eq, membar]
    cases (m.clean low).find u.address <;> rfl
  · rw [if_neg load, if_neg load, show addAll [] u = .ok u from rfl, ok_bind]
    by_cases store : u.isStore = true
    · have orders : ordered u = true := by simp [ordered, store]
      rw [if_pos store, if_pos orders, MemoryDependencies.add, if_pos (room store), ok_bind,
        addMembar_eq, bind_ok_eq_map]
      have after : memoryAfter low m u =
          { m.clean low with producers := (m.clean low).producers ++ [(u.sequenceNumber, u.address)] } := by
        simp [memoryAfter, MemoryDependencies.membarAfter, store, membar]
      rw [after]
      rfl
    · by_cases barrier : u.microOp.membar = true
      · have orders : ordered u = true := by simp [ordered, barrier]
        rw [if_neg store, if_pos barrier, if_pos orders, addMembar_eq, membar]
        have after : memoryAfter low m u =
            { m.clean low with membar := some u.sequenceNumber } := by
          simp [memoryAfter, MemoryDependencies.membarAfter, store, load, barrier]
        rw [after]
        cases added : addAll (m.membar.filter (low < ·)).toList u with
        | error e => rfl
        | ok v =>
          rw [ok_bind, DynamicMicroOp.sequenceNumber_of_bare
            (DynamicMicroOp.foldlM_addDependency_spec added).1]
          rfl
      · have orders : ¬ ordered u = true := by simp [ordered, barrier, load, store]
        rw [if_neg store, if_neg barrier, if_neg orders]
        have after : memoryAfter low m u = m.clean low := by
          simp [memoryAfter, MemoryDependencies.membarAfter, MemoryDependencies.clean, store, barrier]
        rw [after]
        rfl

end Calls

/-! ## What the tables know -/

/-- In a list sorted so that what satisfies `q` comes first, the first element that satisfies `p` is
the only one to look at. -/
theorem find?_and_of_sorted {A : Type} {p q : A → Bool} {l : List A}
    (sorted : l.Pairwise fun a b => q b = true → q a = true) :
    l.find? (fun a => p a && q a) = (l.find? p).filter q := by
  induction l with
  | nil => rfl
  | cons a l ih =>
    obtain ⟨first, rest⟩ := List.pairwise_cons.1 sorted
    rw [List.find?_cons, List.find?_cons]
    cases here : p a with
    | false =>
      rw [Bool.false_and]
      exact ih rest
    | true =>
      rw [Bool.true_and]
      cases holds : q a with
      | true => exact (Option.filter_some_pos holds).symm
      | false =>
        have none : l.find? (fun a => p a && q a) = none := by
          rw [List.find?_eq_none]
          intro b member both
          rw [Bool.and_eq_true] at both
          exact absurd (first b member both.2) (by simp [holds])
        dsimp only
        rw [none, Option.filter_some_neg (by simp [holds])]

section Knows

variable {older : List DynamicMicroOp} {op : DynamicMicroOp} {a : Arrival} {s : Tables} {low : ℕ}

theorem latest_concat (p : DynamicMicroOp → Bool) : latest p (older ++ [op]) =
    if p op then some op.sequenceNumber else latest p older := by
  rw [latest, List.reverse_append, List.reverse_singleton, List.singleton_append, List.find?_cons]
  cases p op <;> rfl

/-- Micro-ops in the order of their numbers. -/
def InOrder (ops : List DynamicMicroOp) : Prop :=
  ops.Pairwise fun a b => a.sequenceNumber < b.sequenceNumber

/-- What the tables know: the last writers of the registers, unless they are forgotten; the stores from
`low` on; and the last fence. -/
structure Knows (low : ℕ) (older : List DynamicMicroOp) (s : Tables) : Prop where
  registers : RegisterDependencies.Forgets low (fun r => latest (writes r) older) s.1
  stores : s.2.producers = (storesFrom low older).map fun op => (op.sequenceNumber, op.address)
  membar : s.2.membar = latest isFence older

theorem knows_start : Knows 0 [] Tables.start where
  registers := .refl _
  stores := rfl
  membar := rfl

theorem storesFrom_storesFrom {low' : ℕ} (later : low ≤ low') :
    (storesFrom low older).filter (fun op => low' ≤ op.sequenceNumber) = storesFrom low' older := by
  rw [storesFrom, storesFrom, List.filter_filter]
  refine List.filter_congr fun op _ => ?_
  by_cases store : op.isStore = true
  · by_cases new : low' ≤ op.sequenceNumber
    · simp [store, new, later.trans new]
    · simp [new]
  · simp [store]

/-- The queue after cleaning. -/
theorem Knows.clean (knows : Knows low older s) (inOrder : InOrder older) (later : low ≤ a.low) :
    (s.2.clean a.low).producers =
      (storesFrom a.low older).map fun op => (op.sequenceNumber, op.address) := by
  have sorted : s.2.producers.Pairwise fun p r => p.1 < r.1 := by
    rw [knows.stores, List.pairwise_map]
    exact inOrder.filter _
  rw [MemoryDependencies.clean, dropWhile_eq_filter sorted, knows.stores, List.filter_map,
    ← storesFrom_storesFrom later]
  rfl

/-- The last store to an address, if it is valid. -/
theorem Knows.find_eq (knows : Knows low older s) (inOrder : InOrder older) (later : low ≤ a.low)
    (address : ℕ) : (s.2.clean a.low).find address =
      (latest (storesTo address) older).filter (a.low ≤ ·) := by
  have sorted : older.reverse.Pairwise fun x y => decide (a.low ≤ y.sequenceNumber) = true →
      decide (a.low ≤ x.sequenceNumber) = true := by
    rw [List.pairwise_reverse]
    refine inOrder.imp fun less => ?_
    simp only [decide_eq_true_eq]
    exact fun valid => valid.trans less.le
  have found := find?_and_of_sorted (p := storesTo address) sorted
  rw [MemoryDependencies.find, knows.clean inOrder later, ← List.map_reverse, List.find?_map,
    storesFrom, ← List.filter_reverse, List.find?_filter, latest, Option.map_map, Option.filter_map]
  refine congrArg _ (Eq.trans (congrArg (List.find? · _) (funext fun op => ?_)) found)
  simp [storesTo, Bool.and_right_comm]

/-- What the calls add to the micro-op: of the barriers, a fence above the lowest valid number. -/
def added (older : List DynamicMicroOp) (a : Arrival) : List ℕ :=
  sources older a ++
    if ordered a.op then ((latest isFence older).filter (a.low < ·)).toList else []

/-- The last writers after a new micro-op. -/
def written (producers : RegisterDependencies) (u : DynamicMicroOp) : RegisterDependencies :=
  u.microOp.destinationRegisters.foldl
    (fun producers destination => Function.update producers destination (some u.sequenceNumber))
    producers

theorem forgets_written {known kept : RegisterDependencies} (u : DynamicMicroOp)
    (forgets : RegisterDependencies.Forgets low known kept) :
    RegisterDependencies.Forgets low
      (fun r => if writes r u then some u.sequenceNumber else known r) (written kept u) := by
  intro r y
  rw [written, RegisterDependencies.updateDestinations]
  by_cases writing : r ∈ u.microOp.destinationRegisters
  · simp only [writes, writing, decide_true, if_true]
    exact ⟨id, fun known _ => known⟩
  · simpa [writes, writing] using forgets r y

/-- Nothing but the array matters to the calls for the memory. -/
theorem memory_of_bare {u v : DynamicMicroOp} (same : v.bare = u.bare) (low : ℕ)
    (m : MemoryDependencies) :
    memorySources low m v = memorySources low m u ∧ memoryAfter low m v = memoryAfter low m u := by
  constructor
  · rw [memorySources, memorySources, ordered, ordered, DynamicMicroOp.isLoad_of_bare same,
      DynamicMicroOp.isStore_of_bare same, DynamicMicroOp.microOp_of_bare same,
      DynamicMicroOp.address_of_bare same]
  · rw [memoryAfter, memoryAfter, MemoryDependencies.membarAfter, MemoryDependencies.membarAfter,
      DynamicMicroOp.isLoad_of_bare same, DynamicMicroOp.isStore_of_bare same,
      DynamicMicroOp.microOp_of_bare same, DynamicMicroOp.address_of_bare same,
      DynamicMicroOp.sequenceNumber_of_bare same]

/-- The last fence after a new micro-op. -/
theorem membarAfter_eq (op : DynamicMicroOp) (older : List DynamicMicroOp) :
    MemoryDependencies.membarAfter op (latest isFence older) = latest isFence (older ++ [op]) := by
  rw [latest_concat, MemoryDependencies.membarAfter, isFence]
  cases op.isLoad <;> cases op.isStore <;> cases op.microOp.membar <;> rfl

/-- **The calls for a new micro-op**: what they add, and what the tables know afterwards. The queue has
room, since the stores in it are in the window. -/
theorem Knows.enter (knows : Knows low older s) (inOrder : InOrder older) (later : low ≤ a.low)
    (below : a.low ≤ a.op.sequenceNumber)
    (window : (storesFrom a.low (older ++ [a.op])).length ≤ 1024) :
    ∃ s', Knows a.low (older ++ [a.op]) s' ∧
      a.enter s = (addAll (added older a) a.op).map (Prod.mk s') := by
  have forgets : RegisterDependencies.Forgets a.low (fun r => latest (writes r) older) s.1 :=
    fun r y => ⟨(knows.registers r y).1, fun known valid =>
      (knows.registers r y).2 known (later.trans valid)⟩
  obtain ⟨kept, forgets', registers⟩ := addSources_eq (u := a.op) a.op.microOp.sourceRegisters forgets
  have stores : storesFrom a.low (older ++ [a.op]) =
      storesFrom a.low older ++ if a.op.isStore then [a.op] else [] := by
    rw [storesFrom, List.filter_append, storesFrom]
    cases store : a.op.isStore <;> simp [store, below]
  have cleaned := knows.clean inOrder later
  refine ⟨(written kept a.op, memoryAfter a.low s.2 a.op), ⟨?_, ?_, ?_⟩, ?_⟩
  · simpa only [latest_concat] using forgets_written a.op forgets'
  · rw [memoryAfter, cleaned, stores, List.map_append]
    cases a.op.isStore <;> rfl
  · rw [memoryAfter, knows.membar, membarAfter_eq]
  · rw [Arrival.enter, RegisterDependencies.setDependencies, registers, added, sources,
      List.append_assoc, addAll_append]
    cases first : addAll (a.op.microOp.sourceRegisters.filterMap fun r =>
        (latest (writes r) older).filter (a.low ≤ ·)) a.op with
    | error e => rfl
    | ok v =>
      have same := (DynamicMicroOp.foldlM_addDependency_spec first).1
      have room : v.isStore = true → (s.2.clean a.low).producers.length < 1024 := by
        intro store
        rw [DynamicMicroOp.isStore_of_bare same] at store
        rw [stores, if_pos store, List.length_append] at window
        rw [cleaned, List.length_map]
        exact window
      have wanted : memorySources a.low s.2 a.op = (if a.op.isLoad then
          ((latest (storesTo a.op.address) older).filter (a.low ≤ ·)).toList else []) ++
          if ordered a.op then ((latest isFence older).filter (a.low < ·)).toList else [] := by
        rw [memorySources, knows.find_eq inOrder later, knows.membar]
      have updated : written kept v = written kept a.op := by
        rw [written, written, DynamicMicroOp.microOp_of_bare same,
          DynamicMicroOp.sequenceNumber_of_bare same]
      change (MemoryDependencies.setDependencies a.low s.2 v >>= fun r =>
        Except.ok ((written kept v, r.1), r.2)) = _
      rw [memory_setDependencies_eq room, (memory_of_bare same a.low s.2).1,
        (memory_of_bare same a.low s.2).2, wanted, updated, ok_bind]
      cases addAll _ v <;> rfl

end Knows

/-! ## Runs -/

section Runs

variable {older : List DynamicMicroOp} {l : List Arrival} {a : Arrival} {s : Tables} {first : ℕ}

theorem steady_concat (steady : Steady first (l ++ [a])) :
    Steady first l ∧ a.op.sequenceNumber = first + l.length ∧ a.op.dependencies = [] ∧
      (∀ b ∈ l, b.low ≤ a.low) ∧ a.low ≤ a.op.sequenceNumber ∧
      (storesFrom a.low (l.map Arrival.op ++ [a.op])).length ≤ 1024 := by
  have inside (b : Arrival) (member : b ∈ l) : b ∈ l ++ [a] := List.mem_append_left _ member
  have own : a ∈ l ++ [a] := by simp
  obtain ⟨numbered, number⟩ := forall_split_concat.1 steady.numbered
  obtain ⟨window, here⟩ := forall_split_concat.1 steady.window
  obtain ⟨moves, -, last⟩ := List.pairwise_append.1 steady.moves
  refine ⟨⟨numbered, fun b member => steady.fresh b (inside b member), moves,
    fun b member => steady.below b (inside b member), window⟩, number, steady.fresh a own,
    fun b member => last b member a (List.mem_singleton_self a), steady.below a own, here⟩

theorem steady_of_append {l' : List Arrival} (steady : Steady first (l ++ l')) : Steady first l := by
  induction l' using List.reverseRecOn with
  | nil => exact List.append_nil l ▸ steady
  | append_singleton l' a ih =>
    rw [← List.append_assoc] at steady
    exact ih (steady_concat steady).1

theorem Steady.number_lt (steady : Steady first l) :
    ∀ a ∈ l, a.op.sequenceNumber < first + l.length := by
  intro a member
  obtain ⟨older, newer, split⟩ := List.append_of_mem member
  rw [steady.numbered older a newer split, split, List.length_append, List.length_cons]
  omega

theorem Steady.inOrder (steady : Steady first l) : InOrder (l.map Arrival.op) := by
  induction l using List.reverseRecOn with
  | nil => exact List.Pairwise.nil
  | append_singleton l a ih =>
    obtain ⟨before, number, -⟩ := steady_concat steady
    rw [List.map_append, List.map_singleton]
    refine List.pairwise_append.2 ⟨ih before, List.pairwise_singleton _ _, ?_⟩
    intro op member own here
    obtain ⟨b, inside, rfl⟩ := List.mem_map.1 member
    rw [List.mem_singleton.1 here, number]
    exact before.number_lt b inside

theorem enterAll_concat : enterAll (l ++ [a]) =
    enterAll l >>= fun s => (a.enter s).map Prod.fst :=
  runEvents_concat a

/-- What the tables know after the micro-ops. -/
def KnowsAll (l : List Arrival) (s : Tables) : Prop :=
  ∃ low, Knows low (l.map Arrival.op) s ∧ ∀ low', (∀ b ∈ l, b.low ≤ low') → low ≤ low'

/-- The calls for the next micro-op of a stream. -/
theorem KnowsAll.enter (knows : KnowsAll l s) (steady : Steady first (l ++ [a])) :
    ∃ s', KnowsAll (l ++ [a]) s' ∧
      a.enter s = (addAll (added (l.map Arrival.op) a) a.op).map (Prod.mk s') := by
  obtain ⟨low, knows, least⟩ := knows
  obtain ⟨before, -, -, moves, below, window⟩ := steady_concat steady
  obtain ⟨s', knows', entered⟩ := knows.enter before.inOrder (least a.low moves) below window
  refine ⟨s', ⟨a.low, ?_, fun low' all => all a (by simp)⟩, entered⟩
  rw [List.map_append]
  exact knows'

theorem added_eq (fresh : a.op.dependencies = []) :
    addAll (added older a) a.op = if (added older a).dedup.length ≤ maximumNumberOfDependencies then
        .ok { a.op with dependencies := (added older a).foldl adjoin [] }
      else .error .tooManyDependencies := by
  rw [addAll_eq (by rw [fresh]; exact Nat.zero_le _), fresh, length_foldl_adjoin]

/-- **Runs**: the tables know the last writers and stores, and the only assertion that may fail is about
the array of dependencies. -/
theorem enterAll_knows (steady : Steady first l) :
    Ensures (KnowsAll l) (· = .tooManyDependencies) (enterAll l) := by
  induction l using List.reverseRecOn with
  | nil => exact ⟨0, knows_start, fun _ _ => Nat.zero_le _⟩
  | append_singleton l a ih =>
    obtain ⟨before, -, fresh, -⟩ := steady_concat steady
    rw [enterAll_concat]
    refine (ih before).bind fun s knows => ?_
    obtain ⟨s', knows', entered⟩ := knows.enter steady
    rw [entered, added_eq fresh]
    split_ifs
    · exact knows'
    · rfl

end Runs

/-! ## Exactness -/

section Exactness

variable {older : List DynamicMicroOp} {l : List Arrival} {a : Arrival} {s : Tables} {first : ℕ}

theorem Exact.ok (exact : Exact l) : ∃ s, enterAll l = .ok s := by
  rcases List.eq_nil_or_concat l with rfl | ⟨before, a, rfl⟩
  · exact ⟨_, rfl⟩
  · rw [List.concat_eq_append] at exact ⊢
    obtain ⟨s, s', u, ran, entered, -⟩ := (forall_split_concat.1 exact).2
    refine ⟨s', ?_⟩
    rw [enterAll_concat, ran, ok_bind, entered]
    rfl

/-- What is added is what should be, exactly if the last barrier is seen. -/
theorem added_iff_expected : (∀ y, y ∈ added older a ↔ y ∈ expected older a) ↔
    (ordered a.op = true → BarrierSeen older a) := by
  by_cases orders : ordered a.op = true
  · simp only [added, expected, orders, if_true, List.mem_append, Option.mem_toList,
      Option.filter_eq_some_iff, decide_eq_true_eq, forall_const]
    constructor
    · intro same
      refine ⟨fun y last valid other => ?_, fun y last above other => ?_⟩
      · rcases (same y).2 (.inr ⟨last, valid⟩) with there | seen
        · exact absurd there other
        · exact seen
      · rcases (same y).1 (.inr ⟨last, above⟩) with there | seen
        · exact absurd there other
        · exact seen.1
    · intro seen y
      by_cases other : y ∈ sources older a
      · simp [other]
      · simp only [other, false_or]
        exact ⟨fun fence => ⟨seen.only y fence.1 fence.2 other, fence.2.le⟩,
          fun barrier => seen.found y barrier.1 barrier.2 other⟩
  · simp [added, expected, orders]

/-- One micro-op gets what it should. -/
theorem enter_exact_iff (knows : KnowsAll l s) (steady : Steady first (l ++ [a])) :
    (∃ s' u, a.enter s = .ok (s', u) ∧ u.dependencies.Nodup ∧
      ∀ y, y ∈ u.dependencies ↔ y ∈ expected (l.map Arrival.op) a) ↔
      HasRoom (l.map Arrival.op) a ∧ (ordered a.op = true → BarrierSeen (l.map Arrival.op) a) := by
  obtain ⟨-, -, fresh, -⟩ := steady_concat steady
  obtain ⟨s₁, -, entered⟩ := knows.enter steady
  rw [← added_iff_expected, entered, added_eq fresh]
  have room (same : ∀ y, y ∈ added (l.map Arrival.op) a ↔ y ∈ expected (l.map Arrival.op) a) :
      HasRoom (l.map Arrival.op) a ↔
        (added (l.map Arrival.op) a).dedup.length ≤ maximumNumberOfDependencies := by
    have perm : (added (l.map Arrival.op) a).dedup.Perm (expected (l.map Arrival.op) a).dedup := by
      rw [List.perm_ext_iff_of_nodup (List.nodup_dedup _) (List.nodup_dedup _)]
      simpa only [List.mem_dedup] using same
    rw [HasRoom, perm.length_eq]
  constructor
  · rintro ⟨s', u, ran, -, exact⟩
    split_ifs at ran with fits
    · cases ran
      simp only [mem_foldl_adjoin, List.not_mem_nil, false_or] at exact
      exact ⟨(room exact).2 fits, exact⟩
    · cases ran
  · rintro ⟨has, same⟩
    rw [if_pos ((room same).1 has)]
    refine ⟨s₁, _, rfl, nodup_foldl_adjoin List.nodup_nil, fun y => ?_⟩
    rw [← same y]
    simp [mem_foldl_adjoin]

theorem exact_iff_of_steady (steady : Steady first l) :
    Exact l ↔ ∀ older a newer, l = older ++ a :: newer → HasRoom (older.map Arrival.op) a ∧
        (ordered a.op = true → BarrierSeen (older.map Arrival.op) a) := by
  induction l using List.reverseRecOn with
  | nil =>
    exact iff_of_true (fun older a newer split => absurd split (by simp))
      fun older a newer split => absurd split (by simp)
  | append_singleton l a ih =>
    obtain ⟨before, -⟩ := steady_concat steady
    rw [Exact, forall_split_concat, forall_split_concat, ← ih before]
    refine and_congr_right fun exact => ?_
    obtain ⟨s, ran⟩ := Exact.ok exact
    have knows := (enterAll_knows before).of_ok ran
    rw [← enter_exact_iff knows steady]
    constructor
    · rintro ⟨t, s', u, ran', rest⟩
      cases ran.symm.trans ran'
      exact ⟨s', u, rest⟩
    · rintro ⟨s', u, rest⟩
      exact ⟨s, s', u, ran, rest⟩

/-- **Exact dependencies**: the queue of stores never overflows; and all the micro-ops of a stream get
exactly the dependencies that they should get, if and only if the array has room for them and each
load, store or barrier sees the last barrier. -/
theorem exact_iff (stream : Stream) :
    (∀ older newer, stream.arrivals = older ++ newer → enterAll older ≠ .error .queueFull) ∧
      (Exact stream.arrivals ↔ ∀ older a newer, stream.arrivals = older ++ a :: newer →
        HasRoom (older.map Arrival.op) a ∧
          (ordered a.op = true → BarrierSeen (older.map Arrival.op) a)) := by
  refine ⟨fun older newer split overflow => ?_, exact_iff_of_steady stream.steady⟩
  have ran := enterAll_knows (steady_of_append (split ▸ stream.steady))
  rw [overflow] at ran
  cases ran

end Exactness

/-- A fence, still the oldest micro-op of the window, and then a load. -/
def fenceThenLoad : Stream where
  first := 0
  arrivals := [⟨{ plainMicroOp [] [] 1 false with
    microOp := ⟨.execute, [], [], [], false, false, true, 0, 0⟩ }, 0⟩,
    ⟨{ memoryMicroOp .load [] [1] 64 with sequenceNumber := 1 }, 0⟩]
  steady := by
    refine ⟨?_, by simp [plainMicroOp, memoryMicroOp], by simp, by simp, ?_⟩
    · rw [forall_split_cons, forall_split_cons]
      simp [plainMicroOp]
    · rw [forall_split_cons, forall_split_cons]
      refine ⟨by decide, by decide, ?_⟩
      simp

/-- The load does not wait for the fence. -/
theorem not_exact_fence : ¬ Exact fenceThenLoad.arrivals := by
  intro exact
  obtain ⟨s, s', u, ran, entered, -, members⟩ := exact [_] _ [] rfl
  cases ran
  cases entered
  have missing := (members 0).2 (by decide)
  cases missing

end GpuHotSpot.Common.DependencyTables
