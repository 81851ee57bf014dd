import Mathlib.Data.List.Forall2
import Mathlib.Data.List.Induction
import GpuHotSpot.Lib.KeyedFilter

/-!
# Fast-forwarding spinlocks

`recv_thread_fun` of `util/tracer_nvbit/tracer_tool/tracer_tool.cu`: the records of
all warps of a kernel come in one stream. Every warp has a counter for each spinlock
instruction of the kernel. A spinlock instruction counts up, and is left out once its
counter is beyond `spinlock_iter_to_keep`; any other instruction sets the counters of
its warp back to 0.

The counters of a warp are made when its first record comes, and all are dropped at
the record that ends a kernel.

* `recvThreadFun_eq`: every kernel of a run starts without counters.
* `recvThreadFun_fastForwarded`: what is written for each warp of each kernel.
-/

namespace GpuHotSpot.Tracer

/-! ## Records and counters -/

/-- `inst_trace_t`: the warp and the instruction, and what else is printed of a record. -/
structure InstTrace (α : Type*) where
  ctaIdX : BitVec 32
  ctaIdY : BitVec 32
  ctaIdZ : BitVec 32
  warpidTb : BitVec 32
  instrIdx : BitVec 32
  printed : α

/-- `warp_key_t`. -/
abbrev WarpKey := BitVec 32 × BitVec 32 × BitVec 32 × BitVec 32

/-- `counter_t`. -/
abbrev Counter := BitVec 32 → Option ℕ

abbrev WarpCounterMap := WarpKey → Option Counter

/-- `create_counter`. -/
def createCounter (indices : List (BitVec 32)) : Counter :=
  indices.foldl (fun counter instrIdx => Function.update counter instrIdx (some 0)) fun _ => none

/-- `for (auto &[instr_idx, count] : counter) count = 0`. -/
def resetCounter (counter : Counter) : Counter := fun instrIdx => (counter instrIdx).map fun _ => 0

/-- The settings of fast-forwarding. -/
structure SpinlockSettings where
  enableSpinlockFastForward : Bool
  spinlockIterToKeep : BitVec 32

/-- `spinlock_iter_to_keep` as a `size_t`, which is what a counter is compared with. -/
def SpinlockSettings.threshold (s : SpinlockSettings) : ℕ :=
  (s.spinlockIterToKeep.signExtend 64).toNat

section Receive

variable {α : Type*} (s : SpinlockSettings)

def InstTrace.warpKey (ma : InstTrace α) : WarpKey :=
  (ma.ctaIdX, ma.ctaIdY, ma.ctaIdZ, ma.warpidTb)

/-- The record that `flush_channel` sends when a kernel is completed. -/
def InstTrace.EndsKernel (ma : InstTrace α) : Prop := ma.ctaIdX = -1#32

instance (ma : InstTrace α) : Decidable ma.EndsKernel := inferInstanceAs (Decidable (_ = _))

variable (indices : List (BitVec 32))

/-- Fast-forwarding of one record: whether it is dumped, and the counters behind it. -/
def fastForward (m : WarpCounterMap) (ma : InstTrace α) : Bool × WarpCounterMap :=
  if s.enableSpinlockFastForward then
    let m := if (m ma.warpKey).isNone then
        Function.update m ma.warpKey (some (createCounter indices)) else m
    let counter := (m ma.warpKey).getD fun _ => none
    match counter ma.instrIdx with
    | some count =>
      (!(decide (s.threshold < count + 1)),
        Function.update m ma.warpKey
          (some (Function.update counter ma.instrIdx (some (count + 1)))))
    | none => (true, Function.update m ma.warpKey (some (resetCounter counter)))
  else (true, m)

/-- The records of a buffer: what is dumped, the counters, and whether the kernel goes on. -/
def recvBuffer (m : WarpCounterMap) : List (InstTrace α) → List (InstTrace α) × WarpCounterMap × Bool
  | [] => ([], m, true)
  | ma :: rest =>
    if ma.EndsKernel then
      ([], if s.enableSpinlockFastForward then fun _ => none else m, false)
    else
      let (dumped, m') := fastForward s indices m ma
      let (written, m'', recvThreadReceiving) := recvBuffer m' rest
      (if dumped then ma :: written else written, m'', recvThreadReceiving)

/-- The buffers received while a kernel runs. -/
def recvKernel (m : WarpCounterMap) :
    List (List (InstTrace α)) → List (InstTrace α) × WarpCounterMap
  | [] => ([], m)
  | buffer :: buffers =>
    let (written, m', recvThreadReceiving) := recvBuffer s indices m buffer
    if recvThreadReceiving then
      let (written', m'') := recvKernel m' buffers
      (written ++ written', m'')
    else (written, m')

end Receive

/-- A kernel with its spinlock instructions: the records of its warps, cut into buffers anywhere,
and the record at the end. -/
structure TracedKernel (α : Type*) where
  indices : List (BitVec 32)
  records : List (InstTrace α)
  last : InstTrace α
  buffers : List (List (InstTrace α))
  ofCtas : ∀ ma ∈ records, ¬ ma.EndsKernel
  ends : last.EndsKernel
  received : buffers.flatten = records ++ [last]

/-- `recv_thread_fun`: what is written for each of the kernels. -/
def recvThreadFun {α : Type*} (s : SpinlockSettings) (m : WarpCounterMap) :
    List (TracedKernel α) → List (List (InstTrace α))
  | [] => []
  | kernel :: kernels =>
    let (written, m') := recvKernel s kernel.indices m kernel.buffers
    written :: recvThreadFun s m' kernels

/-! ## A filter with counters for every warp -/

section Filter

variable {α : Type*} (s : SpinlockSettings) (indices : List (BitVec 32))

/-- The counters of a warp behind a record. -/
def nextCounter (counter : Counter) (ma : InstTrace α) : Counter :=
  match counter ma.instrIdx with
  | some count => Function.update counter ma.instrIdx (some (count + 1))
  | none => resetCounter counter

/-- A record is dumped. -/
def dumps (counter : Counter) (ma : InstTrace α) : Bool :=
  match counter ma.instrIdx with
  | some count => !(decide (s.threshold < count + 1))
  | none => true

/-- Fast-forwarding as a filter. -/
def spinlockFilter : KeyedFilter (InstTrace α) WarpKey Counter where
  key := InstTrace.warpKey
  fresh := createCounter indices
  keep := dumps s
  next := nextCounter

/-- What is written of the records of a kernel that starts without counters. -/
def written (records : List (InstTrace α)) : List (InstTrace α) :=
  (spinlockFilter s indices).mixed (fun _ => none) records

variable {s} {indices}

/-- One record goes through the filter. -/
theorem fastForward_eq (enabled : s.enableSpinlockFastForward = true) (m : WarpCounterMap)
    (ma : InstTrace α) :
    fastForward s indices m ma =
      (dumps s ((spinlockFilter (α := α) s indices).current m ma.warpKey) ma,
        (spinlockFilter s indices).step m ma) := by
  have stepped : (spinlockFilter s indices).step m ma = Function.update m ma.warpKey
      (some (nextCounter ((spinlockFilter (α := α) s indices).current m ma.warpKey) ma)) := rfl
  have made : ((if (m ma.warpKey).isNone then
      Function.update m ma.warpKey (some (createCounter indices)) else m) ma.warpKey).getD
        (fun _ => none) = (spinlockFilter (α := α) s indices).current m ma.warpKey := by
    cases known : m ma.warpKey with
    | none => simp [KeyedFilter.current, known, spinlockFilter]
    | some counter => simp [KeyedFilter.current, known]
  have updated (counter : Counter) : Function.update (if (m ma.warpKey).isNone then
      Function.update m ma.warpKey (some (createCounter indices)) else m) ma.warpKey (some counter) =
        Function.update m ma.warpKey (some counter) := by
    split_ifs
    · exact Function.update_idem ..
    · rfl
  rw [fastForward, if_pos enabled, stepped]
  simp only [made, updated]
  generalize (spinlockFilter (α := α) s indices).current m ma.warpKey = counter
  cases found : counter ma.instrIdx <;> simp [dumps, nextCounter, found]

/-- Where a buffer is cut does not matter. -/
theorem recvBuffer_append (m : WarpCounterMap) (front back : List (InstTrace α)) :
    recvBuffer s indices m (front ++ back) =
      let (written, m', recvThreadReceiving) := recvBuffer s indices m front
      if recvThreadReceiving then
        let (written', m'', recvThreadReceiving') := recvBuffer s indices m' back
        (written ++ written', m'', recvThreadReceiving')
      else (written, m', false) := by
  induction front generalizing m with
  | nil => rfl
  | cons ma front ih =>
    rw [List.cons_append, recvBuffer, recvBuffer]
    by_cases ends : ma.EndsKernel
    · rw [if_pos ends, if_pos ends]
      rfl
    · rw [if_neg ends, if_neg ends]
      simp only [ih]
      split_ifs <;> rfl

/-- The buffers of a kernel count as one. -/
theorem recvKernel_eq (m : WarpCounterMap) (buffers : List (List (InstTrace α))) :
    recvKernel s indices m buffers =
      ((recvBuffer s indices m buffers.flatten).1, (recvBuffer s indices m buffers.flatten).2.1) := by
  induction buffers generalizing m with
  | nil => rfl
  | cons buffer buffers ih =>
    rw [recvKernel, List.flatten_cons, recvBuffer_append]
    simp only [ih]
    split_ifs <;> rfl

/-- The records of a kernel go through the filter, and its last record drops all counters. -/
theorem recvBuffer_eq (enabled : s.enableSpinlockFastForward = true) (m : WarpCounterMap)
    {records : List (InstTrace α)} (ofCtas : ∀ ma ∈ records, ¬ ma.EndsKernel) {last : InstTrace α}
    (ends : last.EndsKernel) :
    recvBuffer s indices m (records ++ [last]) =
      ((spinlockFilter s indices).mixed m records, fun _ => none, false) := by
  induction records generalizing m with
  | nil =>
    rw [List.nil_append, recvBuffer, if_pos ends, if_pos enabled]
    rfl
  | cons ma records ih =>
    rw [List.forall_mem_cons] at ofCtas
    rw [List.cons_append, recvBuffer, if_neg ofCtas.1, fastForward_eq enabled]
    simp only [ih _ ofCtas.2]
    rw [KeyedFilter.mixed]
    rfl

/-- **A run.** Every kernel starts without counters. -/
theorem recvThreadFun_eq (enabled : s.enableSpinlockFastForward = true)
    (kernels : List (TracedKernel α)) :
    recvThreadFun s (fun _ => none) kernels =
      kernels.map fun kernel => written s kernel.indices kernel.records := by
  induction kernels with
  | nil => rfl
  | cons kernel kernels ih =>
    rw [recvThreadFun, recvKernel_eq, kernel.received,
      recvBuffer_eq enabled _ kernel.ofCtas kernel.ends, List.map_cons, ← ih]
    rfl

end Filter

/-! ## One warp -/

section Warp

variable {α : Type*} {s : SpinlockSettings} {indices : List (BitVec 32)}

theorem createCounter_apply (indices : List (BitVec 32)) (instrIdx : BitVec 32) :
    createCounter indices instrIdx = if instrIdx ∈ indices then some 0 else none := by
  have fold (counter : Counter) :
      indices.foldl (fun counter instrIdx => Function.update counter instrIdx (some 0)) counter
          instrIdx = if instrIdx ∈ indices then some 0 else counter instrIdx := by
    induction indices generalizing counter with
    | nil => rfl
    | cons i indices ih =>
      rw [List.foldl_cons, ih]
      by_cases same : instrIdx = i
      · subst same
        simp
      · simp [same]
  exact fold _

/-- There is a counter for each of the spinlock instructions and for nothing else. -/
def Counts (indices : List (BitVec 32)) (counter : Counter) : Prop :=
  ∀ instrIdx, (counter instrIdx).isSome = true ↔ instrIdx ∈ indices

theorem counts_createCounter : Counts indices (createCounter indices) := by
  intro instrIdx
  rw [createCounter_apply]
  split_ifs with spins <;> simp [spins]

theorem Counts.next {counter : Counter} (counts : Counts indices counter) (ma : InstTrace α) :
    Counts indices (nextCounter counter ma) := by
  intro instrIdx
  cases found : counter ma.instrIdx with
  | some count =>
    simp only [nextCounter, found]
    by_cases same : instrIdx = ma.instrIdx
    · subst same
      rw [Function.update_self, ← counts, found]
      simp
    · rw [Function.update_of_ne same]
      exact counts instrIdx
  | none =>
    simp only [nextCounter, found, resetCounter, Option.isSome_map]
    exact counts instrIdx

theorem Counts.after {counter : Counter} (counts : Counts indices counter)
    (records : List (InstTrace α)) : Counts indices ((spinlockFilter s indices).after counter records) := by
  induction records generalizing counter with
  | nil => exact counts
  | cons ma records ih => exact ih (counts.next ma)

/-- An instruction that is none of a spinlock is dumped and starts all over. -/
theorem Counts.leaves {counter : Counter} (counts : Counts indices counter) {ma : InstTrace α}
    (leaves : ma.instrIdx ∉ indices) :
    dumps s counter ma = true ∧ nextCounter counter ma = createCounter indices := by
  have none : counter ma.instrIdx = none := by
    rw [← Option.not_isSome_iff_eq_none, counts]
    exact leaves
  simp only [dumps, nextCounter, none, true_and]
  refine funext fun instrIdx => ?_
  rw [createCounter_apply, resetCounter]
  split_ifs with spins
  · obtain ⟨count, found⟩ := Option.isSome_iff_exists.mp ((counts instrIdx).mpr spins)
    rw [found, Option.map_some]
  · rw [Option.map_eq_none_iff, ← Option.not_isSome_iff_eq_none, counts]
    exact spins

/-- **In a loop** of spinlock instructions, as many records of each are dumped as its counter is below
the threshold. -/
theorem filter_alone_loop {counter : Counter} {loop : List (InstTrace α)}
    (spins : ∀ ma ∈ loop, (counter ma.instrIdx).isSome = true) {instrIdx : BitVec 32} {count : ℕ}
    (counted : counter instrIdx = some count) :
    ((spinlockFilter s indices).alone counter loop).filter (fun ma => decide (ma.instrIdx = instrIdx)) =
      (loop.filter fun ma => decide (ma.instrIdx = instrIdx)).take (s.threshold - count) := by
  induction loop generalizing counter count with
  | nil => simp
  | cons ma loop ih =>
    rw [List.forall_mem_cons] at spins
    obtain ⟨own, found⟩ := Option.isSome_iff_exists.mp spins.1
    have next : (spinlockFilter s indices).next counter ma =
        Function.update counter ma.instrIdx (some (own + 1)) := by
      show nextCounter counter ma = _
      rw [nextCounter, found]
    have keep : (spinlockFilter s indices).keep counter ma =
        !(decide (s.threshold < own + 1)) := by
      show dumps s counter ma = _
      rw [dumps, found]
    have later : ∀ ma' ∈ loop, (Function.update counter ma.instrIdx (some (own + 1))
        ma'.instrIdx).isSome = true := by
      intro ma' member
      by_cases same : ma'.instrIdx = ma.instrIdx
      · rw [same, Function.update_self]
        rfl
      · rw [Function.update_of_ne same]
        exact spins.2 ma' member
    rw [KeyedFilter.alone, next, keep]
    by_cases same : ma.instrIdx = instrIdx
    · subst same
      obtain rfl : own = count := Option.some.inj (found.symm.trans counted)
      have rest := ih later (Function.update_self ..)
      rw [List.filter_cons_of_pos (by simp)]
      by_cases full : s.threshold < own + 1
      · rw [if_neg (by simpa using full), rest, show s.threshold - (own + 1) = 0 by omega,
          show s.threshold - own = 0 by omega]
        rfl
      · rw [if_pos (by simpa using full), List.filter_cons_of_pos (by simp), rest,
          show s.threshold - own = s.threshold - (own + 1) + 1 by omega, List.take_succ_cons]
    · have rest := ih later ((Function.update_of_ne (Ne.symm same) ..).trans counted)
      rw [List.filter_cons_of_neg (by simpa using same)]
      split_ifs
      · rw [List.filter_cons_of_neg (by simpa using same), rest]
      · exact rest

/-- In front of an instruction that is none of a spinlock, the counters do not matter. -/
theorem Counts.alone_eq {counter counter' : Counter} (counts : Counts indices counter)
    (counts' : Counts indices counter') {records : List (InstTrace α)}
    (leaves : ∀ ma ∈ records.head?, ma.instrIdx ∉ indices) :
    (spinlockFilter s indices).alone counter records =
      (spinlockFilter s indices).alone counter' records := by
  cases records with
  | nil => rfl
  | cons ma records =>
    have off : ma.instrIdx ∉ indices := leaves ma rfl
    obtain ⟨kept, next⟩ := counts.leaves (s := s) off
    obtain ⟨kept', next'⟩ := counts'.leaves (s := s) off
    rw [KeyedFilter.alone, KeyedFilter.alone]
    simp only [spinlockFilter, kept, kept', next, next']

/-- Behind an instruction that is none of a spinlock, the counters are new. -/
theorem after_eq_createCounter {records : List (InstTrace α)}
    (leaves : ∀ ma ∈ records.getLast?, ma.instrIdx ∉ indices) :
    (spinlockFilter s indices).after (createCounter indices) records = createCounter indices := by
  induction records using List.reverseRecOn with
  | nil => rfl
  | append_singleton records ma _ =>
    have off : ma.instrIdx ∉ indices := leaves ma (by simp)
    have counts : Counts indices ((spinlockFilter s indices).after (createCounter indices) records) :=
      counts_createCounter.after records
    rw [KeyedFilter.after, List.foldl_append, List.foldl_cons, List.foldl_nil]
    exact (counts.leaves (s := s) off).2

/-- What is written of the records of one warp. -/
theorem written_of_warp {records : List (InstTrace α)} {w : WarpKey}
    (own : ∀ ma ∈ records, ma.warpKey = w) :
    written s indices records = (spinlockFilter s indices).alone (createCounter indices) records :=
  (spinlockFilter s indices).mixed_of_key own _

end Warp

/-! ## Every warp of a run -/

/-- Fast-forwarding of the records of a kernel. What is written of a warp is what would be written
of its records alone, and is a part of them in their order. Instructions that are none of a
spinlock are all written. Of the spinlock instructions between two of them, in front of the first
or behind the last, each is written as often as it comes, up to the threshold. -/
structure FastForwarded {α : Type*} (s : SpinlockSettings) (indices : List (BitVec 32))
    (records out : List (InstTrace α)) : Prop where
  perWarp : ∀ w, out.filter (fun ma => decide (ma.warpKey = w)) =
    written s indices (records.filter fun ma => decide (ma.warpKey = w))
  sublist : ∀ w, (out.filter fun ma => decide (ma.warpKey = w)).Sublist
    (records.filter fun ma => decide (ma.warpKey = w))
  others : out.filter (fun ma => decide (ma.instrIdx ∉ indices)) =
    records.filter fun ma => decide (ma.instrIdx ∉ indices)
  loops : ∀ w front loop back,
    records.filter (fun ma => decide (ma.warpKey = w)) = front ++ loop ++ back →
    (∀ ma ∈ front.getLast?, ma.instrIdx ∉ indices) → (∀ ma ∈ loop, ma.instrIdx ∈ indices) →
    (∀ ma ∈ back.head?, ma.instrIdx ∉ indices) →
      ∃ kept, out.filter (fun ma => decide (ma.warpKey = w)) =
          written s indices front ++ kept ++ written s indices back ∧
        ∀ instrIdx ∈ indices, kept.filter (fun ma => decide (ma.instrIdx = instrIdx)) =
          (loop.filter fun ma => decide (ma.instrIdx = instrIdx)).take s.threshold

variable {α : Type*} {s : SpinlockSettings}

theorem fastForwarded_written (indices : List (BitVec 32)) (records : List (InstTrace α)) :
    FastForwarded s indices records (written s indices records) := by
  have warp (w : WarpKey) : (written s indices records).filter
      (fun ma => decide (ma.warpKey = w)) = (spinlockFilter s indices).alone (createCounter indices)
        (records.filter fun ma => decide (ma.warpKey = w)) :=
    (spinlockFilter s indices).filter_mixed _ records w
  have own (w : WarpKey) : ∀ ma ∈ records.filter (fun ma => decide (ma.warpKey = w)),
      ma.warpKey = w := fun ma member => of_decide_eq_true (List.mem_filter.mp member).2
  refine ⟨fun w => ?_, fun w => ?_, ?_, ?_⟩
  · rw [warp, written_of_warp (own w)]
  · rw [warp]
    exact KeyedFilter.alone_sublist _ _ _
  · have counts : Counts indices (createCounter indices) := counts_createCounter
    have start : ∀ w, Counts indices ((spinlockFilter (α := α) s indices).current (fun _ => none) w) :=
      fun _ => counts
    refine (spinlockFilter s indices).filter_mixed_of_keep (fun counter ma counts => counts.next ma)
      ?_ start records
    exact fun counter ma counts leaves => (counts.leaves (s := s) (of_decide_eq_true leaves)).1
  · intro w front loop back cut enters spins leaves
    have parts := own w
    rw [cut] at parts
    have front_own : ∀ ma ∈ front, ma.warpKey = w := fun ma member => parts ma (by simp [member])
    have back_own : ∀ ma ∈ back, ma.warpKey = w := fun ma member => parts ma (by simp [member])
    have counts : Counts indices (createCounter indices) := counts_createCounter
    refine ⟨(spinlockFilter s indices).alone (createCounter indices) loop, ?_, ?_⟩
    · rw [warp, cut, KeyedFilter.alone_append, KeyedFilter.alone_append,
        after_eq_createCounter enters, written_of_warp front_own, written_of_warp back_own,
        (counts.after (s := s) (front ++ loop)).alone_eq counts leaves]
    · intro instrIdx inIndices
      have unused : createCounter indices instrIdx = some 0 := by
        rw [createCounter_apply, if_pos inIndices]
      rw [← Nat.sub_zero s.threshold]
      exact filter_alone_loop (fun ma member => (counts _).mpr (spins ma member)) unused

/-- **A run.** For every list of kernels, with their records interleaved and cut into buffers in any
way, what is written of each is fast-forwarded by its own spinlock instructions. -/
theorem recvThreadFun_fastForwarded (enabled : s.enableSpinlockFastForward = true)
    (kernels : List (TracedKernel α)) :
    List.Forall₂ (fun kernel out => FastForwarded s kernel.indices kernel.records out) kernels
      (recvThreadFun s (fun _ => none) kernels) := by
  rw [recvThreadFun_eq enabled, List.forall₂_map_right_iff]
  exact List.forall₂_same.mpr fun kernel _ => fastForwarded_written kernel.indices kernel.records

/-- One iteration is kept. -/
def keepOne : SpinlockSettings := ⟨true, 1⟩

/-- Two warps in one loop, the first of which leaves it and comes back. -/
def twoWarps : TracedKernel Unit where
  indices := [7]
  records := [⟨0, 0, 0, 0, 7, ()⟩, ⟨0, 0, 0, 1, 7, ()⟩, ⟨0, 0, 0, 0, 7, ()⟩, ⟨0, 0, 0, 0, 8, ()⟩,
    ⟨0, 0, 0, 1, 7, ()⟩, ⟨0, 0, 0, 0, 7, ()⟩]
  last := ⟨-1#32, 0, 0, 0, 0, ()⟩
  buffers := [[⟨0, 0, 0, 0, 7, ()⟩, ⟨0, 0, 0, 1, 7, ()⟩, ⟨0, 0, 0, 0, 7, ()⟩],
    [⟨0, 0, 0, 0, 8, ()⟩, ⟨0, 0, 0, 1, 7, ()⟩, ⟨0, 0, 0, 0, 7, ()⟩, ⟨-1#32, 0, 0, 0, 0, ()⟩]]
  ofCtas := by decide
  ends := by decide
  received := rfl

/-- Four of the six records are written. -/
theorem recvThreadFun_fastForwarded_twoWarps :
    ∃ out, recvThreadFun keepOne (fun _ => none) [twoWarps] = [out] ∧ out.length = 4 ∧
      FastForwarded keepOne twoWarps.indices twoWarps.records out := by
  obtain ⟨out, ran⟩ : ∃ out, recvThreadFun keepOne (fun _ => none) [twoWarps] = [out] := ⟨_, rfl⟩
  have run := recvThreadFun_fastForwarded (s := keepOne) rfl [twoWarps]
  rw [ran] at run
  refine ⟨out, ran, ?_, (List.forall₂_cons.mp run).1⟩
  cases ran
  rfl

end GpuHotSpot.Tracer
