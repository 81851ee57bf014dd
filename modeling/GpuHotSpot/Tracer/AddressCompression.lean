import Mathlib.Logic.Function.Basic
import Mathlib.Data.List.Range
import GpuHotSpot.Lib.Machine

/-!
# Addresses in traces

`base_stride_compress` and `base_delta_compress` of
`util/tracer_nvbit/tracer_tool/tracer_tool.cu` write the addresses of the active
lanes of a warp, `base_stride_decompress` and `base_delta_decompress` of
`gpu-simulator/trace-parser/trace_parser.cc` read them back. The loop of the first
two and that of the last two go through the lanes side by side.

* `stride_lockStep`, `delta_lockStep`: what the reader has filled in when the writer
  is at a lane.
* `compress_lossless`: every active lane gets its address, every other one 0.
-/

namespace GpuHotSpot.Tracer

open Fallible

/-- `uint64_t addrs[32]`. -/
abbrev Addrs := ℕ → BitVec 64

/-- `std::bitset<32>`. -/
abbrev Mask := BitVec 32

/-- `mask.test(s)`. -/
def Mask.test (mask : Mask) (s : ℕ) : Bool := BitVec.getLsbD mask s

/-! ## Base and stride -/

/-- The variables of `base_stride_compress`. -/
structure StrideScan where
  firstBit1Found : Bool
  lastBit1Found : Bool
  baseAddr : BitVec 64
  stride : BitVec 32

/-- One lane of `base_stride_compress`, an error where the loop is left with `const_stride` unset.
A stride is compared with the differences as a 64-bit value. -/
def strideStep (addrs : Addrs) (mask : Mask) (st : StrideScan) (s : ℕ) :
    Except StrideScan StrideScan :=
  if mask.test s && !st.firstBit1Found then
    let st := { st with firstBit1Found := true, baseAddr := addrs s }
    if s < 31 && mask.test (s + 1) then
      .ok { st with stride := (addrs (s + 1) - addrs s).setWidth 32 }
    else .error st
  else if st.firstBit1Found && !st.lastBit1Found then
    if mask.test s then
      if st.stride.signExtend 64 ≠ addrs s - addrs (s - 1) then .error st else .ok st
    else .ok { st with lastBit1Found := true }
  else if st.lastBit1Found then
    if mask.test s then .error st else .ok st
  else .ok st

/-- `base_stride_compress`. -/
def baseStrideCompress (addrs : Addrs) (mask : Mask) (baseAddr : BitVec 64) (stride : BitVec 32) :
    Except StrideScan StrideScan :=
  (List.range' 0 32).foldlM (strideStep addrs mask) ⟨false, false, baseAddr, stride⟩

/-- The variables of `base_stride_decompress`. -/
structure StrideFill where
  firstBit1Found : Bool
  lastBit1Found : Bool
  addra : BitVec 64
  addrs : Addrs

/-- One lane of `base_stride_decompress`. -/
def strideFill (baseAddress : BitVec 64) (stride : BitVec 32) (mask : Mask) (st : StrideFill)
    (s : ℕ) : StrideFill :=
  if mask.test s && !st.firstBit1Found then
    { st with firstBit1Found := true, addrs := Function.update st.addrs s baseAddress }
  else if st.firstBit1Found && !st.lastBit1Found then
    if mask.test s then
      let addra := st.addra + stride.signExtend 64
      { st with addra, addrs := Function.update st.addrs s addra }
    else { st with lastBit1Found := true }
  else { st with addrs := Function.update st.addrs s 0 }

/-- `base_stride_decompress`. -/
def baseStrideDecompress (baseAddress : BitVec 64) (stride : BitVec 32) (mask : Mask)
    (addrs : Addrs) : Addrs :=
  ((List.range' 0 32).foldl (strideFill baseAddress stride mask)
    ⟨false, false, baseAddress, addrs⟩).addrs

/-! ## Base and deltas -/

/-- The variables of `base_delta_compress`. -/
structure DeltaScan where
  firstBit1Found : Bool
  lastAddress : BitVec 64
  baseAddr : BitVec 64
  deltas : List (BitVec 64)

/-- One lane of `base_delta_compress`. -/
def deltaStep (addrs : Addrs) (mask : Mask) (st : DeltaScan) (s : ℕ) : DeltaScan :=
  if mask.test s && !st.firstBit1Found then
    { st with baseAddr := addrs s, firstBit1Found := true, lastAddress := addrs s }
  else if mask.test s && st.firstBit1Found then
    { st with deltas := st.deltas ++ [addrs s - st.lastAddress], lastAddress := addrs s }
  else st

/-- `base_delta_compress`. -/
def baseDeltaCompress (addrs : Addrs) (mask : Mask) (baseAddr : BitVec 64)
    (deltas : List (BitVec 64)) : DeltaScan :=
  (List.range' 0 32).foldl (deltaStep addrs mask) ⟨false, 0, baseAddr, deltas⟩

/-- The variables of `base_delta_decompress`. -/
structure DeltaFill where
  firstBit1Found : Bool
  lastAddress : BitVec 64
  deltaIndex : ℕ
  addrs : Addrs

/-- One lane of `base_delta_decompress`, `none` where the assertion on the deltas fails. -/
def deltaFill (baseAddress : BitVec 64) (deltas : List (BitVec 64)) (mask : Mask) (st : DeltaFill)
    (s : ℕ) : Option DeltaFill :=
  if mask.test s && !st.firstBit1Found then
    some { st with
      addrs := Function.update st.addrs s baseAddress
      firstBit1Found := true
      lastAddress := baseAddress }
  else if mask.test s && st.firstBit1Found then
    (deltas[st.deltaIndex]?).map fun delta =>
      { st with
        addrs := Function.update st.addrs s (st.lastAddress + delta)
        deltaIndex := st.deltaIndex + 1
        lastAddress := st.lastAddress + delta }
  else some { st with addrs := Function.update st.addrs s 0 }

/-- `base_delta_decompress`. -/
def baseDeltaDecompress (baseAddress : BitVec 64) (deltas : List (BitVec 64)) (mask : Mask)
    (addrs : Addrs) : Option Addrs :=
  ((List.range' 0 32).foldlM (deltaFill baseAddress deltas mask) ⟨false, 0, 0, addrs⟩).map
    DeltaFill.addrs

/-! ## What is written -/

/-- The addresses of an instruction as they are written with `enable_compress`. -/
inductive Compressed
  | baseStride (baseAddr : BitVec 64) (stride : BitVec 32)
  | baseDelta (baseAddr : BitVec 64) (deltas : List (BitVec 64))

/-- The choice of the format in `recv_thread_fun`. -/
def compress (addrs : Addrs) (mask : Mask) : Compressed :=
  match baseStrideCompress addrs mask 0 0 with
  | .ok st => .baseStride st.baseAddr st.stride
  | .error st =>
    let written := baseDeltaCompress addrs mask st.baseAddr []
    .baseDelta written.baseAddr written.deltas

/-- The choice of the format in `parse_from_string`, with `addrs` zeroed. -/
def decompress (mask : Mask) : Compressed → Option Addrs
  | .baseStride baseAddress stride => some (baseStrideDecompress baseAddress stride mask fun _ => 0)
  | .baseDelta baseAddress deltas => baseDeltaDecompress baseAddress deltas mask fun _ => 0

/-- The addresses of the active lanes below `s`, and 0 elsewhere. -/
def Filled (addrs : Addrs) (mask : Mask) (s : ℕ) (out : Addrs) : Prop :=
  ∀ r, out r = if r < s ∧ mask.test r = true then addrs r else 0

namespace Filled

variable {addrs out : Addrs} {mask : Mask} {s : ℕ}

/-- An active lane is filled in. -/
theorem active (filled : Filled addrs mask s out) (on : mask.test s = true) :
    Filled addrs mask (s + 1) (Function.update out s (addrs s)) := by
  intro r
  by_cases here : r = s
  · subst here
    simp [on]
  · rw [Function.update_of_ne here, filled]
    have below : r < s + 1 ↔ r < s := by omega
    simp only [below]

/-- A lane that is not active is left alone. -/
theorem inactive (filled : Filled addrs mask s out) (off : mask.test s = false) :
    Filled addrs mask (s + 1) out := by
  intro r
  rw [filled]
  by_cases here : r = s
  · subst here
    simp [off]
  · have below : r < s + 1 ↔ r < s := by omega
    simp only [below]

/-- Zero is what a lane that is not active holds anyway. -/
theorem zeroed (filled : Filled addrs mask s out) (off : mask.test s = false) :
    Filled addrs mask (s + 1) (Function.update out s 0) := by
  have same : Function.update out s 0 = out := by
    rw [Function.update_eq_self_iff, filled]
    simp
  rw [same]
  exact filled.inactive off

end Filled

/-! ## Strides in lock step -/

section Stride

variable {addrs : Addrs} {mask : Mask} {c c' : StrideScan} {d : StrideFill} {s n : ℕ}

/-- What a lane does to the writer that goes on. -/
inductive StrideMove (addrs : Addrs) (mask : Mask) (s : ℕ) : StrideScan → StrideScan → Prop
  | first {baseAddr : BitVec 64} {stride : BitVec 32} {last : Bool} (on : mask.test s = true) :
    StrideMove addrs mask s ⟨false, last, baseAddr, stride⟩
      ⟨true, last, addrs s, (addrs (s + 1) - addrs s).setWidth 32⟩
  | next {baseAddr : BitVec 64} {stride : BitVec 32} (on : mask.test s = true)
    (constant : stride.signExtend 64 = addrs s - addrs (s - 1)) :
    StrideMove addrs mask s ⟨true, false, baseAddr, stride⟩ ⟨true, false, baseAddr, stride⟩
  | last {baseAddr : BitVec 64} {stride : BitVec 32} (off : mask.test s = false) :
    StrideMove addrs mask s ⟨true, false, baseAddr, stride⟩ ⟨true, true, baseAddr, stride⟩
  | idle {first last : Bool} {baseAddr : BitVec 64} {stride : BitVec 32}
    (off : mask.test s = false) (outside : first = false ∨ last = true) :
    StrideMove addrs mask s ⟨first, last, baseAddr, stride⟩ ⟨first, last, baseAddr, stride⟩

theorem strideStep_ok (stepped : strideStep addrs mask c s = .ok c') :
    StrideMove addrs mask s c c' := by
  obtain ⟨first, last, baseAddr, stride⟩ := c
  rw [strideStep] at stepped
  cases on : mask.test s with
  | true =>
    cases first with
    | false =>
      simp only [on, Bool.not_false, Bool.and_self, if_true] at stepped
      split_ifs at stepped
      cases stepped
      exact .first on
    | true =>
      cases last with
      | false =>
        simp only [on, Bool.not_true, Bool.and_false, Bool.false_eq_true, if_false,
          Bool.not_false, Bool.and_self, if_true] at stepped
        split_ifs at stepped with varies
        cases stepped
        exact .next on (not_not.mp varies)
      | true =>
        simp [on] at stepped
  | false =>
    cases first with
    | false =>
      cases last <;> · simp [on] at stepped; subst stepped; exact .idle on (.inl rfl)
    | true =>
      cases last with
      | false => simp [on] at stepped; subst stepped; exact .last on
      | true => simp [on] at stepped; subst stepped; exact .idle on (.inr rfl)

/-- Once an active lane was found, base and stride stay. -/
theorem StrideMove.keeps (move : StrideMove addrs mask s c c') (found : c.firstBit1Found = true) :
    c'.firstBit1Found = true ∧ c'.baseAddr = c.baseAddr ∧ c'.stride = c.stride := by
  cases move with
  | first on => cases found
  | next on constant => exact ⟨rfl, rfl, rfl⟩
  | last off => exact ⟨rfl, rfl, rfl⟩
  | idle off outside => exact ⟨found, rfl, rfl⟩

/-- Writer and reader in front of lane `s`, where the reader was given `base` and `stride`. -/
structure StrideLock (addrs : Addrs) (mask : Mask) (s : ℕ) (base : BitVec 64) (stride : BitVec 32)
    (c : StrideScan) (d : StrideFill) : Prop where
  first : d.firstBit1Found = c.firstBit1Found
  last : d.lastBit1Found = c.lastBit1Found
  fresh : c.firstBit1Found = false → c.lastBit1Found = false ∧ d.addra = base
  given : c.firstBit1Found = true → c.baseAddr = base ∧ c.stride = stride
  addra : c.firstBit1Found = true → c.lastBit1Found = false → d.addra = addrs (s - 1)
  filled : Filled addrs mask s d.addrs

/-- One lane of both. -/
theorem StrideLock.move {base : BitVec 64} {stride : BitVec 32}
    (lock : StrideLock addrs mask s base stride c d) (move : StrideMove addrs mask s c c')
    (given : c'.firstBit1Found = true → c'.baseAddr = base ∧ c'.stride = stride) :
    StrideLock addrs mask (s + 1) base stride c' (strideFill base stride mask d s) := by
  obtain ⟨first, last, addra, out⟩ := d
  obtain ⟨rfl, rfl, fresh, -, walked, filled⟩ := lock
  cases move with
  | first on =>
    obtain ⟨rfl, rfl⟩ := fresh rfl
    obtain ⟨rfl, -⟩ := given rfl
    simp only [strideFill, on, Bool.not_false, Bool.and_self, if_true]
    exact ⟨rfl, rfl, nofun, given, fun _ _ => rfl, filled.active on⟩
  | next on constant =>
    have next : addra + stride.signExtend 64 = addrs s := by
      rw [← (given rfl).2, constant, show addra = addrs (s - 1) from walked rfl rfl]
      rw [BitVec.add_comm, BitVec.sub_add_cancel]
    simp only [strideFill, on, next, Bool.not_true, Bool.and_false, Bool.false_eq_true, if_false,
      Bool.not_false, Bool.and_self, if_true]
    exact ⟨rfl, rfl, nofun, given, fun _ _ => rfl, filled.active on⟩
  | last off =>
    simp only [strideFill, off, Bool.false_and, Bool.false_eq_true, if_false, Bool.not_false,
      Bool.and_self, if_true]
    exact ⟨rfl, rfl, nofun, given, nofun, filled.inactive off⟩
  | @idle first last _ _ off outside =>
    have outer : (first && !last) = false := by
      rcases outside with rfl | rfl <;> simp
    simp only [strideFill, off, Bool.false_and, Bool.false_eq_true, if_false, outer]
    refine ⟨rfl, rfl, fresh, given, fun found open_ => ?_, filled.zeroed off⟩
    rcases outside with none | none
    · rw [show first = true from found] at none
      cases none
    · rw [show last = false from open_] at none
      cases none

/-- Which lanes below `s` are active, as far as the writer has seen. -/
structure Seen (mask : Mask) (s : ℕ) (c : StrideScan) : Prop where
  none : c.firstBit1Found = false → c.lastBit1Found = false ∧ ∀ r < s, mask.test r = false
  open_ : c.firstBit1Found = true → c.lastBit1Found = false →
    ∃ lo < s, ∀ r < s, mask.test r = true ↔ lo ≤ r
  closed : c.lastBit1Found = true →
    ∃ lo hi, hi ≤ s ∧ ∀ r < s, mask.test r = true ↔ lo ≤ r ∧ r < hi

theorem Seen.move (seen : Seen mask s c) (move : StrideMove addrs mask s c c') :
    Seen mask (s + 1) c' := by
  obtain ⟨none, open_, closed⟩ := seen
  cases move with
  | first on =>
    obtain ⟨rfl, off⟩ := none rfl
    refine ⟨nofun, fun _ _ => ⟨s, by omega, fun r below => ?_⟩, nofun⟩
    rcases Nat.lt_succ_iff_lt_or_eq.mp below with before | rfl
    · simp only [off r before, Bool.false_eq_true, false_iff]
      omega
    · simp [on]
  | next on constant =>
    obtain ⟨lo, le, active⟩ := open_ rfl rfl
    refine ⟨nofun, fun _ _ => ⟨lo, by omega, fun r below => ?_⟩, nofun⟩
    rcases Nat.lt_succ_iff_lt_or_eq.mp below with before | rfl
    · exact active r before
    · simp only [on, true_iff]
      omega
  | last off =>
    obtain ⟨lo, le, active⟩ := open_ rfl rfl
    refine ⟨nofun, nofun, fun _ => ⟨lo, s, by omega, fun r below => ?_⟩⟩
    rcases Nat.lt_succ_iff_lt_or_eq.mp below with before | rfl
    · rw [active r before]
      omega
    · simp [off]
  | @idle first last _ _ off outside =>
    refine ⟨fun none' => ?_, fun found open' => ?_, fun ended => ?_⟩
    · obtain ⟨open', rest⟩ := none none'
      refine ⟨open', fun r below => ?_⟩
      rcases Nat.lt_succ_iff_lt_or_eq.mp below with before | rfl
      · exact rest r before
      · exact off
    · rcases outside with none | none
      · rw [show first = true from found] at none
        cases none
      · rw [show last = false from open'] at none
        cases none
    · obtain ⟨lo, hi, le, active⟩ := closed ended
      refine ⟨lo, hi, by omega, fun r below => ?_⟩
      rcases Nat.lt_succ_iff_lt_or_eq.mp below with before | rfl
      · exact active r before
      · simp only [off, Bool.false_eq_true, false_iff]
        omega

/-- **Strides in lock step**: behind the lanes of a writer that has gone through, the reader is
where the writer is. -/
theorem stride_lockStep {base : BitVec 64} {stride : BitVec 32}
    (ran : (List.range' s n).foldlM (strideStep addrs mask) c = .ok c')
    (given : c'.firstBit1Found = true → c'.baseAddr = base ∧ c'.stride = stride)
    (lock : StrideLock addrs mask s base stride c d) (seen : Seen mask s c) :
    StrideLock addrs mask (s + n) base stride c'
        ((List.range' s n).foldl (strideFill base stride mask) d) ∧ Seen mask (s + n) c' := by
  have keeps : ∀ (n s : ℕ) (c : StrideScan),
      (List.range' s n).foldlM (strideStep addrs mask) c = .ok c' → c.firstBit1Found = true →
        c'.firstBit1Found = true ∧ c'.baseAddr = c.baseAddr ∧ c'.stride = c.stride := by
    intro n
    induction n with
    | zero =>
      intro s c ran found
      cases ran
      exact ⟨found, rfl, rfl⟩
    | succ n ih =>
      intro s c ran found
      rw [List.range'_succ, List.foldlM_cons] at ran
      obtain ⟨c₁, stepped, ran⟩ := bind_ok.1 ran
      obtain ⟨found₁, base₁, stride₁⟩ := (strideStep_ok stepped).keeps found
      obtain ⟨found', base', stride'⟩ := ih (s + 1) c₁ ran found₁
      exact ⟨found', base'.trans base₁, stride'.trans stride₁⟩
  induction n generalizing s c d with
  | zero =>
    cases ran
    exact ⟨lock, seen⟩
  | succ n ih =>
    rw [List.range'_succ, List.foldlM_cons] at ran
    obtain ⟨c₁, stepped, ran⟩ := bind_ok.1 ran
    have move := strideStep_ok stepped
    have given₁ : c₁.firstBit1Found = true → c₁.baseAddr = base ∧ c₁.stride = stride := by
      intro found
      obtain ⟨found', base', stride'⟩ := keeps n (s + 1) c₁ ran found
      rw [← base', ← stride']
      exact given found'
    rw [List.range'_succ, List.foldl_cons, show s + (n + 1) = s + 1 + n by omega]
    exact ih ran (lock.move move given₁) (seen.move move)

end Stride

/-! ## Deltas in lock step -/

section Delta

variable {addrs : Addrs} {mask : Mask}

/-- Writer and reader in front of lane `s`. -/
structure DeltaLock (addrs : Addrs) (mask : Mask) (s : ℕ) (base : BitVec 64) (c : DeltaScan)
    (d : DeltaFill) : Prop where
  first : d.firstBit1Found = c.firstBit1Found
  given : c.firstBit1Found = true → c.baseAddr = base ∧ d.lastAddress = c.lastAddress
  index : d.deltaIndex = c.deltas.length
  filled : Filled addrs mask s d.addrs

variable (addrs mask) in
/-- The writer adds deltas at the end, and keeps the base once it is found. -/
theorem deltaStep_keeps (c : DeltaScan) (s : ℕ) :
    c.deltas <+: (deltaStep addrs mask c s).deltas ∧
      (c.firstBit1Found = true → (deltaStep addrs mask c s).firstBit1Found = true ∧
        (deltaStep addrs mask c s).baseAddr = c.baseAddr) := by
  rw [deltaStep]
  split_ifs with first next
  · refine ⟨List.prefix_rfl, fun found => ?_⟩
    simp [found] at first
  · exact ⟨List.prefix_append _ _, fun found => ⟨found, rfl⟩⟩
  · exact ⟨List.prefix_rfl, fun found => ⟨found, rfl⟩⟩

variable (addrs mask) in
theorem deltaScan_keeps (n s : ℕ) (c : DeltaScan) :
    c.deltas <+: ((List.range' s n).foldl (deltaStep addrs mask) c).deltas ∧
      (c.firstBit1Found = true →
        ((List.range' s n).foldl (deltaStep addrs mask) c).firstBit1Found = true ∧
          ((List.range' s n).foldl (deltaStep addrs mask) c).baseAddr = c.baseAddr) := by
  induction n generalizing s c with
  | zero => exact ⟨List.prefix_rfl, fun found => ⟨found, rfl⟩⟩
  | succ n ih =>
    rw [List.range'_succ, List.foldl_cons]
    obtain ⟨adds, keeps⟩ := deltaStep_keeps addrs mask c s
    obtain ⟨adds', keeps'⟩ := ih (s + 1) (deltaStep addrs mask c s)
    refine ⟨adds.trans adds', fun found => ?_⟩
    obtain ⟨found₁, base₁⟩ := keeps found
    obtain ⟨found', base'⟩ := keeps' found₁
    exact ⟨found', base'.trans base₁⟩

/-- One lane of both, if the reader was given the base and all deltas that the writer has. -/
theorem DeltaLock.step {base : BitVec 64} {deltas : List (BitVec 64)} {c : DeltaScan}
    {d : DeltaFill} {s : ℕ} (lock : DeltaLock addrs mask s base c d)
    (given : (deltaStep addrs mask c s).firstBit1Found = true →
      (deltaStep addrs mask c s).baseAddr = base)
    (written : (deltaStep addrs mask c s).deltas <+: deltas) :
    ∃ d', deltaFill base deltas mask d s = some d' ∧
      DeltaLock addrs mask (s + 1) base (deltaStep addrs mask c s) d' := by
  obtain ⟨first, lastAddress, deltaIndex, out⟩ := d
  obtain ⟨found, last, baseAddr, done⟩ := c
  obtain rfl : first = found := lock.first
  obtain rfl : deltaIndex = done.length := lock.index
  have filled : Filled addrs mask s out := lock.filled
  cases on : mask.test s with
  | false =>
    refine ⟨⟨first, lastAddress, done.length, Function.update out s 0⟩, by simp [deltaFill, on], ?_⟩
    have stays : deltaStep addrs mask ⟨first, last, baseAddr, done⟩ s =
        ⟨first, last, baseAddr, done⟩ := by simp [deltaStep, on]
    rw [stays]
    exact ⟨rfl, lock.given, rfl, filled.zeroed on⟩
  | true =>
    cases first with
    | false =>
      have step : deltaStep addrs mask ⟨false, last, baseAddr, done⟩ s =
          ⟨true, addrs s, addrs s, done⟩ := by simp [deltaStep, on]
      rw [step] at given ⊢
      obtain rfl : addrs s = base := given rfl
      refine ⟨_, by simp [deltaFill, on]; rfl, rfl, fun _ => ⟨rfl, rfl⟩, rfl, filled.active on⟩
    | true =>
      have step : deltaStep addrs mask ⟨true, last, baseAddr, done⟩ s =
          ⟨true, addrs s, baseAddr, done ++ [addrs s - last]⟩ := by simp [deltaStep, on]
      rw [step] at written given ⊢
      have delta : deltas[done.length]? = some (addrs s - last) := by
        obtain ⟨rest, rfl⟩ := written
        simp
      have next : lastAddress + (addrs s - last) = addrs s := by
        rw [show lastAddress = last from (lock.given rfl).2]
        rw [BitVec.add_comm, BitVec.sub_add_cancel]
      refine ⟨⟨true, addrs s, done.length + 1, Function.update out s (addrs s)⟩, ?_, rfl, ?_, ?_,
        filled.active on⟩
      · simp [deltaFill, on, delta, next]
      · exact fun _ => ⟨given rfl, rfl⟩
      · simp

/-- **Deltas in lock step**: the reader never runs out of deltas. -/
theorem delta_lockStep {base : BitVec 64} {deltas : List (BitVec 64)} {n s : ℕ} {c : DeltaScan}
    {d : DeltaFill} (lock : DeltaLock addrs mask s base c d)
    (given : ((List.range' s n).foldl (deltaStep addrs mask) c).firstBit1Found = true →
      ((List.range' s n).foldl (deltaStep addrs mask) c).baseAddr = base)
    (written : ((List.range' s n).foldl (deltaStep addrs mask) c).deltas <+: deltas) :
    ∃ d', (List.range' s n).foldlM (deltaFill base deltas mask) d = some d' ∧
      DeltaLock addrs mask (s + n) base ((List.range' s n).foldl (deltaStep addrs mask) c) d' := by
  induction n generalizing s c d with
  | zero => exact ⟨d, rfl, lock⟩
  | succ n ih =>
    rw [List.range'_succ, List.foldl_cons] at given written ⊢
    obtain ⟨adds, keeps⟩ := deltaScan_keeps addrs mask n (s + 1)
      (deltaStep addrs mask c s)
    have given₁ : (deltaStep addrs mask c s).firstBit1Found = true →
        (deltaStep addrs mask c s).baseAddr = base := by
      intro found
      obtain ⟨found', base'⟩ := keeps found
      rw [← base']
      exact given found'
    obtain ⟨d₁, filled, lock₁⟩ := lock.step given₁ (adds.trans written)
    obtain ⟨d', ran, lock'⟩ := ih lock₁ given written
    refine ⟨d', ?_, by rwa [show s + (n + 1) = s + 1 + n by omega]⟩
    rw [List.foldlM_cons, filled]
    exact ran

end Delta

/-! ## Both formats -/

/-- **Compression is lossless.** For every mask and all addresses, what is written can be read, an
active lane gets its address and every other lane 0. Base and stride are chosen only if the
active lanes are next to each other. -/
theorem compress_lossless (addrs : Addrs) (mask : Mask) :
    (∃ out, decompress mask (compress addrs mask) = some out ∧
      ∀ s < 32, out s = if mask.test s = true then addrs s else 0) ∧
    ∀ baseAddr stride, compress addrs mask = .baseStride baseAddr stride →
      ∃ lo hi, ∀ s < 32, mask.test s = true ↔ lo ≤ s ∧ s < hi := by
  have none (out : Addrs) (zeroed : ∀ r, out r = 0) : Filled addrs mask 0 out := by
    intro r
    simp [zeroed r]
  have all {out : Addrs} (filled : Filled addrs mask 32 out) :
      ∀ s < 32, out s = if mask.test s = true then addrs s else 0 := by
    intro s below
    rw [filled]
    simp only [below, true_and]
  rw [compress]
  cases scanned : baseStrideCompress addrs mask 0 0 with
  | ok st =>
    have start : StrideLock addrs mask 0 st.baseAddr st.stride ⟨false, false, 0, 0⟩
        ⟨false, false, st.baseAddr, fun _ => 0⟩ :=
      ⟨rfl, rfl, fun _ => ⟨rfl, rfl⟩, nofun, nofun, none _ fun _ => rfl⟩
    obtain ⟨lock, seen⟩ := stride_lockStep scanned (fun _ => ⟨rfl, rfl⟩) start
      ⟨fun _ => ⟨rfl, nofun⟩, nofun, nofun⟩
    refine ⟨⟨_, rfl, all lock.filled⟩, fun _ _ _ => ?_⟩
    cases found : st.firstBit1Found with
    | false => exact ⟨0, 0, fun s below => by simp [(seen.none found).2 s below]⟩
    | true =>
      cases ended : st.lastBit1Found with
      | false =>
        obtain ⟨lo, -, active⟩ := seen.open_ found ended
        exact ⟨lo, 32, fun s below => by rw [active s below]; omega⟩
      | true =>
        obtain ⟨lo, hi, -, active⟩ := seen.closed ended
        exact ⟨lo, hi, active⟩
  | error st =>
    have start : DeltaLock addrs mask 0 (baseDeltaCompress addrs mask st.baseAddr []).baseAddr
        ⟨false, 0, st.baseAddr, []⟩ ⟨false, 0, 0, fun _ => 0⟩ :=
      ⟨rfl, nofun, rfl, none _ fun _ => rfl⟩
    have written : (baseDeltaCompress addrs mask st.baseAddr []).deltas <+:
        (baseDeltaCompress addrs mask st.baseAddr []).deltas := List.prefix_rfl
    obtain ⟨d, ran, lock⟩ := delta_lockStep start (fun _ => rfl) written
    refine ⟨⟨d.addrs, ?_, all lock.filled⟩, nofun⟩
    simp only [decompress, baseDeltaDecompress, ran, Option.map_some]

end GpuHotSpot.Tracer
