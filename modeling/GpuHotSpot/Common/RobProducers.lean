import GpuHotSpot.Common.RobMoves

/-!
# Who produces what a micro-op reads

The tables of `RegisterDependencies` and `MemoryDependencies` against the micro-ops that have entered.

* `RegisterProducer`, `IntraProducer`, `StoreProducer`: the producers of a micro-op.
* `Entering.mem_producers`: they are the dependencies of a new micro-op, besides the last barrier.
-/

namespace GpuHotSpot.Common.RobTimer

variable {κ : Type} {config : Config κ} {s s' : Timer κ}

/-! ## Producers -/

/-- `x` is the last of the first `n` micro-ops with the property. -/
structure LastBefore (ops : List DynamicMicroOp) (P : DynamicMicroOp → Prop) (n x : ℕ) : Prop where
  before : x < n
  holds : ∃ op, ops[x]? = some op ∧ P op
  last : ∀ y op, x < y → y < n → ops[y]? = some op → ¬ P op

def Writes (register : ℕ) (op : DynamicMicroOp) : Prop := register ∈ op.microOp.destinationRegisters

def StoresTo (address : ℕ) (op : DynamicMicroOp) : Prop := op.isStore = true ∧ op.address = address

/-- `x` was the last to write a source register of `c`. -/
def RegisterProducer (ops : List DynamicMicroOp) (c x : ℕ) : Prop :=
  ∃ op, ops[c]? = some op ∧ ∃ r ∈ op.microOp.sourceRegisters, LastBefore ops (Writes r) c x

/-- `x` is among the micro-ops of the instruction that `c` depends on. -/
def IntraProducer (ops : List DynamicMicroOp) (c x : ℕ) : Prop :=
  ∃ op, ops[c]? = some op ∧ c - op.microOpTypeOffset - op.intraInstructionDependencies ≤ x ∧
    x < c - op.microOpTypeOffset - op.intraInstructionDependencies + op.intraInstructionDependencies

/-- `c` is a load, and `x` was the last store to its address. -/
def StoreProducer (ops : List DynamicMicroOp) (c x : ℕ) : Prop :=
  ∃ op, ops[c]? = some op ∧ op.isLoad = true ∧ LastBefore ops (StoresTo op.address) c x

/-- `x` produces an operand of `c`. -/
def Source (ops : List DynamicMicroOp) (c x : ℕ) : Prop :=
  RegisterProducer ops c x ∨ IntraProducer ops c x

section Append

variable {ops more : List DynamicMicroOp} {P : DynamicMicroOp → Prop} {op : DynamicMicroOp} {c n x : ℕ}

theorem LastBefore.append_iff (inside : n ≤ ops.length) :
    LastBefore (ops ++ more) P n x ↔ LastBefore ops P n x := by
  have same {y : ℕ} (before : y < n) : (ops ++ more)[y]? = ops[y]? :=
    List.getElem?_append_left (before.trans_le inside)
  constructor
  · rintro ⟨before, holds, last⟩
    exact ⟨before, same before ▸ holds, fun y op after below => same below ▸ last y op after below⟩
  · rintro ⟨before, holds, last⟩
    exact ⟨before, (same before).symm ▸ holds,
      fun y op after below => (same below).symm ▸ last y op after below⟩

/-- A new micro-op is the last one, or it does not count. -/
theorem lastBefore_concat : LastBefore (ops ++ [op]) P (ops.length + 1) x ↔
    P op ∧ x = ops.length ∨ ¬ P op ∧ LastBefore ops P ops.length x := by
  have own : (ops ++ [op])[ops.length]? = some op := by simp
  constructor
  · rintro ⟨before, ⟨u, found, holds⟩, last⟩
    by_cases here : x = ops.length
    · rw [here, own, Option.some.injEq] at found
      exact .inl ⟨found ▸ holds, here⟩
    · have older : x < ops.length := by omega
      refine .inr ⟨last _ op older (Nat.lt_succ_self _) own, older, ⟨u, ?_, holds⟩, fun y v after below there => ?_⟩
      · rwa [List.getElem?_append_left older] at found
      · exact last y v after (by omega) ((List.getElem?_append_left below).trans there)
  · rintro (⟨holds, rfl⟩ | ⟨fails, older⟩)
    · refine ⟨Nat.lt_succ_self _, ⟨op, own, holds⟩, fun y v after below => ?_⟩
      omega
    · have older' : LastBefore (ops ++ [op]) P ops.length x :=
        (LastBefore.append_iff le_rfl).mpr older
      refine ⟨by have := older.before; omega, older'.holds, fun y v after below there => ?_⟩
      by_cases here : y = ops.length
      · rw [here, own, Option.some.injEq] at there
        exact there ▸ fails
      · exact older'.last y v after (by omega) there

theorem LastBefore.unique {y : ℕ} (one : LastBefore ops P n x) (other : LastBefore ops P n y) :
    x = y := by
  obtain ⟨u, found, holds⟩ := one.holds
  obtain ⟨v, found', holds'⟩ := other.holds
  rcases lt_trichotomy x y with less | same | more
  · exact absurd holds' (one.last y v less other.before found')
  · exact same
  · exact absurd holds (other.last x u more one.before found)

theorem RegisterProducer.append_iff (inside : c < ops.length) :
    RegisterProducer (ops ++ more) c x ↔ RegisterProducer ops c x := by
  rw [RegisterProducer, List.getElem?_append_left inside]
  simp only [LastBefore.append_iff inside.le]
  rfl

theorem IntraProducer.append_iff (inside : c < ops.length) :
    IntraProducer (ops ++ more) c x ↔ IntraProducer ops c x := by
  rw [IntraProducer, List.getElem?_append_left inside]
  rfl

theorem StoreProducer.append_iff (inside : c < ops.length) :
    StoreProducer (ops ++ more) c x ↔ StoreProducer ops c x := by
  rw [StoreProducer, List.getElem?_append_left inside]
  simp only [LastBefore.append_iff inside.le]
  rfl

theorem Source.append_iff (inside : c < ops.length) :
    Source (ops ++ more) c x ↔ Source ops c x := by
  rw [Source, RegisterProducer.append_iff inside, IntraProducer.append_iff inside, Source]

end Append

/-! ## The queue of stores -/

section Sorted

variable {l : List (ℕ × ℕ)} {low a x : ℕ}

/-- In a queue sorted by sequence number, cleaning removes all the old stores. -/
theorem dropWhile_eq_filter (sorted : l.Pairwise fun p r => p.1 < r.1) :
    l.dropWhile (fun p => p.1 < low) = l.filter fun p => low ≤ p.1 := by
  induction l with
  | nil => rfl
  | cons p l ih =>
    obtain ⟨above, rest⟩ := List.pairwise_cons.mp sorted
    by_cases old : p.1 < low
    · rw [List.dropWhile_cons_of_pos (by simpa using old),
        List.filter_cons_of_neg (by simpa using old), ih rest]
    · have all (r : ℕ × ℕ) (member : r ∈ p :: l) : decide (low ≤ r.1) = true := by
        rw [decide_eq_true_eq]
        rcases List.mem_cons.mp member with rfl | later
        · omega
        · have := above r later
          omega
      rw [List.dropWhile_cons_of_neg (by simpa using old), List.filter_eq_self.mpr all]

/-- The last store to an address. -/
theorem find_reverse_eq_some (sorted : l.Pairwise fun p r => p.1 < r.1) :
    (l.reverse.find? fun p => p.2 = a).map Prod.fst = some x ↔
      (x, a) ∈ l ∧ ∀ y, (y, a) ∈ l → y ≤ x := by
  rw [Option.map_eq_some_iff]
  constructor
  · rintro ⟨⟨y, b⟩, found, rfl⟩
    obtain ⟨same, newer, older, split, none⟩ := List.find?_eq_some_iff_append.mp found
    obtain rfl : b = a := by simpa using same
    have order : l = older.reverse ++ (y, b) :: newer.reverse := by
      rw [← List.reverse_reverse l, split]
      simp
    refine ⟨by simp [order], fun z member => ?_⟩
    rw [order] at sorted member
    rcases List.mem_append.mp member with before | here
    · exact ((List.pairwise_append.mp sorted).2.2 _ before _ List.mem_cons_self).le
    · rcases List.mem_cons.mp here with same | after
      · exact (Prod.ext_iff.mp same).1.le
      · have other := none _ (List.mem_reverse.mp after)
        simp at other
  · rintro ⟨member, last⟩
    cases found : l.reverse.find? fun p => p.2 = a with
    | none =>
      have other := List.find?_eq_none.mp found _ (List.mem_reverse.mpr member)
      simp at other
    | some p =>
      obtain ⟨same, newer, older, split, none⟩ := List.find?_eq_some_iff_append.mp found
      obtain ⟨y, b⟩ := p
      obtain rfl : b = a := by simpa using same
      have order : l = older.reverse ++ (y, b) :: newer.reverse := by
        rw [← List.reverse_reverse l, split]
        simp
      refine ⟨_, rfl, le_antisymm (last y (by simp [order])) ?_⟩
      rw [order] at sorted member
      rcases List.mem_append.mp member with before | here
      · exact ((List.pairwise_append.mp sorted).2.2 _ before _ List.mem_cons_self).le
      · rcases List.mem_cons.mp here with same | after
        · exact (Prod.ext_iff.mp same).1.le
        · have other := none _ (List.mem_reverse.mp after)
          simp at other

end Sorted

/-! ## The tables -/

/-- The tables know the last writers and the stores that are in the queue; the last barrier is no
store. -/
structure Producing (s : Timer κ) : Prop where
  registers : ∀ r x, s.rob.first ≤ x →
    (s.registerDependencies r = some x ↔ LastBefore s.entered (Writes r) s.entered.length x)
  sorted : s.memoryDependencies.producers.Pairwise fun p r => p.1 < r.1
  inside : ∀ p ∈ s.memoryDependencies.producers, p.1 < s.entered.length
  stores : ∀ x a, s.rob.first ≤ x → ((x, a) ∈ s.memoryDependencies.producers ↔
    ∃ op, s.entered[x]? = some op ∧ StoresTo a op)
  membar : ∀ x, s.memoryDependencies.membar = some x →
    ∃ op, s.entered[x]? = some op ∧ op.isStore = false

theorem producing_start (config : Config κ) (period : ℕ) :
    Producing (Timer.start config period) where
  registers := fun r x _ => ⟨fun known => (by cases known),
    fun last => absurd last.before (Nat.not_lt_zero x)⟩
  sorted := List.Pairwise.nil
  inside := fun p member => by cases member
  stores := fun x a _ => ⟨fun member => (by cases member), fun ⟨op, found, _⟩ => by cases found⟩
  membar := fun x known => by cases known

/-- The last store to an address, as `find` sees it after cleaning. -/
theorem Producing.find_eq_some (producing : Producing s) {a x : ℕ} :
    (s.memoryDependencies.clean s.rob.first).find a = some x ↔
      s.rob.first ≤ x ∧ LastBefore s.entered (StoresTo a) s.entered.length x := by
  have cleaned : (s.memoryDependencies.clean s.rob.first).producers =
      s.memoryDependencies.producers.filter fun p => s.rob.first ≤ p.1 :=
    dropWhile_eq_filter producing.sorted
  rw [MemoryDependencies.find, cleaned, find_reverse_eq_some (producing.sorted.filter _)]
  simp only [List.mem_filter, decide_eq_true_eq]
  constructor
  · rintro ⟨⟨member, valid⟩, last⟩
    obtain ⟨op, found, storing⟩ := (producing.stores x a valid).mp member
    refine ⟨valid, producing.inside _ member, ⟨op, found, storing⟩, fun y u after _ there stores => ?_⟩
    have valid' : s.rob.first ≤ y := by omega
    have newer := last y ⟨(producing.stores y a valid').mpr ⟨u, there, stores⟩, valid'⟩
    omega
  · rintro ⟨valid, before, holds, last⟩
    refine ⟨⟨(producing.stores x a valid).mpr holds, valid⟩, fun y both => ?_⟩
    by_contra newer
    obtain ⟨op, found, storing⟩ := (producing.stores y a both.2).mp both.1
    exact last y op (not_le.mp newer) (producing.inside _ both.1) found storing

section Enter

variable {op u v : DynamicMicroOp} {q : Rob} {e : RobEntry}

theorem Producing.enter (producing : Producing s) (sound : Sound s)
    (entering : Entering config op s s' u v q e) : Producing s' := by
  have first := entering.first
  have entered : s'.entered = s.entered ++ [op] := by rw [entering.timer]
  have length : s'.entered.length = s.entered.length + 1 := by rw [entered]; simp
  have own : (s.entered ++ [op])[s.entered.length]? = some op := by simp
  have cleaned : (s.memoryDependencies.clean s.rob.first).producers =
      s.memoryDependencies.producers.filter fun p => s.rob.first ≤ p.1 :=
    dropWhile_eq_filter producing.sorted
  have members {p : ℕ × ℕ} : p ∈ s'.memoryDependencies.producers ↔
      p ∈ s.memoryDependencies.producers ∧ s.rob.first ≤ p.1 ∨
        op.isStore = true ∧ p = (s.entered.length, op.address) := by
    rw [entering.stores, cleaned, ← sound.entered, List.mem_append, List.mem_filter, decide_eq_true_eq]
    split_ifs with store
    · simp [store]
    · simp [store]
  refine ⟨fun r x valid => ?_, ?_, fun p member => ?_, fun x a valid => ?_, fun x known => ?_⟩
  · rw [first] at valid
    obtain ⟨kept, forgets, after⟩ := entering.registers
    rw [after, entered, List.length_append, List.length_singleton, lastBefore_concat, ← sound.entered]
    have old : kept r = some x ↔ LastBefore s.entered (Writes r) s.entered.length x :=
      ⟨fun known => (producing.registers r x valid).mp ((forgets r x).1 known),
        fun last => (forgets r x).2 ((producing.registers r x valid).mpr last) valid⟩
    by_cases writes : r ∈ op.microOp.destinationRegisters
    · rw [if_pos writes, Option.some.injEq]
      simp [Writes, writes, eq_comm]
    · rw [if_neg writes, old]
      simp [Writes, writes]
  · rw [entering.stores, cleaned]
    split_ifs
    · refine List.pairwise_append.mpr ⟨producing.sorted.filter _, List.pairwise_singleton _ _,
        fun p member r new => ?_⟩
      rw [List.mem_singleton.mp new, ← sound.entered]
      exact producing.inside p (List.mem_filter.mp member).1
    · rw [List.append_nil]
      exact producing.sorted.filter _
  · rw [length]
    rcases members.mp member with ⟨old, -⟩ | ⟨-, rfl⟩
    · exact (producing.inside p old).trans (Nat.lt_succ_self _)
    · exact Nat.lt_succ_self _
  · rw [first] at valid
    rw [members, entered]
    by_cases here : x = s.entered.length
    · rw [here, own]
      constructor
      · rintro (⟨old, -⟩ | ⟨store, same⟩)
        · exact absurd (producing.inside _ old) (lt_irrefl _)
        · exact ⟨op, rfl, store, (Prod.ext_iff.mp same).2.symm⟩
      · rintro ⟨w, found, store, place⟩
        obtain rfl := Option.some_injective _ found
        exact .inr ⟨store, by rw [place]⟩
    · by_cases older : x < s.entered.length
      · rw [List.getElem?_append_left older, ← producing.stores x a valid]
        simp [here, valid]
      · have outside : (s.entered ++ [op])[x]? = none := by
          rw [List.getElem?_eq_none_iff, List.length_append, List.length_singleton]
          omega
        rw [outside]
        constructor
        · rintro (⟨old, -⟩ | ⟨-, same⟩)
          · exact absurd (producing.inside _ old) older
          · exact absurd (Prod.ext_iff.mp same).1 here
        · rintro ⟨w, found, -⟩
          cases found
  · rw [entering.membar, MemoryDependencies.membarAfter] at known
    rw [entered]
    split_ifs at known with kept
    · obtain ⟨w, found, plain⟩ := producing.membar x known
      exact ⟨w, by rw [List.getElem?_append_left (List.getElem?_eq_some_iff.mp found).1, found], plain⟩
    · obtain rfl := Option.some_injective _ known
      refine ⟨op, (show (s.own op).sequenceNumber = s.entered.length from sound.entered.symm) ▸ own, ?_⟩
      rw [Bool.or_eq_true, Bool.or_eq_true, not_or, not_or] at kept
      exact Bool.not_eq_true _ ▸ kept.1.2

/-- **The dependencies of a new micro-op** are its producers in the queue, and the last barrier. -/
theorem Entering.mem_producers (bare : op.dependencies = []) (sound : Sound s)
    (producing : Producing s) (entering : Entering config op s s' u v q e) {x : ℕ} :
    x ∈ u.allDependencies ↔ IntraProducer s'.entered s.entered.length x ∨
      s.rob.first ≤ x ∧ (RegisterProducer s'.entered s.entered.length x ∨
        StoreProducer s'.entered s.entered.length x) ∨
      (op.isLoad || op.isStore || op.microOp.membar) = true ∧
        s.memoryDependencies.membar = some x ∧ s.rob.first < x := by
  have entered : s'.entered = s.entered ++ [op] := by rw [entering.timer]
  have own : (s.entered ++ [op])[s.entered.length]? = some op := by simp
  have intra : x ∈ (s.own op).allDependencies ↔ IntraProducer s'.entered s.entered.length x := by
    rw [DynamicMicroOp.allDependencies, show (s.own op).dependencies = [] from bare, List.append_nil,
      DynamicMicroOp.mem_intra_iff, IntraProducer, entered, own]
    simp only [Option.some.injEq, exists_eq_left']
    rw [sound.entered]
    rfl
  have registers : (∃ source ∈ op.microOp.sourceRegisters,
      s.registerDependencies source = some x ∧ s.rob.first ≤ x) ↔
      s.rob.first ≤ x ∧ RegisterProducer s'.entered s.entered.length x := by
    rw [RegisterProducer, entered, own]
    simp only [Option.some.injEq, exists_eq_left', LastBefore.append_iff le_rfl]
    constructor
    · rintro ⟨source, member, known, valid⟩
      exact ⟨valid, source, member, (producing.registers source x valid).mp known⟩
    · rintro ⟨valid, source, member, last⟩
      exact ⟨source, member, (producing.registers source x valid).mpr last, valid⟩
  have stores : (op.isLoad = true ∧
      (s.memoryDependencies.clean s.rob.first).find op.address = some x) ↔
      s.rob.first ≤ x ∧ StoreProducer s'.entered s.entered.length x := by
    rw [StoreProducer, entered, own, producing.find_eq_some]
    simp only [Option.some.injEq, exists_eq_left', LastBefore.append_iff le_rfl]
    exact and_left_comm
  rw [entering.producers, intra, registers, stores, and_or_left, or_assoc]

end Enter

/-- The tables stay true as long as only old entries leave the queue. -/
theorem Producing.of_same (producing : Producing s) (first : s.rob.first ≤ s'.rob.first)
    (registers : s'.registerDependencies = s.registerDependencies)
    (memory : s'.memoryDependencies = s.memoryDependencies) (entered : s'.entered = s.entered) :
    Producing s' := by
  refine ⟨fun r x valid => ?_, memory ▸ producing.sorted, ?_, fun x a valid => ?_, ?_⟩
  · rw [registers, entered]
    exact producing.registers r x (first.trans valid)
  · rw [memory, entered]
    exact producing.inside
  · rw [memory, entered]
    exact producing.stores x a (first.trans valid)
  · rw [memory, entered]
    exact producing.membar

theorem Beside.producing (move : Beside config s s') (producing : Producing s) : Producing s' := by
  cases move with
  | dispatch inWindow room inQueue => exact producing.of_same le_rfl rfl rfl rfl
  | commit some done => exact producing.of_same (Nat.le_succ _) rfl rfl rfl
  | control clock same =>
    rw [same]
    exact producing.of_same le_rfl rfl rfl rfl

theorem Issuing.producing {p : ℕ} {u : DynamicMicroOp} {i : Issue}
    (issuing : Issuing config p s s' u i) (producing : Producing s) : Producing s' := by
  refine producing.of_same issuing.first.ge ?_ ?_ ?_
  all_goals rw [issuing.timer]

end GpuHotSpot.Common.RobTimer
