import GpuHotSpot.Common.ReplacementPolicies
import Mathlib.Data.Finset.Card
import Mathlib.Data.Finset.Range

/-!
# The bits of NRU

What a set of the policy `nru` keeps of the uses of its ways, over runs of accesses and
replacements.

* `Accounted`: the bits are those of the touched ways, the counter is their number, and no way is
  evicted that was touched while another one may be.
* `accounted_iff`: exactly when that holds in a run.

The set counts every use, also of a way that has its bit already.
-/

namespace GpuHotSpot.Common.Caches.CacheSetNRU

open Fallible

/-! ## Runs -/

/-- A use of a set: a hit, or the choice of the way of a new line. -/
inductive Use (associativity : ℕ)
  | access (way : Fin associativity)
  | replace (ways : ℕ → BlockInfo)

/-- A set, and the ways that were touched since all ways had been. -/
structure History where
  set : CacheSetNRU
  touched : Finset ℕ

/-- One more way is touched; when all have been, it begins anew. -/
def touch (associativity : ℕ) (touched : Finset ℕ) (way : ℕ) : Finset ℕ :=
  if insert way touched = Finset.range associativity then ∅ else insert way touched

def History.start : History := ⟨create, ∅⟩

def History.step (associativity : ℕ) : Use associativity → History → Except SetFault History
  | .access way, h =>
    .ok ⟨h.set.updateReplacementIndex associativity way, touch associativity h.touched way⟩
  | .replace ways, h => do
      let (index, set) ← h.set.getReplacementIndex associativity ways
      .ok ⟨set, touch associativity h.touched index⟩

/-! ## What should hold -/

/-- The bits, the counter and the choices agree with the touched ways. -/
structure Accounted (associativity : ℕ) (h : History) : Prop where
  bits : ∀ way < associativity, h.set.lruBits way = if way ∈ h.touched then 1 else 0
  count : h.set.numBitsSet = h.touched.card
  choice : ∀ ways index set, h.set.getReplacementIndex associativity ways = .ok (index, set) →
    (ways index).isValid → (∃ way < associativity, way ∉ h.touched ∧ isValidReplacement ways way) →
    index ∉ h.touched

/-- The way has no bit yet, and the counter has room for one more. -/
def Untouched (s : CacheSetNRU) (way : ℕ) : Prop := s.lruBits way = 0 ∧ s.numBitsSet < 255

/-- The pointer reaches a way that may be replaced, of those without a bit if there are any. -/
def CanReplace (associativity : ℕ) (ways : ℕ → BlockInfo) (s : CacheSetNRU) : Prop :=
  ∃ way < pointed associativity,
    (s.lruBits way = 0 ∨ ¬ haveZeroBit associativity ways s.lruBits) ∧ isValidReplacement ways way

/-- The use is of a way without a bit: for a replacement, the first one that is not in use, or else
any way that may be replaced. -/
def UsesUntouched {associativity : ℕ} (h : History) : Use associativity → Prop
  | .access way => Untouched h.set way
  | .replace ways =>
    match firstInvalid associativity ways with
    | some way => Untouched h.set way
    | none => CanReplace associativity ways h.set →
        haveZeroBit associativity ways h.set.lruBits ∧ h.set.numBitsSet < 255

/-! ## One use -/

variable {associativity : ℕ} {h : History} {ways : ℕ → BlockInfo} {way : ℕ}

/-- What holds of every history. -/
structure Formed (associativity : ℕ) (h : History) : Prop where
  inside : h.touched ⊆ Finset.range associativity
  some : 0 < associativity → h.touched ≠ Finset.range associativity
  small : h.set.numBitsSet < 256
  pointer : 0 < associativity → h.set.replacementPointer < pointed associativity

theorem numBitsSet_update (s : CacheSetNRU) (way : ℕ) :
    (s.updateReplacementIndex associativity way).numBitsSet =
      if (s.numBitsSet + 1) % 256 = associativity then 0 else (s.numBitsSet + 1) % 256 := by
  rw [updateReplacementIndex]
  split <;> rfl

theorem lruBits_update (s : CacheSetNRU) (way other : ℕ) :
    (s.updateReplacementIndex associativity way).lruBits other =
      if (s.numBitsSet + 1) % 256 = associativity then 0
      else if other = way then 1 else s.lruBits other := by
  rw [updateReplacementIndex]
  split
  · rfl
  · exact Function.update_apply ..

/-- The set after a use. -/
def History.use (associativity way : ℕ) (h : History) : History :=
  ⟨h.set.updateReplacementIndex associativity way, touch associativity h.touched way⟩

theorem touch_subset (subset : h.touched ⊆ Finset.range associativity)
    (inside : way < associativity) :
    touch associativity h.touched way ⊆ Finset.range associativity := by
  rw [touch]
  split
  · exact Finset.empty_subset _
  · exact Finset.insert_subset (Finset.mem_range.2 inside) subset

theorem touch_ne (positive : 0 < associativity) :
    touch associativity h.touched way ≠ Finset.range associativity := by
  rw [touch]
  split
  · intro empty
    have := congrArg Finset.card empty
    rw [Finset.card_empty, Finset.card_range] at this
    omega
  · assumption

theorem Formed.use (formed : Formed associativity h) (inside : way < associativity) :
    Formed associativity (h.use associativity way) where
  inside := touch_subset formed.inside inside
  some := touch_ne
  small := by
    rw [History.use, numBitsSet_update]
    split
    · decide
    · exact Nat.mod_lt _ (by decide)
  pointer := fun positive => by
    rw [History.use, replacementPointer_update]
    exact formed.pointer positive

/-- A set that agrees with the touched ways chooses one of the others. -/
theorem choice_of_bits (formed : Formed associativity h)
    (bits : ∀ way < associativity, h.set.lruBits way = if way ∈ h.touched then 1 else 0)
    {index : ℕ} {set : CacheSetNRU}
    (chosen : h.set.getReplacementIndex associativity ways = .ok (index, set))
    (valid : (ways index).isValid)
    (other : ∃ way < associativity, way ∉ h.touched ∧ isValidReplacement ways way) :
    index ∉ h.touched := by
  obtain ⟨way, inside, untouched, replaceable⟩ := other
  have zero : haveZeroBit associativity ways h.set.lruBits :=
    ⟨way, inside, by rw [bits way inside, if_neg untouched], replaceable⟩
  have positive : 0 < associativity := Nat.zero_lt_of_lt inside
  rw [getReplacementIndex] at chosen
  cases first : firstInvalid associativity ways with
  | some i =>
    rw [first] at chosen
    cases chosen
    have unused := List.find?_some first
    simp [valid] at unused
  | none =>
    rw [first] at chosen
    dsimp only at chosen
    split at chosen
    · cases chosen
    · next i found =>
        cases chosen
        obtain ⟨⟨bit, -⟩, reached⟩ := searchFrom_spec (formed.pointer positive) found
        have low := lt_of_lt_of_le reached pointed_le
        rw [bits _ low, or_iff_left (not_not_intro zero)] at bit
        intro member
        simp [member] at bit

/-- **A use of a way**: the set agrees with the touched ways afterwards exactly if the way had no
bit and the counter has room. -/
theorem accounted_use_iff (formed : Formed associativity h) (accounted : Accounted associativity h)
    (inside : way < associativity) :
    Accounted associativity (h.use associativity way) ↔ Untouched h.set way := by
  have positive : 0 < associativity := Nat.zero_lt_of_lt inside
  have before := accounted.bits way inside
  constructor
  · intro after
    have bit := after.bits way inside
    have count := after.count
    rw [History.use, lruBits_update, if_pos rfl] at bit
    rw [History.use, numBitsSet_update] at count
    have small := formed.small
    by_cases member : way ∈ h.touched
    · -- A use that touches nothing new is counted.
      have same : touch associativity h.touched way = h.touched := by
        rw [touch, Finset.insert_eq_of_mem member, if_neg (formed.some positive)]
      rw [same, if_pos member] at bit
      rw [same, ← accounted.count] at count
      split at count
      · next full => simp [full] at bit
      · omega
    · refine ⟨by rw [before, if_neg member], ?_⟩
      by_contra most
      have wraps : (h.set.numBitsSet + 1) % 256 = 0 := by omega
      rw [wraps, if_neg positive.ne] at bit count
      rw [touch] at bit count
      split at bit
      · next full => simp at bit
      · next partly =>
          rw [if_neg partly, Finset.card_insert_of_notMem member] at count
          omega
  · rintro ⟨bit, room⟩
    have member : way ∉ h.touched := by
      intro member
      rw [before, if_pos member] at bit
      exact one_ne_zero bit
    have next : (h.set.numBitsSet + 1) % 256 = (insert way h.touched).card := by
      rw [Finset.card_insert_of_notMem member, ← accounted.count]
      exact Nat.mod_eq_of_lt (by omega)
    -- The counter is the associativity exactly when all ways are touched.
    have full : (h.set.numBitsSet + 1) % 256 = associativity ↔
        insert way h.touched = Finset.range associativity := by
      rw [next]
      refine ⟨fun all => Finset.eq_of_subset_of_card_le ?_ ?_, fun all => ?_⟩
      · exact Finset.insert_subset (Finset.mem_range.2 inside) formed.inside
      · rw [Finset.card_range, all]
      · rw [all, Finset.card_range]
    have bits : ∀ other < associativity, (h.use associativity way).set.lruBits other =
        if other ∈ (h.use associativity way).touched then 1 else 0 := by
      intro other low
      rw [History.use, lruBits_update]
      dsimp only
      rw [touch, if_congr full rfl rfl]
      split
      · simp
      · rw [accounted.bits other low]
        by_cases same : other = way
        · simp [same]
        · simp [same]
    refine ⟨bits, ?_, fun ways index set => choice_of_bits (formed.use inside) bits⟩
    rw [History.use, numBitsSet_update]
    dsimp only
    rw [touch, if_congr full rfl rfl, next]
    split <;> simp

/-! ## Runs -/

/-- The set with its pointer moved on. -/
def History.advance (associativity way : ℕ) (h : History) : History :=
  ⟨{ h.set with replacementPointer := nextPointer associativity way }, h.touched⟩

theorem Formed.advance (formed : Formed associativity h) (inside : way < pointed associativity) :
    Formed associativity (h.advance associativity way) :=
  ⟨formed.inside, formed.some, formed.small, fun _ => nextPointer_lt inside⟩

theorem Accounted.advance (accounted : Accounted associativity h) (formed : Formed associativity h)
    (inside : way < pointed associativity) :
    Accounted associativity (h.advance associativity way) :=
  ⟨accounted.bits, accounted.count,
    fun _ _ _ => choice_of_bits (formed.advance inside) accounted.bits⟩

/-- **What a replacement does**: it uses the first way that is not in use, or else a way that may be
replaced, one without a bit if there is such a way. -/
theorem step_replace (formed : Formed associativity h) (ways : ℕ → BlockInfo) :
    (∃ way < associativity, firstInvalid associativity ways = some way ∧
      History.step associativity (.replace ways) h = .ok (h.use associativity way)) ∨
    firstInvalid associativity ways = none ∧ CanReplace associativity ways h.set ∧
      (∃ way < pointed associativity,
        (h.set.lruBits way = 0 ↔ haveZeroBit associativity ways h.set.lruBits) ∧
        History.step associativity (.replace ways) h =
          .ok ((h.advance associativity way).use associativity way)) ∨
    firstInvalid associativity ways = none ∧ ¬ CanReplace associativity ways h.set ∧
      History.step associativity (.replace ways) h = .error .noCandidate := by
  rw [History.step, getReplacementIndex]
  cases first : firstInvalid associativity ways with
  | some way =>
    have inside := List.mem_range.1 (List.mem_of_find?_eq_some first)
    exact .inl ⟨way, inside, rfl, rfl⟩
  | none =>
    refine .inr ?_
    dsimp only
    rcases Nat.eq_zero_or_pos associativity with rfl | positive
    · refine .inr ⟨rfl, ?_, rfl⟩
      rintro ⟨way, inside, -⟩
      exact absurd (lt_of_lt_of_le inside pointed_le) (Nat.not_lt_zero way)
    · have finds : (searchFrom associativity (fun i => (h.set.lruBits i = 0 ∨
          ¬ haveZeroBit associativity ways h.set.lruBits) ∧ isValidReplacement ways i)
          associativity h.set.replacementPointer).isSome ↔
            CanReplace associativity ways h.set :=
        searchFrom_isSome_iff (formed.pointer positive)
      cases found : searchFrom associativity (fun i => (h.set.lruBits i = 0 ∨
        ¬ haveZeroBit associativity ways h.set.lruBits) ∧ isValidReplacement ways i) associativity
        h.set.replacementPointer with
      | none =>
        rw [found] at finds
        exact .inr ⟨rfl, fun can => Bool.false_ne_true (finds.2 can), rfl⟩
      | some way =>
        rw [found] at finds
        obtain ⟨⟨bit, valid⟩, reached⟩ := searchFrom_spec (formed.pointer positive) found
        refine .inl ⟨rfl, finds.1 rfl, way, reached, ⟨fun zero => ?_, fun zero => ?_⟩, rfl⟩
        · exact ⟨way, lt_of_lt_of_le reached pointed_le, zero, valid⟩
        · exact bit.resolve_right (not_not_intro zero)

theorem Formed.step (formed : Formed associativity h) {use : Use associativity} {h' : History}
    (moved : History.step associativity use h = .ok h') : Formed associativity h' := by
  cases use with
  | access way =>
    cases moved
    exact formed.use way.isLt
  | replace ways =>
    rcases step_replace formed ways with ⟨way, inside, -, done⟩ | ⟨-, -, way, reached, -, done⟩ |
      ⟨-, -, failed⟩
    · cases moved.symm.trans done
      exact formed.use inside
    · cases moved.symm.trans done
      exact (formed.advance reached).use (lt_of_lt_of_le reached pointed_le)
    · exact nomatch moved.symm.trans failed

/-- **One step** keeps the account exactly if it uses a way without a bit. -/
theorem accounted_step_iff (formed : Formed associativity h)
    (accounted : Accounted associativity h) {use : Use associativity} {h' : History}
    (moved : History.step associativity use h = .ok h') :
    Accounted associativity h' ↔ UsesUntouched h use := by
  cases use with
  | access way =>
    cases moved
    exact accounted_use_iff formed accounted way.isLt
  | replace ways =>
    rw [UsesUntouched]
    rcases step_replace formed ways with ⟨way, inside, first, done⟩ |
      ⟨first, can, way, reached, zero, done⟩ | ⟨-, -, failed⟩
    · cases moved.symm.trans done
      rw [first]
      exact accounted_use_iff formed accounted inside
    · cases moved.symm.trans done
      rw [first]
      dsimp only
      rw [accounted_use_iff (formed.advance reached) (accounted.advance formed reached)
        (lt_of_lt_of_le reached pointed_le), imp_iff_right can, ← zero]
      rfl
    · exact nomatch moved.symm.trans failed

theorem formed_start : Formed associativity .start where
  inside := Finset.empty_subset _
  some := fun positive empty => by
    have := congrArg Finset.card empty
    rw [Finset.card_range] at this
    exact positive.ne this
  small := by decide
  pointer := pointed_pos

theorem accounted_start : Accounted associativity .start :=
  ⟨fun _ _ => rfl, rfl, fun _ _ _ _ _ _ => Finset.notMem_empty _⟩

/-- **The bits of NRU.** In every state of a run the bits are those of the ways that were touched
since all bits were last set, the counter is their number, and no touched way is evicted while
another one may be, exactly if each use is of a way without a bit and no more than 255 ways have
one. -/
theorem accounted_iff (associativity : ℕ) (uses : List (Use associativity)) :
    (∀ pre, pre <+: uses → ∀ h, runEvents (History.step associativity) pre .start = .ok h →
      Accounted associativity h) ↔
      Along UsesUntouched (History.step associativity) uses .start := by
  refine along_iff_reached (fun use h h' formed moved => Formed.step formed moved)
    (fun use h h' formed accounted moved => accounted_step_iff formed accounted moved)
    (fun use h e formed failed => ?_) formed_start accounted_start
  cases use with
  | access way => exact nomatch failed
  | replace ways =>
    rw [UsesUntouched]
    rcases step_replace formed ways with ⟨way, -, -, done⟩ | ⟨-, -, way, -, -, done⟩ |
      ⟨first, cannot, -⟩
    · exact nomatch failed.symm.trans done
    · exact nomatch failed.symm.trans done
    · rw [first]
      exact fun can => absurd can cannot

/-- Two hits of one way clear the bits of a set of two ways, the other one of which was never
touched. -/
theorem not_accounted_twice : ¬ ∀ (associativity : ℕ) (uses : List (Use associativity)),
    ∀ pre, pre <+: uses → ∀ h, runEvents (History.step associativity) pre .start = .ok h →
      Accounted associativity h := by
  intro all
  have twice := all 2 [.access 0, .access 0] _ (List.prefix_refl _) _ rfl
  have bit := twice.bits 0 (by decide)
  exact absurd bit (by decide)

end GpuHotSpot.Common.Caches.CacheSetNRU
