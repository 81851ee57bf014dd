import GpuHotSpot.Common.ReplacementPolicies
import Mathlib.Algebra.Ring.Parity
import Mathlib.Tactic.IntervalCases

/-!
# Choosing a victim

A set whose ways are not all in an upgrade is asked for the way of a new line. The choice is legal
when it ends without an error, with a way of the set that is not in an upgrade.

* `CacheSetLRU.legal_iff`, `CacheSetNRU.legal_iff`, `CacheSetNMRU.legal_iff`,
  `CacheSetPLRU.legal_iff`, `CacheSetSRRIP.legal_iff`, `CacheSetRoundRobin.legal_iff`: when it is,
  from the counters, pointers and states before it.
* `CacheSet.choice_legal_iff`: the same for the sets of all policies, after any run.

LRU takes way 0 where no way that may be replaced has a counter above 0. NMRU, PLRU and SRRIP end
with an error where the ways that they would take are in an upgrade. Round robin looks at the way
before the one that it returns.
-/

namespace GpuHotSpot.Common.Caches

open Fallible

variable {associativity : ℕ} {ways : ℕ → BlockInfo} {cntlr : Cntlr} {A : Type}

/-! ## Legal results -/

/-- The result is a way of the set that is not in an upgrade. -/
def Legal (associativity : ℕ) (ways : ℕ → BlockInfo) (result : Except SetFault (ℕ × A)) : Prop :=
  ∃ index s, result = .ok (index, s) ∧ index < associativity ∧ isValidReplacement ways index

theorem legal_ok {index : ℕ} {s : A} : Legal associativity ways (.ok (index, s)) ↔
    index < associativity ∧ isValidReplacement ways index := by
  constructor
  · rintro ⟨_, _, same, legal⟩
    cases same
    exact legal
  · intro legal
    exact ⟨index, s, rfl, legal⟩

theorem not_legal_error {e : SetFault} :
    ¬ Legal associativity ways (.error e : Except SetFault (ℕ × A)) :=
  fun ⟨_, _, same, _⟩ => nomatch same

theorem legal_map {B : Type} (f : A → B) (result : Except SetFault (ℕ × A)) :
    Legal associativity ways (do let (index, s) ← result; .ok (index, f s)) ↔
      Legal associativity ways result := by
  cases result with
  | error e => exact ⟨fun legal => (not_legal_error legal).elim,
      fun legal => (not_legal_error legal).elim⟩
  | ok result => exact legal_ok.trans legal_ok.symm

/-- The way may be replaced. -/
def Free (associativity : ℕ) (ways : ℕ → BlockInfo) (way : ℕ) : Prop :=
  way < associativity ∧ isValidReplacement ways way

/-- Some way is not in use. -/
def HasInvalid (associativity : ℕ) (ways : ℕ → BlockInfo) : Prop :=
  ∃ i < associativity, ¬ (ways i).isValid

theorem firstInvalid_some {i : ℕ} (found : firstInvalid associativity ways = some i) :
    i < associativity ∧ ¬ (ways i).isValid := by
  have invalid := List.find?_some found
  exact ⟨List.mem_range.1 (List.mem_of_find?_eq_some found), of_decide_eq_true invalid⟩

theorem firstInvalid_none (missing : firstInvalid associativity ways = none) :
    ¬ HasInvalid associativity ways := by
  rintro ⟨i, inside, invalid⟩
  have valid := List.find?_eq_none.1 missing i (List.mem_range.2 inside)
  exact valid (decide_eq_true invalid)

/-- A choice that takes the first way that is not in use. -/
theorem legal_firstInvalid {f : ℕ → A} {rest : Except SetFault (ℕ × A)} {condition : Prop}
    (unused : ∀ i, ¬ (ways i).isValid → isValidReplacement ways i)
    (otherwise : ¬ HasInvalid associativity ways → (Legal associativity ways rest ↔ condition)) :
    Legal associativity ways (match firstInvalid associativity ways with
        | some i => .ok (i, f i)
        | none => rest) ↔ HasInvalid associativity ways ∨ condition := by
  cases found : firstInvalid associativity ways with
  | some i =>
    have ⟨inside, invalid⟩ := firstInvalid_some found
    exact iff_of_true (legal_ok.2 ⟨inside, unused i invalid⟩) (.inl ⟨i, inside, invalid⟩)
  | none =>
    have full := firstInvalid_none found
    rw [or_iff_right full]
    exact otherwise full

/-- The answer of the controller, where there is one. -/
def rejects (cntlr : Cntlr) (info : BlockInfo) : Bool := cntlr.any (· info)

theorem qbsReject_eq {numAttempts : ℕ} (asked : 1 < numAttempts → cntlr.isSome) (attempt : ℕ)
    (info : BlockInfo) : qbsReject numAttempts attempt cntlr info =
      .ok (decide (attempt + 1 < numAttempts) && rejects cntlr info) := by
  unfold qbsReject
  split
  · next before =>
      obtain ⟨isIn, rfl⟩ := Option.isSome_iff_exists.1 (asked (by omega))
      simp [before, rejects]
  · next last => simp [last]

/-! ## LRU -/

namespace CacheSetLRU

theorem select_spec (associativity : ℕ) (ways : ℕ → BlockInfo) (bits : ℕ → ℕ) :
    (select associativity ways bits = 0 ∧ ∀ w, Free associativity ways w → bits w = 0) ∨
    (Free associativity ways (select associativity ways bits) ∧
      0 < bits (select associativity ways bits) ∧
      ∀ w, Free associativity ways w → bits w ≤ bits (select associativity ways bits)) := by
  -- The same of the first ways, and of the counter that the loop keeps.
  have prefixes (k : ℕ) : let found := (List.range k).foldl (fun (found : ℕ × ℕ) i =>
        if found.2 < bits i ∧ isValidReplacement ways i then (i, bits i) else found) (0, 0)
      (found = (0, 0) ∧ ∀ w, Free k ways w → bits w = 0) ∨
      (Free k ways found.1 ∧ found.2 = bits found.1 ∧ 0 < found.2 ∧
        ∀ w, Free k ways w → bits w ≤ found.2) := by
    induction k with
    | zero => exact .inl ⟨rfl, fun w free => absurd free.1 (Nat.not_lt_zero w)⟩
    | succ k ih =>
      have split (w : ℕ) (free : Free (k + 1) ways w) : Free k ways w ∨ w = k :=
        (Nat.lt_succ_iff_lt_or_eq.1 free.1).imp_left fun before => ⟨before, free.2⟩
      rw [List.range_succ, List.foldl_append, List.foldl_cons, List.foldl_nil]
      generalize (List.range k).foldl (fun (found : ℕ × ℕ) i =>
        if found.2 < bits i ∧ isValidReplacement ways i then (i, bits i) else found) (0, 0)
        = found at ih ⊢
      dsimp only at ih ⊢
      by_cases better : found.2 < bits k ∧ isValidReplacement ways k
      · rw [if_pos better]
        refine .inr ⟨⟨Nat.lt_succ_self k, better.2⟩, rfl, Nat.zero_lt_of_lt better.1, ?_⟩
        intro w free
        rcases split w free with before | rfl
        · rcases ih with ⟨rfl, none⟩ | ⟨_, _, _, most⟩
          · rw [none w before]
            exact Nat.zero_le _
          · exact (most w before).trans better.1.le
        · exact le_rfl
      · rw [if_neg better]
        rcases ih with ⟨rfl, none⟩ | ⟨free, same, positive, most⟩
        · refine .inl ⟨rfl, fun w free => ?_⟩
          rcases split w free with before | rfl
          · exact none w before
          · exact Nat.eq_zero_of_not_pos fun positive => better ⟨positive, free.2⟩
        · refine .inr ⟨⟨Nat.lt_succ_of_lt free.1, free.2⟩, same, positive, fun w here => ?_⟩
          rcases split w here with before | rfl
          · exact most w before
          · exact Nat.le_of_not_lt fun less => better ⟨less, here.2⟩
  rcases prefixes associativity with ⟨zero, none⟩ | ⟨free, same, positive, most⟩
  · exact .inl ⟨congrArg Prod.fst zero, none⟩
  · exact .inr ⟨free, same ▸ positive, fun w here => same ▸ most w here⟩

variable {numAttempts left attempt : ℕ} {bits : ℕ → ℕ}

theorem select_lt (some : ∃ w, Free associativity ways w) :
    select associativity ways bits < associativity := by
  rcases select_spec associativity ways bits with ⟨zero, _⟩ | ⟨free, _⟩
  · obtain ⟨w, free⟩ := some
    rw [zero]
    exact Nat.zero_lt_of_lt free.1
  · exact free.1

/-- One attempt of a set of which the controller is there when it is asked. -/
theorem attempts_succ (some : ∃ w, Free associativity ways w)
    (asked : 1 < numAttempts → cntlr.isSome) (sum : attempt + (left + 1) = numAttempts) :
    attempts associativity ways cntlr numAttempts (left + 1) attempt bits =
      if 0 < left ∧ rejects cntlr (ways (select associativity ways bits)) then
        attempts associativity ways cntlr numAttempts left (attempt + 1)
          (moveToMRU associativity bits (select associativity ways bits))
      else .ok (select associativity ways bits,
        moveToMRU associativity bits (select associativity ways bits)) := by
  have before : attempt + 1 < numAttempts ↔ 0 < left := by omega
  have stored : incrementAttempt numAttempts attempt = .ok () := if_pos (by omega)
  rw [attempts, if_pos (select_lt some)]
  simp only [qbsReject_eq asked, before, stored, ok_bind, Bool.and_eq_true, decide_eq_true_eq]

/-- Two ways may be replaced. -/
def TwoFree (associativity : ℕ) (ways : ℕ → BlockInfo) : Prop :=
  ∃ v w, Free associativity ways v ∧ Free associativity ways w ∧ v ≠ w

/-- The controller rejects a way that may be replaced. -/
def SomeRejected (associativity : ℕ) (ways : ℕ → BlockInfo) (cntlr : Cntlr) : Prop :=
  ∃ w, Free associativity ways w ∧ rejects cntlr (ways w)

/-- Some way that may be replaced has a counter above 0. -/
def Marked (associativity : ℕ) (ways : ℕ → BlockInfo) (bits : ℕ → ℕ) : Prop :=
  ∃ w, Free associativity ways w ∧ 0 < bits w

/-- When so many attempts are enough: way 0 may be replaced; or the first attempt takes another way,
and each further one finds another way yet or the same again; or it is the second attempt that takes
such a way, since the first one moves way 0. -/
def Suffice (associativity : ℕ) (ways : ℕ → BlockInfo) (cntlr : Cntlr) (attempts : ℕ)
    (bits : ℕ → ℕ) : Prop :=
  isValidReplacement ways 0 ∨
  (Marked associativity ways bits ∧
    (attempts = 1 ∨ TwoFree associativity ways ∨ ¬ SomeRejected associativity ways cntlr ∨
      (rejects cntlr (ways 0) ∧ Odd attempts))) ∨
  (¬ Marked associativity ways bits ∧ 0 < bits 0 ∧ 1 < attempts ∧ rejects cntlr (ways 0) ∧
    (TwoFree associativity ways ∨ ¬ SomeRejected associativity ways cntlr ∨ Even attempts))

theorem select_free (some : ∃ w, Free associativity ways w)
    (good : isValidReplacement ways 0 ∨ Marked associativity ways bits) :
    Free associativity ways (select associativity ways bits) := by
  rcases select_spec associativity ways bits with ⟨zero, none⟩ | ⟨free, _⟩
  · rcases good with valid | ⟨w, free, positive⟩
    · exact ⟨select_lt some, zero.symm ▸ valid⟩
    · exact absurd (none w free) positive.ne'
  · exact free

theorem select_pos (marked : Marked associativity ways bits) :
    0 < bits (select associativity ways bits) := by
  rcases select_spec associativity ways bits with ⟨_, none⟩ | ⟨_, positive, _⟩
  · obtain ⟨w, free, positive⟩ := marked
    exact absurd (none w free) positive.ne'
  · exact positive

theorem select_of_not_marked (unmarked : ¬ Marked associativity ways bits) :
    select associativity ways bits = 0 := by
  rcases select_spec associativity ways bits with ⟨zero, _⟩ | ⟨free, positive, _⟩
  · exact zero
  · exact absurd ⟨_, free, positive⟩ unmarked

/-- After the move of a way with a counter above 0, all other counters are above 0. -/
theorem moveToMRU_pos {v w : ℕ} (positive : 0 < bits v) (other : w ≠ v)
    (inside : w < associativity) : 0 < moveToMRU associativity bits v w := by
  rw [moveToMRU_apply, if_neg other]
  split
  · exact Nat.succ_pos _
  · next older =>
      rw [not_and, Nat.not_lt] at older
      exact lt_of_lt_of_le positive (older inside)

theorem marked_moveToMRU {v : ℕ} (free : Free associativity ways v) (positive : 0 < bits v) :
    Marked associativity ways (moveToMRU associativity bits v) ↔ TwoFree associativity ways := by
  constructor
  · rintro ⟨w, here, above⟩
    refine ⟨v, w, free, here, ?_⟩
    rintro rfl
    rw [moveToMRU_apply, if_pos rfl] at above
    exact Nat.lt_irrefl 0 above
  · rintro ⟨a, b, first, second, differ⟩
    by_cases same : a = v
    · exact ⟨b, second, moveToMRU_pos positive (fun this => differ (same.trans this.symm)) second.1⟩
    · exact ⟨a, first, moveToMRU_pos positive same first.1⟩

/-- Where way 0 may be replaced, every attempt has a way that may be. -/
theorem attempts_legal_of_zero (zero : isValidReplacement ways 0)
    (some : ∃ w, Free associativity ways w) (asked : 1 < numAttempts → cntlr.isSome)
    (sum : attempt + (left + 1) = numAttempts) :
    Legal associativity ways
      (attempts associativity ways cntlr numAttempts (left + 1) attempt bits) := by
  induction left generalizing attempt bits with
  | zero =>
    rw [attempts_succ some asked sum, if_neg fun rejected => Nat.lt_irrefl 0 rejected.1]
    exact legal_ok.2 (select_free some (.inl zero))
  | succ left ih =>
    rw [attempts_succ some asked sum]
    split
    · exact ih (by omega)
    · exact legal_ok.2 (select_free some (.inl zero))

/-- The attempts where way 0 may not be replaced: which way is taken alternates between way 0 and
the only way that may be, where there is only one. -/
theorem attempts_legal_iff_of_not_zero (upgrading : ¬ isValidReplacement ways 0)
    (some : ∃ w, Free associativity ways w) (asked : 1 < numAttempts → cntlr.isSome)
    (sum : attempt + (left + 1) = numAttempts) :
    Legal associativity ways
        (attempts associativity ways cntlr numAttempts (left + 1) attempt bits) ↔
      Suffice associativity ways cntlr (left + 1) bits := by
  induction left generalizing attempt bits with
  | zero =>
    rw [attempts_succ some asked sum, if_neg fun rejected => Nat.lt_irrefl 0 rejected.1, legal_ok]
    by_cases marked : Marked associativity ways bits
    · exact iff_of_true (select_free some (.inr marked)) (.inr (.inl ⟨marked, .inl rfl⟩))
    · rw [select_of_not_marked marked]
      refine iff_of_false (fun legal => upgrading legal.2) ?_
      simp [Suffice, upgrading, marked]
  | succ left ih =>
    have parity : Odd (left + 1 + 1) ↔ Even (left + 1) := by
      rw [Nat.odd_add_one, Nat.not_odd_iff_even]
    have parity' : Even (left + 1 + 1) ↔ Odd (left + 1) := by
      rw [Nat.even_add_one, Nat.not_even_iff_odd]
    rw [attempts_succ some asked sum]
    by_cases marked : Marked associativity ways bits
    · have free := select_free some (.inr marked)
      have positive := select_pos marked
      generalize select associativity ways bits = v at free positive ⊢
      have other : 0 ≠ v := fun same => upgrading (same ▸ free.2)
      by_cases rejected : rejects cntlr (ways v)
      · rw [if_pos ⟨Nat.succ_pos left, rejected⟩, ih (by omega), Suffice, Suffice,
          marked_moveToMRU free positive]
        have someRejected : SomeRejected associativity ways cntlr := ⟨v, free, rejected⟩
        have inside : 0 < associativity := Nat.zero_lt_of_lt free.1
        by_cases two : TwoFree associativity ways
        · simp [two, marked]
        · have enough : Even (left + 1) → 0 < left := by
            rintro ⟨half, same⟩
            omega
          simp only [upgrading, two, marked, someRejected, moveToMRU_pos positive other inside,
            parity, not_true, not_false_iff, true_and, false_and, false_or, or_false]
          constructor
          · rintro ⟨_, zero, even⟩
            exact .inr ⟨zero, even⟩
          · rintro (last | ⟨zero, even⟩)
            · omega
            · exact ⟨Nat.succ_lt_succ (enough even), zero, even⟩
      · rw [if_neg fun taken => rejected taken.2, legal_ok]
        refine iff_of_true free (.inr (.inl ⟨marked, .inr ?_⟩))
        by_cases two : TwoFree associativity ways
        · exact .inl two
        · refine .inr (.inl ?_)
          rintro ⟨w, here, answer⟩
          by_cases same : w = v
          · exact rejected (same ▸ answer)
          · exact two ⟨w, v, here, free, same⟩
    · rw [select_of_not_marked marked]
      by_cases rejected : rejects cntlr (ways 0)
      · rw [if_pos ⟨Nat.succ_pos left, rejected⟩, ih (by omega)]
        rcases Nat.eq_zero_or_pos (bits 0) with zero | positive
        · -- Way 0 is the most recent one: its move changes nothing.
          have same : moveToMRU associativity bits 0 = bits := by
            funext w
            rw [moveToMRU_apply, zero]
            split
            · next here => rw [here, zero]
            · simp
          simp [Suffice, same, upgrading, marked, zero]
        · obtain ⟨w, free⟩ := some
          have other : w ≠ 0 := fun same => upgrading (same ▸ free.2)
          have now : Marked associativity ways (moveToMRU associativity bits 0) :=
            ⟨w, free, moveToMRU_pos positive other free.1⟩
          simp only [Suffice, upgrading, now, marked, positive, rejected, parity', not_true,
            not_false_iff, true_and, false_and, false_or, or_false]
          constructor
          · rintro (last | two | rest | odd)
            · exact ⟨by omega, .inr (.inr ⟨0, by omega⟩)⟩
            · exact ⟨by omega, .inl two⟩
            · exact ⟨by omega, .inr (.inl rest)⟩
            · exact ⟨by omega, .inr (.inr odd)⟩
          · rintro ⟨_, two | rest | odd⟩
            · exact .inr (.inl two)
            · exact .inr (.inr (.inl rest))
            · exact .inr (.inr (.inr odd))
      · rw [if_neg fun taken => rejected taken.2, legal_ok]
        refine iff_of_false (fun legal => upgrading legal.2) ?_
        simp [Suffice, upgrading, marked, rejected]

/-- **The choice of LRU,** with or without QBS, is legal exactly when a way is not in use, or there
is an attempt, the controller answers where it is asked, and the attempts suffice. -/
theorem legal_iff {s : CacheSetLRU} (some : ∃ w, Free associativity ways w)
    (unused : ∀ i, ¬ (ways i).isValid → isValidReplacement ways i) :
    Legal associativity ways (s.getReplacementIndex associativity ways cntlr) ↔
      HasInvalid associativity ways ∨ (0 < s.numAttempts ∧ (1 < s.numAttempts → cntlr.isSome) ∧
          Suffice associativity ways cntlr s.numAttempts s.lruBits) := by
  refine legal_firstInvalid unused fun _ => ?_
  refine (legal_map (fun bits => { s with lruBits := bits }) _).trans ?_
  cases number : s.numAttempts with
  | zero => exact iff_of_false not_legal_error fun enough => Nat.lt_irrefl 0 enough.1
  | succ left =>
    by_cases asked : 1 < left + 1 → cntlr.isSome
    · simp only [Nat.succ_pos, true_and, and_iff_right asked]
      by_cases zero : isValidReplacement ways 0
      · exact iff_of_true (attempts_legal_of_zero zero some asked (Nat.zero_add _)) (.inl zero)
      · exact attempts_legal_iff_of_not_zero zero some asked (Nat.zero_add _)
    · refine iff_of_false ?_ fun enough => asked enough.2.1
      rw [Classical.not_imp, Option.not_isSome_iff_eq_none] at asked
      rw [attempts, if_pos (select_lt some), asked.2, qbsReject, if_pos (by omega)]
      exact not_legal_error

end CacheSetLRU

/-! ## NRU and NMRU -/

/-- A search from a pointer for ways that may be replaced. -/
theorem legal_searchFrom {picks : ℕ → Prop} [DecidablePred picks] {pointer : ℕ} {f : ℕ → A}
    (inside : pointer < pointed associativity) (valid : ∀ i, picks i → isValidReplacement ways i) :
    Legal associativity ways (match searchFrom associativity picks associativity pointer with
        | none => .error .noCandidate
        | some index => .ok (index, f index)) ↔ ∃ i < pointed associativity, picks i := by
  rw [← searchFrom_isSome_iff inside]
  cases found : searchFrom associativity picks associativity pointer with
  | none => exact iff_of_false not_legal_error nofun
  | some index =>
    have ⟨picked, reached⟩ := searchFrom_spec inside found
    exact iff_of_true (legal_ok.2 ⟨lt_of_lt_of_le reached pointed_le, valid index picked⟩) rfl

/-- **The choice of NRU** is legal exactly when a way is not in use, or the pointer reaches a way
that may be replaced, of those with bit 0 if there are such ways. -/
theorem CacheSetNRU.legal_iff {s : CacheSetNRU}
    (inside : s.replacementPointer < pointed associativity)
    (unused : ∀ i, ¬ (ways i).isValid → isValidReplacement ways i) :
    Legal associativity ways (s.getReplacementIndex associativity ways) ↔
      HasInvalid associativity ways ∨ ∃ i < pointed associativity,
        (s.lruBits i = 0 ∨ ¬ haveZeroBit associativity ways s.lruBits) ∧
          isValidReplacement ways i :=
  legal_firstInvalid unused fun _ => legal_searchFrom inside fun _ picked => picked.2

/-- **The choice of NMRU** is legal exactly when a way is not in use, or the pointer reaches a way
that may be replaced and is not the most recent one. -/
theorem CacheSetNMRU.legal_iff {s : CacheSetNMRU}
    (inside : s.replacementPointer < pointed associativity)
    (unused : ∀ i, ¬ (ways i).isValid → isValidReplacement ways i) :
    Legal associativity ways (s.getReplacementIndex associativity ways) ↔
      HasInvalid associativity ways ∨ ∃ i < pointed associativity,
        s.lruBits i ≠ 0 ∧ isValidReplacement ways i :=
  legal_firstInvalid unused fun _ => legal_searchFrom inside fun _ picked => picked.2

/-! ## PLRU -/

namespace CacheSetPLRU

/-- The bits on the path to a way, each with the value that leads there. -/
def path (associativity way : ℕ) : List (ℕ × ℕ) :=
  if associativity = 4 then [(0, way / 2), (1 + way / 2, way % 2)]
  else [(0, way / 4), (1 + 3 * (way / 4), way / 2 % 2),
    (2 + 3 * (way / 4) + way / 2 % 2, way % 2)]

/-- The bits lead to the way. -/
def LeadsTo (associativity way : ℕ) (b : ℕ → ℕ) : Prop :=
  ∀ turn ∈ path associativity way, b turn.1 = 0 ↔ turn.2 = 0

/-- The bits lead to one way. -/
theorem exists_retValue (accepted : associativity = 4 ∨ associativity = 8) (s : CacheSetPLRU) :
    ∃ way < associativity, s.retValue associativity = .ok way ∧
      ∀ w < associativity, LeadsTo associativity w s.b ↔ w = way := by
  rcases accepted with rfl | rfl
  · refine ⟨_, ?_, rfl, fun w inside => ?_⟩
    · split <;> split <;> decide
    · interval_cases w <;> simp [LeadsTo, path] <;> split_ifs <;> simp [*]
  · refine ⟨_, ?_, rfl, fun w inside => ?_⟩
    · split <;> split <;> split <;> decide
    · interval_cases w <;> simp [LeadsTo, path] <;> split_ifs <;> simp [*]

theorem exists_update (accepted : associativity = 4 ∨ associativity = 8) (accessed : ℕ)
    (s : CacheSetPLRU) : ∃ s', s.updateReplacementIndex associativity accessed = .ok s' := by
  rcases accepted with rfl | rfl
  · exact ⟨_, rfl⟩
  · exact ⟨_, rfl⟩

/-- **The choice of PLRU** is legal exactly when a way is not in use, or the bits do not lead to a
way in an upgrade. -/
theorem legal_iff {s : CacheSetPLRU} (accepted : associativity = 4 ∨ associativity = 8)
    (unused : ∀ i, ¬ (ways i).isValid → isValidReplacement ways i) :
    Legal associativity ways (s.getReplacementIndex associativity ways) ↔
      HasInvalid associativity ways ∨
        ∀ w < associativity, LeadsTo associativity w s.b → isValidReplacement ways w := by
  rw [getReplacementIndex]
  cases found : firstInvalid associativity ways with
  | some i =>
    have ⟨inside, invalid⟩ := firstInvalid_some found
    obtain ⟨s', updated⟩ := exists_update accepted i s
    simp only [updated, ok_bind]
    exact iff_of_true (legal_ok.2 ⟨inside, unused i invalid⟩) (.inl ⟨i, inside, invalid⟩)
  | none =>
    rw [or_iff_right (firstInvalid_none found)]
    obtain ⟨way, inside, here, only⟩ := exists_retValue accepted s
    obtain ⟨s', updated⟩ := exists_update accepted way s
    simp only [here, updated, ok_bind]
    by_cases valid : isValidReplacement ways way
    · rw [if_pos valid, legal_ok]
      refine iff_of_true ⟨inside, valid⟩ fun w this leads => ?_
      rwa [(only w this).1 leads]
    · rw [if_neg valid]
      exact iff_of_false not_legal_error
        fun all => valid (all way inside ((only way inside).2 rfl))

end CacheSetPLRU

/-! ## SRRIP -/

namespace CacheSetSRRIP

/-- The search stops first after `n` steps, in a round with `left` rounds left of which `i` steps
are done: the counter there, with the increments after the rounds between, has the maximum. -/
structure Stops (associativity rripMax : ℕ) (bits : ℕ → ℕ) (pointer i left n : ℕ) : Prop where
  inTime : (i + n) / associativity < left
  reached : rripMax ≤ bits ((pointer + n) % pointed associativity) + (i + n) / associativity
  first : ∀ m < n,
    bits ((pointer + m) % pointed associativity) + (i + m) / associativity < rripMax

/-- The search stops at a way that may be replaced; where the controller rejects the way and `q`
more questions are allowed, the search goes on from it, with its counter 0. -/
def Finds (associativity : ℕ) (ways : ℕ → BlockInfo) (cntlr : Cntlr) (rripMax : ℕ) :
    ℕ → (ℕ → ℕ) → ℕ → ℕ → ℕ → Prop
  | 0, bits, pointer, i, left => ∃ n, Stops associativity rripMax bits pointer i left n ∧
      isValidReplacement ways ((pointer + n) % pointed associativity)
  | q + 1, bits, pointer, i, left => ∃ n, Stops associativity rripMax bits pointer i left n ∧
      let way := (pointer + n) % pointed associativity
      let round := (i + n) / associativity
      if rejects cntlr (ways way) then
        Finds associativity ways cntlr rripMax q (fun w => if w = way then 0 else bits w + round)
          way ((i + n) % associativity + 1) (left - round)
      else isValidReplacement ways way

variable {rripMax pointer i left : ℕ} {bits bits' : ℕ → ℕ}

/-- The way that a search stops at, and the steps that it took, meet a condition. -/
def StopsWith (associativity rripMax : ℕ) (bits : ℕ → ℕ) (pointer i left : ℕ)
    (condition : ℕ → ℕ → Prop) : Prop :=
  ∃ n, Stops associativity rripMax bits pointer i left n ∧
    condition (i + n) ((pointer + n) % pointed associativity)

variable {condition condition' : ℕ → ℕ → Prop}

/-- The search stops at once. -/
theorem stopsWith_now (inside : pointer < pointed associativity) (early : i < associativity)
    (positive : 0 < left) (reached : rripMax ≤ bits pointer) :
    StopsWith associativity rripMax bits pointer i left condition ↔ condition i pointer := by
  constructor
  · rintro ⟨n, stops, holds⟩
    cases n with
    | zero => rwa [Nat.add_zero, Nat.add_zero, Nat.mod_eq_of_lt inside] at holds
    | succ n =>
      have before := stops.first 0 (Nat.succ_pos n)
      rw [Nat.add_zero, Nat.mod_eq_of_lt inside] at before
      exact absurd (Nat.le_add_right_of_le reached) (Nat.not_le_of_lt before)
  · intro holds
    refine ⟨0, ⟨?_, ?_, fun m less => absurd less (Nat.not_lt_zero m)⟩, ?_⟩
    · rwa [Nat.add_zero, Nat.div_eq_of_lt early]
    · rw [Nat.add_zero, Nat.mod_eq_of_lt inside]
      exact Nat.le_add_right_of_le reached
    · rwa [Nat.add_zero, Nat.add_zero, Nat.mod_eq_of_lt inside]

/-- The search goes one step further. -/
theorem stopsWith_later (inside : pointer < pointed associativity) (early : i < associativity)
    (further : bits pointer < rripMax) :
    StopsWith associativity rripMax bits pointer i left condition ↔
      StopsWith associativity rripMax bits (nextPointer associativity pointer) (i + 1) left
        condition := by
  have shift (n : ℕ) : (nextPointer associativity pointer + n) % pointed associativity =
      (pointer + (n + 1)) % pointed associativity := by
    rw [nextPointer_eq inside, Nat.mod_add_mod, Nat.add_assoc, Nat.add_comm 1]
  have count (n : ℕ) : i + 1 + n = i + (n + 1) := by omega
  constructor
  · rintro ⟨n, stops, holds⟩
    cases n with
    | zero =>
      have reached := stops.reached
      rw [Nat.add_zero, Nat.add_zero, Nat.mod_eq_of_lt inside, Nat.div_eq_of_lt early] at reached
      omega
    | succ n =>
      refine ⟨n, ⟨?_, ?_, fun m less => ?_⟩, ?_⟩
      · rw [count]
        exact stops.inTime
      · rw [count, shift]
        exact stops.reached
      · rw [count, shift]
        exact stops.first (m + 1) (Nat.succ_lt_succ less)
      · rwa [count, shift]
  · rintro ⟨n, stops, holds⟩
    rw [count, shift] at holds
    refine ⟨n + 1, ⟨?_, ?_, fun m less => ?_⟩, holds⟩
    · exact count n ▸ stops.inTime
    · rw [← count, ← shift]
      exact stops.reached
    · cases m with
      | zero =>
        rw [Nat.add_zero, Nat.add_zero, Nat.mod_eq_of_lt inside, Nat.div_eq_of_lt early]
        exact further
      | succ m =>
        rw [← count, ← shift]
        exact stops.first m (Nat.lt_of_succ_lt_succ less)

/-- The search goes on in the next round, with counters that are up by one. -/
theorem stopsWith_round (positive : 0 < associativity)
    (same : ∀ t w, condition (associativity + t) w ↔ condition' t w) :
    StopsWith associativity rripMax bits pointer associativity (left + 1) condition ↔
      StopsWith associativity rripMax (fun w => bits w + 1) pointer 0 left condition' := by
  have round (n : ℕ) : (associativity + n) / associativity = n / associativity + 1 := by
    rw [Nat.add_comm, Nat.add_div_right n positive]
  refine exists_congr fun n => and_congr ?_ ?_
  · constructor
    · rintro ⟨inTime, reached, first⟩
      simp only [round] at inTime reached first
      refine ⟨?_, ?_, fun m less => ?_⟩
      · rw [Nat.zero_add]
        omega
      · rw [Nat.zero_add]
        omega
      · have before := first m less
        rw [Nat.zero_add]
        omega
    · rintro ⟨inTime, reached, first⟩
      simp only [Nat.zero_add] at inTime reached first
      refine ⟨?_, ?_, fun m less => ?_⟩
      · rw [round]
        omega
      · rw [round]
        omega
      · have before := first m less
        rw [round]
        omega
  · rw [same, Nat.zero_add]

/-- Only how far the counters are below the maximum matters. -/
theorem Stops.congr (same : ∀ w < pointed associativity,
    min (bits w) rripMax = min (bits' w) rripMax) (positive : 0 < associativity) {n : ℕ}
    (stops : Stops associativity rripMax bits pointer i left n) :
    Stops associativity rripMax bits' pointer i left n where
  inTime := stops.inTime
  reached := by
    have here := same _ (Nat.mod_lt (pointer + n) (pointed_pos positive))
    have reached := stops.reached
    generalize (i + n) / associativity = round at reached ⊢
    omega
  first m less := by
    have here := same _ (Nat.mod_lt (pointer + m) (pointed_pos positive))
    have before := stops.first m less
    generalize (i + m) / associativity = round at before ⊢
    omega

theorem finds_zero : Finds associativity ways cntlr rripMax 0 bits pointer i left ↔
    StopsWith associativity rripMax bits pointer i left fun _ way =>
      isValidReplacement ways way := Iff.rfl

/-- What a search does where it stops. -/
theorem finds_succ {q : ℕ} : Finds associativity ways cntlr rripMax (q + 1) bits pointer i left ↔
    StopsWith associativity rripMax bits pointer i left fun t way =>
      if rejects cntlr (ways way) then Finds associativity ways cntlr rripMax q
          (fun w => if w = way then 0 else bits w + t / associativity) way
          (t % associativity + 1) (left - t / associativity)
      else isValidReplacement ways way := Iff.rfl

theorem Finds.congr {q : ℕ} (same : ∀ w < pointed associativity,
    min (bits w) rripMax = min (bits' w) rripMax) (positive : 0 < associativity)
    (finds : Finds associativity ways cntlr rripMax q bits pointer i left) :
    Finds associativity ways cntlr rripMax q bits' pointer i left := by
  induction q generalizing bits bits' pointer i left with
  | zero =>
    obtain ⟨n, stops, valid⟩ := finds
    exact ⟨n, stops.congr same positive, valid⟩
  | succ q ih =>
    obtain ⟨n, stops, rest⟩ := finds
    refine ⟨n, stops.congr same positive, ?_⟩
    dsimp only at rest ⊢
    split
    · next rejected =>
        rw [if_pos rejected] at rest
        refine ih (fun w inside => ?_) rest
        split
        · rfl
        · have here := same w inside
          generalize (i + n) / associativity = round
          omega
    · next taken =>
        rw [if_neg taken] at rest
        exact rest

theorem finds_congr {q : ℕ} (same : ∀ w < pointed associativity,
    min (bits w) rripMax = min (bits' w) rripMax) (positive : 0 < associativity) :
    Finds associativity ways cntlr rripMax q bits pointer i left ↔
      Finds associativity ways cntlr rripMax q bits' pointer i left :=
  ⟨fun finds => finds.congr same positive,
    fun finds => finds.congr (fun w inside => (same w inside).symm) positive⟩

/-- A search goes on in the next round. -/
theorem finds_round {q : ℕ} (positive : 0 < associativity) :
    Finds associativity ways cntlr rripMax q bits pointer associativity (left + 1) ↔
      Finds associativity ways cntlr rripMax q (fun w => bits w + 1) pointer 0 left := by
  cases q with
  | zero =>
    rw [finds_zero, finds_zero]
    exact stopsWith_round positive fun _ _ => Iff.rfl
  | succ q =>
    rw [finds_succ, finds_succ]
    refine stopsWith_round positive fun t w => ?_
    have round : (associativity + t) / associativity = t / associativity + 1 := by
      rw [Nat.add_comm, Nat.add_div_right t positive]
    have rest : left + 1 - (t / associativity + 1) = left - t / associativity := by omega
    have counters (u : ℕ) :
        bits u + (t / associativity + 1) = bits u + 1 + t / associativity := by omega
    simp only [round, Nat.add_mod_left, rest, counters]

/-- Nothing is found after the last round. -/
theorem not_finds_over {q : ℕ} (positive : 0 < associativity) :
    ¬ Finds associativity ways cntlr rripMax q bits pointer associativity 1 := by
  intro finds
  have tooLate (n : ℕ) : ¬ Stops associativity rripMax bits pointer associativity 1 n := by
    intro stops
    have inTime := stops.inTime
    rw [Nat.add_comm, Nat.add_div_right n positive] at inTime
    exact Nat.not_succ_le_zero _ (Nat.le_of_lt_succ inTime)
  cases q with
  | zero =>
    obtain ⟨n, stops, _⟩ := finds
    exact tooLate n stops
  | succ q =>
    obtain ⟨n, stops, _⟩ := finds
    exact tooLate n stops

/-- The rest of a search, in the middle of a round. -/
def resume (associativity : ℕ) (ways : ℕ → BlockInfo) (cntlr : Cntlr) (left k attempt : ℕ)
    (s : CacheSetSRRIP) : Except SetFault (ℕ × CacheSetSRRIP) := do
  match ← scan associativity ways cntlr k attempt s with
  | .inl (attempt, s) => rounds associativity ways cntlr left attempt (s.age associativity)
  | .inr found => .ok found

/-- One step of the inner loop. -/
theorem resume_succ {k attempt : ℕ} {s : CacheSetSRRIP}
    (asked : 1 < s.numAttempts → cntlr.isSome) (bounded : attempt ≤ s.numAttempts - 1) :
    resume associativity ways cntlr left (k + 1) attempt s =
      if s.rripMax ≤ s.rripBits s.replacementPointer then
        if attempt < s.numAttempts - 1 ∧ rejects cntlr (ways s.replacementPointer) then
          resume associativity ways cntlr left k (attempt + 1)
            { s with rripBits := Function.update s.rripBits s.replacementPointer 0 }
        else if isValidReplacement ways s.replacementPointer then
          .ok (s.replacementPointer, { s with
            replacementPointer := nextPointer associativity s.replacementPointer
            rripBits := Function.update s.rripBits s.replacementPointer s.rripInsert })
        else .error .invalidCandidate
      else resume associativity ways cntlr left k attempt
        { s with replacementPointer := nextPointer associativity s.replacementPointer } := by
  have before : attempt + 1 < s.numAttempts ↔ attempt < s.numAttempts - 1 := by omega
  have stored : incrementAttempt s.numAttempts attempt = .ok () := if_pos (by omega)
  rw [resume, scan]
  split
  · simp only [qbsReject_eq asked, ok_bind, before, Bool.and_eq_true, decide_eq_true_eq]
    split
    · rfl
    · simp only [stored, ok_bind]
      split
      · rfl
      · rfl
  · rfl

/-- A search goes one step further. -/
theorem finds_later {q : ℕ} (inside : pointer < pointed associativity) (early : i < associativity)
    (further : bits pointer < rripMax) :
    Finds associativity ways cntlr rripMax q bits pointer i left ↔
      Finds associativity ways cntlr rripMax q bits (nextPointer associativity pointer) (i + 1)
        left := by
  cases q with
  | zero =>
    rw [finds_zero, finds_zero]
    exact stopsWith_later inside early further
  | succ q =>
    rw [finds_succ, finds_succ]
    exact stopsWith_later inside early further

variable {q k attempt : ℕ} {s : CacheSetSRRIP}

/-- One step of a search that stops at once. -/
theorem legal_resume_now (asked : 1 < s.numAttempts → cntlr.isSome)
    (questions : attempt + q = s.numAttempts - 1)
    (inside : s.replacementPointer < pointed associativity) (short : k + 1 ≤ associativity)
    (reached : s.rripMax ≤ s.rripBits s.replacementPointer)
    (further : ∀ r, attempt + 1 + r = s.numAttempts - 1 → (Legal associativity ways
        (resume associativity ways cntlr left k (attempt + 1)
          { s with rripBits := Function.update s.rripBits s.replacementPointer 0 }) ↔
      Finds associativity ways cntlr s.rripMax r
        (Function.update s.rripBits s.replacementPointer 0) s.replacementPointer
        (associativity - k) (left + 1))) :
    Legal associativity ways (resume associativity ways cntlr left (k + 1) attempt s) ↔
      Finds associativity ways cntlr s.rripMax q s.rripBits s.replacementPointer
        (associativity - (k + 1)) (left + 1) := by
  have early : associativity - (k + 1) < associativity := by omega
  have next : associativity - (k + 1) + 1 = associativity - k := by omega
  have way : s.replacementPointer < associativity := lt_of_lt_of_le inside pointed_le
  have taken (s' : CacheSetSRRIP) : Legal associativity ways
      (if isValidReplacement ways s.replacementPointer then .ok (s.replacementPointer, s')
        else .error .invalidCandidate) ↔ isValidReplacement ways s.replacementPointer := by
    split
    · next valid => exact iff_of_true (legal_ok.2 ⟨way, valid⟩) valid
    · next upgrading => exact iff_of_false not_legal_error upgrading
  rw [resume_succ asked (by omega), if_pos reached]
  cases q with
  | zero =>
    rw [if_neg fun rejected => by omega, taken, finds_zero,
      stopsWith_now inside early (Nat.succ_pos left) reached]
  | succ q =>
    rw [finds_succ, stopsWith_now inside early (Nat.succ_pos left) reached]
    have counters : (fun w => if w = s.replacementPointer then 0 else s.rripBits w + 0) =
        Function.update s.rripBits s.replacementPointer 0 := by
      funext w
      rw [Function.update_apply, Nat.add_zero]
    rw [Nat.div_eq_of_lt early, Nat.mod_eq_of_lt early, next, Nat.sub_zero, counters]
    by_cases rejected : rejects cntlr (ways s.replacementPointer)
    · rw [if_pos ⟨by omega, rejected⟩, if_pos rejected]
      exact further q (by omega)
    · rw [if_neg fun both => rejected both.2, if_neg rejected, taken]

/-- A search that is right at the end of a round is right in it. -/
theorem legal_resume_of_last
    (last : ∀ (q attempt : ℕ) (s : CacheSetSRRIP), (1 < s.numAttempts → cntlr.isSome) →
      attempt + q = s.numAttempts - 1 → s.replacementPointer < pointed associativity →
      (Legal associativity ways (resume associativity ways cntlr left 0 attempt s) ↔
        Finds associativity ways cntlr s.rripMax q s.rripBits s.replacementPointer
          associativity (left + 1)))
    (asked : 1 < s.numAttempts → cntlr.isSome) (questions : attempt + q = s.numAttempts - 1)
    (inside : s.replacementPointer < pointed associativity) (short : k ≤ associativity) :
    Legal associativity ways (resume associativity ways cntlr left k attempt s) ↔
      Finds associativity ways cntlr s.rripMax q s.rripBits s.replacementPointer
        (associativity - k) (left + 1) := by
  induction k generalizing q attempt s with
  | zero => exact last q attempt s asked questions inside
  | succ k ih =>
    by_cases reached : s.rripMax ≤ s.rripBits s.replacementPointer
    · refine legal_resume_now asked questions inside short reached fun r remaining => ?_
      exact ih (s := { s with rripBits := _ }) asked remaining inside (Nat.le_of_succ_le short)
    · have next : associativity - (k + 1) + 1 = associativity - k := by omega
      rw [resume_succ asked (by omega), if_neg reached,
        finds_later inside (by omega) (Nat.lt_of_not_le reached), next]
      exact ih (s := { s with replacementPointer := _ }) asked questions (nextPointer_lt inside)
        (Nat.le_of_succ_le short)

/-- **The search of SRRIP,** from the middle of a round. -/
theorem legal_resume_iff (positive : 0 < associativity)
    (asked : 1 < s.numAttempts → cntlr.isSome) (questions : attempt + q = s.numAttempts - 1)
    (inside : s.replacementPointer < pointed associativity) (short : k ≤ associativity) :
    Legal associativity ways (resume associativity ways cntlr left k attempt s) ↔
      Finds associativity ways cntlr s.rripMax q s.rripBits s.replacementPointer
        (associativity - k) (left + 1) := by
  induction left generalizing q k attempt s with
  | zero =>
    refine legal_resume_of_last (fun q attempt s _ _ _ => ?_) asked questions inside short
    exact iff_of_false not_legal_error (not_finds_over positive)
  | succ left ih =>
    refine legal_resume_of_last (fun q attempt s asked questions inside => ?_) asked questions
      inside short
    have aged (w : ℕ) (reached : w < pointed associativity) :
        min ((s.age associativity).rripBits w) s.rripMax = min (s.rripBits w + 1) s.rripMax := by
      have way : w < associativity := lt_of_lt_of_le reached pointed_le
      rw [age]
      simp only [way, true_and]
      split
      · rfl
      · omega
    have first := ih (s := s.age associativity) asked questions inside le_rfl
    rw [Nat.sub_self] at first
    rw [finds_round positive, ← finds_congr aged positive]
    exact first

/-- Without a controller, a round that begins with questions left does not return a way. -/
theorem scan_unanswered (associativity : ℕ) (ways : ℕ → BlockInfo) (k : ℕ)
    (asks : attempt + 1 < s.numAttempts) :
    Ensures (fun result => ∃ s', result = .inl (attempt, s') ∧ s'.numAttempts = s.numAttempts)
      (fun _ => True) (scan associativity ways none k attempt s) := by
  induction k generalizing s with
  | zero => exact ⟨s, rfl, rfl⟩
  | succ k ih =>
    rw [scan]
    split
    · rw [qbsReject, if_pos asks]
      trivial
    · exact ih (s := { s with replacementPointer := _ }) asks

theorem not_legal_rounds (asks : attempt + 1 < s.numAttempts) :
    ¬ Legal associativity ways (rounds associativity ways none left attempt s) := by
  induction left generalizing s with
  | zero => exact not_legal_error
  | succ left ih =>
    rw [rounds]
    have unanswered := scan_unanswered associativity ways associativity asks
    cases result : scan associativity ways none associativity attempt s with
    | error e => exact not_legal_error
    | ok next =>
      rw [result] at unanswered
      obtain ⟨s', rfl, same⟩ := unanswered
      exact ih (s := s'.age associativity) (same ▸ asks)

/-- **The choice of SRRIP,** with or without QBS, is legal exactly when a way is not in use, or the
controller answers where it may be asked, and the search finds a way that may be replaced. -/
theorem legal_iff (positive : 0 < associativity)
    (inside : s.replacementPointer < pointed associativity)
    (unused : ∀ i, ¬ (ways i).isValid → isValidReplacement ways i) :
    Legal associativity ways (s.getReplacementIndex associativity ways cntlr) ↔
      HasInvalid associativity ways ∨ (1 < s.numAttempts → cntlr.isSome) ∧
        Finds associativity ways cntlr s.rripMax (s.numAttempts - 1) s.rripBits
          s.replacementPointer 0 (s.rripMax + 1) := by
  refine legal_firstInvalid unused fun _ => ?_
  by_cases asked : 1 < s.numAttempts → cntlr.isSome
  · have search : Legal associativity ways
        (resume associativity ways cntlr s.rripMax associativity 0 s) ↔ _ :=
      legal_resume_iff positive asked (Nat.zero_add _) inside le_rfl
    rw [Nat.sub_self] at search
    rw [and_iff_right asked]
    exact search
  · refine iff_of_false ?_ fun both => asked both.1
    rw [Classical.not_imp, Option.not_isSome_iff_eq_none] at asked
    obtain ⟨many, rfl⟩ := asked
    exact not_legal_rounds (by omega)

end CacheSetSRRIP

/-! ## Round robin -/

namespace CacheSetRoundRobin

variable {s : CacheSetRoundRobin} {left : ℕ}

/-- The recursion returns the index that it is at: when that is of a way in an upgrade, the choice
is not legal. -/
theorem not_legal_descend (upgrading : ¬ isValidReplacement ways s.replacementIndex) :
    ¬ Legal associativity ways (descend associativity ways left s) := by
  induction left generalizing s with
  | zero => exact not_legal_error
  | succ left ih =>
    rw [descend]
    split
    · exact fun legal => upgrading (legal_ok.1 legal).2
    · next further => exact ih further

/-- **The choice of round robin** is legal exactly when neither the way of the index nor the one
before it is in an upgrade. -/
theorem legal_iff (inside : s.replacementIndex < associativity) :
    Legal associativity ways (s.getReplacementIndex associativity ways) ↔
      isValidReplacement ways s.replacementIndex ∧
        isValidReplacement ways (previous associativity s.replacementIndex) := by
  obtain ⟨left, rfl⟩ := Nat.exists_eq_succ_of_ne_zero (Nat.ne_zero_of_lt inside)
  rw [getReplacementIndex, descend]
  split
  · next valid => rw [legal_ok, and_iff_right inside, and_iff_left valid]
  · next further => exact iff_of_false (not_legal_descend further) fun both => further both.2

end CacheSetRoundRobin

/-! ## The sets of all policies -/

namespace CacheSet

/-- **The condition.** Where no way is out of use: what each policy needs of its counters and
pointers and of the ways in an upgrade. -/
def CanChoose (associativity : ℕ) (cntlr : Cntlr) (set : CacheSet) : Prop :=
  match set.replacer with
  | .roundRobin s => isValidReplacement set.ways s.replacementIndex ∧
      isValidReplacement set.ways
        (CacheSetRoundRobin.previous associativity s.replacementIndex)
  | .lru s => HasInvalid associativity set.ways ∨
      (0 < s.numAttempts ∧ (1 < s.numAttempts → cntlr.isSome) ∧
        CacheSetLRU.Suffice associativity set.ways cntlr s.numAttempts s.lruBits)
  | .nru s => HasInvalid associativity set.ways ∨ ∃ i < pointed associativity,
      (s.lruBits i = 0 ∨ ¬ CacheSetNRU.haveZeroBit associativity set.ways s.lruBits) ∧
        isValidReplacement set.ways i
  | .nmru s => HasInvalid associativity set.ways ∨ ∃ i < pointed associativity,
      s.lruBits i ≠ 0 ∧ isValidReplacement set.ways i
  | .plru s => HasInvalid associativity set.ways ∨ ∀ w < associativity,
      CacheSetPLRU.LeadsTo associativity w s.b → isValidReplacement set.ways w
  | .srrip s => HasInvalid associativity set.ways ∨ (1 < s.numAttempts → cntlr.isSome) ∧
      CacheSetSRRIP.Finds associativity set.ways cntlr s.rripMax (s.numAttempts - 1) s.rripBits
        s.replacementPointer 0 (s.rripMax + 1)

/-- **Which choices are legal.** A set of which not all ways are in an upgrade, after any run, is
asked for the way of a new line. -/
theorem choice_legal_iff {cfg : SetConfig} {policy : Policy} {set : CacheSet}
    (reached : Reached cfg policy set)
    (free : ∃ way < cfg.associativity, isValidReplacement set.ways way) (cntlr : Cntlr) :
    Legal cfg.associativity set.ways
        (set.replacer.getReplacementIndex cfg.associativity set.ways cntlr) ↔
      set.CanChoose cfg.associativity cntlr := by
  have positive : 0 < cfg.associativity := by
    obtain ⟨way, inside, _⟩ := free
    exact Nat.zero_lt_of_lt inside
  have ⟨unused, formed⟩ := reached.kept positive
  rw [CanChoose]
  cases kind : set.replacer with
  | roundRobin s =>
    rw [kind] at formed
    exact (legal_map Replacer.roundRobin _).trans (CacheSetRoundRobin.legal_iff formed)
  | lru s => exact (legal_map Replacer.lru _).trans (CacheSetLRU.legal_iff free unused)
  | nru s =>
    rw [kind] at formed
    exact (legal_map Replacer.nru _).trans (CacheSetNRU.legal_iff formed unused)
  | nmru s =>
    rw [kind] at formed
    exact (legal_map Replacer.nmru _).trans (CacheSetNMRU.legal_iff formed unused)
  | plru s =>
    rw [kind] at formed
    exact (legal_map Replacer.plru _).trans (CacheSetPLRU.legal_iff formed unused)
  | srrip s =>
    rw [kind] at formed
    exact (legal_map Replacer.srrip _).trans (CacheSetSRRIP.legal_iff positive formed unused)

/-- A full set of two ways with LRU, of which way 1 is in an upgrade. -/
theorem choice_legal_iff_upgrading :
    ∃ set, Reached ⟨2, 1, 2⟩ .lru set ∧ (∀ way < 2, (set.ways way).tag ≠ invalidTag) ∧
      ¬ isValidReplacement set.ways 1 ∧
      Legal 2 set.ways (set.replacer.getReplacementIndex 2 set.ways none) := by
  have reached : Reached ⟨2, 1, 2⟩ .lru _ := ⟨_, [.insert ⟨1, by decide⟩ none,
    .insert ⟨2, by decide⟩ none, .setCState ⟨2, by decide⟩ .sharedUpgrading], rfl, rfl⟩
  refine ⟨_, reached, by decide, by decide, ?_⟩
  exact (choice_legal_iff reached ⟨0, by decide, by decide⟩ none).2
    (.inr ⟨by decide, fun more => absurd more (by decide), .inl (by decide)⟩)

/-- **Not every choice is legal.** In a set of two ways with LRU, way 0 is in an upgrade and way 1
was filled last: the choice is way 0. -/
theorem not_choice_legal : ¬ ∀ (cfg : SetConfig) (policy : Policy) (set : CacheSet),
    Reached cfg policy set → (∃ way < cfg.associativity, isValidReplacement set.ways way) →
    ∀ cntlr : Cntlr, Legal cfg.associativity set.ways
      (set.replacer.getReplacementIndex cfg.associativity set.ways cntlr) := by
  intro always
  have reached : Reached ⟨2, 1, 2⟩ .lru _ := ⟨_, [.insert ⟨1, by decide⟩ none,
    .insert ⟨2, by decide⟩ none, .setCState ⟨1, by decide⟩ .sharedUpgrading], rfl, rfl⟩
  have legal := always _ _ _ reached ⟨1, by decide, by decide⟩ none
  exact absurd (legal_ok.1 legal).2 (by decide)

end CacheSet

end GpuHotSpot.Common.Caches
