import GpuHotSpot.HotSpotTool.PolishCaches
import Mathlib.Algebra.Order.Ring.Int

/-!
# Moves on Polish expressions

Each of the three moves takes a normalized expression with correct caches to another one,
and none of them reaches a call of `fatal`.  `make_random_move` alone may give up, when no
legal move was found in `MAX_MOVES` rounds.

* `swapUnits_good`: the move M1.
* `invertChain_good`: the move M2.
* `swapCutUnit_good`: the move M3, with the binary search of `updateUnitPos_eq`.
* `anneal_normalized`: every sequence of random moves.
-/

namespace GpuHotSpot.HotSpotTool.Polish

open Fallible

variable {n : ℕ} {elements pre post : List ℤ} {expr : NPE}

/-- A normalized expression whose caches are right. -/
structure Good (n : ℕ) (expr : NPE) : Prop where
  normalized : Normalized n expr.elements
  cached : Cached expr

theorem Good.unitPos_length (good : Good n expr) : expr.unitPos.length = n := by
  rw [good.cached.unitPos, fillUnitPos, List.length_findIdxs, good.normalized.countP_isUnit]

theorem Good.unitPos_ascending (good : Good n expr) : expr.unitPos.Pairwise (· < ·) := by
  rw [good.cached.unitPos]
  exact List.pairwise_findIdxs

/-! ## M1 -/

/-- A unit may take the place of a unit. -/
def Alike (a b : ℤ) : Prop := a = b ∨ (0 ≤ a ∧ 0 ≤ b)

theorem NotRepeated.alike {a a' b b' : ℤ} (related : NotRepeated a b) (first : Alike a a')
    (second : Alike b b') : NotRepeated a' b' := by
  unfold NotRepeated Alike at *
  omega

theorem map_isCut_set {p : ℕ} {u : ℤ} (inside : p < elements.length)
    (same : isCut u = isCut elements[p]) :
    (elements.set p u).map isCut = elements.map isCut := by
  rw [List.map_set, same, ← List.getElem_map isCut (h := by simpa using inside)]
  exact List.set_getElem_self _

/-- Swapping two units keeps the expression normalized and the cuts in place. -/
theorem Normalized.swap_units {p q : ℕ} (normalized : Normalized n elements)
    (insideP : p < elements.length) (insideQ : q < elements.length)
    (unitP : isCut elements[p] = false) (unitQ : isCut elements[q] = false) :
    ((elements.set p elements[q]).set q elements[p]).map isCut = elements.map isCut ∧
      Normalized n ((elements.set p elements[q]).set q elements[p]) := by
  have perm : ((elements.set p elements[q]).set q elements[p]).Perm elements :=
    List.set_set_perm insideP insideQ
  have sameP : (elements.set p elements[q]).map isCut = elements.map isCut :=
    map_isCut_set insideP (unitQ.trans unitP.symm)
  have same : ((elements.set p elements[q]).set q elements[p]).map isCut = elements.map isCut := by
    rw [List.map_set, sameP, unitP, ← unitQ,
      ← List.getElem_map isCut (h := by simpa using insideQ)]
    exact List.set_getElem_self _
  refine ⟨same, ?_, ?_, ?_, balloting_congr same normalized, ?_⟩
  · exact (perm.filter isUnit).trans normalized.units
  · exact (perm.countP_eq isCut).trans normalized.cuts
  · exact fun e member => normalized.cutTypes e (perm.mem_iff.mp member)
  · have alike : ∀ i (inside : i < elements.length)
        (inside' : i < ((elements.set p elements[q]).set q elements[p]).length),
        Alike elements[i] ((elements.set p elements[q]).set q elements[p])[i] := by
      intro i inside inside'
      rw [List.getElem_set, List.getElem_set]
      split_ifs with atQ atP
      · subst atQ
        exact Or.inr ⟨not_isCut_iff.1 unitQ, not_isCut_iff.1 unitP⟩
      · subst atP
        exact Or.inr ⟨not_isCut_iff.1 unitP, not_isCut_iff.1 unitQ⟩
      · exact Or.inl rfl
    have alternating := List.isChain_iff_getElem.mp normalized.alternating
    refine List.isChain_iff_getElem.mpr fun i inside => ?_
    have long : i + 1 < elements.length := by simpa using inside
    exact (alternating i long).alike (alike i (by omega) (by omega)) (alike (i + 1) long inside)

/-- **M1.** Swapping a unit that is not the last one with the next unit. -/
theorem swapUnits_good (good : Good n expr) {i pos : ℕ} (notLast : i < n - 1)
    (found : expr.unitPos[i]? = some pos) : Ensures (Good n) (· = .gaveUp) (swapUnits expr pos) := by
  have long := good.unitPos_length
  have ascending := List.pairwise_iff_getElem.mp good.unitPos_ascending
  obtain ⟨within, rfl⟩ := List.getElem?_eq_some_iff.mp found
  have next : i + 1 < expr.unitPos.length := by omega
  have later := ascending i (i + 1) within next (Nat.lt_succ_self i)
  have isPos : ∀ j (h : j < expr.unitPos.length), ∃ h' : expr.unitPos[j] < expr.elements.length,
      isUnit expr.elements[expr.unitPos[j]] := by
    intro j h
    refine List.mem_findIdxs_iff_exists_getElem_pos.mp ?_
    rw [← fillUnitPos, ← good.cached.unitPos]
    exact List.getElem_mem h
  obtain ⟨insideP, unitP⟩ := isPos i within
  obtain ⟨insideQ, unitQ⟩ := isPos (i + 1) next
  generalize expr.unitPos[i] = p at *
  generalize expr.unitPos[i + 1] = q at *
  rw [swapUnits, read_getElem insideP, ok_bind]
  cases search : (expr.elements.drop (p + 1)).findIdx? isUnit with
  | none =>
    have none_unit := List.findIdx?_eq_none_iff.mp search expr.elements[q] (by
      rw [List.mem_drop_iff_getElem]
      exact ⟨q - (p + 1), by omega, by congr 1; omega⟩)
    rw [unitQ] at none_unit
    cases none_unit
  | some k =>
    obtain ⟨inside, isNext, -⟩ := List.findIdx?_eq_some_iff_getElem.mp search
    rw [List.length_drop] at inside
    rw [List.getElem_drop] at isNext
    have insideK : p + 1 + k < expr.elements.length := by omega
    obtain ⟨same, normalized⟩ := good.normalized.swap_units insideP insideK
      (by simpa using unitP) (by simpa using isNext)
    simp only [read_getElem insideK, ok_bind]
    exact ⟨normalized, good.cached.of_map_eq good.normalized normalized same⟩

/-! ## M2 -/

/-- A chain starts at a cut that no cut precedes. -/
theorem exists_of_mem_chainStarts {inside : Bool} {i p : ℕ} {cuts : List Bool}
    (member : p ∈ chainStarts inside i cuts) :
    ∃ pre post, cuts = pre ++ true :: post ∧ p = i + pre.length ∧
      pre.getLast?.getD inside = false := by
  induction cuts generalizing inside i with
  | nil => cases member
  | cons cut cuts ih =>
    have later : p ∈ chainStarts cut (i + 1) cuts →
        ∃ pre post, cut :: cuts = pre ++ true :: post ∧ p = i + pre.length ∧
          pre.getLast?.getD inside = false := by
      intro member
      obtain ⟨pre, post, rfl, rfl, before⟩ := ih member
      refine ⟨cut :: pre, post, rfl, ?_, ?_⟩
      · rw [List.length_cons]
        omega
      · rw [List.getLast?_cons, Option.getD_some]
        exact before
    rw [chainStarts] at member
    split_ifs at member with starts
    · rw [Bool.and_eq_true, Bool.not_eq_true'] at starts
      rcases List.mem_cons.mp member with rfl | member
      · exact ⟨[], cuts, by rw [starts.1]; rfl, rfl, starts.2⟩
      · exact later member
    · exact later member

/-- The cut of the other type. -/
def inverted (e : ℤ) : ℤ := if e = CUT_VERTICAL then CUT_HORIZONTAL else CUT_VERTICAL

def CutType (e : ℤ) : Prop := e = CUT_VERTICAL ∨ e = CUT_HORIZONTAL

theorem CutType.otherCut_eq {e : ℤ} (cutType : CutType e) (reason : Fatal) :
    otherCut reason e = .ok (inverted e) := by
  rcases cutType with rfl | rfl <;> rfl

theorem cutType_inverted (e : ℤ) : CutType (inverted e) := by
  rw [inverted]
  split_ifs
  · exact Or.inr rfl
  · exact Or.inl rfl

theorem CutType.isCut {e : ℤ} (cutType : CutType e) : isCut e = true := by
  rcases cutType with rfl | rfl <;> rfl

theorem CutType.inverted_ne {a b : ℤ} (first : CutType a) (second : CutType b) (different : a ≠ b) :
    inverted a ≠ inverted b := by
  rcases first with rfl | rfl <;> rcases second with rfl | rfl
  · exact absurd rfl different
  · decide
  · decide
  · exact absurd rfl different

/-- The leading cuts inverted. -/
def invertCuts : List ℤ → List ℤ
  | [] => []
  | e :: elements => if e < 0 then inverted e :: invertCuts elements else e :: elements

theorem invertChainFrom_eq {prev : ℤ} (negative : prev < 0)
    (cutTypes : ∀ e ∈ elements, e < 0 → CutType e)
    (alternating : (prev :: elements).IsChain NotRepeated) :
    invertChainFrom prev elements = .ok (invertCuts elements) := by
  induction elements generalizing prev with
  | nil => rfl
  | cons e elements ih =>
    obtain ⟨different, alternating⟩ := List.isChain_cons_cons.mp alternating
    rw [invertChainFrom, invertCuts]
    split_ifs with cut repeated
    · exact absurd repeated.symm (different negative)
    · rw [(cutTypes e List.mem_cons_self cut).otherCut_eq, ok_bind,
        ih cut (fun e member => cutTypes e (List.mem_cons_of_mem _ member)) alternating]
      rfl
    · rfl

theorem map_isCut_invertCuts (elements : List ℤ) :
    (invertCuts elements).map isCut = elements.map isCut := by
  induction elements with
  | nil => rfl
  | cons e elements ih =>
    rw [invertCuts]
    split_ifs with cut
    · rw [List.map_cons, List.map_cons, ih, (cutType_inverted e).isCut, isCut_iff.2 cut]
    · rfl

theorem filter_isUnit_invertCuts (elements : List ℤ) :
    (invertCuts elements).filter isUnit = elements.filter isUnit := by
  induction elements with
  | nil => rfl
  | cons e elements ih =>
    rw [invertCuts]
    split_ifs with cut
    · simp only [List.filter_cons, isUnit_eq_not, (cutType_inverted e).isCut, isCut_iff.2 cut,
        Bool.not_true, Bool.false_eq_true, if_false]
      simpa only [isUnit_eq_not] using ih
    · rfl

theorem cutType_invertCuts (cutTypes : ∀ e ∈ elements, e < 0 → CutType e) :
    ∀ e ∈ invertCuts elements, e < 0 → CutType e := by
  induction elements with
  | nil => exact cutTypes
  | cons e elements ih =>
    rw [invertCuts]
    split_ifs with cut
    · intro e' member negative
      rcases List.mem_cons.mp member with rfl | member
      · exact cutType_inverted e
      · exact ih (fun e member => cutTypes e (List.mem_cons_of_mem _ member)) e' member negative
    · exact cutTypes

theorem alternating_invertCuts {prev : ℤ} (cutType : CutType prev)
    (cutTypes : ∀ e ∈ elements, e < 0 → CutType e)
    (alternating : (prev :: elements).IsChain NotRepeated) :
    (inverted prev :: invertCuts elements).IsChain NotRepeated := by
  induction elements generalizing prev with
  | nil => exact .singleton _
  | cons e elements ih =>
    obtain ⟨different, alternating⟩ := List.isChain_cons_cons.mp alternating
    rw [invertCuts]
    split_ifs with cut
    · have cutType' := cutTypes e List.mem_cons_self cut
      refine List.isChain_cons_cons.mpr ⟨fun _ => ?_, ?_⟩
      · exact cutType.inverted_ne cutType' (different (isCut_iff.1 cutType.isCut))
      · exact ih cutType' (fun e member => cutTypes e (List.mem_cons_of_mem _ member)) alternating
    · refine List.isChain_cons_cons.mpr ⟨fun negative => ?_, alternating⟩
      omega

/-- Inverting a whole chain keeps the expression normalized. -/
theorem Normalized.invert_chain {c : ℤ} (normalized : Normalized n (pre ++ c :: post))
    (cut : c < 0) (starts : ∀ x ∈ pre.getLast?, 0 ≤ x) :
    (pre ++ inverted c :: invertCuts post).map isCut = (pre ++ c :: post).map isCut ∧
      Normalized n (pre ++ inverted c :: invertCuts post) := by
  have cutType : CutType c := normalized.cutTypes c (by simp) cut
  have cutTypes : ∀ e ∈ post, e < 0 → CutType e := fun e member =>
    normalized.cutTypes e (by simp [member])
  have same : (pre ++ inverted c :: invertCuts post).map isCut = (pre ++ c :: post).map isCut := by
    rw [List.map_append, List.map_append, List.map_cons, List.map_cons, map_isCut_invertCuts,
      (cutType_inverted c).isCut, cutType.isCut]
  refine ⟨same, ?_, ?_, ?_, balloting_congr same normalized, ?_⟩
  · have units := normalized.units
    rw [List.filter_append, List.filter_cons_of_neg (by simp [cutType.isCut])] at units
    rw [List.filter_append, List.filter_cons_of_neg (by simp [(cutType_inverted c).isCut]),
      filter_isUnit_invertCuts]
    exact units
  · have cuts := normalized.cuts
    have count : ∀ l : List ℤ, l.countP isCut = (l.map isCut).countP id := fun l => by
      rw [List.countP_map]
      rfl
    rw [count, same, ← count, cuts]
  · intro e member negative
    rcases List.mem_append.mp member with before | member
    · exact normalized.cutTypes e (by simp [before]) negative
    · rcases List.mem_cons.mp member with rfl | member
      · exact cutType_inverted c
      · exact cutType_invertCuts cutTypes e member negative
  · obtain ⟨first, second⟩ := List.isChain_split.mp normalized.alternating
    rw [List.isChain_split, List.isChain_append]
    refine ⟨⟨first.left_of_append, .singleton _, ?_⟩, ?_⟩
    · intro x last y _ negative
      exact absurd (starts x last) (by omega)
    · exact alternating_invertCuts cutType cutTypes second

/-- **M2.** Inverting a chain. -/
theorem invertChain_good (good : Good n expr) {pos : ℕ} (chain : pos ∈ expr.chainPos) :
    Ensures (Good n) (· = .gaveUp) (invertChain expr pos) := by
  have chains := good.cached.chainPos
  rw [good.normalized.fillChainPos_eq, Except.ok.injEq] at chains
  rw [← chains] at chain
  obtain ⟨cutsBefore, cutsAfter, split, rfl, starts⟩ := exists_of_mem_chainStarts chain
  obtain ⟨pre, rest, whole, before, after⟩ := List.map_eq_append_iff.mp split
  obtain ⟨c, post, rfl, cut, -⟩ := List.map_eq_cons_iff.mp after
  have negative := isCut_iff.1 cut
  have normalized := good.normalized
  rw [whole] at normalized
  have startsUnit : ∀ x ∈ pre.getLast?, 0 ≤ x := by
    intro x last
    rw [← before, List.getLast?_map, Option.mem_def.mp last] at starts
    exact not_isCut_iff.1 starts
  have cutType : CutType c := normalized.cutTypes c (by simp) negative
  have cutTypes : ∀ e ∈ post, e < 0 → CutType e := fun e member =>
    normalized.cutTypes e (by simp [member])
  have alternating := (List.isChain_split.mp normalized.alternating).2
  obtain ⟨same, inverted⟩ := normalized.invert_chain negative startsUnit
  have position : 0 + cutsBefore.length = pre.length := by simp [← before]
  have tail : (pre ++ c :: post).drop (pre.length + 1) = post := by simp
  rw [invertChain, position, whole, read_append_length, ok_bind, cutType.otherCut_eq, ok_bind,
    tail, invertChainFrom_eq negative cutTypes alternating, ok_bind, List.take_left]
  exact ⟨inverted, good.cached.of_map_eq good.normalized inverted (by rw [same, whole])⟩

/-! ## M3 -/

/-- The binary search finds a position of an ascending list. -/
theorem updateUnitPos_eq {l : List ℕ} (ascending : l.Pairwise (· < ·)) {j : ℕ} (inside : j < l.length)
    {delta start stop : ℤ} (nonneg : 0 ≤ start) (below : start ≤ j) (above : j ≤ stop)
    (within : stop < l.length) :
    updateUnitPos l l[j] delta start stop = some (l.set j (l[j] + delta).toNat) := by
  have monotone := List.pairwise_iff_getElem.mp ascending
  induction hsize : (stop + 1 - start).toNat using Nat.strong_induction_on generalizing start stop with
  | _ size ih =>
    have proper : ¬ start > stop := by omega
    obtain ⟨mid, middle⟩ : ∃ mid : ℕ, (start + stop) / 2 = mid :=
      ⟨((start + stop) / 2).toNat, by omega⟩
    have insideMid : mid < l.length := by omega
    rw [updateUnitPos, if_neg proper, middle]
    simp only [Int.toNat_natCast, List.getElem?_eq_getElem insideMid]
    rcases lt_trichotomy mid j with before | rfl | after
    · have smaller := monotone mid j insideMid inside before
      simp only [smaller.ne, if_false, smaller.not_gt]
      exact ih _ (by omega) (by omega) (by omega) above within rfl
    · simp only [if_true]
    · have larger := monotone j mid inside insideMid after
      simp only [larger.ne', larger, if_false, if_true]
      exact ih _ (by omega) nonneg below (by omega) (by omega) rfl

/-- The binary search on the cached positions. -/
theorem updateUnitPos_append {first last : List ℕ} {pos : ℕ} {delta : ℤ}
    (ascending : (first ++ pos :: last).Pairwise (· < ·)) :
    updateUnitPos (first ++ pos :: last) pos delta 0 (((first ++ pos :: last).length : ℤ) - 1) =
      some (first ++ (pos + delta).toNat :: last) := by
  have inside : first.length < (first ++ pos :: last).length := by simp
  have found : updateUnitPos (first ++ pos :: last) (first ++ pos :: last)[first.length] delta 0
      (((first ++ pos :: last).length : ℤ) - 1) = _ :=
    updateUnitPos_eq ascending inside le_rfl (by omega) (by omega) (by omega)
  have here : (first ++ pos :: last)[first.length] = pos := by simp
  rw [here] at found
  rw [found, List.set_append_right _ _ (le_refl _), Nat.sub_self, List.set_cons_zero]

theorem fillBallotCountFrom_append (count : ℕ) (pre post : List ℤ) :
    fillBallotCountFrom count (pre ++ post) =
      fillBallotCountFrom count pre ++ fillBallotCountFrom (count + pre.countP isCut) post := by
  induction pre generalizing count with
  | nil => rfl
  | cons e pre ih =>
    rw [List.cons_append, fillBallotCountFrom, fillBallotCountFrom, ih, List.countP_cons,
      List.cons_append]
    congr 3
    by_cases cut : e < 0
    · simp only [cut, if_true, isCut, decide_true]
      omega
    · simp only [cut, if_false, isCut, decide_false, Bool.false_eq_true]
      omega

theorem length_fillBallotCountFrom (count : ℕ) (elements : List ℤ) :
    (fillBallotCountFrom count elements).length = elements.length := by
  induction elements generalizing count with
  | nil => rfl
  | cons e elements ih => rw [fillBallotCountFrom, List.length_cons, List.length_cons, ih]

theorem modify_append_cons {A : Type} (l : List A) (x : A) (r : List A) (f : A → A) :
    (l ++ x :: r).modify l.length f = l ++ f x :: r := by
  rw [List.modify_eq_take_cons_drop (by simp)]
  simp

/-- Swapping two neighbours. -/
theorem set_set_append {A : Type} (l : List A) (x y : A) (r : List A) :
    ((l ++ x :: y :: r).set l.length y).set (l.length + 1) x = l ++ y :: x :: r := by
  rw [List.set_append_right _ _ (le_refl _), List.set_append_right _ _ (Nat.le_succ _)]
  simp

/-- Neighbours may change places when the balloting property and the alternation of the cuts
hold of the result. -/
theorem Normalized.swap_neighbours {a b : ℤ} (normalized : Normalized n (pre ++ a :: b :: post))
    (ballots : (pre ++ [b]).countP isCut < (pre ++ [b]).countP isUnit)
    (alternating : (pre ++ b :: a :: post).IsChain NotRepeated) :
    Normalized n (pre ++ b :: a :: post) := by
  have perm : (pre ++ b :: a :: post).Perm (pre ++ a :: b :: post) :=
    (List.Perm.swap a b post).append_left pre
  refine ⟨(perm.filter isUnit).trans normalized.units, (perm.countP_eq isCut).trans normalized.cuts,
    fun e member => normalized.cutTypes e (perm.mem_iff.mp member), ?_, alternating⟩
  intro k positive inside
  have before := normalized.balloting k positive (by rw [← perm.length_eq]; exact inside)
  rcases Nat.lt_trichotomy k (pre.length + 1) with early | rfl | late
  · rw [List.take_append_of_le_length (by omega)] at before ⊢
    exact before
  · have front : (pre ++ b :: a :: post).take (pre.length + 1) = pre ++ [b] := by
      rw [List.take_append, List.take_of_length_le (by omega)]
      simp
    rw [front]
    exact ballots
  · obtain ⟨j, rfl⟩ := Nat.exists_eq_add_of_le late
    have front : ∀ x y : ℤ, (pre ++ x :: y :: post).take (pre.length + 1 + 1 + j) =
        pre ++ x :: y :: post.take j := by
      intro x y
      rw [List.take_append, List.take_of_length_le (by omega)]
      congr 1
      have rest : pre.length + 1 + 1 + j - pre.length = j + 1 + 1 := by omega
      rw [rest, List.take_succ_cons, List.take_succ_cons]
    rw [Nat.succ_eq_add_one, front] at before ⊢
    have swapped : (pre ++ b :: a :: post.take j).Perm (pre ++ a :: b :: post.take j) :=
      (List.Perm.swap a b _).append_left pre
    rw [swapped.countP_eq, swapped.countP_eq]
    exact before

@[simp] theorem read_append_succ {A : Type} (l : List A) (x y : A) (r : List A) :
    read (l ++ x :: y :: r) (l.length + 1) = .ok y := by
  simp [read]

/-- A unit and a cut after it in the cached positions. -/
theorem fillUnitPos_advance {u c : ℤ} (unit : isCut u = false) (cut : isCut c = true) :
    fillUnitPos (pre ++ u :: c :: post) =
      fillUnitPos pre ++ pre.length :: post.findIdxs isUnit (pre.length + 2) := by
  simp [fillUnitPos, unit, cut, add_assoc]

theorem fillUnitPos_retreat {u c : ℤ} (unit : isCut u = false) (cut : isCut c = true) :
    fillUnitPos (pre ++ c :: u :: post) =
      fillUnitPos pre ++ (pre.length + 1) :: post.findIdxs isUnit (pre.length + 2) := by
  simp [fillUnitPos, unit, cut, add_assoc]

/-- The ballot counts at a unit and a cut after it. -/
theorem fillBallotCount_advance {u c : ℤ} (unit : isCut u = false) (cut : isCut c = true) :
    fillBallotCount (pre ++ u :: c :: post) =
      fillBallotCount pre ++ pre.countP isCut :: (pre.countP isCut + 1) ::
        fillBallotCountFrom (pre.countP isCut + 1) post := by
  have nonneg : ¬ u < 0 := not_lt.mpr (not_isCut_iff.1 unit)
  have negative : c < 0 := isCut_iff.1 cut
  simp [fillBallotCount, fillBallotCountFrom_append, fillBallotCountFrom, nonneg, negative]

theorem fillBallotCount_retreat {u c : ℤ} (unit : isCut u = false) (cut : isCut c = true) :
    fillBallotCount (pre ++ c :: u :: post) =
      fillBallotCount pre ++ (pre.countP isCut + 1) :: (pre.countP isCut + 1) ::
        fillBallotCountFrom (pre.countP isCut + 1) post := by
  have nonneg : ¬ u < 0 := not_lt.mpr (not_isCut_iff.1 unit)
  have negative : c < 0 := isCut_iff.1 cut
  simp [fillBallotCount, fillBallotCountFrom_append, fillBallotCountFrom, nonneg, negative]

theorem length_fillBallotCount (elements : List ℤ) :
    (fillBallotCount elements).length = elements.length :=
  length_fillBallotCountFrom 0 elements

/-- The end of the move M3, with the two incremental caches up to date. -/
theorem swapNeighbours_good {a b : ℤ} (whole : expr.elements = pre ++ a :: b :: post)
    (normalized : Normalized n (pre ++ b :: a :: post))
    (unitPos : expr.unitPos = fillUnitPos (pre ++ b :: a :: post))
    (ballotCount : expr.ballotCount = fillBallotCount (pre ++ b :: a :: post)) :
    Ensures (Good n) (· = .gaveUp) (swapNeighbours expr pre.length) := by
  rw [swapNeighbours, whole, read_append_length, ok_bind, read_append_succ, ok_bind]
  simp only [set_set_append, normalized.fillChainPos_eq, ok_bind]
  exact ⟨normalized, unitPos, rfl, normalized.fillChainPos_eq, ballotCount⟩

/-- What a move that may be refused ensures. -/
def GoodMove (n : ℕ) (moved : Option NPE) : Prop := ∀ expr ∈ moved, Good n expr

theorem GoodMove.some {x : Except Fatal NPE} (run : Ensures (Good n) (· = .gaveUp) x) :
    Ensures (GoodMove n) (· = .gaveUp) (Option.some <$> x) := by
  cases x with
  | error e => exact run
  | ok expr =>
    intro expr' same
    obtain rfl := Option.some.inj same
    exact run

/-- A unit moves on, past the cut after it. -/
theorem advanceUnit_good {u c : ℤ} (good : Good n expr) (notFirst : pre ≠ [])
    (whole : expr.elements = pre ++ u :: c :: post) (unit : isCut u = false)
    (cut : isCut c = true) :
    Ensures (GoodMove n) (· = .gaveUp) (advanceUnit expr pre.length) := by
  have normalized := good.normalized
  have ascending := good.unitPos_ascending
  have unitPos := good.cached.unitPos
  have ballots := good.cached.ballotCount
  rw [whole] at normalized unitPos ballots
  rw [fillUnitPos_advance unit cut] at unitPos
  rw [fillBallotCount_advance unit cut] at ballots
  have nonneg := not_isCut_iff.1 unit
  obtain ⟨rest, x, last⟩ := (List.eq_nil_or_concat' pre).resolve_left notFirst
  have readBefore : read expr.elements (pre.length - 1) = .ok x := by
    rw [whole, last]
    simp [read]
  have readNext : read expr.elements (pre.length + 1) = .ok c := by
    rw [whole, read_append_succ]
  have readBallot : read expr.ballotCount (pre.length + 1) = .ok (pre.countP isCut + 1) := by
    rw [ballots, ← length_fillBallotCount pre, read_append_succ]
  rw [advanceUnit, readBefore, ok_bind, readNext, ok_bind]
  split_ifs with repeated
  · rintro _ ⟨⟩
  rw [readBallot, ok_bind]
  split_ifs with violated
  · rintro _ ⟨⟩
  have swapped : Normalized n (pre ++ c :: u :: post) := by
    refine normalized.swap_neighbours ?_ ?_
    · have total := countP_isUnit_add pre
      simp only [List.countP_append, List.countP_singleton, isUnit_eq_not, cut, if_true,
        Bool.not_true, Bool.false_eq_true, if_false] at total ⊢
      omega
    · have chain := normalized.alternating
      have tail : (u :: post).IsChain NotRepeated := by
        refine chain.right_of_append.tail.tail.cons fun y _ negative => ?_
        exact absurd nonneg (not_le.mpr negative)
      refine chain.left_of_append.append (List.isChain_cons_cons.mpr ⟨?_, tail⟩) ?_
      · intro negative same
        omega
      · intro y isLast z isFirst _ same
        rw [last, List.getLast?_concat, Option.mem_def, Option.some.injEq] at isLast
        rw [List.head?_cons, Option.mem_def, Option.some.injEq] at isFirst
        exact repeated (isLast.trans (same.trans isFirst.symm))
  rw [unitPos] at ascending
  rw [unitPos, updateUnitPos_append ascending]
  refine GoodMove.some (swapNeighbours_good whole swapped ?_ ?_)
  · rw [fillUnitPos_retreat unit cut]
    rfl
  · rw [fillBallotCount_retreat unit cut, ballots, ← length_fillBallotCount pre,
      modify_append_cons]

/-- A unit moves back, past the cut before it. -/
theorem retreatUnit_good {u c : ℤ} (good : Good n expr)
    (whole : expr.elements = pre ++ c :: u :: post) (unit : isCut u = false)
    (cut : isCut c = true) :
    Ensures (GoodMove n) (· = .gaveUp) (retreatUnit expr pre.length) := by
  have normalized := good.normalized
  have ascending := good.unitPos_ascending
  have unitPos := good.cached.unitPos
  have ballots := good.cached.ballotCount
  rw [whole] at normalized unitPos ballots
  rw [fillUnitPos_retreat unit cut] at unitPos
  rw [fillBallotCount_retreat unit cut] at ballots
  have nonneg := not_isCut_iff.1 unit
  have readHere : read expr.elements pre.length = .ok c := by
    rw [whole, read_append_length]
  rw [retreatUnit, readHere, ok_bind]
  split_ifs with repeated
  · exact fun _ none => nomatch none
  have swapped : Normalized n (pre ++ u :: c :: post) := by
    refine normalized.swap_neighbours ?_ ?_
    · have prefixes : (pre ++ c :: u :: post).take (pre.length + 1) = pre ++ [c] := by
        rw [List.take_append, List.take_of_length_le (by omega)]
        simp
      have fewer := normalized.balloting (pre.length + 1) (by omega) (by simp)
      rw [prefixes] at fewer
      simp only [List.countP_append, List.countP_singleton, isUnit_eq_not, cut, unit, if_true,
        Bool.not_true, Bool.not_false, Bool.false_eq_true, if_false] at fewer ⊢
      omega
    · have chain := normalized.alternating
      have tail : (c :: post).IsChain NotRepeated := by
        refine chain.right_of_append.tail.tail.cons fun y first negative same => ?_
        refine repeated ⟨?_, ?_⟩
        · cases post with
          | nil => cases first
          | cons z post =>
            rw [whole, List.length_append, List.length_cons, List.length_cons, List.length_cons]
            omega
        · rw [List.head?_eq_getElem?, ← same] at first
          rw [whole, List.getElem?_append_right (by omega)]
          simpa using first
      refine chain.left_of_append.append (List.isChain_cons_cons.mpr ⟨?_, tail⟩) ?_
      · intro negative same
        omega
      · intro y _ z isFirst negative same
        rw [List.head?_cons, Option.mem_def, Option.some.injEq] at isFirst
        omega
  rw [unitPos] at ascending
  have position : ((pre.length + 1 : ℕ) + (-1) : ℤ).toNat = pre.length := by omega
  rw [unitPos, updateUnitPos_append ascending, position]
  refine GoodMove.some (swapNeighbours_good whole swapped ?_ ?_)
  · rw [fillUnitPos_advance unit cut]
  · rw [fillBallotCount_advance unit cut, ballots, ← length_fillBallotCount pre,
      modify_append_cons]
    rfl

/-- **M3.** Swapping a unit and a cut at a flip, if the move is legal. -/
theorem swapCutUnit_good (good : Good n expr) (several : 2 ≤ n) {pos : ℕ}
    (flip : pos ∈ expr.flipPos) :
    Ensures (GoodMove n) (· = .gaveUp) (swapCutUnit expr pos) := by
  rw [good.cached.flipPos, fillFlipPos, List.mem_findIdxs_iff_exists_getElem_pos] at flip
  obtain ⟨inside, flip⟩ := flip
  rw [List.length_zip, List.length_tail] at inside
  rw [List.getElem_zip, List.getElem_tail] at flip
  have within : pos + 1 < expr.elements.length := by omega
  have notFirst : pos ≠ 0 := by
    rintro rfl
    have first := good.normalized.isUnit_of_lt_two several (i := 0) (by omega) (by omega)
    have second := good.normalized.isUnit_of_lt_two several (i := 1) (by omega) within
    simp [isFlip, first, second] at flip
  have whole : expr.elements = expr.elements.take pos ++
      expr.elements[pos] :: expr.elements[pos + 1] :: expr.elements.drop (pos + 1 + 1) := by
    rw [List.getElem_cons_drop, List.getElem_cons_drop, List.take_append_drop]
  have length : (expr.elements.take pos).length = pos := by
    rw [List.length_take]
    omega
  have nonempty : expr.elements.take pos ≠ [] := by
    rw [← List.length_pos_iff, length]
    omega
  rw [swapCutUnit, if_neg (by omega), read_getElem (by omega), ok_bind]
  rw [isFlip, isUnit_eq_not, isUnit_eq_not] at flip
  have unit_iff : expr.elements[pos] ≥ 0 ↔ isCut expr.elements[pos] = false :=
    not_isCut_iff.symm
  cases first : isCut expr.elements[pos]
  · have second : isCut expr.elements[pos + 1] = true := by simpa [first] using flip
    have run := advanceUnit_good good nonempty whole first second
    rw [length] at run
    rw [if_pos (unit_iff.mpr first)]
    exact run
  · have second : isCut expr.elements[pos + 1] = false := by simpa [first] using flip
    have run := retreatUnit_good good whole second first
    rw [length] at run
    rw [if_neg (by rw [unit_iff, first]; decide)]
    exact run

/-! ## Random moves -/

/-- An expression over several units has a first cut, after a unit. -/
theorem Normalized.exists_first_cut (normalized : Normalized n elements) (several : 2 ≤ n) :
    ∃ k, ∃ inside : k + 1 < elements.length, isCut elements[k + 1] = true ∧
      ∀ j (before : j < k + 1), isCut elements[j] = false := by
  have some_cut : 0 < elements.countP isCut := by
    rw [normalized.cuts]
    omega
  have inside : elements.findIdx isCut < elements.length := by
    rw [List.findIdx_lt_length]
    simpa [List.countP_pos_iff] using some_cut
  have cut : isCut elements[elements.findIdx isCut] = true := List.findIdx_getElem
  have units : ∀ j (before : j < elements.findIdx isCut), isCut elements[j] = false :=
    fun j before => List.not_of_lt_findIdx before
  have first := normalized.isUnit_of_lt_two several (i := 0) (by omega) (by omega)
  obtain ⟨k, position⟩ : ∃ k, elements.findIdx isCut = k + 1 := by
    refine Nat.exists_eq_succ_of_ne_zero fun zero => ?_
    simp only [zero, first] at cut
    cases cut
  simp only [position] at inside cut units
  exact ⟨k, inside, cut, units⟩

theorem Good.flipPos_pos (good : Good n expr) (several : 2 ≤ n) : 0 < expr.flipPos.length := by
  obtain ⟨k, inside, cut, units⟩ := good.normalized.exists_first_cut several
  have unit := units k (Nat.lt_succ_self k)
  have member : k ∈ expr.flipPos := by
    rw [good.cached.flipPos, fillFlipPos, List.mem_findIdxs_iff_exists_getElem_pos]
    refine ⟨?_, ?_⟩
    · rw [List.length_zip, List.length_tail]
      omega
    · rw [List.getElem_zip, List.getElem_tail]
      simp [isFlip, unit, cut]
  exact List.length_pos_of_mem member

theorem chainStarts_ne_nil {i : ℕ} {cuts : List Bool} (cut : true ∈ cuts) :
    chainStarts false i cuts ≠ [] := by
  induction cuts generalizing i with
  | nil => cases cut
  | cons head cuts ih =>
    rw [chainStarts]
    cases head with
    | true => simp
    | false => simpa using ih (by simpa using cut)

theorem Good.chainPos_pos (good : Good n expr) (several : 2 ≤ n) : 0 < expr.chainPos.length := by
  obtain ⟨k, inside, cut, -⟩ := good.normalized.exists_first_cut several
  have chains := good.cached.chainPos
  rw [good.normalized.fillChainPos_eq, Except.ok.injEq] at chains
  rw [← chains, List.length_pos_iff]
  refine chainStarts_ne_nil ?_
  rw [← cut]
  exact List.mem_map_of_mem (List.getElem_mem inside)

/-- A choice among the entries of a cache. -/
theorem read_draw {A : Type} {array : List A} {max : ℕ} (draw : Draw) (some_entry : 0 < max)
    (fits : max ≤ array.length) :
    ∃ a, read array (draw.upto max) = .ok a ∧ array[draw.upto max]? = some a := by
  have inside := draw.lt_max max some_entry
  exact ⟨array[draw.upto max], read_getElem (by omega), List.getElem?_eq_getElem (by omega)⟩

/-- The attempts of M3 in one round. -/
theorem tryCutUnit_good (good : Good n expr) (several : 2 ≤ n) (attempts : ℕ)
    (draws : Stream' Draw) :
    Ensures (fun tried => GoodMove n tried.1) (· = .gaveUp) (tryCutUnit expr attempts draws) := by
  induction attempts generalizing draws with
  | zero => exact fun _ none => nomatch none
  | succ attempts ih =>
    obtain ⟨pos, found, entry⟩ := read_draw draws.head (good.flipPos_pos several) le_rfl
    rw [tryCutUnit, found, ok_bind]
    refine (swapCutUnit_good good several (List.mem_of_getElem? entry)).bind fun moved goodMove => ?_
    cases moved with
    | none => exact ih draws.tail
    | some expr' => exact goodMove

theorem finishMove_good {left : ℕ} (good : Good n expr) :
    Ensures (Good n) (· = .gaveUp) (finishMove left expr) := by
  rw [finishMove]
  split_ifs
  · exact rfl
  · exact good

/-- The rounds of a random move. -/
theorem moveRounds_good (good : Good n expr) (several : 2 ≤ n) (left : ℕ) (draws : Stream' Draw) :
    Ensures (Good n) (· = .gaveUp) (moveRounds expr left draws) := by
  induction left generalizing draws with
  | zero => exact rfl
  | succ left ih =>
    rw [moveRounds]
    have move := draws.head.lt_max 3 (by omega)
    generalize draws.head.upto 3 = kind at move
    match kind, move with
    | 0, _ =>
      have units := good.unitPos_length
      have choice := draws.tail.head.lt_max (expr.unitPos.length - 1) (by omega)
      have fits : expr.unitPos.length - 1 ≤ expr.unitPos.length := Nat.sub_le _ _
      obtain ⟨pos, found, entry⟩ := read_draw draws.tail.head (by omega) fits
      simp only [found, ok_bind]
      exact (swapUnits_good good (by omega) entry).bind fun copy => finishMove_good
    | 1, _ =>
      obtain ⟨pos, found, entry⟩ := read_draw draws.tail.head (good.chainPos_pos several) le_rfl
      simp only [found, ok_bind]
      exact (invertChain_good good (List.mem_of_getElem? entry)).bind fun copy => finishMove_good
    | 2, _ =>
      refine (tryCutUnit_good good several MAX_MOVES draws.tail).bind fun tried goodMove => ?_
      match tried, goodMove with
      | (some copy, _), goodMove => exact finishMove_good (goodMove copy rfl)
      | (none, draws), _ => exact ih draws

/-- **Annealing.** Whatever the random moves, from the starting solution over two or more units
every expression is normalized, its caches are what the fill functions compute, and the only
failure is that `make_random_move` finds no legal move. -/
theorem anneal_normalized (n : ℕ) (several : 2 ≤ n) (moves : List (Stream' Draw)) :
    Ensures (fun expr => Normalized n expr.elements ∧ expr.unitPos.Pairwise (· < ·) ∧ Cached expr)
      (· = .gaveUp) (anneal n moves) := by
  obtain ⟨m, rfl⟩ : ∃ m, n = m + 1 := ⟨n - 1, by omega⟩
  have start := normalized_initialElements m
  obtain ⟨expr, filled, elements, cached⟩ := start.fill
  have good : Good (m + 1) expr := ⟨elements ▸ start, cached⟩
  rw [anneal, getInitial, filled, ok_bind]
  have runs : Ensures (Good (m + 1)) (· = .gaveUp) (runEvents makeRandomMove moves expr) :=
    ensures_runEvents (fun draws _ good => moveRounds_good good several MAX_MOVES draws) good
  exact runs.mono fun expr good => ⟨good.normalized, good.unitPos_ascending, good.cached⟩

/-- One swap of units from the starting solution `0, 1, V, 2, V`. -/
theorem anneal_normalized_three :
    2 ≤ 3 ∧ Ensures (fun expr => Normalized 3 expr.elements ∧ expr.unitPos.Pairwise (· < ·) ∧
      Cached expr) (· = .gaveUp) (anneal 3 [Stream'.const (Draw.ofRand 0)]) :=
  ⟨by decide, anneal_normalized 3 (by decide) [Stream'.const (Draw.ofRand 0)]⟩

end GpuHotSpot.HotSpotTool.Polish
