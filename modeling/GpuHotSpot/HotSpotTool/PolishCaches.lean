import GpuHotSpot.HotSpotTool.PolishExpression

/-!
# The caches of a Polish expression

What the four caches hold.  They depend on the elements only through which of them are
cuts; on a normalized expression `fillChainPos` does not fail.

* `NPE.SameCuts.cached`: the caches survive a change that keeps the cuts where they are.
* `Normalized.fillChainPos_eq`: the chains of a normalized expression.
* `normalized_initialElements`: the starting solution is normalized.
-/

namespace GpuHotSpot.HotSpotTool.Polish

variable {n : ℕ} {elements elements' pre post : List ℤ} {a b : ℤ}

@[simp] theorem isUnit_eq_not (e : ℤ) : isUnit e = !isCut e := by
  simp only [isUnit, isCut, ← decide_not, Int.not_lt]

theorem isCut_iff {e : ℤ} : isCut e = true ↔ e < 0 := by
  simp only [isCut, decide_eq_true_eq]

theorem not_isCut_iff {e : ℤ} : isCut e = false ↔ 0 ≤ e := by
  simp only [isCut, decide_eq_false_iff_not, Int.not_lt]

@[simp] theorem read_getElem {A : Type} {array : List A} {i : ℕ} (inside : i < array.length) :
    read array i = .ok array[i] := by
  simp only [read, List.getElem?_eq_getElem inside]

@[simp] theorem read_append_length {A : Type} (l : List A) (x : A) (r : List A) :
    read (l ++ x :: r) l.length = .ok x := by
  simp [read]

/-- Every element is a unit or a cut. -/
theorem countP_isUnit_add (elements : List ℤ) :
    elements.countP isUnit + elements.countP isCut = elements.length := by
  rw [List.length_eq_countP_add_countP isCut, add_comm]
  congr 2
  funext e
  simp

/-! ## The fill functions read the cuts only -/

/-- The positions of the chains, from the positions of the cuts; `inside` says whether the
position before is a cut. -/
def chainStarts : Bool → ℕ → List Bool → List ℕ
  | _, _, [] => []
  | inside, i, cut :: cuts =>
    if cut && !inside then i :: chainStarts cut (i + 1) cuts else chainStarts cut (i + 1) cuts

/-- Cuts that do not repeat make `fill_chain_pos` return. -/
theorem fillChainPosFrom_eq {prev : Option ℤ} {i : ℕ} (cut : ∀ c ∈ prev, c < 0)
    (alternating : (prev.toList ++ elements).IsChain NotRepeated) :
    fillChainPosFrom prev i elements = .ok (chainStarts prev.isSome i (elements.map isCut)) := by
  induction elements generalizing prev i with
  | nil => cases prev <;> rfl
  | cons e elements ih =>
    have tail : (e :: elements).IsChain NotRepeated := alternating.right_of_append
    have skipped : ∀ i, fillChainPosFrom none i elements =
        .ok (chainStarts false i (elements.map isCut)) := fun i =>
      ih (by simp) (by simpa using tail.tail)
    have entered : e < 0 → ∀ i, fillChainPosFrom (some e) i elements =
        .ok (chainStarts true i (elements.map isCut)) := fun negative i =>
      ih (by simpa using negative) (by simpa using tail)
    cases prev with
    | none =>
      by_cases negative : e < 0
      · simp [fillChainPosFrom, chainStarts, negative, isCut, entered]
      · simp [fillChainPosFrom, chainStarts, negative, isCut, skipped]
    | some c =>
      have different : c ≠ e := by
        have related : NotRepeated c e := (List.isChain_cons_cons.mp alternating).1
        exact related (cut c rfl)
      by_cases negative : e < 0
      · simp [fillChainPosFrom, chainStarts, negative, isCut, entered, different.symm]
      · simp [fillChainPosFrom, chainStarts, negative, isCut, skipped]

theorem Normalized.fillChainPos_eq (normalized : Normalized n elements) :
    fillChainPos elements = .ok (chainStarts false 0 (elements.map isCut)) :=
  fillChainPosFrom_eq (by simp) (by simpa using normalized.alternating)

theorem fillUnitPos_eq (elements : List ℤ) :
    fillUnitPos elements = (elements.map isCut).findIdxs (!·) := by
  rw [List.findIdxs_map, fillUnitPos]
  congr 1
  funext e
  simp

theorem fillFlipPos_eq (elements : List ℤ) :
    fillFlipPos elements =
      ((elements.map isCut).zip (elements.map isCut).tail).findIdxs fun pair => pair.1 != pair.2 := by
  rw [← List.map_tail, List.zip_map, List.findIdxs_map, fillFlipPos]
  congr 1
  funext pair
  simp only [isFlip, isUnit_eq_not, Function.comp_apply, Prod.map_fst, Prod.map_snd]
  cases isCut pair.1 <;> cases isCut pair.2 <;> rfl

theorem fillBallotCountFrom_congr {count : ℕ} (same : elements.map isCut = elements'.map isCut) :
    fillBallotCountFrom count elements = fillBallotCountFrom count elements' := by
  induction elements generalizing count elements' with
  | nil => simp_all [List.map_eq_nil_iff.mp same.symm]
  | cons e elements ih =>
    cases elements' with
    | nil => simp at same
    | cons e' elements' =>
      simp only [List.map_cons, List.cons.injEq, isCut, decide_eq_decide] at same
      simp only [fillBallotCountFrom, same.1, ih same.2]

/-- A change that keeps the cuts where they are keeps the caches. -/
theorem Cached.of_map_eq {expr : NPE} (cached : Cached expr)
    (before : Normalized n expr.elements) (after : Normalized n elements)
    (same : elements.map isCut = expr.elements.map isCut) :
    Cached { expr with elements := elements } where
  unitPos := by rw [cached.unitPos, fillUnitPos_eq, fillUnitPos_eq, same]
  flipPos := by rw [cached.flipPos, fillFlipPos_eq, fillFlipPos_eq, same]
  chainPos := by
    have chains := cached.chainPos
    rw [before.fillChainPos_eq] at chains
    rw [after.fillChainPos_eq, same]
    exact chains
  ballotCount := by
    rw [cached.ballotCount]
    exact fillBallotCountFrom_congr same.symm

/-- Filling the caches of a normalized expression. -/
theorem Normalized.fill (normalized : Normalized n elements) :
    ∃ expr, NPE.fill elements = .ok expr ∧ expr.elements = elements ∧ Cached expr := by
  rw [NPE.fill, normalized.fillChainPos_eq]
  exact ⟨_, rfl, rfl, rfl, rfl, normalized.fillChainPos_eq, rfl⟩

/-! ## Normalized expressions -/

theorem countP_take_eq {p : Bool → Bool} (same : elements.map isCut = elements'.map isCut) (k : ℕ) :
    (elements.take k).countP (p ∘ isCut) = (elements'.take k).countP (p ∘ isCut) := by
  rw [← List.countP_map, ← List.countP_map, List.map_take, List.map_take, same]

/-- The balloting property depends on the cuts only. -/
theorem balloting_congr (same : elements'.map isCut = elements.map isCut)
    (normalized : Normalized n elements) (k : ℕ) (positive : 1 ≤ k)
    (inside : k ≤ elements'.length) :
    (elements'.take k).countP isCut < (elements'.take k).countP isUnit := by
  have length : elements'.length = elements.length := by
    simpa using congrArg List.length same
  have ballots := normalized.balloting k positive (length ▸ inside)
  have cuts : (elements'.take k).countP isCut = (elements.take k).countP isCut :=
    countP_take_eq (p := id) same k
  have total := countP_isUnit_add (elements.take k)
  have total' := countP_isUnit_add (elements'.take k)
  rw [List.length_take] at total total'
  omega

theorem Normalized.countP_isUnit (normalized : Normalized n elements) :
    elements.countP isUnit = n := by
  rw [List.countP_eq_length_filter, normalized.units.length_eq]
  simp

theorem Normalized.length (normalized : Normalized n elements) (units : 1 ≤ n) :
    elements.length = 2 * n - 1 := by
  have total := countP_isUnit_add elements
  have cuts := normalized.cuts
  rw [normalized.countP_isUnit] at total
  omega

/-- The first two elements of an expression over several units are units. -/
theorem Normalized.isUnit_of_lt_two (normalized : Normalized n elements) (several : 2 ≤ n)
    {i : ℕ} (first : i < 2) (inside : i < elements.length) : isCut elements[i] = false := by
  have long := normalized.length (by omega)
  obtain ⟨e, e', rest, rfl⟩ : ∃ e e' rest, elements = e :: e' :: rest := by
    match elements, long with
    | [], long => simp at long; omega
    | [_], long => simp at long; omega
    | e :: e' :: rest, _ => exact ⟨e, e', rest, rfl⟩
  have ballots := normalized.balloting 2 (by omega) (by simp)
  simp only [List.take_succ_cons, List.take_zero, List.countP_cons, List.countP_nil,
    isUnit_eq_not] at ballots
  cases head : isCut e
  · cases head' : isCut e'
    · match i, first with
      | 0, _ => exact head
      | 1, _ => exact head'
    · simp [head, head'] at ballots
  · cases head' : isCut e' <;> simp [head, head'] at ballots

/-! ## The starting solution -/

theorem initialElements_succ (m : ℕ) :
    initialElements (m + 2) = initialElements (m + 1) ++ [(m : ℤ) + 1, CUT_VERTICAL] := by
  simp [initialElements, List.range_succ]

/-- **Start.** The starting solution is normalized. -/
theorem normalized_initialElements (m : ℕ) : Normalized (m + 1) (initialElements (m + 1)) := by
  induction m with
  | zero =>
    refine ⟨by decide, by decide, by decide, ?_, by decide⟩
    intro k positive inside
    obtain rfl : k = 1 := le_antisymm inside positive
    decide
  | succ m ih =>
    have natural : isCut ((m : ℤ) + 1) = false := not_isCut_iff.2 (by omega)
    have vertical : isCut CUT_VERTICAL = true := rfl
    have units := ih.countP_isUnit
    have cuts := ih.cuts
    rw [initialElements_succ]
    refine ⟨?_, ?_, ?_, ?_, ?_⟩
    · rw [List.filter_append, List.range_succ, List.map_append]
      refine ih.units.append ?_
      simp [natural, vertical]
    · rw [List.countP_append, cuts]
      simp [natural, vertical]
    · intro e member negative
      rcases List.mem_append.mp member with old | new
      · exact ih.cutTypes e old negative
      · rcases List.mem_pair.mp new with rfl | rfl
        · omega
        · exact Or.inl rfl
    · intro k positive inside
      by_cases old : k ≤ (initialElements (m + 1)).length
      · rw [List.take_append_of_le_length old]
        exact ih.balloting k positive old
      · obtain ⟨j, rfl⟩ := Nat.exists_eq_add_of_lt (Nat.lt_of_not_le old)
        rw [List.take_append, List.take_of_length_le (by omega), List.countP_append,
          List.countP_append, units, cuts]
        have small : j < 2 := by simp at inside; omega
        have tail : (initialElements (m + 1)).length + j + 1 - (initialElements (m + 1)).length =
            j + 1 := by omega
        rw [tail]
        match j, small with
        | 0, _ =>
          simp only [List.take_succ_cons, List.take_zero, List.countP_cons, List.countP_nil,
            isUnit_eq_not, natural, Bool.not_false, Bool.false_eq_true, if_true, if_false]
          omega
        | 1, _ => simp [natural, vertical]
    · rw [List.isChain_append]
      refine ⟨ih.alternating, ?_, ?_⟩
      · exact List.isChain_pair.mpr fun negative => by omega
      · intro x _ y first negative
        simp only [List.head?_cons, Option.mem_def, Option.some.injEq] at first
        omega

end GpuHotSpot.HotSpotTool.Polish
