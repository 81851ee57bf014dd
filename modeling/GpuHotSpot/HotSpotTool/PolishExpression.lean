import GpuHotSpot.Lib.Machine
import Mathlib.Algebra.BigOperators.Group.List.Basic
import Mathlib.Data.List.Chain
import Mathlib.Data.Stream.Defs

/-!
# Polish expressions

Floorplanning by simulated annealing, `npe.c`.  A slicing floorplan is written as a
normalized Polish expression: units are the numbers from zero on, and each cut
combines the two operands before it.  The record `NPE` keeps, next to the elements,
four caches that the three moves update or recompute.

* `Normalized`: what a normalized expression over `n` units is.
-/

namespace GpuHotSpot.HotSpotTool.Polish

/-- The calls of `fatal` in `npe.c`, and reads outside an array. -/
inductive Fatal
  | noAdjacentUnit
  | invalidNPE
  | notNormalized
  | unknownCut
  | invalidPosition
  | unitNotFound
  | unknownMove
  | gaveUp
  | outOfRange
  deriving DecidableEq, Repr

def CUT_VERTICAL : ℤ := -2

def CUT_HORIZONTAL : ℤ := -3

def MAX_MOVES : ℕ := 16

/-- An array read. -/
def read {A : Type} (array : List A) (i : ℕ) : Except Fatal A :=
  match array[i]? with
  | some a => .ok a
  | none => .error .outOfRange

/-- Is the element a unit? -/
def isUnit (e : ℤ) : Bool := 0 ≤ e

/-- Is the element a cut? -/
def isCut (e : ℤ) : Bool := e < 0

/-! ## The expression and its caches -/

/-- `NPE_t`.  The lengths of the lists stand for `size`, `n_units`, `n_flips` and `n_chains`. -/
structure NPE where
  elements : List ℤ
  /-- Positions of the units. -/
  unitPos : List ℕ
  /-- Positions where a unit is immediately adjacent to a cut or the other way round. -/
  flipPos : List ℕ
  /-- Positions of the chains. -/
  chainPos : List ℕ
  /-- Number of cuts up to each position. -/
  ballotCount : List ℕ
  deriving DecidableEq, Repr

/-- `fill_unit_pos`. -/
def fillUnitPos (elements : List ℤ) : List ℕ := elements.findIdxs isUnit

/-- Neighbours of which one is a cut and one is a unit. -/
def isFlip (pair : ℤ × ℤ) : Bool :=
  (isCut pair.1 && isUnit pair.2) || (isUnit pair.1 && isCut pair.2)

/-- `fill_flip_pos`. -/
def fillFlipPos (elements : List ℤ) : List ℕ := (elements.zip elements.tail).findIdxs isFlip

/-- The two loops of `fill_chain_pos` from position `i` on; inside a chain `prev` is the cut before. -/
def fillChainPosFrom : Option ℤ → ℕ → List ℤ → Except Fatal (List ℕ)
  | _, _, [] => .ok []
  | none, i, e :: elements =>
    if e < 0 then (i :: ·) <$> fillChainPosFrom (some e) (i + 1) elements
    else fillChainPosFrom none (i + 1) elements
  | some prev, i, e :: elements =>
    if e < 0 then
      if e = prev then .error .notNormalized else fillChainPosFrom (some e) (i + 1) elements
    else fillChainPosFrom none (i + 1) elements

/-- `fill_chain_pos`. -/
def fillChainPos (elements : List ℤ) : Except Fatal (List ℕ) := fillChainPosFrom none 0 elements

/-- The loop of `fill_ballot_count`. -/
def fillBallotCountFrom : ℕ → List ℤ → List ℕ
  | _, [] => []
  | count, e :: elements =>
    let count' := if e < 0 then count + 1 else count
    count' :: fillBallotCountFrom count' elements

/-- `fill_ballot_count`. -/
def fillBallotCount (elements : List ℤ) : List ℕ := fillBallotCountFrom 0 elements

/-- All four caches computed from the elements. -/
def NPE.fill (elements : List ℤ) : Except Fatal NPE := do
  let chainPos ← fillChainPos elements
  return {
    elements := elements
    unitPos := fillUnitPos elements
    flipPos := fillFlipPos elements
    chainPos := chainPos
    ballotCount := fillBallotCount elements }

/-- The starting solution `0, 1, V, 2, V, ..., n-1, V`. -/
def initialElements (n : ℕ) : List ℤ :=
  0 :: (List.range (n - 1)).flatMap fun k => [(k + 1 : ℤ), CUT_VERTICAL]

/-- `NPE_get_initial`. -/
def getInitial (n : ℕ) : Except Fatal NPE := NPE.fill (initialElements n)

/-! ## The moves -/

/-- `NPE_swap_units`: swap the unit at `pos` with the next one. -/
def swapUnits (expr : NPE) (pos : ℕ) : Except Fatal NPE := do
  let t ← read expr.elements pos
  match (expr.elements.drop (pos + 1)).findIdx? isUnit with
  | none => .error .noAdjacentUnit
  | some k =>
    let next ← read expr.elements (pos + 1 + k)
    return { expr with elements := (expr.elements.set pos next).set (pos + 1 + k) t }

/-- The other cut; `fatal` with `reason` on anything else. -/
def otherCut (reason : Fatal) (e : ℤ) : Except Fatal ℤ :=
  if e = CUT_VERTICAL then .ok CUT_HORIZONTAL
  else if e = CUT_HORIZONTAL then .ok CUT_VERTICAL
  else .error reason

/-- The loop of `NPE_invert_chain` after the first cut, `prev` being the cut before. -/
def invertChainFrom (prev : ℤ) : List ℤ → Except Fatal (List ℤ)
  | [] => .ok []
  | e :: elements =>
    if e < 0 then
      if e = prev then .error .notNormalized
      else do
        let other ← otherCut .unknownCut e
        let rest ← invertChainFrom e elements
        return other :: rest
    else .ok (e :: elements)

/-- `NPE_invert_chain`. -/
def invertChain (expr : NPE) (pos : ℕ) : Except Fatal NPE := do
  let prev ← read expr.elements pos
  let other ← otherCut .invalidNPE prev
  let rest ← invertChainFrom prev (expr.elements.drop (pos + 1))
  return { expr with elements := expr.elements.take pos ++ other :: rest }

/-- `update_unit_pos`: binary search between `start` and `stop`, `none` for `FALSE`. -/
def updateUnitPos (unitPos : List ℕ) (pos : ℕ) (delta start stop : ℤ) : Option (List ℕ) :=
  if start > stop then none
  else
    let mid := (start + stop) / 2
    match unitPos[mid.toNat]? with
    | none => none
    | some found =>
      if found = pos then some (unitPos.set mid.toNat (found + delta).toNat)
      else if found > pos then updateUnitPos unitPos pos delta start (mid - 1)
      else updateUnitPos unitPos pos delta (mid + 1) stop
termination_by (stop + 1 - start).toNat

/-- The end of `NPE_swap_cut_unit`: swap the neighbours and recompute the flips and chains. -/
def swapNeighbours (expr : NPE) (pos : ℕ) : Except Fatal NPE := do
  let t ← read expr.elements pos
  let next ← read expr.elements (pos + 1)
  let elements := (expr.elements.set pos next).set (pos + 1) t
  let chainPos ← fillChainPos elements
  return { expr with elements := elements, flipPos := fillFlipPos elements, chainPos := chainPos }

/-- The unit at `pos` and the cut after it change places. -/
def advanceUnit (expr : NPE) (pos : ℕ) : Except Fatal (Option NPE) := do
  let before ← read expr.elements (pos - 1)
  let next ← read expr.elements (pos + 1)
  -- equal cuts would become neighbours
  if before = next then return none
  else
    let ballots ← read expr.ballotCount (pos + 1)
    if 2 * ballots ≥ pos + 1 then return none
    else
      match updateUnitPos expr.unitPos pos 1 0 ((expr.unitPos.length : ℤ) - 1) with
      | none => .error .unitNotFound
      | some unitPos =>
        some <$> swapNeighbours
          { expr with unitPos := unitPos, ballotCount := expr.ballotCount.modify pos (· + 1) } pos

/-- The cut at `pos` and the unit after it change places. -/
def retreatUnit (expr : NPE) (pos : ℕ) : Except Fatal (Option NPE) := do
  let e ← read expr.elements pos
  if pos < expr.elements.length - 2 ∧ expr.elements[pos + 2]? = some e then return none
  else
    match updateUnitPos expr.unitPos (pos + 1) (-1) 0 ((expr.unitPos.length : ℤ) - 1) with
    | none => .error .unitNotFound
    | some unitPos =>
      some <$> swapNeighbours
        { expr with unitPos := unitPos, ballotCount := expr.ballotCount.modify pos (· - 1) } pos

/-- `NPE_swap_cut_unit`: `none` when the move is not legal. -/
def swapCutUnit (expr : NPE) (pos : ℕ) : Except Fatal (Option NPE) :=
  if pos = 0 ∨ expr.elements.length ≤ pos + 1 then .error .invalidPosition
  else do
    let e ← read expr.elements pos
    if e ≥ 0 then advanceUnit expr pos else retreatUnit expr pos

/-! ## Random moves -/

/-- What one call of `rand_upto` can return: a number below its argument. -/
structure Draw where
  upto : ℕ → ℕ
  lt_max : ∀ max, 0 < max → upto max < max

def RAND_MAX : ℕ := 2147483647

/-- `rand_upto` after `rand` returned `r`. -/
def Draw.ofRand (r : Fin (RAND_MAX + 1)) : Draw where
  upto max := max * r / (RAND_MAX + 1)
  lt_max max positive := by
    rw [Nat.div_lt_iff_lt_mul (Nat.succ_pos _)]
    exact Nat.mul_lt_mul_of_pos_left r.isLt positive

/-- The loop of `make_random_move` over the attempts of M3, with the draws that are left. -/
def tryCutUnit (expr : NPE) : ℕ → Stream' Draw → Except Fatal (Option NPE × Stream' Draw)
  | 0, draws => .ok (none, draws)
  | attempts + 1, draws => do
      let pos ← read expr.flipPos (draws.head.upto expr.flipPos.length)
      match ← swapCutUnit expr pos with
      | some moved => return (some moved, draws.tail)
      | none => tryCutUnit expr attempts draws.tail

/-- The end of `make_random_move` when `left` of the `MAX_MOVES` rounds were not used. -/
def finishMove (left : ℕ) (copy : NPE) : Except Fatal NPE :=
  if left = 0 then .error .gaveUp else .ok copy

/-- The rounds of `make_random_move`.  Until a move is done the copy equals the expression. -/
def moveRounds (expr : NPE) : ℕ → Stream' Draw → Except Fatal NPE
  | 0, _ => .error .gaveUp
  | left + 1, draws =>
    match draws.head.upto 3 with
    | 0 => do
        let pos ← read expr.unitPos (draws.tail.head.upto (expr.unitPos.length - 1))
        let copy ← swapUnits expr pos
        finishMove left copy
    | 1 => do
        let pos ← read expr.chainPos (draws.tail.head.upto expr.chainPos.length)
        let copy ← invertChain expr pos
        finishMove left copy
    | 2 => do
        match ← tryCutUnit expr MAX_MOVES draws.tail with
        | (some copy, _) => finishMove left copy
        | (none, draws) => moveRounds expr left draws
    | _ => .error .unknownMove

/-- `make_random_move`. -/
def makeRandomMove (draws : Stream' Draw) (expr : NPE) : Except Fatal NPE :=
  moveRounds expr MAX_MOVES draws

/-- The starting solution and one random move after the other. -/
def anneal (n : ℕ) (moves : List (Stream' Draw)) : Except Fatal NPE :=
  getInitial n >>= runEvents makeRandomMove moves

/-! ## Normalized expressions -/

/-- The second element does not repeat the first one as a cut. -/
def NotRepeated (a b : ℤ) : Prop := a < 0 → a ≠ b

instance : DecidableRel NotRepeated := fun a b => inferInstanceAs (Decidable (a < 0 → a ≠ b))

/-- A normalized Polish expression over the units from `0` to `n - 1`. -/
structure Normalized (n : ℕ) (elements : List ℤ) : Prop where
  /-- Every unit occurs exactly once. -/
  units : (elements.filter isUnit).Perm ((List.range n).map Int.ofNat)
  cuts : elements.countP isCut = n - 1
  cutTypes : ∀ e ∈ elements, e < 0 → e = CUT_VERTICAL ∨ e = CUT_HORIZONTAL
  /-- Every prefix has fewer cuts than units. -/
  balloting : ∀ k, 1 ≤ k → k ≤ elements.length →
    (elements.take k).countP isCut < (elements.take k).countP isUnit
  /-- No two adjacent cuts are equal. -/
  alternating : elements.IsChain NotRepeated

/-- The caches are what the fill functions compute. -/
structure Cached (expr : NPE) : Prop where
  unitPos : expr.unitPos = fillUnitPos expr.elements
  flipPos : expr.flipPos = fillFlipPos expr.elements
  chainPos : fillChainPos expr.elements = .ok expr.chainPos
  ballotCount : expr.ballotCount = fillBallotCount expr.elements

end GpuHotSpot.HotSpotTool.Polish
