import GpuHotSpot.HotSpotTool.PolishExpression
import GpuHotSpot.Lib.Tiling
import Mathlib.Algebra.Order.AbsoluteValue.Basic

/-!
# Slicing trees

The realisation of a Polish expression as a floorplan, `shape.c`, in exact arithmetic.
`tree_from_NPE` builds the slicing tree with a stack of at most `MAX_STACK` nodes and adds
up the shape curves; `tree_to_flp` picks the entry of minimum area and sizes the blocks
from the root down.  Every cut leaves a dead block, which is given to a neighbour when it
is small.
-/

namespace GpuHotSpot.HotSpotTool.Slicing

open Polish

variable {K : Type} [Field K] [LinearOrder K]

/-! ## Shape curves -/

/-- One entry of a shape curve. -/
structure Point (K : Type) where
  /-- Width. -/
  x : K
  /-- Height. -/
  y : K
  deriving DecidableEq, Repr

/-- What a summed up curve holds next to an entry. -/
structure Origin (K : Type) where
  leftPos : ℕ
  rightPos : ℕ
  median : K
  deriving DecidableEq, Repr

/-- The second loop of `shape_add`.  The first one counts its entries. -/
def addLoop (first : Point K → Point K → Bool) (entry : ℕ → ℕ → Point K → Point K → Point K × Origin K) :
    ℕ → ℕ → List (Point K) → List (Point K) → List (Point K × Origin K)
  | i, j, a :: shape1, b :: shape2 =>
    entry i j a b ::
      if first a b then addLoop first entry (i + 1) j shape1 (b :: shape2)
      else addLoop first entry i (j + 1) (a :: shape1) shape2
  | _, _, [], _ => []
  | _, _, _ :: _, [] => []
termination_by _ _ shape1 shape2 => shape1.length + shape2.length

/-- `shape_add`.  For a horizontal cut both curves are walked from their ends. -/
def shapeAdd (shape1 shape2 : List (Point K)) (cutType : ℤ) : List (Point K × Origin K) :=
  if cutType = CUT_VERTICAL then
    addLoop (fun a b => a.y ≥ b.y)
      (fun i j a b => (⟨a.x + b.x, max a.y b.y⟩, ⟨i, j, a.x⟩)) 0 0 shape1 shape2
  else
    (addLoop (fun a b => a.x ≥ b.x)
      (fun i j a b => (⟨max a.x b.x, a.y + b.y⟩,
        ⟨shape1.length - 1 - i, shape2.length - 1 - j, a.y⟩))
      0 0 shape1.reverse shape2.reverse).reverse

/-- `min_area_pos` after its first entry: the smallest area so far, its position, and the
position of the next entry. -/
def minAreaLoop (min : K) (pos : ℕ) : ℕ → List (Point K) → ℕ
  | _, [] => pos
  | i, p :: curve =>
    if min > p.x * p.y then minAreaLoop (p.x * p.y) i (i + 1) curve
    else minAreaLoop min pos (i + 1) curve

/-- `min_area_pos`. -/
def minAreaPos : List (Point K) → ℕ
  | [] => 0
  | p :: curve => minAreaLoop (p.x * p.y) 0 1 curve

/-! ## The tree -/

/-- `tree_node_t`: a unit with its curve, or a cut with the summed up curve. -/
inductive TreeNode (K : Type)
  | leaf (curve : List (Point K)) (unit : ℕ)
  | cut (sums : List (Point K × Origin K)) (cutType : ℤ) (left right : TreeNode K)

/-- The curve of a node. -/
def TreeNode.curve : TreeNode K → List (Point K)
  | leaf curve _ => curve
  | cut sums _ _ _ => sums.map Prod.fst

/-- The calls of `fatal` in `shape.c`, and accesses outside an array. -/
inductive Fatal
  | stackFull
  | stackEmpty
  | noNode
  | outOfRange
  deriving DecidableEq, Repr

def MAX_STACK : ℕ := 128

/-- `tree_node_stack_push`. -/
def push (node : TreeNode K) (stack : List (TreeNode K)) : Except Fatal (List (TreeNode K)) :=
  if stack.length ≥ MAX_STACK then .error .stackFull else .ok (node :: stack)

/-- One round of the loop of `tree_from_NPE`; `shapes` are the curves of `flp_desc->units`. -/
def treeStep (shapes : List (List (Point K))) (e : ℤ) (stack : List (TreeNode K)) :
    Except Fatal (List (TreeNode K)) :=
  if e ≥ 0 then
    match shapes[e.toNat]? with
    | none => .error .outOfRange
    | some shape => push (.leaf shape e.toNat) stack
  else
    match stack with
    | right :: left :: stack => push (.cut (shapeAdd left.curve right.curve e) e left right) stack
    | _ => .error .stackEmpty

/-- `tree_from_NPE` with an empty stack: the node of the last round. -/
def treeFromNPE (shapes : List (List (Point K))) (elements : List ℤ) : Except Fatal (TreeNode K) :=
  runEvents (treeStep shapes) elements [] >>= fun stack =>
    match stack with
    | node :: _ => .ok node
    | [] => .error .noNode

/-! ## Sizing -/

/-- What a cut does to the chosen entries of its children, and the dead block it leaves. -/
structure Cut (K : Type) where
  left : Point K
  right : Point K
  /-- The lower left corner of the right child. -/
  rightLeftx : K
  rightBottomy : K
  dead : Rect K
  compacted : Bool

/-- Space that was compacted away from the rectangle of a vertical cut is absorbed. -/
def absorbVertical (self left right : Point K) : Point K × Point K :=
  let extra := if self.y > max left.y right.y then self.y - max left.y right.y else 0
  let wider := if self.x > left.x + right.x then self.x - (left.x + right.x) else 0
  (⟨left.x, left.y + extra⟩, ⟨right.x + wider, right.y + extra⟩)

/-- The children of a vertical cut side by side, the dead block on top of the lower one, or
the lower one grown when the dead block is compacted. -/
def placeVertical (compacted : Bool) (leftx bottomy median : K) (left right : Point K) : Cut K where
  left := if compacted ∧ right.y ≥ left.y then ⟨left.x, right.y⟩ else left
  right := if compacted ∧ ¬ right.y ≥ left.y then ⟨right.x, left.y⟩ else right
  rightLeftx := leftx + median
  rightBottomy := bottomy
  dead := {
    width := if right.y ≥ left.y then left.x else right.x
    height := |right.y - left.y|
    leftx := leftx + if right.y ≥ left.y then 0 else left.x
    bottomy := bottomy + min left.y right.y }
  compacted := compacted

/-- The vertical branch of `recursive_sizing`. -/
def cutVertical (compactDead : Bool) (ratio leftx bottomy median : K) (self left right : Point K) :
    Cut K :=
  let (left, right) := absorbVertical self left right
  placeVertical (compactDead && decide (|right.y - left.y| / min left.y right.y ≤ ratio))
    leftx bottomy median left right

/-- Space that was compacted away from the rectangle of a horizontal cut is absorbed. -/
def absorbHorizontal (self left right : Point K) : Point K × Point K :=
  let extra := if self.x > max left.x right.x then self.x - max left.x right.x else 0
  let higher := if self.y > left.y + right.y then self.y - (left.y + right.y) else 0
  (⟨left.x + extra, left.y⟩, ⟨right.x + extra, right.y + higher⟩)

/-- The children of a horizontal cut one above the other, the dead block to the right of the
narrower one, or the narrower one grown when the dead block is compacted. -/
def placeHorizontal (compacted : Bool) (leftx bottomy median : K) (left right : Point K) :
    Cut K where
  left := if compacted ∧ right.x ≥ left.x then ⟨right.x, left.y⟩ else left
  right := if compacted ∧ ¬ right.x ≥ left.x then ⟨left.x, right.y⟩ else right
  rightLeftx := leftx
  rightBottomy := bottomy + median
  dead := {
    width := |right.x - left.x|
    height := if right.x ≥ left.x then left.y else right.y
    leftx := leftx + min left.x right.x
    bottomy := bottomy + if right.x ≥ left.x then 0 else left.y }
  compacted := compacted

/-- The horizontal branch of `recursive_sizing`. -/
def cutHorizontal (compactDead : Bool) (ratio leftx bottomy median : K)
    (self left right : Point K) : Cut K :=
  let (left, right) := absorbHorizontal self left right
  placeHorizontal (compactDead && decide (|right.x - left.x| / min left.x right.x ≤ ratio))
    leftx bottomy median left right

/-- `flp_t` during the sizing, with the count of dead blocks. -/
structure Sizing (K : Type) where
  nUnits : ℕ
  units : List (Rect K)
  deadCount : ℕ

/-- A write to `flp->units`. -/
def Sizing.write (s : Sizing K) (i : ℕ) (r : Rect K) : Option (Sizing K) :=
  if i < s.units.length then some { s with units := s.units.set i r } else none

/-- The dead block of a cut: its place is used again if the block was compacted. -/
def Sizing.addDead (s : Sizing K) (c : Cut K) : Option (Sizing K) :=
  (s.write ((s.nUnits + 1) / 2 + s.deadCount) c.dead).map fun s' =>
    if c.compacted then s' else { s' with deadCount := s'.deadCount + 1 }

/-- `recursive_sizing`; `curve` is the curve of the node as its parent left it. -/
def recursiveSizing (compactDead : Bool) (ratio : K) :
    TreeNode K → List (Point K) → ℕ → K → K → Sizing K → Option (Sizing K)
  | .leaf _ unit, curve, pos, leftx, bottomy, s => do
      let self ← curve[pos]?
      s.write unit ⟨leftx, bottomy, self.x, self.y⟩
  | .cut sums cutType left right, curve, pos, leftx, bottomy, s => do
      let self ← curve[pos]?
      let (_, origin) ← sums[pos]?
      let l ← left.curve[origin.leftPos]?
      let r ← right.curve[origin.rightPos]?
      let c :=
        if cutType = CUT_VERTICAL then
          cutVertical compactDead ratio leftx bottomy origin.median self l r
        else cutHorizontal compactDead ratio leftx bottomy origin.median self l r
      let s ← s.addDead c
      let s ← recursiveSizing compactDead ratio left (left.curve.set origin.leftPos c.left)
        origin.leftPos leftx bottomy s
      recursiveSizing compactDead ratio right (right.curve.set origin.rightPos c.right)
        origin.rightPos c.rightLeftx c.rightBottomy s

/-- `tree_to_flp`: the floorplan and the number of compacted dead blocks. -/
def treeToFlp (compactDead : Bool) (ratio : K) (root : TreeNode K) (flp : List (Rect K)) :
    Option (List (Rect K) × ℤ) := do
  let s ← recursiveSizing compactDead ratio root root.curve (minAreaPos root.curve) 0 0
    ⟨flp.length, flp, 0⟩
  let compacted : ℤ := ((s.nUnits : ℤ) - 1) / 2 - s.deadCount
  return (s.units.take (s.nUnits - compacted).toNat, compacted)

end GpuHotSpot.HotSpotTool.Slicing
