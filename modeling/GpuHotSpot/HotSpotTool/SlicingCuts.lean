import GpuHotSpot.HotSpotTool.SlicingTree
import Mathlib.Tactic.Ring

/-!
# One cut of a slicing tree

The sum of two shape curves and the sizing at a single cut: the rectangle of the cut is
tiled by the rectangles of the two children and the dead block, unless the latter is
compacted away.

* `mem_shapeAdd`: where an entry of a sum comes from.
* `cutVertical_tiles`, `cutHorizontal_tiles`: the tiling at one cut.
-/

namespace GpuHotSpot.HotSpotTool.Slicing

open Polish

variable {K : Type}

/-! ## Sums of shape curves -/

section Sums

variable {first : Point K → Point K → Bool}
  {entry : ℕ → ℕ → Point K → Point K → Point K × Origin K} {shape1 shape2 : List (Point K)}
  {i j : ℕ}

theorem mem_addLoop {e : Point K × Origin K} (member : e ∈ addLoop first entry i j shape1 shape2) :
    ∃ k l a b, shape1[k]? = some a ∧ shape2[l]? = some b ∧ e = entry (i + k) (j + l) a b := by
  induction i, j, shape1, shape2 using addLoop.induct with
  | case1 i j a shape1 b shape2 ihLeft ihRight =>
    rw [addLoop] at member
    rcases List.mem_cons.mp member with rfl | later
    · exact ⟨0, 0, a, b, rfl, rfl, rfl⟩
    · split_ifs at later with moved
      · obtain ⟨k, l, a', b', left, right, rfl⟩ := ihLeft later
        exact ⟨k + 1, l, a', b', left, right, by rw [Nat.add_right_comm i 1 k]; rfl⟩
      · obtain ⟨k, l, a', b', left, right, rfl⟩ := ihRight later
        exact ⟨k, l + 1, a', b', left, right, by rw [Nat.add_right_comm j 1 l]; rfl⟩
  | case2 => simp [addLoop] at member
  | case3 => simp [addLoop] at member

theorem addLoop_ne_nil (left : shape1 ≠ []) (right : shape2 ≠ []) :
    addLoop first entry i j shape1 shape2 ≠ [] := by
  obtain ⟨a, shape1, rfl⟩ := List.exists_cons_of_ne_nil left
  obtain ⟨b, shape2, rfl⟩ := List.exists_cons_of_ne_nil right
  rw [addLoop]
  exact List.cons_ne_nil _ _

variable [Field K] [LinearOrder K]

theorem shapeAdd_ne_nil {cutType : ℤ} (left : shape1 ≠ []) (right : shape2 ≠ []) :
    shapeAdd shape1 shape2 cutType ≠ [] := by
  rw [shapeAdd]
  split_ifs
  · exact addLoop_ne_nil left right
  · simpa using addLoop_ne_nil (by simpa using left) (by simpa using right)

/-- The entry `p` with its origin is the sum of two entries of the curves. -/
structure IsSum (cutType : ℤ) (shape1 shape2 : List (Point K)) (p : Point K) (o : Origin K)
    (a b : Point K) : Prop where
  left : shape1[o.leftPos]? = some a
  right : shape2[o.rightPos]? = some b
  vertical : cutType = CUT_VERTICAL → p = ⟨a.x + b.x, max a.y b.y⟩ ∧ o.median = a.x
  horizontal : cutType ≠ CUT_VERTICAL → p = ⟨max a.x b.x, a.y + b.y⟩ ∧ o.median = a.y

/-- An entry of a sum comes from one entry of each curve. -/
theorem mem_shapeAdd {cutType : ℤ} {p : Point K} {o : Origin K}
    (member : (p, o) ∈ shapeAdd shape1 shape2 cutType) :
    ∃ a b, IsSum cutType shape1 shape2 p o a b := by
  rw [shapeAdd] at member
  split_ifs at member with vertical
  · obtain ⟨k, l, a, b, left, right, same⟩ := mem_addLoop member
    rw [Prod.mk.injEq, Nat.zero_add, Nat.zero_add] at same
    obtain ⟨rfl, rfl⟩ := same
    exact ⟨a, b, left, right, fun _ => ⟨rfl, rfl⟩, fun other => absurd vertical other⟩
  · obtain ⟨k, l, a, b, left, right, same⟩ := mem_addLoop (List.mem_reverse.mp member)
    rw [Prod.mk.injEq, Nat.zero_add, Nat.zero_add] at same
    obtain ⟨rfl, rfl⟩ := same
    obtain ⟨inside, -⟩ := List.getElem?_eq_some_iff.mp left
    obtain ⟨inside', -⟩ := List.getElem?_eq_some_iff.mp right
    rw [List.length_reverse] at inside inside'
    rw [List.getElem?_reverse inside] at left
    rw [List.getElem?_reverse inside'] at right
    exact ⟨a, b, left, right, fun other => absurd other vertical, fun _ => ⟨rfl, rfl⟩⟩

end Sums

/-! ## The rectangles at a cut -/

variable [Field K] [LinearOrder K]

/-- The rectangle of an entry placed at a corner. -/
def Point.at (p : Point K) (leftx bottomy : K) : Rect K := ⟨leftx, bottomy, p.x, p.y⟩

/-- The blocks a cut leaves for the dead space. -/
def Cut.deadBlocks (c : Cut K) : List (Rect K) := if c.compacted then [] else [c.dead]

/-- What the sizing at a cut achieves inside the rectangle of the cut: both children grow, and
with the dead space they tile it. -/
structure Cut.Splits (c : Cut K) (leftx bottomy : K) (whole left right : Point K) : Prop where
  leftGrows : left.x ≤ c.left.x ∧ left.y ≤ c.left.y
  rightGrows : right.x ≤ c.right.x ∧ right.y ≤ c.right.y
  tiles : Tiles (whole.at leftx bottomy)
    (c.left.at leftx bottomy :: c.right.at c.rightLeftx c.rightBottomy :: c.deadBlocks)

theorem ite_excess {a b : K} (least : b ≤ a) : (if a > b then a - b else 0) = a - b := by
  split_ifs with more
  · rfl
  · rw [le_antisymm (not_lt.mp more) least, sub_self]

variable {leftx bottomy : K} {l r : Point K}

/-- Space absorbed by both children of a vertical cut. -/
theorem absorbVertical_eq {self : Point K} (wide : l.x + r.x ≤ self.x)
    (high : max l.y r.y ≤ self.y) :
    absorbVertical self l r =
      (⟨l.x, l.y + (self.y - max l.y r.y)⟩, ⟨self.x - l.x, r.y + (self.y - max l.y r.y)⟩) := by
  simp only [absorbVertical, ite_excess wide, ite_excess high]
  congr 2
  ring

variable [IsStrictOrderedRing K]

/-- A rectangle of a given height over a lower one. -/
theorem tiles_under {w h high : K} (width : 0 ≤ w) (bottom : 0 ≤ h) (under : h ≤ high) :
    Tiles ⟨leftx, bottomy, w, high⟩ [⟨leftx, bottomy, w, h⟩, ⟨leftx, bottomy + h, w, high - h⟩] := by
  have tiles := tiles_rows (x := leftx) (y := bottomy) width bottom (sub_nonneg.mpr under)
  rwa [add_sub_cancel] at tiles

/-- The children of a vertical cut and the dead block tile the rectangle around the children. -/
theorem placeVertical_splits (compacted : Bool) (leftx bottomy : K) (left : 0 ≤ l.x ∧ 0 ≤ l.y)
    (right : 0 ≤ r.x ∧ 0 ≤ r.y) :
    (placeVertical compacted leftx bottomy l.x l r).Splits leftx bottomy
      ⟨l.x + r.x, max l.y r.y⟩ l r := by
  have columns : Tiles ⟨leftx, bottomy, l.x + r.x, max l.y r.y⟩
      [⟨leftx, bottomy, l.x, max l.y r.y⟩, ⟨leftx + l.x, bottomy, r.x, max l.y r.y⟩] :=
    tiles_columns left.1 right.1 (le_max_of_le_left left.2)
  by_cases lower : r.y ≥ l.y
  · rw [max_eq_right lower] at columns ⊢
    have height : |r.y - l.y| = r.y - l.y := abs_of_nonneg (sub_nonneg.mpr lower)
    cases compacted with
    | true =>
      simp only [placeVertical, lower, and_self, if_true, not_true, and_false, if_false]
      exact ⟨⟨le_rfl, lower⟩, ⟨le_rfl, le_rfl⟩, columns⟩
    | false =>
      simp only [placeVertical, lower, if_true, Bool.false_eq_true, false_and, if_false, height,
        min_eq_left lower, add_zero]
      refine ⟨⟨le_rfl, le_rfl⟩, ⟨le_rfl, le_rfl⟩, ?_⟩
      have tiles := columns.refine (tiles_under left.1 left.2 lower)
      exact tiles.perm ((List.Perm.swap _ _ _).cons _)
  · have upper := (not_le.mp lower).le
    rw [max_eq_left upper] at columns ⊢
    have height : |r.y - l.y| = l.y - r.y := by
      rw [abs_sub_comm]
      exact abs_of_nonneg (sub_nonneg.mpr upper)
    cases compacted with
    | true =>
      simp only [placeVertical, lower, and_false, if_false, not_false_iff, and_self, if_true]
      exact ⟨⟨le_rfl, le_rfl⟩, ⟨le_rfl, upper⟩, columns⟩
    | false =>
      simp only [placeVertical, lower, Bool.false_eq_true, false_and, if_false, height,
        min_eq_right upper]
      refine ⟨⟨le_rfl, le_rfl⟩, ⟨le_rfl, le_rfl⟩, ?_⟩
      have tiles := (columns.perm (List.Perm.swap _ _ _)).refine
        (tiles_under right.1 right.2 upper)
      exact tiles.perm (((List.Perm.swap _ _ _).cons _).trans (List.Perm.swap _ _ _))

/-- **A vertical cut.** -/
theorem cutVertical_splits {self : Point K} (compactDead : Bool) (ratio : K)
    (left : 0 ≤ l.x ∧ 0 ≤ l.y) (right : 0 ≤ r.x ∧ 0 ≤ r.y) (wide : l.x + r.x ≤ self.x)
    (high : max l.y r.y ≤ self.y) :
    (cutVertical compactDead ratio leftx bottomy l.x self l r).Splits leftx bottomy self l r := by
  have grown : 0 ≤ self.y - max l.y r.y := sub_nonneg.mpr high
  have wider : r.x ≤ self.x - l.x := by linarith
  rw [cutVertical, absorbVertical_eq wide high]
  generalize extra : self.y - max l.y r.y = e at grown
  have splits := placeVertical_splits (l := ⟨l.x, l.y + e⟩) (r := ⟨self.x - l.x, r.y + e⟩)
    (compactDead && decide (|r.y + e - (l.y + e)| / min (l.y + e) (r.y + e) ≤ ratio)) leftx bottomy
    ⟨left.1, add_nonneg left.2 grown⟩ ⟨right.1.trans wider, add_nonneg right.2 grown⟩
  have same : (⟨l.x + (self.x - l.x), max (l.y + e) (r.y + e)⟩ : Point K) = self := by
    rw [max_add_add_right, ← extra, add_sub_cancel, add_sub_cancel]
  rw [same] at splits
  exact ⟨⟨splits.leftGrows.1, (le_add_of_nonneg_right grown).trans splits.leftGrows.2⟩,
    ⟨wider.trans splits.rightGrows.1, (le_add_of_nonneg_right grown).trans splits.rightGrows.2⟩,
    splits.tiles⟩

/-! ## The other direction -/

def Point.transpose (p : Point K) : Point K := ⟨p.y, p.x⟩

def Cut.transpose (c : Cut K) : Cut K where
  left := c.left.transpose
  right := c.right.transpose
  rightLeftx := c.rightBottomy
  rightBottomy := c.rightLeftx
  dead := c.dead.transpose
  compacted := c.compacted

omit [IsStrictOrderedRing K] in
/-- The two branches of the sizing mirror each other. -/
theorem placeHorizontal_eq (compacted : Bool) (leftx bottomy median : K) (l r : Point K) :
    placeHorizontal compacted leftx bottomy median l r =
      (placeVertical compacted bottomy leftx median l.transpose r.transpose).transpose := by
  simp only [placeHorizontal, placeVertical, Cut.transpose, Rect.transpose]
  rw [apply_ite Point.transpose, apply_ite Point.transpose]
  rfl

omit [IsStrictOrderedRing K] in
theorem cutHorizontal_eq (compactDead : Bool) (ratio leftx bottomy median : K)
    (self l r : Point K) :
    cutHorizontal compactDead ratio leftx bottomy median self l r =
      (cutVertical compactDead ratio bottomy leftx median self.transpose l.transpose
        r.transpose).transpose :=
  placeHorizontal_eq _ leftx bottomy median _ _

/-- **A horizontal cut.** -/
theorem cutHorizontal_splits {self : Point K} (compactDead : Bool) (ratio : K)
    (left : 0 ≤ l.x ∧ 0 ≤ l.y) (right : 0 ≤ r.x ∧ 0 ≤ r.y) (high : l.y + r.y ≤ self.y)
    (wide : max l.x r.x ≤ self.x) :
    (cutHorizontal compactDead ratio leftx bottomy l.y self l r).Splits leftx bottomy self l r := by
  have mirrored : (cutVertical compactDead ratio bottomy leftx l.transpose.x self.transpose
      l.transpose r.transpose).Splits bottomy leftx self.transpose l.transpose r.transpose :=
    cutVertical_splits compactDead ratio left.symm right.symm high wide
  rw [cutHorizontal_eq]
  refine ⟨mirrored.leftGrows.symm, mirrored.rightGrows.symm, ?_⟩
  have tiles := mirrored.tiles.transpose
  have dead : ∀ c : Cut K, c.deadBlocks.map Rect.transpose = c.transpose.deadBlocks := by
    intro c
    rw [Cut.deadBlocks, Cut.deadBlocks]
    split_ifs with compacted compacted' compacted'
    · rfl
    · exact absurd compacted compacted'
    · exact absurd compacted' compacted
    · rfl
  rw [List.map_cons, List.map_cons, dead] at tiles
  exact tiles

end GpuHotSpot.HotSpotTool.Slicing
