import GpuHotSpot.Lib.Tiling
import Mathlib.Algebra.BigOperators.Ring.List
import Mathlib.Data.List.Nodup
import Mathlib.Data.List.ProdSigma
import Mathlib.Tactic.Ring

/-!
# Grids

Two increasing sequences of lines cut the plane into cells. A rectangle between lines is tiled by
its cells; and where rectangles between lines tile what all lines span, every cell lies in one.

* `Span.tiles_cells`: the cells of a rectangle tile it.
* `Span.sum_cells`: their areas add up.
* `perm_cells`: the cells of the parts of a tiling are all cells.
-/

namespace GpuHotSpot

variable {K : Type} [Field K] [LinearOrder K]

/-- A rectangle between lines, by the numbers of the lines. -/
structure Span where
  left : ℕ
  right : ℕ
  bottom : ℕ
  top : ℕ

/-- The cell between two lines and the next ones. -/
def cell (f g : ℕ → K) (p : ℕ × ℕ) : Rect K :=
  ⟨f p.1, g p.2, f (p.1 + 1) - f p.1, g (p.2 + 1) - g p.2⟩

namespace Span

def rect (f g : ℕ → K) (s : Span) : Rect K :=
  ⟨f s.left, g s.bottom, f s.right - f s.left, g s.top - g s.bottom⟩

/-- The cells, column by column. -/
def cells (s : Span) : List (ℕ × ℕ) :=
  (List.range' s.left (s.right - s.left)).product (List.range' s.bottom (s.top - s.bottom))

theorem mem_cells {s : Span} {p : ℕ × ℕ} :
    p ∈ s.cells ↔ (s.left ≤ p.1 ∧ p.1 < s.right) ∧ s.bottom ≤ p.2 ∧ p.2 < s.top := by
  rw [cells, List.pair_mem_product, List.mem_range'_1, List.mem_range'_1]
  omega

end Span

/-! ## The cells of a rectangle -/

section Cells

variable [IsStrictOrderedRing K] {f g : ℕ → K}

/-- Cells one above the other. -/
theorem tiles_column {x w : K} (wide : 0 ≤ w) {c n : ℕ}
    (mono : MonotoneOn g (Set.Icc c (c + n + 1))) :
    Tiles ⟨x, g c, w, g (c + n + 1) - g c⟩
      ((List.range' c (n + 1)).map fun q => ⟨x, g q, w, g (q + 1) - g q⟩) := by
  induction n generalizing c with
  | zero =>
    exact tiles_self wide (sub_nonneg.mpr (mono ⟨le_rfl, by omega⟩ ⟨by omega, le_rfl⟩ (by omega)))
  | succ n ih =>
    have first : 0 ≤ g (c + 1) - g c :=
      sub_nonneg.mpr (mono ⟨le_rfl, by omega⟩ ⟨by omega, by omega⟩ (by omega))
    have others : 0 ≤ g (c + (n + 1) + 1) - g (c + 1) :=
      sub_nonneg.mpr (mono ⟨by omega, by omega⟩ ⟨by omega, le_rfl⟩ (by omega))
    have upper := ih (c := c + 1) (mono.mono fun i ⟨low, high⟩ => ⟨by omega, by omega⟩)
    rw [show c + 1 + n + 1 = c + (n + 1) + 1 by omega] at upper
    have cut := tiles_rows (x := x) (y := g c) wide first others
    rw [sub_add_sub_cancel', add_sub_cancel] at cut
    have finer := cut.refine_all (.cons (tiles_self wide first) (.cons upper .nil))
    rwa [List.flatten_cons, List.flatten_cons, List.flatten_nil, List.append_nil] at finer

/-- Columns side by side, each with the same rows. -/
theorem tiles_columns_rows {a m c n : ℕ} (across : MonotoneOn f (Set.Icc a (a + m + 1)))
    (along : MonotoneOn g (Set.Icc c (c + n + 1))) :
    Tiles ⟨f a, g c, f (a + m + 1) - f a, g (c + n + 1) - g c⟩
      (((List.range' a (m + 1)).product (List.range' c (n + 1))).map (cell f g)) := by
  have height : 0 ≤ g (c + n + 1) - g c :=
    sub_nonneg.mpr (along ⟨le_rfl, by omega⟩ ⟨by omega, le_rfl⟩ (by omega))
  induction m generalizing a with
  | zero =>
    have wide : 0 ≤ f (a + 1) - f a :=
      sub_nonneg.mpr (across ⟨le_rfl, by omega⟩ ⟨by omega, le_rfl⟩ (by omega))
    have column := tiles_column (x := f a) wide along
    simpa [List.product, cell, Function.comp_def] using column
  | succ m ih =>
    have first : 0 ≤ f (a + 1) - f a :=
      sub_nonneg.mpr (across ⟨le_rfl, by omega⟩ ⟨by omega, by omega⟩ (by omega))
    have others : 0 ≤ f (a + (m + 1) + 1) - f (a + 1) :=
      sub_nonneg.mpr (across ⟨by omega, by omega⟩ ⟨by omega, le_rfl⟩ (by omega))
    have right := ih (a := a + 1) (across.mono fun i ⟨low, high⟩ => ⟨by omega, by omega⟩)
    rw [show a + 1 + m + 1 = a + (m + 1) + 1 by omega] at right
    have cut := tiles_columns (x := f a) (y := g c) first others height
    rw [sub_add_sub_cancel', add_sub_cancel] at cut
    have finer := cut.refine_all (.cons (tiles_column first along) (.cons right .nil))
    rw [List.flatten_cons, List.flatten_cons, List.flatten_nil, List.append_nil] at finer
    rw [List.range'_succ, List.product, List.flatMap_cons, List.map_append, List.map_map]
    exact finer

/-- **The cells of a rectangle** tile it. -/
theorem Span.tiles_cells {s : Span} (wide : s.left < s.right) (high : s.bottom < s.top)
    (across : MonotoneOn f (Set.Icc s.left s.right))
    (along : MonotoneOn g (Set.Icc s.bottom s.top)) :
    Tiles (s.rect f g) (s.cells.map (cell f g)) := by
  obtain ⟨m, columns⟩ := Nat.exists_eq_add_of_lt wide
  obtain ⟨n, rows⟩ := Nat.exists_eq_add_of_lt high
  rw [columns] at across
  rw [rows] at along
  rw [cells, rect, show s.right - s.left = m + 1 by omega, show s.top - s.bottom = n + 1 by omega,
    columns, rows]
  exact tiles_columns_rows across along

end Cells

/-! ## The cells of a tiling -/

/-- A rectangle of some columns and rows, before the last lines. -/
structure Span.Fits (s : Span) (columns rows : ℕ) : Prop where
  wide : s.left < s.right
  right : s.right ≤ columns
  high : s.bottom < s.top
  top : s.top ≤ rows

section Tiling

variable [IsStrictOrderedRing K] {f g : ℕ → K} {columns rows : ℕ} {r : Rect K} {spans : List Span}
variable (across : StrictMonoOn f (Set.Iic columns)) (along : StrictMonoOn g (Set.Iic rows))
variable (fits : ∀ s ∈ spans, s.Fits columns rows)
variable (tiles : Tiles r (spans.map fun s => s.rect f g))

include across along in
theorem cell_pos {p : ℕ × ℕ} (column : p.1 < columns) (row : p.2 < rows) :
    0 < (cell f g p).width ∧ 0 < (cell f g p).height :=
  ⟨sub_pos.mpr (across column.le column (Nat.lt_succ_self _)),
    sub_pos.mpr (along row.le row (Nat.lt_succ_self _))⟩

include across along fits tiles

/-- **The cells of the parts** tile what the parts tile. -/
theorem tiles_flatMap_cells : Tiles r ((spans.flatMap Span.cells).map (cell f g)) := by
  have each : List.Forall₂ Tiles (spans.map fun s => s.rect f g)
      (spans.map fun s => s.cells.map (cell f g)) := by
    refine List.forall₂_map_left_iff.mpr (List.forall₂_map_right_iff.mpr ?_)
    refine List.forall₂_same.mpr fun s member => ?_
    have inside := fits s member
    refine Span.tiles_cells inside.wide inside.high (across.monotoneOn.mono ?_)
      (along.monotoneOn.mono ?_)
    · exact fun i between => between.2.trans inside.right
    · exact fun i between => between.2.trans inside.top
  have finer := tiles.refine_all each
  rwa [← List.flatMap_def, ← List.map_flatMap] at finer

omit [Field K] [LinearOrder K] [IsStrictOrderedRing K] across along tiles in
theorem mem_flatMap_cells_lt {p : ℕ × ℕ} (member : p ∈ spans.flatMap Span.cells) :
    p.1 < columns ∧ p.2 < rows := by
  obtain ⟨s, part, inside⟩ := List.mem_flatMap.mp member
  obtain ⟨column, row⟩ := Span.mem_cells.1 inside
  exact ⟨column.2.trans_le (fits s part).right, row.2.trans_le (fits s part).top⟩

/-- No cell is in two parts. -/
theorem nodup_flatMap_cells : (spans.flatMap Span.cells).Nodup := by
  have apart := List.pairwise_map.mp (tiles_flatMap_cells across along fits tiles).apart
  refine apart.imp_of_mem fun {p q} pMember _ apart same => ?_
  subst same
  obtain ⟨column, row⟩ := mem_flatMap_cells_lt fits pMember
  obtain ⟨wide, high⟩ := cell_pos across along column row
  exact Rect.not_apart ⟨wide, high⟩ ⟨wide, high⟩ (by linarith) (by linarith) (by linarith)
    (by linarith) apart

/-- **All cells.** Where the parts tile what the lines span, their cells are all cells. -/
theorem perm_cells (left : r.leftx ≤ f 0) (right : f columns ≤ r.leftx + r.width)
    (bottom : r.bottomy ≤ g 0) (top : g rows ≤ r.bottomy + r.height) :
    (spans.flatMap Span.cells).Perm ((List.range columns).product (List.range rows)) := by
  refine (List.perm_ext_iff_of_nodup (nodup_flatMap_cells across along fits tiles)
    (List.Nodup.product List.nodup_range List.nodup_range)).mpr fun p => ?_
  refine Iff.trans ?_ (List.pair_mem_product.trans (and_congr List.mem_range List.mem_range)).symm
  refine ⟨mem_flatMap_cells_lt fits, fun ⟨column, row⟩ => ?_⟩
  -- the part at a point of the cell
  obtain ⟨x, afterLine, beforeLine⟩ := exists_between (across column.le column (Nat.lt_succ_self _))
  obtain ⟨y, overLine, underLine⟩ := exists_between (along row.le row (Nat.lt_succ_self _))
  have inside : r.Contains x y := by
    have first := across.monotoneOn (Nat.zero_le columns) column.le (Nat.zero_le p.1)
    have last := across.monotoneOn column (le_refl columns) column
    have lowest := along.monotoneOn (Nat.zero_le rows) row.le (Nat.zero_le p.2)
    have highest := along.monotoneOn row (le_refl rows) row
    refine ⟨?_, ?_, ?_, ?_⟩ <;> linarith
  obtain ⟨q, part, atLeft, atRight, atBottom, atTop⟩ := (tiles.covers x y).mp inside
  obtain ⟨s, member, rfl⟩ := List.mem_map.mp part
  obtain ⟨wide, sRight, high, sTop⟩ := fits s member
  simp only [Span.rect, add_sub_cancel] at atLeft atRight atBottom atTop
  refine List.mem_flatMap.mpr ⟨s, member, Span.mem_cells.2 ⟨⟨?_, ?_⟩, ?_, ?_⟩⟩
  · exact Nat.lt_succ_iff.mp ((across.lt_iff_lt (wide.le.trans sRight) column).mp
      (atLeft.trans_lt beforeLine))
  · exact (across.lt_iff_lt column.le sRight).mp (afterLine.trans_le atRight)
  · exact Nat.lt_succ_iff.mp ((along.lt_iff_lt (high.le.trans sTop) row).mp
      (atBottom.trans_lt underLine))
  · exact (along.lt_iff_lt row.le sTop).mp (overLine.trans_le atTop)

end Tiling

/-! ## Areas -/

section Areas

omit [LinearOrder K] in
theorem sum_steps (f : ℕ → K) (c n : ℕ) :
    ((List.range' c n).map fun q => f (q + 1) - f q).sum = f (c + n) - f c := by
  induction n generalizing c with
  | zero => simp
  | succ n ih =>
    rw [List.range'_succ, List.map_cons, List.sum_cons, ih, show c + 1 + n = c + (n + 1) by omega]
    ring

omit [LinearOrder K] in
/-- **The areas of the cells** add up to that of the rectangle. -/
theorem Span.sum_cells (f g : ℕ → K) {s : Span} (wide : s.left ≤ s.right) (high : s.bottom ≤ s.top) :
    (s.cells.map fun p => (cell f g p).width * (cell f g p).height).sum =
      (s.rect f g).width * (s.rect f g).height := by
  have column (x : K) : ((List.range' s.bottom (s.top - s.bottom)).map
      fun q => x * (g (q + 1) - g q)).sum = x * (g s.top - g s.bottom) := by
    rw [List.sum_map_mul_left, sum_steps, Nat.add_sub_cancel' high]
  simp only [cells, List.product, List.flatMap_def, List.map_flatten, List.sum_flatten,
    List.map_map, Function.comp_def, cell, column]
  rw [List.sum_map_mul_right, sum_steps, Nat.add_sub_cancel' wide]
  rfl

end Areas

end GpuHotSpot
