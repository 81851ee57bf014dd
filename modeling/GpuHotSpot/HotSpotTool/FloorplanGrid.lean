import GpuHotSpot.HotSpotTool.Floorplan
import GpuHotSpot.HotSpotTool.SortedArrays
import GpuHotSpot.HotSpotTool.TraceFile
import GpuHotSpot.Lib.Segments
import GpuHotSpot.Lib.TilingGrid

/-!
# Grids for floorplans

`flp_create_grid` cuts a floorplan along all edges of its units, and `xlate_power_blkgrid` spreads
the power of a unit over its cells. The edges are kept in two arrays of `MAX_UNITS` entries; their
number is not compared with that bound.

* `sortEdges_spec`: the arrays list the edges, or overflow.
* `gridEquivalent_iff`: the grid is equivalent to the floorplan when the arrays have room.
-/

namespace GpuHotSpot.HotSpotTool.Flp

variable {K : Type} [Field K] [LinearOrder K]

/-- How `flp_create_grid` ends without a grid: in `fatal`, or by a write past the end of an array. -/
inductive GridStop where
  | fatal (message : String)
  | overflow
  deriving DecidableEq

/-! ## The grid -/

/-- A call of `bsearch_insert_double` on one of the arrays, whose size it may increase. -/
def insertEdge (c : Coordinates K) (ele : K) : Except GridStop (Coordinates K) :=
  match bsearchInsertDouble c.entry c.size ele with
  | (true, arr) => if c.size < maxUnits then .ok ⟨arr, c.size + 1⟩ else .error .overflow
  | (false, _) => .ok c

/-- The boundary coordinates of one unit. -/
def sortUnit (edges : Coordinates K × Coordinates K) (unit : PlacedUnit K) :
    Except GridStop (Coordinates K × Coordinates K) := do
  let (x, y) := edges
  let r := unit.leftx + unit.width
  let t := unit.bottomy + unit.height
  let x ← insertEdge x unit.leftx
  let y ← insertEdge y unit.bottomy
  let x ← insertEdge x r
  let y ← insertEdge y t
  return (x, y)

/-- The loop over the units that sorts their boundary coordinates. -/
def sortEdges (units : List (PlacedUnit K)) :
    Except GridStop (Coordinates K × Coordinates K) :=
  units.foldlM sortUnit (⟨fun _ => 0, 0⟩, ⟨fun _ => 0, 0⟩)

/-- A call of `bsearch_double` that has to find the edge. -/
def findEdge (c : Coordinates K) (ele : K) : Except GridStop ℕ :=
  match bsearchDouble c.entry 0 c.size ele with
  | (true, loc) => .ok loc
  | (false, _) => .error (.fatal "invalid sorted arrays\n")

/-- `xstart`, `xend`, `ystart` and `yend` of a unit. -/
def gridSpan (x y : Coordinates K) (unit : Rect K) : Except GridStop Span := do
  let xstart ← findEdge x unit.leftx
  let xend ← findEdge x (unit.leftx + unit.width)
  let ystart ← findEdge y unit.bottomy
  let yend ← findEdge y (unit.bottomy + unit.height)
  return ⟨xstart, xend, ystart, yend⟩

/-- One pass of the loops over the lines in a unit: the units of the grid, the row of the map and
`grid_num`. -/
def addCell (x y : Coordinates K) (name : Text)
    (state : List (PlacedUnit K) × List ℕ × ℕ) (p : ℕ × ℕ) :
    List (PlacedUnit K) × List ℕ × ℕ :=
  let (grid, row, gridNum) := state
  if grid.any fun c => c.leftx = x.entry p.1 ∧ c.bottomy = y.entry p.2 then state
  else (grid ++ [⟨cell x.entry y.entry p, name ++ "_".toList ++ Nat.toDigits 10 gridNum⟩],
    row ++ [grid.length], gridNum + 1)

/-- The cells of one unit. -/
def populateUnit (x y : Coordinates K) (state : List (PlacedUnit K) × List (List ℕ))
    (unit : PlacedUnit K) : Except GridStop (List (PlacedUnit K) × List (List ℕ)) := do
  let (grid, map) := state
  let span ← gridSpan x y unit.toRect
  let (grid, row, _) := span.cells.foldl (addCell x y unit.name) (grid, [], 0)
  return (grid, map ++ [row])

/-- The loop over the units that fills the grid and the map. -/
def populateGrid (x y : Coordinates K) (units : List (PlacedUnit K)) :
    Except GridStop (List (PlacedUnit K) × List (List ℕ)) :=
  units.foldlM (populateUnit x y) ([], [])

/-- The wire densities of the grid. -/
def gridDensity (flp : Floorplan K) (map : List (List ℕ)) : ℕ → ℕ → K :=
  (List.range flp.units.length).foldl (fun density i =>
    (List.range flp.units.length).foldl (fun density j =>
      (map.getD i []).foldl (fun density p =>
        (map.getD j []).foldl (fun density q => setDensity density p q (flp.wireDensity i j))
          density) density) density) fun _ _ => 0

/-- `flp_create_grid`: the grid and the map. -/
def flpCreateGrid (flp : Floorplan K) : Except GridStop (Floorplan K × List (List ℕ)) := do
  let (x, y) ← sortEdges flp.units
  let (grid, map) ← populateGrid x y flp.units
  if (grid.length : ℤ) = ((x.size : ℤ) - 1) * ((y.size : ℤ) - 1) then
    return (⟨grid, gridDensity flp map⟩, map)
  else .error (.fatal "mismatch in the no. of units\n")

/-- `xlate_power_blkgrid`. -/
def xlatePowerBlkgrid (flp grid : List (Rect K)) (map : List (List ℕ)) (bpower gpower : ℕ → K) :
    ℕ → K :=
  (List.range flp.length).foldl (fun gpower i =>
    (map.getD i []).foldl (fun gpower c =>
      -- retain the power density
      Function.update gpower c
        (bpower i / ((Block.unit flp i).width * (Block.unit flp i).height) *
          (Block.unit grid c).width * (Block.unit grid c).height)) gpower) gpower

/-! ## Edges -/

/-- The distinct coordinates of vertical edges. -/
def xEdges (flp : List (Rect K)) : Finset K :=
  (flp.flatMap fun u => [u.leftx, u.leftx + u.width]).toFinset

/-- The distinct coordinates of horizontal edges. -/
def yEdges (flp : List (Rect K)) : Finset K :=
  (flp.flatMap fun u => [u.bottomy, u.bottomy + u.height]).toFinset

section Sorting

variable [IsStrictOrderedRing K] {c x y : Coordinates K} {s t X Y : Finset K} {v : K}

/-- The array lists the set within its bounds. -/
def Coordinates.Holds (c : Coordinates K) (s : Finset K) : Prop :=
  c.Lists s ∧ s.card ≤ maxUnits

/-- An array either gets an edge, or has no room for all. -/
theorem insertEdge_spec (holds : Coordinates.Holds c s) (separated : Separated X)
    (within : insert v s ⊆ X) :
    (∃ c', insertEdge c v = .ok c' ∧ Coordinates.Holds c' (insert v s)) ∨
      insertEdge c v = .error .overflow ∧ maxUnits < X.card := by
  obtain ⟨lists, bound⟩ := holds
  have apart : Separated (insert v s) := fun a aMember b bMember =>
    separated a (within aMember) b (within bMember)
  rw [insertEdge]
  rcases lists_insert lists apart with ⟨member, found⟩ | ⟨other, arr, added, longer⟩
  · rw [found, Finset.insert_eq_of_mem member]
    exact .inl ⟨c, rfl, lists, bound⟩
  · rw [added]
    have size := Finset.card_insert_of_notMem other
    rw [← lists.size_eq] at size
    by_cases room : c.size < maxUnits
    · exact .inl ⟨_, if_pos room, longer, by omega⟩
    · have most := Finset.card_le_card within
      exact .inr ⟨if_neg room, by omega⟩

variable (separatedX : Separated X) (separatedY : Separated Y)

include separatedX separatedY

/-- One unit. -/
theorem sortUnit_spec (xHolds : Coordinates.Holds x s) (yHolds : Coordinates.Holds y t)
    (unit : PlacedUnit K) (xWithin : insert (unit.leftx + unit.width) (insert unit.leftx s) ⊆ X)
    (yWithin : insert (unit.bottomy + unit.height) (insert unit.bottomy t) ⊆ Y) :
    (∃ x' y', sortUnit (x, y) unit = .ok (x', y') ∧
      Coordinates.Holds x' (insert (unit.leftx + unit.width) (insert unit.leftx s)) ∧
      Coordinates.Holds y' (insert (unit.bottomy + unit.height) (insert unit.bottomy t))) ∨
      sortUnit (x, y) unit = .error .overflow ∧ (maxUnits < X.card ∨ maxUnits < Y.card) := by
  simp only [sortUnit]
  rcases insertEdge_spec xHolds separatedX ((Finset.subset_insert _ _).trans xWithin) with
    ⟨x₁, left, x₁Holds⟩ | ⟨stopped, full⟩
  · rcases insertEdge_spec yHolds separatedY ((Finset.subset_insert _ _).trans yWithin) with
      ⟨y₁, bottom, y₁Holds⟩ | ⟨stopped, full⟩
    · rcases insertEdge_spec x₁Holds separatedX xWithin with ⟨x₂, right, x₂Holds⟩ | ⟨stopped, full⟩
      · rcases insertEdge_spec y₁Holds separatedY yWithin with ⟨y₂, top, y₂Holds⟩ | ⟨stopped, full⟩
        · rw [left, bottom]
          refine .inl ⟨x₂, y₂, ?_, x₂Holds, y₂Holds⟩
          simp only [bind, Except.bind, right, top, pure, Except.pure]
        · refine .inr ⟨?_, .inr full⟩
          simp only [bind, Except.bind, left, bottom, right, stopped]
      · refine .inr ⟨?_, .inl full⟩
        simp only [bind, Except.bind, left, bottom, stopped]
    · refine .inr ⟨?_, .inr full⟩
      simp only [bind, Except.bind, left, stopped]
  · refine .inr ⟨?_, .inl full⟩
    simp only [bind, Except.bind, stopped]

omit separatedX separatedY [Field K] [IsStrictOrderedRing K] in
theorem union_cons (s : Finset K) (edges : List K) (a b : K) :
    s ∪ (a :: b :: edges).toFinset = insert b (insert a s) ∪ edges.toFinset := by
  ext v
  simp only [Finset.mem_union, Finset.mem_insert, List.toFinset_cons, List.mem_toFinset]
  tauto

/-- All units of a list. -/
theorem foldlM_sortUnit (units : List (PlacedUnit K)) (xHolds : Coordinates.Holds x s)
    (yHolds : Coordinates.Holds y t)
    (xWithin : s ∪ xEdges (units.map fun u => u.toRect) ⊆ X)
    (yWithin : t ∪ yEdges (units.map fun u => u.toRect) ⊆ Y) :
    (∃ x' y', units.foldlM sortUnit (x, y) = .ok (x', y') ∧
      Coordinates.Holds x' (s ∪ xEdges (units.map fun u => u.toRect)) ∧
      Coordinates.Holds y' (t ∪ yEdges (units.map fun u => u.toRect))) ∨
      units.foldlM sortUnit (x, y) = .error .overflow ∧
        (maxUnits < X.card ∨ maxUnits < Y.card) := by
  induction units generalizing x y s t with
  | nil =>
    refine .inl ⟨x, y, rfl, ?_, ?_⟩
    · simpa [xEdges] using xHolds
    · simpa [yEdges] using yHolds
  | cons unit units ih =>
    simp only [xEdges, yEdges, List.map_cons, List.flatMap_cons, List.cons_append,
      List.nil_append, union_cons] at xWithin yWithin ⊢
    rw [List.foldlM_cons]
    rcases sortUnit_spec separatedX separatedY xHolds yHolds unit
      (Finset.subset_union_left.trans xWithin) (Finset.subset_union_left.trans yWithin) with
      ⟨x', y', sorted, x'Holds, y'Holds⟩ | ⟨stopped, full⟩
    · rw [sorted]
      exact ih x'Holds y'Holds xWithin yWithin
    · rw [stopped]
      exact .inr ⟨rfl, full⟩

end Sorting

/-- **The edges** are sorted into the arrays, or one of the arrays overflows. -/
theorem sortEdges_spec [IsStrictOrderedRing K] {units : List (PlacedUnit K)}
    (separatedX : Separated (xEdges (units.map fun u => u.toRect)))
    (separatedY : Separated (yEdges (units.map fun u => u.toRect))) :
    (∃ x y, sortEdges units = .ok (x, y) ∧
      Coordinates.Holds x (xEdges (units.map fun u => u.toRect)) ∧
      Coordinates.Holds y (yEdges (units.map fun u => u.toRect))) ∨
      sortEdges units = .error .overflow ∧
        (maxUnits < (xEdges (units.map fun u => u.toRect)).card ∨
          maxUnits < (yEdges (units.map fun u => u.toRect)).card) := by
  have empty : Coordinates.Holds (⟨fun _ => 0, 0⟩ : Coordinates K) ∅ := by
    refine ⟨⟨fun i j _ size => absurd size (Nat.not_lt_zero j), fun v => ?_⟩, Nat.zero_le _⟩
    simp
  have sorted := foldlM_sortUnit separatedX separatedY units empty empty (Finset.empty_union _).le
    (Finset.empty_union _).le
  rw [Finset.empty_union, Finset.empty_union] at sorted
  exact sorted

/-! ## Cells -/

section Gridding

variable [IsStrictOrderedRing K] {c x y : Coordinates K} {s X Y : Finset K} {v : K}

theorem findEdge_spec (lists : c.Lists s) (separated : Separated s) (member : v ∈ s) :
    ∃ i, findEdge c v = .ok i ∧ i < c.size ∧ c.entry i = v := by
  have search := lists.searched (v := v) (by rwa [Finset.insert_eq_of_mem member])
  rw [findEdge]
  generalize bsearchDouble c.entry 0 c.size v = result at search
  cases search with
  | @found i first last here => exact ⟨i, rfl, by omega, here⟩
  | @absent loc first last below above =>
    obtain ⟨i, size, same⟩ := (lists.mem v).mp member
    rcases lt_or_ge i loc with before | after
    · exact absurd same (below i (by omega) before).ne
    · exact absurd same (above i after (by omega)).ne'

omit [Field K] [IsStrictOrderedRing K] in
theorem strictMonoOn_entry (lists : c.Lists s) (size : 0 < c.size) :
    StrictMonoOn c.entry (Set.Iic (c.size - 1)) := by
  intro i _ j last less
  exact lists.sorted i j less (by
    have := Set.mem_Iic.mp last
    omega)

variable (xLists : x.Lists X) (yLists : y.Lists Y)
variable (separatedX : Separated X) (separatedY : Separated Y)

include xLists yLists separatedX separatedY in
/-- The lines around a unit. -/
theorem gridSpan_spec {u : Rect K} (size : 0 < u.width ∧ 0 < u.height) (left : u.leftx ∈ X)
    (right : u.leftx + u.width ∈ X) (bottom : u.bottomy ∈ Y) (top : u.bottomy + u.height ∈ Y) :
    ∃ span, gridSpan x y u = .ok span ∧ span.rect x.entry y.entry = u ∧
      span.Fits (x.size - 1) (y.size - 1) := by
  obtain ⟨a, leftFound, aSize, atLeft⟩ := findEdge_spec xLists separatedX left
  obtain ⟨b, rightFound, bSize, atRight⟩ := findEdge_spec xLists separatedX right
  obtain ⟨p, bottomFound, pSize, atBottom⟩ := findEdge_spec yLists separatedY bottom
  obtain ⟨q, topFound, qSize, atTop⟩ := findEdge_spec yLists separatedY top
  have columns := strictMonoOn_entry xLists (by omega)
  have rows := strictMonoOn_entry yLists (by omega)
  have wide : x.entry a < x.entry b := by
    rw [atLeft, atRight]
    linarith [size.1]
  have high : y.entry p < y.entry q := by
    rw [atBottom, atTop]
    linarith [size.2]
  refine ⟨⟨a, b, p, q⟩, ?_, ?_, ?_⟩
  · simp only [gridSpan, bind, Except.bind, leftFound, rightFound, bottomFound, topFound, pure,
      Except.pure]
  · simp only [Span.rect, atLeft, atRight, atBottom, atTop, add_sub_cancel_left]
  · exact ⟨(columns.lt_iff_lt (Nat.le_pred_of_lt aSize) (Nat.le_pred_of_lt bSize)).mp wide,
      Nat.le_pred_of_lt bSize,
      (rows.lt_iff_lt (Nat.le_pred_of_lt pSize) (Nat.le_pred_of_lt qSize)).mp high,
      Nat.le_pred_of_lt qSize⟩

/-- The units of the grid are these cells. -/
def Placed (x y : Coordinates K) (grid : List (PlacedUnit K)) (done : List (ℕ × ℕ)) : Prop :=
  grid.map (fun u => u.toRect) = done.map (cell x.entry y.entry)

omit [IsStrictOrderedRing K] in
/-- A cell that is not in the grid gets a unit. -/
theorem addCell_new (columns : StrictMonoOn x.entry (Set.Iic (x.size - 1)))
    (rows : StrictMonoOn y.entry (Set.Iic (y.size - 1))) {grid : List (PlacedUnit K)}
    {done : List (ℕ × ℕ)} (placed : Placed x y grid done)
    (inside : ∀ p ∈ done, p.1 < x.size - 1 ∧ p.2 < y.size - 1) {p : ℕ × ℕ}
    (here : p.1 < x.size - 1 ∧ p.2 < y.size - 1) (fresh : p ∉ done) (name : Text) (row : List ℕ)
    (gridNum : ℕ) :
    ∃ u : PlacedUnit K, addCell x y name (grid, row, gridNum) p =
      (grid ++ [u], row ++ [done.length], gridNum + 1) ∧
      Placed x y (grid ++ [u]) (done ++ [p]) := by
  have length : grid.length = done.length := by simpa using congrArg List.length placed
  have notFound : ¬(grid.any fun c => c.leftx = x.entry p.1 ∧ c.bottomy = y.entry p.2) = true := by
    rw [List.any_eq_true]
    rintro ⟨c, member, found⟩
    obtain ⟨left, bottom⟩ := of_decide_eq_true found
    have rect : c.toRect ∈ done.map (cell x.entry y.entry) := by
      rw [← placed]
      exact List.mem_map_of_mem member
    obtain ⟨q, earlier, same⟩ := List.mem_map.mp rect
    obtain ⟨column, line⟩ := inside q earlier
    refine fresh ?_
    have first : q.1 = p.1 := columns.injOn column.le here.1.le
      ((congrArg Rect.leftx same).trans left)
    have second : q.2 = p.2 := rows.injOn line.le here.2.le
      ((congrArg Rect.bottomy same).trans bottom)
    rwa [← Prod.ext first second]
  refine ⟨⟨cell x.entry y.entry p, name ++ "_".toList ++ Nat.toDigits 10 gridNum⟩, ?_, ?_⟩
  · simp only [addCell]
    rw [if_neg notFound, length]
  · rw [Placed, List.map_append, placed, List.map_append]
    rfl

omit [IsStrictOrderedRing K] in
/-- The cells of a unit, none of which is in the grid. -/
theorem foldl_addCell (columns : StrictMonoOn x.entry (Set.Iic (x.size - 1)))
    (rows : StrictMonoOn y.entry (Set.Iic (y.size - 1))) {grid : List (PlacedUnit K)}
    {done ps : List (ℕ × ℕ)} (placed : Placed x y grid done) (nodup : (done ++ ps).Nodup)
    (inside : ∀ p ∈ done ++ ps, p.1 < x.size - 1 ∧ p.2 < y.size - 1) (name : Text)
    (row : List ℕ) (gridNum : ℕ) :
    ∃ grid', ps.foldl (addCell x y name) (grid, row, gridNum) =
      (grid', row ++ List.range' done.length ps.length, gridNum + ps.length) ∧
      Placed x y grid' (done ++ ps) := by
  induction ps generalizing grid done row gridNum with
  | nil =>
    refine ⟨grid, ?_, ?_⟩
    · simp
    · rwa [List.append_nil]
  | cons p ps ih =>
    have fresh : p ∉ done := fun earlier =>
      List.disjoint_of_nodup_append nodup earlier List.mem_cons_self
    obtain ⟨u, added, longer⟩ := addCell_new columns rows placed
      (fun q earlier => inside q (List.mem_append_left _ earlier))
      (inside p (List.mem_append_right _ List.mem_cons_self)) fresh name row gridNum
    rw [List.append_cons] at nodup inside
    obtain ⟨grid', ran, all⟩ := ih longer nodup inside (row ++ [done.length]) (gridNum + 1)
    refine ⟨grid', ?_, ?_⟩
    · rw [List.foldl_cons, added, ran, List.length_append, List.length_singleton,
        List.append_assoc, List.length_cons, List.range'_succ, List.singleton_append,
        Nat.add_assoc gridNum, Nat.add_comm 1]
    · rwa [List.append_cons]

/-- The lines around the units. -/
def Spanned (x y : Coordinates K) (units : List (PlacedUnit K)) (spans : List Span) : Prop :=
  List.Forall₂ (fun u s => gridSpan x y u.toRect = .ok s ∧ s.rect x.entry y.entry = u.toRect ∧
    s.Fits (x.size - 1) (y.size - 1)) units spans

omit [IsStrictOrderedRing K] in
/-- The cells of all units, none of which is in the grid. -/
theorem foldlM_populateUnit (columns : StrictMonoOn x.entry (Set.Iic (x.size - 1)))
    (rows : StrictMonoOn y.entry (Set.Iic (y.size - 1))) {units : List (PlacedUnit K)}
    {spans : List Span} (spanned : Spanned x y units spans) {grid : List (PlacedUnit K)}
    {done : List (ℕ × ℕ)} (placed : Placed x y grid done)
    (nodup : (done ++ spans.flatMap Span.cells).Nodup)
    (inside : ∀ p ∈ done ++ spans.flatMap Span.cells, p.1 < x.size - 1 ∧ p.2 < y.size - 1)
    (map : List (List ℕ)) :
    ∃ grid', units.foldlM (populateUnit x y) (grid, map) =
      .ok (grid', map ++ segments done.length (spans.map fun s => s.cells.length)) ∧
      Placed x y grid' (done ++ spans.flatMap Span.cells) := by
  induction spanned generalizing grid done map with
  | nil =>
    refine ⟨grid, ?_, ?_⟩
    · simp [segments, pure, Except.pure]
    · simpa using placed
  | @cons unit span units spans around _ ih =>
    rw [List.flatMap_cons, ← List.append_assoc] at nodup inside
    obtain ⟨grid₁, ran, longer⟩ := foldl_addCell columns rows placed
      (List.Nodup.of_append_left nodup)
      (fun q member => inside q (List.mem_append_left _ member)) unit.name [] 0
    obtain ⟨grid', all, every⟩ := ih longer nodup inside
      (map ++ [List.range' done.length span.cells.length])
    refine ⟨grid', ?_, ?_⟩
    · have one : populateUnit x y (grid, map) unit =
          .ok (grid₁, map ++ [List.range' done.length span.cells.length]) := by
        simp only [populateUnit, around.1, bind, Except.bind, ran, pure, Except.pure,
          List.nil_append]
      rw [List.foldlM_cons, one]
      refine all.trans ?_
      rw [List.length_append, List.map_cons, segments, List.append_assoc, List.singleton_append]
    · rwa [List.flatMap_cons, ← List.append_assoc]

end Gridding

/-! ## The equivalent grid -/

/-- The grid has a cell for each pair of neighbouring lines; the cells tile the same rectangle; each
lies in one unit; the map lists for every unit the cells in it; and the translated powers of these
add up to the power of the unit. -/
def GridEquivalent (core : Rect K) (flp : Floorplan K) : Prop :=
  ∃ grid map, flpCreateGrid flp = .ok (grid, map) ∧
    grid.units.length = ((xEdges flp.rects).card - 1) * ((yEdges flp.rects).card - 1) ∧
    Tiles core grid.rects ∧
    (∀ c < grid.units.length, ∃! i, i < flp.units.length ∧
      (Block.unit grid.rects c).Within (Block.unit flp.rects i)) ∧
    map.length = flp.units.length ∧
    (∀ i < flp.units.length, (map.getD i []).Nodup ∧ ∀ c, c ∈ map.getD i [] ↔
      c < grid.units.length ∧ (Block.unit grid.rects c).Within (Block.unit flp.rects i)) ∧
    ∀ bpower gpower, ∀ i < flp.units.length,
      ((map.getD i []).map (xlatePowerBlkgrid flp.rects grid.rects map bpower gpower)).sum =
        bpower i

section Equivalence

variable [IsStrictOrderedRing K] {x y : Coordinates K} {flp grid : List (Rect K)}
  {spans : List Span} {core : Rect K}

/-- The units lie between the lines and the units of the grid are the cells between them. -/
structure Gridded (x y : Coordinates K) (flp grid : List (Rect K)) (spans : List Span) : Prop where
  columns : StrictMonoOn x.entry (Set.Iic (x.size - 1))
  rows : StrictMonoOn y.entry (Set.Iic (y.size - 1))
  units : flp = spans.map fun s => s.rect x.entry y.entry
  fits : ∀ s ∈ spans, s.Fits (x.size - 1) (y.size - 1)
  cells : grid = (spans.flatMap Span.cells).map (cell x.entry y.entry)

/-- The map of the grid. -/
def gridMap (spans : List Span) : List (List ℕ) :=
  segments 0 (spans.map fun s => s.cells.length)

namespace Gridded

variable (gridded : Gridded x y flp grid spans)

include gridded

omit [IsStrictOrderedRing K] in
theorem length_eq : flp.length = spans.length := by
  rw [gridded.units, List.length_map]

omit [IsStrictOrderedRing K] in
/-- The cells at the places of the map. -/
theorem map_cells {i : ℕ} (inside : i < spans.length) :
    ((gridMap spans).getD i []).map (Block.unit grid) =
      (spans[i]).cells.map (cell x.entry y.entry) := by
  have read := segments_getD (spans.map fun s => s.cells.map (cell x.entry y.entry))
    ⟨0, 0, 0, 0⟩ i
  rw [← List.flatMap_def, ← List.map_flatMap, ← gridded.cells, List.map_map] at read
  have lengths : List.length ∘ (fun s : Span => s.cells.map (cell x.entry y.entry)) =
      fun s => s.cells.length := funext fun s => List.length_map _
  rw [lengths] at read
  refine read.trans ?_
  rw [List.getD_eq_getElem _ _ (by rwa [List.length_map]), List.getElem_map]

omit [IsStrictOrderedRing K] in
theorem unit_eq {i : ℕ} (inside : i < spans.length) :
    Block.unit flp i = (spans[i]).rect x.entry y.entry := by
  rw [Block.unit, List.getD_eq_getElem _ _ (by rwa [gridded.length_eq])]
  simp only [gridded.units, List.getElem_map]

/-- A unit is tiled by its cells. -/
theorem tiles_unit {s : Span} (member : s ∈ spans) :
    Tiles (s.rect x.entry y.entry) (s.cells.map (cell x.entry y.entry)) := by
  have inside := gridded.fits s member
  refine Span.tiles_cells inside.wide inside.high (gridded.columns.monotoneOn.mono ?_)
    (gridded.rows.monotoneOn.mono ?_)
  · exact fun i between => between.2.trans inside.right
  · exact fun i between => between.2.trans inside.top

/-- A cell of the map is in its unit. -/
theorem within_of_mem {i c : ℕ} (inside : i < spans.length)
    (member : c ∈ (gridMap spans).getD i []) :
    (Block.unit grid c).Within (Block.unit flp i) := by
  have listed : Block.unit grid c ∈ (spans[i]).cells.map (cell x.entry y.entry) := by
    rw [← gridded.map_cells inside]
    exact List.mem_map_of_mem member
  rw [gridded.unit_eq inside]
  exact (gridded.tiles_unit (List.getElem_mem inside)).bounds listed

omit [IsStrictOrderedRing K] in
/-- Every cell is in the map. -/
theorem exists_mem {c : ℕ} : (∃ i < spans.length, c ∈ (gridMap spans).getD i []) ↔
    c < grid.length := by
  have total : grid.length = (spans.map fun s => s.cells.length).sum := by
    rw [gridded.cells, List.length_map, List.length_flatMap]
  have all := mem_segments (spans.map fun s => s.cells.length) c
  rw [List.length_map] at all
  rw [total]
  exact all

theorem unit_pos {i : ℕ} (inside : i < spans.length) :
    0 < (Block.unit flp i).width ∧ 0 < (Block.unit flp i).height := by
  obtain ⟨wide, right, high, top⟩ := gridded.fits _ (List.getElem_mem inside)
  rw [gridded.unit_eq inside]
  exact ⟨sub_pos.mpr (gridded.columns (wide.le.trans right) right wide),
    sub_pos.mpr (gridded.rows (high.le.trans top) top high)⟩

theorem grid_pos {c : ℕ} (inside : c < grid.length) :
    0 < (Block.unit grid c).width ∧ 0 < (Block.unit grid c).height := by
  have listed : Block.unit grid c ∈ grid := by
    rw [Block.unit, List.getD_eq_getElem _ _ inside]
    exact List.getElem_mem inside
  rw [gridded.cells] at listed
  obtain ⟨p, member, same⟩ := List.mem_map.mp listed
  obtain ⟨column, row⟩ := mem_flatMap_cells_lt gridded.fits member
  rw [← gridded.cells] at same
  rw [← same]
  exact cell_pos gridded.columns gridded.rows column row

/-- A cell lies in one unit only. -/
theorem unique_unit (tiles : Tiles core flp) {i j c : ℕ} (iLt : i < spans.length)
    (jLt : j < spans.length) (inside : c < grid.length)
    (inI : (Block.unit grid c).Within (Block.unit flp i))
    (inJ : (Block.unit grid c).Within (Block.unit flp j)) : i = j := by
  have overlap : ∀ a b, a < spans.length → b < spans.length →
      (Block.unit grid c).Within (Block.unit flp a) →
      (Block.unit grid c).Within (Block.unit flp b) → ¬a < b := by
    intro a b aLt bLt inA inB less
    have apart := List.pairwise_iff_getElem.mp tiles.apart a b (by rwa [gridded.length_eq])
      (by rwa [gridded.length_eq]) less
    rw [← List.getD_eq_getElem _ ⟨0, 0, 0, 0⟩, ← List.getD_eq_getElem _ ⟨0, 0, 0, 0⟩] at apart
    have size := gridded.grid_pos inside
    obtain ⟨aLeft, aRight, aBottom, aTop⟩ := inA
    obtain ⟨bLeft, bRight, bBottom, bTop⟩ := inB
    refine Rect.not_apart (gridded.unit_pos aLt) (gridded.unit_pos bLt) ?_ ?_ ?_ ?_ apart
    all_goals linarith [size.1, size.2]
  rcases lt_trichotomy i j with less | same | more
  · exact absurd less (overlap i j iLt jLt inI inJ)
  · exact same
  · exact absurd more (overlap j i jLt iLt inJ inI)

/-- The map lists the cells in a unit. -/
theorem mem_map_iff (tiles : Tiles core flp) {i c : ℕ} (iLt : i < spans.length) :
    c ∈ (gridMap spans).getD i [] ↔
      c < grid.length ∧ (Block.unit grid c).Within (Block.unit flp i) := by
  constructor
  · intro member
    exact ⟨gridded.exists_mem.1 ⟨i, iLt, member⟩, gridded.within_of_mem iLt member⟩
  · rintro ⟨inside, within⟩
    obtain ⟨j, jLt, member⟩ := gridded.exists_mem.2 inside
    have same := gridded.unique_unit tiles jLt iLt inside (gridded.within_of_mem jLt member) within
    rwa [← same]

omit [IsStrictOrderedRing K] gridded in
theorem nodup_row (i : ℕ) : ((gridMap spans).getD i []).Nodup := by
  rcases lt_or_ge i (gridMap spans).length with inside | outside
  · rw [List.getD_eq_getElem _ _ inside]
    exact (List.nodup_flatten.mp (segments_nodup _)).1 _ (List.getElem_mem inside)
  · rw [List.getD_eq_default _ _ outside]
    exact List.nodup_nil

omit [IsStrictOrderedRing K] in
/-- What a cell of a unit gets. -/
theorem xlatePowerBlkgrid_apply (bpower gpower : ℕ → K) {i c : ℕ} (inside : i < spans.length)
    (member : c ∈ (gridMap spans).getD i []) :
    xlatePowerBlkgrid flp grid (gridMap spans) bpower gpower c =
      bpower i / ((Block.unit flp i).width * (Block.unit flp i).height) *
        (Block.unit grid c).width * (Block.unit grid c).height := by
  -- the two loops are one over the pairs of a unit and a cell of it
  have stores : xlatePowerBlkgrid flp grid (gridMap spans) bpower gpower =
      scatter Prod.snd (fun p : ℕ × ℕ =>
        bpower p.1 / ((Block.unit flp p.1).width * (Block.unit flp p.1).height) *
          (Block.unit grid p.2).width * (Block.unit grid p.2).height)
        ((List.range spans.length).flatMap fun i =>
          ((gridMap spans).getD i []).map fun c => (i, c)) gpower := by
    simp only [xlatePowerBlkgrid, scatter, List.foldl_flatMap, List.foldl_map, gridded.length_eq]
  have length : (gridMap spans).length = spans.length := by
    rw [gridMap, segments_length, List.length_map]
  have slots : (((List.range spans.length).flatMap fun i =>
      ((gridMap spans).getD i []).map fun c => (i, c)).map Prod.snd) =
        (gridMap spans).flatten := by
    have rows : (List.range spans.length).map (fun i => (gridMap spans).getD i []) =
        gridMap spans := by
      refine List.ext_getElem (by simp [length]) fun k kLt _ => ?_
      simp only [List.length_map, List.length_range, ← length] at kLt
      rw [List.getElem_map, List.getElem_range, List.getD_eq_getElem _ _ kLt]
    rw [List.map_flatMap]
    simp only [List.map_map, Function.comp_def, List.map_id']
    rw [List.flatMap_def, rows]
  rw [stores]
  refine scatter_of_mem Prod.snd _ (by rw [slots]; exact segments_nodup _)
    (x := (i, c)) (List.mem_flatMap.mpr ⟨i, List.mem_range.mpr inside, ?_⟩) gpower
  exact List.mem_map_of_mem member

/-- **The power of a unit** is that of its cells. -/
theorem sum_power (bpower gpower : ℕ → K) {i : ℕ} (inside : i < spans.length) :
    (((gridMap spans).getD i []).map
      (xlatePowerBlkgrid flp grid (gridMap spans) bpower gpower)).sum = bpower i := by
  obtain ⟨wide, high⟩ := gridded.unit_pos inside
  have fits := gridded.fits _ (List.getElem_mem inside)
  have areas := Span.sum_cells x.entry y.entry fits.wide.le fits.high.le
  rw [← gridded.unit_eq inside] at areas
  set density := bpower i / ((Block.unit flp i).width * (Block.unit flp i).height) with spread
  calc (((gridMap spans).getD i []).map
        (xlatePowerBlkgrid flp grid (gridMap spans) bpower gpower)).sum
      = ((((gridMap spans).getD i []).map (Block.unit grid)).map
          fun u => density * (u.width * u.height)).sum := by
        rw [List.map_map]
        congr 1
        refine List.map_congr_left fun c member => ?_
        rw [gridded.xlatePowerBlkgrid_apply bpower gpower inside member, mul_assoc]
        rfl
    _ = density * ((spans[i]).cells.map fun p =>
          (cell x.entry y.entry p).width * (cell x.entry y.entry p).height).sum := by
        rw [gridded.map_cells inside, List.map_map, ← List.sum_map_mul_left]
        rfl
    _ = bpower i := by
        rw [areas, spread]
        exact div_mul_cancel₀ _ (mul_pos wide high).ne'

end Gridded

section Creation

variable {flp : Floorplan K} (tiles : Tiles core flp.rects) (positive : Positive flp.rects)
variable (separatedX : Separated (xEdges flp.rects)) (separatedY : Separated (yEdges flp.rects))

omit [IsStrictOrderedRing K] in
theorem mem_xEdges {flp : List (Rect K)} {v : K} :
    v ∈ xEdges flp ↔ ∃ u ∈ flp, v = u.leftx ∨ v = u.leftx + u.width := by
  simp [xEdges]

omit [IsStrictOrderedRing K] in
theorem mem_yEdges {flp : List (Rect K)} {v : K} :
    v ∈ yEdges flp ↔ ∃ u ∈ flp, v = u.bottomy ∨ v = u.bottomy + u.height := by
  simp [yEdges]

include positive separatedX separatedY in
/-- The lines around all units. -/
theorem exists_spanned (xLists : x.Lists (xEdges flp.rects)) (yLists : y.Lists (yEdges flp.rects)) :
    ∃ spans, Spanned x y flp.units spans := by
  have each : ∀ units : List (PlacedUnit K), (∀ u ∈ units, u.toRect ∈ flp.rects) →
      ∃ spans, Spanned x y units spans := by
    intro units within
    induction units with
    | nil => exact ⟨[], .nil⟩
    | cons unit units ih =>
      obtain ⟨part, parts⟩ := List.forall_mem_cons.mp within
      obtain ⟨spans, spanned⟩ := ih parts
      obtain ⟨span, around⟩ := gridSpan_spec xLists yLists separatedX separatedY
        (positive _ part) (mem_xEdges.2 ⟨_, part, .inl rfl⟩)
        (mem_xEdges.2 ⟨_, part, .inr rfl⟩) (mem_yEdges.2 ⟨_, part, .inl rfl⟩)
        (mem_yEdges.2 ⟨_, part, .inr rfl⟩)
      exact ⟨span :: spans, .cons around spanned⟩
  exact each flp.units fun u member => List.mem_map_of_mem member

omit [IsStrictOrderedRing K] in
theorem Spanned.rects {units : List (PlacedUnit K)} (spanned : Spanned x y units spans) :
    (units.map fun u => u.toRect) = spans.map fun s => s.rect x.entry y.entry := by
  induction spanned with
  | nil => rfl
  | cons around _ ih => rw [List.map_cons, ih, ← around.2.1, List.map_cons]

omit [IsStrictOrderedRing K] in
theorem Spanned.fits {units : List (PlacedUnit K)} (spanned : Spanned x y units spans) :
    ∀ s ∈ spans, s.Fits (x.size - 1) (y.size - 1) := by
  induction spanned with
  | nil => exact fun s member => nomatch member
  | cons around _ ih => exact List.forall_mem_cons.mpr ⟨around.2.2, ih⟩

include tiles in
/-- The edges lie between the sides of the rectangle. -/
theorem edges_bounds {v : K} :
    (v ∈ xEdges flp.rects → core.leftx ≤ v ∧ v ≤ core.leftx + core.width) ∧
    (v ∈ yEdges flp.rects → core.bottomy ≤ v ∧ v ≤ core.bottomy + core.height) := by
  constructor
  · rw [mem_xEdges]
    rintro ⟨u, part, side⟩
    obtain ⟨left, right, -, -⟩ := tiles.bounds part
    obtain ⟨wide, -⟩ := tiles.nonneg u part
    rcases side with rfl | rfl
    · exact ⟨left, by linarith⟩
    · exact ⟨by linarith, right⟩
  · rw [mem_yEdges]
    rintro ⟨u, part, side⟩
    obtain ⟨-, -, bottom, top⟩ := tiles.bounds part
    obtain ⟨-, high⟩ := tiles.nonneg u part
    rcases side with rfl | rfl
    · exact ⟨bottom, by linarith⟩
    · exact ⟨by linarith, top⟩

include tiles positive separatedX separatedY in
/-- **The grid of sorted edges.** -/
theorem exists_gridded (width : 0 < core.width) (height : 0 < core.height)
    (sorted : sortEdges flp.units = .ok (x, y)) (xLists : x.Lists (xEdges flp.rects))
    (yLists : y.Lists (yEdges flp.rects)) :
    ∃ grid spans, flpCreateGrid flp = .ok (grid, gridMap spans) ∧
      Gridded x y flp.rects grid.rects spans ∧
      grid.units.length = ((xEdges flp.rects).card - 1) * ((yEdges flp.rects).card - 1) ∧
      Tiles core grid.rects := by
  obtain ⟨⟨u, part, -⟩, -⟩ := exists_sides tiles width.le height.le
  have xSize : 0 < x.size := by
    rw [xLists.size_eq]
    exact Finset.card_pos.mpr ⟨_, mem_xEdges.2 ⟨u, part, .inl rfl⟩⟩
  have ySize : 0 < y.size := by
    rw [yLists.size_eq]
    exact Finset.card_pos.mpr ⟨_, mem_yEdges.2 ⟨u, part, .inl rfl⟩⟩
  have columns := strictMonoOn_entry xLists xSize
  have rows := strictMonoOn_entry yLists ySize
  obtain ⟨spans, spanned⟩ := exists_spanned positive separatedX separatedY xLists yLists
  have rects : flp.rects = spans.map fun s => s.rect x.entry y.entry := spanned.rects
  have fits := spanned.fits
  have inX (i : ℕ) (last : i < x.size) :=
    (edges_bounds tiles).1 ((xLists.mem _).mpr ⟨i, last, rfl⟩)
  have inY (i : ℕ) (last : i < y.size) :=
    (edges_bounds tiles).2 ((yLists.mem _).mpr ⟨i, last, rfl⟩)
  rw [rects] at tiles
  have nodup := nodup_flatMap_cells columns rows fits tiles
  have inside : ∀ p ∈ spans.flatMap Span.cells, p.1 < x.size - 1 ∧ p.2 < y.size - 1 :=
    fun p => mem_flatMap_cells_lt fits
  have start : Placed x y [] [] := rfl
  obtain ⟨grid, populated, placed⟩ :=
    foldlM_populateUnit columns rows spanned start nodup inside []
  have count : grid.length = (x.size - 1) * (y.size - 1) := by
    have all := perm_cells columns rows fits tiles (inX 0 xSize).1 (inX _ (by omega)).2
      (inY 0 ySize).1 (inY _ (by omega)).2
    have length := congrArg List.length placed
    rw [List.length_map, List.length_map] at length
    rw [length, List.nil_append, all.length_eq]
    refine (List.length_product _ _).trans ?_
    rw [List.length_range, List.length_range]
  refine ⟨⟨grid, gridDensity flp (gridMap spans)⟩, spans, ?_, ⟨columns, rows, rects, fits, placed⟩,
    ?_, ?_⟩
  · have whole : (grid.length : ℤ) = ((x.size : ℤ) - 1) * ((y.size : ℤ) - 1) := by
      rw [count, Nat.cast_mul, Nat.cast_sub xSize, Nat.cast_sub ySize, Nat.cast_one]
    simp only [flpCreateGrid, sorted, bind, Except.bind, populateGrid, populated]
    exact if_pos whole
  · rw [← xLists.size_eq, ← yLists.size_eq]
    exact count
  · rw [Floorplan.rects, placed]
    exact tiles_flatMap_cells columns rows fits tiles

include separatedX separatedY in
/-- **Too many edges** for the arrays. -/
theorem flpCreateGrid_overflow
    (full : maxUnits < (xEdges flp.rects).card ∨ maxUnits < (yEdges flp.rects).card) :
    flpCreateGrid flp = .error .overflow := by
  rcases sortEdges_spec separatedX separatedY with
    ⟨x, y, -, ⟨-, xRoom⟩, -, yRoom⟩ | ⟨overflows, -⟩
  · rcases full with xFull | yFull
    · exact absurd xRoom (not_le_of_gt xFull)
    · exact absurd yRoom (not_le_of_gt yFull)
  · rw [flpCreateGrid, overflows]
    rfl

end Creation

end Equivalence

/-- **When the grid is equivalent.** For a floorplan of units of positive sizes that tiles a
rectangle, with distinct edges at least `DELTA` apart: exactly when neither the vertical nor the
horizontal edges have more than `MAX_UNITS` coordinates. -/
theorem gridEquivalent_iff [IsStrictOrderedRing K] (flp : Floorplan K) {core : Rect K}
    (tiles : Tiles core flp.rects) (width : 0 < core.width) (height : 0 < core.height)
    (positive : Positive flp.rects) (separatedX : Separated (xEdges flp.rects))
    (separatedY : Separated (yEdges flp.rects)) :
    GridEquivalent core flp ↔
      (xEdges flp.rects).card ≤ maxUnits ∧ (yEdges flp.rects).card ≤ maxUnits := by
  rcases sortEdges_spec separatedX separatedY with
    ⟨x, y, sorted, ⟨xLists, xRoom⟩, yLists, yRoom⟩ | ⟨overflows, full⟩
  · refine ⟨fun _ => ⟨xRoom, yRoom⟩, fun _ => ?_⟩
    obtain ⟨grid, spans, created, gridded, count, cells⟩ :=
      exists_gridded tiles positive separatedX separatedY width height sorted xLists yLists
    have units : flp.units.length = spans.length :=
      (List.length_map _).symm.trans gridded.length_eq
    have length : grid.rects.length = grid.units.length := List.length_map _
    refine ⟨grid, gridMap spans, created, count, cells, fun c inside => ?_, ?_,
      fun i iLt => ⟨Gridded.nodup_row i, fun c => ?_⟩, fun bpower gpower i iLt => ?_⟩
    · obtain ⟨i, iLt, member⟩ := gridded.exists_mem.2 (length ▸ inside)
      refine ⟨i, ⟨units ▸ iLt, gridded.within_of_mem iLt member⟩, fun j ⟨jLt, within⟩ => ?_⟩
      exact gridded.unique_unit tiles (units ▸ jLt) iLt (length ▸ inside) within
        (gridded.within_of_mem iLt member)
    · rw [units, gridMap, segments_length, List.length_map]
    · rw [← length]
      exact gridded.mem_map_iff tiles (units ▸ iLt)
    · exact gridded.sum_power bpower gpower (units ▸ iLt)
  · refine ⟨fun ⟨grid, map, created, _⟩ => ?_, fun ⟨xRoom, yRoom⟩ => ?_⟩
    · rw [flpCreateGrid_overflow separatedX separatedY full] at created
      cases created
    · rcases full with xFull | yFull
      · exact absurd xRoom (not_le_of_gt xFull)
      · exact absurd yRoom (not_le_of_gt yFull)

/-! ## Units in a row -/

/-- Unit squares side by side. -/
def unitRow (n : ℕ) : Floorplan ℚ :=
  ⟨(List.range n).map fun i : ℕ => ⟨⟨i, 0, 1, 1⟩, "core".toList ++ Nat.toDigits 10 i⟩,
    fun _ _ => 0⟩

theorem unitRow_rects (n : ℕ) :
    (unitRow n).rects = (List.range n).map fun i : ℕ => (⟨i, 0, 1, 1⟩ : Rect ℚ) := by
  rw [Floorplan.rects, unitRow, List.map_map]
  rfl

theorem positive_unitRow (n : ℕ) : Positive (unitRow n).rects := by
  rw [unitRow_rects]
  intro q member
  obtain ⟨i, -, rfl⟩ := List.mem_map.mp member
  exact ⟨one_pos, one_pos⟩

theorem tiles_unitRow (n : ℕ) : Tiles (⟨0, 0, n + 1, 1⟩ : Rect ℚ) (unitRow (n + 1)).rects := by
  have mono (s : Set ℕ) : MonotoneOn (Nat.cast : ℕ → ℚ) s := Nat.mono_cast.monotoneOn s
  have squares := tiles_columns_rows (a := 0) (m := n) (c := 0) (n := 0) (mono _) (mono _)
  rw [unitRow_rects, List.range_eq_range']
  simpa [List.product, cell, Function.comp_def, ← List.map_eq_flatMap] using squares

/-- The edges of the squares. -/
theorem mem_edges_unitRow {n : ℕ} {v : ℚ} :
    (v ∈ xEdges (unitRow n).rects ∨ v ∈ yEdges (unitRow n).rects) → ∃ i : ℕ, v = i := by
  rw [mem_xEdges, mem_yEdges, unitRow_rects]
  rintro (⟨u, member, side⟩ | ⟨u, member, side⟩)
  · obtain ⟨i, -, rfl⟩ := List.mem_map.mp member
    rcases side with rfl | rfl
    · exact ⟨i, rfl⟩
    · exact ⟨i + 1, by push_cast; rfl⟩
  · obtain ⟨i, -, rfl⟩ := List.mem_map.mp member
    rcases side with rfl | rfl
    · exact ⟨0, by simp⟩
    · exact ⟨1, by simp⟩

/-- Different whole numbers are far enough apart. -/
theorem separated_of_whole {s : Finset ℚ} (whole : ∀ v ∈ s, ∃ i : ℕ, v = i) : Separated s := by
  intro a aMember b bMember different
  obtain ⟨i, rfl⟩ := whole a aMember
  obtain ⟨j, rfl⟩ := whole b bMember
  have apart : (1 : ℤ) ≤ |(i : ℤ) - j| := by
    refine Int.one_le_abs (sub_ne_zero.mpr fun same => different ?_)
    exact_mod_cast same
  have one : (1 : ℚ) ≤ |(i : ℚ) - j| := by exact_mod_cast apart
  exact le_trans (by norm_num [DELTA]) one

theorem separated_unitRow (n : ℕ) :
    Separated (xEdges (unitRow n).rects) ∧ Separated (yEdges (unitRow n).rects) :=
  ⟨separated_of_whole fun _ member => mem_edges_unitRow (.inl member),
    separated_of_whole fun _ member => mem_edges_unitRow (.inr member)⟩

/-- Squares have one more vertical edge than there are squares. -/
theorem lt_card_unitRow {n : ℕ} (some : 0 < n) : n < (xEdges (unitRow n).rects).card := by
  have within : (Finset.range (n + 1)).image (Nat.cast : ℕ → ℚ) ⊆ xEdges (unitRow n).rects := by
    intro v member
    obtain ⟨i, inside, rfl⟩ := Finset.mem_image.mp member
    rw [Finset.mem_range] at inside
    rw [mem_xEdges, unitRow_rects]
    rcases Nat.eq_zero_or_pos i with rfl | later
    · exact ⟨_, List.mem_map_of_mem (List.mem_range.mpr some), .inl rfl⟩
    · refine ⟨_, List.mem_map_of_mem (List.mem_range.mpr (show i - 1 < n by omega)), .inr ?_⟩
      rw [Nat.cast_sub later, Nat.cast_one, sub_add_cancel]
  have size := Finset.card_le_card within
  rw [Finset.card_image_of_injective _ Nat.cast_injective, Finset.card_range] at size
  omega

theorem gridEquivalent_three : GridEquivalent ⟨0, 0, 2 + 1, 1⟩ (unitRow 3) :=
  (gridEquivalent_iff (unitRow 3) (tiles_unitRow 2) (by norm_num) one_pos (positive_unitRow 3)
    (separated_unitRow 3).1 (separated_unitRow 3).2).mpr (by decide +kernel)

/-- As many units as a power trace may have are too many. -/
theorem not_gridEquivalent_unitRow :
    Tiles ⟨0, 0, 8192, 1⟩ (unitRow 8192).rects ∧ Positive (unitRow 8192).rects ∧
      Separated (xEdges (unitRow 8192).rects) ∧ Separated (yEdges (unitRow 8192).rects) ∧
      ¬GridEquivalent ⟨0, 0, 8192, 1⟩ (unitRow 8192) := by
  obtain ⟨separatedX, separatedY⟩ := separated_unitRow 8192
  have full : maxUnits < (xEdges (unitRow 8192).rects).card :=
    lt_card_unitRow (n := 8192) (by norm_num)
  have tiles := tiles_unitRow 8191
  norm_num at tiles
  refine ⟨tiles, positive_unitRow 8192, separatedX, separatedY, ?_⟩
  rintro ⟨grid, map, created, -⟩
  rw [flpCreateGrid_overflow separatedX separatedY (.inl full)] at created
  cases created

end GpuHotSpot.HotSpotTool.Flp
