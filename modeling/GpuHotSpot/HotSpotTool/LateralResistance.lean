import Mathlib.Algebra.Ring.CharZero
import Mathlib.Data.Rat.Floor
import GpuHotSpot.Lib.Fallible
import GpuHotSpot.HotSpotTool.BlockMap
import GpuHotSpot.HotSpotTool.Reciprocity

/-!
# Resistances along rows and columns

`populate_R_model_grid` gives a layer a resistance along its rows, over the width of a
cell, and one along its columns, over the height. With `detailed_3D` the cells of a chip
layer have such resistances of their own. `find_res` should return the half sum of the
resistances along the row or column that two neighbours share. It takes those across,
which are the same for square cells only.

* `cells_proportional`: the two resistances of a cell are as the squares of width and
  height, unless its layer does not conduct laterally.
* `findRes_lateral`: what `find_res` returns for neighbours in a layer.
* `lateralFollows_iff`: when the resistance follows the direction.
-/

namespace GpuHotSpot.HotSpotTool.TemperatureGrid

open BlockMap

variable {K : Type*} [Field K] [LinearOrder K]

/-! ## Populating the resistances -/

/-- What the resistances of a grid model are populated from. Without a layer file the width and
height are those of the floorplan. -/
structure Stack (K : Type*) where
  size : GridSize K
  nLayers : ℕ
  layers : ℕ → FlpLayer K
  hasLcf : Bool
  modelSecondary : Bool
  sSpreader : K
  sSink : K
  rConvec : K
  /-- `detailed_3D` requires a layer file. -/
  detailed_lcf : size.detailed3DUsed = true → hasLcf = true

/-- The lateral and vertical resistances of a layer. -/
structure LayerR (K : Type*) where
  rx : K
  ry : K
  rz : K

/-- What `populate_R_model_grid` sets. -/
structure ModelR (K : Type*) where
  layers : ℕ → LayerR K
  b2gmap : ℕ → ℕ → ℕ → Option (Blist K)

namespace Stack

variable (stack : Stack K)

def spidx : ℕ := stack.nLayers - 2
def hsidx : ℕ := stack.nLayers - 1
def silidx : ℕ := if stack.modelSecondary then if stack.hasLcf then 3 else 5 else 0

/-- The layers whose maps are set: the chip layers of the layer file, or the silicon layer. -/
def mapped : List ℕ :=
  if stack.hasLcf then
    let base := if stack.modelSecondary then 3 else 0
    List.range' base (stack.nLayers - 2 - base)
  else [stack.silidx]

/-- The package layers whose maps are set with `detailed_3D`. -/
def packMapped : List ℕ := stack.spidx :: if stack.modelSecondary then [GridModel.subidx] else []

/-- The layer whose map a layer points to. -/
def mapIdx (n : ℕ) : ℕ :=
  if stack.spidx ≤ n then
    if stack.size.detailed3DUsed then stack.spidx
    else if stack.hasLcf then stack.spidx - 1 else stack.silidx
  else if stack.modelSecondary ∧ n < 3 then
    if stack.size.detailed3DUsed then GridModel.subidx else stack.silidx
  else if stack.hasLcf then n else stack.silidx

/-- The resistances of a layer. The heat sink is connected to ambient. -/
def layerR (n : ℕ) : LayerR K :=
  let layer := stack.layers n
  let cw := stack.size.cw
  let ch := stack.size.ch
  let rz := getr layer.k layer.thickness (cw * ch)
  { rx := if layer.hasLateral then getr layer.k cw (ch * layer.thickness) else LARGENUM
    ry := if layer.hasLateral then getr layer.k ch (cw * layer.thickness) else LARGENUM
    rz := if n = stack.hsidx then
        rz + stack.rConvec * (stack.sSink * stack.sSink) / (cw * ch)
      else rz }

variable [FloorRing K]

/-- Sets the map of a layer. -/
def setMap (maps : ℕ → Maps K) (n : ℕ) : Except String (ℕ → Maps K) :=
  (setBgmap stack.size (stack.layers n)).map (Function.update maps n)

end Stack

/-- The cells of a package layer have no data of their own. -/
def clearMap (maps : Maps K) : Maps K :=
  { maps with
    b2gmap := fun i j => (maps.b2gmap i j).map fun head =>
      { head with hasRes := false, hasCap := false, lock := false } }

namespace Stack

variable (stack : Stack K) [FloorRing K]

/-- The maps of the layers. -/
def populateMaps : Except String (ℕ → Maps K) := do
  let maps ← stack.mapped.foldlM stack.setMap fun _ => ⟨fun _ _ => none, []⟩
  if stack.size.detailed3DUsed then
    let maps ← stack.packMapped.foldlM stack.setMap maps
    return fun n => if n ∈ stack.packMapped then clearMap (maps n) else maps n
  else return maps

def populateRModelGrid : Except String (ModelR K) := do
  let maps ← stack.populateMaps
  if stack.sSink < stack.size.width ∨ stack.sSink < stack.size.height ∨
      stack.sSpreader < stack.size.width ∨ stack.sSpreader < stack.size.height then
    throw "inordinate floorplan size!\n"
  return ⟨stack.layerR, fun n => (maps (stack.mapIdx n)).b2gmap⟩

end Stack

/-- A grid model with the dimensions of `stack` and the resistances `r`. With `detailed_3D` all of
its cells have blocks. -/
structure GridModel.Carries (m : GridModel K) (stack : Stack K) (r : ModelR K) : Prop where
  rows : m.rows = stack.size.rows
  cols : m.cols = stack.size.cols
  width : (m.width : K) = stack.size.width
  height : (m.height : K) = stack.size.height
  nLayers : m.nLayers = stack.nLayers
  secondary : m.modelSecondary = stack.modelSecondary
  detailed : m.detailed3DUsed = stack.size.detailed3DUsed
  layers : ∀ n < m.nLayers, ((m.layers n).rx : K) = (r.layers n).rx ∧
    ((m.layers n).ry : K) = (r.layers n).ry ∧ ((m.layers n).rz : K) = (r.layers n).rz
  cells : m.detailed3DUsed = true → ∀ n < m.nLayers, ∀ i < m.rows, ∀ j < m.cols,
    ∃ head, r.b2gmap n i j = some head ∧ (m.b2gmap n i j).hasRes = head.hasRes ∧
      (head.hasRes = true → ((m.b2gmap n i j).rx : K) = head.rx ∧
        ((m.b2gmap n i j).ry : K) = head.ry ∧ ((m.b2gmap n i j).rz : K) = head.rz)

/-! ## Following the direction -/

/-- The way to a side. -/
def Side.way : Side → Way
  | .N => .north
  | .S => .south
  | .E => .east
  | .W => .west

def Axis.across : Axis → Axis
  | .x => .y
  | .y => .x

namespace GridModel

variable (m : GridModel K)

/-- The resistance of a cell along an axis. -/
def cellR (axis : Axis) (a : ℕ × ℕ × ℕ) : K :=
  if m.detailed3DUsed then
    match axis with
    | .x => m.findResX a.1 a.2.1 a.2.2
    | .y => m.findResY a.1 a.2.1 a.2.2
  else (m.layers a.1).r axis

/-- The cells of a layer have its resistances. -/
def Uniform (n : ℕ) : Prop :=
  ∀ i < m.rows, ∀ j < m.cols, ∀ axis, m.cellR axis (n, i, j) = (m.layers n).r axis

/-- The lateral resistance in a layer follows the direction. -/
structure LateralFollows (layer : FlpLayer K) (cw ch : K) (n : ℕ) : Prop where
  /-- Between neighbours it is the half sum of their resistances along the way. -/
  halves : ∀ i < m.rows, ∀ j < m.cols, ∀ side b, m.next (Side.way side) (n, i, j) = some b →
    m.findRes (n, i, j) b = m.cellR side.axis (n, i, j) / 2 + m.cellR side.axis b / 2
  /-- Along a row of a uniform layer it is that of a slab. -/
  row_slab : layer.hasLateral = true → m.Uniform n → ∀ i < m.rows, ∀ j count, j + count < m.cols →
    ∑ c ∈ Finset.range count, m.findRes (n, i, j + c) (n, i, j + c + 1) =
      getr layer.k (count * cw) (ch * layer.thickness)
  /-- And along a column. -/
  col_slab : layer.hasLateral = true → m.Uniform n → ∀ j < m.cols, ∀ i count, i + count < m.rows →
    ∑ c ∈ Finset.range count, m.findRes (n, i + c, j) (n, i + c + 1, j) =
      getr layer.k (count * ch) (cw * layer.thickness)

end GridModel

/-! ## Proportional resistances -/

/-- The resistances along rows and columns of a cell or layer: with lateral conduction they are as
the squares of width and height. -/
def Proportional (size : GridSize K) (lateral : Bool) (rx ry : K) : Prop :=
  if lateral then rx * size.ch ^ 2 = ry * size.cw ^ 2 else rx = LARGENUM ∧ ry = LARGENUM

section

omit [LinearOrder K]

variable {a b x y x' y' : K}

theorem inv_proportional (wide : a ≠ 0) (high : b ≠ 0) (even : x * b ^ 2 = y * a ^ 2) :
    x⁻¹ * a ^ 2 = y⁻¹ * b ^ 2 := by
  have heights : b ^ 2 ≠ 0 := pow_ne_zero 2 high
  have widths : a ^ 2 ≠ 0 := pow_ne_zero 2 wide
  obtain rfl : x = y * a ^ 2 / b ^ 2 := (eq_div_iff heights).mpr even
  rw [inv_div, div_mul_eq_mul_div, mul_div_mul_right _ _ widths, div_eq_mul_inv, mul_comm]

/-- Resistances in parallel stay proportional. -/
theorem parallel_proportional (wide : a ≠ 0) (high : b ≠ 0) (even : x * b ^ 2 = y * a ^ 2)
    (even' : x' * b ^ 2 = y' * a ^ 2) (share : K) :
    1 / (1 / x + 1 / x' * share) * b ^ 2 = 1 / (1 / y + 1 / y' * share) * a ^ 2 := by
  have first := inv_proportional wide high even
  have second := inv_proportional wide high even'
  simp only [one_div]
  refine inv_proportional high wide ?_
  rw [add_mul, add_mul, first, mul_right_comm, second, mul_right_comm]

/-- The resistances of a box with the base of a cell. -/
theorem getr_proportional (wide : a ≠ 0) (high : b ≠ 0) (k thickness : K) :
    getr k a (b * thickness) * b ^ 2 = getr k b (a * thickness) * a ^ 2 := by
  simp only [getr, div_eq_mul_inv, mul_inv]
  field_simp

end

variable {size : GridSize K} {layer : FlpLayer K}

/-- A unit in a cell keeps its resistances proportional. -/
theorem place_proportional (wide : size.cw ≠ 0) (high : size.ch ≠ 0)
    (detailed : size.detailed3DUsed = true) {cell : Option (Blist K)} (o : Occupant K)
    (even : ∀ head, cell = some head → Proportional size layer.hasLateral head.rx head.ry) :
    Proportional size layer.hasLateral (place size layer cell o).rx
      (place size layer cell o).ry := by
  have box := getr_proportional wide high (1 / o.res) layer.thickness
  have alone := parallel_proportional wide high
    (by rw [zero_mul, zero_mul] : (0 : K) * size.ch ^ 2 = 0 * size.cw ^ 2) box o.occupancy
  simp only [div_zero, zero_add] at alone
  cases cell with
  | none =>
    simp only [place, newBlist, detailed, if_true, Proportional]
    cases layer.hasLateral with
    | false =>
      simp only [Bool.false_eq_true, if_false]
      split_ifs <;> exact ⟨rfl, rfl⟩
    | true =>
      simp only [if_true]
      split_ifs
      · exact box
      · exact alone
  | some head =>
    have both := even head rfl
    simp only [place, blistAppend, detailed, Bool.true_and, Proportional] at both ⊢
    cases lateral : layer.hasLateral with
    | false =>
      rw [lateral, if_neg Bool.false_ne_true] at both
      simp only [Bool.false_eq_true, if_false]
      split_ifs
      · exact ⟨rfl, rfl⟩
      · exact ⟨rfl, rfl⟩
      · exact both
    | true =>
      rw [lateral, if_pos rfl] at both
      have more := parallel_proportional wide high both box o.occupancy
      simp only [if_true]
      split_ifs
      · exact box
      · exact more
      · exact both

/-! ## Neighbours -/

variable {stack : Stack K} {m : GridModel K}

/-- A neighbour is a cell of the layer. -/
theorem next_side {side : Side} {n i j : ℕ} {b : ℕ × ℕ × ℕ} (row : i < m.rows)
    (column : j < m.cols) (adjacent : m.next side.way (n, i, j) = some b) :
    ∃ i' < m.rows, ∃ j' < m.cols, b = (n, i', j') := by
  cases side <;> simp only [Side.way, GridModel.next, Option.ite_none_right_eq_some,
    Option.some.injEq] at adjacent <;> obtain ⟨inside, rfl⟩ := adjacent
  · exact ⟨i, row, j - 1, by omega, rfl⟩
  · exact ⟨i, row, j + 1, by omega, rfl⟩
  · exact ⟨i - 1, by omega, j, column, rfl⟩
  · exact ⟨i + 1, by omega, j, column, rfl⟩

/-- **What `find_res` returns for neighbours in a layer**: the half sum of their resistances across
the way between them. -/
theorem findRes_lateral {side : Side} {n i j : ℕ} {b : ℕ × ℕ × ℕ}
    (adjacent : m.next side.way (n, i, j) = some b) :
    m.findRes (n, i, j) b =
      m.cellR side.axis.across (n, i, j) / 2 + m.cellR side.axis.across b / 2 := by
  cases side <;> simp only [Side.way, GridModel.next, Option.ite_none_right_eq_some,
    Option.some.injEq] at adjacent <;> obtain ⟨inside, rfl⟩ := adjacent
  all_goals
    simp only [GridModel.findRes, GridModel.cellR, Side.axis, Axis.across, Layer.r, ne_eq,
      not_true_eq_false, false_and, true_and, and_false, and_true, if_false, lt_self_iff_false]
    split_ifs <;> first | rfl | omega

/-- With square cells, or without lateral conduction, a cell has one lateral resistance. -/
theorem cellR_across {n i j : ℕ} (even : Proportional stack.size (stack.layers n).hasLateral
      (m.cellR .x (n, i, j)) (m.cellR .y (n, i, j))) (high : stack.size.ch ≠ 0)
    (same : (stack.layers n).hasLateral = false ∨ stack.size.cw = stack.size.ch) (axis : Axis) :
    m.cellR axis.across (n, i, j) = m.cellR axis (n, i, j) := by
  have equal : m.cellR .x (n, i, j) = m.cellR .y (n, i, j) := by
    rw [Proportional] at even
    split_ifs at even with lateral
    · rw [same.resolve_left (by simp [lateral])] at even
      exact mul_right_cancel₀ (pow_ne_zero 2 high) even
    · rw [even.1, even.2]
  cases axis with
  | x => exact equal.symm
  | y => exact equal

/-! ## The populated model -/

/-- The cells of a map have proportional resistances. -/
def MapProportional (size : GridSize K) (layer : FlpLayer K) (maps : Maps K) : Prop :=
  ∀ i j head, maps.b2gmap i j = some head →
    Proportional size layer.hasLateral head.rx head.ry

variable [FloorRing K] {maps maps' : Maps K} {r : ModelR K}

theorem mapUnit_proportional (wide : size.cw ≠ 0) (high : size.ch ≠ 0)
    (detailed : size.detailed3DUsed = true) {unit : FlpUnit K × ℕ}
    (even : MapProportional size layer maps) (step : mapUnit size layer maps unit = .ok maps') :
    MapProportional size layer maps' := by
  cases cells : extent size unit.1 with
  | error message => simp [mapUnit, cells] at step
  | ok g =>
    simp only [mapUnit, cells] at step
    split_ifs at step
    obtain rfl := Except.ok.inj step
    intro i j head here
    dsimp only at here
    split_ifs at here
    · obtain ⟨occupancy, -, rfl⟩ := Option.map_eq_some_iff.mp here
      exact place_proportional wide high detailed _ (even i j)
    · exact even i j head here

theorem setBgmap_proportional (wide : size.cw ≠ 0) (high : size.ch ≠ 0)
    (detailed : size.detailed3DUsed = true) (ran : setBgmap size layer = .ok maps) :
    MapProportional size layer maps :=
  foldlM_invariant (MapProportional size layer)
    (fun _ _ _ even step => mapUnit_proportional wide high detailed even step)
    (fun _ _ _ here => by simp at here) ran

theorem setMap_proportional (wide : stack.size.cw ≠ 0) (high : stack.size.ch ≠ 0)
    (detailed : stack.size.detailed3DUsed = true) {idxs : List ℕ} {maps maps' : ℕ → Maps K}
    (even : ∀ n, MapProportional stack.size (stack.layers n) (maps n))
    (ran : idxs.foldlM stack.setMap maps = .ok maps') (n : ℕ) :
    MapProportional stack.size (stack.layers n) (maps' n) := by
  refine foldlM_invariant
    (fun maps => ∀ n, MapProportional stack.size (stack.layers n) (maps n)) ?_ even ran n
  intro maps idx maps' even step n
  rw [Stack.setMap] at step
  cases found : setBgmap stack.size (stack.layers idx) with
  | error message => simp [found, Except.map] at step
  | ok map =>
    obtain rfl : Function.update maps idx map = maps' := by
      simpa [found, Except.map] using step
    rcases eq_or_ne n idx with rfl | other
    · rw [Function.update_self]
      exact setBgmap_proportional wide high detailed found
    · rw [Function.update_of_ne other]
      exact even n

theorem populateRModelGrid_ok (ran : stack.populateRModelGrid = .ok r) :
    ∃ maps, stack.populateMaps = .ok maps ∧
      r = ⟨stack.layerR, fun n => (maps (stack.mapIdx n)).b2gmap⟩ := by
  rw [Stack.populateRModelGrid] at ran
  cases found : stack.populateMaps with
  | error message =>
    rw [found] at ran
    exact nomatch ran
  | ok maps =>
    rw [found] at ran
    refine ⟨maps, rfl, ?_⟩
    by_cases large : stack.sSink < stack.size.width ∨ stack.sSink < stack.size.height ∨
      stack.sSpreader < stack.size.width ∨ stack.sSpreader < stack.size.height
    · exact absurd ran (by simp [bind, Except.bind, large, throw, throwThe, MonadExceptOf.throw])
    · simp only [bind, Except.bind, if_neg large] at ran
      exact (Except.ok.inj ran).symm

/-- With `detailed_3D` the maps come from `set_bgmap`; those of package layers are cleared. -/
theorem populateMaps_ok (wide : stack.size.cw ≠ 0) (high : stack.size.ch ≠ 0)
    (detailed : stack.size.detailed3DUsed = true) {maps : ℕ → Maps K}
    (ran : stack.populateMaps = .ok maps) :
    ∃ maps' : ℕ → Maps K, (∀ n, MapProportional stack.size (stack.layers n) (maps' n)) ∧
      maps = fun n => if n ∈ stack.packMapped then clearMap (maps' n) else maps' n := by
  rw [Stack.populateMaps] at ran
  cases chip : stack.mapped.foldlM stack.setMap fun _ => ⟨fun _ _ => none, []⟩ with
  | error message =>
    rw [chip] at ran
    exact nomatch ran
  | ok maps₀ =>
    have even := setMap_proportional wide high detailed
      (fun _ _ _ _ here => by simp at here) chip
    simp only [chip, bind, Except.bind, detailed, if_true] at ran
    cases pack : stack.packMapped.foldlM stack.setMap maps₀ with
    | error message =>
      rw [pack] at ran
      exact nomatch ran
    | ok maps₁ =>
      rw [pack] at ran
      exact ⟨maps₁, setMap_proportional wide high detailed even pack,
        (Except.ok.inj ran).symm⟩

omit [Field K] [LinearOrder K] [FloorRing K] in
/-- With `detailed_3D` a layer has a map of its own, or points to that of a package layer. -/
theorem mapIdx_detailed (detailed : stack.size.detailed3DUsed = true) (n : ℕ) :
    stack.mapIdx n = n ∨ stack.mapIdx n ∈ stack.packMapped := by
  have lcf := stack.detailed_lcf detailed
  simp only [Stack.mapIdx, detailed, lcf, if_true]
  by_cases package : stack.spidx ≤ n
  · exact .inr (by simp [package, Stack.packMapped])
  · by_cases board : stack.modelSecondary ∧ n < 3
    · exact .inr (by simp [package, board, Stack.packMapped])
    · exact .inl (by simp only [package, board, if_false])

/-- **The resistances of a cell.** Along the row and along the column they are as the squares of
width and height, unless the layer does not conduct laterally. -/
theorem cells_proportional (wide : stack.size.cw ≠ 0) (high : stack.size.ch ≠ 0)
    (ran : stack.populateRModelGrid = .ok r) (carries : m.Carries stack r) {n i j : ℕ}
    (layer : n < m.nLayers) (row : i < m.rows) (column : j < m.cols) :
    Proportional stack.size (stack.layers n).hasLateral (m.cellR .x (n, i, j))
      (m.cellR .y (n, i, j)) := by
  obtain ⟨maps, found, rfl⟩ := populateRModelGrid_ok ran
  obtain ⟨alongX, alongY, -⟩ := carries.layers n layer
  have whole : Proportional stack.size (stack.layers n).hasLateral
      ((m.layers n).rx : K) ((m.layers n).ry : K) := by
    rw [alongX, alongY, Proportional]
    cases lateral : (stack.layers n).hasLateral with
    | false => simp [Stack.layerR, lateral]
    | true =>
      simpa [Stack.layerR, lateral] using
        getr_proportional wide high (stack.layers n).k (stack.layers n).thickness
  cases detailed : m.detailed3DUsed with
  | false => simpa [GridModel.cellR, detailed, Layer.r] using whole
  | true =>
    simp only [GridModel.cellR, detailed, if_true, GridModel.findResX, GridModel.findResY]
    obtain ⟨head, here, flag, values⟩ := carries.cells detailed n layer i row j column
    cases own : head.hasRes with
    | false => simpa [flag, own] using whole
    | true =>
      obtain ⟨cellX, cellY, -⟩ := values own
      rw [flag, own, if_pos rfl, if_pos rfl, cellX, cellY]
      have used := carries.detailed.symm.trans detailed
      obtain ⟨maps', even, rfl⟩ := populateMaps_ok wide high used found
      by_cases package : stack.mapIdx n ∈ stack.packMapped
      · simp only [if_pos package, clearMap, Option.map_eq_some_iff] at here
        obtain ⟨bare, -, rfl⟩ := here
        exact absurd own (by simp)
      · simp only [if_neg package] at here
        have same := (mapIdx_detailed used n).resolve_right package
        rw [same] at here
        exact even n i j head here

/-! ## The condition -/

omit [LinearOrder K] [FloorRing K] in
/-- Boxes in a row. -/
theorem sum_slab {f : ℕ → K} {k length area : K} {count : ℕ}
    (each : ∀ c < count, f c = getr k length area) :
    ∑ c ∈ Finset.range count, f c = getr k (count * length) area := by
  rw [Finset.sum_congr rfl fun c inside => each c (Finset.mem_range.mp inside), Finset.sum_const,
    Finset.card_range, nsmul_eq_mul, getr, getr, mul_div_assoc]

omit [FloorRing K] in
theorem cellR_pos (axis : Axis) (a : ℕ × ℕ × ℕ) : 0 < m.cellR axis a := by
  have own : ∀ (flag : Bool) (r r' : Pos K), 0 < if flag = true then (r : K) else r' := by
    intro flag r r'
    split_ifs
    · exact r.2
    · exact r'.2
  cases axis <;> simp only [GridModel.cellR] <;> split_ifs
  · exact own _ _ _
  · exact (m.layers a.1).rx.2
  · exact own _ _ _
  · exact (m.layers a.1).ry.2

omit [FloorRing K] in
/-- A grid of several cells has neighbours. -/
theorem exists_neighbour (n : ℕ) (several : ¬(m.rows = 1 ∧ m.cols = 1)) :
    ∃ side b, m.next (Side.way side) (n, 0, 0) = some b := by
  have rows := m.rows_pos
  have cols := m.cols_pos
  by_cases row : m.rows = 1
  · exact ⟨.E, (n, 0, 1), if_pos (by omega)⟩
  · exact ⟨.S, (n, 1, 0), if_pos (by omega)⟩

/-- The resistances of a layer that conducts laterally. -/
theorem layer_r (ran : stack.populateRModelGrid = .ok r) (carries : m.Carries stack r) {n : ℕ}
    (layer : n < m.nLayers) (lateral : (stack.layers n).hasLateral = true) :
    ((m.layers n).rx : K) = getr (stack.layers n).k stack.size.cw
        (stack.size.ch * (stack.layers n).thickness) ∧
      ((m.layers n).ry : K) = getr (stack.layers n).k stack.size.ch
        (stack.size.cw * (stack.layers n).thickness) := by
  obtain ⟨maps, -, rfl⟩ := populateRModelGrid_ok ran
  obtain ⟨alongX, alongY, -⟩ := carries.layers n layer
  rw [alongX, alongY]
  simp [Stack.layerR, lateral]

variable [IsStrictOrderedRing K]

omit [IsStrictOrderedRing K] in
/-- Where the resistance between neighbours follows the direction, a row or column of cells is a
slab. -/
theorem LateralFollows.of_halves (ran : stack.populateRModelGrid = .ok r)
    (carries : m.Carries stack r) {n : ℕ} (layer : n < m.nLayers)
    (halves : ∀ i < m.rows, ∀ j < m.cols, ∀ side b, m.next (Side.way side) (n, i, j) = some b →
      m.findRes (n, i, j) b = m.cellR side.axis (n, i, j) / 2 + m.cellR side.axis b / 2) :
    m.LateralFollows (stack.layers n) stack.size.cw stack.size.ch n where
  halves := halves
  row_slab := by
    intro lateral uniform i row j count fits
    refine sum_slab fun c inside => ?_
    have adjacent : m.next (Side.way .E) (n, i, j + c) = some (n, i, j + c + 1) :=
      if_pos (by omega)
    rw [halves i row (j + c) (by omega) .E _ adjacent, Side.axis,
      uniform i row (j + c) (by omega), uniform i row (j + c + 1) (by omega), add_halves, Layer.r,
      (layer_r ran carries layer lateral).1]
  col_slab := by
    intro lateral uniform j column i count fits
    refine sum_slab fun c inside => ?_
    have adjacent : m.next (Side.way .S) (n, i + c, j) = some (n, i + c + 1, j) :=
      if_pos (by omega)
    rw [halves (i + c) (by omega) j column .S _ adjacent, Side.axis,
      uniform (i + c) (by omega) j column, uniform (i + c + 1) (by omega) j column, add_halves,
      Layer.r, (layer_r ran carries layer lateral).2]

omit [FloorRing K] in
/-- Proportional resistances with one sum belong to a square. -/
theorem square_of_half {a b x y x' y' : K} (wide : 0 < a) (high : 0 < b)
    (even : x * b ^ 2 = y * a ^ 2) (even' : x' * b ^ 2 = y' * a ^ 2) (first : 0 < x)
    (second : 0 < x') (same : x / 2 + x' / 2 = y / 2 + y' / 2) : a = b := by
  have total : (x / 2 + x' / 2) * b ^ 2 = (x / 2 + x' / 2) * a ^ 2 := by
    calc (x / 2 + x' / 2) * b ^ 2 = (y / 2 + y' / 2) * a ^ 2 := by
          linear_combination even / 2 + even' / 2
      _ = (x / 2 + x' / 2) * a ^ 2 := by rw [same]
  have squares := mul_left_cancel₀ (add_pos (half_pos first) (half_pos second)).ne' total
  exact ((sq_eq_sq₀ high.le wide.le).mp squares).symm

/-- **The resistance follows the direction** in a layer of a populated model if and only if the
layer does not conduct laterally, its cells are square, or it has one cell only. -/
theorem lateralFollows_iff (ran : stack.populateRModelGrid = .ok r) (carries : m.Carries stack r)
    {n : ℕ} (layer : n < m.nLayers) :
    m.LateralFollows (stack.layers n) stack.size.cw stack.size.ch n ↔
      (stack.layers n).hasLateral = false ∨ stack.size.cw = stack.size.ch ∨
        m.rows = 1 ∧ m.cols = 1 := by
  have wide : 0 < stack.size.cw := by
    rw [GridSize.cw, ← carries.width, ← carries.cols]
    exact div_pos m.width.2 (Nat.cast_pos.mpr m.cols_pos)
  have high : 0 < stack.size.ch := by
    rw [GridSize.ch, ← carries.height, ← carries.rows]
    exact div_pos m.height.2 (Nat.cast_pos.mpr m.rows_pos)
  have even : ∀ {i j}, i < m.rows → j < m.cols →
      Proportional stack.size (stack.layers n).hasLateral (m.cellR .x (n, i, j))
        (m.cellR .y (n, i, j)) :=
    cells_proportional wide.ne' high.ne' ran carries layer
  constructor
  · intro follows
    by_contra! conducts
    obtain ⟨lateral, oblong, several⟩ := conducts
    obtain ⟨side, b, adjacent⟩ := exists_neighbour n (not_and.mpr several)
    have half := follows.halves 0 m.rows_pos 0 m.cols_pos side b adjacent
    rw [findRes_lateral adjacent] at half
    obtain ⟨i, row, j, column, rfl⟩ := next_side m.rows_pos m.cols_pos adjacent
    have first := even m.rows_pos m.cols_pos
    have second := even row column
    simp only [Proportional, ne_eq, Bool.not_eq_false] at first second lateral
    rw [if_pos lateral] at first second
    refine oblong (square_of_half wide high first second (cellR_pos _ _) (cellR_pos _ _) ?_)
    cases side with
    | N | S => exact half
    | W | E => exact half.symm
  · intro fits
    refine LateralFollows.of_halves ran carries layer fun i row j column side b adjacent => ?_
    rw [findRes_lateral adjacent]
    obtain ⟨i', row', j', column', rfl⟩ := next_side row column adjacent
    rcases or_assoc.mpr fits with same | ⟨oneRow, oneCol⟩
    · rw [cellR_across (even row column) high.ne' same,
        cellR_across (even row' column') high.ne' same]
    · obtain rfl : i' = i := by omega
      obtain rfl : j' = j := by omega
      cases side <;> simp only [Side.way, GridModel.next, Option.ite_none_right_eq_some] at adjacent
        <;> omega

/-! ## A plate -/

/-- A chip of one block under spreader and sink, on two by two cells of height one. -/
def plateStack (width : ℚ) : Stack ℚ where
  size := ⟨width, 2, 2, 2, false⟩
  nLayers := 3
  layers := fun _ => ⟨[⟨0, 0, width, 2, false, false, 0, 0⟩], true, 1, 1, 1⟩
  hasLcf := false
  modelSecondary := false
  sSpreader := 10
  sSink := 10
  rConvec := 1
  detailed_lcf := nofun

def plate (width : Pos ℚ) : GridModel ℚ where
  rows := 2
  cols := 2
  nLayers := 3
  width := width
  height := GridModel.posTwo
  layers := fun n =>
    ⟨⟨width / 2, div_pos width.2 (by norm_num)⟩, ⟨2 / width, div_pos (by norm_num) width.2⟩,
      ⟨(if n = 2 then 202 else 2) / width, div_pos (by split_ifs <;> norm_num) width.2⟩,
      GridModel.posOne⟩
  b2gmap := GridModel.unitStack.b2gmap
  pack := GridModel.unitPackage
  ambient := 300
  rConvecSec := GridModel.posOne
  sPcb := GridModel.posOne
  modelSecondary := false
  detailed3DUsed := false
  rows_pos := Nat.two_pos
  cols_pos := Nat.two_pos
  layers_le := le_rfl
  secondary_le := GridModel.twoBlocks.secondary_le

theorem plate_carries (width : Pos ℚ) {r : ModelR ℚ}
    (ran : (plateStack width).populateRModelGrid = .ok r) :
    (plate width).Carries (plateStack width) r := by
  obtain ⟨maps, -, rfl⟩ := populateRModelGrid_ok ran
  have nonzero := width.2.ne'
  refine ⟨rfl, rfl, rfl, rfl, rfl, rfl, rfl, fun n _ => ⟨?_, ?_, ?_⟩, nofun⟩
  · simp [plate, Stack.layerR, plateStack, getr, GridSize.cw, GridSize.ch]
  · simp [plate, Stack.layerR, plateStack, getr, GridSize.cw, GridSize.ch]
  · by_cases sink : n = 2
    · simp [plate, Stack.layerR, plateStack, getr, GridSize.cw, GridSize.ch, Stack.hsidx, sink]
      field_simp
      norm_num
    · simp [plate, Stack.layerR, plateStack, getr, GridSize.cw, GridSize.ch, Stack.hsidx, sink]

theorem plateStack_populates (width : ℚ) (fits : width = 2 ∨ width = 4) :
    ∃ r, (plateStack width).populateRModelGrid = .ok r := by
  have ok : (plateStack width).populateRModelGrid.isOk = true := by
    rcases fits with rfl | rfl <;> decide +kernel
  cases ran : (plateStack width).populateRModelGrid with
  | error message => simp [ran, Except.isOk, Except.toBool] at ok
  | ok r => exact ⟨r, rfl⟩

/-- On cells twice as wide as high, the resistance between two neighbours in a row is a quarter of
what it should be. -/
theorem exists_across : ∃ (stack : Stack ℚ) (r : ModelR ℚ) (m : GridModel ℚ),
    stack.populateRModelGrid = .ok r ∧ m.Carries stack r ∧
      ¬m.LateralFollows (stack.layers 0) stack.size.cw stack.size.ch 0 := by
  obtain ⟨r, ran⟩ := plateStack_populates 4 (.inr rfl)
  refine ⟨plateStack 4, r, plate ⟨4, by norm_num⟩, ran, plate_carries ⟨4, _⟩ ran, fun follows => ?_⟩
  have half := follows.halves 0 (by decide) 0 (by decide) .E (0, 0, 1) rfl
  revert half
  decide +kernel

/-- The equivalence for square cells. -/
theorem lateralFollows_iff_square : ∃ (stack : Stack ℚ) (m : GridModel ℚ),
    m.LateralFollows (stack.layers 0) stack.size.cw stack.size.ch 0 := by
  obtain ⟨r, ran⟩ := plateStack_populates 2 (.inl rfl)
  exact ⟨plateStack 2, plate ⟨2, two_pos⟩,
    (lateralFollows_iff ran (plate_carries ⟨2, two_pos⟩ ran) (by decide)).mpr
      (.inr (.inl (by norm_num [plateStack, GridSize.cw, GridSize.ch])))⟩

end GpuHotSpot.HotSpotTool.TemperatureGrid
