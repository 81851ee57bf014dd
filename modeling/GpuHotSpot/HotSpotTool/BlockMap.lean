import Mathlib.Algebra.BigOperators.Group.List.Basic
import GpuHotSpot.HotSpotTool.Util

/-!
# Blocks and grid cells

The block-grid maps of `temperature_grid.c`. `set_bgmap` lists for every grid cell the
blocks that occupy it, with their occupancies and the thermal data of the cell, and
for every block the cells it extends over. `xlate_vector_b2g` and `xlate_temp_g2b`
translate vectors with these maps.

Rows are counted from the top of the die, `y` coordinates from its bottom.
-/

namespace GpuHotSpot.HotSpotTool.BlockMap

open scoped Literals

variable {K : Type*} [Field K] [LinearOrder K]

/-! ## Data -/

/-- A functional unit of a floorplan. -/
structure FlpUnit (K : Type*) where
  leftx : K
  bottomy : K
  width : K
  height : K
  hasRes : Bool
  hasSh : Bool
  resistivity : K
  specificheat : K

/-- A block in the list of a grid cell. -/
structure BlistEntry (K : Type*) where
  idx : ℕ
  occupancy : K

/-- The blocks of a grid cell, and the thermal data that the head of the list carries. -/
structure Blist (K : Type*) where
  blocks : List (BlistEntry K)
  lock : Bool
  hasRes : Bool
  hasCap : Bool
  rx : K
  ry : K
  rz : K
  capacitance : K

/-- The cells of a block: rows `i1` to `i2`, columns `j1` to `j2`, without the ends. -/
structure Glist where
  i1 : ℕ
  i2 : ℕ
  j1 : ℕ
  j2 : ℕ

/-- What the maps of a layer are set from. -/
structure FlpLayer (K : Type*) where
  flp : List (FlpUnit K)
  hasLateral : Bool
  k : K
  thickness : K
  sp : K

/-- The dimensions of a grid model. -/
structure GridSize (K : Type*) where
  width : K
  height : K
  rows : ℕ
  cols : ℕ
  detailed3DUsed : Bool

/-- Cell width. -/
def GridSize.cw (model : GridSize K) : K := model.width / model.cols
/-- Cell height. -/
def GridSize.ch (model : GridSize K) : K := model.height / model.rows

/-- The maps of a layer. -/
structure Maps (K : Type*) where
  b2gmap : ℕ → ℕ → Option (Blist K)
  g2bmap : List Glist

/-! ## The lists of a cell -/

def OCCUPANCY_THRESHOLD : K := 95 / 100
def LARGENUM : K := 10 ^ 100
def C_FACTOR : K := 333 / 1000

def getr (conductivity thickness area : K) : K := thickness / (conductivity * area)
def getcap (spHeat thickness area : K) : K := C_FACTOR * spHeat * thickness * area

/-- The unit in a cell as the lists see it: its place, occupancy, resistivity and specific heat. -/
structure Occupant (K : Type*) where
  idx : ℕ
  occupancy : K
  res : K
  sh : K
  hasSh : Bool

/-- The head of a new list: without `detailed_3D` its thermal data are not set. -/
def newBlist (model : GridSize K) (layer : FlpLayer K) (o : Occupant K) : Blist K :=
  let rx := getr (1 / o.res) model.cw (model.ch * layer.thickness)
  let ry := getr (1 / o.res) model.ch (model.cw * layer.thickness)
  let rz := getr (1 / o.res) layer.thickness (model.cw * model.ch)
  let blocks := [⟨o.idx, o.occupancy⟩]
  if model.detailed3DUsed then
    let capacitance := getcap o.sh layer.thickness (model.cw * model.ch)
    if OCCUPANCY_THRESHOLD ≤ o.occupancy then
      { blocks, lock := true, hasRes := true, hasCap := o.hasSh, capacitance
        rx := if layer.hasLateral then rx else LARGENUM
        ry := if layer.hasLateral then ry else LARGENUM
        rz := rz }
    else
      { blocks, lock := false, hasRes := true, hasCap := o.hasSh, capacitance
        rx := if layer.hasLateral then 1 / (1 / rx * o.occupancy) else LARGENUM
        ry := if layer.hasLateral then 1 / (1 / ry * o.occupancy) else LARGENUM
        rz := 1 / (1 / rz * o.occupancy) }
  else
    { blocks, lock := false, hasRes := true, hasCap := o.hasSh
      capacitance := 0, rx := 0, ry := 0, rz := 0 }

/-- Appending a unit adds its resistances in parallel, until one fills the cell. -/
def blistAppend (model : GridSize K) (layer : FlpLayer K) (head : Blist K) (o : Occupant K) :
    Blist K :=
  let rx := getr (1 / o.res) model.cw (model.ch * layer.thickness)
  let ry := getr (1 / o.res) model.ch (model.cw * layer.thickness)
  let rz := getr (1 / o.res) layer.thickness (model.cw * model.ch)
  let blocks := head.blocks ++ [⟨o.idx, o.occupancy⟩]
  if model.detailed3DUsed && !head.lock then
    if OCCUPANCY_THRESHOLD ≤ o.occupancy then
      { head with
        blocks, lock := true, capacitance := getcap o.sh layer.thickness (model.cw * model.ch)
        rx := if layer.hasLateral then rx else LARGENUM
        ry := if layer.hasLateral then ry else LARGENUM
        rz := rz }
    else
      { head with
        blocks
        rx := if layer.hasLateral then 1 / (1 / head.rx + 1 / rx * o.occupancy) else LARGENUM
        ry := if layer.hasLateral then 1 / (1 / head.ry + 1 / ry * o.occupancy) else LARGENUM
        rz := 1 / (1 / head.rz + 1 / rz * o.occupancy) }
  else { head with blocks }

/-- A unit joins the list of a cell. -/
def place (model : GridSize K) (layer : FlpLayer K) (cell : Option (Blist K)) (o : Occupant K) :
    Blist K :=
  match cell with
  | none => newBlist model layer o
  | some head => blistAppend model layer head o

/-! ## Setting up the maps -/

variable [FloorRing K]

/-- The cells of a unit, with the sanity checks. -/
def extent (model : GridSize K) (unit : FlpUnit K) : Except String Glist :=
  let lu := unit.leftx
  let ru := lu + unit.width
  let bu := unit.bottomy
  let tu := bu + unit.height
  let i1 := model.rows - tolerantCeil (tu / model.ch)
  let i2 := model.rows - tolerantFloor (bu / model.ch)
  let j1 := tolerantFloor (lu / model.cw)
  let j2 := tolerantCeil (ru / model.cw)
  if i1 < 0 ∨ j1 < 0 then .error "negative grid cell start index!\n"
  else if model.rows < i2 ∨ model.cols < j2 then .error "grid cell end index out of bounds!\n"
  else if i2 ≤ i1 ∨ j2 ≤ j1 then .error "invalid floorplan spec or grid resolution\n"
  else .ok ⟨i1.toNat, i2.toNat, j1.toNat, j2.toNat⟩

/-- The overlap tolerance: an overlap of nearly nothing is nothing, one of nearly a cell is a
cell. -/
def snap (overlap size : K) : K :=
  if near (overlap / size) 0 then 0 else if near (overlap / size) 1 then size else overlap

/-- The occupancy of a unit in a cell it extends over, if it is not negative. -/
def occupancy? (model : GridSize K) (unit : FlpUnit K) (g : Glist) (i j : ℕ) : Option K :=
  if g.i1 < i ∧ i + 1 < g.i2 ∧ g.j1 < j ∧ j + 1 < g.j2 then some 1
  else
    let lu := unit.leftx
    let ru := lu + unit.width
    let bu := unit.bottomy
    let tu := bu + unit.height
    let lc := j * model.cw
    let rc := (j + 1) * model.cw
    let tc := model.height - i * model.ch
    let bc := model.height - (i + 1) * model.ch
    let oh := snap (min tu tc - max bu bc) model.ch
    let ow := snap (min ru rc - max lu lc) model.cw
    if oh < 0 ∨ ow < 0 then none else some (oh * ow / (model.ch * model.cw))

def Glist.Covers (g : Glist) (i j : ℕ) : Prop := (g.i1 ≤ i ∧ i < g.i2) ∧ g.j1 ≤ j ∧ j < g.j2

instance (g : Glist) (i j : ℕ) : Decidable (g.Covers i j) := inferInstanceAs (Decidable (_ ∧ _))

/-- What the lists see of a unit. -/
def occupant (model : GridSize K) (layer : FlpLayer K) (unit : FlpUnit K) (u : ℕ)
    (occupancy : K) : Occupant K where
  idx := u
  occupancy := occupancy
  res := if unit.hasRes && model.detailed3DUsed then unit.resistivity else 1 / layer.k
  sh := if unit.hasSh && model.detailed3DUsed then unit.specificheat else layer.sp
  hasSh := unit.hasSh

/-- No overlap of a unit with the cells it extends over is negative. -/
def overlapsAll (model : GridSize K) (unit : FlpUnit K) (g : Glist) : Bool :=
  (List.range' g.i1 (g.i2 - g.i1)).all fun i =>
    (List.range' g.j1 (g.j2 - g.j1)).all fun j => (occupancy? model unit g i j).isSome

/-- One unit enters the maps. The cells are independent of each other. -/
def mapUnit (model : GridSize K) (layer : FlpLayer K) (maps : Maps K) (unit : FlpUnit K × ℕ) :
    Except String (Maps K) :=
  match extent model unit.1 with
  | .error message => .error message
  | .ok g =>
    if overlapsAll model unit.1 g then
      .ok {
        g2bmap := maps.g2bmap ++ [g]
        b2gmap := fun i j =>
          if g.Covers i j then
            (occupancy? model unit.1 g i j).map fun occupancy =>
              place model layer (maps.b2gmap i j) (occupant model layer unit.1 unit.2 occupancy)
          else maps.b2gmap i j }
    else .error "negative overlap!\n"

def setBgmap (model : GridSize K) (layer : FlpLayer K) : Except String (Maps K) :=
  layer.flp.zipIdx.foldlM (mapUnit model layer) ⟨fun _ _ => none, []⟩

/-! ## Translating vectors -/

omit [FloorRing K]

inductive VectorType where
  | V_POWER
  | V_TEMP
  deriving DecidableEq

inductive MapMode where
  | GRID_AVG
  | GRID_MIN
  | GRID_MAX
  | GRID_CENTER
  deriving DecidableEq

/-- A layer as the translations see it, with cells for each of its blocks. -/
structure MappedLayer (K : Type*) where
  flp : List (FlpUnit K)
  maps : Maps K
  sized : maps.g2bmap.length = flp.length

/-- A grid model as the translations see it, with the number of its package nodes. -/
structure MappedModel (K : Type*) where
  size : GridSize K
  layers : List (MappedLayer K)
  extraNodes : ℕ
  mapMode : MapMode

/-- A vector over the cells (layer, row, column) and the package nodes. -/
structure GridVector (K : Type*) where
  cuboid : ℕ → ℕ → ℕ → K
  extra : ℕ → K

/-- The average over a cell, weighted by occupancies. The values are those of the layer. -/
def blistAvg (cell : Option (Blist K)) (flp : List (FlpUnit K)) (v : ℕ → K) (type : VectorType) :
    K :=
  match cell with
  | none => 0
  | some head =>
    (head.blocks.map fun entry =>
      match type with
      | .V_POWER =>
        let area := (flp[entry.idx]?.map fun unit => unit.width * unit.height).getD 0
        entry.occupancy * v entry.idx / area
      | .V_TEMP => entry.occupancy * v entry.idx).sum

/-- Where the blocks of a layer begin in a block vector. -/
def base (layers : List (MappedLayer K)) (n : ℕ) : ℕ :=
  ((layers.take n).map fun layer => layer.flp.length).sum

def xlateVectorB2g (model : MappedModel K) (b : List K) (type : VectorType) : GridVector K where
  cuboid := fun n i j =>
    match model.layers[n]? with
    | none => 0
    | some layer =>
      let avg := blistAvg (layer.maps.b2gmap i j) layer.flp
        (fun u => b.getD (base model.layers n + u) 0) type
      match type with
      | .V_POWER => avg * (model.size.width * model.size.height /
          (model.size.cols * model.size.rows))
      | .V_TEMP => avg
  extra := fun i => b.getD (base model.layers model.layers.length + i) 0

/-- The temperature of a block with the cells `g`, by the mapping mode. -/
def blockTemp (mode : MapMode) (temp : ℕ → ℕ → K) (g : Glist) : K :=
  let rows := List.range' g.i1 (g.i2 - g.i1)
  let cols := List.range' g.j1 (g.j2 - g.j1)
  let cells := rows.flatMap fun i => cols.map fun j => temp i j
  match mode with
  | .GRID_CENTER =>
    let ci1 := (g.i1 + g.i2) / 2
    let cj1 := (g.j1 + g.j2) / 2
    let ci2 := if (g.i2 - g.i1) % 2 = 0 then ci1 - 1 else ci1
    let cj2 := if (g.j2 - g.j1) % 2 = 0 then cj1 - 1 else cj1
    (temp ci1 cj1 + temp ci2 cj1 + temp ci1 cj2 + temp ci2 cj2) / 4
  | .GRID_AVG => cells.sum / cells.length
  | .GRID_MIN => cells.foldl min (temp g.i1 g.j1)
  | .GRID_MAX => cells.foldl max (temp g.i1 g.j1)

def xlateTempG2b (model : MappedModel K) (g : GridVector K) : List K :=
  (model.layers.zipIdx.flatMap fun (layer, n) =>
    layer.maps.g2bmap.map fun cells => blockTemp model.mapMode (g.cuboid n) cells) ++
  (List.range model.extraNodes).map g.extra

end GpuHotSpot.HotSpotTool.BlockMap
