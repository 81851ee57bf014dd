import Mathlib.Algebra.BigOperators.Group.Finset.Basic
import Mathlib.Algebra.Order.Field.Basic
import Mathlib.Data.Fintype.Basic
import GpuHotSpot.Lib.Literals
import GpuHotSpot.Lib.Sweep

/-!
# The thermal grid

The two solvers of `temperature_grid.c`: one steady-state iteration, and the slopes of
the transient equation. Both write out the resistances of the grid cells and of the
package nodes around them, each for itself.

A package node is a kind of node on one of four sides. The equations of the sides
differ in the axis across the side and in the cells on the edge, so they are written
once for a kind.
-/

namespace GpuHotSpot.HotSpotTool.TemperatureGrid

open scoped Literals

/-! ## Nodes -/

inductive Side where
  | W
  | E
  | N
  | S
  deriving DecidableEq

instance : Fintype Side := ⟨{.W, .E, .N, .S}, by intro side; cases side <;> decide⟩

inductive Axis where
  | x
  | y
  deriving DecidableEq

/-- The kinds of package nodes: spreader, inner and outer heat sink; with the secondary heat path
substrate, solder balls, inner and outer printed circuit board. -/
inductive PackKind where
  | SP
  | SINK_C
  | SINK
  | SUB
  | SOLDER
  | PCB_C
  | PCB
  deriving DecidableEq

/-- A grid cell (layer, row, column), or a package node. -/
inductive Node where
  | cell (n i j : ℕ)
  | pack (kind : PackKind) (side : Side)
  deriving DecidableEq

/-- The axis across a side. -/
def Side.axis : Side → Axis
  | .W => .x
  | .E => .x
  | .N => .y
  | .S => .y

/-! ## The model -/

section Data

variable (K : Type*) [Field K] [LinearOrder K]

/-- Resistances and capacitances are positive. -/
abbrev Pos := {r : K // 0 < r}

/-- The resistors and the capacitor of a layer's cells. -/
structure Layer where
  rx : Pos K
  ry : Pos K
  rz : Pos K
  c : Pos K

/-- The thermal data that the block-grid map has for a cell. -/
structure CellData where
  hasRes : Bool
  lock : Bool
  rx : Pos K
  ry : Pos K
  rz : Pos K
  capacitance : Pos K

structure PackageRC where
  rSp1X : Pos K
  rSp1Y : Pos K
  rHs1X : Pos K
  rHs1Y : Pos K
  rHs2X : Pos K
  rHs2Y : Pos K
  rHs : Pos K
  rSpPerX : Pos K
  rSpPerY : Pos K
  rHsCPerX : Pos K
  rHsCPerY : Pos K
  rHsPer : Pos K
  cSpPerX : Pos K
  cSpPerY : Pos K
  cHsCPerX : Pos K
  cHsCPerY : Pos K
  cHsPer : Pos K
  rAmbCPerX : Pos K
  cAmbCPerX : Pos K
  rAmbCPerY : Pos K
  cAmbCPerY : Pos K
  rAmbPer : Pos K
  cAmbPer : Pos K
  rSub1X : Pos K
  rSub1Y : Pos K
  rSolder1X : Pos K
  rSolder1Y : Pos K
  rPcb1X : Pos K
  rPcb1Y : Pos K
  rPcb2X : Pos K
  rPcb2Y : Pos K
  rPcb : Pos K
  rSolderPerX : Pos K
  rSolderPerY : Pos K
  rPcbCPerX : Pos K
  rPcbCPerY : Pos K
  cSubPerX : Pos K
  cSubPerY : Pos K
  cSolderPerX : Pos K
  cSolderPerY : Pos K
  cPcbCPerX : Pos K
  cPcbCPerY : Pos K
  cPcbPer : Pos K
  rAmbSecCPerX : Pos K
  rAmbSecCPerY : Pos K
  cAmbSecCPerX : Pos K
  cAmbSecCPerY : Pos K
  rAmbSecPer : Pos K
  cAmbSecPer : Pos K

/-- A grid model. The package layers come on top of at least one layer of the chip: spreader and
sink last, and with the secondary path board, solder balls and substrate first. -/
structure GridModel where
  rows : ℕ
  cols : ℕ
  nLayers : ℕ
  width : Pos K
  height : Pos K
  layers : ℕ → Layer K
  b2gmap : ℕ → ℕ → ℕ → CellData K
  pack : PackageRC K
  ambient : K
  rConvecSec : Pos K
  sPcb : Pos K
  modelSecondary : Bool
  detailed3DUsed : Bool
  rows_pos : 0 < rows
  cols_pos : 0 < cols
  layers_le : 3 ≤ nLayers
  secondary_le : modelSecondary = true → 6 ≤ nLayers

end Data

variable {K : Type*} [Field K] [LinearOrder K]

/-- The resistance of a cell along an axis. -/
def Layer.r (layer : Layer K) : Axis → Pos K
  | .x => layer.rx
  | .y => layer.ry

namespace PackageRC

variable (pk : PackageRC K)

/-! The resistances and capacitances across an axis. -/

def rSp1 : Axis → Pos K
  | .x => pk.rSp1X
  | .y => pk.rSp1Y

def rHs1 : Axis → Pos K
  | .x => pk.rHs1X
  | .y => pk.rHs1Y

def rHs2 : Axis → Pos K
  | .x => pk.rHs2X
  | .y => pk.rHs2Y

def rSpPer : Axis → Pos K
  | .x => pk.rSpPerX
  | .y => pk.rSpPerY

def rHsCPer : Axis → Pos K
  | .x => pk.rHsCPerX
  | .y => pk.rHsCPerY

def cSpPer : Axis → Pos K
  | .x => pk.cSpPerX
  | .y => pk.cSpPerY

def cHsCPer : Axis → Pos K
  | .x => pk.cHsCPerX
  | .y => pk.cHsCPerY

def rAmbCPer : Axis → Pos K
  | .x => pk.rAmbCPerX
  | .y => pk.rAmbCPerY

def cAmbCPer : Axis → Pos K
  | .x => pk.cAmbCPerX
  | .y => pk.cAmbCPerY

def rSub1 : Axis → Pos K
  | .x => pk.rSub1X
  | .y => pk.rSub1Y

def rSolder1 : Axis → Pos K
  | .x => pk.rSolder1X
  | .y => pk.rSolder1Y

def rPcb1 : Axis → Pos K
  | .x => pk.rPcb1X
  | .y => pk.rPcb1Y

def rPcb2 : Axis → Pos K
  | .x => pk.rPcb2X
  | .y => pk.rPcb2Y

def rSolderPer : Axis → Pos K
  | .x => pk.rSolderPerX
  | .y => pk.rSolderPerY

def rPcbCPer : Axis → Pos K
  | .x => pk.rPcbCPerX
  | .y => pk.rPcbCPerY

def cSubPer : Axis → Pos K
  | .x => pk.cSubPerX
  | .y => pk.cSubPerY

def cSolderPer : Axis → Pos K
  | .x => pk.cSolderPerX
  | .y => pk.cSolderPerY

def cPcbCPer : Axis → Pos K
  | .x => pk.cPcbCPerX
  | .y => pk.cPcbCPerY

def rAmbSecCPer : Axis → Pos K
  | .x => pk.rAmbSecCPerX
  | .y => pk.rAmbSecCPerY

def cAmbSecCPer : Axis → Pos K
  | .x => pk.cAmbSecCPerX
  | .y => pk.cAmbSecCPerY

end PackageRC

namespace GridModel

variable (m : GridModel K)

def spidx : ℕ := m.nLayers - 2
def hsidx : ℕ := m.nLayers - 1
def subidx : ℕ := 2
def solderidx : ℕ := 1
def pcbidx : ℕ := 0

/-! ## Resistances between cells -/

/-- `find_res_3D` and `find_cap_3D`: a cell has data of its own or those of its layer. -/
def findResX (n i j : ℕ) : K := if (m.b2gmap n i j).hasRes then (m.b2gmap n i j).rx else (m.layers n).rx
def findResY (n i j : ℕ) : K := if (m.b2gmap n i j).hasRes then (m.b2gmap n i j).ry else (m.layers n).ry
def findResZ (n i j : ℕ) : K := if (m.b2gmap n i j).hasRes then (m.b2gmap n i j).rz else (m.layers n).rz

def findCap3D (n i j : ℕ) : K :=
  if (m.b2gmap n i j).lock then (m.b2gmap n i j).capacitance else (m.layers n).c

/-- The resistance between two adjacent cells. For cells that are not adjacent the source ends with
a fatal error; the solvers ask for neighbours only. -/
def findRes (a b : ℕ × ℕ × ℕ) : K :=
  let (n₁, i₁, j₁) := a
  let (n₂, i₂, j₂) := b
  if m.detailed3DUsed then
    if n₁ = 0 ∧ i₁ = i₂ ∧ j₁ = j₂ then m.findResZ n₁ i₁ j₁ + m.findResZ n₂ i₂ j₂ / 2
    else if n₂ = 0 ∧ i₁ = i₂ ∧ j₁ = j₂ then m.findResZ n₂ i₂ j₂ + m.findResZ n₁ i₁ j₁ / 2
    else if n₁ ≠ n₂ ∧ i₁ = i₂ ∧ j₁ = j₂ then m.findResZ n₁ i₁ j₁ / 2 + m.findResZ n₂ i₂ j₂ / 2
    else if n₁ = n₂ ∧ i₁ ≠ i₂ ∧ j₁ = j₂ then m.findResX n₁ i₁ j₁ / 2 + m.findResX n₂ i₂ j₂ / 2
    else if n₁ = n₂ ∧ i₁ = i₂ ∧ j₁ ≠ j₂ then m.findResY n₁ i₁ j₁ / 2 + m.findResY n₂ i₂ j₂ / 2
    else 0
  else
    if n₁ < n₂ ∧ i₁ = i₂ ∧ j₁ = j₂ then (m.layers n₁).rz
    else if n₂ < n₁ ∧ i₁ = i₂ ∧ j₁ = j₂ then (m.layers n₂).rz
    else if n₁ = n₂ ∧ i₁ ≠ i₂ ∧ j₁ = j₂ then (m.layers n₁).rx / 2 + (m.layers n₂).rx / 2
    else if n₁ = n₂ ∧ i₁ = i₂ ∧ j₁ ≠ j₂ then (m.layers n₁).ry / 2 + (m.layers n₂).ry / 2
    else 0

end GridModel

/-- The ways to the neighbours of a cell. -/
inductive Way where
  | north
  | south
  | east
  | west
  | above
  | below
  deriving DecidableEq

def Way.all : List Way := [.north, .south, .east, .west, .above, .below]

namespace GridModel

variable (m : GridModel K)

/-- The neighbour of a cell, unless it is on the boundary. -/
def next : Way → ℕ × ℕ × ℕ → Option (ℕ × ℕ × ℕ)
  | .north, (n, i, j) => if 0 < i then some (n, i - 1, j) else none
  | .south, (n, i, j) => if i < m.rows - 1 then some (n, i + 1, j) else none
  | .east, (n, i, j) => if j < m.cols - 1 then some (n, i, j + 1) else none
  | .west, (n, i, j) => if 0 < j then some (n, i, j - 1) else none
  | .below, (n, i, j) => if n < m.nLayers - 1 then some (n + 1, i, j) else none
  | .above, (n, i, j) => if 0 < n then some (n - 1, i, j) else none

/-- The resistance to a neighbour in the steady iteration: the macros `NC` to `AC`, and with
`detailed_3D` the macros `NC_det3D` to `AC_det3D`. -/
def steadyRes (way : Way) (a b : ℕ × ℕ × ℕ) : K :=
  if m.detailed3DUsed then
    match way with
    | .north => m.findResY b.1 b.2.1 b.2.2
    | .south => m.findResY b.1 b.2.1 b.2.2
    | .east => m.findResX b.1 b.2.1 b.2.2
    | .west => m.findResX b.1 b.2.1 b.2.2
    | .below => m.findResZ a.1 a.2.1 a.2.2
    | .above => m.findResZ b.1 b.2.1 b.2.2
  else m.findRes b a

/-! ## The rim of a layer -/

/-- The package nodes around a layer, and the resistance between them and a cell at the edge. -/
def rim (n : ℕ) : Option (PackKind × (Axis → Pos K)) :=
  if n = m.spidx then some (.SP, m.pack.rSp1)
  else if n = m.hsidx then some (.SINK_C, m.pack.rHs1)
  else if n = subidx ∧ m.modelSecondary then some (.SUB, m.pack.rSub1)
  else if n = solderidx ∧ m.modelSecondary then some (.SOLDER, m.pack.rSolder1)
  else if n = pcbidx ∧ m.modelSecondary then some (.PCB_C, m.pack.rPcb1)
  else none

/-- The number of cells along a side across `axis`. -/
def along : Axis → ℕ
  | .x => m.rows
  | .y => m.cols

/-- The resistance between a cell at the edge of a layer and the package node there: the cell has
half its resistance, and its part of `r1`. -/
def edgeRes (n : ℕ) (r1 : Axis → Pos K) (axis : Axis) : K :=
  ((m.layers n).r axis : K) / 2 + m.along axis * (r1 axis : K)

/-- A cell lies at a side of its layer. -/
def AtSide (i j : ℕ) : Side → Prop
  | .N => i = 0
  | .S => i = m.rows - 1
  | .E => j = m.cols - 1
  | .W => j = 0

instance (i j : ℕ) (side : Side) : Decidable (m.AtSide i j side) := by
  cases side <;> exact inferInstanceAs (Decidable (_ = _))

/-- The resistance to ambient of the cells of a layer: of the sink, and of the board. -/
def ambientRes (n : ℕ) : Option K :=
  if n = m.spidx then none
  else if n = m.hsidx then some (m.layers n).rz
  else if n = pcbidx ∧ m.modelSecondary then
    let cw := (m.width : K) / m.cols
    let ch := (m.height : K) / m.rows
    some (m.rConvecSec * (m.sPcb * m.sPcb) / (cw * ch))
  else none

/-- What the sides of a layer add in a cell, of a value for each package node and resistance. -/
def rimSum (n i j : ℕ) (f : Node → K → K) : K :=
  match m.rim n with
  | none => 0
  | some (kind, r1) =>
    (if m.AtSide i j .N then f (.pack kind .N) (m.edgeRes n r1 .y) else 0) +
    (if m.AtSide i j .S then f (.pack kind .S) (m.edgeRes n r1 .y) else 0) +
    (if m.AtSide i j .E then f (.pack kind .E) (m.edgeRes n r1 .x) else 0) +
    (if m.AtSide i j .W then f (.pack kind .W) (m.edgeRes n r1 .x) else 0)

/-- What ambient adds in a cell. -/
def ambientSum (n : ℕ) (f : K → K) : K := (m.ambientRes n).elim 0 f

/-! ## The steady iteration -/

/-- The sum of the conductances of a cell. -/
def steadyCsum (n i j : ℕ) : K :=
  (Way.all.map fun way =>
    (m.next way (n, i, j)).elim 0 fun b =>
      1 / m.steadyRes way (n, i, j) b).sum +
  m.rimSum n i j (fun _ r => 1 / r) + m.ambientSum n (fun r => 1 / r)

/-- The temperatures around a cell, weighted by the conductances. -/
def steadyWsum (v : Node → K) (n i j : ℕ) : K :=
  (Way.all.map fun way =>
    (m.next way (n, i, j)).elim 0 fun b =>
      v (.cell b.1 b.2.1 b.2.2) / m.steadyRes way (n, i, j) b).sum +
  m.rimSum n i j (fun x r => v x / r) + m.ambientSum n (fun r => m.ambient / r)

/-- The cells at a side, by row and column. -/
def edge : Side → List (ℕ × ℕ)
  | .N => (List.range m.cols).map fun j => (0, j)
  | .S => (List.range m.cols).map fun j => (m.rows - 1, j)
  | .W => (List.range m.rows).map fun i => (i, 0)
  | .E => (List.range m.rows).map fun i => (i, m.cols - 1)

/-- What the cells at a side of a layer add up to. -/
def edgeSum (n : ℕ) (side : Side) (f : Node → K) : K :=
  ((m.edge side).map fun c => f (.cell n c.1 c.2)).sum

/-- The sum of the conductances of a package node. -/
def packCsum (kind : PackKind) (side : Side) : K :=
  let pk := m.pack
  let a := side.axis
  match kind with
  | .SINK => 1 / (pk.rHsPer + pk.rAmbPer : K) + 1 / (pk.rHs2 a + pk.rHs : K)
  | .SINK_C =>
    m.along a / m.edgeRes m.hsidx pk.rHs1 a +
      (1 / (pk.rHsCPer a + pk.rAmbCPer a : K) + 1 / (pk.rSpPer a : K) +
        1 / (pk.rHs2 a + pk.rHs : K))
  | .SP => m.along a / m.edgeRes m.spidx pk.rSp1 a + 1 / (pk.rSpPer a : K)
  | .PCB => 1 / (pk.rAmbSecPer : K) + 1 / (pk.rPcb2 a + pk.rPcb : K)
  | .PCB_C =>
    m.along a / m.edgeRes pcbidx pk.rPcb1 a +
      (1 / (pk.rAmbSecCPer a : K) + 1 / (pk.rPcbCPer a : K) + 1 / (pk.rPcb2 a + pk.rPcb : K))
  | .SOLDER =>
    m.along a / m.edgeRes solderidx pk.rSolder1 a +
      (1 / (pk.rSolderPer a : K) + 1 / (pk.rPcbCPer a : K))
  | .SUB => m.along a / m.edgeRes subidx pk.rSub1 a + 1 / (pk.rSolderPer a : K)

/-- The temperatures around a package node, weighted by the conductances. -/
def packWsum (v : Node → K) (kind : PackKind) (side : Side) : K :=
  let pk := m.pack
  let a := side.axis
  match kind with
  | .SINK =>
    m.ambient / (pk.rHsPer + pk.rAmbPer : K) + v (.pack .SINK_C side) / (pk.rHs2 a + pk.rHs : K)
  | .SINK_C =>
    m.edgeSum m.hsidx side v / m.edgeRes m.hsidx pk.rHs1 a +
      (m.ambient / (pk.rHsCPer a + pk.rAmbCPer a : K) + v (.pack .SP side) / (pk.rSpPer a : K) +
        v (.pack .SINK side) / (pk.rHs2 a + pk.rHs : K))
  | .SP =>
    m.edgeSum m.spidx side v / m.edgeRes m.spidx pk.rSp1 a +
      v (.pack .SINK_C side) / (pk.rSpPer a : K)
  | .PCB =>
    m.ambient / (pk.rAmbSecPer : K) + v (.pack .PCB_C side) / (pk.rPcb2 a + pk.rPcb : K)
  | .PCB_C =>
    m.edgeSum pcbidx side v / m.edgeRes pcbidx pk.rPcb1 a +
      (m.ambient / (pk.rAmbSecCPer a : K) + v (.pack .SOLDER side) / (pk.rPcbCPer a : K) +
        v (.pack .PCB side) / (pk.rPcb2 a + pk.rPcb : K))
  | .SOLDER =>
    m.edgeSum solderidx side v / m.edgeRes solderidx pk.rSolder1 a +
      (v (.pack .PCB_C side) / (pk.rPcbCPer a : K) + v (.pack .SUB side) / (pk.rSolderPer a : K))
  | .SUB =>
    m.edgeSum subidx side v / m.edgeRes subidx pk.rSub1 a +
      v (.pack .SOLDER side) / (pk.rSolderPer a : K)

/-- The package nodes of the model, in the order of the iteration. -/
def packNodes : List Node :=
  (([.SINK, .SINK_C, .SP] ++ if m.modelSecondary then [.PCB, .PCB_C, .SOLDER, .SUB] else []) :
    List PackKind).flatMap fun kind => [.pack kind .N, .pack kind .S, .pack kind .W, .pack kind .E]

/-- The grid cells, in the order of the iteration. -/
def cellNodes : List Node :=
  (List.range m.nLayers).flatMap fun n =>
    (List.range m.rows).flatMap fun i => (List.range m.cols).map fun j => .cell n i j

def nodes : List Node := m.cellNodes ++ m.packNodes

/-- The temperature that the iteration gives a node. -/
def steadyTemp (power : ℕ → ℕ → ℕ → K) (v : Node → K) : Node → K
  | .cell n i j => (power n i j + m.steadyWsum v n i j) / m.steadyCsum n i j
  | .pack kind side => m.packWsum v kind side / m.packCsum kind side

/-- `single_iteration_steady_grid`, which ends with `single_iteration_steady_pack`: the
temperatures, updated in place, and the largest change. -/
def singleIterationSteady (power : ℕ → ℕ → ℕ → K) (v : Node → K) : (Node → K) × K :=
  sweep (m.steadyTemp power) m.nodes v

/-! ## The slopes -/

/-- The heat flow into a cell from its neighbours, its rim and ambient. -/
def slopeSum (v : Node → K) (n i j : ℕ) : K :=
  (Way.all.map fun way =>
    (m.next way (n, i, j)).elim 0 fun b =>
      (v (.cell b.1 b.2.1 b.2.2) - v (.cell n i j)) / m.findRes b (n, i, j)).sum +
  m.rimSum n i j (fun x r => (v x - v (.cell n i j)) / r) +
  m.ambientSum n (fun r => (m.ambient - v (.cell n i j)) / r)

/-- The heat flow into a package node. -/
def packPsum (v : Node → K) (kind : PackKind) (side : Side) : K :=
  let pk := m.pack
  let a := side.axis
  let x := fun kind => v (.pack kind side)
  match kind with
  | .SINK =>
    (m.ambient - x .SINK) / (pk.rHsPer + pk.rAmbPer : K) +
      (x .SINK_C - x .SINK) / (pk.rHs2 a + pk.rHs : K)
  | .SINK_C =>
    m.edgeSum m.hsidx side (fun c => v c - x .SINK_C) / m.edgeRes m.hsidx pk.rHs1 a +
      ((m.ambient - x .SINK_C) / (pk.rHsCPer a + pk.rAmbCPer a : K) +
        (x .SP - x .SINK_C) / (pk.rSpPer a : K) +
        (x .SINK - x .SINK_C) / (pk.rHs2 a + pk.rHs : K))
  | .SP =>
    m.edgeSum m.spidx side (fun c => v c - x .SP) / m.edgeRes m.spidx pk.rSp1 a +
      (x .SINK_C - x .SP) / (pk.rSpPer a : K)
  | .PCB =>
    (m.ambient - x .PCB) / (pk.rAmbSecPer : K) +
      (x .PCB_C - x .PCB) / (pk.rPcb2 a + pk.rPcb : K)
  | .PCB_C =>
    m.edgeSum pcbidx side (fun c => v c - x .PCB_C) / m.edgeRes pcbidx pk.rPcb1 a +
      ((m.ambient - x .PCB_C) / (pk.rAmbSecCPer a : K) +
        (x .SOLDER - x .PCB_C) / (pk.rPcbCPer a : K) +
        (x .PCB - x .PCB_C) / (pk.rPcb2 a + pk.rPcb : K))
  -- the substrate is missing here
  | .SOLDER =>
    m.edgeSum solderidx side (fun c => v c - x .SOLDER) / m.edgeRes solderidx pk.rSolder1 a +
      (x .PCB_C - x .SOLDER) / (pk.rPcbCPer a : K)
  | .SUB =>
    m.edgeSum subidx side (fun c => v c - x .SUB) / m.edgeRes subidx pk.rSub1 a +
      (x .SOLDER - x .SUB) / (pk.rSolderPer a : K)

/-- The capacitance of a node. -/
def capacitance : Node → K
  | .cell n i j => if m.detailed3DUsed then m.findCap3D n i j else (m.layers n).c
  | .pack .SINK _ => m.pack.cHsPer + m.pack.cAmbPer
  | .pack .SINK_C side => m.pack.cHsCPer side.axis + m.pack.cAmbCPer side.axis
  | .pack .SP side => m.pack.cSpPer side.axis
  | .pack .PCB _ => m.pack.cPcbPer + m.pack.cAmbSecPer
  | .pack .PCB_C side => m.pack.cPcbCPer side.axis + m.pack.cAmbSecCPer side.axis
  | .pack .SOLDER side => m.pack.cSolderPer side.axis
  | .pack .SUB side => m.pack.cSubPer side.axis

/-- `slope_fn_grid`, which ends with `slope_fn_pack`. -/
def slopeFnGrid (power : ℕ → ℕ → ℕ → K) (v : Node → K) : Node → K
  | .cell n i j => (power n i j + m.slopeSum v n i j) / m.capacitance (.cell n i j)
  | .pack kind side => m.packPsum v kind side / m.capacitance (.pack kind side)

end GridModel

end GpuHotSpot.HotSpotTool.TemperatureGrid
