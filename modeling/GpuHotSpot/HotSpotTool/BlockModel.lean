import GpuHotSpot.HotSpotTool.LinearSolver
import GpuHotSpot.Lib.Scatter
import GpuHotSpot.Lib.Tiling

/-!
# The block model

The conductance matrix of the block thermal model and its steady state,
`temperature_block.c`, in exact arithmetic.  Each unit of the floorplan has one node in
every layer (silicon, interface, spreader, sink); twelve more nodes stand for the parts of
spreader and sink around the die.

* `divisors`: everything `populatePackageR` and `populateRModelBlock` divide by.
-/

namespace GpuHotSpot.HotSpotTool.Block

open LinearSolver
open scoped Literals

variable {K : Type} [Field K] [LinearOrder K]

/-! ## Configuration -/

/-- The fields of `thermal_config_t` that the block model reads. -/
structure ThermalConfig (K : Type) where
  tChip : K
  kChip : K
  rConvec : K
  sSink : K
  tSink : K
  kSink : K
  sSpreader : K
  tSpreader : K
  kSpreader : K
  tInterface : K
  kInterface : K
  ambient : K
  blockOmitLateral : Bool

/-- The checks of `thermal_config_add_from_strs` on these fields. -/
def ThermalConfig.Accepted (config : ThermalConfig K) : Prop :=
  ¬ (config.tChip ≤ 0 ∨ config.sSink ≤ 0 ∨ config.tSink ≤ 0 ∨ config.sSpreader ≤ 0 ∨
    config.tSpreader ≤ 0 ∨ config.tInterface ≤ 0) ∧
  ¬ (config.rConvec < 0 ∨ config.ambient < 0)

instance (config : ThermalConfig K) : Decidable config.Accepted :=
  inferInstanceAs (Decidable (_ ∧ _))

/-- `getr`. -/
def getr (conductivity thickness area : K) : K := thickness / (conductivity * area)

/-- `package_RC_t`: the resistances of the path through spreader and sink. -/
structure PackageR (K : Type) where
  rSp1X : K
  rSp1Y : K
  rHs1X : K
  rHs1Y : K
  rHs2X : K
  rHs2Y : K
  rHs : K
  rSpPerX : K
  rSpPerY : K
  rHsCPerX : K
  rHsCPerY : K
  rHsPer : K
  rAmbCPerX : K
  rAmbCPerY : K
  rAmbPer : K

/-- `populate_package_R`, without the resistances of the secondary heat path and what they are
divided by. -/
def populatePackageR (config : ThermalConfig K) (width height : K) : PackageR K :=
  let sSpreader := config.sSpreader
  let tSpreader := config.tSpreader
  let sSink := config.sSink
  let tSink := config.tSink
  let rConvec := config.rConvec
  let kSink := config.kSink
  let kSpreader := config.kSpreader
  { -- lateral resistances of spreader and sink
    rSp1X := getr kSpreader ((sSpreader - width) / 4) ((sSpreader + 3 * height) / 4 * tSpreader)
    rSp1Y := getr kSpreader ((sSpreader - height) / 4) ((sSpreader + 3 * width) / 4 * tSpreader)
    rHs1X := getr kSink ((sSpreader - width) / 4) ((sSpreader + 3 * height) / 4 * tSink)
    rHs1Y := getr kSink ((sSpreader - height) / 4) ((sSpreader + 3 * width) / 4 * tSink)
    rHs2X := getr kSink ((sSpreader - width) / 4) ((3 * sSpreader + height) / 4 * tSink)
    rHs2Y := getr kSink ((sSpreader - height) / 4) ((3 * sSpreader + width) / 4 * tSink)
    rHs := getr kSink ((sSink - sSpreader) / 4) ((sSink + 3 * sSpreader) / 4 * tSink)
    -- vertical resistances of spreader and sink
    rSpPerX := getr kSpreader tSpreader ((sSpreader + height) * (sSpreader - width) / 4)
    rSpPerY := getr kSpreader tSpreader ((sSpreader + width) * (sSpreader - height) / 4)
    rHsCPerX := getr kSink tSink ((sSpreader + height) * (sSpreader - width) / 4)
    rHsCPerY := getr kSink tSink ((sSpreader + width) * (sSpreader - height) / 4)
    rHsPer := getr kSink tSink ((sSink * sSink - sSpreader * sSpreader) / 4)
    -- vertical resistances to ambient
    rAmbCPerX := rConvec * (sSink * sSink) / ((sSpreader + height) * (sSpreader - width) / 4)
    rAmbCPerY := rConvec * (sSink * sSink) / ((sSpreader + width) * (sSpreader - height) / 4)
    rAmbPer := rConvec * (sSink * sSink) / ((sSink * sSink - sSpreader * sSpreader) / 4) }

/-- What `populate_package_R` divides by. -/
def packageDivisors (config : ThermalConfig K) (width height : K) : List K :=
  let sSpreader := config.sSpreader
  let tSpreader := config.tSpreader
  let sSink := config.sSink
  let tSink := config.tSink
  let kSink := config.kSink
  let kSpreader := config.kSpreader
  [kSpreader * ((sSpreader + 3 * height) / 4 * tSpreader),
    kSpreader * ((sSpreader + 3 * width) / 4 * tSpreader),
    kSink * ((sSpreader + 3 * height) / 4 * tSink),
    kSink * ((sSpreader + 3 * width) / 4 * tSink),
    kSink * ((3 * sSpreader + height) / 4 * tSink),
    kSink * ((3 * sSpreader + width) / 4 * tSink),
    kSink * ((sSink + 3 * sSpreader) / 4 * tSink),
    kSpreader * ((sSpreader + height) * (sSpreader - width) / 4),
    kSpreader * ((sSpreader + width) * (sSpreader - height) / 4),
    kSink * ((sSpreader + height) * (sSpreader - width) / 4),
    kSink * ((sSpreader + width) * (sSpreader - height) / 4),
    kSink * ((sSink * sSink - sSpreader * sSpreader) / 4),
    (sSpreader + height) * (sSpreader - width) / 4,
    (sSpreader + width) * (sSpreader - height) / 4,
    (sSink * sSink - sSpreader * sSpreader) / 4]

/-! ## Floorplan -/

/-- `flp->units[i]`. -/
def unit (flp : List (Rect K)) (i : ℕ) : Rect K := flp.getD i ⟨0, 0, 0, 0⟩

/-- `get_total_width`. -/
def getTotalWidth (flp : List (Rect K)) : K :=
  flp.tail.foldl (fun m u => if u.leftx + u.width > m then u.leftx + u.width else m)
      ((unit flp 0).leftx + (unit flp 0).width) -
    flp.tail.foldl (fun m u => if u.leftx < m then u.leftx else m) (unit flp 0).leftx

/-- `get_total_height`. -/
def getTotalHeight (flp : List (Rect K)) : K :=
  flp.tail.foldl (fun m u => if u.bottomy + u.height > m then u.bottomy + u.height else m)
      ((unit flp 0).bottomy + (unit flp 0).height) -
    flp.tail.foldl (fun m u => if u.bottomy < m then u.bottomy else m) (unit flp 0).bottomy

/-- The units touch at a corner only. -/
def AtCorner (u v : Rect K) : Prop :=
  (near (u.leftx + u.width) v.leftx ∧ near (u.bottomy + u.height) v.bottomy) ∨
  (near u.leftx (v.leftx + v.width) ∧ near u.bottomy (v.bottomy + v.height)) ∨
  (near (u.leftx + u.width) v.leftx ∧ near u.bottomy (v.bottomy + v.height)) ∨
  (near u.leftx (v.leftx + v.width) ∧ near (u.bottomy + u.height) v.bottomy)

/-- An end of one of the intervals from `a` to `b` and from `c` to `d` is in the other. -/
def Meets (a b c d : K) : Prop :=
  (c ≥ a ∧ c ≤ b) ∨ (d ≥ a ∧ d ≤ b) ∨ (a ≥ c ∧ a ≤ d) ∨ (b ≥ c ∧ b ≤ d)

/-- `is_horiz_adj`. -/
def IsHorizAdj (flp : List (Rect K)) (i j : ℕ) : Prop :=
  let u := unit flp i
  let v := unit flp j
  i ≠ j ∧ ¬ AtCorner u v ∧
    (near u.leftx (v.leftx + v.width) ∨ near (u.leftx + u.width) v.leftx) ∧
    Meets u.bottomy (u.bottomy + u.height) v.bottomy (v.bottomy + v.height)

/-- `is_vert_adj`. -/
def IsVertAdj (flp : List (Rect K)) (i j : ℕ) : Prop :=
  let u := unit flp i
  let v := unit flp j
  i ≠ j ∧ ¬ AtCorner u v ∧
    (near u.bottomy (v.bottomy + v.height) ∨ near (u.bottomy + u.height) v.bottomy) ∧
    Meets u.leftx (u.leftx + u.width) v.leftx (v.leftx + v.width)

instance (u v : Rect K) : Decidable (AtCorner u v) := inferInstanceAs (Decidable (_ ∨ _))

instance (a b c d : K) : Decidable (Meets a b c d) := inferInstanceAs (Decidable (_ ∨ _))

instance (flp : List (Rect K)) (i j : ℕ) : Decidable (IsHorizAdj flp i j) :=
  inferInstanceAs (Decidable (_ ∧ _))

instance (flp : List (Rect K)) (i j : ℕ) : Decidable (IsVertAdj flp i j) :=
  inferInstanceAs (Decidable (_ ∧ _))

/-- `get_shared_len`: what a vertical adjacency sets replaces what a horizontal one set. -/
def getSharedLen (flp : List (Rect K)) (i j : ℕ) : K :=
  let u := unit flp i
  let v := unit flp j
  if i = j then 0
  else if IsVertAdj flp i j then
    min (u.leftx + u.width) (v.leftx + v.width) - max u.leftx v.leftx
  else if IsHorizAdj flp i j then
    min (u.bottomy + u.height) (v.bottomy + v.height) - max u.bottomy v.bottomy
  else 0

/-- The matrix `len`, which is filled from its upper half. -/
def len (flp : List (Rect K)) (i j : ℕ) : K := getSharedLen flp (min i j) (max i j)

/-! ## Conductances -/

/-- Number of layers of block nodes. -/
def NL : ℕ := 4

def IFACE : ℕ := 1

def HSP : ℕ := 2

def HSINK : ℕ := 3

/-- Number of package nodes. -/
def EXTRA : ℕ := 12

def SP_W : ℕ := 0

def SP_E : ℕ := 1

def SP_N : ℕ := 2

def SP_S : ℕ := 3

def SINK_C_W : ℕ := 4

def SINK_C_E : ℕ := 5

def SINK_C_N : ℕ := 6

def SINK_C_S : ℕ := 7

def SINK_W : ℕ := 8

def SINK_E : ℕ := 9

def SINK_N : ℕ := 10

def SINK_S : ℕ := 11

section Conductances

variable (config : ThermalConfig K) (flp : List (Rect K))

/-- The lumped conductance of a unit in x direction, in a layer of a material. -/
def lumpedX (k t : K) (u : Rect K) : K := 1 / getr k (u.width / 2) (u.height * t)

/-- The lumped conductance of a unit in y direction, in a layer of a material. -/
def lumpedY (k t : K) (u : Rect K) : K := 1 / getr k (u.height / 2) (u.width * t)

def gx (u : Rect K) : K :=
  if config.blockOmitLateral then 0 else lumpedX config.kChip config.tChip u

def gy (u : Rect K) : K :=
  if config.blockOmitLateral then 0 else lumpedY config.kChip config.tChip u

def gxInt : Rect K → K := lumpedX config.kInterface config.tInterface

def gyInt : Rect K → K := lumpedY config.kInterface config.tInterface

def gxSp : Rect K → K := lumpedX config.kSpreader config.tSpreader

def gySp : Rect K → K := lumpedY config.kSpreader config.tSpreader

def gxHs : Rect K → K := lumpedX config.kSink config.tSink

def gyHs : Rect K → K := lumpedY config.kSink config.tSink

/-- `border[i][2]`: the unit is on the northern border. -/
def onNorth (u : Rect K) : Prop := near (u.bottomy + u.height) (getTotalHeight flp)

/-- `border[i][3]`: the unit is on the southern border. -/
def onSouth (u : Rect K) : Prop := near u.bottomy 0

/-- `border[i][1]`: the unit is on the eastern border. -/
def onEast (u : Rect K) : Prop := near (u.leftx + u.width) (getTotalWidth flp)

/-- `border[i][0]`: the unit is on the western border. -/
def onWest (u : Rect K) : Prop := near u.leftx 0

instance (u : Rect K) : Decidable (onNorth flp u) := inferInstanceAs (Decidable (near _ _))

instance (u : Rect K) : Decidable (onSouth u) := inferInstanceAs (Decidable (near _ _))

instance (u : Rect K) : Decidable (onEast flp u) := inferInstanceAs (Decidable (near _ _))

instance (u : Rect K) : Decidable (onWest u) := inferInstanceAs (Decidable (near _ _))

/-- The conductances of the units at a border, added up: `gn_sp` and its siblings. -/
def borderSum (atBorder : Rect K → Prop) [DecidablePred atBorder] (g : Rect K → K) : K :=
  (flp.map fun u => if atBorder u then g u else 0).sum

/-- A unit at a border and the package node beyond it; `r` is the lateral resistance of the
package, shared by all units at the border. -/
def borderLink (atBorder : Rect K → Prop) [DecidablePred atBorder] (g : Rect K → K) (r : K)
    (u : Rect K) : K :=
  2 * (if atBorder u then 1 else 0) / (1 / g u + r * borderSum flp atBorder g / g u)

/-- An assignment to an element of a matrix. -/
structure Write (K : Type) where
  row : ℕ
  col : ℕ
  value : K

/-- `g[p][q] = g[q][p] = v`. -/
def both (p q : ℕ) (v : K) : List (Write K) := [⟨p, q, v⟩, ⟨q, p, v⟩]

/-- The part of a lumped conductance per length of the shared edge. -/
def part (gx gy : Rect K → K) (i j : ℕ) : K :=
  let u := unit flp i
  if IsHorizAdj flp i j then gx u / u.height
  else if IsVertAdj flp i j then gy u / u.width
  else 0

/-- Between units `i` and `j` in the four layers. -/
def lateralWrites (n i j : ℕ) : List (Write K) :=
  [⟨i, j, part flp (gx config) (gy config) i j * len flp i j⟩,
    ⟨IFACE * n + i, IFACE * n + j, part flp (gxInt config) (gyInt config) i j * len flp i j⟩,
    ⟨HSP * n + i, HSP * n + j, part flp (gxSp config) (gySp config) i j * len flp i j⟩,
    ⟨HSINK * n + i, HSINK * n + j, part flp (gxHs config) (gyHs config) i j * len flp i j⟩]

/-- Between the layers. -/
def verticalWrites (n i : ℕ) : List (Write K) :=
  let area := (unit flp i).height * (unit flp i).width
  both i (IFACE * n + i) (2 / getr config.kChip config.tChip area) ++
  both (IFACE * n + i) (HSP * n + i) (2 / getr config.kInterface config.tInterface area) ++
  both (HSP * n + i) (HSINK * n + i) (2 / getr config.kSpreader config.tSpreader area)

/-- From unit `i` to the peripheral nodes of spreader and sink. -/
def peripheralWrites (pack : PackageR K) (n i : ℕ) : List (Write K) :=
  let u := unit flp i
  both (HSP * n + i) (NL * n + SP_N) (borderLink flp (onNorth flp) (gySp config) pack.rSp1Y u) ++
  both (HSP * n + i) (NL * n + SP_S) (borderLink flp onSouth (gySp config) pack.rSp1Y u) ++
  both (HSP * n + i) (NL * n + SP_E) (borderLink flp (onEast flp) (gxSp config) pack.rSp1X u) ++
  both (HSP * n + i) (NL * n + SP_W) (borderLink flp onWest (gxSp config) pack.rSp1X u) ++
  both (HSINK * n + i) (NL * n + SINK_C_N)
    (borderLink flp (onNorth flp) (gyHs config) pack.rHs1Y u) ++
  both (HSINK * n + i) (NL * n + SINK_C_S) (borderLink flp onSouth (gyHs config) pack.rHs1Y u) ++
  both (HSINK * n + i) (NL * n + SINK_C_E)
    (borderLink flp (onEast flp) (gxHs config) pack.rHs1X u) ++
  both (HSINK * n + i) (NL * n + SINK_C_W) (borderLink flp onWest (gxHs config) pack.rHs1X u)

/-- Among the peripheral nodes. -/
def packageWrites (pack : PackageR K) (n : ℕ) : List (Write K) :=
  both (NL * n + SP_N) (NL * n + SINK_C_N) (2 / pack.rSpPerY) ++
  both (NL * n + SP_S) (NL * n + SINK_C_S) (2 / pack.rSpPerY) ++
  both (NL * n + SP_E) (NL * n + SINK_C_E) (2 / pack.rSpPerX) ++
  both (NL * n + SP_W) (NL * n + SINK_C_W) (2 / pack.rSpPerX) ++
  both (NL * n + SINK_C_N) (NL * n + SINK_N) (2 / (pack.rHs + pack.rHs2Y)) ++
  both (NL * n + SINK_C_S) (NL * n + SINK_S) (2 / (pack.rHs + pack.rHs2Y)) ++
  both (NL * n + SINK_C_E) (NL * n + SINK_E) (2 / (pack.rHs + pack.rHs2X)) ++
  both (NL * n + SINK_C_W) (NL * n + SINK_W) (2 / (pack.rHs + pack.rHs2X))

/-- `model->pack` after `populate_package_R`. -/
def pack : PackageR K := populatePackageR config (getTotalWidth flp) (getTotalHeight flp)

/-- All assignments to `g` in order. -/
def gWrites : List (Write K) :=
  let n := flp.length
  ((List.range n).flatMap fun i =>
    (List.range n).flatMap (lateralWrites config flp n i) ++ verticalWrites config flp n i ++
      peripheralWrites config flp (pack config flp) n i) ++
  packageWrites (pack config flp) n

/-- The matrix `g`, zero before the assignments. -/
def g (p q : ℕ) : K :=
  scatter (fun w : Write K => (w.row, w.col)) Write.value (gWrites config flp) 0 (p, q)

/-- `g_amb[i]` of unit `i` in the sink. -/
def gAmbUnit (u : Rect K) : K :=
  let area := u.height * u.width
  let rAmb := config.rConvec * (config.sSink * config.sSink) / area
  1 / (getr config.kSink config.tSink area + rAmb)

/-- The vector `g_amb`. -/
def gAmb (q : ℕ) : K :=
  let n := flp.length
  let pk := pack config flp
  if q < n then gAmbUnit config (unit flp q)
  else if q = n + SINK_C_N ∨ q = n + SINK_C_S then 1 / (pk.rHsCPerY + pk.rAmbCPerY)
  else if q = n + SINK_C_E ∨ q = n + SINK_C_W then 1 / (pk.rHsCPerX + pk.rAmbCPerX)
  else if q = n + SINK_N ∨ q = n + SINK_S ∨ q = n + SINK_E ∨ q = n + SINK_W then
    1 / (pk.rHsPer + pk.rAmbPer)
  else 0

/-- Off the diagonal of `b`, for `j < i`. -/
def bOff (i j : ℕ) : K :=
  if g config flp i j = 0 ∨ g config flp j i = 0 then 0
  else -1 / (1 / g config flp i j + 1 / g config flp j i)

/-- Off the diagonal of `b`, which is filled from its lower half. -/
def bSym (i j : ℕ) : K := if j < i then bOff config flp i j else bOff config flp j i

/-- On the diagonal of `b` before the conductances are summed up. -/
def bGround (i : ℕ) : K :=
  let n := flp.length
  if i ≥ HSINK * n ∧ i < NL * n then gAmb config flp (i % n)
  else if i ≥ NL * n + SINK_C_W then gAmb config flp (n + i - NL * n)
  else 0

/-- Number of nodes. -/
def nNodes : ℕ := NL * flp.length + EXTRA

/-- The matrix `b`. -/
def b (i j : ℕ) : K :=
  if i = j then
    bGround config flp i -
      ∑ k ∈ (Finset.range (nNodes flp)).erase i, bSym config flp i k
  else bSym config flp i j

end Conductances

/-! ## The model -/

/-- The calls of `fatal` in the functions. -/
inductive Fatal
  | inordinateFloorplanSize
  | singularMatrix
  deriving DecidableEq, Repr

/-- The sanity check on floorplan sizes. -/
def Inordinate (config : ThermalConfig K) (flp : List (Rect K)) : Prop :=
  getTotalWidth flp > config.sSink ∨ getTotalHeight flp > config.sSink ∨
    getTotalWidth flp > config.sSpreader ∨ getTotalHeight flp > config.sSpreader

instance (config : ThermalConfig K) (flp : List (Rect K)) : Decidable (Inordinate config flp) :=
  inferInstanceAs (Decidable (_ ∨ _))

/-- The parts of `block_model_t` that the steady state needs. -/
structure BlockModel (K : Type) where
  config : ThermalConfig K
  flp : List (Rect K)
  lu : Decomposition K

/-- `populate_R_model_block`. -/
def populateRModelBlock (config : ThermalConfig K) (flp : List (Rect K)) :
    Except Fatal (BlockModel K) :=
  if Inordinate config flp then .error .inordinateFloorplanSize
  else
    match lupdcmp (b config flp) (nNodes flp) with
    | .error .singularMatrix => .error .singularMatrix
    | .ok lu => .ok ⟨config, flp, lu⟩

/-- `set_internal_power_block`. -/
def setInternalPowerBlock (model : BlockModel K) (power : ℕ → K) (q : ℕ) : K :=
  let n := model.flp.length
  if q ≥ HSINK * n then model.config.ambient * gAmb model.config model.flp (q - HSINK * n)
  else if q ≥ IFACE * n then 0
  else power q

/-- `steady_state_temp_block`. -/
def steadyStateTempBlock (model : BlockModel K) (power : ℕ → K) : ℕ → K :=
  lusolve model.lu (nNodes model.flp) (setInternalPowerBlock model power)

/-! ## Divisors -/

section Divisors

variable (config : ThermalConfig K) (flp : List (Rect K))

/-- What `getr` and `1.0 / getr` divide by. -/
def getrDivisors (k t a : K) : List K := [k * a, getr k t a]

/-- What the lumped conductances of a unit in a layer divide by. -/
def lumpedDivisors (k t : K) (u : Rect K) : List K :=
  getrDivisors k (u.width / 2) (u.height * t) ++ getrDivisors k (u.height / 2) (u.width * t)

/-- What `borderLink` divides by. -/
def borderDivisors (atBorder : Rect K → Prop) [DecidablePred atBorder] (g : Rect K → K) (r : K)
    (u : Rect K) : List K :=
  [g u, 1 / g u + r * borderSum flp atBorder g / g u]

/-- What is divided by for one unit. -/
def unitDivisors (u : Rect K) : List K :=
  let pk := pack config flp
  let area := u.height * u.width
  (if config.blockOmitLateral then [] else lumpedDivisors config.kChip config.tChip u) ++
  lumpedDivisors config.kInterface config.tInterface u ++
  lumpedDivisors config.kSpreader config.tSpreader u ++
  lumpedDivisors config.kSink config.tSink u ++
  [u.height, u.width] ++
  getrDivisors config.kChip config.tChip area ++
  getrDivisors config.kInterface config.tInterface area ++
  getrDivisors config.kSpreader config.tSpreader area ++
  [area, config.kSink * area,
    getr config.kSink config.tSink area + config.rConvec * (config.sSink * config.sSink) / area] ++
  borderDivisors flp (onNorth flp) (gySp config) pk.rSp1Y u ++
  borderDivisors flp onSouth (gySp config) pk.rSp1Y u ++
  borderDivisors flp (onEast flp) (gxSp config) pk.rSp1X u ++
  borderDivisors flp onWest (gxSp config) pk.rSp1X u ++
  borderDivisors flp (onNorth flp) (gyHs config) pk.rHs1Y u ++
  borderDivisors flp onSouth (gyHs config) pk.rHs1Y u ++
  borderDivisors flp (onEast flp) (gxHs config) pk.rHs1X u ++
  borderDivisors flp onWest (gxHs config) pk.rHs1X u

/-- What is divided by for an element of `b` off the diagonal. -/
def bDivisors (i j : ℕ) : List K :=
  if g config flp i j = 0 ∨ g config flp j i = 0 then []
  else [g config flp i j, g config flp j i, 1 / g config flp i j + 1 / g config flp j i]

/-- Everything that `populate_package_R` and `populate_R_model_block` divide by. -/
def divisors : List K :=
  let pk := pack config flp
  packageDivisors config (getTotalWidth flp) (getTotalHeight flp) ++
  flp.flatMap (unitDivisors config flp) ++
  [pk.rSpPerY, pk.rSpPerX, pk.rHs + pk.rHs2Y, pk.rHs + pk.rHs2X,
    pk.rHsCPerY + pk.rAmbCPerY, pk.rHsCPerX + pk.rAmbCPerX, pk.rHsPer + pk.rAmbPer] ++
  (List.range (nNodes flp)).flatMap fun i => (List.range i).flatMap (bDivisors config flp i)

end Divisors

end GpuHotSpot.HotSpotTool.Block
