import Mathlib.Data.List.Chain
import Mathlib.Data.Rat.Floor
import GpuHotSpot.HotSpotTool.BlockMap

/-!
# The grid between the rows of a power trace

The transient loop of `hotspot.c` with the grid model. Only the first row passes the
block temperatures to `compute_temp`; for the others it passes `NULL`, and
`compute_temp_grid` goes on with the grid temperatures of the last call. With the
leakage loop, `compute_temp` remembers the first pointer and passes it in every row,
so that the grid is translated from the block temperatures again.

The solver, of either build and with the resistances of the row, and the leakage power
are parameters of a row.

* `isChain_mainRows`: where each row starts.
* `keepsState_iff`: when the rows keep the state of the grid.
-/

namespace GpuHotSpot.HotSpotTool.BlockMap

variable {K : Type*} [Field K] [LinearOrder K]

/-! ## One row -/

/-- The argument for the temperatures: `NULL`, or the vector of `main`. -/
inductive TempArg where
  | NULL
  | temp
  deriving DecidableEq

/-- What the calls leave for each other: the grid temperatures and the block temperatures, the
number of calls with leakage, and the pointer the first of them remembers. -/
structure RowState (K : Type*) where
  lastTrans : GridVector K
  temp : List K
  count : ℕ
  tempFirstTime : TempArg

/-- The grid temperatures from which an integration starts and at which it ends. -/
structure Integration (K : Type*) where
  start : GridVector K
  stop : GridVector K

/-- A row of the power trace, with the solver and the leakage loop as they are in that row. -/
structure Row (K : Type*) where
  power : List K
  leakage : List K → List K → List K
  solve : GridVector K → GridVector K → GridVector K

/-- The package nodes have no power of their own. -/
def setInternalPowerGrid (model : MappedModel K) (power : List K) : List K :=
  power.take (base model.layers model.layers.length) ++ List.replicate model.extraNodes 0

def computeTempGrid (model : MappedModel K) (row : Row K) (s : RowState K) (power : List K)
    (arg : TempArg) : Integration K × RowState K :=
  let p := xlateVectorB2g model (setInternalPowerGrid model power) .V_POWER
  let start :=
    match arg with
    | .NULL => s.lastTrans
    | .temp => xlateVectorB2g model s.temp .V_TEMP
  let stop := row.solve p start
  (⟨start, stop⟩, { s with lastTrans := stop, temp := xlateTempG2b model stop })

def computeTemp (model : MappedModel K) (leakageUsed : Bool) (row : Row K) (s : RowState K)
    (arg : TempArg) : Integration K × RowState K :=
  if leakageUsed then
    let tempFirstTime := if s.count = 0 then arg else s.tempFirstTime
    computeTempGrid model row { s with count := s.count + 1, tempFirstTime := tempFirstTime }
      (row.leakage row.power s.temp) tempFirstTime
  else computeTempGrid model row s row.power arg

/-- The loop of `main` over the rows, from row `lines` on. -/
def mainRows (model : MappedModel K) (leakageUsed : Bool) :
    ℕ → RowState K → List (Row K) → List (Integration K)
  | _, _, [] => []
  | lines, s, row :: rows =>
    let arg := if lines = 0 then .temp else .NULL
    let (integration, s') := computeTemp model leakageUsed row s arg
    integration :: mainRows model leakageUsed (lines + 1) s' rows

/-- The state in front of the first row: block temperatures, and no call yet. -/
def RowState.init (lastTrans : GridVector K) (temp : List K) : RowState K :=
  ⟨lastTrans, temp, 0, .NULL⟩

/-! ## What the rows are to keep -/

/-- Two vectors agree in every grid cell of the model. -/
def SameCells (model : MappedModel K) (g g' : GridVector K) : Prop :=
  ∀ n < model.layers.length, ∀ i < model.size.rows, ∀ j < model.size.cols,
    g.cuboid n i j = g'.cuboid n i j

/-- Two vectors agree in every grid cell and package node of the model. -/
def SameTemps (model : MappedModel K) (g g' : GridVector K) : Prop :=
  SameCells model g g' ∧ ∀ i < model.extraNodes, g.extra i = g'.extra i

/-- Every row starts from the temperatures at which the row before it ended. -/
def KeepsState (model : MappedModel K) (integrations : List (Integration K)) : Prop :=
  integrations.IsChain fun before after => SameTemps model after.start before.stop

/-- Averaging over the blocks and translating back changes no cell. -/
def SurvivesBlocks (model : MappedModel K) (g : GridVector K) : Prop :=
  SameCells model (xlateVectorB2g model (xlateTempG2b model g) .V_TEMP) g

/-! ## Where a row starts -/

/-- The grid temperatures from which the row behind one that ends with `g` starts. -/
def nextStart (model : MappedModel K) (leakageUsed : Bool) (g : GridVector K) : GridVector K :=
  if leakageUsed then xlateVectorB2g model (xlateTempG2b model g) .V_TEMP else g

/-- The state that a row leaves which ends with `g`. -/
structure RowState.After (model : MappedModel K) (leakageUsed : Bool) (s : RowState K)
    (g : GridVector K) : Prop where
  lastTrans : s.lastTrans = g
  temp : s.temp = xlateTempG2b model g
  remembered : leakageUsed = true → s.count ≠ 0 ∧ s.tempFirstTime = .temp

variable {model : MappedModel K} {leakageUsed : Bool} {row : Row K} {rows : List (Row K)}
  {s : RowState K} {g : GridVector K} {lines : ℕ}

/-- A row starts from the translated block temperatures if it is the first one, or with leakage. -/
theorem computeTemp_first (fresh : s.count = 0) :
    (computeTemp model leakageUsed row s .temp).2.After model leakageUsed
      (computeTemp model leakageUsed row s .temp).1.stop := by
  cases leakageUsed with
  | false => exact ⟨rfl, rfl, by simp⟩
  | true => exact ⟨rfl, rfl, fun _ => ⟨Nat.succ_ne_zero _, if_pos fresh⟩⟩

theorem computeTemp_later (row : Row K) (after : s.After model leakageUsed g) :
    (computeTemp model leakageUsed row s .NULL).1.start = nextStart model leakageUsed g ∧
    (computeTemp model leakageUsed row s .NULL).2.After model leakageUsed
      (computeTemp model leakageUsed row s .NULL).1.stop := by
  cases leakageUsed with
  | false => exact ⟨after.lastTrans, rfl, rfl, by simp⟩
  | true =>
    obtain ⟨called, pointer⟩ := after.remembered rfl
    simp only [computeTemp, if_pos, if_neg called, pointer, nextStart]
    exact ⟨by simp only [computeTempGrid, after.temp], rfl, rfl, fun _ => ⟨Nat.succ_ne_zero _, rfl⟩⟩

/-- Behind a row, every row starts where `nextStart` says. -/
theorem isChain_mainRows (after : s.After model leakageUsed g) (later : lines ≠ 0)
    (first : Integration K) (ended : first.stop = g) :
    (first :: mainRows model leakageUsed lines s rows).IsChain fun before after =>
      after.start = nextStart model leakageUsed before.stop := by
  induction rows generalizing s g lines first with
  | nil => exact .singleton first
  | cons row rows ih =>
    obtain ⟨start, after'⟩ := computeTemp_later row after
    rw [mainRows, if_neg later]
    exact .cons_cons (ended ▸ start) (ih after' (Nat.succ_ne_zero _) _ rfl)

theorem isChain_mainRows_init (model : MappedModel K) (leakageUsed : Bool) (rows : List (Row K))
    (lastTrans : GridVector K) (temp : List K) :
    (mainRows model leakageUsed 0 (.init lastTrans temp) rows).IsChain fun before after =>
      after.start = nextStart model leakageUsed before.stop := by
  cases rows with
  | nil => exact .nil
  | cons row rows =>
    rw [mainRows, if_pos rfl]
    exact isChain_mainRows (computeTemp_first rfl) one_ne_zero _ rfl

/-! ## When the state is kept -/

theorem length_xlateTempG2b :
    (model.layers.zipIdx.flatMap fun (layer, n) =>
      layer.maps.g2bmap.map fun cells => blockTemp model.mapMode (g.cuboid n) cells).length =
      base model.layers model.layers.length := by
  rw [List.length_flatMap, base, List.take_length]
  congr 1
  refine List.ext_getElem (by simp) fun n inLeft inRight => ?_
  have inLayers : n < model.layers.length := by simpa using inRight
  simp [model.layers[n].sized]

/-- The package nodes survive the translation to the block vector and back. -/
theorem extra_xlate {i : ℕ} (inExtra : i < model.extraNodes) :
    (xlateVectorB2g model (xlateTempG2b model g) .V_TEMP).extra i = g.extra i := by
  simp only [xlateVectorB2g, xlateTempG2b]
  rw [List.getD_eq_getElem?_getD, List.getElem?_append_right (by rw [length_xlateTempG2b]; omega),
    length_xlateTempG2b, Nat.add_sub_cancel_left]
  simp [inExtra]

/-- **The grid between rows.** Every row starts where the row before it ended if and only if
leakage is not used, or no row but the last leaves a grid that averaging over the blocks
changes. -/
theorem keepsState_iff (model : MappedModel K) (leakageUsed : Bool) (lastTrans : GridVector K)
    (temp : List K) (rows : List (Row K)) :
    KeepsState model (mainRows model leakageUsed 0 (.init lastTrans temp) rows) ↔
      leakageUsed = false ∨
        ∀ row ∈ (mainRows model leakageUsed 0 (.init lastTrans temp) rows).dropLast,
          SurvivesBlocks model row.stop := by
  have starts := isChain_mainRows_init model leakageUsed rows lastTrans temp
  have kept : ∀ g, SameTemps model (nextStart model leakageUsed g) g ↔
      leakageUsed = false ∨ SurvivesBlocks model g := by
    intro g
    cases leakageUsed with
    | false => simp [nextStart, SameTemps, SameCells]
    | true =>
      have extra : ∀ i < model.extraNodes, (nextStart model true g).extra i = g.extra i :=
        fun i inExtra => extra_xlate inExtra
      simp only [SameTemps, and_iff_left extra]
      simp [nextStart, SurvivesBlocks]
  have all : ∀ l : List (Integration K),
      (l.IsChain fun before after => after.start = nextStart model leakageUsed before.stop) →
      (KeepsState model l ↔ ∀ row ∈ l.dropLast, SameTemps model
        (nextStart model leakageUsed row.stop) row.stop) := by
    intro l
    induction l with
    | nil => simp [KeepsState]
    | cons first l ih =>
      cases l with
      | nil => simp [KeepsState]
      | cons second l =>
        intro chain
        rw [List.isChain_cons_cons] at chain
        have tail := ih chain.2
        rw [KeepsState] at tail ⊢
        rw [List.isChain_cons_cons, tail, chain.1, List.dropLast_cons_cons, List.forall_mem_cons]
  rw [all _ starts]
  simp only [kept]
  cases leakageUsed <;> simp

/-! ## A cell shared by two blocks -/

/-- Two blocks on a row of three cells, which share the middle one. -/
def sharedFlp : FlpLayer ℚ where
  flp := [⟨0, 0, 3 / 2, 1, false, false, 0, 0⟩, ⟨3 / 2, 0, 3 / 2, 1, false, false, 0, 0⟩]
  hasLateral := true
  k := 100
  thickness := 1
  sp := 1

def sharedSize : GridSize ℚ := ⟨3, 1, 1, 3, false⟩

def sharedMaps : Maps ℚ :=
  match setBgmap sharedSize sharedFlp with
  | .ok maps => maps
  | .error _ => ⟨fun _ _ => none, []⟩

def sharedModel : MappedModel ℚ where
  size := sharedSize
  layers := [⟨sharedFlp.flp, sharedMaps, by decide +kernel⟩]
  extraNodes := 12
  mapMode := .GRID_AVG

/-- A row without leakage power, in which the temperatures do not change. -/
def idleRow : Row ℚ := ⟨[0, 0], fun power _ => power, fun _ temp => temp⟩

/-- With leakage used, the first row ends with 300 degrees in the first cell and the second row
starts with 300.5 degrees there, although no row changes a temperature. -/
theorem leakage_rebuilds_grid :
    ¬KeepsState sharedModel (mainRows sharedModel true 0
      (.init ⟨fun _ _ _ => 0, fun _ => 0⟩ [300, 302]) [idleRow, idleRow]) := by
  intro keeps
  have first := (List.isChain_cons_cons.mp keeps).1.1 0 (by decide +kernel) 0 (by decide +kernel) 0
    (by decide +kernel)
  revert first
  decide +kernel

end GpuHotSpot.HotSpotTool.BlockMap
