import GpuHotSpot.HotSpotTool.ThermalNetwork
import GpuHotSpot.HotSpotTool.Util
import GpuHotSpot.Lib.Mean
import GpuHotSpot.Lib.Scatter

/-!
# The multigrid solver

`recursive_multigrid` solves the steady equations on a grid of half the rows and columns
first, and starts the iteration on the fine grid from what it finds there. It changes the
model in place and changes it back. `multigrid_restrict_power` adds up the power of four
cells, `multigrid_prolong_temp` interpolates between four cells inside the grid and copies
the nearest one at its boundary.

* `sum_restrictPower`: the power of a layer stays.
* `prolongTemp_eq`: every fine cell is set, and to what.
* `interpolated_convex`: the weights of the coarse cells.
* `recursiveMultigrid_restores`: the model comes back as it was.
-/

namespace GpuHotSpot.HotSpotTool.TemperatureGrid

open scoped Literals

variable {K : Type*} [Field K] [LinearOrder K]

/-! ## The code -/

/-- Stores values to nodes one after the other. -/
def storeAll (writes : List (Node × K)) (v : Node → K) : Node → K :=
  scatter Prod.fst Prod.snd writes v

namespace GridModel

variable (m : GridModel K)

/-- `multigrid_restrict_power`, where `m` is the coarse grid: the four nearest cells. -/
def restrictPower (dst src : Node → K) : Node → K :=
  storeAll
    (((List.range m.nLayers).flatMap fun n =>
        (List.range m.rows).flatMap fun i => (List.range m.cols).map fun j =>
          (.cell n i j,
            src (.cell n (2 * i) (2 * j)) + src (.cell n (2 * i + 1) (2 * j)) +
              src (.cell n (2 * i) (2 * j + 1)) + src (.cell n (2 * i + 1) (2 * j + 1)))) ++
      m.packNodes.map fun x => (x, src x))
    dst

/-- The region between four coarse cells. -/
def innerWrites (s : ℕ → ℕ → K) (n i j : ℕ) : List (Node × K) :=
  [(.cell n (2 * i + 1) (2 * j + 1),
      9 / 16 * s i j + 3 / 16 * s (i + 1) j + 1 / 16 * s (i + 1) (j + 1) + 3 / 16 * s i (j + 1)),
    (.cell n (2 * i + 2) (2 * j + 1),
      3 / 16 * s i j + 9 / 16 * s (i + 1) j + 3 / 16 * s (i + 1) (j + 1) + 1 / 16 * s i (j + 1)),
    (.cell n (2 * i + 2) (2 * j + 2),
      1 / 16 * s i j + 3 / 16 * s (i + 1) j + 9 / 16 * s (i + 1) (j + 1) + 3 / 16 * s i (j + 1)),
    (.cell n (2 * i + 1) (2 * j + 2),
      3 / 16 * s i j + 1 / 16 * s (i + 1) j + 3 / 16 * s (i + 1) (j + 1) + 9 / 16 * s i (j + 1))]

/-- The cells on the boundary of a layer. -/
def rimWrites (s : ℕ → ℕ → K) (n : ℕ) : List (Node × K) :=
  ((List.range m.rows).flatMap fun i =>
    [(.cell n (2 * i + 1) 0, s i 0), (.cell n (2 * i) 0, s i 0),
      (.cell n (2 * i + 1) (2 * m.cols - 1), s i (m.cols - 1)),
      (.cell n (2 * i) (2 * m.cols - 1), s i (m.cols - 1))]) ++
  (List.range m.cols).flatMap fun j =>
    [(.cell n 0 (2 * j + 1), s 0 j), (.cell n 0 (2 * j), s 0 j),
      (.cell n (2 * m.rows - 1) (2 * j + 1), s (m.rows - 1) j),
      (.cell n (2 * m.rows - 1) (2 * j), s (m.rows - 1) j)]

/-- The stores of `multigrid_prolong_temp`. -/
def prolongWrites (src : Node → K) : List (Node × K) :=
  ((List.range m.nLayers).flatMap fun n =>
    (List.range (m.rows - 1)).flatMap fun i => (List.range (m.cols - 1)).flatMap fun j =>
      innerWrites (fun i j => src (.cell n i j)) n i j) ++
  ((List.range m.nLayers).flatMap fun n => m.rimWrites (fun i j => src (.cell n i j)) n) ++
  m.packNodes.map fun x => (x, src x)

/-- `multigrid_prolong_temp`, where `m` is the coarse grid. -/
def prolongTemp (dst src : Node → K) : Node → K := storeAll (m.prolongWrites src) dst

/-- The temperatures of a column of cells from the last layer up: what flows through a layer is the
power of the layers before it. -/
def heuristicColumn (power : Node → K) (i j : ℕ) : ℕ → K → K → List (Node × K)
  | 0, _, _ => []
  | n + 1, next, sum =>
    let temp := next + sum * (m.layers n).rz
    (.cell n i j, temp) :: heuristicColumn power i j n temp (sum - power (.cell n i j))

/-- `set_heuristic_temp`, without the lateral resistances. -/
def setHeuristicTemp (power temp : Node → K) : Node → K :=
  storeAll
    ((m.packNodes.map fun x => (x, m.ambient)) ++
      (List.range m.rows).flatMap fun i => (List.range m.cols).flatMap fun j =>
        m.heuristicColumn power i j m.nLayers m.ambient
          ((List.range m.nLayers).map fun n => power (.cell n i j)).sum)
    temp

/-- Iterations until the temperatures stay, at most `fuel` of them. -/
def iterateSteady (power : Node → K) : ℕ → (Node → K) → Option (Node → K)
  | 0, _ => none
  | fuel + 1, v =>
    let (v', delta) := m.singleIterationSteady (fun n i j => power (.cell n i j)) v
    if near delta 0 then some v' else iterateSteady power fuel v'

variable {m}

/-- Half the rows and columns. The lateral resistances remain the same. -/
def coarsen [IsStrictOrderedRing K] (m : GridModel K) (cReady : Bool)
    (large : ¬(m.rows ≤ 1 ∨ m.cols ≤ 1)) : GridModel K :=
  { m with
    rows := m.rows / 2
    cols := m.cols / 2
    layers := fun n =>
      let layer := m.layers n
      { layer with
        rz := ⟨layer.rz / 4, div_pos layer.rz.2 (by norm_num)⟩
        c := if cReady then ⟨layer.c * 4, mul_pos layer.c.2 (by norm_num)⟩ else layer.c }
    rows_pos := by omega
    cols_pos := by omega }

/-- Restores the grid. -/
def restore [IsStrictOrderedRing K] (m : GridModel K) (cReady : Bool) : GridModel K :=
  { m with
    rows := m.rows * 2
    cols := m.cols * 2
    layers := fun n =>
      let layer := m.layers n
      { layer with
        rz := ⟨layer.rz * 4, mul_pos layer.rz.2 (by norm_num)⟩
        c := if cReady then ⟨layer.c / 4, div_pos layer.c.2 (by norm_num)⟩ else layer.c }
    rows_pos := Nat.mul_pos m.rows_pos Nat.two_pos
    cols_pos := Nat.mul_pos m.cols_pos Nat.two_pos }

/-- `recursive_multigrid`, with at most `fuel` iterations on a grid: the model that it leaves, and
the temperatures. -/
def recursiveMultigrid [IsStrictOrderedRing K] (cReady : Bool) (fuel : ℕ) (m : GridModel K)
    (power temp : Node → K) : Option (GridModel K × (Node → K)) :=
  if small : m.rows ≤ 1 ∨ m.cols ≤ 1 then
    (m.iterateSteady power fuel (m.setHeuristicTemp power temp)).map fun v => (m, v)
  else
    let coarse := m.coarsen cReady small
    match recursiveMultigrid cReady fuel coarse (coarse.restrictPower 0 power) 0 with
    | none => none
    | some (coarse, coarseTemp) =>
      let start := coarse.prolongTemp temp coarseTemp
      let m := coarse.restore cReady
      (m.iterateSteady power fuel start).map fun v => (m, v)
termination_by m.rows
decreasing_by
  rw [not_or, not_le, not_le] at small
  exact Nat.div_lt_self (by omega) one_lt_two

/-! ## Stores -/

variable {n i j : ℕ} {dst src : Node → K}

/-- A cell holds what all stores to it have, if there is one. The package nodes come after them. -/
theorem storeAll_cell {writes : List (Node × K)} {f : Node → K} {value : K}
    (agree : ∀ w ∈ writes, w.1 = .cell n i j → w.2 = value)
    (written : ∃ w ∈ writes, w.1 = .cell n i j) :
    storeAll (writes ++ m.packNodes.map fun x => (x, f x)) dst (.cell n i j) = value := by
  refine scatter_of_forall Prod.fst Prod.snd (P := (· = value)) (fun w member here => ?_) (.inl ?_)
  · rcases List.mem_append.mp member with inCells | inPack
    · exact agree w inCells here
    · obtain ⟨x, pack, rfl⟩ := List.mem_map.mp inPack
      obtain rfl : x = .cell n i j := here
      simp [packNodes] at pack
  · obtain ⟨w, member, here⟩ := written
    exact List.mem_map.mpr ⟨w, List.mem_append_left _ member, here⟩

/-! ## Restriction -/

theorem restrictPower_cell (layer : n < m.nLayers) (row : i < m.rows) (column : j < m.cols) :
    m.restrictPower dst src (.cell n i j) =
      src (.cell n (2 * i) (2 * j)) + src (.cell n (2 * i + 1) (2 * j)) +
        src (.cell n (2 * i) (2 * j + 1)) + src (.cell n (2 * i + 1) (2 * j + 1)) := by
  refine storeAll_cell (fun w member here => ?_) ?_
  · simp only [List.mem_flatMap, List.mem_map, List.mem_range] at member
    obtain ⟨n', -, i', -, j', -, rfl⟩ := member
    obtain ⟨rfl, rfl, rfl⟩ := Node.cell.inj here
    rfl
  · exact ⟨_, List.mem_flatMap.mpr ⟨n, List.mem_range.mpr layer, List.mem_flatMap.mpr
      ⟨i, List.mem_range.mpr row, List.mem_map.mpr ⟨j, List.mem_range.mpr column, rfl⟩⟩⟩, rfl⟩

/-- The numbers below `2 * r`, two by two. -/
theorem sum_range_double {M : Type*} [AddCommMonoid M] (f : ℕ → M) (r : ℕ) :
    ∑ i ∈ Finset.range (2 * r), f i = ∑ i ∈ Finset.range r, (f (2 * i) + f (2 * i + 1)) := by
  induction r with
  | zero => rfl
  | succ r ih =>
    rw [mul_add_one, Finset.sum_range_succ, Finset.sum_range_succ, ih,
      Finset.sum_range_succ, add_assoc]

/-- **Restriction conserves the power of a layer.** -/
theorem sum_restrictPower (layer : n < m.nLayers) (dst src : Node → K) :
    ∑ i ∈ Finset.range m.rows, ∑ j ∈ Finset.range m.cols, m.restrictPower dst src (.cell n i j) =
      ∑ i ∈ Finset.range (2 * m.rows), ∑ j ∈ Finset.range (2 * m.cols), src (.cell n i j) := by
  rw [sum_range_double]
  refine Finset.sum_congr rfl fun i row => ?_
  rw [sum_range_double, sum_range_double, ← Finset.sum_add_distrib]
  refine Finset.sum_congr rfl fun j column => ?_
  rw [restrictPower_cell layer (Finset.mem_range.mp row) (Finset.mem_range.mp column)]
  ac_rfl

/-! ## Prolongation -/

/-- The coarse row or column next to that of a fine one. -/
def other (i : ℕ) : ℕ := if i % 2 = 1 then i / 2 + 1 else i / 2 - 1

/-- The fine cell is at the boundary of its layer. -/
def AtRim (m : GridModel K) (i j : ℕ) : Prop :=
  i = 0 ∨ i + 1 = 2 * m.rows ∨ j = 0 ∨ j + 1 = 2 * m.cols

instance (m : GridModel K) (i j : ℕ) : Decidable (m.AtRim i j) :=
  inferInstanceAs (Decidable (_ ∨ _))

/-- What a fine cell gets: inside the grid of the four coarse cells around it, at the boundary the
nearest one. -/
def interpolated (m : GridModel K) (s : ℕ → ℕ → K) (i j : ℕ) : K :=
  if m.AtRim i j then s (i / 2) (j / 2)
  else 9 / 16 * s (i / 2) (j / 2) + 3 / 16 * s (other i) (j / 2) +
    1 / 16 * s (other i) (other j) + 3 / 16 * s (i / 2) (other j)

theorem innerWrites_eq {s : ℕ → ℕ → K} {w : Node × K} (row : i < m.rows - 1)
    (column : j < m.cols - 1) (member : w ∈ innerWrites s n i j) :
    ∃ i' j', w = (.cell n i' j', m.interpolated s i' j') := by
  have odd : ∀ k, (2 * k + 1) / 2 = k ∧ other (2 * k + 1) = k + 1 := fun k => by
    rw [other, if_pos (by omega)]
    omega
  have even : ∀ k, (2 * k + 2) / 2 = k + 1 ∧ other (2 * k + 2) = k := fun k => by
    rw [other, if_neg (by omega)]
    omega
  simp only [innerWrites, List.mem_cons, List.not_mem_nil, or_false] at member
  rcases member with rfl | rfl | rfl | rfl
  all_goals
    refine ⟨_, _, Prod.ext rfl ?_⟩
    rw [interpolated, if_neg (by rw [AtRim]; omega)]
    simp only [(odd i).1, (odd i).2, (odd j).1, (odd j).2, (even i).1, (even i).2, (even j).1,
      (even j).2] <;> ring

theorem rimWrites_eq {s : ℕ → ℕ → K} {w : Node × K} (member : w ∈ m.rimWrites s n) :
    ∃ i' j', w = (.cell n i' j', m.interpolated s i' j') := by
  have rows := m.rows_pos
  have cols := m.cols_pos
  have at_rim : ∀ {i j a b}, m.AtRim i j → i / 2 = a → j / 2 = b →
      ((.cell n i j, s a b) : Node × K) = (.cell n i j, m.interpolated s i j) := by
    rintro i j _ _ rim rfl rfl
    rw [interpolated, if_pos rim]
  simp only [rimWrites, List.mem_append, List.mem_flatMap, List.mem_range, List.mem_cons,
    List.not_mem_nil, or_false] at member
  rcases member with ⟨i, row, rfl | rfl | rfl | rfl⟩ | ⟨j, column, rfl | rfl | rfl | rfl⟩
  all_goals exact ⟨_, _, at_rim (by rw [AtRim]; omega) (by omega) (by omega)⟩

/-- Every fine cell at the boundary is stored to. -/
theorem exists_rimWrite (row : i < 2 * m.rows) (column : j < 2 * m.cols) (rim : m.AtRim i j)
    (s : ℕ → ℕ → K) : ∃ w ∈ m.rimWrites s n, w.1 = .cell n i j := by
  obtain ⟨a, i_eq⟩ := Nat.even_or_odd' i
  obtain ⟨b, j_eq⟩ := Nat.even_or_odd' j
  rw [AtRim] at rim
  by_cases atEnd : j = 0 ∨ j + 1 = 2 * m.cols
  · have inPart : ∀ w ∈ ([(.cell n (2 * a + 1) 0, s a 0), (.cell n (2 * a) 0, s a 0),
        (.cell n (2 * a + 1) (2 * m.cols - 1), s a (m.cols - 1)),
        (.cell n (2 * a) (2 * m.cols - 1), s a (m.cols - 1))] : List (Node × K)),
        w ∈ m.rimWrites s n := fun w member =>
      List.mem_append_left _ (List.mem_flatMap.mpr ⟨a, List.mem_range.mpr (by omega), member⟩)
    rcases atEnd with rfl | last
    · rcases i_eq with rfl | rfl
      · exact ⟨_, inPart (.cell n (2 * a) 0, s a 0) (by simp), rfl⟩
      · exact ⟨_, inPart (.cell n (2 * a + 1) 0, s a 0) (by simp), rfl⟩
    · obtain rfl : j = 2 * m.cols - 1 := by omega
      rcases i_eq with rfl | rfl
      · exact ⟨_, inPart (.cell n (2 * a) (2 * m.cols - 1), s a (m.cols - 1)) (by simp), rfl⟩
      · exact ⟨_, inPart (.cell n (2 * a + 1) (2 * m.cols - 1), s a (m.cols - 1)) (by simp), rfl⟩
  · have inPart : ∀ w ∈ ([(.cell n 0 (2 * b + 1), s 0 b), (.cell n 0 (2 * b), s 0 b),
        (.cell n (2 * m.rows - 1) (2 * b + 1), s (m.rows - 1) b),
        (.cell n (2 * m.rows - 1) (2 * b), s (m.rows - 1) b)] : List (Node × K)),
        w ∈ m.rimWrites s n := fun w member =>
      List.mem_append_right _ (List.mem_flatMap.mpr ⟨b, List.mem_range.mpr (by omega), member⟩)
    rcases (by omega : i = 0 ∨ i = 2 * m.rows - 1) with rfl | rfl
    · rcases j_eq with rfl | rfl
      · exact ⟨_, inPart (.cell n 0 (2 * b), s 0 b) (by simp), rfl⟩
      · exact ⟨_, inPart (.cell n 0 (2 * b + 1), s 0 b) (by simp), rfl⟩
    · rcases j_eq with rfl | rfl
      · exact ⟨_, inPart (.cell n (2 * m.rows - 1) (2 * b), s (m.rows - 1) b) (by simp), rfl⟩
      · exact ⟨_, inPart (.cell n (2 * m.rows - 1) (2 * b + 1), s (m.rows - 1) b) (by simp), rfl⟩

/-- Every other fine cell lies between four coarse ones. -/
theorem exists_innerWrite (row : i < 2 * m.rows) (column : j < 2 * m.cols) (inner : ¬m.AtRim i j)
    (s : ℕ → ℕ → K) :
    ∃ a < m.rows - 1, ∃ b < m.cols - 1, ∃ w ∈ innerWrites s n a b, w.1 = .cell n i j := by
  rw [AtRim] at inner
  refine ⟨(i - 1) / 2, by omega, (j - 1) / 2, by omega, ?_⟩
  have i_eq : i = 2 * ((i - 1) / 2) + 1 ∨ i = 2 * ((i - 1) / 2) + 2 := by omega
  have j_eq : j = 2 * ((j - 1) / 2) + 1 ∨ j = 2 * ((j - 1) / 2) + 2 := by omega
  generalize (i - 1) / 2 = a at i_eq ⊢
  generalize (j - 1) / 2 = b at j_eq ⊢
  rcases i_eq with rfl | rfl <;> rcases j_eq with rfl | rfl <;> simp [innerWrites]

/-- **Every fine cell is set**, whatever was there before, and to its interpolated value. -/
theorem prolongTemp_eq (layer : n < m.nLayers) (row : i < 2 * m.rows) (column : j < 2 * m.cols)
    (dst src : Node → K) :
    m.prolongTemp dst src (.cell n i j) = m.interpolated (fun i j => src (.cell n i j)) i j := by
  have atCell : ∀ {w : Node × K} {n'},
      (∃ i' j', w = (.cell n' i' j', m.interpolated (fun i j => src (.cell n' i j)) i' j')) →
      w.1 = .cell n i j → w.2 = m.interpolated (fun i j => src (.cell n i j)) i j := by
    rintro w n' ⟨i', j', rfl⟩ here
    obtain ⟨rfl, rfl, rfl⟩ := Node.cell.inj here
    rfl
  refine storeAll_cell (fun w member here => ?_) ?_
  · simp only [List.mem_append, List.mem_flatMap, List.mem_range] at member
    rcases member with ⟨n', -, a, inRows, b, inCols, member⟩ | ⟨n', -, member⟩
    · exact atCell (innerWrites_eq inRows inCols member) here
    · exact atCell (rimWrites_eq member) here
  · simp only [List.mem_append, List.mem_flatMap, List.mem_range]
    by_cases rim : m.AtRim i j
    · obtain ⟨w, member, here⟩ := exists_rimWrite row column rim fun i j => src (.cell n i j)
      exact ⟨w, .inr ⟨n, layer, member⟩, here⟩
    · obtain ⟨a, inRows, b, inCols, w, member, here⟩ :=
        exists_innerWrite row column rim fun i j => src (.cell n i j)
      exact ⟨w, .inl ⟨n, layer, a, inRows, b, inCols, member⟩, here⟩

variable [IsStrictOrderedRing K]

/-- The values of the coarse cells. -/
def coarsePoint (m : GridModel K) (c : Fin m.rows × Fin m.cols) (s : ℕ → ℕ → K) : K := s c.1 c.2

theorem isMean_cell (row : i < m.rows) (column : j < m.cols) :
    IsMean m.coarsePoint fun s => s i j := by
  have mean : IsMean m.coarsePoint (m.coarsePoint (⟨i, row⟩, ⟨j, column⟩)) := IsMean.at_point _
  exact mean

/-- Along an axis the nearest cell counts three times. -/
theorem isMean_axis {f g : (ℕ → ℕ → K) → K} (nearest : IsMean m.coarsePoint f)
    (next : IsMean m.coarsePoint g) : IsMean m.coarsePoint fun s => 3 / 4 * f s + 1 / 4 * g s :=
  nearest.mix next (by norm_num) (by norm_num) (by norm_num)

/-- **The weights.** A fine cell is a convex combination of the coarse cells of its layer. Inside
the grid it is interpolated along one axis and then along the other. -/
theorem interpolated_convex (row : i < 2 * m.rows) (column : j < 2 * m.cols) :
    IsMean m.coarsePoint fun s => m.interpolated s i j := by
  by_cases rim : m.AtRim i j
  · simp only [interpolated, if_pos rim]
    exact isMean_cell (by omega) (by omega)
  · have inRows : other i < m.rows := by
      rw [AtRim] at rim
      rw [other]
      split_ifs <;> omega
    have inCols : other j < m.cols := by
      rw [AtRim] at rim
      rw [other]
      split_ifs <;> omega
    have nearRow : i / 2 < m.rows := by omega
    have nearCol : j / 2 < m.cols := by omega
    have axes := isMean_axis (isMean_axis (isMean_cell nearRow nearCol) (isMean_cell inRows nearCol))
      (isMean_axis (isMean_cell nearRow inCols) (isMean_cell inRows inCols))
    convert axes using 2 with s
    rw [interpolated, if_neg rim]
    ring

/-! ## The recursion -/

theorem restore_layer (cReady : Bool) (layer : Layer K) :
    let coarse : Layer K := { layer with
      rz := ⟨layer.rz / 4, div_pos layer.rz.2 four_pos⟩
      c := if cReady then ⟨layer.c * 4, mul_pos layer.c.2 four_pos⟩ else layer.c }
    ({ coarse with
      rz := ⟨coarse.rz * 4, mul_pos coarse.rz.2 four_pos⟩
      c := if cReady then ⟨coarse.c / 4, div_pos coarse.c.2 four_pos⟩ else coarse.c } : Layer K) =
      layer := by
  cases layer
  cases cReady <;> simp

/-- Coarsening an even grid and restoring it. -/
theorem restore_coarsen (cReady : Bool) (large : ¬(m.rows ≤ 1 ∨ m.cols ≤ 1))
    (rows : Even m.rows) (cols : Even m.cols) : (m.coarsen cReady large).restore cReady = m := by
  have layers : ∀ n, ((m.coarsen cReady large).restore cReady).layers n = m.layers n :=
    fun n => restore_layer cReady (m.layers n)
  have rows' : m.rows / 2 * 2 = m.rows := Nat.div_two_mul_two_of_even rows
  have cols' : m.cols / 2 * 2 = m.cols := Nat.div_two_mul_two_of_even cols
  have whole := funext layers
  cases m
  simp only [coarsen, restore, GridModel.mk.injEq, and_true, true_and] at rows' cols' whole ⊢
  exact ⟨rows', cols', whole⟩

/-- **The recursion restores the model**: rows, columns, and the vertical resistance and the
capacitance of every layer. -/
theorem recursiveMultigrid_restores {cReady : Bool} {fuel a b : ℕ} {power temp : Node → K}
    {m' : GridModel K} {temp' : Node → K} (rows : m.rows = 2 ^ a) (cols : m.cols = 2 ^ b)
    (ran : recursiveMultigrid cReady fuel m power temp = some (m', temp')) : m' = m := by
  induction a generalizing m m' b power temp temp' with
  | zero =>
    rw [recursiveMultigrid, dif_pos (.inl (by omega))] at ran
    obtain ⟨v, -, same⟩ := Option.map_eq_some_iff.mp ran
    exact (Prod.ext_iff.mp same).1.symm
  | succ a ih =>
    rw [recursiveMultigrid] at ran
    split_ifs at ran with small
    · obtain ⟨v, -, same⟩ := Option.map_eq_some_iff.mp ran
      exact (Prod.ext_iff.mp same).1.symm
    · cases b with
      | zero => exact absurd (.inr (by omega)) small
      | succ b =>
        have half : ∀ k, 2 ^ (k + 1) / 2 = 2 ^ k := fun k => by rw [pow_succ]; omega
        have evenRows : Even m.rows := ⟨2 ^ a, by rw [rows, pow_succ]; omega⟩
        have evenCols : Even m.cols := ⟨2 ^ b, by rw [cols, pow_succ]; omega⟩
        simp only at ran
        split at ran
        · exact nomatch ran
        · rename_i coarse coarseTemp found
          have same : coarse = m.coarsen cReady small :=
            ih (m := m.coarsen cReady small) (b := b) (by simp [coarsen, rows, half])
              (by simp [coarsen, cols, half]) found
          obtain ⟨v, -, result⟩ := Option.map_eq_some_iff.mp ran
          have first : coarse.restore cReady = m' := (Prod.ext_iff.mp result).1
          rw [← first, same, restore_coarsen cReady small evenRows evenCols]

/-! ## The transfer between levels -/

/-- What the levels of the solver leave and hand over. -/
structure LevelTransfer (m : GridModel K) : Prop where
  /-- The model comes back as it was. -/
  restores : ∀ cReady fuel power temp m' temp',
    recursiveMultigrid cReady fuel m power temp = some (m', temp') → m' = m
  /-- From the grid with twice the rows and columns, the power of each layer is kept. -/
  conserves : ∀ dst src, ∀ n < m.nLayers,
    ∑ i ∈ Finset.range m.rows, ∑ j ∈ Finset.range m.cols, m.restrictPower dst src (.cell n i j) =
      ∑ i ∈ Finset.range (2 * m.rows), ∑ j ∈ Finset.range (2 * m.cols), src (.cell n i j)
  /-- Each cell of that grid is set to a convex combination of coarse values, with weights of its
  own. -/
  convex : ∀ n < m.nLayers, ∀ i < 2 * m.rows, ∀ j < 2 * m.cols,
    ∃ w ∈ stdSimplex K (Fin m.rows × Fin m.cols), ∀ dst src,
      m.prolongTemp dst src (.cell n i j) = ∑ c, w c * src (.cell n c.1 c.2)
  /-- A constant field stays constant. -/
  constant : ∀ dst src x, ∀ n < m.nLayers,
    (∀ i < m.rows, ∀ j < m.cols, src (.cell n i j) = x) →
      ∀ i < 2 * m.rows, ∀ j < 2 * m.cols, m.prolongTemp dst src (.cell n i j) = x
  /-- No value leaves the range of the coarse ones. -/
  range : ∀ dst src lo hi, ∀ n < m.nLayers,
    (∀ i < m.rows, ∀ j < m.cols, src (.cell n i j) ∈ Set.Icc lo hi) →
      ∀ i < 2 * m.rows, ∀ j < 2 * m.cols, m.prolongTemp dst src (.cell n i j) ∈ Set.Icc lo hi

/-- **Levels of the multigrid solver**, for rows and columns that are powers of two. -/
theorem levelTransfer {a b : ℕ} (rows : m.rows = 2 ^ a) (cols : m.cols = 2 ^ b) :
    m.LevelTransfer where
  restores := fun _ _ _ _ _ _ ran => recursiveMultigrid_restores rows cols ran
  conserves := fun dst src n layer => sum_restrictPower layer dst src
  convex := by
    intro n layer i row j column
    obtain ⟨w, simplex, value⟩ := interpolated_convex (m := m) row column
    exact ⟨w, simplex, fun dst src => (prolongTemp_eq layer row column dst src).trans (value _)⟩
  constant := by
    intro dst src x n layer same i row j column
    rw [prolongTemp_eq layer row column]
    exact (interpolated_convex row column).const fun c => same c.1 c.1.2 c.2 c.2.2
  range := by
    intro dst src lo hi n layer within i row j column
    rw [prolongTemp_eq layer row column]
    exact (interpolated_convex row column).mem_Icc fun c => within c.1 c.1.2 c.2 c.2.2

/-- Two by two cells in each layer, in an ambience of 300. -/
def warmGrid : GridModel ℚ :=
  { unitStack with rows := 2, cols := 2, rows_pos := Nat.two_pos, cols_pos := Nat.two_pos }

/-- The solver goes down to one cell in a layer, and comes back with the model and the temperatures of
a stack without power. -/
theorem levelTransfer_warmGrid :
    ∃ temp, recursiveMultigrid true 2 warmGrid 0 0 = some (warmGrid, temp) ∧
      ∀ x ∈ warmGrid.nodes, temp x = 300 := by
  have levels : warmGrid.LevelTransfer := levelTransfer (a := 1) (b := 1) rfl rfl
  have returns : ∃ r ∈ recursiveMultigrid true 2 warmGrid 0 0, ∀ x ∈ warmGrid.nodes, r.2 x = 300 := by
    decide +kernel
  obtain ⟨⟨m', temp⟩, ran, warm⟩ := returns
  obtain rfl := levels.restores _ _ _ _ _ _ ran
  exact ⟨temp, ran, warm⟩

end GridModel

end GpuHotSpot.HotSpotTool.TemperatureGrid
