import Mathlib.Algebra.BigOperators.Group.Finset.Piecewise
import GpuHotSpot.Lib.FlowNetwork
import GpuHotSpot.HotSpotTool.ThermalNetwork

/-!
# Heat balance

What the heat flows of a network add up to. Between two nodes whose equations use one
resistance the flows cancel, so that the power of the cells and the heat from ambient
remain.

* `sum_balance`: the flows into all nodes, for any resistances between the cells.
* `energyBalance_iff`: the slopes, with the capacitances, add up to the power and the heat
  from ambient.
* `heatBalance_iff`: at the fixed points of the iteration the heat to ambient is the power.
-/

namespace GpuHotSpot.HotSpotTool.TemperatureGrid

instance : Fintype Way := ⟨{.north, .south, .east, .west, .above, .below}, by
  intro way
  cases way <;> decide⟩

/-- The way back. -/
def Way.back : Way → Way
  | .north => .south
  | .south => .north
  | .east => .west
  | .west => .east
  | .above => .below
  | .below => .above

theorem Way.back_back (way : Way) : way.back.back = way := by cases way <;> rfl

variable {K : Type*} [Field K] [LinearOrder K]

namespace GridModel

variable (m : GridModel K)

/-! ## Power and ambient -/

/-- The resistance of a node to ambient, if it is connected to it. -/
def toAmbient : Node → Option K
  | .cell n _ _ => m.ambientRes n
  | .pack .SINK _ => some (m.pack.rHsPer + m.pack.rAmbPer)
  | .pack .SINK_C side => some (m.pack.rHsCPer side.axis + m.pack.rAmbCPer side.axis)
  | .pack .PCB _ => some m.pack.rAmbSecPer
  | .pack .PCB_C side => some (m.pack.rAmbSecCPer side.axis)
  | .pack _ _ => none

/-- The heat from ambient into a node. -/
def ambientFlow (v : Node → K) (x : Node) : K :=
  (m.toAmbient x).elim 0 fun r => (m.ambient - v x) / r

def fromAmbient (v : Node → K) : K := (m.nodes.map (m.ambientFlow v)).sum

/-- The power of all cells. -/
def totalPower (power : ℕ → ℕ → ℕ → K) : K :=
  ∑ n ∈ Finset.range m.nLayers, ∑ i ∈ Finset.range m.rows, ∑ j ∈ Finset.range m.cols, power n i j

/-! ## The cells as a network -/

/-- The cells and the ways between them. -/
def cellNetwork : FlowNetwork (ℕ × ℕ × ℕ) Way where
  places := Finset.range m.nLayers ×ˢ Finset.range m.rows ×ˢ Finset.range m.cols
  next := m.next
  back := Way.back
  back_back := Way.back_back
  next_back := by
    intro way a member b adjacent
    obtain ⟨n, i, j⟩ := a
    simp only [Finset.mem_product, Finset.mem_range] at member
    cases way <;>
      simp only [next, Option.ite_none_right_eq_some, Option.some.injEq] at adjacent <;>
      obtain ⟨inside, rfl⟩ := adjacent <;>
      simp only [Finset.mem_product, Finset.mem_range, Way.back, next,
        Option.ite_none_right_eq_some, Option.some.injEq, Prod.mk.injEq, true_and, and_true] <;> omega

/-- The heat between cells, with the resistances `res`. -/
def betweenCells (res : Way → ℕ × ℕ × ℕ → ℕ × ℕ × ℕ → K) (v : Node → K) : K :=
  m.cellNetwork.sumWays fun way a b =>
    (v (.cell b.1 b.2.1 b.2.2) - v (.cell a.1 a.2.1 a.2.2)) * (res way a b)⁻¹

/-! ## Sums over the nodes -/

theorem sum_range_list {M : Type*} [AddCommMonoid M] (k : ℕ) (f : ℕ → M) :
    ((List.range k).map f).sum = ∑ i ∈ Finset.range k, f i := rfl

theorem sum_cellNodes (f : Node → K) :
    (m.cellNodes.map f).sum = ∑ n ∈ Finset.range m.nLayers, ∑ i ∈ Finset.range m.rows,
      ∑ j ∈ Finset.range m.cols, f (.cell n i j) := by
  simp only [cellNodes, List.flatMap_def, List.map_flatten, List.sum_flatten, List.map_map,
    Function.comp_def, sum_range_list]

theorem sum_packNodes (f : Node → K) :
    (m.packNodes.map f).sum =
      ∑ side, (f (.pack .SINK side) + f (.pack .SINK_C side) + f (.pack .SP side)) +
      if m.modelSecondary then ∑ side, (f (.pack .PCB side) + f (.pack .PCB_C side) +
        f (.pack .SOLDER side) + f (.pack .SUB side)) else 0 := by
  rw [(by decide : (Finset.univ : Finset Side) = {.N, .S, .W, .E}), packNodes]
  cases m.modelSecondary <;> simp <;> ring

theorem sum_nodes (f : Node → K) :
    (m.nodes.map f).sum = (m.cellNodes.map f).sum + (m.packNodes.map f).sum := by
  rw [nodes, List.map_append, List.sum_append]

theorem sum_ite_unique {M : Type*} [AddCommMonoid M] {p : ℕ → Prop} [DecidablePred p] {s : Finset ℕ}
    {k : ℕ} (only : ∀ i, p i ↔ i = k) (member : k ∈ s) (f : ℕ → M) :
    (∑ i ∈ s, if p i then f i else 0) = f k := by
  simp [only, member]

/-- A sum over the cells at a side. -/
theorem sum_atSide (side : Side) (f : ℕ → ℕ → K) :
    (∑ i ∈ Finset.range m.rows, ∑ j ∈ Finset.range m.cols,
      if m.AtSide i j side then f i j else 0) = ((m.edge side).map fun c => f c.1 c.2).sum := by
  have rows := m.rows_pos
  have cols := m.cols_pos
  cases side with
  | N =>
    rw [Finset.sum_comm, edge, List.map_map]
    exact Finset.sum_congr rfl fun j _ =>
      sum_ite_unique (fun i => Iff.rfl) (Finset.mem_range.mpr rows) fun i => f i j
  | S =>
    rw [Finset.sum_comm, edge, List.map_map]
    exact Finset.sum_congr rfl fun j _ =>
      sum_ite_unique (fun i => Iff.rfl) (Finset.mem_range.mpr (by omega)) fun i => f i j
  | W =>
    rw [edge, List.map_map]
    exact Finset.sum_congr rfl fun i _ =>
      sum_ite_unique (fun j => Iff.rfl) (Finset.mem_range.mpr cols) fun j => f i j
  | E =>
    rw [edge, List.map_map]
    exact Finset.sum_congr rfl fun i _ =>
      sum_ite_unique (fun j => Iff.rfl) (Finset.mem_range.mpr (by omega)) fun j => f i j

/-! ## The rims -/

/-- The heat from the cells at a side of a layer into the package node there. -/
def rimFlow (v : Node → K) (n : ℕ) (rim : PackKind × (Axis → Pos K)) (side : Side) : K :=
  m.edgeSum n side (fun c => v c - v (.pack rim.1 side)) / m.edgeRes n rim.2 side.axis

/-- What the cells of a layer get from its rim is what the rim gets from them, taken back. -/
theorem sum_rimSum (v : Node → K) (n : ℕ) :
    (∑ i ∈ Finset.range m.rows, ∑ j ∈ Finset.range m.cols,
      m.rimSum n i j fun x r => (v x - v (.cell n i j)) / r) =
    -(m.rim n).elim 0 fun rim => ∑ side, m.rimFlow v n rim side := by
  simp only [rimSum_eq]
  cases m.rim n with
  | none => simp
  | some rim =>
    simp only [Option.elim_some, Finset.sum_comm (t := Finset.univ)]
    rw [← Finset.sum_neg_distrib]
    refine Finset.sum_congr rfl fun side _ => ?_
    rw [m.sum_atSide side fun i j =>
      (v (.pack rim.1 side) - v (.cell n i j)) / m.edgeRes n rim.2 side.axis, rimFlow, edgeSum]
    induction m.edge side with
    | nil => simp
    | cons c l ih =>
      simp only [List.map_cons, List.sum_cons, ih]
      ring

/-- The layers with a rim. -/
theorem sum_rim (f : ℕ → PackKind × (Axis → Pos K) → K) :
    (∑ n ∈ Finset.range m.nLayers, (m.rim n).elim 0 (f n)) =
      f m.spidx (.SP, m.pack.rSp1) + f m.hsidx (.SINK_C, m.pack.rHs1) +
      if m.modelSecondary then f subidx (.SUB, m.pack.rSub1) +
        f solderidx (.SOLDER, m.pack.rSolder1) + f pcbidx (.PCB_C, m.pack.rPcb1) else 0 := by
  have several := m.layers_le
  have single : ∀ k < m.nLayers, ∀ rim, (∑ n ∈ Finset.range m.nLayers,
      if n = k then f n rim else 0) = f k rim := fun k inside rim =>
    sum_ite_unique (fun n => Iff.rfl) (Finset.mem_range.mpr inside) fun n => f n rim
  cases secondary : m.modelSecondary with
  | false =>
    have layer : ∀ n, (m.rim n).elim 0 (f n) = (if n = m.spidx then f n (.SP, m.pack.rSp1) else 0) +
        if n = m.hsidx then f n (.SINK_C, m.pack.rHs1) else 0 := by
      intro n
      have apart : m.spidx ≠ m.hsidx := by simp only [spidx, hsidx]; omega
      by_cases sp : n = m.spidx
      · simp [rim, sp, apart]
      · by_cases hs : n = m.hsidx <;> simp [rim, sp, hs, secondary, apart.symm]
    simp only [layer, Finset.sum_add_distrib]
    rw [single _ (by simp only [spidx]; omega), single _ (by simp only [hsidx]; omega)]
    simp
  | true =>
    have more := m.secondary_le secondary
    have layer : ∀ n, (m.rim n).elim 0 (f n) = (if n = m.spidx then f n (.SP, m.pack.rSp1) else 0) +
        (if n = m.hsidx then f n (.SINK_C, m.pack.rHs1) else 0) +
        ((if n = subidx then f n (.SUB, m.pack.rSub1) else 0) +
        (if n = solderidx then f n (.SOLDER, m.pack.rSolder1) else 0) +
        (if n = pcbidx then f n (.PCB_C, m.pack.rPcb1) else 0)) := by
      intro n
      have apart : m.spidx ≠ m.hsidx ∧ ∀ k < 3, m.spidx ≠ k ∧ m.hsidx ≠ k := by
        simp only [spidx, hsidx]
        exact ⟨by omega, fun k small => by omega⟩
      have low := apart.2
      by_cases sp : n = m.spidx
      · simp [rim, subidx, solderidx, pcbidx, sp, apart.1, low]
      by_cases hs : n = m.hsidx
      · simp [rim, subidx, solderidx, pcbidx, hs, apart.1.symm, low]
      rcases (by omega : n = 2 ∨ n = 1 ∨ n = 0 ∨ 2 < n) with rfl | rfl | rfl | high
      · simp [rim, subidx, solderidx, pcbidx, sp, hs, secondary]
      · simp [rim, subidx, solderidx, pcbidx, sp, hs, secondary]
      · simp [rim, subidx, solderidx, pcbidx, sp, hs, secondary]
      · have others : n ≠ 2 ∧ n ≠ 1 ∧ n ≠ 0 := by omega
        simp [rim, subidx, solderidx, pcbidx, sp, hs, others]
    simp only [layer, Finset.sum_add_distrib]
    rw [single _ (by simp only [spidx]; omega), single _ (by simp only [hsidx]; omega),
      single _ (by simp only [subidx]; omega), single _ (by simp only [solderidx]; omega),
      single _ (by simp only [pcbidx]; omega)]
    simp

/-! ## All flows -/

/-- What the package nodes at a side get: from the rims and from ambient. -/
theorem sum_packFlow (v : Node → K) (side : Side) :
    m.packFlow v .SINK side + m.packFlow v .SINK_C side + m.packFlow v .SP side =
      m.rimFlow v m.spidx (.SP, m.pack.rSp1) side +
      m.rimFlow v m.hsidx (.SINK_C, m.pack.rHs1) side +
      (m.ambientFlow v (.pack .SINK side) + m.ambientFlow v (.pack .SINK_C side) +
        m.ambientFlow v (.pack .SP side)) := by
  simp only [packFlow, packPsum, rimFlow, ambientFlow, toAmbient, Option.elim_some,
    Option.elim_none, reduceCtorEq, if_false]
  ring

theorem sum_packFlow_secondary (v : Node → K) (side : Side) :
    m.packFlow v .PCB side + m.packFlow v .PCB_C side + m.packFlow v .SOLDER side +
        m.packFlow v .SUB side = m.rimFlow v subidx (.SUB, m.pack.rSub1) side +
      m.rimFlow v solderidx (.SOLDER, m.pack.rSolder1) side +
      m.rimFlow v pcbidx (.PCB_C, m.pack.rPcb1) side +
      (m.ambientFlow v (.pack .PCB side) + m.ambientFlow v (.pack .PCB_C side) +
        m.ambientFlow v (.pack .SOLDER side) + m.ambientFlow v (.pack .SUB side)) := by
  simp only [packFlow, packPsum, solderFlow, rimFlow, ambientFlow, toAmbient, Option.elim_some,
    Option.elim_none, reduceCtorEq, if_false, if_true]
  ring

/-- The power of a node and the heat flow into it, with the resistances `res` between cells. -/
def balance (res : Way → ℕ × ℕ × ℕ → ℕ × ℕ × ℕ → K) (power : ℕ → ℕ → ℕ → K) (v : Node → K) :
    Node → K
  | .cell n i j => power n i j + m.cellFlow res v n i j
  | .pack kind side => m.packFlow v kind side

omit [LinearOrder K] in
theorem sum_ways (f : Way → K) : (Way.all.map f).sum = ∑ way, f way := by
  rw [(by decide : (Finset.univ : Finset Way) = {.north, .south, .east, .west, .above, .below})]
  simp [Way.all]

theorem sum_cellFlow (res : Way → ℕ × ℕ × ℕ → ℕ × ℕ × ℕ → K) (power : ℕ → ℕ → ℕ → K)
    (v : Node → K) :
    (m.cellNodes.map (m.balance res power v)).sum = m.totalPower power + m.betweenCells res v -
      (∑ n ∈ Finset.range m.nLayers, (m.rim n).elim 0 fun rim => ∑ side, m.rimFlow v n rim side) +
      (m.cellNodes.map (m.ambientFlow v)).sum := by
  have between : m.betweenCells res v = ∑ n ∈ Finset.range m.nLayers, ∑ i ∈ Finset.range m.rows,
      ∑ j ∈ Finset.range m.cols, (Way.all.map fun way => (m.next way (n, i, j)).elim 0 fun b =>
        (v (.cell b.1 b.2.1 b.2.2) - v (.cell n i j)) / res way (n, i, j) b).sum := by
    simp only [betweenCells, FlowNetwork.sumWays, cellNetwork, Finset.sum_product, div_eq_mul_inv,
      sum_ways]
  rw [between, sub_eq_add_neg, ← Finset.sum_neg_distrib]
  simp only [← sum_rimSum, sum_cellNodes, totalPower, ← Finset.sum_add_distrib]
  refine Finset.sum_congr rfl fun n _ => Finset.sum_congr rfl fun i _ =>
    Finset.sum_congr rfl fun j _ => ?_
  rw [balance, cellFlow, ambientFlow, toAmbient, ambientSum]
  ring

/-- **All flows.** The power of all nodes and the heat flows into them add up to the power, the
heat from ambient and what the flows between cells leave. -/
theorem sum_balance (res : Way → ℕ × ℕ × ℕ → ℕ × ℕ × ℕ → K) (power : ℕ → ℕ → ℕ → K) (v : Node → K) :
    (m.nodes.map (m.balance res power v)).sum =
      m.totalPower power + m.fromAmbient v + m.betweenCells res v := by
  have packs : (m.packNodes.map (m.balance res power v)).sum =
      (∑ n ∈ Finset.range m.nLayers, (m.rim n).elim 0 fun rim => ∑ side, m.rimFlow v n rim side) +
      (m.packNodes.map (m.ambientFlow v)).sum := by
    rw [sum_packNodes, sum_packNodes, sum_rim m fun n rim => ∑ side, m.rimFlow v n rim side]
    simp only [balance, sum_packFlow, sum_packFlow_secondary, Finset.sum_add_distrib]
    split <;> ring
  rw [sum_nodes, sum_cellFlow, packs, fromAmbient, sum_nodes]
  ring

/-! ## The slopes -/

variable {m} {power : ℕ → ℕ → ℕ → K} {v : Node → K} {way : Way} {a b : ℕ × ℕ × ℕ}

/-- The slopes have one resistance between two cells. -/
theorem findRes_comm (adjacent : m.next way a = some b) : m.findRes a b = m.findRes b a := by
  obtain ⟨n, i, j⟩ := a
  obtain ⟨n', i', j'⟩ := b
  have apart := next_adjacent adjacent
  dsimp only at apart
  rcases apart with ⟨layer, rfl, rfl⟩ | ⟨rfl, row, rfl⟩ | ⟨rfl, rfl, column⟩
  · simp only [findRes, layer, layer.symm, and_true, ne_eq, not_false_eq_true, if_true]
    have third := add_comm (m.findResZ n i' j' / 2) (m.findResZ n' i' j' / 2)
    split_ifs <;> first | rfl | exact third | omega
  · simp only [findRes, row, row.symm, ne_eq, not_true_eq_false, not_false_eq_true, and_false,
      and_true, and_self, lt_self_iff_false, if_true, if_false, add_comm]
  · simp only [findRes, column, column.symm, ne_eq, not_true_eq_false, not_false_eq_true,
      and_false, and_self, lt_self_iff_false, if_true, if_false, add_comm]

theorem slopes_reciprocal : m.cellNetwork.Reciprocal fun _ a b => (m.findRes b a)⁻¹ := by
  intro a member way b adjacent
  exact congrArg _ (findRes_comm adjacent)

variable (m)

/-- The heat that the slopes store in the capacitances. -/
def stored (power : ℕ → ℕ → ℕ → K) (v : Node → K) : K :=
  (m.nodes.map fun x => m.capacitance x * m.slopeFnGrid power v x).sum

/-- The heat that the slopes leave out at a node. -/
def lostFlow (v : Node → K) : Node → K
  | .pack .SOLDER side => m.solderFlow v side
  | _ => 0

/-- What is stored is the power and the heat from ambient. -/
def EnergyBalance (power : ℕ → ℕ → ℕ → K) (v : Node → K) : Prop :=
  m.stored power v = m.totalPower power + m.fromAmbient v

variable {m} [IsStrictOrderedRing K]

theorem capacitance_mul_slope (x : Node) :
    m.capacitance x * m.slopeFnGrid power v x =
      m.balance (fun _ a b => m.findRes b a) power v x - m.lostFlow v x := by
  cases x with
  | cell n i j =>
    have kept : m.lostFlow v (.cell n i j) = 0 := rfl
    rw [slopeFnGrid, mul_div_cancel₀ _ (capacitance_pos _).ne', kept, sub_zero, slopeSum_eq,
      balance]
  | pack kind side =>
    rw [slopeFnGrid, mul_div_cancel₀ _ (capacitance_pos _).ne', balance, packFlow]
    cases kind <;> simp [lostFlow]

theorem stored_eq : m.stored power v = m.totalPower power + m.fromAmbient v -
    if m.modelSecondary then ∑ side, m.solderFlow v side else 0 := by
  have between : m.betweenCells (fun _ a b => m.findRes b a) v = 0 :=
    m.cellNetwork.sum_flow_of_reciprocal slopes_reciprocal fun a => v (.cell a.1 a.2.1 a.2.2)
  have lost : (m.nodes.map (m.lostFlow v)).sum =
      if m.modelSecondary then ∑ side, m.solderFlow v side else 0 := by
    rw [sum_nodes, sum_cellNodes, sum_packNodes]
    simp [lostFlow]
  have all := m.sum_balance (fun _ a b => m.findRes b a) power v
  rw [between, add_zero] at all
  rw [stored, ← lost, ← all]
  simp only [capacitance_mul_slope]
  induction m.nodes with
  | nil => simp
  | cons x l ih =>
    simp only [List.map_cons, List.sum_cons, ih]
    ring

/-- **Energy balance.** The slopes of a model store the power and the heat from ambient, unless
the secondary path is used and the substrate and the solder balls differ: the heat that should
flow between them is lost. -/
theorem energyBalance_iff (m : GridModel K) (power : ℕ → ℕ → ℕ → K) (v : Node → K) :
    m.EnergyBalance power v ↔ (m.modelSecondary = true → ∑ side, m.solderFlow v side = 0) := by
  rw [EnergyBalance, stored_eq]
  cases m.modelSecondary <;> simp

/-- The stack with the secondary path loses heat at its solder balls. -/
theorem unitStack_loses : ¬unitStack.EnergyBalance chipPower unitStackTemps := by
  rw [EnergyBalance]
  decide +kernel

/-- Without the secondary path the warm stack is in balance. -/
theorem energyBalance_iff_primary : GridModel.EnergyBalance
    { unitStack with modelSecondary := false, secondary_le := by decide } chipPower unitStackTemps :=
  (energyBalance_iff _ _ _).mpr (by rintro ⟨⟩)

end GridModel

end GpuHotSpot.HotSpotTool.TemperatureGrid
