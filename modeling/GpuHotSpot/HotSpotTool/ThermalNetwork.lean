import Mathlib.Algebra.Order.BigOperators.Group.List
import Mathlib.Tactic.FieldSimp
import Mathlib.Tactic.Linarith
import Mathlib.Tactic.LinearCombination
import Mathlib.Tactic.Positivity
import Mathlib.Tactic.Ring
import GpuHotSpot.HotSpotTool.TemperatureGrid

/-!
# Steady and transient network

Both solvers describe a network: the heat that flows into a node is the sum, over its
neighbours, of the temperature difference over the resistance. For the steady
iteration this is what its two sums make, `wsum - csum * v`.

The networks differ in two places. With `detailed_3D` the steady iteration takes other
resistances between cells, and with the secondary path the slopes miss the heat that
the substrate gives the solder balls.

* `fixedPoint_iff`, `slopesZero_iff`: both conditions as balances of the nodes.
* `sameNetwork_iff`: when both solvers have the same equilibria.
-/

namespace GpuHotSpot.HotSpotTool.TemperatureGrid

variable {K : Type*} [Field K] [LinearOrder K]

namespace GridModel

variable (m : GridModel K)

/-! ## Flows -/

/-- The heat flow into a cell through the resistances `res` to its neighbours, its rim and
ambient. -/
def cellFlow (res : Way → ℕ × ℕ × ℕ → ℕ × ℕ × ℕ → K) (v : Node → K) (n i j : ℕ) : K :=
  (Way.all.map fun way =>
    (m.next way (n, i, j)).elim 0 fun b =>
      (v (.cell b.1 b.2.1 b.2.2) - v (.cell n i j)) / res way (n, i, j) b).sum +
  m.rimSum n i j (fun x r => (v x - v (.cell n i j)) / r) +
  m.ambientSum n (fun r => (m.ambient - v (.cell n i j)) / r)

/-- The heat that the substrate gives the solder balls at a side. -/
def solderFlow (v : Node → K) (side : Side) : K :=
  (v (.pack .SUB side) - v (.pack .SOLDER side)) / (m.pack.rSolderPer side.axis : K)

/-- The heat flow into a package node. -/
def packFlow (v : Node → K) (kind : PackKind) (side : Side) : K :=
  m.packPsum v kind side + if kind = .SOLDER then m.solderFlow v side else 0

theorem slopeSum_eq (v : Node → K) (n i j : ℕ) :
    m.slopeSum v n i j = m.cellFlow (fun _ a b => m.findRes b a) v n i j := rfl

/-- What an iteration sums up in a cell is the heat that flows into it. -/
theorem steadyWsum_sub (v : Node → K) (n i j : ℕ) :
    m.steadyWsum v n i j - m.steadyCsum n i j * v (.cell n i j) =
      m.cellFlow m.steadyRes v n i j := by
  have ways : ∀ l : List Way, (l.map fun way =>
        (m.next way (n, i, j)).elim 0 fun b =>
          v (.cell b.1 b.2.1 b.2.2) / m.steadyRes way (n, i, j) b).sum -
      (l.map fun way =>
        (m.next way (n, i, j)).elim 0 fun b =>
          1 / m.steadyRes way (n, i, j) b).sum * v (.cell n i j) =
      (l.map fun way =>
        (m.next way (n, i, j)).elim 0 fun b =>
          (v (.cell b.1 b.2.1 b.2.2) - v (.cell n i j)) /
            m.steadyRes way (n, i, j) b).sum := by
    intro l
    induction l with
    | nil => simp
    | cons way l ih =>
      simp only [List.map_cons, List.sum_cons]
      rw [← ih]
      cases m.next way (n, i, j) <;> simp only [Option.elim_none, Option.elim_some] <;> ring
  have rim : m.rimSum n i j (fun x r => v x / r) -
      m.rimSum n i j (fun _ r => 1 / r) * v (.cell n i j) =
      m.rimSum n i j (fun x r => (v x - v (.cell n i j)) / r) := by
    have side (p : Prop) [Decidable p] (x r : K) : (if p then x / r else 0) -
        (if p then 1 / r else 0) * v (.cell n i j) =
        if p then (x - v (.cell n i j)) / r else 0 := by
      split_ifs
      · ring
      · rw [zero_mul, sub_zero]
    simp only [rimSum]
    cases m.rim n with
    | none => simp
    | some rim =>
      simp only [← side]
      ring
  have ambient : m.ambientSum n (fun r => m.ambient / r) -
      m.ambientSum n (fun r => 1 / r) * v (.cell n i j) =
      m.ambientSum n (fun r => (m.ambient - v (.cell n i j)) / r) := by
    simp only [ambientSum]
    cases m.ambientRes n with
    | none => simp
    | some r =>
      simp only [Option.elim_some]
      ring
  rw [cellFlow, ← ways, ← rim, ← ambient, steadyWsum, steadyCsum]
  ring

theorem edgeSum_sub (n : ℕ) (side : Side) (v : Node → K) (x : K) :
    m.edgeSum n side (fun c => v c - x) = m.edgeSum n side v - m.along side.axis * x := by
  have length : ((m.edge side).length : K) = m.along side.axis := by
    cases side <;> simp [edge, along, Side.axis]
  rw [← length, edgeSum, edgeSum]
  induction m.edge side with
  | nil => simp
  | cons c l ih =>
    simp only [List.map_cons, List.sum_cons, List.length_cons, ih]
    push_cast
    ring

/-- What an iteration sums up in a package node is the heat that flows into it. -/
theorem packWsum_sub (v : Node → K) (kind : PackKind) (side : Side) :
    m.packWsum v kind side - m.packCsum kind side * v (.pack kind side) =
      m.packFlow v kind side := by
  cases kind <;>
    simp only [packFlow, packPsum, packWsum, packCsum, solderFlow, edgeSum_sub, reduceCtorEq,
      if_true, if_false] <;> ring

/-! ## Positive resistances -/

section Positive

variable {m} [IsStrictOrderedRing K] {a b : ℕ × ℕ × ℕ} {way : Way} {n i j : ℕ}

omit [IsStrictOrderedRing K] in
theorem findResX_pos : 0 < m.findResX n i j := by
  rw [findResX]
  split <;> exact Subtype.property _

omit [IsStrictOrderedRing K] in
theorem findResY_pos : 0 < m.findResY n i j := by
  rw [findResY]
  split <;> exact Subtype.property _

omit [IsStrictOrderedRing K] in
theorem findResZ_pos : 0 < m.findResZ n i j := by
  rw [findResZ]
  split <;> exact Subtype.property _

omit [IsStrictOrderedRing K] in
/-- A neighbour differs in the layer, in the row or in the column. -/
theorem next_adjacent (adjacent : m.next way a = some b) :
    (b.1 ≠ a.1 ∧ b.2.1 = a.2.1 ∧ b.2.2 = a.2.2) ∨ (b.1 = a.1 ∧ b.2.1 ≠ a.2.1 ∧ b.2.2 = a.2.2) ∨
    (b.1 = a.1 ∧ b.2.1 = a.2.1 ∧ b.2.2 ≠ a.2.2) := by
  obtain ⟨n, i, j⟩ := a
  cases way <;> simp only [next, Option.ite_none_right_eq_some, Option.some.injEq] at adjacent <;>
    obtain ⟨inside, rfl⟩ := adjacent <;> dsimp only <;> omega

/-- The resistance to a neighbour is positive: the cells are adjacent. -/
theorem findRes_pos (adjacent : m.next way a = some b) : 0 < m.findRes b a := by
  have half : ∀ r r' : K, 0 < r → 0 < r' → 0 < r / 2 + r' / 2 := fun r r' pos pos' => by positivity
  have full : ∀ r r' : K, 0 < r → 0 < r' → 0 < r + r' / 2 := fun r r' pos pos' => by positivity
  rw [findRes]
  cases detailed : m.detailed3DUsed with
  | true =>
    simp only [if_true]
    split_ifs with first second vertical northSouth eastWest
    · exact full _ _ findResZ_pos findResZ_pos
    · exact full _ _ findResZ_pos findResZ_pos
    · exact half _ _ findResZ_pos findResZ_pos
    · exact half _ _ findResX_pos findResX_pos
    · exact half _ _ findResY_pos findResY_pos
    · exact ((next_adjacent adjacent).elim vertical fun rest =>
        rest.elim northSouth eastWest).elim
  | false =>
    simp only [Bool.false_eq_true, if_false]
    split_ifs with above below northSouth eastWest
    · exact (m.layers _).rz.2
    · exact (m.layers _).rz.2
    · exact half _ _ (m.layers _).rx.2 (m.layers _).rx.2
    · exact half _ _ (m.layers _).ry.2 (m.layers _).ry.2
    · rcases next_adjacent adjacent with ⟨layer, same⟩ | row | column
      · rcases Nat.lt_or_gt_of_ne layer with up | down
        · exact (above ⟨up, same⟩).elim
        · exact (below ⟨down, same⟩).elim
      · exact (northSouth row).elim
      · exact (eastWest column).elim

theorem steadyRes_pos (adjacent : m.next way a = some b) : 0 < m.steadyRes way a b := by
  unfold steadyRes
  split
  · cases way
    · exact findResY_pos
    · exact findResY_pos
    · exact findResX_pos
    · exact findResX_pos
    · exact findResZ_pos
    · exact findResZ_pos
  · exact findRes_pos adjacent

theorem edgeRes_pos {r1 : Axis → Pos K} {axis : Axis} : 0 < m.edgeRes n r1 axis := by
  have own := ((m.layers n).r axis).2
  have part := (r1 axis).2
  rw [edgeRes]
  positivity

theorem ambientRes_pos {r : K} (leads : m.ambientRes n = some r) : 0 < r := by
  rw [ambientRes] at leads
  have width := m.width.2
  have height := m.height.2
  have convection := m.rConvecSec.2
  have board := m.sPcb.2
  have rows : (0 : K) < m.rows := Nat.cast_pos.mpr m.rows_pos
  have cols : (0 : K) < m.cols := Nat.cast_pos.mpr m.cols_pos
  split_ifs at leads
  · cases leads
    exact (m.layers n).rz.2
  · cases leads
    positivity

omit [IsStrictOrderedRing K] in
/-- The rim of a cell is a sum over the sides it lies at. -/
theorem rimSum_eq (f : Node → K → K) :
    m.rimSum n i j f = (m.rim n).elim 0 fun rim => ∑ side, if m.AtSide i j side then
      f (.pack rim.1 side) (m.edgeRes n rim.2 side.axis) else 0 := by
  rw [rimSum]
  cases m.rim n with
  | none => rfl
  | some rim =>
    rw [Option.elim_some, (by decide : (Finset.univ : Finset Side) = {.N, .S, .E, .W})]
    simp [Side.axis, add_assoc]

theorem rimSum_nonneg {f : Node → K → K} (nonneg : ∀ x r, 0 < r → 0 ≤ f x r) :
    0 ≤ m.rimSum n i j f := by
  rw [rimSum_eq]
  cases m.rim n with
  | none => exact le_rfl
  | some rim =>
    refine Finset.sum_nonneg fun side _ => ?_
    split
    · exact nonneg _ _ edgeRes_pos
    · exact le_rfl

/-- A cell has a conductance to the layer above or below. -/
theorem steadyCsum_pos : 0 < m.steadyCsum n i j := by
  have ways : ∀ way, 0 ≤ (m.next way (n, i, j)).elim 0 fun b => 1 / m.steadyRes way (n, i, j) b := by
    intro way
    cases adjacent : m.next way (n, i, j) with
    | none => exact le_rfl
    | some b => exact (one_div_pos.mpr (steadyRes_pos adjacent)).le
  have vertical : ∃ way ∈ Way.all,
      0 < (m.next way (n, i, j)).elim 0 fun b => 1 / m.steadyRes way (n, i, j) b := by
    have several := m.layers_le
    by_cases top : n = 0
    · have below : m.next .below (n, i, j) = some (n + 1, i, j) := if_pos (by omega)
      refine ⟨.below, by decide, ?_⟩
      rw [below]
      exact one_div_pos.mpr (steadyRes_pos below)
    · have above : m.next .above (n, i, j) = some (n - 1, i, j) := if_pos (by omega)
      refine ⟨.above, by decide, ?_⟩
      rw [above]
      exact one_div_pos.mpr (steadyRes_pos above)
  have sum : 0 < (Way.all.map fun way =>
      (m.next way (n, i, j)).elim 0 fun b => 1 / m.steadyRes way (n, i, j) b).sum := by
    obtain ⟨way, member, positive⟩ := vertical
    exact positive.trans_le (List.single_le_sum (by simpa using fun way _ => ways way) _
      (List.mem_map_of_mem member))
  have rim : 0 ≤ m.rimSum n i j (fun _ r => 1 / r) :=
    rimSum_nonneg fun _ r positive => (one_div_pos.mpr positive).le
  have ambient : 0 ≤ m.ambientSum n (fun r => 1 / r) := by
    rw [ambientSum]
    cases leads : m.ambientRes n with
    | none => exact le_rfl
    | some r => exact (one_div_pos.mpr (ambientRes_pos leads)).le
  rw [steadyCsum]
  linarith

theorem packCsum_pos {kind : PackKind} {side : Side} : 0 < m.packCsum kind side := by
  have edges : ∀ n (r1 : Axis → Pos K) axis, 0 ≤ (m.along axis : K) / m.edgeRes n r1 axis :=
    fun n r1 axis => div_nonneg (Nat.cast_nonneg _) edgeRes_pos.le
  have one : ∀ r : Pos K, 0 < 1 / (r : K) := fun r => one_div_pos.mpr r.2
  have two : ∀ r r' : Pos K, 0 < 1 / (r + r' : K) := fun r r' => one_div_pos.mpr (add_pos r.2 r'.2)
  cases kind with
  | SINK => exact add_pos (two _ _) (two _ _)
  | SINK_C =>
    exact add_pos_of_nonneg_of_pos (edges _ _ _) (add_pos (add_pos (two _ _) (one _)) (two _ _))
  | SP => exact add_pos_of_nonneg_of_pos (edges _ _ _) (one _)
  | PCB => exact add_pos (one _) (two _ _)
  | PCB_C =>
    exact add_pos_of_nonneg_of_pos (edges _ _ _) (add_pos (add_pos (one _) (one _)) (two _ _))
  | SOLDER => exact add_pos_of_nonneg_of_pos (edges _ _ _) (add_pos (one _) (one _))
  | SUB => exact add_pos_of_nonneg_of_pos (edges _ _ _) (one _)

theorem capacitance_pos (x : Node) : 0 < m.capacitance x := by
  cases x with
  | cell n i j =>
    rw [capacitance]
    split
    · rw [findCap3D]
      split <;> exact Subtype.property _
    · exact (m.layers n).c.2
  | pack kind side =>
    cases kind <;> simp only [capacitance] <;>
      first
      | exact add_pos (Subtype.property _) (Subtype.property _)
      | exact Subtype.property _

end Positive

/-! ## Balances -/

/-- The temperatures that an iteration does not change. -/
def IsFixedPoint (power : ℕ → ℕ → ℕ → K) (v : Node → K) : Prop :=
  (m.singleIterationSteady power v).1 = v

/-- The temperatures at which every slope is zero. -/
def SlopesZero (power : ℕ → ℕ → ℕ → K) (v : Node → K) : Prop :=
  ∀ x ∈ m.nodes, m.slopeFnGrid power v x = 0

/-- The power of a node and the heat flow into it, in the network of the steady iteration. -/
def steadyBalance (power : ℕ → ℕ → ℕ → K) (v : Node → K) : Node → K
  | .cell n i j => power n i j + m.cellFlow m.steadyRes v n i j
  | .pack kind side => m.packFlow v kind side

/-- The power of a node and the heat flow into it, in the network of the slopes. -/
def slopeBalance (power : ℕ → ℕ → ℕ → K) (v : Node → K) : Node → K
  | .cell n i j => power n i j + m.slopeSum v n i j
  | .pack kind side => m.packPsum v kind side

variable {m} {power : ℕ → ℕ → ℕ → K} {v : Node → K}

theorem mem_nodes_cell {n i j : ℕ} :
    .cell n i j ∈ m.nodes ↔ n < m.nLayers ∧ i < m.rows ∧ j < m.cols := by
  have notPack : Node.cell n i j ∉ m.packNodes := by simp [packNodes]
  simp [nodes, notPack, cellNodes]

theorem mem_nodes_pack {kind : PackKind} {side : Side} :
    .pack kind side ∈ m.nodes ↔ kind ∈ [PackKind.SINK, .SINK_C, .SP] ∨ m.modelSecondary = true := by
  have notCell : Node.pack kind side ∉ m.cellNodes := by simp [cellNodes]
  have sides : ∀ kind', Node.pack kind side ∈
      [Node.pack kind' .N, .pack kind' .S, .pack kind' .W, .pack kind' .E] ↔ kind = kind' := by
    intro kind'
    cases side <;> simp
  rw [nodes, List.mem_append, or_iff_right notCell, packNodes]
  simp only [List.mem_flatMap, sides, exists_eq_right', List.mem_append]
  cases m.modelSecondary <;> cases kind <;> decide

theorem nodup_nodes : m.nodes.Nodup := by
  rw [nodes, List.nodup_append]
  refine ⟨?_, ?_, ?_⟩
  · simp only [cellNodes, List.nodup_flatMap, List.nodup_map_iff_inj_on List.nodup_range]
    refine ⟨fun n _ => ⟨fun i _ => ?_, ?_⟩, ?_⟩
    · intro j _ j' _ same
      exact (Node.cell.inj same).2.2
    · refine List.nodup_range.imp fun {i i'} different => ?_
      simp only [Function.onFun, List.Disjoint, List.mem_map]
      rintro x ⟨j, -, rfl⟩ ⟨j', -, same⟩
      exact different (Node.cell.inj same).2.1.symm
    · refine List.nodup_range.imp fun {n n'} different => ?_
      simp only [Function.onFun, List.Disjoint, List.mem_flatMap, List.mem_map]
      rintro x ⟨i, -, j, -, rfl⟩ ⟨i', -, j', -, same⟩
      exact different (Node.cell.inj same).1.symm
  · rw [packNodes]
    cases m.modelSecondary <;> decide
  · intro x inCells y inPack same
    subst same
    simp only [cellNodes, List.mem_flatMap, List.mem_map] at inCells
    obtain ⟨n, -, i, -, j, -, rfl⟩ := inCells
    simp [packNodes] at inPack

variable [IsStrictOrderedRing K]

/-- **Fixed points** are the temperatures at which every node is in balance. -/
theorem fixedPoint_iff :
    m.IsFixedPoint power v ↔ ∀ x ∈ m.nodes, m.steadyBalance power v x = 0 := by
  rw [IsFixedPoint, singleIterationSteady, sweep_eq_iff nodup_nodes]
  refine forall₂_congr fun x _ => ?_
  cases x with
  | cell n i j =>
    rw [steadyTemp, div_eq_iff steadyCsum_pos.ne', steadyBalance, ← steadyWsum_sub]
    constructor <;> intro same <;> linarith
  | pack kind side =>
    rw [steadyTemp, div_eq_iff packCsum_pos.ne', steadyBalance, ← packWsum_sub]
    constructor <;> intro same <;> linarith

/-- The slopes are zero where every node is in balance. -/
theorem slopesZero_iff :
    m.SlopesZero power v ↔ ∀ x ∈ m.nodes, m.slopeBalance power v x = 0 := by
  refine forall₂_congr fun x _ => ?_
  cases x with
  | cell n i j => exact div_eq_zero_iff.trans (or_iff_left (capacitance_pos _).ne')
  | pack kind side => exact div_eq_zero_iff.trans (or_iff_left (capacitance_pos _).ne')

omit [IsStrictOrderedRing K] in
/-- Without `detailed_3D` and the secondary path, both solvers have one network. -/
theorem balance_eq (plain : m.detailed3DUsed = false) (primary : m.modelSecondary = false)
    {x : Node} (member : x ∈ m.nodes) :
    m.steadyBalance power v x = m.slopeBalance power v x := by
  cases x with
  | cell n i j =>
    have same : m.steadyRes = fun _ a b => m.findRes b a := by
      funext way a b
      simp only [steadyRes, plain, Bool.false_eq_true, if_false]
    rw [steadyBalance, slopeBalance, slopeSum_eq, same]
  | pack kind side =>
    have notSolder : kind ≠ .SOLDER := by
      rintro rfl
      simp [mem_nodes_pack, primary] at member
    rw [steadyBalance, slopeBalance, packFlow, if_neg notSolder, add_zero]

/-! ## States that tell the networks apart -/

/-- What a node gets of its neighbour's rise, connected to it with the conductance `g` and to nodes
at rest with `rest`. -/
def share (g rest : K) : K := g / (g + rest)

theorem share_mul {g rest : K} (positive : 0 < g) (nonneg : 0 ≤ rest) :
    (g + rest) * share g rest = g :=
  mul_div_cancel₀ g (add_pos_of_pos_of_nonneg positive nonneg).ne'

theorem share_pos {g rest : K} (positive : 0 < g) (nonneg : 0 ≤ rest) : 0 < share g rest :=
  div_pos positive (add_pos_of_pos_of_nonneg positive nonneg)

theorem share_lt_one {g rest : K} (positive : 0 < g) (more : 0 < rest) : share g rest < 1 :=
  (div_lt_one (add_pos positive more)).mpr (by linarith)

section Warm

variable (m)

omit [IsStrictOrderedRing K] in
/-- The conductance of the cells at a side. -/
def edgeCond (n : ℕ) (r1 : Axis → Pos K) (a : Axis) : K := m.along a / m.edgeRes n r1 a

def pcbShare (a : Axis) : K :=
  share (1 / (m.pack.rPcb2 a + m.pack.rPcb : K)) (1 / (m.pack.rAmbSecPer : K))

def boardShare (a : Axis) : K :=
  share (1 / (m.pack.rPcbCPer a : K)) (m.edgeCond pcbidx m.pack.rPcb1 a +
    1 / (m.pack.rAmbSecCPer a : K) + (1 - m.pcbShare a) / (m.pack.rPcb2 a + m.pack.rPcb : K))

def solderShare (a : Axis) : K :=
  share (1 / (m.pack.rSolderPer a : K)) (m.edgeCond solderidx m.pack.rSolder1 a +
    (1 - m.boardShare a) / (m.pack.rPcbCPer a : K))

def subShare (a : Axis) : K :=
  share (m.edgeCond subidx m.pack.rSub1 a) ((1 - m.solderShare a) / (m.pack.rSolderPer a : K))

/-- The substrate one degree above ambient, and what the nodes of the secondary path get of it. -/
def warmSubstrate : Node → K
  | .cell n _ _ => if n = subidx then m.ambient + 1 else m.ambient
  | .pack .SUB side => m.ambient + m.subShare side.axis
  | .pack .SOLDER side => m.ambient + m.subShare side.axis * m.solderShare side.axis
  | .pack .PCB_C side =>
    m.ambient + m.subShare side.axis * m.solderShare side.axis * m.boardShare side.axis
  | .pack .PCB side =>
    m.ambient + m.subShare side.axis * m.solderShare side.axis * m.boardShare side.axis *
      m.pcbShare side.axis
  | .pack _ _ => m.ambient

/-- The first layer one degree above ambient. -/
def warmFirst : Node → K
  | .cell n _ _ => if n = 0 then m.ambient + 1 else m.ambient
  | .pack _ _ => m.ambient

/-- The power that keeps the cells at the given temperatures, in the steady network. -/
def holding (v : Node → K) (n i j : ℕ) : K := -m.cellFlow m.steadyRes v n i j

end Warm

theorem edgeCond_pos {n : ℕ} {r1 : Axis → Pos K} {a : Axis} : 0 < m.edgeCond n r1 a := by
  refine div_pos ?_ edgeRes_pos
  cases a with
  | x => exact Nat.cast_pos.mpr m.rows_pos
  | y => exact Nat.cast_pos.mpr m.cols_pos

omit [IsStrictOrderedRing K] in
theorem edgeSum_const {n : ℕ} {side : Side} {c x : K} (const : ∀ i j, v (.cell n i j) = c) :
    m.edgeSum n side (fun y => v y - x) = m.along side.axis * (c - x) := by
  have sum : m.edgeSum n side v = m.along side.axis * c := by
    have length : ((m.edge side).length : K) = m.along side.axis := by
      cases side <;> simp [edge, along, Side.axis]
    rw [← length, edgeSum]
    simp [const]
  rw [edgeSum_sub, sum]
  ring

theorem pcbShare_spec (a : Axis) : 0 < m.pcbShare a ∧ m.pcbShare a < 1 ∧
    (1 / (m.pack.rPcb2 a + m.pack.rPcb : K) + 1 / (m.pack.rAmbSecPer : K)) * m.pcbShare a =
      1 / (m.pack.rPcb2 a + m.pack.rPcb : K) := by
  have link : 0 < 1 / (m.pack.rPcb2 a + m.pack.rPcb : K) :=
    one_div_pos.mpr (add_pos (Subtype.property _) (Subtype.property _))
  have away : 0 < 1 / (m.pack.rAmbSecPer : K) := one_div_pos.mpr (Subtype.property _)
  exact ⟨share_pos link away.le, share_lt_one link away, share_mul link away.le⟩

theorem boardShare_spec (a : Axis) : 0 < m.boardShare a ∧ m.boardShare a < 1 ∧
    (1 / (m.pack.rPcbCPer a : K) + (m.edgeCond pcbidx m.pack.rPcb1 a +
      1 / (m.pack.rAmbSecCPer a : K) + (1 - m.pcbShare a) / (m.pack.rPcb2 a + m.pack.rPcb : K))) *
        m.boardShare a = 1 / (m.pack.rPcbCPer a : K) := by
  have link : 0 < 1 / (m.pack.rPcbCPer a : K) := one_div_pos.mpr (Subtype.property _)
  have edge := @edgeCond_pos K _ _ m _ pcbidx m.pack.rPcb1 a
  have away : 0 < 1 / (m.pack.rAmbSecCPer a : K) := one_div_pos.mpr (Subtype.property _)
  have outer : 0 < (1 - m.pcbShare a) / (m.pack.rPcb2 a + m.pack.rPcb : K) :=
    div_pos (sub_pos.mpr (pcbShare_spec a).2.1)
      (add_pos (Subtype.property _) (Subtype.property _))
  have rest := add_pos (add_pos edge away) outer
  exact ⟨share_pos link rest.le, share_lt_one link rest, share_mul link rest.le⟩

theorem solderShare_spec (a : Axis) : 0 < m.solderShare a ∧ m.solderShare a < 1 ∧
    (1 / (m.pack.rSolderPer a : K) + (m.edgeCond solderidx m.pack.rSolder1 a +
      (1 - m.boardShare a) / (m.pack.rPcbCPer a : K))) * m.solderShare a =
        1 / (m.pack.rSolderPer a : K) := by
  have link : 0 < 1 / (m.pack.rSolderPer a : K) := one_div_pos.mpr (Subtype.property _)
  have edge := @edgeCond_pos K _ _ m _ solderidx m.pack.rSolder1 a
  have board : 0 < (1 - m.boardShare a) / (m.pack.rPcbCPer a : K) :=
    div_pos (sub_pos.mpr (boardShare_spec a).2.1) (Subtype.property _)
  have rest := add_pos edge board
  exact ⟨share_pos link rest.le, share_lt_one link rest, share_mul link rest.le⟩

theorem subShare_spec (a : Axis) : 0 < m.subShare a ∧
    (m.edgeCond subidx m.pack.rSub1 a + (1 - m.solderShare a) / (m.pack.rSolderPer a : K)) *
      m.subShare a = m.edgeCond subidx m.pack.rSub1 a := by
  have edge := @edgeCond_pos K _ _ m _ subidx m.pack.rSub1 a
  have rest : 0 < (1 - m.solderShare a) / (m.pack.rSolderPer a : K) :=
    div_pos (sub_pos.mpr (solderShare_spec a).2.1) (Subtype.property _)
  exact ⟨share_pos edge rest.le, share_mul edge rest.le⟩

/-- The nodes of both paths are in balance around the warm substrate. -/
theorem packFlow_warmSubstrate (secondary : m.modelSecondary = true) (kind : PackKind)
    (side : Side) : m.packFlow m.warmSubstrate kind side = 0 := by
  have several := m.secondary_le secondary
  have cells : ∀ n, n ≠ subidx → ∀ i j, m.warmSubstrate (.cell n i j) = m.ambient :=
    fun n other i j => if_neg other
  have warm : ∀ i j, m.warmSubstrate (.cell subidx i j) = m.ambient + 1 := fun i j => by
    simp [warmSubstrate]
  have pcb := (@pcbShare_spec K _ _ m _ side.axis).2.2
  have board := (@boardShare_spec K _ _ m _ side.axis).2.2
  have solder := (@solderShare_spec K _ _ m _ side.axis).2.2
  have sub := (@subShare_spec K _ _ m _ side.axis).2
  simp only [edgeCond] at board solder sub
  cases kind with
  | SINK => simp [packFlow, packPsum, warmSubstrate]
  | SINK_C =>
    simp only [packFlow, packPsum, edgeSum_const (cells m.hsidx (by simp [hsidx, subidx]; omega))]
    simp [warmSubstrate]
  | SP =>
    simp only [packFlow, packPsum, edgeSum_const (cells m.spidx (by simp [spidx, subidx]; omega))]
    simp [warmSubstrate]
  | PCB =>
    simp only [packFlow, packPsum, warmSubstrate, reduceCtorEq, if_false]
    linear_combination -(m.subShare side.axis * m.solderShare side.axis *
      m.boardShare side.axis) * pcb
  | PCB_C =>
    simp only [packFlow, packPsum, edgeSum_const (cells pcbidx (by decide))]
    simp only [warmSubstrate, reduceCtorEq, if_false]
    linear_combination -(m.subShare side.axis * m.solderShare side.axis) * board
  | SOLDER =>
    simp only [packFlow, packPsum, edgeSum_const (cells solderidx (by decide)), solderFlow]
    simp only [warmSubstrate, if_true]
    linear_combination -m.subShare side.axis * solder
  | SUB =>
    simp only [packFlow, packPsum, edgeSum_const warm]
    simp only [warmSubstrate, reduceCtorEq, if_false]
    linear_combination -sub

/-- Temperatures are held by the power `holding` if the package nodes are in balance. -/
theorem fixedPoint_holding
    (packs : ∀ kind side, .pack kind side ∈ m.nodes → m.packFlow v kind side = 0) :
    m.IsFixedPoint (m.holding v) v := by
  refine fixedPoint_iff.2 fun x member => ?_
  cases x with
  | cell n i j => exact neg_add_cancel _
  | pack kind side => exact packs kind side member

/-- With the secondary path, the slopes miss the heat from the warm substrate. -/
theorem warmSubstrate_slope (secondary : m.modelSecondary = true) :
    m.IsFixedPoint (m.holding m.warmSubstrate) m.warmSubstrate ∧
      ¬m.SlopesZero (m.holding m.warmSubstrate) m.warmSubstrate := by
  refine ⟨fixedPoint_holding fun kind side _ => packFlow_warmSubstrate secondary kind side, ?_⟩
  intro zero
  have member : Node.pack .SOLDER .N ∈ m.nodes := mem_nodes_pack.2 (.inr secondary)
  have slope : m.packPsum m.warmSubstrate .SOLDER .N = 0 := slopesZero_iff.1 zero _ member
  have balance := packFlow_warmSubstrate secondary .SOLDER .N
  rw [packFlow, if_pos rfl, slope, zero_add] at balance
  have flows : 0 < m.solderFlow m.warmSubstrate .N := by
    have below := (@solderShare_spec K _ _ m _ (Side.axis .N)).2.1
    have warm := (@subShare_spec K _ _ m _ (Side.axis .N)).1
    refine div_pos ?_ (Subtype.property _)
    have rise : m.warmSubstrate (.pack .SUB .N) - m.warmSubstrate (.pack .SOLDER .N) =
        m.subShare (Side.axis .N) * (1 - m.solderShare (Side.axis .N)) := by
      simp only [warmSubstrate]
      ring
    rw [rise]
    exact mul_pos warm (sub_pos.mpr below)
  exact flows.ne' balance

omit [IsStrictOrderedRing K] in
/-- The heat that leaves the corner of the warm first layer goes to the layer below. -/
theorem cellFlow_warmFirst (primary : m.modelSecondary = false)
    (res : Way → ℕ × ℕ × ℕ → ℕ × ℕ × ℕ → K) :
    m.cellFlow res m.warmFirst 0 0 0 = -1 / res .below (0, 0, 0) (1, 0, 0) := by
  have several := m.layers_le
  have noRim : m.rim 0 = none := by
    rw [rim, if_neg (by simp only [spidx]; omega), if_neg (by simp only [hsidx]; omega)]
    simp [primary]
  have noAmbient : m.ambientRes 0 = none := by
    rw [ambientRes, if_neg (by simp only [spidx]; omega), if_neg (by simp only [hsidx]; omega)]
    simp [primary]
  have below : m.next .below (0, 0, 0) = some (1, 0, 0) := if_pos (by omega)
  have level : ∀ way, way ≠ .below → ((m.next way (0, 0, 0)).elim 0 fun b =>
      (m.warmFirst (.cell b.1 b.2.1 b.2.2) - m.warmFirst (.cell 0 0 0)) /
        res way (0, 0, 0) b) = 0 := by
    intro way other
    cases adjacent : m.next way (0, 0, 0) with
    | none => rfl
    | some b =>
      have layer : b.1 = 0 := by
        cases way <;> simp only [next, Option.ite_none_right_eq_some, Option.some.injEq] at adjacent
        all_goals first
          | exact absurd rfl other
          | (obtain ⟨-, rfl⟩ := adjacent; rfl)
      simp [warmFirst, layer]
  rw [cellFlow, rimSum, noRim, ambientSum, noAmbient, Way.all]
  simp only [List.map_cons, List.map_nil, List.sum_cons, List.sum_nil,
    level .north nofun, level .south nofun, level .east nofun, level .west nofun,
    level .above nofun, below, Option.elim_some, Option.elim_none]
  simp [warmFirst]

/-- With `detailed_3D`, the slopes let less heat out of the warm first layer. -/
theorem warmFirst_slope (primary : m.modelSecondary = false) (detailed : m.detailed3DUsed = true) :
    m.IsFixedPoint (m.holding m.warmFirst) m.warmFirst ∧
      ¬m.SlopesZero (m.holding m.warmFirst) m.warmFirst := by
  have several := m.layers_le
  have cells : ∀ n, n ≠ 0 → ∀ i j, m.warmFirst (.cell n i j) = m.ambient :=
    fun n other i j => if_neg other
  constructor
  · refine fixedPoint_holding fun kind side member => ?_
    rw [mem_nodes_pack] at member
    simp only [primary, Bool.false_eq_true, or_false, List.mem_cons, List.not_mem_nil] at member
    rcases member with rfl | rfl | rfl
    · simp [packFlow, packPsum, warmFirst]
    · simp only [packFlow, packPsum, edgeSum_const (cells m.hsidx (by simp only [hsidx]; omega))]
      simp [warmFirst]
    · simp only [packFlow, packPsum, edgeSum_const (cells m.spidx (by simp only [spidx]; omega))]
      simp [warmFirst]
  · intro zero
    have member : Node.cell 0 0 0 ∈ m.nodes :=
      mem_nodes_cell.2 ⟨by omega, m.rows_pos, m.cols_pos⟩
    have balance : m.holding m.warmFirst 0 0 0 + m.slopeSum m.warmFirst 0 0 0 = 0 :=
      slopesZero_iff.1 zero _ member
    rw [slopeSum_eq, holding, cellFlow_warmFirst primary, cellFlow_warmFirst primary] at balance
    have own := @findResZ_pos K _ _ m 0 0 0
    have lower := @findResZ_pos K _ _ m 1 0 0
    have steady : m.steadyRes .below (0, 0, 0) (1, 0, 0) = m.findResZ 0 0 0 := by
      simp [steadyRes, detailed]
    have slope : m.findRes (1, 0, 0) (0, 0, 0) = m.findResZ 0 0 0 + m.findResZ 1 0 0 / 2 := by
      simp [findRes, detailed]
    rw [steady, slope] at balance
    field_simp at balance
    linarith

/-- **One network.** The steady iteration and the slopes have the same equilibria, for every power
and all temperatures, if and only if neither the secondary path nor `detailed_3D` is used. -/
theorem sameNetwork_iff (m : GridModel K) :
    (∀ power v, m.IsFixedPoint power v ↔ m.SlopesZero power v) ↔
      m.modelSecondary = false ∧ m.detailed3DUsed = false := by
  constructor
  · intro same
    by_contra other
    cases secondary : m.modelSecondary with
    | true =>
      obtain ⟨fixed, slopes⟩ := warmSubstrate_slope secondary
      exact slopes ((same _ _).mp fixed)
    | false =>
      cases detailed : m.detailed3DUsed with
      | true =>
        obtain ⟨fixed, slopes⟩ := warmFirst_slope secondary detailed
        exact slopes ((same _ _).mp fixed)
      | false => exact other ⟨secondary, detailed⟩
  · rintro ⟨primary, plain⟩ power v
    rw [fixedPoint_iff, slopesZero_iff]
    exact forall₂_congr fun x member => by rw [balance_eq plain primary member]

/-! ## A stack with the secondary path -/

/-- A length, a resistance or a capacitance of one. -/
def posOne : Pos ℚ := ⟨1, one_pos⟩

/-- A length, a resistance or a capacitance of two. -/
def posTwo : Pos ℚ := ⟨2, by norm_num⟩

/-- Resistances and capacitances of one. -/
def unitPackage : PackageRC ℚ :=
  let u := posOne
  ⟨u, u, u, u, u, u, u, u, u, u, u, u, u, u, u, u, u,
    u, u, u, u, u, u, u, u, u, u, u, u, u, u, u, u,
    u, u, u, u, u, u, u, u, u, u, u, u, u, u, u, u⟩

/-- One cell in each of six layers: board, solder balls, substrate, chip, spreader and sink, with
resistances and capacitances of one. -/
def unitStack : GridModel ℚ where
  rows := 1
  cols := 1
  nLayers := 6
  width := posOne
  height := posOne
  layers := fun _ => ⟨posOne, posOne, posOne, posOne⟩
  b2gmap := fun _ _ _ => ⟨true, false, posOne, posOne, posOne, posOne⟩
  pack := unitPackage
  ambient := 300
  rConvecSec := posOne
  sPcb := posOne
  modelSecondary := true
  detailed3DUsed := false
  rows_pos := Nat.one_pos
  cols_pos := Nat.one_pos
  layers_le := by decide
  secondary_le := by decide

/-- One watt in the chip. -/
def chipPower (n _ _ : ℕ) : ℚ := if n = 3 then 1 else 0

/-- The steady temperatures. -/
def unitStackTemps : Node → ℚ
  | .cell n _ _ => 300 +
      [1054713, 2414602, 4566299, 10635796, 4147032, 1784668].getD n 0 / 12558261
  | .pack .SP _ => 300 + 2599632 / 12558261
  | .pack .SINK_C _ => 300 + 1568032 / 12558261
  | .pack .SINK _ => 300 + 784016 / 12558261
  | .pack .SUB _ => 300 + 3097124 / 12558261
  | .pack .SOLDER _ => 300 + 2117674 / 12558261
  | .pack .PCB_C _ => 300 + 940272 / 12558261
  | .pack .PCB _ => 300 + 313424 / 12558261

theorem unitStack_balance :
    ∀ x ∈ unitStack.nodes, unitStack.steadyBalance chipPower unitStackTemps x = 0 := by
  decide +kernel

/-- The steady temperatures of the stack are no equilibrium of the slopes. -/
theorem unitStack_differs :
    unitStack.IsFixedPoint chipPower unitStackTemps ∧
      ¬unitStack.SlopesZero chipPower unitStackTemps := by
  refine ⟨fixedPoint_iff.2 unitStack_balance, fun zero => ?_⟩
  have solder := zero (.pack .SOLDER .N) (by decide +kernel)
  revert solder
  decide +kernel

/-- The equivalence for the stack, which has a secondary path. -/
theorem sameNetwork_iff_unitStack :
    ¬∀ power v, unitStack.IsFixedPoint power v ↔ unitStack.SlopesZero power v :=
  fun same => absurd ((sameNetwork_iff unitStack).mp same).1 (by decide)

end GridModel

end GpuHotSpot.HotSpotTool.TemperatureGrid
