import GpuHotSpot.HotSpotTool.HeatBalance

/-!
# Reciprocity

At a fixed point of the steady iteration the heat that leaves to ambient should be the
power. It is, if any two nodes use one conductance towards each other. With
`detailed_3D` the macros take the lateral resistance of the neighbour alone, so that two
cells of different resistance see different conductances.

* `exists_packBalanced`: the package nodes settle around cells of any temperatures.
* `reciprocal_iff`: when the conductances are the same both ways.
* `steadyHeat_iff`: when the heat to ambient is the power at each fixed point.
-/

namespace GpuHotSpot.HotSpotTool.TemperatureGrid

variable {K : Type*} [Field K] [LinearOrder K]

/-- The ways within a layer. -/
def Way.lateral : List Way := [.north, .south, .east, .west]

namespace GridModel

variable (m : GridModel K)

/-- The heat that leaves to ambient. -/
def toAmbientHeat (v : Node → K) : K := -m.fromAmbient v

/-- At each fixed point the heat that leaves is the power. -/
def HeatBalanced : Prop :=
  ∀ power v, m.IsFixedPoint power v → m.totalPower power = m.toAmbientHeat v

/-- The conductance that the equation of `x` uses towards `y`: what one degree in `y` adds to the
weighted temperatures around `x`. -/
def conductance (x y : Node) : K :=
  let unit : Node → K := fun z => if z = y then 1 else 0
  match x with
  | .cell n i j => m.steadyWsum unit n i j - m.steadyWsum 0 n i j
  | .pack kind side => m.packWsum unit kind side - m.packWsum 0 kind side

/-- Any two nodes use the same conductance towards each other. -/
def Reciprocal : Prop :=
  ∀ x ∈ m.nodes, ∀ y ∈ m.nodes, x ≠ y → m.conductance x y = m.conductance y x

/-! ## The cells of a layer -/

/-- The resistance of a cell along a way within its layer. -/
def lateralRes (way : Way) (a : ℕ × ℕ × ℕ) : K :=
  match way with
  | .north | .south => m.findResY a.1 a.2.1 a.2.2
  | _ => m.findResX a.1 a.2.1 a.2.2

/-- By how much the conductance of a cell exceeds the conductances of its neighbours in the layer. -/
def mismatch (a : ℕ × ℕ × ℕ) : K :=
  (Way.lateral.map fun way =>
    (m.next way a).elim 0 fun b => 1 / m.lateralRes way a - 1 / m.lateralRes way b).sum

/-- Any two neighbours in a layer have one resistance along the way between them. -/
def EvenLayers : Prop :=
  ∀ n < m.nLayers, ∀ i < m.rows, ∀ j < m.cols, ∀ way ∈ Way.lateral, ∀ b,
    m.next way (n, i, j) = some b → m.lateralRes way (n, i, j) = m.lateralRes way b

def steadyConductance (way : Way) (a b : ℕ × ℕ × ℕ) : K := (m.steadyRes way a b)⁻¹

variable {m}

theorem mem_places {n i j : ℕ} :
    (n, i, j) ∈ m.cellNetwork.places ↔ n < m.nLayers ∧ i < m.rows ∧ j < m.cols := by
  simp [cellNetwork]

/-- With `detailed_3D`, what neighbours get more of a cell than they give is its mismatch. -/
theorem excess_detailed (detailed : m.detailed3DUsed = true) (a : ℕ × ℕ × ℕ) :
    m.cellNetwork.excess m.steadyConductance a = m.mismatch a := by
  have vertical : ∀ way ∈ [Way.above, .below], ((m.next way a).elim 0 fun b =>
      m.steadyConductance way.back b a - m.steadyConductance way a b) = 0 := by
    intro way member
    cases m.next way a with
    | none => rfl
    | some b =>
      rw [List.mem_pair] at member
      rcases member with rfl | rfl <;>
        simp [steadyConductance, steadyRes, detailed, Way.back]
  have lateral : ∀ way ∈ Way.lateral, ((m.next way a).elim 0 fun b =>
      m.steadyConductance way.back b a - m.steadyConductance way a b) =
      (m.next way a).elim 0 fun b => 1 / m.lateralRes way a - 1 / m.lateralRes way b := by
    intro way member
    cases m.next way a with
    | none => rfl
    | some b =>
      cases way <;> simp_all [steadyConductance, steadyRes, Way.back, Way.lateral, lateralRes]
  have split : Way.all = Way.lateral ++ [.above, .below] := rfl
  have around : m.cellNetwork.excess m.steadyConductance a = (Way.all.map fun way =>
      (m.next way a).elim 0 fun b =>
        m.steadyConductance way.back b a - m.steadyConductance way a b).sum := by
    rw [sum_ways]
    rfl
  rw [around, mismatch, split, List.map_append, List.sum_append]
  rw [List.map_congr_left lateral, List.sum_eq_zero (List.forall_mem_map.mpr vertical), add_zero]

theorem steadyConductance_plain (plain : m.detailed3DUsed = false) :
    m.cellNetwork.Reciprocal m.steadyConductance := by
  intro a member way b adjacent
  simp only [steadyConductance, steadyRes, plain, Bool.false_eq_true, if_false]
  exact congrArg _ (findRes_comm adjacent)

variable [IsStrictOrderedRing K] {power : ℕ → ℕ → ℕ → K} {v : Node → K}

/-! ## Package nodes around given cells -/

/-- The package nodes settle around cells of any temperatures: at each side the nodes of a path
make a chain. -/
theorem exists_packBalanced (m : GridModel K) (c : ℕ → ℕ → ℕ → K) :
    ∃ v : Node → K, (∀ n i j, v (.cell n i j) = c n i j) ∧
      ∀ kind side, m.packFlow v kind side = 0 := by
  have one : ∀ r : Pos K, 0 < 1 / (r : K) := fun r => one_div_pos.mpr r.2
  have two : ∀ r r' : Pos K, 0 < 1 / (r + r' : K) := fun r r' => one_div_pos.mpr (add_pos r.2 r'.2)
  have edge : ∀ n r1 side, 0 < m.edgeCond n r1 (Side.axis side) := fun n r1 side => edgeCond_pos
  let w : Node → K := fun x => match x with
    | .cell n i j => c n i j
    | .pack _ _ => 0
  have side : ∀ side, ∃ t : PackKind → K, ∀ v : Node → K, (∀ n i j, v (.cell n i j) = c n i j) →
      (∀ kind, v (.pack kind side) = t kind) → ∀ kind, m.packFlow v kind side = 0 := by
    intro side
    obtain ⟨sp, sinkC, sink, balance₁, balance₂, balance₃⟩ := exists_chain
      (m.edgeSum m.spidx side w / m.edgeRes m.spidx m.pack.rSp1 side.axis)
      (m.edgeSum m.hsidx side w / m.edgeRes m.hsidx m.pack.rHs1 side.axis +
        m.ambient / (m.pack.rHsCPer side.axis + m.pack.rAmbCPer side.axis : K))
      (m.ambient / (m.pack.rHsPer + m.pack.rAmbPer : K))
      (edge m.spidx m.pack.rSp1 side)
      (add_pos (edge m.hsidx m.pack.rHs1 side)
        (two (m.pack.rHsCPer side.axis) (m.pack.rAmbCPer side.axis)))
      (two m.pack.rHsPer m.pack.rAmbPer) (one (m.pack.rSpPer side.axis))
      (two (m.pack.rHs2 side.axis) m.pack.rHs)
    obtain ⟨sub, solder, pcbC, pcb, balance₄, balance₅, balance₆, balance₇⟩ := exists_chain₄
      (m.edgeSum subidx side w / m.edgeRes subidx m.pack.rSub1 side.axis)
      (m.edgeSum solderidx side w / m.edgeRes solderidx m.pack.rSolder1 side.axis)
      (m.edgeSum pcbidx side w / m.edgeRes pcbidx m.pack.rPcb1 side.axis +
        m.ambient / (m.pack.rAmbSecCPer side.axis : K))
      (m.ambient / (m.pack.rAmbSecPer : K))
      (edge subidx m.pack.rSub1 side) (edge solderidx m.pack.rSolder1 side)
      (add_pos (edge pcbidx m.pack.rPcb1 side) (one (m.pack.rAmbSecCPer side.axis)))
      (one m.pack.rAmbSecPer) (one (m.pack.rSolderPer side.axis)) (one (m.pack.rPcbCPer side.axis))
      (two (m.pack.rPcb2 side.axis) m.pack.rPcb)
    refine ⟨fun kind => match kind with
      | .SP => sp
      | .SINK_C => sinkC
      | .SINK => sink
      | .SUB => sub
      | .SOLDER => solder
      | .PCB_C => pcbC
      | .PCB => pcb, ?_⟩
    intro v cells packs kind
    have same : ∀ n, m.edgeSum n side v = m.edgeSum n side w := fun n => by
      simp only [edgeSum, cells, w]
    simp only [edgeCond] at balance₁ balance₂ balance₄ balance₅ balance₆
    cases kind <;>
      simp only [packFlow, packPsum, solderFlow, edgeSum_sub, same, packs, reduceCtorEq,
        if_true, if_false]
    · linear_combination balance₁
    · linear_combination balance₂
    · linear_combination balance₃
    · linear_combination balance₄
    · linear_combination balance₅
    · linear_combination balance₆
    · linear_combination balance₇
  choose t settled using side
  refine ⟨fun x => match x with
    | .cell n i j => c n i j
    | .pack kind side => t side kind, fun _ _ _ => rfl, fun kind side => ?_⟩
  exact settled side _ (fun _ _ _ => rfl) (fun _ => rfl) kind

/-! ## Heat at the fixed points -/

/-- At a fixed point, what the flows between cells leave is the heat that is missing. -/
theorem heat_of_fixedPoint (fixed : m.IsFixedPoint power v) :
    m.totalPower power + m.fromAmbient v + ∑ a ∈ m.cellNetwork.places,
        v (.cell a.1 a.2.1 a.2.2) * m.cellNetwork.excess m.steadyConductance a = 0 := by
  have same : m.balance m.steadyRes power v = m.steadyBalance power v := by
    funext x
    cases x <;> rfl
  have all := m.sum_balance m.steadyRes power v
  rw [same, List.sum_eq_zero (List.forall_mem_map.mpr (fixedPoint_iff.1 fixed))] at all
  rw [all]
  exact congrArg _ (m.cellNetwork.sum_flow m.steadyConductance
    fun a => v (.cell a.1 a.2.1 a.2.2)).symm

/-- The heat is balanced at each fixed point if and only if no cell gets more than it gives. -/
theorem heatBalanced_iff_excess :
    m.HeatBalanced ↔ ∀ a ∈ m.cellNetwork.places, m.cellNetwork.excess m.steadyConductance a = 0 := by
  constructor
  · intro balanced a member
    -- one degree in the cell `a`, held by the power that this takes
    obtain ⟨v, cells, packs⟩ := m.exists_packBalanced fun n i j => if (n, i, j) = a then 1 else 0
    have fixed : m.IsFixedPoint (m.holding v) v := fixedPoint_holding fun kind side _ => packs kind side
    have heat := heat_of_fixedPoint fixed
    rw [balanced _ _ fixed, toAmbientHeat, neg_add_cancel, zero_add] at heat
    simpa [cells, member] using heat
  · intro none power v fixed
    have heat := heat_of_fixedPoint fixed
    rw [Finset.sum_eq_zero fun a member => by rw [none a member, mul_zero], add_zero] at heat
    exact eq_neg_of_add_eq_zero_left heat

/-! ## Conductances -/

section Conductances

variable {n i j : ℕ} {a b : ℕ × ℕ × ℕ} {way : Way} {kind kind' : PackKind} {side side' : Side}

omit [IsStrictOrderedRing K] in
theorem conductance_cell (a b : ℕ × ℕ × ℕ) :
    m.conductance (.cell a.1 a.2.1 a.2.2) (.cell b.1 b.2.1 b.2.2) =
      ∑ way, if m.next way a = some b then m.steadyConductance way a b else 0 := by
  have rim : ∀ f : Node → K → K, (∀ kind side r, f (.pack kind side) r = 0) →
      m.rimSum a.1 a.2.1 a.2.2 f = 0 := by
    intro f none
    rw [rimSum_eq]
    cases m.rim a.1 <;> simp [none]
  rw [conductance]
  simp only [steadyWsum]
  rw [rim _ (by simp), rim _ (by simp), add_zero, add_zero, add_sub_add_right_eq_sub, sum_ways,
    sum_ways, ← Finset.sum_sub_distrib]
  refine Finset.sum_congr rfl fun way _ => ?_
  cases m.next way a with
  | none => simp
  | some c =>
    by_cases same : c = b
    · simp [same, steadyConductance]
    · have apart : Node.cell c.1 c.2.1 c.2.2 ≠ Node.cell b.1 b.2.1 b.2.2 := fun cells =>
        same (Prod.ext (Node.cell.inj cells).1
          (Prod.ext (Node.cell.inj cells).2.1 (Node.cell.inj cells).2.2))
      rw [Option.elim_some, Option.elim_some, if_neg apart, if_neg fun c => same (Option.some.inj c)]
      simp

omit [IsStrictOrderedRing K] in
theorem conductance_cell_pack :
    m.conductance (.cell n i j) (.pack kind side) = (m.rim n).elim 0 fun rim =>
      if rim.1 = kind ∧ m.AtSide i j side then 1 / m.edgeRes n rim.2 side.axis else 0 := by
  have cells : ∀ f : ℕ × ℕ × ℕ → K, (∀ b, f b = 0) →
      (∑ way, (m.next way (n, i, j)).elim 0 fun b => f b / m.steadyRes way (n, i, j) b) = 0 := by
    intro f none
    refine Finset.sum_eq_zero fun way _ => ?_
    cases m.next way (n, i, j) <;> simp [none]
  rw [conductance]
  simp only [steadyWsum, sum_ways, Pi.zero_apply]
  rw [cells _ (by simp), cells (fun _ => 0) (by simp), zero_add, zero_add, add_sub_add_right_eq_sub, rimSum_eq,
    rimSum_eq]
  cases m.rim n with
  | none => simp
  | some rim =>
    simp only [Option.elim_some, zero_div, ite_self, Finset.sum_const_zero, sub_zero]
    rw [Finset.sum_eq_single side]
    · by_cases kinds : rim.1 = kind <;> simp [kinds]
    · intro side' _ other
      simp [other]
    · simp

/-- The layer that package nodes are the rim of. -/
def rimLayer (m : GridModel K) : PackKind → Option (ℕ × (Axis → Pos K))
  | .SP => some (m.spidx, m.pack.rSp1)
  | .SINK_C => some (m.hsidx, m.pack.rHs1)
  | .SUB => some (subidx, m.pack.rSub1)
  | .SOLDER => some (solderidx, m.pack.rSolder1)
  | .PCB_C => some (pcbidx, m.pack.rPcb1)
  | _ => none

omit [IsStrictOrderedRing K] in
theorem rimLayer_of_rim {rim : PackKind × (Axis → Pos K)} (around : m.rim n = some rim) :
    m.rimLayer rim.1 = some (n, rim.2) := by
  rw [GridModel.rim] at around
  split_ifs at around with sp hs sub solder pcb <;> cases around
  · exact congrArg (fun k => some (k, m.pack.rSp1)) sp.symm
  · exact congrArg (fun k => some (k, m.pack.rHs1)) hs.symm
  · exact congrArg (fun k => some (k, m.pack.rSub1)) sub.1.symm
  · exact congrArg (fun k => some (k, m.pack.rSolder1)) solder.1.symm
  · exact congrArg (fun k => some (k, m.pack.rPcb1)) pcb.1.symm

omit [IsStrictOrderedRing K] in
theorem rim_of_rimLayer {own : ℕ × (Axis → Pos K)} (member : .pack kind side ∈ m.nodes)
    (layer : m.rimLayer kind = some own) : m.rim own.1 = some (kind, own.2) := by
  have several := m.layers_le
  have more := m.secondary_le
  rw [mem_nodes_pack] at member
  have low : solderidx ≠ subidx ∧ pcbidx ≠ subidx ∧ pcbidx ≠ solderidx := by decide
  cases kind <;> cases layer <;> simp only [List.mem_cons, reduceCtorEq, List.not_mem_nil, or_false,
    false_or, or_self] at member
  · exact if_pos rfl
  · rw [rim, if_neg (by simp only [spidx, hsidx]; omega), if_pos rfl]
  · have high := more member
    rw [rim, if_neg (by simp only [spidx, subidx]; omega),
      if_neg (by simp only [hsidx, subidx]; omega), if_pos ⟨rfl, member⟩]
  · have high := more member
    rw [rim, if_neg (by simp only [spidx, solderidx]; omega),
      if_neg (by simp only [hsidx, solderidx]; omega), if_neg fun other => low.1 other.1, if_pos ⟨rfl, member⟩]
  · have high := more member
    rw [rim, if_neg (by simp only [spidx, pcbidx]; omega),
      if_neg (by simp only [hsidx, pcbidx]; omega), if_neg fun other => low.2.1 other.1,
      if_neg fun other => low.2.2 other.1, if_pos ⟨rfl, member⟩]

omit [IsStrictOrderedRing K] in
/-- The layers around which the nodes of a kind lie. -/
theorem rim_elim (member : .pack kind side ∈ m.nodes) (P : Prop) [Decidable P]
    (f : (Axis → Pos K) → K) :
    ((m.rim n).elim 0 fun rim => if rim.1 = kind ∧ P then f rim.2 else 0) =
      (m.rimLayer kind).elim 0 fun layer => if n = layer.1 ∧ P then f layer.2 else 0 := by
  cases around : m.rim n with
  | none =>
    cases layer : m.rimLayer kind with
    | none => rfl
    | some layer' =>
      have apart : n ≠ layer'.1 := by
        rintro rfl
        have some := rim_of_rimLayer member layer
        simp [around] at some
      simp [apart]
  | some rim =>
    have own := rimLayer_of_rim around
    by_cases kinds : rim.1 = kind
    · rw [← kinds, own]
      simp
    · cases layer : m.rimLayer kind with
      | none => simp [kinds]
      | some layer' =>
        have apart : n ≠ layer'.1 := by
          rintro rfl
          have some := rim_of_rimLayer member layer
          rw [around] at some
          exact kinds (congrArg Prod.fst (Option.some.inj some))
        simp [apart, kinds]

omit [IsStrictOrderedRing K] in
theorem edgeSum_unit (row : i < m.rows) (col : j < m.cols) (k : ℕ) :
    m.edgeSum k side (fun z => if z = .cell n i j then 1 else 0) =
      if n = k ∧ m.AtSide i j side then 1 else 0 := by
  rw [edgeSum, ← m.sum_atSide side fun i' j' => if Node.cell k i' j' = .cell n i j then 1 else 0]
  have single : ∀ i' j', (if m.AtSide i' j' side then
      (if Node.cell k i' j' = .cell n i j then 1 else 0 : K) else 0) =
      if i' = i then (if j' = j then (if n = k ∧ m.AtSide i j side then 1 else 0) else 0) else 0 := by
    intro i' j'
    by_cases rows : i' = i
    · by_cases cols : j' = j
      · subst rows cols
        by_cases layer : n = k
        · simp [layer]
        · simp [layer, Ne.symm layer]
      · simp [cols]
    · simp [rows]
  simp only [single]
  simp [row, col]

omit [IsStrictOrderedRing K] in
theorem edgeSum_zero (k : ℕ) : m.edgeSum k side 0 = 0 := by
  rw [edgeSum]
  simp

omit [IsStrictOrderedRing K] in
theorem conductance_pack_cell (row : i < m.rows) (col : j < m.cols)
    (member : .pack kind side ∈ m.nodes) :
    m.conductance (.pack kind side) (.cell n i j) = (m.rim n).elim 0 fun rim =>
      if rim.1 = kind ∧ m.AtSide i j side then 1 / m.edgeRes n rim.2 side.axis else 0 := by
  rw [rim_elim member (m.AtSide i j side) fun r1 => 1 / m.edgeRes n r1 side.axis]
  cases kind <;>
    simp only [conductance, packWsum, rimLayer, edgeSum_unit row col, edgeSum_zero, Pi.zero_apply,
      Option.elim_some, Option.elim_none, reduceCtorEq, if_false, zero_div, zero_add, add_zero,
      add_sub_cancel_right, sub_self, sub_zero]
  all_goals
    split_ifs with here
    · rw [here.1]
    · exact zero_div _

omit [IsStrictOrderedRing K] in
theorem conductance_pack :
    m.conductance (.pack kind side) (.pack kind' side') =
      m.conductance (.pack kind' side') (.pack kind side) := by
  by_cases same : side' = side
  · subst same
    have zero : ∀ (l : List (ℕ × ℕ)), (l.map fun _ => (0 : K)).sum = 0 := fun l => by simp
    cases kind <;> simp only [conductance, packWsum, edgeSum, Pi.zero_apply, reduceCtorEq, if_false,
      Node.pack.injEq, and_true, zero, zero_div, zero_add, add_zero, sub_zero] <;>
      cases kind' <;> simp only [reduceCtorEq, if_false, if_true, zero_div, zero_add, add_zero,
        add_sub_cancel_left, sub_self, sub_zero]
  · have other : ∀ kind kind' side side', side' ≠ side →
        m.conductance (.pack kind side) (.pack kind' side') = 0 := by
      intro kind kind' side side' apart
      cases kind <;> simp [conductance, packWsum, edgeSum, apart.symm]
    rw [other _ _ _ _ same, other _ _ _ _ (Ne.symm same)]

omit [IsStrictOrderedRing K] in
/-- Only one way leads from a cell to a neighbour. -/
theorem next_unique {way' : Way} (adjacent : m.next way a = some b)
    (also : m.next way' a = some b) : way' = way := by
  obtain ⟨n, i, j⟩ := a
  cases way <;> cases way' <;> first
    | rfl
    | (simp only [next, Option.ite_none_right_eq_some, Option.some.injEq] at adjacent also
       obtain ⟨inside, rfl⟩ := adjacent
       simp only [Prod.mk.injEq] at also
       omega)

omit [IsStrictOrderedRing K] in
theorem conductance_next (adjacent : m.next way a = some b) :
    m.conductance (.cell a.1 a.2.1 a.2.2) (.cell b.1 b.2.1 b.2.2) = m.steadyConductance way a b := by
  rw [conductance_cell, Finset.sum_eq_single way]
  · exact if_pos adjacent
  · intro way' _ other
    exact if_neg fun also => other (next_unique adjacent also)
  · simp

omit [IsStrictOrderedRing K] in
theorem conductance_apart (apart : ¬∃ way, m.next way a = some b) :
    m.conductance (.cell a.1 a.2.1 a.2.2) (.cell b.1 b.2.1 b.2.2) = 0 := by
  rw [conductance_cell]
  exact Finset.sum_eq_zero fun way _ => if_neg fun adjacent => apart ⟨way, adjacent⟩

omit [IsStrictOrderedRing K] in
/-- All conductances are the same both ways if and only if those between cells are. -/
theorem reciprocal_iff_cells :
    m.Reciprocal ↔ m.cellNetwork.Reciprocal m.steadyConductance := by
  constructor
  · intro reciprocal a member way b adjacent
    obtain ⟨inside, back⟩ := m.cellNetwork.next_back way a member b adjacent
    have cell : ∀ c ∈ m.cellNetwork.places, Node.cell c.1 c.2.1 c.2.2 ∈ m.nodes := by
      intro c member
      simpa [cellNetwork, mem_nodes_cell] using member
    have apart : Node.cell a.1 a.2.1 a.2.2 ≠ Node.cell b.1 b.2.1 b.2.2 := by
      intro same
      obtain ⟨layer, row, col⟩ := Node.cell.inj same
      have other := next_adjacent adjacent
      omega
    have same := reciprocal _ (cell a member) _ (cell b inside) apart
    rw [conductance_next adjacent, conductance_next back] at same
    exact same.symm
  · intro cells x member y member' apart
    cases x with
    | cell n i j =>
      obtain ⟨layer, row, col⟩ := mem_nodes_cell.1 member
      cases y with
      | cell n' i' j' =>
        have inside : ∀ {n i j}, .cell n i j ∈ m.nodes → (n, i, j) ∈ m.cellNetwork.places :=
          fun member => mem_places.2 (mem_nodes_cell.1 member)
        by_cases adjacent : ∃ way, m.next way (n, i, j) = some (n', i', j')
        · obtain ⟨way, adjacent⟩ := adjacent
          have back := (m.cellNetwork.next_back way _ (inside member) _ adjacent).2
          exact (conductance_next adjacent).trans
            ((cells _ (inside member) way _ adjacent).symm.trans (conductance_next back).symm)
        · have back : ¬∃ way, m.next way (n', i', j') = some (n, i, j) := by
            rintro ⟨way, back⟩
            exact adjacent ⟨_, (m.cellNetwork.next_back way _ (inside member') _ back).2⟩
          exact (conductance_apart (a := (n, i, j)) (b := (n', i', j')) adjacent).trans
            (conductance_apart (a := (n', i', j')) (b := (n, i, j)) back).symm
      | pack kind side =>
        rw [conductance_cell_pack, conductance_pack_cell row col member']
    | pack kind side =>
      cases y with
      | cell n' i' j' =>
        obtain ⟨layer, row, col⟩ := mem_nodes_cell.1 member'
        rw [conductance_cell_pack, conductance_pack_cell row col member]
      | pack kind' side' => exact conductance_pack

end Conductances

/-! ## Main result -/

omit [IsStrictOrderedRing K] in
theorem cells_reciprocal_iff :
    m.cellNetwork.Reciprocal m.steadyConductance ↔ (m.detailed3DUsed = true → m.EvenLayers) := by
  constructor
  · intro reciprocal detailed n layer i row j col way lateral b adjacent
    have same := reciprocal (n, i, j) (mem_places.2 ⟨layer, row, col⟩) way b adjacent
    have res := inv_injective same
    cases way <;> simp_all [steadyRes, lateralRes, cellNetwork, Way.back, Way.lateral]
  · intro even
    cases detailed : m.detailed3DUsed with
    | false => exact steadyConductance_plain detailed
    | true =>
      intro a member way b adjacent
      obtain ⟨n, i, j⟩ := a
      obtain ⟨layer, row, col⟩ := mem_places.1 member
      have res : m.steadyRes way.back b (n, i, j) = m.steadyRes way (n, i, j) b := by
        by_cases lateral : way ∈ Way.lateral
        · have same := even detailed n layer i row j col way lateral b adjacent
          cases way <;> simp_all [steadyRes, lateralRes, Way.back, Way.lateral]
        · cases way <;> simp_all [steadyRes, Way.back, Way.lateral]
      exact congrArg Inv.inv res

/-- **Heat at the fixed points.** The heat that leaves to ambient is the power at each fixed point
if and only if `detailed_3D` is not used or no cell has a mismatch; any two nodes use one
conductance towards each other if and only if `detailed_3D` is not used or each layer is even. -/
theorem steadyHeat_iff (m : GridModel K) :
    (m.HeatBalanced ↔ (m.detailed3DUsed = true →
      ∀ n < m.nLayers, ∀ i < m.rows, ∀ j < m.cols, m.mismatch (n, i, j) = 0)) ∧
    (m.Reciprocal ↔ (m.detailed3DUsed = true → m.EvenLayers)) := by
  refine ⟨?_, reciprocal_iff_cells.trans cells_reciprocal_iff⟩
  rw [heatBalanced_iff_excess]
  cases detailed : m.detailed3DUsed with
  | false =>
    refine iff_of_true (fun a member => ?_) nofun
    exact m.cellNetwork.excess_eq_zero (steadyConductance_plain detailed) member
  | true =>
    simp only [excess_detailed detailed, true_implies]
    constructor
    · intro none n layer i row j col
      exact none _ (mem_places.2 ⟨layer, row, col⟩)
    · intro none a member
      obtain ⟨layer, row, col⟩ := mem_places.1 member
      exact none _ layer _ row _ col

/-! ## A chip of two blocks -/

/-- Two cells in each of three layers: chip, spreader and sink, with resistances of one but for the
lateral resistance of the second block of the chip. -/
def twoBlocks : GridModel ℚ where
  rows := 1
  cols := 2
  nLayers := 3
  width := posOne
  height := posOne
  layers := fun _ => ⟨posOne, posOne, posOne, posOne⟩
  b2gmap := fun n _ j =>
    ⟨true, false, if n = 0 ∧ j = 1 then posTwo else posOne, posOne, posOne, posOne⟩
  pack := unitPackage
  ambient := 300
  rConvecSec := posOne
  sPcb := posOne
  modelSecondary := false
  detailed3DUsed := true
  rows_pos := Nat.one_pos
  cols_pos := Nat.two_pos
  layers_le := by decide
  secondary_le := by decide

/-- One watt in the first block. -/
def firstBlock (n _ j : ℕ) : ℚ := if n = 0 ∧ j = 0 then 1 else 0

/-- The steady temperatures. -/
def twoBlocksTemps : Node → ℚ
  | .cell n _ j => 300 + ([[53280207474, 36759367236], [23637817858, 20238526998],
      [10393303322, 9646797072]].getD n []).getD j 0 / 37902809735
  | .pack .SP side => 300 + ofSide side 14699139808 14866355188 12893189868 / 37902809735
  | .pack .SINK_C side => 300 + ofSide side 8907913712 9018713408 7996298448 / 37902809735
  | .pack .SINK side => 300 + ofSide side 4453956856 4509356704 3998149224 / 37902809735
  | .pack _ _ => 0
where
  ofSide (side : Side) (along west east : ℚ) : ℚ :=
    match side with
    | .W => west
    | .E => east
    | _ => along

theorem twoBlocks_balance :
    ∀ x ∈ twoBlocks.nodes, twoBlocks.steadyBalance firstBlock twoBlocksTemps x = 0 := by
  decide +kernel

/-- At the steady temperatures of the two blocks more heat leaves than the power. -/
theorem twoBlocks_unbalanced :
    twoBlocks.IsFixedPoint firstBlock twoBlocksTemps ∧
      twoBlocks.totalPower firstBlock < twoBlocks.toAmbientHeat twoBlocksTemps := by
  refine ⟨fixedPoint_iff.2 twoBlocks_balance, ?_⟩
  decide +kernel

/-- The equivalences for the two blocks. -/
theorem steadyHeat_iff_twoBlocks : ¬twoBlocks.HeatBalanced ∧ ¬twoBlocks.Reciprocal := by
  obtain ⟨heat, reciprocal⟩ := steadyHeat_iff twoBlocks
  constructor
  · intro balanced
    exact absurd (heat.mp balanced rfl 0 (by decide) 0 (by decide) 0 (by decide)) (by decide +kernel)
  · intro same
    have even := reciprocal.mp same rfl 0 (by decide) 0 (by decide) 0 (by decide) .east (by decide)
      (0, 0, 1) rfl
    exact absurd even (by decide +kernel)

end GridModel

end GpuHotSpot.HotSpotTool.TemperatureGrid
