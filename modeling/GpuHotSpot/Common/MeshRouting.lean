import Mathlib.Algebra.Order.Ring.Int
import GpuHotSpot.Common.EmeshHopByHop

/-!
# Routes through the mesh

How far `getNextDest` goes along an axis, and how far the axis is. The two differ on a ring of an odd
number of stops: half way round, rounded up, the packet takes the longer way.

* `getNextDest_eq`: at the master of another stop a packet goes one link on.
* `computeDistance_eq_dist`: `computeDistance` is the distance in the mesh or torus.
* `exists_follow`: each receiver is reached.
* `linkHops_eq_computeDistance_iff`: when the route is as long as the distance.
-/

namespace GpuHotSpot.Common.EmeshHopByHop

open Grid

/-! ## One axis -/

section Axis

variable {wrap : Bool} {n a d : ℕ}

/-- Whether the threshold of `getNextDest` sends a packet round the ring. -/
def WrapsRound (wrap : Bool) (n a d : ℕ) : Prop := wrap = true ∧ (n + 1) / 2 < Nat.dist a d

instance : Decidable (WrapsRound wrap n a d) := inferInstanceAs (Decidable (_ ∧ _))

/-- The links a packet passes along an axis. -/
def axisHops (wrap : Bool) (n a d : ℕ) : ℕ :=
  if WrapsRound wrap n a d then n - Nat.dist a d else Nat.dist a d

/-- Whether it goes to lower positions. -/
def axisDown (wrap : Bool) (n a d : ℕ) : Bool := xor (d < a) (WrapsRound wrap n a d)

/-- Where it goes from `a`. -/
def axisNext (wrap : Bool) (n a d : ℕ) : ℕ :=
  if axisDown wrap n a d then (a + n - 1) % n else (a + 1) % n

theorem axisHops_eq_zero (inA : a < n) (inD : d < n) : axisHops wrap n a d = 0 ↔ a = d := by
  have length : Nat.dist a d = a - d + (d - a) := rfl
  rw [axisHops]
  split_ifs with round
  · have far := round.2
    constructor <;> intro <;> omega
  · constructor <;> intro <;> omega

/-- One position up, the last one before the first. -/
theorem succ_mod_cases (inA : a < n) :
    a + 1 < n ∧ (a + 1) % n = a + 1 ∨ a + 1 = n ∧ (a + 1) % n = 0 := by
  rcases Nat.lt_or_ge (a + 1) n with more | last
  · exact .inl ⟨more, Nat.mod_eq_of_lt more⟩
  · have last : a + 1 = n := by omega
    exact .inr ⟨last, by rw [last, Nat.mod_self]⟩

/-- One position down, the first one after the last. -/
theorem pred_mod_cases (inA : a < n) :
    0 < a ∧ (a + n - 1) % n = a - 1 ∨ a = 0 ∧ (a + n - 1) % n = n - 1 := by
  rcases Nat.eq_zero_or_pos a with first | more
  · refine .inr ⟨first, ?_⟩
    rw [first, Nat.zero_add]
    exact Nat.mod_eq_of_lt (by omega)
  · refine .inl ⟨more, ?_⟩
    rw [show a + n - 1 = a - 1 + n by omega, Nat.add_mod_right]
    exact Nat.mod_eq_of_lt (by omega)

/-- A packet that goes round comes past the ends of the ring, and then goes straight on. -/
theorem axisHops_of_dist {a' : ℕ}
    (next : ¬ WrapsRound wrap n a d ∧ Nat.dist a' d + 1 = Nat.dist a d ∨
      WrapsRound wrap n a d ∧ Nat.dist a' d = Nat.dist a d + 1 ∨
      WrapsRound wrap n a d ∧ Nat.dist a' d + 1 = n - Nat.dist a d) (inA : a < n) (inD : d < n) :
    axisHops wrap n a' d + 1 = axisHops wrap n a d := by
  have length : Nat.dist a d = a - d + (d - a) := rfl
  rcases next with ⟨direct, shorter⟩ | ⟨round, longer⟩ | ⟨round, past⟩
  · have direct' : ¬ WrapsRound wrap n a' d := fun round =>
      direct ⟨round.1, lt_trans round.2 (by omega)⟩
    rw [axisHops, axisHops, if_neg direct, if_neg direct', shorter]
  · have round' : WrapsRound wrap n a' d := ⟨round.1, lt_trans round.2 (by omega)⟩
    rw [axisHops, axisHops, if_pos round, if_pos round', longer]
    omega
  · have far := round.2
    have direct' : ¬ WrapsRound wrap n a' d := by
      rintro ⟨-, far'⟩
      omega
    rw [axisHops, axisHops, if_pos round, if_neg direct', past]

/-- A hop takes the packet one link on. -/
theorem axisHops_axisNext (inA : a < n) (inD : d < n) (apart : a ≠ d) :
    axisHops wrap n (axisNext wrap n a d) d + 1 = axisHops wrap n a d := by
  have length : Nat.dist a d = a - d + (d - a) := rfl
  have length' : Nat.dist (axisNext wrap n a d) d =
    axisNext wrap n a d - d + (d - axisNext wrap n a d) := rfl
  refine axisHops_of_dist ?_ inA inD
  by_cases below : axisDown wrap n a d = true
  · have moved : axisNext wrap n a d = (a + n - 1) % n := if_pos below
    simp only [axisDown, bne_iff_ne, ne_eq, decide_eq_decide] at below
    by_cases round : WrapsRound wrap n a d
    · have up : ¬ d < a := fun high => below (iff_of_true high round)
      rcases pred_mod_cases inA with ⟨more, mod⟩ | ⟨first, mod⟩
      · exact .inr (.inl ⟨round, by omega⟩)
      · exact .inr (.inr ⟨round, by omega⟩)
    · have down : d < a := by
        by_contra low
        exact below (iff_of_false low round)
      rcases pred_mod_cases inA with ⟨more, mod⟩ | ⟨first, mod⟩
      · exact .inl ⟨round, by omega⟩
      · omega
  · have moved : axisNext wrap n a d = (a + 1) % n := if_neg below
    simp only [axisDown, bne_iff_ne, ne_eq, decide_eq_decide, not_not] at below
    by_cases round : WrapsRound wrap n a d
    · have down : d < a := below.mpr round
      rcases succ_mod_cases inA with ⟨more, mod⟩ | ⟨last, mod⟩
      · exact .inr (.inl ⟨round, by omega⟩)
      · exact .inr (.inr ⟨round, by omega⟩)
    · have up : ¬ d < a := fun high => round (below.mp high)
      rcases succ_mod_cases inA with ⟨more, mod⟩ | ⟨last, mod⟩
      · exact .inl ⟨round, by omega⟩
      · omega

/-- A packet goes no fewer links than the axis is long. -/
theorem axisDist_le_axisHops (wrap : Bool) (n a d : ℕ) :
    axisDist wrap n a d ≤ axisHops wrap n a d := by
  cases wrap with
  | false => simp [axisDist, axisHops, WrapsRound]
  | true =>
    rw [axisDist, if_pos rfl, axisHops]
    split_ifs
    · exact min_le_right _ _
    · exact min_le_left _ _

/-- It goes just as many, unless it is half way round a ring of odd length. -/
theorem axisHops_eq_axisDist_iff (inA : a < n) :
    axisHops wrap n a d = axisDist wrap n a d ↔ (wrap = true → 2 * Nat.dist a d ≠ n + 1) := by
  have length : Nat.dist a d = a - d + (d - a) := rfl
  cases wrap with
  | false => simp [axisDist, axisHops, WrapsRound]
  | true =>
    rw [axisDist, if_pos rfl, axisHops, ringDist]
    split_ifs with round
    · have far := round.2
      exact ⟨fun _ _ => by omega, fun _ => by omega⟩
    · have near : ¬ (n + 1) / 2 < Nat.dist a d := fun far => round ⟨rfl, far⟩
      refine ⟨fun same _ => by omega, fun notHalf => ?_⟩
      have notHalf := notHalf rfl
      omega

end Axis

/-! ## Stops -/

section Stops

variable {m : Mesh} {core core' sender receiver : ℕ}

def Mesh.column (m : Mesh) (core : ℕ) : ℕ := core / m.concentration % m.width

def Mesh.row (m : Mesh) (core : ℕ) : ℕ := core / m.concentration / m.width

/-- The master of a stop. -/
def Mesh.master (m : Mesh) (x y : ℕ) : ℕ := (y * m.width + x) * m.concentration

theorem column_lt (m : Mesh) (core : ℕ) : m.column core < m.width := Nat.mod_lt _ m.width_pos

theorem row_lt (inMesh : core < m.applicationCores) : m.row core < m.height := by
  rw [Mesh.row, Nat.div_div_eq_div_mul,
    Nat.div_lt_iff_lt_mul (Nat.mul_pos m.concentration_pos m.width_pos)]
  exact inMesh.trans_eq (by rw [Mesh.applicationCores, ← mul_assoc, mul_comm])

theorem sameStop_iff :
    core / m.concentration = core' / m.concentration ↔
      m.column core = m.column core' ∧ m.row core = m.row core' := by
  constructor
  · intro same
    exact ⟨by rw [Mesh.column, Mesh.column, same], by rw [Mesh.row, Mesh.row, same]⟩
  · rintro ⟨column, row⟩
    rw [← Nat.div_add_mod (core / m.concentration) m.width,
      ← Nat.div_add_mod (core' / m.concentration) m.width]
    exact congrArg₂ _ (congrArg _ row) column

theorem master_div (m : Mesh) (x y : ℕ) : m.master x y / m.concentration = y * m.width + x :=
  Nat.mul_div_cancel _ m.concentration_pos

theorem column_master {x : ℕ} (inRow : x < m.width) (y : ℕ) : m.column (m.master x y) = x := by
  rw [Mesh.column, master_div, Nat.mul_add_mod_self_right, Nat.mod_eq_of_lt inRow]

theorem row_master {x : ℕ} (inRow : x < m.width) (y : ℕ) : m.row (m.master x y) = y := by
  rw [Mesh.row, master_div, mul_comm, Nat.mul_add_div m.width_pos, Nat.div_eq_of_lt inRow,
    Nat.add_zero]

theorem master_lt {x y : ℕ} (inRow : x < m.width) (inColumn : y < m.height) :
    m.master x y < m.applicationCores := by
  rw [Mesh.master, Mesh.applicationCores, mul_comm]
  refine Nat.mul_lt_mul_of_pos_left ?_ m.concentration_pos
  calc y * m.width + x < y * m.width + m.width := Nat.add_lt_add_left inRow _
    _ = (y + 1) * m.width := by rw [Nat.succ_mul]
    _ ≤ m.width * m.height := by rw [mul_comm]; exact Nat.mul_le_mul_left _ inColumn

theorem fakeNode_eq_false_iff :
    fakeNode m core = false ↔ core % m.concentration = 0 ∧ core < m.applicationCores := by
  simp only [fakeNode, ne_eq, decide_eq_false_iff_not, not_or, not_not, not_le]

/-- Masters are no fake nodes. -/
theorem fakeNode_master {x y : ℕ} (inRow : x < m.width) (inColumn : y < m.height) :
    fakeNode m (m.master x y) = false :=
  fakeNode_eq_false_iff.2 ⟨Nat.mul_mod_left _ _, master_lt inRow inColumn⟩

theorem computePosition_eq (m : Mesh) (core : ℕ) :
    computePosition m core = ((m.column core : ℤ), (m.row core : ℤ)) := rfl

/-- Coordinates are wrapped round. -/
theorem computeCoreId_eq {x y : ℤ} {a b : ℕ} (column : x + m.width = a) (row : y + m.height = b) :
    computeCoreId m x y = m.master (a % m.width) (b % m.height) := by
  rw [computeCoreId, column, row, Mesh.master]
  norm_cast

theorem abs_sub_natCast (a d : ℕ) : |(a : ℤ) - d| = (Nat.dist a d : ℕ) := by
  rw [Int.abs_eq_natAbs, Nat.dist]
  omega

/-- The tests of `getNextDest`. -/
theorem threshold_eq (wrap : Bool) (n a d : ℕ) :
    xor (decide ((a : ℤ) > d)) (wrap && decide (|(a : ℤ) - d| > ((n : ℤ) + 1) / 2)) =
      axisDown wrap n a d := by
  have far : |(a : ℤ) - d| > ((n : ℤ) + 1) / 2 ↔ (n + 1) / 2 < Nat.dist a d := by
    rw [abs_sub_natCast]
    omega
  have round : (wrap && decide (|(a : ℤ) - d| > ((n : ℤ) + 1) / 2)) =
      decide (WrapsRound wrap n a d) := by
    rw [Bool.eq_iff_iff, Bool.and_eq_true, decide_eq_true_iff, decide_eq_true_iff, far, WrapsRound]
  have below : decide ((a : ℤ) > d) = decide (d < a) := decide_eq_decide.mpr Nat.cast_lt
  rw [round, below, axisDown]

theorem axisDown_self (wrap : Bool) (n a : ℕ) : axisDown wrap n a a = false := by
  have here : ¬ WrapsRound wrap n a a := by
    rintro ⟨-, far⟩
    rw [Nat.dist_self] at far
    exact Nat.not_lt_zero _ far
  simp [axisDown, here]

/-- The neighbours of a stop along its row. -/
theorem computeCoreId_column {x y : ℕ} (inColumn : y < m.height) :
    computeCoreId m ((x : ℤ) - 1) y = m.master ((x + m.width - 1) % m.width) y ∧
      computeCoreId m ((x : ℤ) + 1) y = m.master ((x + 1) % m.width) y := by
  have width_pos := m.width_pos
  have row : (y + m.height) % m.height = y := by
    rw [Nat.add_mod_right, Nat.mod_eq_of_lt inColumn]
  have up : (x + 1 + m.width) % m.width = (x + 1) % m.width := Nat.add_mod_right _ _
  constructor
  · rw [computeCoreId_eq (by omega : (x : ℤ) - 1 + m.width = (x + m.width - 1 : ℕ))
      (Nat.cast_add _ _).symm, row]
  · rw [computeCoreId_eq (by omega : (x : ℤ) + 1 + m.width = (x + 1 + m.width : ℕ))
      (Nat.cast_add _ _).symm, row, up]

/-- The neighbours of a stop along its column. -/
theorem computeCoreId_row {x y : ℕ} (inRow : x < m.width) :
    computeCoreId m x ((y : ℤ) - 1) = m.master x ((y + m.height - 1) % m.height) ∧
      computeCoreId m x ((y : ℤ) + 1) = m.master x ((y + 1) % m.height) := by
  have height_pos := m.height_pos
  have column : (x + m.width) % m.width = x := by
    rw [Nat.add_mod_right, Nat.mod_eq_of_lt inRow]
  have up : (y + 1 + m.height) % m.height = (y + 1) % m.height := Nat.add_mod_right _ _
  constructor
  · rw [computeCoreId_eq (Nat.cast_add _ _).symm
      (by omega : (y : ℤ) - 1 + m.height = (y + m.height - 1 : ℕ)), column]
  · rw [computeCoreId_eq (Nat.cast_add _ _).symm
      (by omega : (y : ℤ) + 1 + m.height = (y + 1 + m.height : ℕ)), column, up]

/-- **One hop.** At the master of another stop than the receiver's the packet goes one position on,
along the row first. -/
theorem getNextDest_eq (real : fakeNode m core = false) (inMesh : receiver < m.applicationCores)
    (apart : core / m.concentration ≠ receiver / m.concentration) :
    getNextDest m core receiver = if m.column core ≠ m.column receiver then
        (if axisDown m.wrapAround m.width (m.column core) (m.column receiver) then .left else .right,
          m.master (axisNext m.wrapAround m.width (m.column core) (m.column receiver)) (m.row core))
      else (if axisDown m.wrapAround m.height (m.row core) (m.row receiver) then .down else .up,
          m.master (m.column core)
            (axisNext m.wrapAround m.height (m.row core) (m.row receiver))) := by
  have inMesh' := (fakeNode_eq_false_iff.1 real).2
  have inRow := column_lt m core
  have inColumn := row_lt inMesh'
  obtain ⟨left, right⟩ := computeCoreId_column (x := m.column core) inColumn
  obtain ⟨down, up⟩ := computeCoreId_row (y := m.row core) inRow
  dsimp only [getNextDest, computePosition_eq]
  simp only [if_neg (not_le.mpr inMesh), if_neg apart, real, Bool.false_eq_true,
    if_false, threshold_eq, ne_eq, Nat.cast_inj, left, right, down, up]
  by_cases sameColumn : m.column core = m.column receiver
  · have differ : m.row core ≠ m.row receiver := fun sameRow =>
      apart (sameStop_iff.2 ⟨sameColumn, sameRow⟩)
    rw [sameColumn, axisDown_self]
    by_cases below : axisDown m.wrapAround m.height (m.row core) (m.row receiver) = true
    · simp [below, axisNext]
    · simp [below, differ, axisNext]
  · by_cases below : axisDown m.wrapAround m.width (m.column core) (m.column receiver) = true
    · simp [below, sameColumn, axisNext]
    · simp [below, sameColumn, axisNext]

/-- The links between two stops. -/
def linkHops (m : Mesh) (core receiver : ℕ) : ℕ :=
  axisHops m.wrapAround m.width (m.column core) (m.column receiver) +
    axisHops m.wrapAround m.height (m.row core) (m.row receiver)

theorem linkHops_eq_zero (inMesh : core < m.applicationCores)
    (inMesh' : receiver < m.applicationCores) :
    linkHops m core receiver = 0 ↔ core / m.concentration = receiver / m.concentration := by
  rw [linkHops, Nat.add_eq_zero_iff, axisHops_eq_zero (column_lt m _) (column_lt m _),
    axisHops_eq_zero (row_lt inMesh) (row_lt inMesh'), sameStop_iff]

/-- A hop from the master of another stop passes one link, to a master with one link less to go. -/
theorem getNextDest_link (real : fakeNode m core = false) (inMesh : receiver < m.applicationCores)
    (apart : core / m.concentration ≠ receiver / m.concentration) :
    (getNextDest m core receiver).1.isLink = true ∧
      fakeNode m (getNextDest m core receiver).2 = false ∧
      linkHops m (getNextDest m core receiver).2 receiver + 1 = linkHops m core receiver := by
  have inRow := column_lt m core
  have inColumn := row_lt (fakeNode_eq_false_iff.1 real).2
  have nextLt (n a d : ℕ) (within : a < n) : axisNext m.wrapAround n a d < n := by
    rw [axisNext]
    split_ifs
    all_goals exact Nat.mod_lt _ (Nat.zero_lt_of_lt within)
  rw [getNextDest_eq real inMesh apart]
  by_cases sameColumn : m.column core = m.column receiver
  · have differ : m.row core ≠ m.row receiver := fun sameRow =>
      apart (sameStop_iff.2 ⟨sameColumn, sameRow⟩)
    have next := nextLt m.height (m.row core) (m.row receiver) inColumn
    simp only [ne_eq, sameColumn, not_true_eq_false, if_false]
    refine ⟨by split_ifs <;> rfl, fakeNode_master (column_lt m receiver) next, ?_⟩
    rw [linkHops, linkHops, column_master (column_lt m receiver), row_master (column_lt m receiver),
      sameColumn, add_assoc, axisHops_axisNext inColumn (row_lt inMesh) differ]
  · have next := nextLt m.width (m.column core) (m.column receiver) inRow
    simp only [ne_eq, sameColumn, not_false_eq_true, if_true]
    refine ⟨by split_ifs <;> rfl, fakeNode_master next inColumn, ?_⟩
    rw [linkHops, linkHops, column_master next, row_master next, add_right_comm,
      axisHops_axisNext inRow (column_lt m receiver) sameColumn]

/-- At the receiver's stop the packet goes straight to it. -/
theorem getNextDest_sameStop (same : core / m.concentration = receiver / m.concentration) :
    getNextDest m core receiver = (.destination, receiver) := by
  simp only [getNextDest, same, if_true, ite_self]

/-- A fake node hands the packet to its master. -/
theorem getNextDest_fake (fake : fakeNode m core = true) (inMesh : receiver < m.applicationCores)
    (apart : core / m.concentration ≠ receiver / m.concentration) :
    getNextDest m core receiver = (.peer, core - core % m.concentration) := by
  simp only [getNextDest, if_neg (not_le.mpr inMesh), if_neg apart, fake, if_true]

/-! ## Distances -/

/-- `computeDistance` adds up the lengths of the two axes. -/
theorem computeDistance_eq (inMesh : sender < m.applicationCores)
    (inMesh' : receiver < m.applicationCores) :
    computeDistance m sender receiver =
      (axisDist m.wrapAround m.width (m.column sender) (m.column receiver) +
        axisDist m.wrapAround m.height (m.row sender) (m.row receiver) : ℕ) := by
  have within (n a d : ℕ) (inA : a < n) (inD : d < n) : Nat.dist a d ≤ n := by
    rw [Nat.dist]
    omega
  have columns := within _ _ _ (column_lt m sender) (column_lt m receiver)
  have rows := within _ _ _ (row_lt inMesh) (row_lt inMesh')
  simp only [computeDistance, computePosition_eq, abs_sub_natCast, axisDist, ringDist]
  split_ifs
  · rw [Nat.cast_add, Nat.cast_min, Nat.cast_min, Nat.cast_sub columns, Nat.cast_sub rows]
  · exact (Nat.cast_add _ _).symm

/-- The position of a core's stop. -/
def position (core : ℕ) (inMesh : core < m.applicationCores) : Fin m.width × Fin m.height :=
  (⟨m.column core, column_lt m core⟩, ⟨m.row core, row_lt inMesh⟩)

/-- `computeDistance` is the distance in the mesh or torus. -/
theorem computeDistance_eq_dist (inMesh : sender < m.applicationCores)
    (inMesh' : receiver < m.applicationCores) :
    computeDistance m sender receiver =
      (grid m.wrapAround m.width m.height).dist (position sender inMesh)
        (position receiver inMesh') := by
  rw [computeDistance_eq inMesh inMesh', dist_grid, position, position]

/-- Neither axis takes the packet half way round a ring of odd length. -/
def NotHalfWay (m : Mesh) (sender receiver : ℕ) : Prop :=
  m.wrapAround = true →
    2 * Nat.dist (m.column sender) (m.column receiver) ≠ m.width + 1 ∧
      2 * Nat.dist (m.row sender) (m.row receiver) ≠ m.height + 1

/-- The links of a route are as many as the distance says exactly off half way. -/
theorem linkHops_eq_computeDistance_iff (inMesh : sender < m.applicationCores)
    (inMesh' : receiver < m.applicationCores) :
    (linkHops m sender receiver : ℤ) = computeDistance m sender receiver ↔
      NotHalfWay m sender receiver := by
  have columns := axisDist_le_axisHops m.wrapAround m.width (m.column sender) (m.column receiver)
  have rows := axisDist_le_axisHops m.wrapAround m.height (m.row sender) (m.row receiver)
  rw [computeDistance_eq inMesh inMesh', linkHops, Nat.cast_inj]
  have each : NotHalfWay m sender receiver ↔
      axisHops m.wrapAround m.width (m.column sender) (m.column receiver) =
          axisDist m.wrapAround m.width (m.column sender) (m.column receiver) ∧
        axisHops m.wrapAround m.height (m.row sender) (m.row receiver) =
          axisDist m.wrapAround m.height (m.row sender) (m.row receiver) := by
    rw [axisHops_eq_axisDist_iff (column_lt m sender), axisHops_eq_axisDist_iff (row_lt inMesh),
      NotHalfWay, imp_and]
  rw [each]
  constructor
  · intro same
    exact ⟨by omega, by omega⟩
  · rintro ⟨column, row⟩
    rw [column, row]

/-! ## Following the hops -/

/-- The directions of `getNextDest` from a core until it names the receiver. -/
def follow (m : Mesh) (receiver : ℕ) : ℕ → ℕ → Option (List OutputDirection)
  | 0, _ => none
  | fuel + 1, core =>
    if (getNextDest m core receiver).2 = receiver then some [(getNextDest m core receiver).1]
    else (follow m receiver fuel (getNextDest m core receiver).2).map
      ((getNextDest m core receiver).1 :: ·)

/-- From a master the receiver is reached after one step for each link, and at most one more. -/
theorem follow_of_real (inMesh : receiver < m.applicationCores) :
    ∀ links core, fakeNode m core = false → linkHops m core receiver = links →
      ∃ dirs, follow m receiver (links + 1) core = some dirs ∧
        dirs.countP OutputDirection.isLink = links := by
  intro links
  induction links with
  | zero =>
    intro core real arrived
    have inMesh' := (fakeNode_eq_false_iff.1 real).2
    have same := (linkHops_eq_zero inMesh' inMesh).mp arrived
    refine ⟨[.destination], ?_, rfl⟩
    rw [follow, getNextDest_sameStop same, if_pos rfl]
  | succ links ih =>
    intro core real more
    have inMesh' := (fakeNode_eq_false_iff.1 real).2
    have apart : core / m.concentration ≠ receiver / m.concentration := fun same => by
      have none := (linkHops_eq_zero inMesh' inMesh).mpr same
      omega
    obtain ⟨isLink, real', less⟩ := getNextDest_link real inMesh apart
    rw [follow]
    by_cases arrived : (getNextDest m core receiver).2 = receiver
    · refine ⟨_, if_pos arrived, ?_⟩
      have inMesh'' := (fakeNode_eq_false_iff.1 real').2
      have none := (linkHops_eq_zero inMesh'' inMesh).mpr (by rw [arrived])
      rw [List.countP_singleton, if_pos isLink]
      omega
    · obtain ⟨dirs, followed, count⟩ := ih _ real' (by omega)
      refine ⟨(getNextDest m core receiver).1 :: dirs, ?_, ?_⟩
      · rw [if_neg arrived, followed, Option.map_some]
      · rw [List.countP_cons_of_pos isLink, count]

/-- A fake node and its master are on one stop. -/
theorem div_sub_mod (core c : ℕ) : (core - core % c) / c = core / c := by
  rw [← Nat.div_mul_self_eq_mod_sub_self]
  rcases Nat.eq_zero_or_pos c with rfl | positive
  · simp
  · exact Nat.mul_div_cancel _ positive

/-- **Routes end.** From each application core the receiver is reached, along `linkHops` links. -/
theorem exists_follow (inMesh : sender < m.applicationCores)
    (inMesh' : receiver < m.applicationCores) :
    ∃ fuel dirs, follow m receiver fuel sender = some dirs ∧
      dirs.countP OutputDirection.isLink = linkHops m sender receiver := by
  by_cases same : sender / m.concentration = receiver / m.concentration
  · refine ⟨1, [.destination], ?_, ?_⟩
    · rw [follow, getNextDest_sameStop same, if_pos rfl]
    · rw [(linkHops_eq_zero inMesh inMesh').mpr same]
      rfl
  · cases fake : fakeNode m sender with
    | false =>
      obtain ⟨dirs, followed, count⟩ := follow_of_real inMesh' _ sender fake rfl
      exact ⟨_, dirs, followed, count⟩
    | true =>
      have stop := div_sub_mod sender m.concentration
      have real : fakeNode m (sender - sender % m.concentration) = false := by
        refine fakeNode_eq_false_iff.2 ⟨?_, (Nat.sub_le _ _).trans_lt inMesh⟩
        exact Nat.mod_eq_zero_of_dvd (Nat.dvd_sub_mod sender)
      have links : linkHops m (sender - sender % m.concentration) receiver =
          linkHops m sender receiver := by
        obtain ⟨column, row⟩ := sameStop_iff.1 stop
        rw [linkHops, linkHops, column, row]
      obtain ⟨dirs, followed, count⟩ := follow_of_real inMesh' _ _ real links
      refine ⟨linkHops m sender receiver + 1 + 1, .peer :: dirs, ?_, ?_⟩
      · rw [follow, getNextDest_fake fake inMesh' same, if_neg, followed, Option.map_some]
        intro arrived
        exact same (stop.symm.trans (congrArg (· / m.concentration) arrived))
      · rw [List.countP_cons_of_neg (by decide), count]

/-- More fuel takes the same route. -/
theorem follow_unique {fuel fuel' core : ℕ} {dirs dirs' : List OutputDirection}
    (followed : follow m receiver fuel core = some dirs)
    (followed' : follow m receiver fuel' core = some dirs') : dirs = dirs' := by
  induction fuel generalizing fuel' core dirs dirs' with
  | zero => cases followed
  | succ fuel ih =>
    cases fuel' with
    | zero => cases followed'
    | succ fuel' =>
      rw [follow] at followed followed'
      by_cases arrived : (getNextDest m core receiver).2 = receiver
      · rw [if_pos arrived] at followed followed'
        exact Option.some_inj.mp (followed.symm.trans followed')
      · rw [if_neg arrived, Option.map_eq_some_iff] at followed followed'
        obtain ⟨rest, found, rfl⟩ := followed
        obtain ⟨rest', found', rfl⟩ := followed'
        rw [ih found found']

end Stops

end GpuHotSpot.Common.EmeshHopByHop
