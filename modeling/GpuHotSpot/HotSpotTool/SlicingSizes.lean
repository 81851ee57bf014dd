import GpuHotSpot.HotSpotTool.SlicingCuts
import Mathlib.Algebra.Order.Group.Multiset

/-!
# Sizing a slicing tree

The top-down pass over a whole tree.  Below a node the blocks of its units and the dead
blocks that are left tile the rectangle of the node, whatever was compacted above it.

* `recursiveSizing_lays`: the blocks of a subtree tile its rectangle.
-/

namespace GpuHotSpot.HotSpotTool.Slicing

open Polish

variable {K : Type}

/-! ## Trees -/

namespace TreeNode

/-- The units of the leaves from left to right. -/
def units : TreeNode K → List ℕ
  | leaf _ unit => [unit]
  | cut _ _ left right => left.units ++ right.units

/-- The number of cuts. -/
def cuts : TreeNode K → ℕ
  | leaf _ _ => 0
  | cut _ _ left right => left.cuts + right.cuts + 1

/-- The orientation of every unit that belongs to an entry of the curve of the root. -/
def chosen : TreeNode K → ℕ → List (ℕ × Point K)
  | leaf curve unit, pos => (curve[pos]?.map fun p => (unit, p)).toList
  | cut sums _ left right, pos =>
    match sums[pos]? with
    | none => []
    | some (_, origin) => left.chosen origin.leftPos ++ right.chosen origin.rightPos

variable [Field K] [LinearOrder K]

/-- The curves are those of the units, summed up from the leaves to the root. -/
def Built (shapes : List (List (Point K))) : TreeNode K → Prop
  | leaf curve unit => shapes[unit]? = some curve
  | cut sums cutType left right =>
    sums = shapeAdd left.curve right.curve cutType ∧ left.Built shapes ∧ right.Built shapes

end TreeNode

theorem TreeNode.length_units (tree : TreeNode K) : tree.units.length = tree.cuts + 1 := by
  induction tree with
  | leaf => rfl
  | cut sums cutType left right ihLeft ihRight =>
    rw [units, cuts, List.length_append, ihLeft, ihRight]
    omega

section Built

variable [Field K] [LinearOrder K] {shapes : List (List (Point K))} {tree : TreeNode K}

/-- A shape curve that is not empty and has positive entries. -/
def PositiveShape (shape : List (Point K)) : Prop :=
  shape ≠ [] ∧ ∀ p ∈ shape, 0 < p.x ∧ 0 < p.y

/-- The chosen orientations are entries of the curves of the units. -/
theorem TreeNode.Built.mem_chosen (built : tree.Built shapes) {pos u : ℕ} {p : Point K}
    (chosen : (u, p) ∈ tree.chosen pos) : ∃ shape, shapes[u]? = some shape ∧ p ∈ shape := by
  induction tree generalizing pos with
  | leaf curve unit =>
    rw [TreeNode.chosen, Option.mem_toList, Option.map_eq_some_iff] at chosen
    obtain ⟨q, entry, same⟩ := chosen
    obtain ⟨rfl, rfl⟩ := Prod.mk.inj same
    exact ⟨curve, built, List.mem_of_getElem? entry⟩
  | cut sums cutType left right ihLeft ihRight =>
    rw [TreeNode.chosen] at chosen
    split at chosen
    · cases chosen
    · rcases List.mem_append.mp chosen with inLeft | inRight
      · exact ihLeft built.2.1 inLeft
      · exact ihRight built.2.2 inRight

end Built

/-! ## Writes -/

/-- Between `s` and `s'` the units in `placed` get their blocks and the blocks of `dead` are
added, and no other unit and no earlier dead block changes. -/
structure Writes (n : ℕ) (s s' : Sizing K) (placed : List (ℕ × Rect K)) (dead : List (Rect K)) :
    Prop where
  nUnits : s'.nUnits = s.nUnits
  length : s'.units.length = s.units.length
  deadCount : s'.deadCount = s.deadCount + dead.length
  frame : ∀ i < n + s.deadCount, i ∉ placed.map Prod.fst → s'.units[i]? = s.units[i]?
  placed : ∀ b ∈ placed, s'.units[b.1]? = some b.2
  dead : ∀ k < dead.length, s'.units[n + s.deadCount + k]? = dead[k]?

section Writes

variable {n : ℕ} {s t u : Sizing K} {placed placed' : List (ℕ × Rect K)} {dead dead' : List (Rect K)}

/-- Two parts of the pass, about different units. -/
theorem Writes.append (first : Writes n s t placed dead) (second : Writes n t u placed' dead')
    (apart : ∀ i ∈ placed.map Prod.fst, i ∉ placed'.map Prod.fst)
    (small : ∀ i ∈ placed.map Prod.fst, i < n) (small' : ∀ i ∈ placed'.map Prod.fst, i < n) :
    Writes n s u (placed ++ placed') (dead ++ dead') where
  nUnits := second.nUnits.trans first.nUnits
  length := second.length.trans first.length
  deadCount := by rw [second.deadCount, first.deadCount, List.length_append, add_assoc]
  frame i before other := by
    rw [List.map_append, List.mem_append, not_or] at other
    have within : i < n + t.deadCount := by
      rw [first.deadCount]
      omega
    exact (second.frame i within other.2).trans (first.frame i before other.1)
  placed b member := by
    rcases List.mem_append.mp member with early | late
    · have unit := List.mem_map_of_mem (f := Prod.fst) early
      rw [second.frame b.1 (Nat.lt_add_right _ (small b.1 unit)) (apart b.1 unit)]
      exact first.placed b early
    · exact second.placed b late
  dead k inside := by
    rw [List.length_append] at inside
    rcases Nat.lt_or_ge k dead.length with early | late
    · have other : n + s.deadCount + k ∉ placed'.map Prod.fst := fun member => by
        have := small' _ member
        omega
      rw [second.frame _ (by rw [first.deadCount]; omega) other, List.getElem?_append_left early]
      exact first.dead k early
    · obtain ⟨j, rfl⟩ := Nat.exists_eq_add_of_le late
      have place := second.dead j (by omega)
      rw [first.deadCount] at place
      rw [List.getElem?_append_right late, Nat.add_sub_cancel_left, ← place]
      congr 1
      omega

/-- The block of a unit. -/
theorem write_writes {unit : ℕ} {r : Rect K} (small : unit < s.units.length) :
    ∃ t, s.write unit r = some t ∧ Writes n s t [(unit, r)] [] := by
  rw [Sizing.write, if_pos small]
  refine ⟨_, rfl, rfl, List.length_set, rfl, ?_, ?_, by simp⟩
  · intro i _ other
    have different : unit ≠ i := by
      rintro rfl
      simp at other
    exact List.getElem?_set_ne different
  · intro b member
    obtain rfl := List.mem_singleton.mp member
    exact List.getElem?_set_self small

/-- The dead block of a cut. -/
theorem addDead_writes (c : Cut K) (half : (s.nUnits + 1) / 2 = n)
    (room : n + s.deadCount < s.units.length) :
    ∃ t, s.addDead c = some t ∧ Writes n s t [] c.deadBlocks := by
  rw [Sizing.addDead, Sizing.write, half, if_pos room]
  refine ⟨_, rfl, ?_⟩
  have untouched : ∀ i < n + s.deadCount,
      (s.units.set (n + s.deadCount) c.dead)[i]? = s.units[i]? := fun i before => by
    rw [List.getElem?_set_ne before.ne']
  cases compacted : c.compacted with
  | true =>
    refine ⟨rfl, List.length_set, ?_, fun i before _ => untouched i before, by simp, ?_⟩
    · simp [Cut.deadBlocks, compacted]
    · simp [Cut.deadBlocks, compacted]
  | false =>
    refine ⟨rfl, List.length_set, ?_, fun i before _ => untouched i before, by simp, ?_⟩
    · simp [Cut.deadBlocks, compacted]
    · intro k inside
      obtain rfl : k = 0 := by simpa [Cut.deadBlocks, compacted] using inside
      rw [Cut.deadBlocks, compacted]
      exact List.getElem?_set_self room

end Writes

/-! ## The pass -/

variable [Field K] [LinearOrder K] [IsStrictOrderedRing K] {shapes : List (List (Point K))}
  {tree : TreeNode K}

/-- The entries of a built tree are positive. -/
theorem TreeNode.Built.positive (built : tree.Built shapes)
    (positive : ∀ shape ∈ shapes, PositiveShape shape) : PositiveShape tree.curve := by
  induction tree with
  | leaf curve unit => exact positive curve (List.mem_of_getElem? built)
  | cut sums cutType left right ihLeft ihRight =>
    obtain ⟨rfl, builtLeft, builtRight⟩ := built
    obtain ⟨someLeft, left_pos⟩ := ihLeft builtLeft
    obtain ⟨someRight, right_pos⟩ := ihRight builtRight
    refine ⟨?_, fun p member => ?_⟩
    · rw [TreeNode.curve, Ne, List.map_eq_nil_iff]
      exact shapeAdd_ne_nil someLeft someRight
    · obtain ⟨⟨q, origin⟩, entry, rfl⟩ := List.mem_map.mp member
      obtain ⟨a, b, sum⟩ := mem_shapeAdd entry
      have aPos := left_pos a (List.mem_of_getElem? sum.left)
      have bPos := right_pos b (List.mem_of_getElem? sum.right)
      by_cases vertical : cutType = CUT_VERTICAL
      · obtain ⟨rfl, -⟩ := sum.vertical vertical
        exact ⟨add_pos aPos.1 bPos.1, lt_max_of_lt_left aPos.2⟩
      · obtain ⟨rfl, -⟩ := sum.horizontal vertical
        exact ⟨lt_max_of_lt_left aPos.1, add_pos aPos.2 bPos.2⟩

/-- The sizing of one cut, in either direction. -/
theorem IsSum.splits {cutType : ℤ} {shape1 shape2 : List (Point K)} {p a b self : Point K}
    {o : Origin K} (sum : IsSum cutType shape1 shape2 p o a b) (aPos : 0 < a.x ∧ 0 < a.y)
    (bPos : 0 < b.x ∧ 0 < b.y) (grown : p.x ≤ self.x ∧ p.y ≤ self.y) (compactDead : Bool)
    (ratio leftx bottomy : K) :
    (if cutType = CUT_VERTICAL then cutVertical compactDead ratio leftx bottomy o.median self a b
    else cutHorizontal compactDead ratio leftx bottomy o.median self a b).Splits
      leftx bottomy self a b := by
  have left := And.imp le_of_lt le_of_lt aPos
  have right := And.imp le_of_lt le_of_lt bPos
  split_ifs with vertical
  · obtain ⟨rfl, median⟩ := sum.vertical vertical
    rw [median]
    exact cutVertical_splits compactDead ratio left right grown.1 grown.2
  · obtain ⟨rfl, median⟩ := sum.horizontal vertical
    rw [median]
    exact cutHorizontal_splits compactDead ratio left right grown.2 grown.1

/-- What the pass over a subtree achieves in its rectangle. -/
structure Lays (tree : TreeNode K) (pos : ℕ) (r : Rect K) (placed : List (ℕ × Rect K))
    (dead : List (Rect K)) : Prop where
  units : placed.map Prod.fst = tree.units
  few : dead.length ≤ tree.cuts
  /-- No unit is smaller than its chosen orientation. -/
  fits : List.Forall₂ (fun c b => c.1 = b.1 ∧ c.2.x ≤ b.2.width ∧ c.2.y ≤ b.2.height)
    (tree.chosen pos) placed
  tiles : Tiles r (placed.map Prod.snd ++ dead)

omit [IsStrictOrderedRing K] in
theorem Lays.chosen_units {pos : ℕ} {r : Rect K} {placed : List (ℕ × Rect K)}
    {dead : List (Rect K)} (lays : Lays tree pos r placed dead) :
    placed.map Prod.fst = (tree.chosen pos).map Prod.fst := by
  have fits := lays.fits
  clear lays
  generalize tree.chosen pos = chosen at fits
  induction fits with
  | nil => rfl
  | cons same _ ih => rw [List.map_cons, List.map_cons, ih, same.1]

omit [IsStrictOrderedRing K] in
theorem Lays.exists_placed {pos u : ℕ} {p : Point K} {r : Rect K} {placed : List (ℕ × Rect K)}
    {dead : List (Rect K)} (lays : Lays tree pos r placed dead) (chosen : (u, p) ∈ tree.chosen pos) :
    ∃ b ∈ placed, u = b.1 ∧ p.x ≤ b.2.width ∧ p.y ≤ b.2.height := by
  have fits := lays.fits
  clear lays
  generalize tree.chosen pos = entries at fits chosen
  induction fits with
  | nil => cases chosen
  | @cons entry b entries placed same _ ih =>
    rcases List.mem_cons.mp chosen with rfl | later
    · exact ⟨b, List.mem_cons_self, same⟩
    · obtain ⟨b', member, same⟩ := ih later
      exact ⟨b', List.mem_cons_of_mem _ member, same⟩

/-- **Sizing.** The blocks of a subtree tile the rectangle of its root, wherever it is placed and
however much its parent enlarged the entry. -/
theorem recursiveSizing_lays (positive : ∀ shape ∈ shapes, PositiveShape shape)
    (compactDead : Bool) (ratio : K) {n : ℕ} (tree : TreeNode K) (built : tree.Built shapes)
    {curve : List (Point K)} {pos : ℕ} {p self : Point K} (entry : tree.curve[pos]? = some p)
    (edited : curve[pos]? = some self) (grown : p.x ≤ self.x ∧ p.y ≤ self.y)
    (leftx bottomy : K) {s : Sizing K} (half : (s.nUnits + 1) / 2 = n)
    (small : ∀ u ∈ tree.units, u < n) (distinct : tree.units.Nodup)
    (room : n + s.deadCount + tree.cuts ≤ s.units.length) :
    ∃ t placed dead, recursiveSizing compactDead ratio tree curve pos leftx bottomy s = some t ∧
        Writes n s t placed dead ∧ Lays tree pos (self.at leftx bottomy) placed dead := by
  induction tree generalizing curve pos p self leftx bottomy s with
  | leaf shape unit =>
    have inside : unit < s.units.length := by
      have := small unit (List.mem_singleton_self unit)
      omega
    have here : shape[pos]? = some p := entry
    have pPos := (positive shape (List.mem_of_getElem? built)).2 p (List.mem_of_getElem? here)
    obtain ⟨t, run, writes⟩ := write_writes (n := n) (s := s)
      (r := self.at leftx bottomy) inside
    refine ⟨t, _, _, ?_, writes, rfl, Nat.zero_le _, ?_, ?_⟩
    · rw [recursiveSizing, edited]
      exact run
    · rw [TreeNode.chosen, here]
      exact .cons ⟨rfl, grown⟩ .nil
    · exact tiles_self (pPos.1.le.trans grown.1) (pPos.2.le.trans grown.2)
  | cut sums cutType left right ihLeft ihRight =>
    obtain ⟨rfl, builtLeft, builtRight⟩ := built
    rw [TreeNode.curve, List.getElem?_map, Option.map_eq_some_iff] at entry
    obtain ⟨⟨q, origin⟩, place, rfl⟩ := entry
    obtain ⟨a, b, sum⟩ := mem_shapeAdd (List.mem_of_getElem? place)
    have aPos := (builtLeft.positive positive).2 a (List.mem_of_getElem? sum.left)
    have bPos := (builtRight.positive positive).2 b (List.mem_of_getElem? sum.right)
    have splits := sum.splits aPos bPos grown compactDead ratio leftx bottomy
    rw [TreeNode.units, List.nodup_append] at distinct
    rw [TreeNode.cuts] at room
    simp only [TreeNode.units, List.mem_append] at small
    simp only [recursiveSizing, edited, place, sum.left, sum.right, Option.bind_eq_bind,
      Option.bind_some]
    generalize (if cutType = CUT_VERTICAL then
        cutVertical compactDead ratio leftx bottomy origin.median self a b
      else cutHorizontal compactDead ratio leftx bottomy origin.median self a b) = c at splits ⊢
    have atMostOne : c.deadBlocks.length ≤ 1 := by
      rw [Cut.deadBlocks]
      split_ifs <;> simp
    have editedLeft : (left.curve.set origin.leftPos c.left)[origin.leftPos]? = some c.left :=
      List.getElem?_set_self (List.getElem?_eq_some_iff.mp sum.left).1
    have editedRight : (right.curve.set origin.rightPos c.right)[origin.rightPos]? =
        some c.right :=
      List.getElem?_set_self (List.getElem?_eq_some_iff.mp sum.right).1
    obtain ⟨s1, added, writes1⟩ := addDead_writes c half (by omega)
    have count1 := writes1.deadCount
    have length1 := writes1.length
    obtain ⟨s2, placed2, dead2, run2, writes2, lays2⟩ := ihLeft builtLeft sum.left editedLeft
      splits.leftGrows leftx bottomy (s := s1) (by rw [writes1.nUnits, half])
      (fun u member => small u (Or.inl member)) distinct.1 (by omega)
    have count2 := writes2.deadCount
    have length2 := writes2.length
    have few2 := lays2.few
    obtain ⟨s3, placed3, dead3, run3, writes3, lays3⟩ := ihRight builtRight sum.right editedRight
      splits.rightGrows c.rightLeftx c.rightBottomy (s := s2)
      (by rw [writes2.nUnits, writes1.nUnits, half])
      (fun u member => small u (Or.inr member)) distinct.2.1 (by omega)
    have few3 := lays3.few
    refine ⟨s3, placed2 ++ placed3, c.deadBlocks ++ dead2 ++ dead3, ?_, ?_, ?_⟩
    · rw [added, Option.bind_some, run2, Option.bind_some, run3]
    · refine (writes1.append writes2 ?_ ?_ ?_).append writes3 ?_ ?_ ?_
      · simp
      · simp
      · rw [lays2.units]
        exact fun u member => small u (Or.inl member)
      · rw [List.nil_append, lays2.units, lays3.units]
        exact fun u member other => distinct.2.2 u member u other rfl
      · rw [List.nil_append, lays2.units]
        exact fun u member => small u (Or.inl member)
      · rw [lays3.units]
        exact fun u member => small u (Or.inr member)
    · refine ⟨?_, ?_, ?_, ?_⟩
      · rw [List.map_append, lays2.units, lays3.units, TreeNode.units]
      · rw [List.length_append, List.length_append, TreeNode.cuts]
        omega
      · rw [TreeNode.chosen, place]
        exact List.rel_append lays2.fits lays3.fits
      · -- the parts of the two children in place of their rectangles
        have halfway := splits.tiles.refine lays2.tiles
        have tiles := (halfway.perm List.perm_middle).refine lays3.tiles
        refine tiles.perm (Multiset.coe_eq_coe.mp ?_)
        simp only [List.map_append, ← Multiset.coe_add]
        abel

end GpuHotSpot.HotSpotTool.Slicing
