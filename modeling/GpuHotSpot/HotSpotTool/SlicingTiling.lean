import GpuHotSpot.HotSpotTool.SlicingSizes
import GpuHotSpot.HotSpotTool.PolishCaches

/-!
# From Polish expressions to floorplans

The two passes one after the other.  The stack of `tree_from_NPE` holds at most `MAX_STACK`
nodes, so an expression may lead with only so many more units than cuts; every normalized
expression within that limit is realised by a floorplan that tiles its rectangle, and every
other one is refused.

* `treeFromNPE_shallow`, `treeFromNPE_deep`: the stack suffices, or the program stops.
* `realises_of_normalized`: the realisation of normalized expressions.
* `tall_refused`: an expression that is too deep.
-/

namespace GpuHotSpot.HotSpotTool.Slicing

open Polish

variable {K : Type} [Field K] [LinearOrder K]

/-! ## The tree -/

/-- No prefix needs more than `MAX_STACK` nodes on the stack. -/
def Shallow (elements : List ℤ) : Prop :=
  ∀ k ≤ elements.length,
    (elements.take k).countP isUnit ≤ (elements.take k).countP isCut + MAX_STACK

/-- The stack after a prefix of the expression. -/
structure Stacked (shapes : List (List (Point K))) (elements : List ℤ) (stack : List (TreeNode K)) :
    Prop where
  built : ∀ t ∈ stack, t.Built shapes
  height : stack.length + elements.countP isCut = elements.countP isUnit
  units : stack.reverse.flatMap TreeNode.units = (elements.filter isUnit).map Int.toNat

variable {shapes : List (List (Point K))} {elements : List ℤ} {stack : List (TreeNode K)} {e : ℤ}
  {n : ℕ}

/-- A unit is pushed if there is room. -/
theorem Stacked.push_unit (stacked : Stacked shapes elements stack) (unit : isUnit e)
    (known : e.toNat < shapes.length) (room : stack.length < MAX_STACK) :
    ∃ stack', treeStep shapes e stack = .ok stack' ∧ Stacked shapes (elements ++ [e]) stack' := by
  have nonneg : e ≥ 0 := by simpa [isUnit] using unit
  unfold treeStep
  rw [if_pos nonneg, List.getElem?_eq_getElem known]
  refine ⟨_, if_neg (not_le.mpr room), ?_, ?_, ?_⟩
  · intro t member
    rcases List.mem_cons.mp member with rfl | member
    · exact List.getElem?_eq_getElem known
    · exact stacked.built t member
  · have height := stacked.height
    rw [isUnit_eq_not] at unit
    have cut : isCut e = false := by simpa using unit
    simp only [List.countP_append, List.countP_singleton, isUnit_eq_not, cut, Bool.not_false,
      if_true, Bool.false_eq_true, if_false, List.length_cons] at height ⊢
    omega
  · rw [List.reverse_cons, List.flatMap_append, stacked.units, List.filter_append, List.map_append,
      List.filter_cons_of_pos unit]
    rfl

/-- A unit on a full stack stops the program. -/
theorem treeStep_full (unit : isUnit e) (known : e.toNat < shapes.length)
    (full : MAX_STACK ≤ stack.length) : treeStep shapes e stack = .error .stackFull := by
  have nonneg : e ≥ 0 := by simpa [isUnit] using unit
  unfold treeStep
  rw [if_pos nonneg, List.getElem?_eq_getElem known]
  exact if_pos full

/-- A cut takes two nodes and leaves one. -/
theorem Stacked.push_cut (stacked : Stacked shapes elements stack) (cut : isCut e)
    (operands : 2 ≤ stack.length) (room : stack.length ≤ MAX_STACK) :
    ∃ stack', treeStep shapes e stack = .ok stack' ∧ Stacked shapes (elements ++ [e]) stack' := by
  have negative : ¬ e ≥ 0 := not_le.mpr (isCut_iff.1 cut)
  obtain ⟨right, left, rest, rfl⟩ : ∃ right left rest, stack = right :: left :: rest := by
    match stack, operands with
    | right :: left :: rest, _ => exact ⟨right, left, rest, rfl⟩
  rw [List.length_cons, List.length_cons] at room
  unfold treeStep
  rw [if_neg negative]
  refine ⟨_, if_neg (by omega), ?_, ?_, ?_⟩
  · intro t member
    rcases List.mem_cons.mp member with rfl | member
    · exact ⟨rfl, stacked.built left (by simp), stacked.built right (by simp)⟩
    · exact stacked.built t (by simp [member])
  · have height := stacked.height
    simp only [List.countP_append, List.countP_singleton, isUnit_eq_not, cut, Bool.not_true,
      if_true, Bool.false_eq_true, if_false, List.length_cons] at height ⊢
    omega
  · have units := stacked.units
    have noUnit : [e].filter isUnit = [] := by simp [cut]
    rw [List.filter_append, noUnit, List.append_nil, ← units]
    simp [TreeNode.units]

/-- The units of a normalized expression are known. -/
theorem toNat_lt (normalized : Normalized n elements) {i : ℕ}
    (inside : i < elements.length) (unit : isUnit elements[i]) : elements[i].toNat < n := by
  have member : elements[i] ∈ elements.filter isUnit :=
    List.mem_filter.mpr ⟨List.getElem_mem inside, unit⟩
  obtain ⟨u, inRange, same⟩ := List.mem_map.mp (normalized.units.mem_iff.mp member)
  rw [← same]
  simpa using inRange

/-- The stack after every prefix, as long as it does not overflow. -/
theorem treeStep_run (normalized : Normalized n elements) (known : shapes.length = n) (k : ℕ)
    (inside : k ≤ elements.length)
    (shallow : ∀ j ≤ k, (elements.take j).countP isUnit ≤ (elements.take j).countP isCut + MAX_STACK) :
    ∃ stack, runEvents (treeStep shapes) (elements.take k) [] = .ok stack ∧
      Stacked shapes (elements.take k) stack := by
  induction k with
  | zero => exact ⟨[], rfl, by simp, rfl, rfl⟩
  | succ k ih =>
    obtain ⟨stack, run, stacked⟩ := ih (by omega) fun j before => shallow j (by omega)
    have here := shallow (k + 1) le_rfl
    have ballots := normalized.balloting (k + 1) (by omega) inside
    have before := shallow k (by omega)
    have height := stacked.height
    rw [← List.take_append_getElem (by omega)] at here ballots ⊢
    rw [List.countP_append, List.countP_append, List.countP_singleton, List.countP_singleton,
      isUnit_eq_not] at here ballots
    rw [runEvents_concat, run]
    cases kind : isCut elements[k] with
    | false =>
      have unit : isUnit elements[k] := by simp [kind]
      rw [kind] at here
      simp only [Bool.not_false, if_true, Bool.false_eq_true, if_false] at here
      exact stacked.push_unit unit (known ▸ toNat_lt normalized (by omega) unit) (by omega)
    | true =>
      rw [kind] at ballots
      simp only [Bool.not_true, if_true, Bool.false_eq_true, if_false] at ballots
      exact stacked.push_cut kind (by omega) (by omega)

/-- **The tree.** An expression within the limits of the stack becomes a tree over its units. -/
theorem treeFromNPE_shallow (normalized : Normalized n elements) (several : 1 ≤ n)
    (known : shapes.length = n) (shallow : Shallow elements) :
    ∃ tree, treeFromNPE shapes elements = .ok tree ∧ tree.Built shapes ∧
      tree.units.Perm (List.range n) := by
  obtain ⟨stack, run, stacked⟩ := treeStep_run normalized known elements.length le_rfl shallow
  rw [List.take_length] at run stacked
  have height := stacked.height
  rw [normalized.cuts, normalized.countP_isUnit] at height
  obtain ⟨tree, rfl⟩ := List.length_eq_one_iff.mp (show stack.length = 1 by omega)
  refine ⟨tree, by rw [treeFromNPE, run]; rfl, stacked.built tree (by simp), ?_⟩
  have units : tree.units = (elements.filter isUnit).map Int.toNat := by
    simpa using stacked.units
  have perm := normalized.units.map Int.toNat
  rw [units]
  simpa [Function.comp_def] using perm

/-- **The limit.** An expression that needs more than `MAX_STACK` nodes is refused. -/
theorem treeFromNPE_deep (normalized : Normalized n elements) (known : shapes.length = n)
    (deep : ¬ Shallow elements) : treeFromNPE shapes elements = .error .stackFull := by
  have exceeds : ∃ k, k ≤ elements.length ∧
      ¬ (elements.take k).countP isUnit ≤ (elements.take k).countP isCut + MAX_STACK := by
    simpa only [Shallow, not_forall, exists_prop] using deep
  -- the first prefix that is too deep ends with a unit on a full stack
  classical
  have inside := (Nat.find_spec exceeds).1
  have over_limit := (Nat.find_spec exceeds).2
  have first : ∀ j < Nat.find exceeds,
      (elements.take j).countP isUnit ≤ (elements.take j).countP isCut + MAX_STACK := by
    intro j before
    have fine := Nat.find_min exceeds before
    rw [not_and, not_not] at fine
    exact fine (by omega)
  generalize Nat.find exceeds = k at inside over_limit first
  cases k with
  | zero => exact absurd (Nat.zero_le _) over_limit
  | succ k =>
    obtain ⟨stack, run, stacked⟩ := treeStep_run normalized known k (by omega)
      fun j before => first j (by omega)
    have before := first k (Nat.lt_succ_self k)
    have height := stacked.height
    rw [← List.take_append_getElem (by omega), List.countP_append, List.countP_append,
      List.countP_singleton, List.countP_singleton, isUnit_eq_not] at over_limit
    have kind : isCut elements[k] = false := by
      cases kind : isCut elements[k]
      · rfl
      · rw [kind] at over_limit
        simp only [Bool.not_true, if_true, Bool.false_eq_true, if_false] at over_limit
        omega
    rw [kind] at over_limit
    simp only [Bool.not_false, if_true, Bool.false_eq_true, if_false] at over_limit
    have unit : isUnit elements[k] := by simp [kind]
    have full : treeStep shapes elements[k] stack = .error .stackFull :=
      treeStep_full unit (known ▸ toNat_lt normalized (by omega) unit) (by omega)
    have whole : elements = elements.take k ++ elements[k] :: elements.drop (k + 1) := by
      rw [List.getElem_cons_drop, List.take_append_drop]
    have fails : runEvents (treeStep shapes) elements [] = .error .stackFull := by
      rw [whole, runEvents_append, run, Fallible.ok_bind, runEvents, full]
      rfl
    rw [treeFromNPE, fails]
    rfl

/-! ## The floorplan -/

/-- The area of an entry. -/
def Point.area (p : Point K) : K := p.x * p.y

theorem minAreaLoop_spec {whole pre curve : List (Point K)} (split : whole = pre ++ curve)
    {pos : ℕ} {p : Point K} (entry : whole[pos]? = some p) (least : ∀ q ∈ pre, p.area ≤ q.area) :
    ∃ p', whole[minAreaLoop p.area pos pre.length curve]? = some p' ∧
      ∀ q ∈ whole, p'.area ≤ q.area := by
  induction curve generalizing pre pos p with
  | nil =>
    rw [List.append_nil] at split
    exact ⟨p, entry, split ▸ least⟩
  | cons c curve ih =>
    have next : whole = (pre ++ [c]) ++ curve := by rw [split, List.append_assoc]; rfl
    have length : (pre ++ [c]).length = pre.length + 1 := by simp
    have area : c.x * c.y = c.area := rfl
    rw [minAreaLoop, ← length, area]
    split_ifs with smaller
    · refine ih next (by rw [split]; simp) fun q member => ?_
      rcases List.mem_append.mp member with old | new
      · exact smaller.le.trans (least q old)
      · rw [List.mem_singleton.mp new]
    · refine ih next entry fun q member => ?_
      rcases List.mem_append.mp member with old | new
      · exact least q old
      · rw [List.mem_singleton.mp new]
        exact not_lt.mp smaller

/-- `min_area_pos` finds an entry of minimum area. -/
theorem minAreaPos_spec {curve : List (Point K)} (nonempty : curve ≠ []) :
    ∃ p, curve[minAreaPos curve]? = some p ∧ ∀ q ∈ curve, p.area ≤ q.area := by
  obtain ⟨c, curve, rfl⟩ := List.exists_cons_of_ne_nil nonempty
  have split : c :: curve = [c] ++ curve := rfl
  exact minAreaLoop_spec split rfl fun q member => by rw [List.mem_singleton.mp member]

/-- The floorplan realises the tree: its blocks are the units and the dead blocks that were not
compacted, and they tile the rectangle of the entry of minimum area. -/
structure Realises (shapes : List (List (Point K))) (n : ℕ) (tree : TreeNode K)
    (flp : List (Rect K)) (compacted : ℤ) : Prop where
  inRange : 0 ≤ compacted ∧ compacted ≤ n - 1
  blocks : (flp.length : ℤ) = n + (n - 1 - compacted)
  tiles : ∃ root, tree.curve[minAreaPos tree.curve]? = some root ∧
    (∀ p ∈ tree.curve, root.area ≤ p.area) ∧ Tiles (root.at 0 0) flp
  /-- Every unit has one chosen orientation. -/
  chosen : ((tree.chosen (minAreaPos tree.curve)).map Prod.fst).Perm (List.range n)
  orientation : ∀ u p, (u, p) ∈ tree.chosen (minAreaPos tree.curve) →
    ∃ shape, shapes[u]? = some shape ∧ p ∈ shape
  /-- The block of a unit is at least as wide and as tall as the orientation. -/
  fits : ∀ u p, (u, p) ∈ tree.chosen (minAreaPos tree.curve) →
    ∃ b, flp[u]? = some b ∧ p.x ≤ b.width ∧ p.y ≤ b.height

section Blocks

variable {s t : Sizing K} {placed : List (ℕ × Rect K)} {dead : List (Rect K)}

omit [Field K] [LinearOrder K] in
/-- The units in order and then the dead blocks. -/
theorem Writes.perm_take (writes : Writes n s t placed dead) (fresh : s.deadCount = 0)
    (units : (placed.map Prod.fst).Perm (List.range n)) (room : n ≤ t.units.length) :
    (placed.map Prod.snd ++ dead).Perm (t.units.take (n + dead.length)) := by
  have deadPart : (t.units.drop n).take dead.length = dead := by
    refine List.ext_getElem? fun k => ?_
    rcases Nat.lt_or_ge k dead.length with inside | outside
    · have place := writes.dead k inside
      rw [fresh, Nat.add_zero] at place
      rw [List.getElem?_take_of_lt inside, List.getElem?_drop, place]
    · rw [List.getElem?_eq_none (by simp; omega), List.getElem?_eq_none outside]
  have lookups : (placed.map Prod.fst).map (t.units[·]?) = placed.map (some ∘ Prod.snd) := by
    rw [List.map_map]
    exact List.map_congr_left fun b member => writes.placed b member
  have unitPart : (List.range n).map (t.units[·]?) = (t.units.take n).map some := by
    refine List.ext_getElem (by simp; omega) fun k inside inside' => ?_
    rw [List.length_map, List.length_range] at inside
    simp [List.getElem?_eq_getElem (show k < t.units.length by omega)]
  have perm : (placed.map (some ∘ Prod.snd)).Perm ((t.units.take n).map some) := by
    rw [← lookups, ← unitPart]
    exact units.map _
  rw [← List.map_map] at perm
  rw [List.take_add, deadPart]
  exact ((List.map_perm_map_iff (Option.some_injective _)).mp perm).append_right dead

end Blocks

variable [IsStrictOrderedRing K]

/-- A tree over the units is realised. -/
theorem treeToFlp_realises (positive : ∀ shape ∈ shapes, PositiveShape shape) {tree : TreeNode K}
    (built : tree.Built shapes) (units : tree.units.Perm (List.range n)) (several : 1 ≤ n)
    (compactDead : Bool) (ratio : K) {flp : List (Rect K)} (places : flp.length = 2 * n - 1) :
    ∃ flp' compacted, treeToFlp compactDead ratio tree flp = some (flp', compacted) ∧
      Realises shapes n tree flp' compacted := by
  obtain ⟨root, entry, least⟩ := minAreaPos_spec (built.positive positive).1
  have count := tree.length_units
  rw [units.length_eq, List.length_range] at count
  obtain ⟨t, placed, dead, run, writes, lays⟩ := recursiveSizing_lays positive compactDead ratio tree
    built entry entry ⟨le_rfl, le_rfl⟩ 0 0 (s := ⟨flp.length, flp, 0⟩) (n := n)
    (by simp only; omega) (fun u member => List.mem_range.mp (units.mem_iff.mp member))
    (units.nodup_iff.mpr List.nodup_range) (by simp only; omega)
  have few := lays.few
  have nUnits := writes.nUnits
  have deadCount := writes.deadCount
  have length := writes.length
  simp only [Nat.zero_add] at nUnits deadCount length
  have compacted : ((t.nUnits : ℤ) - 1) / 2 - t.deadCount = n - 1 - dead.length := by omega
  have kept : ((t.nUnits : ℤ) - ((n : ℤ) - 1 - dead.length)).toNat = n + dead.length := by omega
  have placedUnits : (placed.map Prod.fst).Perm (List.range n) := lays.units ▸ units
  have perm := writes.perm_take rfl placedUnits (by omega)
  refine ⟨t.units.take (n + dead.length), n - 1 - dead.length, ?_, ⟨by omega, by omega⟩, ?_,
    ⟨root, entry, least, lays.tiles.perm perm⟩, ?_, fun u p => built.mem_chosen, ?_⟩
  · rw [treeToFlp, run, Option.bind_eq_bind, Option.bind_some, compacted]
    simp only [kept]
    rfl
  · rw [List.length_take]
    omega
  · rw [← lays.chosen_units]
    exact placedUnits
  · intro u p chosen
    obtain ⟨b, member, same, wide, high⟩ := lays.exists_placed chosen
    have small : u < n := by
      have unit := List.mem_map_of_mem (f := Prod.fst) member
      rw [same]
      exact List.mem_range.mp (placedUnits.mem_iff.mp unit)
    refine ⟨b.2, ?_, wide, high⟩
    rw [List.getElem?_take_of_lt (by omega), same]
    exact writes.placed b member

/-- **Realisation.** Over units with positive shape curves a normalized expression is realised by a
floorplan that tiles the smallest rectangle of the root, if the stack suffices for it; otherwise
the program stops. -/
theorem realises_of_normalized (positive : ∀ shape ∈ shapes, PositiveShape shape)
    (normalized : Normalized n elements) (several : 1 ≤ n) (known : shapes.length = n)
    (compactDead : Bool) (ratio : K) {flp : List (Rect K)} (places : flp.length = 2 * n - 1) :
    (Shallow elements → ∃ tree flp' compacted, treeFromNPE shapes elements = .ok tree ∧
      treeToFlp compactDead ratio tree flp = some (flp', compacted) ∧
      Realises shapes n tree flp' compacted) ∧
    (¬ Shallow elements → treeFromNPE shapes elements = .error .stackFull) := by
  refine ⟨fun shallow => ?_, treeFromNPE_deep normalized known⟩
  obtain ⟨tree, run, built, units⟩ := treeFromNPE_shallow normalized several known shallow
  obtain ⟨flp', compacted, sized, realises⟩ :=
    treeToFlp_realises positive built units several compactDead ratio places
  exact ⟨tree, flp', compacted, run, sized, realises⟩

/-- Two units of different heights side by side, the dead block above the lower one kept. -/
theorem realises_of_normalized_pair :
    let shapes : List (List (Point ℚ)) := [[⟨1, 2⟩, ⟨2, 1⟩], [⟨1, 1⟩]]
    let flp : List (Rect ℚ) := List.replicate 3 ⟨0, 0, 0, 0⟩
    (Shallow [0, 1, CUT_VERTICAL] → ∃ tree flp' compacted,
      treeFromNPE shapes [0, 1, CUT_VERTICAL] = .ok tree ∧
      treeToFlp true (1 / 200) tree flp = some (flp', compacted) ∧
      Realises shapes 2 tree flp' compacted) ∧
    (¬ Shallow [0, 1, CUT_VERTICAL] →
      treeFromNPE shapes [0, 1, CUT_VERTICAL] = .error .stackFull) :=
  realises_of_normalized
    (by
      intro shape member
      rcases List.mem_pair.mp member with rfl | rfl
      · exact ⟨by simp, by simp⟩
      · exact ⟨by simp, by simp⟩)
    (normalized_initialElements 1) (by decide) rfl true (1 / 200) rfl

/-! ## Deep expressions -/

/-- The cuts of alternating type. -/
def alternatingCuts (m : ℕ) : List ℤ :=
  (List.range m).map fun i => if i % 2 = 0 then CUT_VERTICAL else CUT_HORIZONTAL

/-- All units first and then all cuts. -/
def tall (m : ℕ) : List ℤ := (List.range m).map Int.ofNat ++ alternatingCuts (m - 1)

theorem isUnit_of_mem_range {m : ℕ} {e : ℤ} (member : e ∈ (List.range m).map Int.ofNat) :
    isUnit e = true := by
  obtain ⟨u, -, rfl⟩ := List.mem_map.mp member
  simp [isUnit]

theorem isCut_of_mem_alternatingCuts {m : ℕ} {e : ℤ} (member : e ∈ alternatingCuts m) :
    isCut e = true := by
  obtain ⟨i, -, rfl⟩ := List.mem_map.mp member
  split_ifs <;> rfl

theorem countP_eq_zero_of_not {p q : ℤ → Bool} (other : ∀ e, q e = !p e) {l : List ℤ}
    (all : ∀ e ∈ l, p e = true) : l.countP q = 0 :=
  List.countP_eq_zero.mpr fun e member => by rw [other, all e member]; decide

theorem alternating_alternatingCuts (m : ℕ) : (alternatingCuts m).IsChain NotRepeated := by
  refine List.isChain_iff_getElem.mpr fun i inside negative => ?_
  simp only [alternatingCuts, List.getElem_map, List.getElem_range]
  rcases Nat.mod_two_eq_zero_or_one i with even | odd
  · rw [if_pos even, if_neg (by omega)]
    decide
  · rw [if_neg (by omega), if_pos (by omega)]
    decide

theorem normalized_tall {m : ℕ} (several : 1 ≤ m) : Normalized m (tall m) := by
  have noCut : ∀ l : List ℤ, (∀ e ∈ l, isUnit e = true) → l.countP isCut = 0 := fun l all =>
    countP_eq_zero_of_not (fun e => by simp) all
  have noUnit : ∀ l : List ℤ, (∀ e ∈ l, isCut e = true) → l.countP isUnit = 0 := fun l all =>
    countP_eq_zero_of_not isUnit_eq_not all
  have units : ∀ e ∈ (List.range m).map Int.ofNat, isUnit e = true := fun e => isUnit_of_mem_range
  have cuts : ∀ e ∈ alternatingCuts (m - 1), isCut e = true :=
    fun e => isCut_of_mem_alternatingCuts
  refine ⟨?_, ?_, ?_, ?_, ?_⟩
  · rw [tall, List.filter_append, List.filter_eq_self.mpr units,
      List.filter_eq_nil_iff.mpr fun e member => by simp [cuts e member], List.append_nil]
  · rw [tall, List.countP_append, noCut _ units, List.countP_eq_length.mpr cuts]
    simp [alternatingCuts]
  · intro e member negative
    rcases List.mem_append.mp member with unit | cut
    · exact absurd (isCut_iff.2 negative) (by simpa using units e unit)
    · obtain ⟨i, -, rfl⟩ := List.mem_map.mp cut
      split_ifs
      · exact Or.inl rfl
      · exact Or.inr rfl
  · intro k positive inside
    have front : ∀ e ∈ ((List.range m).map Int.ofNat).take k, isUnit e = true :=
      fun e member => units e (List.mem_of_mem_take member)
    have back : ∀ e ∈ (alternatingCuts (m - 1)).take (k - m), isCut e = true :=
      fun e member => cuts e (List.mem_of_mem_take member)
    have split : (tall m).take k =
        ((List.range m).map Int.ofNat).take k ++ (alternatingCuts (m - 1)).take (k - m) := by
      rw [tall, List.take_append]
      simp
    rw [split, List.countP_append, List.countP_append, noCut _ front, noUnit _ back,
      List.countP_eq_length.mpr front, List.countP_eq_length.mpr back]
    simp only [List.length_take, List.length_map, List.length_range, alternatingCuts]
    omega
  · refine List.isChain_append.mpr ⟨?_, alternating_alternatingCuts _, ?_⟩
    · refine List.isChain_iff_getElem.mpr fun i inside negative => ?_
      simp at negative
      omega
    · intro x last y _ negative
      have unit := units x (List.mem_of_getLast? last)
      exact absurd (isCut_iff.2 negative) (by simpa using unit)

/-- **Too deep.** The expression of 129 unit squares, all units first, is normalized, and the
program refuses it. -/
theorem tall_refused :
    let shapes : List (List (Point ℚ)) := List.replicate 129 [⟨1, 1⟩]
    Normalized 129 (tall 129) ∧ shapes.length = 129 ∧
      (∀ shape ∈ shapes, PositiveShape shape ∧ shape.IsChain fun p q => p.x ≤ q.x ∧ q.y ≤ p.y) ∧
      treeFromNPE shapes (tall 129) = .error .stackFull := by
  intro shapes
  have known : shapes.length = 129 := List.length_replicate
  have normalized := normalized_tall (show 1 ≤ 129 by decide)
  refine ⟨normalized, known, ?_, treeFromNPE_deep normalized known fun shallow => ?_⟩
  · intro shape member
    obtain rfl := List.eq_of_mem_replicate member
    exact ⟨⟨by simp, by simp⟩, .singleton _⟩
  · have deep := shallow 129 (by rw [normalized.length (by decide)]; decide)
    have front : (tall 129).take 129 = (List.range 129).map Int.ofNat := by
      rw [tall, List.take_append_of_le_length (by simp), List.take_of_length_le (by simp)]
    rw [front, List.countP_eq_length.mpr fun e => isUnit_of_mem_range,
      countP_eq_zero_of_not (fun e => by simp) fun e => isUnit_of_mem_range] at deep
    simp [MAX_STACK] at deep

end GpuHotSpot.HotSpotTool.Slicing
