import GpuHotSpot.HotSpotTool.SlicingTiling

/-!
# The addition of shape curves

The loop of `shape_add` walks a staircase through the pairs of entries. Leaving a pair out loses
nothing: the entry that the loop does not move away from is bounded by the other curve alone, so
the sum it has just stored is as small as the ones that are left out.

* `addLoop_ordered`, `addLoop_length`, `addLoop_covers`: one walk, for any addition of entries.
* `shapeAdd_exact`: the curve that is returned, for either cut.
-/

namespace GpuHotSpot.HotSpotTool.Slicing

open Polish

variable {K : Type}

/-! ## One walk -/

section Walk

variable {first : Point K → Point K → Bool}
  {entry : ℕ → ℕ → Point K → Point K → Point K × Origin K}
  {Before Covers : Point K → Point K → Prop} {shape1 shape2 : List (Point K)}

theorem addLoop_length (i j : ℕ) :
    (addLoop first entry i j shape1 shape2).length ≤ shape1.length + shape2.length - 1 := by
  induction i, j, shape1, shape2 using addLoop.induct with
  | case1 i j a shape1 b shape2 ihLeft ihRight =>
    rw [addLoop, List.length_cons]
    split_ifs <;> simp only [List.length_cons] at * <;> omega
  | case2 => simp [addLoop]
  | case3 => simp [addLoop]

/-- The entries of a walk are in the order of the curves. -/
theorem addLoop_ordered (sum : Point K → Point K → Point K) (sums : ∀ i j a b, (entry i j a b).1 = sum a b)
    (refl : ∀ p, Before p p)
    (mono : ∀ a a' b b', Before a a' → Before b b' → Before (sum a b) (sum a' b'))
    (ordered1 : shape1.Pairwise Before) (ordered2 : shape2.Pairwise Before) (i j : ℕ) :
    ((addLoop first entry i j shape1 shape2).map Prod.fst).Pairwise Before := by
  induction i, j, shape1, shape2 using addLoop.induct with
  | case1 i j a shape1 b shape2 ihLeft ihRight =>
    obtain ⟨after1, rest1⟩ := List.pairwise_cons.mp ordered1
    obtain ⟨after2, rest2⟩ := List.pairwise_cons.mp ordered2
    -- what comes later is a sum of entries that are not before these two
    have later {shape1' shape2' : List (Point K)} {i' j' : ℕ}
        (sub1 : ∀ p ∈ shape1', p ∈ a :: shape1) (sub2 : ∀ p ∈ shape2', p ∈ b :: shape2) :
        ∀ p ∈ (addLoop first entry i' j' shape1' shape2').map Prod.fst,
          Before (entry i j a b).1 p := by
      intro p member
      obtain ⟨e, inside, rfl⟩ := List.mem_map.mp member
      obtain ⟨k, l, a', b', left, right, rfl⟩ := mem_addLoop inside
      rw [sums, sums]
      refine mono _ _ _ _ ?_ ?_
      · rcases List.mem_cons.mp (sub1 a' (List.mem_of_getElem? left)) with rfl | behind
        · exact refl _
        · exact after1 a' behind
      · rcases List.mem_cons.mp (sub2 b' (List.mem_of_getElem? right)) with rfl | behind
        · exact refl _
        · exact after2 b' behind
    rw [addLoop, List.map_cons, List.pairwise_cons]
    split_ifs
    · exact ⟨later (fun _ => List.mem_cons_of_mem _) fun _ => id, ihLeft rest1 ordered2⟩
    · exact ⟨later (fun _ => id) fun _ => List.mem_cons_of_mem _, ihRight ordered1 rest2⟩
  | case2 => simp [addLoop]
  | case3 => simp [addLoop]

/-- **No pair is lost**: the sum of two entries is covered by an entry of the walk. -/
theorem addLoop_covers (sum : Point K → Point K → Point K) (sums : ∀ i j a b, (entry i j a b).1 = sum a b)
    (refl : ∀ p, Covers p p)
    (left : ∀ a b b', first a b = true → Before b b' → Covers (sum a b) (sum a b'))
    (right : ∀ a b a', first a b = false → Before a a' → Covers (sum a b) (sum a' b))
    (ordered1 : shape1.Pairwise Before) (ordered2 : shape2.Pairwise Before) (i j : ℕ) :
    ∀ a ∈ shape1, ∀ b ∈ shape2, ∃ e ∈ addLoop first entry i j shape1 shape2,
      Covers e.1 (sum a b) := by
  induction i, j, shape1, shape2 using addLoop.induct with
  | case1 i j a shape1 b shape2 ihLeft ihRight =>
    obtain ⟨after1, rest1⟩ := List.pairwise_cons.mp ordered1
    obtain ⟨after2, rest2⟩ := List.pairwise_cons.mp ordered2
    intro a' inLeft b' inRight
    rw [addLoop]
    -- the entry stored now, or one of the rest
    have now (covers : Covers (sum a b) (sum a' b')) (rest : List (Point K × Origin K)) :
        ∃ e ∈ entry i j a b :: rest, Covers e.1 (sum a' b') :=
      ⟨_, List.mem_cons_self, (sums i j a b).symm ▸ covers⟩
    have then_ {rest : List (Point K × Origin K)} :
        (∃ e ∈ rest, Covers e.1 (sum a' b')) →
          ∃ e ∈ entry i j a b :: rest, Covers e.1 (sum a' b') := by
      rintro ⟨e, inside, covers⟩
      exact ⟨e, List.mem_cons_of_mem _ inside, covers⟩
    split_ifs with moved
    · rcases List.mem_cons.mp inLeft with rfl | behind
      · rcases List.mem_cons.mp inRight with rfl | behind'
        · exact now (refl _) _
        · exact now (left _ _ _ moved (after2 b' behind')) _
      · exact then_ (ihLeft rest1 ordered2 a' behind b' inRight)
    · rcases List.mem_cons.mp inRight with rfl | behind
      · rcases List.mem_cons.mp inLeft with rfl | behind'
        · exact now (refl _) _
        · exact now (right _ _ _ (by simpa using moved) (after1 a' behind')) _
      · exact then_ (ihRight ordered1 rest2 a' inLeft b' behind)
  | case2 => simp
  | case3 => simp

end Walk

/-! ## Either cut -/

variable [Field K] [LinearOrder K] {shape1 shape2 : List (Point K)}

/-- The widths do not decrease and the heights do not increase. -/
def IsCurve (shape : List (Point K)) : Prop :=
  shape.Pairwise fun p q => p.x ≤ q.x ∧ q.y ≤ p.y

/-- Two entries side by side, or one on top of the other. -/
def combination (cutType : ℤ) (a b : Point K) : Point K :=
  if cutType = CUT_VERTICAL then ⟨a.x + b.x, max a.y b.y⟩ else ⟨max a.x b.x, a.y + b.y⟩

/-- The entry is no wider and no taller. -/
def Point.Covers (p q : Point K) : Prop := p.x ≤ q.x ∧ p.y ≤ q.y

/-- What `shape_add` returns. -/
structure ExactSum (cutType : ℤ) (shape1 shape2 : List (Point K))
    (sum : List (Point K × Origin K)) : Prop where
  ordered : IsCurve (sum.map Prod.fst)
  entries : ∀ p o, (p, o) ∈ sum → ∃ a b, IsSum cutType shape1 shape2 p o a b
  length : sum.length ≤ shape1.length + shape2.length - 1
  covers : ∀ a ∈ shape1, ∀ b ∈ shape2, ∃ e ∈ sum, e.1.Covers (combination cutType a b)

theorem IsSum.eq_combination {cutType : ℤ} {p a b : Point K} {o : Origin K}
    (sum : IsSum cutType shape1 shape2 p o a b) : p = combination cutType a b := by
  rw [combination]
  split_ifs with vertical
  · exact (sum.vertical vertical).1
  · exact (sum.horizontal vertical).1

omit [Field K] in
theorem isCurve_reverse {shape : List (Point K)} :
    shape.reverse.Pairwise (fun p q => q.x ≤ p.x ∧ p.y ≤ q.y) ↔ IsCurve shape :=
  List.pairwise_reverse

variable [IsStrictOrderedRing K]

theorem shapeAdd_exact (cutType : ℤ) (ordered1 : IsCurve shape1) (ordered2 : IsCurve shape2) :
    ExactSum cutType shape1 shape2 (shapeAdd shape1 shape2 cutType) := by
  have entries (p : Point K) (o : Origin K) :
      (p, o) ∈ shapeAdd shape1 shape2 cutType → ∃ a b, IsSum cutType shape1 shape2 p o a b :=
    mem_shapeAdd
  by_cases vertical : cutType = CUT_VERTICAL
  · have pair (a b : Point K) : combination cutType a b = ⟨a.x + b.x, max a.y b.y⟩ :=
      if_pos vertical
    rw [shapeAdd, if_pos vertical] at entries ⊢
    refine ⟨?_, entries, addLoop_length 0 0, ?_⟩
    · refine addLoop_ordered (combination cutType) (fun _ _ a b => (pair a b).symm)
        (fun p => ⟨le_rfl, le_rfl⟩) (fun a a' b b' left right => ?_) ordered1 ordered2 0 0
      rw [pair, pair]
      exact ⟨add_le_add left.1 right.1, max_le_max left.2 right.2⟩
    · refine addLoop_covers (combination cutType) (fun _ _ a b => (pair a b).symm)
        (fun p => ⟨le_rfl, le_rfl⟩) (fun a b b' higher right => ?_) (fun a b a' lower left => ?_)
        ordered1 ordered2 0 0
      · rw [pair, pair]
        refine ⟨add_le_add le_rfl right.1, ?_⟩
        exact (max_eq_left (of_decide_eq_true higher)).trans_le (le_max_left _ _)
      · rw [pair, pair]
        refine ⟨add_le_add left.1 le_rfl, ?_⟩
        exact (max_eq_right (not_le.mp (of_decide_eq_false lower)).le).trans_le (le_max_right _ _)
  · have pair (a b : Point K) : combination cutType a b = ⟨max a.x b.x, a.y + b.y⟩ :=
      if_neg vertical
    have reversed1 := isCurve_reverse.2 ordered1
    have reversed2 := isCurve_reverse.2 ordered2
    rw [shapeAdd, if_neg vertical] at entries ⊢
    refine ⟨?_, entries, ?_, ?_⟩
    · rw [List.map_reverse, ← isCurve_reverse, List.reverse_reverse]
      refine addLoop_ordered (combination cutType) (fun _ _ a b => (pair a b).symm)
        (fun p => ⟨le_rfl, le_rfl⟩) (fun a a' b b' left right => ?_) reversed1 reversed2 0 0
      rw [pair, pair]
      exact ⟨max_le_max left.1 right.1, add_le_add left.2 right.2⟩
    · rw [List.length_reverse]
      exact (addLoop_length 0 0).trans_eq (by rw [List.length_reverse, List.length_reverse])
    · intro a inLeft b inRight
      simp only [List.mem_reverse]
      refine addLoop_covers (combination cutType) (fun _ _ a b => (pair a b).symm)
        (fun p => ⟨le_rfl, le_rfl⟩) (fun a b b' wider right => ?_) (fun a b a' narrower left => ?_)
        reversed1 reversed2 0 0 a (List.mem_reverse.mpr inLeft) b (List.mem_reverse.mpr inRight)
      · rw [pair, pair]
        refine ⟨?_, add_le_add le_rfl right.2⟩
        exact (max_eq_left (of_decide_eq_true wider)).trans_le (le_max_left _ _)
      · rw [pair, pair]
        refine ⟨?_, add_le_add left.2 le_rfl⟩
        exact (max_eq_right (not_le.mp (of_decide_eq_false narrower)).le).trans_le (le_max_right _ _)

/-- An entry that covers another has the smaller area. -/
theorem Point.Covers.area_le {p q : Point K} (covers : p.Covers q) (tall : 0 ≤ p.y)
    (wide : 0 ≤ q.x) : p.area ≤ q.area :=
  mul_le_mul covers.1 covers.2 tall wide

/-- The combination of two entries has a size. -/
theorem combination_nonneg {cutType : ℤ} {a b : Point K} (left : 0 ≤ a.x ∧ 0 ≤ a.y)
    (right : 0 ≤ b.x ∧ 0 ≤ b.y) :
    0 ≤ (combination cutType a b).x ∧ 0 ≤ (combination cutType a b).y := by
  rw [combination]
  split_ifs
  · exact ⟨add_nonneg left.1 right.1, le_max_of_le_left left.2⟩
  · exact ⟨le_max_of_le_left left.1, add_nonneg left.2 right.2⟩

/-- **The addition of shape curves is exact**: the curve that is returned is ordered, its entries are
combinations of the entries they name, it has fewer entries than both curves together, and it covers
every pair; the entry that `min_area_pos` finds is then the smallest combination. -/
theorem shapeAdd_least (cutType : ℤ) (some1 : shape1 ≠ []) (some2 : shape2 ≠ [])
    (ordered1 : IsCurve shape1) (ordered2 : IsCurve shape2) :
    ExactSum cutType shape1 shape2 (shapeAdd shape1 shape2 cutType) ∧
      ((∀ p ∈ shape1 ++ shape2, 0 ≤ p.x ∧ 0 ≤ p.y) →
        let curve := (shapeAdd shape1 shape2 cutType).map Prod.fst
        ∃ p, curve[minAreaPos curve]? = some p ∧
          (∃ a ∈ shape1, ∃ b ∈ shape2, p = combination cutType a b) ∧
          ∀ a ∈ shape1, ∀ b ∈ shape2, p.area ≤ (combination cutType a b).area) := by
  have exact_ := shapeAdd_exact cutType ordered1 ordered2
  refine ⟨exact_, fun sizes => ?_⟩
  have size1 {a : Point K} (inLeft : a ∈ shape1) := sizes a (List.mem_append_left _ inLeft)
  have size2 {b : Point K} (inRight : b ∈ shape2) := sizes b (List.mem_append_right _ inRight)
  -- an entry of the sum, as a combination
  have origin {e : Point K × Origin K} (inside : e ∈ shapeAdd shape1 shape2 cutType) :
      ∃ a ∈ shape1, ∃ b ∈ shape2, e.1 = combination cutType a b := by
    obtain ⟨a, b, sum⟩ := exact_.entries e.1 e.2 inside
    exact ⟨a, List.mem_of_getElem? sum.left, b, List.mem_of_getElem? sum.right,
      sum.eq_combination⟩
  have some : (shapeAdd shape1 shape2 cutType).map Prod.fst ≠ [] :=
    List.map_eq_nil_iff.not.mpr (shapeAdd_ne_nil some1 some2)
  obtain ⟨p, entry, least⟩ := minAreaPos_spec some
  refine ⟨p, entry, ?_, fun a inLeft b inRight => ?_⟩
  · obtain ⟨e, inside, rfl⟩ := List.mem_map.mp (List.mem_of_getElem? entry)
    exact origin inside
  · obtain ⟨e, inside, covers⟩ := exact_.covers a inLeft b inRight
    refine (least e.1 (List.mem_map_of_mem inside)).trans (covers.area_le ?_ ?_)
    · obtain ⟨a', inLeft', b', inRight', same⟩ := origin inside
      rw [same]
      exact (combination_nonneg (size1 inLeft') (size2 inRight')).2
    · exact (combination_nonneg (size1 inLeft) (size2 inRight)).1

/-- Two blocks with two orientations each, one on top of the other. -/
theorem shapeAdd_least_two :
    let shape1 : List (Point ℚ) := [⟨1, 3⟩, ⟨2, 1⟩]
    let shape2 : List (Point ℚ) := [⟨1, 2⟩, ⟨3, 1⟩]
    let curve := (shapeAdd shape1 shape2 CUT_HORIZONTAL).map Prod.fst
    ExactSum CUT_HORIZONTAL shape1 shape2 (shapeAdd shape1 shape2 CUT_HORIZONTAL) ∧
      ∃ p, curve[minAreaPos curve]? = some p ∧
        (∃ a ∈ shape1, ∃ b ∈ shape2, p = combination CUT_HORIZONTAL a b) ∧
        ∀ a ∈ shape1, ∀ b ∈ shape2, p.area ≤ (combination CUT_HORIZONTAL a b).area := by
  intro shape1 shape2 curve
  have least := shapeAdd_least CUT_HORIZONTAL (show shape1 ≠ [] by simp [shape1])
    (show shape2 ≠ [] by simp [shape2]) (by norm_num [shape1, IsCurve])
    (by norm_num [shape2, IsCurve])
  exact ⟨least.1, least.2 (by norm_num [shape1, shape2])⟩

end GpuHotSpot.HotSpotTool.Slicing
