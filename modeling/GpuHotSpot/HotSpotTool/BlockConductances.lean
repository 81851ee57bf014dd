import GpuHotSpot.HotSpotTool.BlockModel
import Mathlib.Algebra.Order.BigOperators.Group.List
import Mathlib.Tactic.IntervalCases
import Mathlib.Tactic.Positivity

/-!
# The conductances of the block model

When all materials conduct and the die is smaller than the spreader and the spreader smaller
than the sink, the matrix of the block model is that of a resistor network in which every
node is linked to ambient.

* `grounded_b`: the network.
* `linked_b`: its links to ambient.
-/

namespace GpuHotSpot.HotSpotTool.Block

open LinearSolver Fallible

variable {K : Type} [Field K] [LinearOrder K]

/-- The configuration passes the checks of the program, its materials conduct, the units have
areas, and the die fits strictly into the spreader and the spreader into the sink. -/
structure Sound (config : ThermalConfig K) (flp : List (Rect K)) : Prop where
  accepted : config.Accepted
  kChip : 0 < config.kChip
  kInterface : 0 < config.kInterface
  kSpreader : 0 < config.kSpreader
  kSink : 0 < config.kSink
  some_unit : flp ≠ []
  areas : ∀ u ∈ flp, 0 < u.width ∧ 0 < u.height
  width : getTotalWidth flp < config.sSpreader
  height : getTotalHeight flp < config.sSpreader
  spreader : config.sSpreader < config.sSink

variable [IsStrictOrderedRing K] {config : ThermalConfig K} {flp : List (Rect K)} {k t a : K}
  {u : Rect K}

/-! ## Sizes -/

omit [Field K] [IsStrictOrderedRing K] in
theorem le_foldl_max (f : Rect K → K) (l : List (Rect K)) (m : K) :
    m ≤ l.foldl (fun m u => if f u > m then f u else m) m := by
  induction l generalizing m with
  | nil => exact le_rfl
  | cons u l ih =>
    rw [List.foldl_cons]
    refine le_trans ?_ (ih _)
    split_ifs with larger
    · exact larger.le
    · exact le_rfl

omit [Field K] [IsStrictOrderedRing K] in
theorem foldl_min_le (f : Rect K → K) (l : List (Rect K)) (m : K) :
    l.foldl (fun m u => if f u < m then f u else m) m ≤ m := by
  induction l generalizing m with
  | nil => exact le_rfl
  | cons u l ih =>
    rw [List.foldl_cons]
    refine (ih _).trans ?_
    split_ifs with smaller
    · exact smaller.le
    · exact le_rfl

omit [LinearOrder K] [IsStrictOrderedRing K] in
theorem unit_mem {i : ℕ} (inside : i < flp.length) : unit flp i ∈ flp := by
  rw [unit, List.getD_eq_getElem?_getD, List.getElem?_eq_getElem inside, Option.getD_some]
  exact List.getElem_mem inside

namespace Sound

variable (sound : Sound config flp)

include sound

omit [IsStrictOrderedRing K] in
theorem length_pos : 0 < flp.length := List.length_pos_iff.mpr sound.some_unit

theorem totalWidth_pos : 0 < getTotalWidth flp := by
  have first := (sound.areas _ (unit_mem sound.length_pos)).1
  have right := le_foldl_max (fun u => u.leftx + u.width) flp.tail
    ((unit flp 0).leftx + (unit flp 0).width)
  have left := foldl_min_le Rect.leftx flp.tail (unit flp 0).leftx
  rw [getTotalWidth]
  linarith

theorem totalHeight_pos : 0 < getTotalHeight flp := by
  have first := (sound.areas _ (unit_mem sound.length_pos)).2
  have top := le_foldl_max (fun u => u.bottomy + u.height) flp.tail
    ((unit flp 0).bottomy + (unit flp 0).height)
  have bottom := foldl_min_le Rect.bottomy flp.tail (unit flp 0).bottomy
  rw [getTotalHeight]
  linarith

omit [IsStrictOrderedRing K] in
theorem dimensions : 0 < config.tChip ∧ 0 < config.tSink ∧ 0 < config.tSpreader ∧
    0 < config.tInterface ∧ 0 < config.sSink ∧ 0 < config.sSpreader ∧ 0 ≤ config.rConvec := by
  have accepted := sound.accepted
  simp only [ThermalConfig.Accepted, not_or, not_le, not_lt] at accepted
  tauto

end Sound

/-! ## Resistances -/

theorem getr_pos (conducts : 0 < k) (thick : 0 < t) (area : 0 < a) : 0 < getr k t a :=
  div_pos thick (mul_pos conducts area)

theorem lumpedX_pos (conducts : 0 < k) (thick : 0 < t) (size : 0 < u.width ∧ 0 < u.height) :
    0 < lumpedX k t u :=
  one_div_pos.mpr (getr_pos conducts (half_pos size.1) (mul_pos size.2 thick))

theorem lumpedY_pos (conducts : 0 < k) (thick : 0 < t) (size : 0 < u.width ∧ 0 < u.height) :
    0 < lumpedY k t u :=
  one_div_pos.mpr (getr_pos conducts (half_pos size.2) (mul_pos size.1 thick))

/-- The resistances of the package are positive, those to ambient may be zero. -/
structure PackagePos (pk : PackageR K) : Prop where
  rSp1X : 0 < pk.rSp1X
  rSp1Y : 0 < pk.rSp1Y
  rHs1X : 0 < pk.rHs1X
  rHs1Y : 0 < pk.rHs1Y
  rHs2X : 0 < pk.rHs2X
  rHs2Y : 0 < pk.rHs2Y
  rHs : 0 < pk.rHs
  rSpPerX : 0 < pk.rSpPerX
  rSpPerY : 0 < pk.rSpPerY
  rHsCPerX : 0 < pk.rHsCPerX
  rHsCPerY : 0 < pk.rHsCPerY
  rHsPer : 0 < pk.rHsPer
  rAmbCPerX : 0 ≤ pk.rAmbCPerX
  rAmbCPerY : 0 ≤ pk.rAmbCPerY
  rAmbPer : 0 ≤ pk.rAmbPer

namespace Sound

variable (sound : Sound config flp)

include sound

/-- The areas of the package around the die are positive. -/
theorem packageDivisors_pos :
    ∀ d ∈ packageDivisors config (getTotalWidth flp) (getTotalHeight flp), 0 < d := by
  obtain ⟨-, tSink, tSpreader, -, sSink, sSpreader, -⟩ := sound.dimensions
  have w := sound.totalWidth_pos
  have h := sound.totalHeight_pos
  have kSink := sound.kSink
  have kSpreader := sound.kSpreader
  have aroundX := sub_pos.mpr sound.width
  have aroundY := sub_pos.mpr sound.height
  have frame : 0 < config.sSink * config.sSink - config.sSpreader * config.sSpreader :=
    sub_pos.mpr (mul_self_lt_mul_self sSpreader.le sound.spreader)
  simp only [packageDivisors, List.forall_mem_cons, List.not_mem_nil, false_imp_iff, implies_true,
    and_true]
  refine ⟨?_, ?_, ?_, ?_, ?_, ?_, ?_, ?_, ?_, ?_, ?_, ?_, ?_, ?_, ?_⟩ <;> positivity

theorem package_pos : PackagePos (pack config flp) := by
  obtain ⟨-, tSink, tSpreader, -, sSink, sSpreader, rConvec⟩ := sound.dimensions
  have divisors := sound.packageDivisors_pos
  have aroundX := sub_pos.mpr sound.width
  have aroundY := sub_pos.mpr sound.height
  have frame := sub_pos.mpr sound.spreader
  simp only [packageDivisors, List.forall_mem_cons] at divisors
  obtain ⟨d1, d2, d3, d4, d5, d6, d7, d8, d9, d10, d11, d12, d13, d14, d15, -⟩ := divisors
  constructor <;> simp only [pack, populatePackageR, getr]
  · exact div_pos (by positivity) d1
  · exact div_pos (by positivity) d2
  · exact div_pos (by positivity) d3
  · exact div_pos (by positivity) d4
  · exact div_pos (by positivity) d5
  · exact div_pos (by positivity) d6
  · exact div_pos (by positivity) d7
  · exact div_pos tSpreader d8
  · exact div_pos tSpreader d9
  · exact div_pos tSink d10
  · exact div_pos tSink d11
  · exact div_pos tSink d12
  · exact div_nonneg (by positivity) d13.le
  · exact div_nonneg (by positivity) d14.le
  · exact div_nonneg (by positivity) d15.le

end Sound

/-! ## Conductances -/

theorem borderSum_nonneg (atBorder : Rect K → Prop) [DecidablePred atBorder] {g : Rect K → K}
    (nonneg : ∀ u ∈ flp, 0 ≤ g u) : 0 ≤ borderSum flp atBorder g := by
  refine List.sum_nonneg fun x member => ?_
  obtain ⟨u, inFlp, rfl⟩ := List.mem_map.mp member
  split_ifs
  · exact nonneg u inFlp
  · exact le_rfl

/-- What the link of a unit to a package node is divided by. -/
theorem borderLink_divisor_pos (atBorder : Rect K → Prop) [DecidablePred atBorder]
    {g : Rect K → K} {r : K} (positive : ∀ u ∈ flp, 0 < g u) (resists : 0 < r) (member : u ∈ flp) :
    0 < 1 / g u + r * borderSum flp atBorder g / g u := by
  have here := positive u member
  have sum := borderSum_nonneg atBorder fun u member => (positive u member).le
  positivity

theorem borderLink_nonneg (atBorder : Rect K → Prop) [DecidablePred atBorder]
    {g : Rect K → K} {r : K} (positive : ∀ u ∈ flp, 0 < g u) (resists : 0 < r) (member : u ∈ flp) :
    0 ≤ borderLink flp atBorder g r u := by
  refine div_nonneg (mul_nonneg zero_le_two ?_)
    (borderLink_divisor_pos atBorder positive resists member).le
  split_ifs
  · exact zero_le_one
  · exact le_rfl

/-- Intervals that meet overlap in an interval of nonnegative length. -/
theorem Meets.overlap {a b c d : K} (meets : Meets a b c d) (first : a ≤ b) (second : c ≤ d) :
    0 ≤ min b d - max a c := by
  rw [sub_nonneg, max_le_iff, le_min_iff, le_min_iff]
  rcases meets with inside | inside | inside | inside
  · exact ⟨⟨first, inside.1.trans second⟩, inside.2, second⟩
  · exact ⟨⟨first, inside.1⟩, second.trans inside.2, second⟩
  · exact ⟨⟨first, inside.2⟩, inside.1.trans first, second⟩
  · exact ⟨⟨first, first.trans inside.2⟩, inside.1, second⟩

theorem getSharedLen_nonneg {i j : ℕ} (left : 0 ≤ (unit flp i).width ∧ 0 ≤ (unit flp i).height)
    (right : 0 ≤ (unit flp j).width ∧ 0 ≤ (unit flp j).height) : 0 ≤ getSharedLen flp i j := by
  simp only [getSharedLen]
  split_ifs with same vertical horizontal
  · exact le_rfl
  · exact vertical.2.2.2.overlap (le_add_of_nonneg_right left.1) (le_add_of_nonneg_right right.1)
  · exact horizontal.2.2.2.overlap (le_add_of_nonneg_right left.2)
      (le_add_of_nonneg_right right.2)
  · exact le_rfl

omit [IsStrictOrderedRing K] in
/-- Also the places beyond the floorplan have no negative sizes. -/
theorem Sound.unit_nonneg (sound : Sound config flp) (i : ℕ) :
    0 ≤ (unit flp i).width ∧ 0 ≤ (unit flp i).height := by
  rcases Nat.lt_or_ge i flp.length with inside | outside
  · exact And.imp le_of_lt le_of_lt (sound.areas _ (unit_mem inside))
  · rw [unit, List.getD_eq_getElem?_getD, List.getElem?_eq_none outside]
    exact ⟨le_rfl, le_rfl⟩

namespace Sound

variable (sound : Sound config flp)

include sound

theorem len_nonneg (i j : ℕ) : 0 ≤ len flp i j :=
  getSharedLen_nonneg (sound.unit_nonneg _) (sound.unit_nonneg _)

theorem part_nonneg {gx gy : Rect K → K} (x : ∀ u ∈ flp, 0 ≤ gx u) (y : ∀ u ∈ flp, 0 ≤ gy u)
    {i : ℕ} (inside : i < flp.length) (j : ℕ) : 0 ≤ part flp gx gy i j := by
  have member := unit_mem inside
  have size := sound.areas _ member
  rw [part]
  split_ifs
  · exact div_nonneg (x _ member) size.2.le
  · exact div_nonneg (y _ member) size.1.le
  · exact le_rfl

theorem gx_nonneg : ∀ u ∈ flp, 0 ≤ gx config u := by
  intro u member
  rw [gx]
  split_ifs
  · exact le_rfl
  · exact (lumpedX_pos sound.kChip sound.dimensions.1 (sound.areas u member)).le

theorem gy_nonneg : ∀ u ∈ flp, 0 ≤ gy config u := by
  intro u member
  rw [gy]
  split_ifs
  · exact le_rfl
  · exact (lumpedY_pos sound.kChip sound.dimensions.1 (sound.areas u member)).le

theorem interface_pos : ∀ u ∈ flp, 0 < gxInt config u ∧ 0 < gyInt config u := fun u member =>
  ⟨lumpedX_pos sound.kInterface sound.dimensions.2.2.2.1 (sound.areas u member),
    lumpedY_pos sound.kInterface sound.dimensions.2.2.2.1 (sound.areas u member)⟩

theorem spreader_pos : ∀ u ∈ flp, 0 < gxSp config u ∧ 0 < gySp config u := fun u member =>
  ⟨lumpedX_pos sound.kSpreader sound.dimensions.2.2.1 (sound.areas u member),
    lumpedY_pos sound.kSpreader sound.dimensions.2.2.1 (sound.areas u member)⟩

theorem sink_pos : ∀ u ∈ flp, 0 < gxHs config u ∧ 0 < gyHs config u := fun u member =>
  ⟨lumpedX_pos sound.kSink sound.dimensions.2.1 (sound.areas u member),
    lumpedY_pos sound.kSink sound.dimensions.2.1 (sound.areas u member)⟩

end Sound

/-- The two places are the same unit in neighbouring layers, or the same side of the spreader and
of the inner part of the sink. -/
def Stacked (n p q : ℕ) : Prop :=
  ((p + n = q ∨ q + n = p) ∧ p < NL * n ∧ q < NL * n) ∨
    ((p + 4 = q ∨ q + 4 = p) ∧ NL * n ≤ p ∧ NL * n ≤ q ∧ p < NL * n + 8 ∧ q < NL * n + 8)

/-- A write is not negative, and between stacked places it is positive and reaches a bound. -/
def Write.Conducts (n : ℕ) (least : K) (w : Write K) : Prop :=
  0 ≤ w.value ∧ (Stacked n w.row w.col → 0 < w.value ∧ least ≤ w.value)

/-- What is assigned between stacked places reaches a bound. -/
structure Reaches (config : ThermalConfig K) (flp : List (Rect K)) (least : K) : Prop where
  chip : ∀ u ∈ flp, least ≤ 2 / getr config.kChip config.tChip (u.height * u.width)
  interface : ∀ u ∈ flp, least ≤ 2 / getr config.kInterface config.tInterface (u.height * u.width)
  spreader : ∀ u ∈ flp, least ≤ 2 / getr config.kSpreader config.tSpreader (u.height * u.width)
  sideX : least ≤ 2 / (pack config flp).rSpPerX
  sideY : least ≤ 2 / (pack config flp).rSpPerY

/-- Everything that is assigned reaches zero. -/
theorem Sound.reaches_zero (sound : Sound config flp) : Reaches config flp 0 := by
  obtain ⟨tChip, -, tSpreader, tInterface, -⟩ := sound.dimensions
  have area : ∀ u ∈ flp, 0 < u.height * u.width := fun u member =>
    mul_pos (sound.areas u member).2 (sound.areas u member).1
  have pk := sound.package_pos
  exact ⟨fun u member => (div_pos two_pos (getr_pos sound.kChip tChip (area u member))).le,
    fun u member => (div_pos two_pos (getr_pos sound.kInterface tInterface (area u member))).le,
    fun u member => (div_pos two_pos (getr_pos sound.kSpreader tSpreader (area u member))).le,
    (div_pos two_pos pk.rSpPerX).le, (div_pos two_pos pk.rSpPerY).le⟩

section Writes

variable {n i j : ℕ} {least : K}

omit [IsStrictOrderedRing K] in
theorem conducts_both {p q : ℕ} {v : K} (nonneg : 0 ≤ v)
    (positive : Stacked n p q → 0 < v ∧ least ≤ v) : ∀ w ∈ both p q v, w.Conducts n least := by
  have symm : Stacked n q p → Stacked n p q := by
    unfold Stacked
    tauto
  intro w member
  rcases List.mem_pair.mp member with rfl | rfl
  · exact ⟨nonneg, positive⟩
  · exact ⟨nonneg, fun stacked => positive (symm stacked)⟩

omit [IsStrictOrderedRing K] in
theorem conducts_both_pos {p q : ℕ} {v : K} (positive : 0 < v) (reaches : least ≤ v) :
    ∀ w ∈ both p q v, w.Conducts n least :=
  conducts_both positive.le fun _ => ⟨positive, reaches⟩

variable (sound : Sound config flp)

include sound

theorem lateralWrites_conduct (row : i < flp.length) (col : j < flp.length) :
    ∀ w ∈ lateralWrites config flp flp.length i j, w.Conducts flp.length least := by
  have apart : ∀ layer < NL, ¬ Stacked flp.length (layer * flp.length + i) (layer * flp.length + j) := by
    intro layer inside
    unfold Stacked NL at *
    interval_cases layer <;> omega
  have value : ∀ {gx gy : Rect K → K}, (∀ u ∈ flp, 0 ≤ gx u) → (∀ u ∈ flp, 0 ≤ gy u) →
      0 ≤ part flp gx gy i j * len flp i j := fun x y =>
    mul_nonneg (sound.part_nonneg x y row j) (sound.len_nonneg i j)
  have silicon := apart 0 (by decide)
  rw [Nat.zero_mul, Nat.zero_add, Nat.zero_add] at silicon
  simp only [lateralWrites, List.forall_mem_cons, List.not_mem_nil, false_imp_iff, implies_true,
    and_true]
  refine ⟨⟨value sound.gx_nonneg sound.gy_nonneg, fun stacked => absurd stacked silicon⟩,
    ⟨value ?_ ?_, fun stacked => absurd stacked (apart IFACE (by decide))⟩,
    ⟨value ?_ ?_, fun stacked => absurd stacked (apart HSP (by decide))⟩,
    ⟨value ?_ ?_, fun stacked => absurd stacked (apart HSINK (by decide))⟩⟩
  · exact fun u member => (sound.interface_pos u member).1.le
  · exact fun u member => (sound.interface_pos u member).2.le
  · exact fun u member => (sound.spreader_pos u member).1.le
  · exact fun u member => (sound.spreader_pos u member).2.le
  · exact fun u member => (sound.sink_pos u member).1.le
  · exact fun u member => (sound.sink_pos u member).2.le

theorem verticalWrites_conduct (reaches : Reaches config flp least) (row : i < flp.length) :
    ∀ w ∈ verticalWrites config flp n i, w.Conducts flp.length least := by
  have member := unit_mem row
  have size := sound.areas _ member
  have area := mul_pos size.2 size.1
  obtain ⟨tChip, -, tSpreader, tInterface, -⟩ := sound.dimensions
  simp only [verticalWrites, List.forall_mem_append]
  refine ⟨⟨?_, ?_⟩, ?_⟩
  · exact conducts_both_pos (div_pos two_pos (getr_pos sound.kChip tChip area))
      (reaches.chip _ member)
  · exact conducts_both_pos (div_pos two_pos (getr_pos sound.kInterface tInterface area))
      (reaches.interface _ member)
  · exact conducts_both_pos (div_pos two_pos (getr_pos sound.kSpreader tSpreader area))
      (reaches.spreader _ member)

theorem peripheralWrites_conduct (row : i < flp.length) :
    ∀ w ∈ peripheralWrites config flp (pack config flp) flp.length i, w.Conducts flp.length least := by
  have member := unit_mem row
  have pk := sound.package_pos
  have apart : ∀ layer < NL, ∀ place,
      ¬ Stacked flp.length (layer * flp.length + i) (NL * flp.length + place) := by
    intro layer inside place
    unfold Stacked NL at *
    interval_cases layer <;> omega
  have conducts : ∀ layer < NL, ∀ place (atBorder : Rect K → Prop) [DecidablePred atBorder]
      (g : Rect K → K) (r : K), (∀ u ∈ flp, 0 < g u) → 0 < r →
      ∀ w ∈ both (layer * flp.length + i) (NL * flp.length + place)
        (borderLink flp atBorder g r (unit flp i)), w.Conducts flp.length least :=
    fun layer inside place atBorder _ g r positive resists =>
      conducts_both (borderLink_nonneg atBorder positive resists member)
        fun stacked => absurd stacked (apart layer inside place)
  have hsp : HSP < NL := by decide
  have hsink : HSINK < NL := by decide
  simp only [peripheralWrites, List.forall_mem_append]
  refine ⟨⟨⟨⟨⟨⟨⟨?_, ?_⟩, ?_⟩, ?_⟩, ?_⟩, ?_⟩, ?_⟩, ?_⟩
  · exact conducts _ hsp _ _ _ _ (fun u m => (sound.spreader_pos u m).2) pk.rSp1Y
  · exact conducts _ hsp _ _ _ _ (fun u m => (sound.spreader_pos u m).2) pk.rSp1Y
  · exact conducts _ hsp _ _ _ _ (fun u m => (sound.spreader_pos u m).1) pk.rSp1X
  · exact conducts _ hsp _ _ _ _ (fun u m => (sound.spreader_pos u m).1) pk.rSp1X
  · exact conducts _ hsink _ _ _ _ (fun u m => (sound.sink_pos u m).2) pk.rHs1Y
  · exact conducts _ hsink _ _ _ _ (fun u m => (sound.sink_pos u m).2) pk.rHs1Y
  · exact conducts _ hsink _ _ _ _ (fun u m => (sound.sink_pos u m).1) pk.rHs1X
  · exact conducts _ hsink _ _ _ _ (fun u m => (sound.sink_pos u m).1) pk.rHs1X

theorem packageWrites_conduct (reaches : Reaches config flp least) :
    ∀ w ∈ packageWrites (pack config flp) flp.length, w.Conducts flp.length least := by
  have pk := sound.package_pos
  have ring : ∀ p q (v : K), 0 < v → NL * flp.length + 8 ≤ q →
      ∀ w ∈ both p q v, w.Conducts flp.length least := fun p q v positive outer =>
    conducts_both positive.le fun stacked => by
      unfold Stacked at stacked
      omega
  simp only [packageWrites, List.forall_mem_append]
  refine ⟨⟨⟨⟨⟨⟨⟨?_, ?_⟩, ?_⟩, ?_⟩, ?_⟩, ?_⟩, ?_⟩, ?_⟩
  · exact conducts_both_pos (div_pos two_pos pk.rSpPerY) reaches.sideY
  · exact conducts_both_pos (div_pos two_pos pk.rSpPerY) reaches.sideY
  · exact conducts_both_pos (div_pos two_pos pk.rSpPerX) reaches.sideX
  · exact conducts_both_pos (div_pos two_pos pk.rSpPerX) reaches.sideX
  · exact ring _ _ _ (div_pos two_pos (add_pos pk.rHs pk.rHs2Y)) (Nat.add_le_add_left (by decide) _)
  · exact ring _ _ _ (div_pos two_pos (add_pos pk.rHs pk.rHs2Y)) (Nat.add_le_add_left (by decide) _)
  · exact ring _ _ _ (div_pos two_pos (add_pos pk.rHs pk.rHs2X)) (Nat.add_le_add_left (by decide) _)
  · exact ring _ _ _ (div_pos two_pos (add_pos pk.rHs pk.rHs2X)) (Nat.add_le_add_left (by decide) _)

/-- All assignments to the matrix `g`. -/
theorem gWrites_conduct (reaches : Reaches config flp least) :
    ∀ w ∈ gWrites config flp, w.Conducts flp.length least := by
  simp only [gWrites, List.forall_mem_append, List.forall_mem_flatMap, List.mem_range]
  refine ⟨fun i row => ⟨⟨fun j col => ?_, ?_⟩, ?_⟩, ?_⟩
  · exact lateralWrites_conduct sound row col
  · exact verticalWrites_conduct sound reaches row
  · exact peripheralWrites_conduct sound row
  · exact packageWrites_conduct sound reaches

theorem g_nonneg (p q : ℕ) : 0 ≤ g config flp p q :=
  scatter_of_forall _ _ (fun w member _ => (gWrites_conduct sound sound.reaches_zero w member).1)
    (Or.inr le_rfl)

/-- An assigned place between stacked nodes conducts. -/
theorem g_pos (reaches : Reaches config flp least) {p q : ℕ} (stacked : Stacked flp.length p q)
    (assigned : ∃ w ∈ gWrites config flp, w.row = p ∧ w.col = q) :
    0 < g config flp p q ∧ least ≤ g config flp p q := by
  refine scatter_of_forall (P := fun v => 0 < v ∧ least ≤ v) _ _ (fun w member place => ?_) (Or.inl ?_)
  · obtain ⟨rfl, rfl⟩ := Prod.mk.inj place
    exact (gWrites_conduct sound reaches w member).2 stacked
  · obtain ⟨w, member, rfl, rfl⟩ := assigned
    exact List.mem_map_of_mem member

end Writes

/-! ## The network -/

omit [IsStrictOrderedRing K] in
theorem bSym_symm (i j : ℕ) : bSym config flp i j = bSym config flp j i := by
  rcases lt_trichotomy i j with before | rfl | after
  · rw [bSym, bSym, if_neg before.not_gt, if_pos before]
  · rfl
  · rw [bSym, bSym, if_pos after, if_neg after.not_gt]

section Network

variable (sound : Sound config flp)

include sound

theorem bOff_nonpos (i j : ℕ) : bOff config flp i j ≤ 0 := by
  rw [bOff]
  split_ifs with none
  · exact le_rfl
  · have there := g_nonneg sound i j
    have back := g_nonneg sound j i
    rw [neg_div]
    exact neg_nonpos.mpr (by positivity)

omit sound in
theorem bOff_neg {least : K} {i j : ℕ} (there : 0 < g config flp i j ∧ least ≤ g config flp i j)
    (back : 0 < g config flp j i ∧ least ≤ g config flp j i) :
    bOff config flp i j < 0 ∧ least / 2 ≤ -bOff config flp i j := by
  rw [bOff, if_neg (by rw [not_or]; exact ⟨there.1.ne', back.1.ne'⟩), neg_div, neg_neg]
  generalize g config flp i j = x at *
  generalize g config flp j i = y at *
  have positive := add_pos (one_div_pos.mpr there.1) (one_div_pos.mpr back.1)
  refine ⟨neg_neg_of_pos (one_div_pos.mpr positive), ?_⟩
  have x0 := there.1
  have y0 := back.1
  have first := mul_le_mul_of_nonneg_right there.2 y0.le
  have second := mul_le_mul_of_nonneg_right back.2 x0.le
  have series : 1 / (1 / x + 1 / y) = x * y / (x + y) := by
    field_simp
    ring
  rw [series, div_le_div_iff₀ two_pos (add_pos x0 y0)]
  linarith

theorem bSym_nonpos (i j : ℕ) : bSym config flp i j ≤ 0 := by
  rw [bSym]
  split_ifs
  · exact bOff_nonpos sound i j
  · exact bOff_nonpos sound j i

/-- A stacked pair that is assigned both ways is a resistor. -/
theorem b_neg {least : K} (reaches : Reaches config flp least) {p q : ℕ} (stacked : Stacked flp.length p q) (apart : p ≠ q)
    (there : ∃ w ∈ gWrites config flp, w.row = p ∧ w.col = q)
    (back : ∃ w ∈ gWrites config flp, w.row = q ∧ w.col = p) :
    b config flp p q < 0 ∧ least / 2 ≤ -b config flp p q := by
  have symm : Stacked flp.length q p := by
    unfold Stacked at *
    tauto
  have forward := g_pos sound reaches stacked there
  have backward := g_pos sound reaches symm back
  rw [b, if_neg apart, bSym]
  split_ifs
  · exact bOff_neg forward backward
  · exact bOff_neg backward forward

/-- The conductances to ambient at the nodes of the sink. -/
theorem gAmb_pos {q : ℕ} (inSink : q < flp.length ∨ flp.length + SINK_C_W ≤ q)
    (inside : q < flp.length + EXTRA) : 0 < gAmb config flp q := by
  obtain ⟨-, tSink, -, -, -, -, rConvec⟩ := sound.dimensions
  have pk := sound.package_pos
  simp only [gAmb]
  split_ifs with unit first second third
  · have size := sound.areas _ (unit_mem unit)
    have area := mul_pos size.2 size.1
    have toAmbient := mul_nonneg rConvec (mul_self_nonneg config.sSink)
    exact one_div_pos.mpr (add_pos_of_pos_of_nonneg (getr_pos sound.kSink tSink area)
      (div_nonneg toAmbient area.le))
  · exact one_div_pos.mpr (add_pos_of_pos_of_nonneg pk.rHsCPerY pk.rAmbCPerY)
  · exact one_div_pos.mpr (add_pos_of_pos_of_nonneg pk.rHsCPerX pk.rAmbCPerX)
  · exact one_div_pos.mpr (add_pos_of_pos_of_nonneg pk.rHsPer pk.rAmbPer)
  · simp only [SINK_C_W, SINK_C_E, SINK_C_N, SINK_C_S, SINK_W, SINK_E, SINK_N, SINK_S, EXTRA] at *
    omega

theorem bGround_pos {i : ℕ} (inside : i < nNodes flp)
    (inSink : (HSINK * flp.length ≤ i ∧ i < NL * flp.length) ∨ NL * flp.length + SINK_C_W ≤ i) :
    0 < bGround config flp i := by
  have some_unit := sound.length_pos
  simp only [bGround]
  split_ifs with core outer
  · have small := Nat.mod_lt i some_unit
    exact gAmb_pos sound (Or.inl small) (small.trans_le (Nat.le_add_right _ _))
  · have place : flp.length + SINK_C_W ≤ flp.length + i - NL * flp.length := by omega
    refine gAmb_pos sound (Or.inr place) ?_
    rw [nNodes] at inside
    omega
  · omega

theorem bGround_nonneg {i : ℕ} (inside : i < nNodes flp) : 0 ≤ bGround config flp i := by
  by_cases inSink : (HSINK * flp.length ≤ i ∧ i < NL * flp.length) ∨ NL * flp.length + SINK_C_W ≤ i
  · exact (bGround_pos sound inside inSink).le
  · rw [not_or] at inSink
    simp only [bGround]
    rw [if_neg inSink.1, if_neg inSink.2]

/-- **The network.** The matrix is the conductance matrix of a network that is connected to ambient
through the conductances of the sink. -/
theorem grounded_b :
    Grounded (Finset.range (nNodes flp)) (b config flp) (bGround config flp) where
  symmetric i _ j _ := by
    by_cases same : i = j
    · rw [same]
    · rw [b, b, if_neg same, if_neg (Ne.symm same), bSym_symm]
  rowSum i member := by
    have others : ∑ j ∈ (Finset.range (nNodes flp)).erase i, b config flp i j =
        ∑ j ∈ (Finset.range (nNodes flp)).erase i, bSym config flp i j :=
      Finset.sum_congr rfl fun j other => by
        rw [b, if_neg (Finset.ne_of_mem_erase other).symm]
    rw [← Finset.add_sum_erase _ _ member, others, b, if_pos rfl]
    ring
  conductance i _ j _ apart := by
    rw [b, if_neg apart]
    exact bSym_nonpos sound i j
  ground_nonneg i member := bGround_nonneg sound (Finset.mem_range.mp member)

/-- A stacked pair of assignments is a resistor. -/
theorem b_neg_of_both {least : K} (reaches : Reaches config flp least) {p q : ℕ} {v : K}
    (stacked : Stacked flp.length p q) (apart : p ≠ q)
    (assigned : ∀ w ∈ both p q v, w ∈ gWrites config flp) :
    b config flp p q < 0 ∧ least / 2 ≤ -b config flp p q :=
  b_neg sound reaches stacked apart ⟨⟨p, q, v⟩, assigned _ (by simp [both]), rfl, rfl⟩
    ⟨⟨q, p, v⟩, assigned _ (by simp [both]), rfl, rfl⟩

/-- A unit in one layer is linked to itself in the next one. -/
theorem b_vertical {least : K} (reaches : Reaches config flp least) {layer i : ℕ}
    (below : layer < HSINK) (row : i < flp.length) :
    b config flp (layer * flp.length + i) ((layer + 1) * flp.length + i) < 0 ∧
      least / 2 ≤ -b config flp (layer * flp.length + i) ((layer + 1) * flp.length + i) := by
  have assigned : ∀ w ∈ verticalWrites config flp flp.length i, w ∈ gWrites config flp := by
    intro w member
    simp only [gWrites, List.mem_append, List.mem_flatMap, List.mem_range]
    exact Or.inl ⟨i, row, Or.inl (Or.inr member)⟩
  simp only [verticalWrites, List.forall_mem_append] at assigned
  obtain ⟨⟨silicon, interface⟩, spreader⟩ := assigned
  have next : (layer + 1) * flp.length = layer * flp.length + flp.length := by ring
  have stacked : Stacked flp.length (layer * flp.length + i) ((layer + 1) * flp.length + i) := by
    have last : (layer + 1) * flp.length ≤ 3 * flp.length := Nat.mul_le_mul_right _ below
    unfold Stacked NL
    omega
  have apart : layer * flp.length + i ≠ (layer + 1) * flp.length + i := by omega
  match layer, below with
  | 0, _ =>
    rw [Nat.zero_mul, Nat.zero_add] at *
    exact b_neg_of_both sound reaches stacked apart silicon
  | 1, _ => exact b_neg_of_both sound reaches stacked apart interface
  | 2, _ => exact b_neg_of_both sound reaches stacked apart spreader

/-- A side of the spreader is linked to the sink above it. -/
theorem b_side {least : K} (reaches : Reaches config flp least) {side : ℕ} (inside : side < 4) :
    b config flp (NL * flp.length + side) (NL * flp.length + (side + 4)) < 0 ∧
      least / 2 ≤ -b config flp (NL * flp.length + side) (NL * flp.length + (side + 4)) := by
  have assigned : ∀ w ∈ packageWrites (pack config flp) flp.length, w ∈ gWrites config flp := by
    intro w member
    simp only [gWrites, List.mem_append]
    exact Or.inr member
  simp only [packageWrites, List.forall_mem_append] at assigned
  obtain ⟨⟨⟨⟨⟨⟨⟨north, south⟩, east⟩, west⟩, -⟩, -⟩, -⟩, -⟩ := assigned
  have stacked : Stacked flp.length (NL * flp.length + side) (NL * flp.length + (side + 4)) := by
    unfold Stacked
    omega
  match side, inside with
  | 0, _ => exact b_neg_of_both sound reaches stacked (by omega) west
  | 1, _ => exact b_neg_of_both sound reaches stacked (by omega) east
  | 2, _ => exact b_neg_of_both sound reaches stacked (by omega) north
  | 3, _ => exact b_neg_of_both sound reaches stacked (by omega) south

/-- **Links to ambient.** From every node a path of resistors leads to ambient. -/
theorem linked_b : ∀ i ∈ Finset.range (nNodes flp),
    Linked (Finset.range (nNodes flp)) (b config flp) (bGround config flp) i := by
  have some_unit := sound.length_pos
  have sink : ∀ i < nNodes flp,
      ((HSINK * flp.length ≤ i ∧ i < NL * flp.length) ∨ NL * flp.length + SINK_C_W ≤ i) →
      Linked (Finset.range (nNodes flp)) (b config flp) (bGround config flp) i :=
    fun i inside inSink => .ground (bGround_pos sound inside inSink)
  -- from layer to layer down to the sink
  have layers : ∀ layer ≤ HSINK, ∀ row < flp.length, Linked (Finset.range (nNodes flp))
      (b config flp) (bGround config flp) ((HSINK - layer) * flp.length + row) := by
    intro layer
    induction layer with
    | zero =>
      intro _ row inside
      refine sink _ ?_ (Or.inl ?_)
      · unfold nNodes NL HSINK EXTRA
        omega
      · unfold NL HSINK
        omega
    | succ layer ih =>
      intro within row inside
      have next := ih (by omega) row inside
      have resistor := (b_vertical sound sound.reaches_zero
        (show HSINK - (layer + 1) < HSINK by omega) inside).1
      have above : HSINK - (layer + 1) + 1 = HSINK - layer := by omega
      rw [above] at resistor
      have apart : (HSINK - layer) * flp.length =
          (HSINK - (layer + 1)) * flp.length + flp.length := by
        rw [← above]
        ring
      have last : (HSINK - layer) * flp.length ≤ 3 * flp.length :=
        Nat.mul_le_mul_right _ (Nat.sub_le HSINK layer)
      refine .link (Finset.mem_range.mpr ?_) (by omega) resistor next
      unfold nNodes NL EXTRA
      omega
  have sides : ∀ side < 4, Linked (Finset.range (nNodes flp)) (b config flp) (bGround config flp)
      (NL * flp.length + side) := by
    intro side inside
    have next := sink (NL * flp.length + (side + 4))
      (by unfold nNodes EXTRA; omega) (Or.inr (by unfold SINK_C_W; omega))
    refine .link (Finset.mem_range.mpr ?_) (by omega) (b_side sound sound.reaches_zero inside).1 next
    unfold nNodes EXTRA
    omega
  intro i member
  have inside := Finset.mem_range.mp member
  rcases Nat.lt_or_ge i (NL * flp.length) with block | package
  · have split : i = i / flp.length * flp.length + i % flp.length := (Nat.div_add_mod' i _).symm
    have layer : i / flp.length ≤ HSINK := by
      have : i / flp.length < NL := Nat.div_lt_of_lt_mul (by rw [Nat.mul_comm]; exact block)
      unfold HSINK NL at *
      omega
    have linked := layers (HSINK - i / flp.length) (Nat.sub_le _ _) (i % flp.length)
      (Nat.mod_lt i some_unit)
    rw [Nat.sub_sub_self layer, ← split] at linked
    exact linked
  · obtain ⟨place, rfl⟩ := Nat.exists_eq_add_of_le package
    rcases Nat.lt_or_ge place 4 with side | outer
    · exact sides place side
    · refine sink _ inside (Or.inr ?_)
      unfold SINK_C_W
      omega

end Network

end GpuHotSpot.HotSpotTool.Block
