import Mathlib.Algebra.Order.Floor.Ring
import Mathlib.Data.Rat.Floor
import Mathlib.Data.Finset.Prod
import Mathlib.Data.List.GetD
import Mathlib.Data.List.Nodup
import Mathlib.Data.Nat.ModEq
import Mathlib.Data.Nat.Sqrt
import GpuHotSpot.Lib.Machine

/-!
# Places of memory controllers

`computeMeshDimensions` and `computeMemoryControllerPositions` of
`common/network/network_model_emesh_hop_by_hop.cc`: the stops along the perimeter of the mesh are
listed clockwise, and the controllers are put at every so many of them.

* `clockwise`: the perimeter as a list of stops, which has each stop once unless the mesh is one
  wide.
* `placed_iff`: when the controllers get places of their own.

In a mesh that is one wide the list goes down the column and up again; and with one dimension only
the first row is listed, also when the configured mesh has more.
-/

namespace GpuHotSpot.Common.MemoryControllers

open Fallible

/-! ## The mesh -/

/-- What the functions end the program with. -/
inductive MeshError
  /-- "Invalid value %d for dimensions". -/
  | invalidDimensions
  /-- "Cannot build a mesh with %d cores". -/
  | cannotBuild
  /-- "Invalid mesh size \"%s\", expected \"width:height\"". -/
  | invalidSize
  /-- "Invalid mesh size %s for %d cores". -/
  | wrongSize
  /-- The assertion on the length of the list. -/
  | perimeterLength
  /-- "num cores along perimeter(%u), num memory controllers(%i)". -/
  | tooFewPlaces
  /-- The spacing of no controllers. -/
  | divisionByZero
  deriving DecidableEq, Repr

/-- What is read from the configuration: `concentration` is the configured one times the number of
logical CPUs, and `size` what `sscanf` reads of a size, if there is one. -/
structure MeshConfig where
  applicationCores : ℕ
  cores_pos : 0 < applicationCores
  concentration : ℤ
  dimensions : ℤ
  size : Option (Option (ℤ × ℤ))

/-- `computeMeshDimensions`. The square root and the quotient are exact where the mesh has room for
just the cores, and otherwise it is refused. -/
def computeMeshDimensions (c : MeshConfig) : Except MeshError (ℤ × ℤ) :=
  match c.size with
  | none =>
    let stops := (c.applicationCores : ℤ).tdiv c.concentration
    let built (width height : ℤ) : Except MeshError (ℤ × ℤ) :=
      if (c.applicationCores : ℤ) = c.concentration * height * width then .ok (width, height)
      else .error .cannotBuild
    if c.dimensions = 1 then built stops 1
    else if c.dimensions = 2 then
      let width : ℤ := Nat.sqrt stops.toNat
      built width ⌈(c.applicationCores / c.concentration / width : ℚ)⌉
    else .error .invalidDimensions
  | some none => .error .invalidSize
  | some (some (width, height)) =>
    if (c.applicationCores : ℤ) = c.concentration * height * width then .ok (width, height)
    else .error .wrongSize

/-- The numbers from 0 to below `n`. -/
def upTo (n : ℤ) : List ℤ := (List.range n.toNat).map fun i : ℕ => (i : ℤ)

/-- The numbers from 1 to below `n - 1`. -/
def inner (n : ℤ) : List ℤ := (List.range (n - 2).toNat).map fun i : ℕ => (i : ℤ) + 1

/-- `core_id_list_along_perimeter`. -/
def alongPerimeter (dimensions width height : ℤ) : List ℤ :=
  upTo width ++
    if 1 < dimensions ∧ 1 < height then
      (inner height).map (fun i => i * width + (width - 1)) ++
        ((upTo width).reverse.map (fun i => (height - 1) * width + i) ++
          (inner height).reverse.map fun i => i * width)
    else []

/-- `computeMemoryControllerPositions`. -/
def computeMemoryControllerPositions (c : MeshConfig) (numMemoryControllers : ℕ) :
    Except MeshError (List ℤ) := do
  let (width, height) ← computeMeshDimensions c
  let places := alongPerimeter c.dimensions width height
  if (1 < c.dimensions ∧ 1 < height) ∧ (places.length : ℤ) ≠ 2 * (width + height - 2) then
    .error .perimeterLength
  else if places.length < numMemoryControllers then .error .tooFewPlaces
  else if numMemoryControllers = 0 then .error .divisionByZero
  else
    let spacing := places.length / numMemoryControllers
    .ok ((List.range numMemoryControllers).map fun i => c.concentration *
      places.getD ((i * spacing + width.toNat / 2) % places.length) 0)

/-! ## What should happen -/

/-- The stops on the perimeter of the mesh, by column and row. -/
def perimeterNodes (width height : ℤ) : Finset (ℕ × ℕ) :=
  (Finset.range width.toNat ×ˢ Finset.range height.toNat).filter fun p =>
    p.1 = 0 ∨ p.2 = 0 ∨ p.1 + 1 = width.toNat ∨ p.2 + 1 = height.toNat

/-- The number of a stop. -/
def node (width : ℤ) (p : ℕ × ℕ) : ℤ := p.2 * width + p.1

/-- So many controllers at different cores, each the master of a stop on the perimeter. -/
def Placed (c : MeshConfig) (width height : ℤ) (num : ℕ) : Prop :=
  ∃ ids, computeMemoryControllerPositions c num = .ok ids ∧ ids.length = num ∧ ids.Nodup ∧
    ∀ id ∈ ids, ∃ p ∈ perimeterNodes width height, id = c.concentration * node width p

/-- With one dimension there are no more controllers than stops in a row; and in a mesh that is one
wide no two of them come to the same stop from both ends of the column. -/
structure Suits (c : MeshConfig) (width height : ℤ) (num : ℕ) : Prop where
  line : c.dimensions ≤ 1 → 1 < height → (num : ℤ) ≤ width
  column : 1 < c.dimensions → 1 < height → width = 1 → ∀ i j, 0 < i → i < j → j < num →
    (i + j) * (2 * (height.toNat - 1) / num) ≠ 2 * (height.toNat - 1)

/-! ## The list of stops -/

variable {w h : ℕ} {p : ℕ × ℕ}

/-- The first row. -/
def firstRow (w : ℕ) : List (ℕ × ℕ) := (List.range w).map fun x => (x, 0)

/-- The stops along the perimeter: the first row, and down the last column, back along the last row
and up the first column. -/
def clockwise (w h : ℕ) : List (ℕ × ℕ) :=
  firstRow w ++ ((List.range (h - 2)).map (fun y => (w - 1, y + 1)) ++
    ((List.range w).reverse.map (fun x => (x, h - 1)) ++
      (List.range (h - 2)).reverse.map fun y => (0, y + 1)))

theorem length_clockwise (high : 1 < h) : (clockwise w h).length = 2 * (w + h - 2) := by
  simp only [clockwise, firstRow, List.length_append, List.length_map, List.length_reverse,
    List.length_range]
  omega

theorem mem_clockwise (wide : 0 < w) (high : 1 < h) :
    p ∈ clockwise w h ↔ p ∈ perimeterNodes w h := by
  obtain ⟨x, y⟩ := p
  simp only [clockwise, firstRow, perimeterNodes, List.mem_append, List.mem_map, List.mem_range,
    List.mem_reverse, Prod.mk.injEq, Finset.mem_filter, Finset.mem_product, Finset.mem_range,
    Int.toNat_natCast]
  constructor
  · rintro (⟨i, less, rfl, rfl⟩ | ⟨i, less, rfl, rfl⟩ | ⟨i, less, rfl, rfl⟩ | ⟨i, less, rfl, rfl⟩)
    · exact ⟨⟨less, by omega⟩, by omega⟩
    · exact ⟨⟨by omega, by omega⟩, by omega⟩
    · exact ⟨⟨less, by omega⟩, by omega⟩
    · exact ⟨⟨wide, by omega⟩, by omega⟩
  · rintro ⟨⟨left, top⟩, border⟩
    by_cases first : y = 0
    · exact .inl ⟨x, left, rfl, first.symm⟩
    by_cases last : y = h - 1
    · exact .inr (.inr (.inl ⟨x, left, rfl, last.symm⟩))
    by_cases edge : x = w - 1
    · exact .inr (.inl ⟨y - 1, by omega, edge.symm, by omega⟩)
    · exact .inr (.inr (.inr ⟨y - 1, by omega, by omega, by omega⟩))

/-- **A mesh of two columns or more** has each stop of its perimeter once in the list. -/
theorem nodup_clockwise (wide : 1 < w) (high : 1 < h) : (clockwise w h).Nodup := by
  have right (y : ℕ) : Function.Injective fun x : ℕ => (x, y) :=
    fun _ _ same => (Prod.mk.inj same).1
  have down (x : ℕ) : Function.Injective fun y : ℕ => (x, y + 1) :=
    fun _ _ same => Nat.succ.inj (Prod.mk.inj same).2
  rw [clockwise, firstRow]
  refine (List.nodup_range.map (right 0)).append ((List.nodup_range.map (down (w - 1))).append
    (((List.nodup_reverse.2 List.nodup_range).map (right (h - 1))).append
      ((List.nodup_reverse.2 List.nodup_range).map (down 0)) ?_) ?_) ?_
  all_goals
    rintro ⟨x, y⟩ first second
    simp only [List.mem_append, List.mem_map, List.mem_range, List.mem_reverse,
      Prod.mk.injEq] at first second
  · obtain ⟨i, -, -, rfl⟩ := first
    obtain ⟨j, less, -, same⟩ := second
    omega
  · obtain ⟨i, less, rfl, rfl⟩ := first
    rcases second with ⟨j, -, -, same⟩ | ⟨j, -, same, -⟩
    · omega
    · omega
  · obtain ⟨i, -, -, rfl⟩ := first
    rcases second with ⟨j, -, -, same⟩ | ⟨j, -, -, same⟩ | ⟨j, -, -, same⟩
    · omega
    · omega
    · omega

/-- No two stops of the mesh have one number. -/
theorem node_inj {p q : ℕ × ℕ} (inside : p.1 < w) (inside' : q.1 < w)
    (same : node w p = node w q) : p = q := by
  rw [node, node] at same
  norm_cast at same
  have columns := congrArg (· % w) same
  have rows := congrArg (· / w) same
  have positive : 0 < w := Nat.zero_lt_of_lt inside
  simp only [Nat.mul_add_mod_of_lt inside, Nat.mul_add_mod_of_lt inside'] at columns
  simp only [Nat.add_comm (_ * w), Nat.add_mul_div_right _ _ positive, Nat.div_eq_of_lt inside,
    Nat.div_eq_of_lt inside', Nat.zero_add] at rows
  exact Prod.ext columns rows

theorem lt_of_mem_perimeterNodes (member : p ∈ perimeterNodes w h) : p.1 < w ∧ p.2 < h := by
  rw [perimeterNodes, Finset.mem_filter, Finset.mem_product, Finset.mem_range, Finset.mem_range,
    Int.toNat_natCast, Int.toNat_natCast] at member
  exact member.1

/-- With more than one dimension and row, the list of the code is that of the perimeter. -/
theorem alongPerimeter_eq {dimensions : ℤ} (planar : 1 < dimensions) (wide : 0 < w) (high : 1 < h) :
    alongPerimeter dimensions w h = (clockwise w h).map (node w) := by
  have rows : ((h : ℤ) - 2).toNat = h - 2 := by omega
  rw [alongPerimeter, if_pos ⟨planar, by exact_mod_cast high⟩, clockwise, firstRow, upTo, inner,
    rows, Int.toNat_natCast]
  simp only [List.map_append, List.map_map, ← List.map_reverse]
  refine congrArg₂ _ (List.map_congr_left fun x _ => ?_) (congrArg₂ _
    (List.map_congr_left fun y _ => ?_) (congrArg₂ _ (List.map_congr_left fun x _ => ?_)
      (List.map_congr_left fun y _ => ?_)))
  · simp [node]
  · simp only [Function.comp, node]
    push_cast [Nat.cast_sub (by omega : 1 ≤ w)]
    ring
  · simp only [Function.comp, node]
    push_cast [Nat.cast_sub (by omega : 1 ≤ h)]
    ring
  · simp [node]

/-- Otherwise it is that of the first row. -/
theorem alongPerimeter_row {dimensions : ℤ} (flat : ¬ (1 < dimensions ∧ (1 : ℤ) < h)) :
    alongPerimeter dimensions w h = (firstRow w).map (node w) := by
  rw [alongPerimeter, if_neg flat, List.append_nil, upTo, Int.toNat_natCast, firstRow, List.map_map]
  exact List.map_congr_left fun x _ => by simp [node]

/-! ## Strides -/

/-- Some of `n` equal strides around a circle lead to different places. -/
theorem stride_inj {L n a i j : ℕ} (positive : 0 < n) (few : n ≤ L) (first : i < n) (second : j < n)
    (same : (i * (L / n) + a) % L = (j * (L / n) + a) % L) : i = j := by
  have spacing : 0 < L / n := Nat.div_pos few positive
  have around : n * (L / n) ≤ L := Nat.mul_div_le L n
  have inside {i : ℕ} (low : i < n) : i * (L / n) < L :=
    lt_of_lt_of_le ((Nat.mul_lt_mul_right spacing).2 low) around
  have congruent : i * (L / n) ≡ j * (L / n) [MOD L] := Nat.ModEq.add_right_cancel' a same
  have equal : i * (L / n) = j * (L / n) := by
    rw [Nat.ModEq, Nat.mod_eq_of_lt (inside first), Nat.mod_eq_of_lt (inside second)] at congruent
    exact congruent
  exact Nat.eq_of_mul_eq_mul_right spacing equal

/-- The stop of a controller. -/
def pick (stops : List (ℕ × ℕ)) (w num i : ℕ) : ℕ × ℕ :=
  stops.getD ((i * (stops.length / num) + w / 2) % stops.length) (0, 0)

theorem pick_mem {stops : List (ℕ × ℕ)} {num i : ℕ} (some : 0 < stops.length) :
    pick stops w num i ∈ stops := by
  have inside := Nat.mod_lt (i * (stops.length / num) + w / 2) some
  rw [pick, List.getD_eq_getElem _ _ inside]
  exact List.getElem_mem inside

/-- In a list without repetition the controllers get different stops. -/
theorem pick_inj {stops : List (ℕ × ℕ)} {num i j : ℕ} (nodup : stops.Nodup) (positive : 0 < num)
    (few : num ≤ stops.length) (first : i < num) (second : j < num)
    (same : pick stops w num i = pick stops w num j) : i = j := by
  have some : 0 < stops.length := lt_of_lt_of_le positive few
  rw [pick, pick, List.getD_eq_getElem _ _ (Nat.mod_lt _ some),
    List.getD_eq_getElem _ _ (Nat.mod_lt _ some), nodup.getElem_inj_iff] at same
  exact stride_inj positive few first second same

/-- The perimeter of a mesh that is one wide: down the column and up again. -/
theorem clockwise_one (high : 1 < h) : clockwise 1 h = (List.range (2 * (h - 1))).map fun k =>
    (0, if k < h then k else 2 * (h - 1) - k) := by
  refine List.ext_getElem ?_ fun k first second => ?_
  · rw [length_clockwise high, List.length_map, List.length_range]
    omega
  · rw [length_clockwise high] at first
    simp only [clockwise, firstRow, List.getElem_append, List.getElem_map, List.getElem_range,
      List.length_map, List.length_range, List.length_reverse, List.getElem_reverse]
    split_ifs
    all_goals
      refine Prod.ext ?_ ?_
      · show (_ : ℕ) = 0
        omega
      · dsimp only
        omega

/-! ## Controllers -/

variable {c : MeshConfig} {width height : ℤ} {num : ℕ}

/-- An accepted mesh has room for just the cores. -/
theorem area_of_accepted (accepted : computeMeshDimensions c = .ok (width, height)) :
    (c.applicationCores : ℤ) = c.concentration * height * width := by
  rw [computeMeshDimensions] at accepted
  have built {w h : ℤ} {e : MeshError} (ran : (if (c.applicationCores : ℤ) = c.concentration * h * w
      then Except.ok (w, h) else .error e) = .ok (width, height)) :
      (c.applicationCores : ℤ) = c.concentration * height * width := by
    split_ifs at ran with fits
    cases ran
    exact fits
  generalize c.size = size at accepted
  rcases size with _ | _ | size
  · dsimp only at accepted
    by_cases line : c.dimensions = 1
    · rw [if_pos line] at accepted
      exact built accepted
    · rw [if_neg line] at accepted
      by_cases plane : c.dimensions = 2
      · rw [if_pos plane] at accepted
        exact built accepted
      · rw [if_neg plane] at accepted
        exact nomatch accepted
  · exact nomatch accepted
  · exact built accepted

theorem concentration_ne_zero (accepted : computeMeshDimensions c = .ok (width, height)) :
    c.concentration ≠ 0 := by
  intro zero
  have area := area_of_accepted accepted
  have some := c.cores_pos
  rw [zero, zero_mul, zero_mul] at area
  omega

/-- **The controllers have places of their own** exactly if no two are put at one stop. -/
theorem placed_iff_injective (accepted : computeMeshDimensions c = .ok (w, h))
    {stops : List (ℕ × ℕ)} (listed : alongPerimeter c.dimensions w h = stops.map (node w))
    (length : 1 < c.dimensions ∧ (1 : ℤ) < h → (stops.length : ℤ) = 2 * (w + h - 2))
    (perimeter : ∀ p ∈ stops, p ∈ perimeterNodes w h) (positive : 0 < num)
    (few : num ≤ stops.length) :
    Placed c w h num ↔
      ∀ i j, i < num → j < num → pick stops w num i = pick stops w num j → i = j := by
  have some : 0 < stops.length := lt_of_lt_of_le positive few
  have ran : computeMemoryControllerPositions c num =
      .ok ((List.range num).map fun i => c.concentration * node w (pick stops w num i)) := by
    have origin : (0 : ℤ) = node w (0, 0) := by simp [node]
    rw [computeMemoryControllerPositions, accepted, ok_bind]
    dsimp only
    rw [listed, List.length_map, if_neg fun both => both.2 (length both.1), if_neg (by omega),
      if_neg (by omega), Int.toNat_natCast, origin]
    simp only [List.getD_map, pick]
  constructor
  · rintro ⟨ids, ran', -, nodup, -⟩ i j first second same
    cases ran'.symm.trans ran
    exact (List.inj_on_of_nodup_map nodup) (List.mem_range.2 first) (List.mem_range.2 second)
      (by rw [same])
  · intro injective
    refine ⟨_, ran, by rw [List.length_map, List.length_range], ?_, fun id member => ?_⟩
    · refine List.Nodup.map_on (fun i first j second same => ?_) List.nodup_range
      have inside (i : ℕ) : (pick stops w num i).1 < w :=
        (lt_of_mem_perimeterNodes (perimeter _ (pick_mem some))).1
      exact injective i j (List.mem_range.1 first) (List.mem_range.1 second) (node_inj (inside i)
        (inside j) (mul_left_cancel₀ (concentration_ne_zero accepted) same))
    · obtain ⟨i, -, rfl⟩ := List.mem_map.1 member
      exact ⟨_, perimeter _ (pick_mem some), rfl⟩

/-- The stops that two controllers get in a mesh that is one wide. -/
theorem pick_one_iff (high : 1 < h) (positive : 0 < num) (few : num ≤ 2 * (h - 1)) :
    (∀ i j, i < num → j < num →
        pick (clockwise 1 h) 1 num i = pick (clockwise 1 h) 1 num j → i = j) ↔
      ∀ i j, 0 < i → i < j → j < num → (i + j) * (2 * (h - 1) / num) ≠ 2 * (h - 1) := by
  have length : (clockwise 1 h).length = 2 * (h - 1) := by
    rw [length_clockwise high]
    omega
  have spacing : 0 < 2 * (h - 1) / num := Nat.div_pos few positive
  have around : num * (2 * (h - 1) / num) ≤ 2 * (h - 1) := Nat.mul_div_le _ num
  have inside {i : ℕ} (low : i < num) : i * (2 * (h - 1) / num) < 2 * (h - 1) :=
    lt_of_lt_of_le ((Nat.mul_lt_mul_right spacing).2 low) around
  have row {i : ℕ} (low : i < num) : pick (clockwise 1 h) 1 num i =
      (0, if i * (2 * (h - 1) / num) < h then i * (2 * (h - 1) / num)
        else 2 * (h - 1) - i * (2 * (h - 1) / num)) := by
    have index := inside low
    rw [pick, length, show 1 / 2 = 0 from rfl, Nat.add_zero, Nat.mod_eq_of_lt index,
      List.getD_eq_getElem _ _ (by rw [length]; exact index)]
    simp only [clockwise_one high, List.getElem_map, List.getElem_range]
  generalize 2 * (h - 1) / num = spacing' at *
  constructor
  · intro injective i j some less low both
    have same : pick (clockwise 1 h) 1 num i = pick (clockwise 1 h) 1 num j := by
      rw [row (less.trans low), row low]
      have product := both
      rw [Nat.add_mul] at product
      have order : i * spacing' < j * spacing' := (Nat.mul_lt_mul_right spacing).2 less
      refine Prod.ext rfl ?_
      dsimp only
      split_ifs <;> omega
    exact less.ne (injective i j (less.trans low) low same)
  · intro apart i j first second same
    rw [row first, row second, Prod.mk.injEq] at same
    have rows := same.2
    -- Either both go down the column, or one of them is on the way up.
    have either : i * spacing' = j * spacing' ∨ i * spacing' + j * spacing' = 2 * (h - 1) := by
      have := inside first
      have := inside second
      split_ifs at rows <;> omega
    rcases either with equal | sum
    · exact Nat.eq_of_mul_eq_mul_right spacing equal
    · rw [← Nat.add_mul] at sum
      rcases Nat.lt_trichotomy i j with less | equal | more
      · rcases Nat.eq_zero_or_pos i with rfl | some
        · rw [Nat.zero_add] at sum
          exact absurd sum (inside second).ne
        · exact absurd sum (apart i j some less second)
      · exact equal
      · rcases Nat.eq_zero_or_pos j with rfl | some
        · rw [Nat.add_zero] at sum
          exact absurd sum (inside first).ne
        · rw [Nat.add_comm] at sum
          exact absurd sum (apart j i some more first)

/-- **Memory controllers.** In an accepted mesh the controllers, no more of them than the perimeter
has stops, are put at different cores, each the master of a stop on the perimeter, exactly if the
number of controllers suits the mesh. -/
theorem placed_iff (accepted : computeMeshDimensions c = .ok (width, height)) (positive : 0 < num)
    (few : num ≤ (perimeterNodes width height).card) :
    Placed c width height num ↔ Suits c width height num := by
  obtain ⟨p, member⟩ := Finset.card_pos.1 (lt_of_lt_of_le positive few)
  obtain ⟨w, rfl, wide⟩ : ∃ w : ℕ, width = w ∧ 0 < w := by
    rw [perimeterNodes, Finset.mem_filter, Finset.mem_product, Finset.mem_range] at member
    exact ⟨width.toNat, by omega, by omega⟩
  obtain ⟨h, rfl, high⟩ : ∃ h : ℕ, height = h ∧ 0 < h := by
    rw [perimeterNodes, Finset.mem_filter, Finset.mem_product, Finset.mem_range,
      Finset.mem_range] at member
    exact ⟨height.toNat, by omega, by omega⟩
  by_cases planar : 1 < c.dimensions ∧ 1 < h
  · -- The list goes around the mesh.
    have cover : (perimeterNodes w h).card ≤ (clockwise w h).length := by
      refine le_trans (Finset.card_le_card fun p member => ?_) (List.toFinset_card_le _)
      exact List.mem_toFinset.2 ((mem_clockwise wide planar.2).2 member)
    have enough : num ≤ (clockwise w h).length := few.trans cover
    rw [placed_iff_injective accepted (alongPerimeter_eq planar.1 wide planar.2)
      (fun _ => by rw [length_clockwise planar.2]; omega)
      (fun p member => (mem_clockwise wide planar.2).1 member) positive enough]
    rcases Nat.lt_or_eq_of_le (Nat.succ_le_of_lt wide) with broad | narrow
    · refine iff_of_true (fun i j first second same => pick_inj (nodup_clockwise broad planar.2)
        positive enough first second same) ⟨fun line => ?_, fun _ _ one => ?_⟩
      · exact absurd planar.1 (not_lt.2 line)
      · omega
    · obtain rfl : w = 1 := narrow.symm
      rw [length_clockwise planar.2] at enough
      rw [pick_one_iff planar.2 positive (by omega)]
      constructor
      · exact fun apart => ⟨fun line => absurd planar.1 (not_lt.2 line), fun _ _ _ => apart⟩
      · exact fun suits => suits.column planar.1 (by exact_mod_cast planar.2) rfl
  · -- The list is that of the first row.
    have flat : ¬ (1 < c.dimensions ∧ (1 : ℤ) < h) := fun both =>
      planar ⟨both.1, by exact_mod_cast both.2⟩
    have listed := alongPerimeter_row (w := w) flat
    have length : (firstRow w).length = w := by rw [firstRow, List.length_map, List.length_range]
    have perimeter : ∀ p ∈ firstRow w, p ∈ perimeterNodes w h := fun p member => by
      obtain ⟨x, inside, rfl⟩ := List.mem_map.1 member
      rw [perimeterNodes, Finset.mem_filter, Finset.mem_product, Finset.mem_range,
        Finset.mem_range]
      rw [List.mem_range] at inside
      exact ⟨⟨by exact_mod_cast inside, by exact_mod_cast high⟩, .inr (.inl rfl)⟩
    by_cases enough : num ≤ w
    · rw [placed_iff_injective accepted listed (fun both => absurd both flat) perimeter positive
        (by rw [length]; exact enough)]
      refine iff_of_true (fun i j first second same => pick_inj ?_ positive
        (by rw [length]; exact enough) first second same) ⟨fun _ _ => by exact_mod_cast enough, ?_⟩
      · exact List.nodup_range.map fun _ _ same => (Prod.mk.inj same).1
      · exact fun dimensions rows => absurd ⟨dimensions, rows⟩ flat
    · refine iff_of_false ?_ fun suits => ?_
      · rintro ⟨ids, ran, -⟩
        rw [computeMemoryControllerPositions, accepted, ok_bind] at ran
        dsimp only at ran
        rw [listed, List.length_map, length, if_neg fun both => flat both.1,
          if_pos (not_le.1 enough)] at ran
        exact nomatch ran
      · -- With a single row the perimeter would have no more stops than that.
        have more : 1 < h := by
          by_contra single
          have one : h = 1 := by omega
          have cover : (perimeterNodes w h).card ≤ (firstRow w).length := by
            refine le_trans (Finset.card_le_card fun p member => ?_) (List.toFinset_card_le _)
            have inside := lt_of_mem_perimeterNodes member
            exact List.mem_toFinset.2 (List.mem_map.2 ⟨p.1, List.mem_range.2 inside.1,
              Prod.ext rfl (by omega)⟩)
          rw [length] at cover
          omega
        have line : c.dimensions ≤ 1 := not_lt.1 fun dimensions => planar ⟨dimensions, more⟩
        exact enough (by exact_mod_cast suits.line line (by exact_mod_cast more))

/-- A square mesh, with a controller at each of its stops. -/
theorem placed_iff_square : Placed ⟨4, by decide, 1, 2, some (some (2, 2))⟩ 2 2 4 :=
  (placed_iff rfl (by decide) (by decide)).2
    ⟨fun line => absurd line (by decide), fun _ _ one => absurd one (by decide)⟩

/-- A mesh of one column and four rows, and three controllers. -/
theorem not_placed_column : ¬ ∀ (c : MeshConfig) (width height : ℤ) (num : ℕ),
    computeMeshDimensions c = .ok (width, height) → 0 < num →
    num ≤ (perimeterNodes width height).card → Placed c width height num := by
  intro all
  obtain ⟨ids, ran, -, nodup, -⟩ := all ⟨4, by decide, 1, 2, some (some (1, 4))⟩ 1 4 3 rfl
    (by decide) (by decide)
  cases ran
  exact absurd nodup (by decide)

end GpuHotSpot.Common.MemoryControllers
