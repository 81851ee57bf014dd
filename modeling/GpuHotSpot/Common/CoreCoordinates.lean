import Mathlib
import GpuHotSpot.Common.SchedulerOpen

/-!
# The coordinates of the cores

`getCoreNb` of `common/scheduler/scheduler_open.cc`, and the printout of the mapping in `periodic`,
which asks it for all cores. The check of the coordinates compares `z` with `coresInX`.

* `getCoreNb_inside`: what it returns for a core that passes its check.
* `coordinatesExact_iff`: when it numbers the cores and refuses everything else.
-/

namespace GpuHotSpot.Common.Open

open Fallible

/-- The value of an operation on `int`, the overflow of which is undefined. -/
def int (value : ℤ) : Except Fault ℤ :=
  if -2 ^ 31 ≤ value ∧ value < 2 ^ 31 then .ok value else .error .undefined

/-- The extents of the processor, which are positive numbers of the type `int`. -/
structure Extents where
  coresInX : ℤ
  coresInY : ℤ
  coresInZ : ℤ
  coresInX_pos : 0 < coresInX
  coresInY_pos : 0 < coresInY
  coresInZ_pos : 0 < coresInZ
  isInt : coresInX < 2 ^ 31 ∧ coresInY < 2 ^ 31 ∧ coresInZ < 2 ^ 31

namespace Extents

variable (e : Extents)

/-- `getCoreNb`. -/
def getCoreNb (x y z : ℤ) : Except Fault ℤ :=
  if x < 0 ∨ x ≥ e.coresInX ∨ y < 0 ∨ y ≥ e.coresInY ∨ z < 0 ∨ z ≥ e.coresInX then .error .exit
  else do
    let layer ← int (z * e.coresInY)
    let row ← int (layer + y)
    let first ← int (row * e.coresInX)
    int (first + x)

/-- The coordinates in the order of the loops of `periodic`. -/
def coordinates : List (ℤ × ℤ × ℤ) :=
  (List.range e.coresInZ.toNat).flatMap fun z : ℕ =>
    (List.range e.coresInY.toNat).flatMap fun y : ℕ =>
      (List.range e.coresInX.toNat).map fun x : ℕ => ((x : ℤ), (y : ℤ), (z : ℤ))

/-- The cores that the printout of the mapping visits. -/
def printout : Except Fault (List ℤ) :=
  e.coordinates.mapM fun (x, y, z) => e.getCoreNb x y z

/-! ## What they are for -/

/-- The coordinates of a core. -/
def Inside (x y z : ℤ) : Prop :=
  (0 ≤ x ∧ x < e.coresInX) ∧ (0 ≤ y ∧ y < e.coresInY) ∧ 0 ≤ z ∧ z < e.coresInZ

def numberOfCores : ℤ :=
  e.coresInX * e.coresInY * e.coresInZ

/-- The coordinates number the cores, everything else is refused, and the printout visits every core
once. -/
structure CoordinatesExact : Prop where
  bijective : Set.BijOn (fun p : ℤ × ℤ × ℤ => e.getCoreNb p.1 p.2.1 p.2.2)
    {p | e.Inside p.1 p.2.1 p.2.2} (Except.ok '' Set.Ico 0 e.numberOfCores)
  refused : ∀ x y z, ¬e.Inside x y z → e.getCoreNb x y z = .error .exit
  visited : ∃ cores, e.printout = .ok cores ∧ cores.Nodup ∧
    ∀ c, c ∈ cores ↔ 0 ≤ c ∧ c < e.numberOfCores

/-! ## Numbers of cores -/

/-- The number of the core. -/
def index (x y z : ℤ) : ℤ :=
  (z * e.coresInY + y) * e.coresInX + x

variable {e} {x y z : ℤ}

/-- The coordinates are the digits of the number. -/
theorem Inside.digits (inside : e.Inside x y z) :
    e.index x y z % e.coresInX = x ∧ e.index x y z / e.coresInX % e.coresInY = y ∧
      e.index x y z / e.coresInX / e.coresInY = z := by
  rcases inside with ⟨⟨x_nonneg, x_lt⟩, ⟨y_nonneg, y_lt⟩, -⟩
  have column : e.index x y z % e.coresInX = x := by
    rw [index, add_comm, Int.add_mul_emod_self_right, Int.emod_eq_of_lt x_nonneg x_lt]
  have row : e.index x y z / e.coresInX = z * e.coresInY + y := by
    rw [index, add_comm, Int.add_mul_ediv_right _ _ e.coresInX_pos.ne',
      Int.ediv_eq_zero_of_lt x_nonneg x_lt, zero_add]
  refine ⟨column, ?_, ?_⟩
  · rw [row, add_comm, Int.add_mul_emod_self_right, Int.emod_eq_of_lt y_nonneg y_lt]
  · rw [row, add_comm, Int.add_mul_ediv_right _ _ e.coresInY_pos.ne',
      Int.ediv_eq_zero_of_lt y_nonneg y_lt, zero_add]

/-- The operations on the way to the number of a core do not go beyond it. -/
theorem Inside.index_bounds (inside : e.Inside x y z) :
    0 ≤ z * e.coresInY ∧ z * e.coresInY ≤ z * e.coresInY + y ∧
      z * e.coresInY + y ≤ (z * e.coresInY + y) * e.coresInX ∧
      (z * e.coresInY + y) * e.coresInX ≤ e.index x y z ∧ e.index x y z < e.numberOfCores := by
  rcases inside with ⟨⟨x_nonneg, x_lt⟩, ⟨y_nonneg, y_lt⟩, z_nonneg, z_lt⟩
  have layer : 0 ≤ z * e.coresInY := mul_nonneg z_nonneg e.coresInY_pos.le
  have row : z * e.coresInY + y + 1 ≤ e.coresInZ * e.coresInY := by
    have next : (z + 1) * e.coresInY ≤ e.coresInZ * e.coresInY :=
      mul_le_mul_of_nonneg_right (by omega) e.coresInY_pos.le
    rw [add_mul, one_mul] at next
    omega
  have whole : (z * e.coresInY + y + 1) * e.coresInX ≤ e.numberOfCores := by
    refine (mul_le_mul_of_nonneg_right row e.coresInX_pos.le).trans_eq ?_
    rw [numberOfCores]
    ring
  rw [add_mul, one_mul] at whole
  refine ⟨layer, by omega, le_mul_of_one_le_right (by omega) e.coresInX_pos, ?_, ?_⟩
  · rw [index]
    omega
  · rw [index]
    omega

/-- Every number below that of the cores has coordinates. -/
theorem exists_inside {c : ℤ} (nonneg : 0 ≤ c) (small : c < e.numberOfCores) :
    ∃ x y z, e.Inside x y z ∧ e.index x y z = c := by
  have row : 0 ≤ c / e.coresInX := Int.ediv_nonneg nonneg e.coresInX_pos.le
  have layer : c / e.coresInX / e.coresInY < e.coresInZ := by
    refine Int.ediv_lt_of_lt_mul e.coresInY_pos (Int.ediv_lt_of_lt_mul e.coresInX_pos ?_)
    refine small.trans_eq ?_
    rw [numberOfCores]
    ring
  refine ⟨c % e.coresInX, c / e.coresInX % e.coresInY, c / e.coresInX / e.coresInY,
    ⟨⟨Int.emod_nonneg _ e.coresInX_pos.ne', Int.emod_lt_of_pos _ e.coresInX_pos⟩,
      ⟨Int.emod_nonneg _ e.coresInY_pos.ne', Int.emod_lt_of_pos _ e.coresInY_pos⟩,
      Int.ediv_nonneg row e.coresInY_pos.le, layer⟩, ?_⟩
  rw [index, Int.ediv_mul_add_emod, Int.ediv_mul_add_emod]

/-! ## The check -/

theorem int_ok {value c : ℤ} :
    int value = .ok c ↔ c = value ∧ -2 ^ 31 ≤ value ∧ value < 2 ^ 31 := by
  rw [int]
  split_ifs with fits
  · rw [Except.ok.injEq, eq_comm, and_iff_left fits]
  · exact iff_of_false (fun ok => by cases ok) fun right => fits right.2

/-- The operations are defined if the number of the core is an `int`. -/
theorem getCoreNb_inside (inside : e.Inside x y z) (check : z < e.coresInX) {c : ℤ} :
    e.getCoreNb x y z = .ok c ↔ c = e.index x y z ∧ e.index x y z < 2 ^ 31 := by
  rcases inside.index_bounds with ⟨layer, row, first, last, -⟩
  rcases inside with ⟨⟨x_nonneg, x_lt⟩, ⟨y_nonneg, y_lt⟩, z_nonneg, z_lt⟩
  rw [getCoreNb, if_neg (by omega)]
  simp only [Fallible.bind_ok, int_ok]
  rw [index] at last ⊢
  constructor
  · rintro ⟨a, ⟨rfl, -⟩, b, ⟨rfl, -⟩, d, ⟨rfl, -⟩, rfl, -, small⟩
    exact ⟨rfl, small⟩
  · rintro ⟨rfl, small⟩
    exact ⟨_, ⟨rfl, by omega, by omega⟩, _, ⟨rfl, by omega, by omega⟩, _,
      ⟨rfl, by omega, by omega⟩, rfl, by omega, small⟩

/-- It does not refuse what passes its check. -/
theorem getCoreNb_passes (x_inside : 0 ≤ x ∧ x < e.coresInX) (y_inside : 0 ≤ y ∧ y < e.coresInY)
    (check : 0 ≤ z ∧ z < e.coresInX) : e.getCoreNb x y z ≠ .error .exit := by
  have operation (value : ℤ) : Ensures (fun _ => True) (· = Fault.undefined) (int value) := by
    rw [int]
    split_ifs
    · exact trivial
    · exact rfl
  have call : Ensures (fun _ => True) (· = Fault.undefined) (e.getCoreNb x y z) := by
    rw [getCoreNb, if_neg (by omega)]
    exact (operation _).bind fun _ _ => (operation _).bind fun _ _ =>
      (operation _).bind fun _ _ => operation _
  intro refused
  rw [refused] at call
  cases call

/-! ## The printout -/

theorem mem_coordinates {p : ℤ × ℤ × ℤ} : p ∈ e.coordinates ↔ e.Inside p.1 p.2.1 p.2.2 := by
  rcases p with ⟨x, y, z⟩
  simp only [coordinates, Inside, List.mem_flatMap, List.mem_map, List.mem_range, Prod.mk.injEq]
  constructor
  · rintro ⟨c, inZ, b, inY, a, inX, rfl, rfl, rfl⟩
    omega
  · rintro ⟨inX, inY, inZ⟩
    exact ⟨z.toNat, by omega, y.toNat, by omega, x.toNat, by omega, by omega, by omega, by omega⟩

theorem nodup_coordinates : e.coordinates.Nodup := by
  simp only [coordinates, List.nodup_flatMap, List.nodup_map_iff_inj_on List.nodup_range]
  refine ⟨fun z _ => ⟨fun y _ x _ x' _ same => ?_, ?_⟩, ?_⟩
  · exact Int.ofNat.inj (Prod.mk.inj same).1
  · refine List.nodup_range.imp fun {y y'} different => ?_
    simp only [Function.onFun, List.Disjoint, List.mem_map]
    rintro p ⟨x, -, rfl⟩ ⟨x', -, same⟩
    exact different (Int.ofNat.inj (Prod.mk.inj (Prod.mk.inj same).2).1).symm
  · refine List.nodup_range.imp fun {z z'} different => ?_
    simp only [Function.onFun, List.Disjoint, List.mem_flatMap, List.mem_map]
    rintro p ⟨y, -, x, -, rfl⟩ ⟨y', -, x', -, same⟩
    exact different (Int.ofNat.inj (Prod.mk.inj (Prod.mk.inj same).2).2).symm

/-- If no call fails, the printout has the number of every core. -/
theorem printout_eq (all : ∀ x y z, e.Inside x y z → e.getCoreNb x y z = .ok (e.index x y z)) :
    e.printout = .ok (e.coordinates.map fun p => e.index p.1 p.2.1 p.2.2) := by
  have each : ∀ l : List (ℤ × ℤ × ℤ), (∀ p ∈ l, e.Inside p.1 p.2.1 p.2.2) →
      (l.mapM fun (x, y, z) => e.getCoreNb x y z) =
        .ok (l.map fun p => e.index p.1 p.2.1 p.2.2) := by
    intro l
    induction l with
    | nil => exact fun _ => rfl
    | cons p l ih =>
      rcases p with ⟨x, y, z⟩
      intro inside
      rw [List.mapM_cons, ih fun q member => inside q (List.mem_cons_of_mem _ member)]
      simp only [all x y z (inside _ List.mem_cons_self), ok_bind, List.map_cons]
      rfl
  exact each _ fun p member => mem_coordinates.1 member

/-! ## The coordinates -/

/-- **When the coordinates number the cores.** The check is that of `coresInZ` if this is
`coresInX`. -/
theorem coordinatesExact_iff (e : Extents) :
    e.CoordinatesExact ↔ e.coresInX = e.coresInZ ∧ e.numberOfCores ≤ 2 ^ 31 := by
  have x_pos := e.coresInX_pos
  have y_pos := e.coresInY_pos
  have z_pos := e.coresInZ_pos
  constructor
  · rintro ⟨⟨maps, -, -⟩, refused, -⟩
    -- the layers behind the extent in which the check differs from that of the cores
    have same : e.coresInX = e.coresInZ := by
      rcases lt_trichotomy e.coresInX e.coresInZ with more | same | less
      · have above : e.Inside 0 0 e.coresInX := ⟨by omega, by omega, by omega⟩
        obtain ⟨c, -, numbered⟩ := maps (x := (0, 0, e.coresInX)) above
        simp [getCoreNb] at numbered
      · exact same
      · have exits := refused 0 0 e.coresInZ fun inside => absurd inside.2.2.2 (lt_irrefl _)
        exact absurd exits (getCoreNb_passes (by omega) (by omega) (by omega))
    refine ⟨same, ?_⟩
    have last : e.Inside (e.coresInX - 1) (e.coresInY - 1) (e.coresInZ - 1) := by
      simp only [Inside]
      omega
    obtain ⟨c, -, numbered⟩ := maps (x := (e.coresInX - 1, e.coresInY - 1, e.coresInZ - 1)) last
    have small := ((getCoreNb_inside last (by omega)).mp numbered.symm).2
    have number : e.index (e.coresInX - 1) (e.coresInY - 1) (e.coresInZ - 1) =
        e.numberOfCores - 1 := by
      rw [index, numberOfCores]
      ring
    omega
  · rintro ⟨same, small⟩
    have all : ∀ x y z, e.Inside x y z → e.getCoreNb x y z = .ok (e.index x y z) := by
      intro x y z inside
      refine (getCoreNb_inside inside (by rw [same]; exact inside.2.2.2)).mpr ⟨rfl, ?_⟩
      exact inside.index_bounds.2.2.2.2.trans_le small
    have differ : ∀ x y z x' y' z', e.Inside x y z → e.Inside x' y' z' →
        e.index x y z = e.index x' y' z' → (x, y, z) = (x', y', z') := by
      intro x y z x' y' z' inside inside' equal
      rcases inside.digits with ⟨hx, hy, hz⟩
      rcases inside'.digits with ⟨hx', hy', hz'⟩
      rw [equal] at hx hy hz
      rw [← hx, ← hy, ← hz, hx', hy', hz']
    refine ⟨⟨?_, ?_, ?_⟩, ?_, _, printout_eq all, ?_, fun c => ?_⟩
    · rintro ⟨x, y, z⟩ inside
      have bounds := Inside.index_bounds inside
      exact ⟨_, ⟨by omega, bounds.2.2.2.2⟩, (all _ _ _ inside).symm⟩
    · rintro ⟨x, y, z⟩ inside ⟨x', y', z'⟩ inside' equal
      refine differ _ _ _ _ _ _ inside inside' ?_
      simpa only [all _ _ _ inside, all _ _ _ inside', Except.ok.injEq] using equal
    · rintro _ ⟨c, ⟨nonneg, less⟩, rfl⟩
      obtain ⟨x, y, z, inside, rfl⟩ := exists_inside nonneg less
      exact ⟨(x, y, z), inside, all _ _ _ inside⟩
    · intro x y z outside
      rw [getCoreNb, if_pos]
      simp only [Inside] at outside
      omega
    · refine List.Nodup.map_on (fun p member q member' equal => ?_) nodup_coordinates
      exact differ _ _ _ _ _ _ (mem_coordinates.1 member) (mem_coordinates.1 member') equal
    · rw [List.mem_map]
      constructor
      · rintro ⟨p, member, rfl⟩
        have bounds := (mem_coordinates.1 member).index_bounds
        exact ⟨by omega, bounds.2.2.2.2⟩
      · rintro ⟨nonneg, less⟩
        obtain ⟨x, y, z, inside, rfl⟩ := exists_inside nonneg less
        exact ⟨(x, y, z), mem_coordinates.2 inside, rfl⟩

/-- A stack of two layers of one core: the upper one is refused. -/
theorem not_coordinatesExact_stack :
    ∃ e : Extents, e.coresInX = 1 ∧ e.coresInY = 1 ∧ e.coresInZ = 2 ∧
      e.getCoreNb 0 0 1 = .error .exit ∧ e.printout = .error .exit ∧ ¬e.CoordinatesExact := by
  refine ⟨⟨1, 1, 2, by decide, by decide, by decide, by decide⟩, rfl, rfl, rfl, rfl, rfl, ?_⟩
  rintro ⟨-, -, cores, printed, -⟩
  cases printed

end Extents

end GpuHotSpot.Common.Open
