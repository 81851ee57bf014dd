import Mathlib.Combinatorics.SimpleGraph.CycleGraph
import Mathlib.Combinatorics.SimpleGraph.Hasse
import Mathlib.Combinatorics.SimpleGraph.Metric
import Mathlib.Combinatorics.SimpleGraph.Prod
import Mathlib.Data.Nat.Dist

/-!
# Distances in grids and tori

Distances in a line, in a ring, and in the products of two of them, as numbers.

* `dist_eq_of_descent`: a function of the vertices is the distance to a vertex when an edge changes
  it by at most one and every other vertex has an edge on which it goes down.
* `dist_pathGraph`, `dist_cycleGraph`: the distance in a line is the difference of the positions,
  in a ring the shorter of the two ways.
* `dist_grid`: the sum of the two axes.
-/

namespace GpuHotSpot.Grid

open SimpleGraph

/-! ## Potentials -/

section Potential

variable {V : Type*} {G : SimpleGraph V} {target : V} {d : V → ℕ}

/-- A walk is no shorter than what the potential loses on it. -/
theorem le_length_of_lipschitz (lipschitz : ∀ a b, G.Adj a b → d a ≤ d b + 1) {a b : V}
    (walk : G.Walk a b) : d a ≤ d b + walk.length := by
  induction walk with
  | nil => exact Nat.le_add_right _ _
  | cons edge rest ih =>
    rw [Walk.length_cons]
    have here := lipschitz _ _ edge
    omega

/-- Where the potential can go down by one, it leads to the target in that many edges. -/
theorem exists_walk_of_descent (descent : ∀ a, a ≠ target → ∃ b, G.Adj a b ∧ d a = d b + 1)
    (a : V) : ∃ walk : G.Walk a target, walk.length ≤ d a := by
  induction left : d a generalizing a with
  | zero =>
    by_cases arrived : a = target
    · subst arrived
      exact ⟨.nil, le_rfl⟩
    · obtain ⟨b, -, down⟩ := descent a arrived
      omega
  | succ n ih =>
    by_cases arrived : a = target
    · subst arrived
      exact ⟨.nil, Nat.zero_le _⟩
    · obtain ⟨b, edge, down⟩ := descent a arrived
      obtain ⟨rest, short⟩ := ih b (by omega)
      exact ⟨.cons edge rest, by rw [Walk.length_cons]; omega⟩

/-- **Distance by descent.** -/
theorem dist_eq_of_descent (zero : d target = 0) (lipschitz : ∀ a b, G.Adj a b → d a ≤ d b + 1)
    (descent : ∀ a, a ≠ target → ∃ b, G.Adj a b ∧ d a = d b + 1) (a : V) :
    G.dist a target = d a := by
  obtain ⟨walk, short⟩ := exists_walk_of_descent descent a
  obtain ⟨shortest, length⟩ := walk.reachable.exists_walk_length_eq_dist
  have lower := le_length_of_lipschitz lipschitz shortest
  have upper := dist_le walk
  omega

end Potential

/-! ## Lines and rings -/

/-- The shorter of the two ways round a ring of `n` positions. -/
def ringDist (n a b : ℕ) : ℕ := min (Nat.dist a b) (n - Nat.dist a b)

theorem dist_pathGraph {n : ℕ} (a b : Fin n) : (pathGraph n).dist a b = Nat.dist a b := by
  refine dist_eq_of_descent (d := fun c : Fin n => Nat.dist c b) ?_ ?_ ?_ a
  · simp only [Nat.dist]
    omega
  · intro c c' edge
    rw [pathGraph_adj] at edge
    simp only [Nat.dist]
    omega
  · intro c apart
    have differ : (c : ℕ) ≠ b := fun same => apart (Fin.ext same)
    have inC := c.isLt
    have inB := b.isLt
    simp only [pathGraph_adj, Nat.dist]
    by_cases below : (c : ℕ) < b
    · exact ⟨⟨c + 1, by omega⟩, .inl rfl, by simp only; omega⟩
    · exact ⟨⟨c - 1, by omega⟩, .inr (by simp only; omega), by simp only; omega⟩

/-- Neighbours in a ring follow each other, or are its two ends. -/
theorem cycleGraph_adj_iff {n : ℕ} (u v : Fin n) :
    (cycleGraph n).Adj u v ↔ (u : ℕ) ≠ v ∧
      ((u : ℕ) + 1 = v ∨ (v : ℕ) + 1 = u ∨ (u : ℕ) + 1 = n ∧ (v : ℕ) = 0 ∨
        (v : ℕ) + 1 = n ∧ (u : ℕ) = 0) := by
  have inU := u.isLt
  have inV := v.isLt
  rw [cycleGraph_adj']
  rcases lt_trichotomy u v with below | same | above
  · rw [Fin.coe_sub_iff_lt.mpr below, Fin.coe_sub_iff_le.mpr below.le]
    have below' : (u : ℕ) < v := below
    omega
  · rw [same, Fin.coe_sub_iff_le.mpr le_rfl]
    omega
  · rw [Fin.coe_sub_iff_le.mpr above.le, Fin.coe_sub_iff_lt.mpr above]
    have above' : (v : ℕ) < u := above
    omega

theorem dist_cycleGraph {n : ℕ} (a b : Fin n) : (cycleGraph n).dist a b = ringDist n a b := by
  have inB := b.isLt
  refine dist_eq_of_descent (d := fun c : Fin n => ringDist n c b) ?_ ?_ ?_ a
  · simp only [ringDist, Nat.dist]
    omega
  · intro c c' edge
    rw [cycleGraph_adj_iff] at edge
    have inC := c.isLt
    have inC' := c'.isLt
    simp only [ringDist, Nat.dist]
    omega
  · intro c apart
    have differ : (c : ℕ) ≠ b := fun same => apart (Fin.ext same)
    have inC := c.isLt
    simp only [cycleGraph_adj_iff, ringDist, Nat.dist]
    -- the way that does not pass the ends is the shorter one, or the other way is
    by_cases inside : 2 * Nat.dist c b ≤ n
    · simp only [Nat.dist] at inside
      by_cases below : (c : ℕ) < b
      · exact ⟨⟨c + 1, by omega⟩, by dsimp only; omega, by dsimp only; omega⟩
      · exact ⟨⟨c - 1, by omega⟩, by dsimp only; omega, by dsimp only; omega⟩
    · simp only [Nat.dist] at inside
      by_cases below : (c : ℕ) < b
      · by_cases first : (c : ℕ) = 0
        · exact ⟨⟨n - 1, by omega⟩, by dsimp only; omega, by dsimp only; omega⟩
        · exact ⟨⟨c - 1, by omega⟩, by dsimp only; omega, by dsimp only; omega⟩
      · by_cases last : (c : ℕ) + 1 = n
        · exact ⟨⟨0, by omega⟩, by dsimp only; omega, by dsimp only; omega⟩
        · exact ⟨⟨c + 1, by omega⟩, by dsimp only; omega, by dsimp only; omega⟩

/-! ## Products -/

/-- A grid of `w` by `h` positions; with wrap-around links, a torus. -/
def grid (wrap : Bool) (w h : ℕ) : SimpleGraph (Fin w × Fin h) :=
  if wrap then cycleGraph w □ cycleGraph h else pathGraph w □ pathGraph h

/-- The distance along one axis. -/
def axisDist (wrap : Bool) (n a b : ℕ) : ℕ := if wrap then ringDist n a b else Nat.dist a b

theorem dist_boxProd {α β : Type*} {G : SimpleGraph α} {H : SimpleGraph β}
    (connected : G.Preconnected) (connected' : H.Preconnected) (x y : α × β) :
    (G □ H).dist x y = G.dist x.1 y.1 + H.dist x.2 y.2 := by
  have first := edist_ne_top_iff_reachable.mpr (connected x.1 y.1)
  have second := edist_ne_top_iff_reachable.mpr (connected' x.2 y.2)
  simp only [SimpleGraph.dist, edist_boxProd]
  exact ENat.toNat_add first second

theorem dist_grid (wrap : Bool) {w h : ℕ} (a b : Fin w × Fin h) :
    (grid wrap w h).dist a b = axisDist wrap w a.1 b.1 + axisDist wrap h a.2 b.2 := by
  cases wrap with
  | false =>
    simp only [grid, axisDist, Bool.false_eq_true, if_false]
    rw [dist_boxProd (pathGraph_preconnected w) (pathGraph_preconnected h), dist_pathGraph,
      dist_pathGraph]
  | true =>
    simp only [grid, axisDist, if_true]
    rw [dist_boxProd cycleGraph_preconnected cycleGraph_preconnected, dist_cycleGraph,
      dist_cycleGraph]

end GpuHotSpot.Grid
