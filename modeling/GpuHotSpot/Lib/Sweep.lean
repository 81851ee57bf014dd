import Mathlib.Algebra.Order.Group.Abs
import Mathlib.Data.List.Nodup
import Mathlib.Logic.Function.Basic

/-!
# Sweeps

A sweep updates the values of some nodes one after the other and in place: a later
node sees the new values of the earlier ones. It also returns the largest change.

* `sweep_eq_iff`: a sweep changes nothing if and only if every node's equation holds.
-/

namespace GpuHotSpot

variable {N K : Type*} [DecidableEq N] [AddCommGroup K] [LinearOrder K]

/-- One update per node, with the largest change so far. -/
def sweepFrom (update : (N → K) → N → K) : List N → (N → K) → K → (N → K) × K
  | [], v, change => (v, change)
  | x :: nodes, v, change =>
    sweepFrom update nodes (Function.update v x (update v x)) (max change |v x - update v x|)

def sweep (update : (N → K) → N → K) (nodes : List N) (v : N → K) : (N → K) × K :=
  sweepFrom update nodes v 0

variable {update : (N → K) → N → K} {nodes : List N} {v : N → K} {change : K} {x : N}

/-- A sweep leaves the nodes that are not its own. -/
theorem sweepFrom_of_notMem (other : x ∉ nodes) : (sweepFrom update nodes v change).1 x = v x := by
  induction nodes generalizing v change with
  | nil => rfl
  | cons y nodes ih =>
    rw [List.mem_cons, not_or] at other
    rw [sweepFrom, ih other.2, Function.update_of_ne other.1]

theorem sweepFrom_eq_iff (distinct : nodes.Nodup) :
    (sweepFrom update nodes v change).1 = v ↔ ∀ x ∈ nodes, update v x = v x := by
  induction nodes generalizing change with
  | nil => simp [sweepFrom]
  | cons x nodes ih =>
    obtain ⟨other, rest⟩ := List.nodup_cons.mp distinct
    rw [List.forall_mem_cons]
    constructor
    · intro fixed
      -- the node that is updated first keeps its new value to the end
      have kept : (sweepFrom update (x :: nodes) v change).1 x = update v x := by
        rw [sweepFrom, sweepFrom_of_notMem other, Function.update_self]
      have same : update v x = v x := kept.symm.trans (congrFun fixed x)
      refine ⟨same, ?_⟩
      rw [sweepFrom, same, Function.update_eq_self] at fixed
      exact (ih rest).mp fixed
    · rintro ⟨same, later⟩
      rw [sweepFrom, same, Function.update_eq_self]
      exact (ih rest).mpr later

/-- **Fixed points.** A sweep over distinct nodes changes nothing if and only if every node already
has the value that the update gives it. -/
theorem sweep_eq_iff (distinct : nodes.Nodup) :
    (sweep update nodes v).1 = v ↔ ∀ x ∈ nodes, update v x = v x :=
  sweepFrom_eq_iff distinct

end GpuHotSpot
