import Mathlib.Algebra.BigOperators.Group.Finset.Basic
import Mathlib.Algebra.BigOperators.Group.Finset.Sigma
import Mathlib.Algebra.BigOperators.Ring.Finset
import Mathlib.Tactic.FieldSimp
import Mathlib.Tactic.LinearCombination
import Mathlib.Tactic.Positivity
import Mathlib.Tactic.Ring

/-!
# Flow networks

Places with ways between them, where every way has a way back. Each place sees the flow from
its neighbours through conductances of its own.

* `sumWays_back`: a sum over all ways is one over the ways back.
* `sum_flow`: what the flows into all places add up to.
* `sum_flow_of_reciprocal`: flows through conductances that are the same both ways cancel.
* `exists_chain`: nodes in a chain, each with an inflow and a conductance to ground, settle.
-/

namespace GpuHotSpot

/-- Places, and the ways from each of them to other places. -/
structure FlowNetwork (N W : Type*) where
  places : Finset N
  next : W → N → Option N
  back : W → W
  back_back : ∀ way, back (back way) = way
  next_back : ∀ way, ∀ a ∈ places, ∀ b, next way a = some b → b ∈ places ∧ next (back way) b = some a

namespace FlowNetwork

variable {N W K : Type*} [Fintype W] (net : FlowNetwork N W)

/-- A sum over the ways from each place. -/
def sumWays [AddCommMonoid K] (f : W → N → N → K) : K :=
  ∑ a ∈ net.places, ∑ way, (net.next way a).elim 0 (f way a)

/-- **Ways back.** Each way can be counted where it ends instead of where it starts. -/
theorem sumWays_back [AddCommMonoid K] (f : W → N → N → K) :
    net.sumWays f = net.sumWays fun way a b => f (net.back way) b a := by
  classical
  have ends : ∀ (g : W → N → N → K) way, ∀ a ∈ net.places, (net.next way a).elim 0 (g way a) =
      ∑ b ∈ net.places, if net.next way a = some b then g way a b else 0 := by
    intro g way a member
    cases adjacent : net.next way a with
    | none => simp
    | some b =>
      have inside := (net.next_back way a member b adjacent).1
      simp [inside]
  have spread : ∀ g : W → N → N → K, net.sumWays g = ∑ way, ∑ a ∈ net.places, ∑ b ∈ net.places,
      if net.next way a = some b then g way a b else 0 := by
    intro g
    rw [sumWays, Finset.sum_comm]
    exact Finset.sum_congr rfl fun way _ => Finset.sum_congr rfl fun a member => ends g way a member
  rw [spread, spread, ← Equiv.sum_comp (Function.Involutive.toPerm net.back net.back_back)]
  refine Finset.sum_congr rfl fun way _ => ?_
  rw [Finset.sum_comm]
  refine Finset.sum_congr rfl fun b inside => Finset.sum_congr rfl fun a member => ?_
  have both : net.next (net.back way) a = some b ↔ net.next way b = some a := by
    constructor
    · intro adjacent
      simpa only [net.back_back] using (net.next_back _ a member b adjacent).2
    · intro adjacent
      exact (net.next_back _ b inside a adjacent).2
  exact if_congr both rfl rfl

/-- What a place gets more through the ways that lead to it than its neighbours give. -/
def excess [AddCommGroup K] (g : W → N → N → K) (a : N) : K :=
  ∑ way, (net.next way a).elim 0 fun b => g (net.back way) b a - g way a b

/-- **All flows.** The flows from the neighbours, driven by a difference of the values `v` through
the conductances `g`, add up to the values weighted by what the conductances differ both ways. -/
theorem sum_flow [CommRing K] (g : W → N → N → K) (v : N → K) :
    net.sumWays (fun way a b => (v b - v a) * g way a b) =
      ∑ a ∈ net.places, v a * net.excess g a := by
  have parts : net.sumWays (fun way a b => (v b - v a) * g way a b) =
      net.sumWays (fun way a b => v b * g way a b) -
        net.sumWays (fun way a b => v a * g way a b) := by
    simp only [sumWays, ← Finset.sum_sub_distrib]
    refine Finset.sum_congr rfl fun a _ => Finset.sum_congr rfl fun way _ => ?_
    cases net.next way a <;> simp only [Option.elim_none, Option.elim_some] <;> ring
  rw [parts, sumWays_back, sumWays, sumWays, ← Finset.sum_sub_distrib]
  refine Finset.sum_congr rfl fun a _ => ?_
  rw [excess, Finset.mul_sum, ← Finset.sum_sub_distrib]
  refine Finset.sum_congr rfl fun way _ => ?_
  cases net.next way a <;> simp only [Option.elim_none, Option.elim_some] <;> ring

/-- The conductances are the same both ways. -/
def Reciprocal (g : W → N → N → K) : Prop :=
  ∀ a ∈ net.places, ∀ way b, net.next way a = some b → g (net.back way) b a = g way a b

theorem excess_eq_zero [AddCommGroup K] {g : W → N → N → K} (reciprocal : net.Reciprocal g)
    {a : N} (member : a ∈ net.places) : net.excess g a = 0 := by
  refine Finset.sum_eq_zero fun way _ => ?_
  cases adjacent : net.next way a with
  | none => rfl
  | some b => exact sub_eq_zero.mpr (reciprocal a member way b adjacent)

/-- Flows between the places cancel if the conductances are the same both ways. -/
theorem sum_flow_of_reciprocal [CommRing K] {g : W → N → N → K} (reciprocal : net.Reciprocal g)
    (v : N → K) : net.sumWays (fun way a b => (v b - v a) * g way a b) = 0 := by
  rw [sum_flow]
  exact Finset.sum_eq_zero fun a member => by rw [net.excess_eq_zero reciprocal member, mul_zero]

end FlowNetwork

/-! ## Chains -/

section Chains

variable {K : Type*} [Field K] [LinearOrder K] [IsStrictOrderedRing K]

/-- A node with the inflow `s` and the conductance `g` to ground settles next to a neighbour of any
value `y`. For the neighbour the node is such an inflow and conductance itself. -/
theorem exists_settled (s : K) {g link : K} (ground : 0 < g) (linked : 0 < link) :
    ∃ s' g', 0 < g' ∧ ∀ y, ∃ x, s - g * x + link * (y - x) = 0 ∧ link * (x - y) = s' - g' * y := by
  have whole : 0 < g + link := add_pos ground linked
  refine ⟨link * s / (g + link), link * g / (g + link), by positivity, fun y => ?_⟩
  refine ⟨(s + link * y) / (g + link), ?_, ?_⟩
  · field_simp
    ring
  · field_simp
    ring

/-- Three nodes in a chain settle together. -/
theorem exists_chain (s₁ s₂ s₃ : K) {g₁ g₂ g₃ link₁ link₂ : K} (ground₁ : 0 < g₁) (ground₂ : 0 < g₂)
    (ground₃ : 0 < g₃) (linked₁ : 0 < link₁) (linked₂ : 0 < link₂) :
    ∃ x₁ x₂ x₃, s₁ - g₁ * x₁ + link₁ * (x₂ - x₁) = 0 ∧
      s₂ - g₂ * x₂ + link₁ * (x₁ - x₂) + link₂ * (x₃ - x₂) = 0 ∧
      s₃ - g₃ * x₃ + link₂ * (x₂ - x₃) = 0 := by
  obtain ⟨t₁, h₁, pos₁, first⟩ := exists_settled s₁ ground₁ linked₁
  obtain ⟨t₃, h₃, pos₃, last⟩ := exists_settled s₃ ground₃ linked₂
  have middle := mul_div_cancel₀ (s₂ + t₁ + t₃) (add_pos (add_pos ground₂ pos₁) pos₃).ne'
  obtain ⟨x₁, settled₁, flow₁⟩ := first ((s₂ + t₁ + t₃) / (g₂ + h₁ + h₃))
  obtain ⟨x₃, settled₃, flow₃⟩ := last ((s₂ + t₁ + t₃) / (g₂ + h₁ + h₃))
  refine ⟨x₁, _, x₃, settled₁, ?_, settled₃⟩
  linear_combination flow₁ + flow₃ - middle

/-- Four nodes in a chain settle together. -/
theorem exists_chain₄ (s₁ s₂ s₃ s₄ : K) {g₁ g₂ g₃ g₄ link₁ link₂ link₃ : K} (ground₁ : 0 < g₁)
    (ground₂ : 0 < g₂) (ground₃ : 0 < g₃) (ground₄ : 0 < g₄) (linked₁ : 0 < link₁)
    (linked₂ : 0 < link₂) (linked₃ : 0 < link₃) :
    ∃ x₁ x₂ x₃ x₄, s₁ - g₁ * x₁ + link₁ * (x₂ - x₁) = 0 ∧
      s₂ - g₂ * x₂ + link₁ * (x₁ - x₂) + link₂ * (x₃ - x₂) = 0 ∧
      s₃ - g₃ * x₃ + link₂ * (x₂ - x₃) + link₃ * (x₄ - x₃) = 0 ∧
      s₄ - g₄ * x₄ + link₃ * (x₃ - x₄) = 0 := by
  obtain ⟨t₁, h₁, pos₁, first⟩ := exists_settled s₁ ground₁ linked₁
  obtain ⟨x₂, x₃, x₄, settled₂, settled₃, settled₄⟩ :=
    exists_chain (s₂ + t₁) s₃ s₄ (add_pos ground₂ pos₁) ground₃ ground₄ linked₂ linked₃
  obtain ⟨x₁, settled₁, flow₁⟩ := first x₂
  refine ⟨x₁, x₂, x₃, x₄, settled₁, ?_, settled₃, settled₄⟩
  linear_combination settled₂ + flow₁

end Chains

end GpuHotSpot
