import Mathlib.Algebra.Order.Field.Basic
import Mathlib.Algebra.Order.Group.Defs
import Mathlib.Algebra.Order.Group.Unbundled.Basic
import Mathlib.Algebra.Order.Group.MinMax
import Mathlib.Data.List.Basic
import Mathlib.Data.List.Pairwise
import Mathlib.Tactic.Abel
import Mathlib.Tactic.Linarith

/-!
# Tilings of a rectangle

Rectangles with sides along the axes, and lists of rectangles that tile one: they cover it
exactly and no point lies strictly inside two of them.

* `Tiles.perm`, `Tiles.refine_all`: the order of the parts, and parts tiled in their turn.
* `Tiles.map`: the tiling moved, mirrored or turned.
* `Tiles.bounds`: a part lies between the sides of the rectangle.
* `tiles_columns`, `tiles_rows`: a rectangle cut in two.
* `Rect.not_apart`: when rectangles overlap.
-/

namespace GpuHotSpot

/-- A rectangle by its lower left corner and its size. -/
@[ext] structure Rect (K : Type) where
  leftx : K
  bottomy : K
  width : K
  height : K
  deriving DecidableEq, Repr

variable {K : Type} [AddCommGroup K] [LinearOrder K]

namespace Rect

/-- The points of the rectangle, sides included. -/
def Contains (r : Rect K) (x y : K) : Prop :=
  r.leftx ≤ x ∧ x ≤ r.leftx + r.width ∧ r.bottomy ≤ y ∧ y ≤ r.bottomy + r.height

/-- The points strictly inside. -/
def Inside (r : Rect K) (x y : K) : Prop :=
  r.leftx < x ∧ x < r.leftx + r.width ∧ r.bottomy < y ∧ y < r.bottomy + r.height

/-- No point lies strictly inside both. -/
def Apart (a b : Rect K) : Prop := ∀ x y, ¬ (a.Inside x y ∧ b.Inside x y)

/-- The rectangle moved. -/
def shift (r : Rect K) (dx dy : K) : Rect K :=
  ⟨r.leftx + dx, r.bottomy + dy, r.width, r.height⟩

/-- The rectangle after a quarter turn about the origin, counterclockwise. -/
def turn (r : Rect K) : Rect K := ⟨-(r.bottomy + r.height), r.leftx, r.height, r.width⟩

/-- The rectangle mirrored along the diagonal. -/
def transpose (r : Rect K) : Rect K := ⟨r.bottomy, r.leftx, r.height, r.width⟩

theorem contains_transpose {r : Rect K} {x y : K} : r.transpose.Contains x y ↔ r.Contains y x := by
  simp only [Contains, transpose]
  tauto

theorem inside_transpose {r : Rect K} {x y : K} : r.transpose.Inside x y ↔ r.Inside y x := by
  simp only [Inside, transpose]
  tauto

theorem Apart.symm {a b : Rect K} (apart : a.Apart b) : b.Apart a :=
  fun x y both => apart x y both.symm

end Rect

open Rect

/-- The parts have sizes, do not overlap, and cover the rectangle exactly. -/
structure Tiles (r : Rect K) (parts : List (Rect K)) : Prop where
  nonneg : ∀ q ∈ parts, 0 ≤ q.width ∧ 0 ≤ q.height
  apart : parts.Pairwise Apart
  covers : ∀ x y, r.Contains x y ↔ ∃ q ∈ parts, q.Contains x y

variable {r a : Rect K} {parts rest : List (Rect K)}

theorem tiles_self (width : 0 ≤ r.width) (height : 0 ≤ r.height) : Tiles r [r] where
  nonneg q member := by
    obtain rfl := List.mem_singleton.mp member
    exact ⟨width, height⟩
  apart := List.pairwise_singleton _ _
  covers x y := by simp

theorem Tiles.perm (tiles : Tiles r parts) (perm : parts.Perm rest) : Tiles r rest where
  nonneg q member := tiles.nonneg q (perm.mem_iff.mpr member)
  apart := (perm.pairwise_iff fun apart => apart.symm).mp tiles.apart
  covers x y := by
    rw [tiles.covers]
    exact exists_congr fun q => and_congr_left fun _ => perm.mem_iff

/-- Parts that are all moved in one way tile the rectangle moved so. -/
theorem Tiles.map (tiles : Tiles r parts) (f : Rect K → Rect K) (gx gy : K → K → K)
    (nonneg : ∀ q : Rect K, 0 ≤ q.width ∧ 0 ≤ q.height → 0 ≤ (f q).width ∧ 0 ≤ (f q).height)
    (contains : ∀ q x y, (f q).Contains x y ↔ q.Contains (gx x y) (gy x y))
    (inside : ∀ q x y, (f q).Inside x y ↔ q.Inside (gx x y) (gy x y)) :
    Tiles (f r) (parts.map f) where
  nonneg q member := by
    obtain ⟨p, part, rfl⟩ := List.mem_map.mp member
    exact nonneg p (tiles.nonneg p part)
  apart := by
    refine List.pairwise_map.mpr (tiles.apart.imp fun apart x y both => ?_)
    exact apart _ _ ⟨(inside _ x y).mp both.1, (inside _ x y).mp both.2⟩
  covers x y := by
    simp only [contains, tiles.covers, List.mem_map, exists_exists_and_eq_and]

/-- The mirrored parts tile the mirrored rectangle. -/
theorem Tiles.transpose (tiles : Tiles r parts) : Tiles r.transpose (parts.map Rect.transpose) :=
  tiles.map Rect.transpose (fun _ y => y) (fun x _ => x) (fun _ nonneg => nonneg.symm)
    (fun _ _ _ => contains_transpose) fun _ _ _ => inside_transpose

variable [IsOrderedAddMonoid K]

/-- A part lies between the sides of the rectangle. -/
theorem Tiles.bounds (tiles : Tiles r parts) (part : a ∈ parts) :
    r.leftx ≤ a.leftx ∧ a.leftx + a.width ≤ r.leftx + r.width ∧
      r.bottomy ≤ a.bottomy ∧ a.bottomy + a.height ≤ r.bottomy + r.height := by
  obtain ⟨width, height⟩ := tiles.nonneg a part
  have lower : r.Contains a.leftx a.bottomy := (tiles.covers _ _).mpr
    ⟨a, part, le_rfl, le_add_of_nonneg_right width, le_rfl, le_add_of_nonneg_right height⟩
  have upper : r.Contains (a.leftx + a.width) (a.bottomy + a.height) := (tiles.covers _ _).mpr
    ⟨a, part, le_add_of_nonneg_right width, le_rfl, le_add_of_nonneg_right height, le_rfl⟩
  exact ⟨lower.1, upper.2.1, lower.2.2.1, upper.2.2.2⟩

/-- A part lies in the rectangle, so what is inside the part is inside the rectangle. -/
theorem Tiles.inside (tiles : Tiles r parts) (part : a ∈ parts) {x y : K} (inside : a.Inside x y) :
    r.Inside x y := by
  obtain ⟨leftOf, rightOf, below, above⟩ := tiles.bounds part
  obtain ⟨left, right, bottom, top⟩ := inside
  exact ⟨leftOf.trans_lt left, right.trans_le rightOf, below.trans_lt bottom, top.trans_le above⟩

/-- **Refinement.** A part may be replaced by a tiling of it. -/
theorem Tiles.refine (tiles : Tiles r (a :: rest)) (finer : Tiles a parts) :
    Tiles r (parts ++ rest) where
  nonneg q member := by
    rcases List.mem_append.mp member with inner | outer
    · exact finer.nonneg q inner
    · exact tiles.nonneg q (List.mem_cons_of_mem _ outer)
  apart := by
    obtain ⟨first, others⟩ := List.pairwise_cons.mp tiles.apart
    refine List.pairwise_append.mpr ⟨finer.apart, others, fun p inner q outer x y both => ?_⟩
    exact first q outer x y ⟨finer.inside inner both.1, both.2⟩
  covers x y := by
    simp only [tiles.covers, List.mem_cons, List.mem_append, or_and_right, exists_or,
      exists_eq_left, finer.covers]

theorem Tiles.refine_rest {finer : List (List (Rect K))} (tiles : Tiles r (parts ++ rest))
    (each : List.Forall₂ Tiles rest finer) : Tiles r (parts ++ finer.flatten) := by
  induction each generalizing parts with
  | nil => simpa using tiles
  | @cons a pieces rest finer first _ ih =>
    have front := (tiles.perm List.perm_middle).refine first
    rw [← List.append_assoc] at front
    have next := ih (front.perm (List.perm_append_comm.append_right rest))
    rwa [List.append_assoc, ← List.flatten_cons] at next

/-- **Refinement of all parts.** -/
theorem Tiles.refine_all {finer : List (List (Rect K))} (tiles : Tiles r parts)
    (each : List.Forall₂ Tiles parts finer) : Tiles r finer.flatten := by
  have whole : Tiles r ([] ++ parts) := tiles
  exact whole.refine_rest each

theorem Tiles.shift (tiles : Tiles r parts) (dx dy : K) :
    Tiles (r.shift dx dy) (parts.map fun q => q.shift dx dy) := by
  refine tiles.map (fun q => q.shift dx dy) (fun x _ => x - dx) (fun _ y => y - dy)
    (fun _ nonneg => nonneg) (fun q x y => ?_) fun q x y => ?_
  · simp only [Contains, Rect.shift, le_sub_iff_add_le, sub_le_iff_le_add, add_right_comm]
  · simp only [Inside, Rect.shift, lt_sub_iff_add_lt, sub_lt_iff_lt_add, add_right_comm]

theorem Tiles.turn (tiles : Tiles r parts) : Tiles r.turn (parts.map Rect.turn) := by
  have top : ∀ b h : K, -(b + h) + h = -b := by
    intro b h
    abel
  refine tiles.map Rect.turn (fun _ y => y) (fun x _ => -x) (fun _ nonneg => nonneg.symm)
    (fun q x y => ?_) fun q x y => ?_
  · simp only [Contains, Rect.turn, top, neg_le (a := q.bottomy + q.height), le_neg (b := q.bottomy)]
    tauto
  · simp only [Inside, Rect.turn, top, neg_lt (a := q.bottomy + q.height), lt_neg (b := q.bottomy)]
    tauto

omit [LinearOrder K] [IsOrderedAddMonoid K] in
/-- A quarter turn four times over. -/
theorem Rect.turn_turn (r : Rect K) : r.turn.turn.turn.turn = r := by
  have back : ∀ b h : K, -(-(b + h) + h) = b := by
    intro b h
    abel
  simp only [Rect.turn, back]

theorem Tiles.of_turn (tiles : Tiles r.turn (parts.map Rect.turn)) : Tiles r parts := by
  have whole := tiles.turn.turn.turn
  simp only [List.map_map] at whole
  rw [Rect.turn_turn] at whole
  have same : (Rect.turn ∘ Rect.turn ∘ Rect.turn ∘ Rect.turn : Rect K → Rect K) = id :=
    funext Rect.turn_turn
  rwa [same, List.map_id] at whole

/-- A cut from the bottom to the top. -/
theorem tiles_columns {x y w w' h : K} (left : 0 ≤ w) (right : 0 ≤ w') (height : 0 ≤ h) :
    Tiles ⟨x, y, w + w', h⟩ [⟨x, y, w, h⟩, ⟨x + w, y, w', h⟩] where
  nonneg q member := by
    rcases List.mem_pair.mp member with rfl | rfl
    · exact ⟨left, height⟩
    · exact ⟨right, height⟩
  apart := List.pairwise_pair.mpr fun _ _ both => lt_asymm both.1.2.1 both.2.1
  covers px py := by
    simp only [List.mem_cons, List.not_mem_nil, or_false, exists_eq_or_imp, exists_eq_left,
      Contains, ← add_assoc]
    constructor
    · intro inside
      rcases le_total px (x + w) with before | after
      · exact Or.inl ⟨inside.1, before, inside.2.2⟩
      · exact Or.inr ⟨after, inside.2⟩
    · rintro (inside | inside)
      · exact ⟨inside.1, inside.2.1.trans (le_add_of_nonneg_right right), inside.2.2⟩
      · exact ⟨(le_add_of_nonneg_right left).trans inside.1, inside.2⟩

/-- A cut from the left to the right. -/
theorem tiles_rows {x y w h h' : K} (width : 0 ≤ w) (bottom : 0 ≤ h) (top : 0 ≤ h') :
    Tiles ⟨x, y, w, h + h'⟩ [⟨x, y, w, h⟩, ⟨x, y + h, w, h'⟩] where
  nonneg q member := by
    rcases List.mem_pair.mp member with rfl | rfl
    · exact ⟨width, bottom⟩
    · exact ⟨width, top⟩
  apart := List.pairwise_pair.mpr fun _ _ both => lt_asymm both.1.2.2.2 both.2.2.2.1
  covers px py := by
    simp only [List.mem_cons, List.not_mem_nil, or_false, exists_eq_or_imp, exists_eq_left,
      Contains, ← add_assoc]
    constructor
    · intro inside
      rcases le_total py (y + h) with before | after
      · exact Or.inl ⟨inside.1, inside.2.1, inside.2.2.1, before⟩
      · exact Or.inr ⟨inside.1, inside.2.1, after, inside.2.2.2⟩
    · rintro (inside | inside)
      · exact ⟨inside.1, inside.2.1, inside.2.2.1,
          inside.2.2.2.trans (le_add_of_nonneg_right top)⟩
      · exact ⟨inside.1, inside.2.1, (le_add_of_nonneg_right bottom).trans inside.2.2.1,
          inside.2.2.2⟩

/-! ## Overlaps -/

/-- One rectangle lies in the other. -/
def Rect.Within (a b : Rect K) : Prop :=
  b.leftx ≤ a.leftx ∧ a.leftx + a.width ≤ b.leftx + b.width ∧
    b.bottomy ≤ a.bottomy ∧ a.bottomy + a.height ≤ b.bottomy + b.height

omit [IsOrderedAddMonoid K] in
/-- Distinct parts are apart. -/
theorem Tiles.apart_of_ne {b : Rect K} (tiles : Tiles r parts) (aPart : a ∈ parts)
    (bPart : b ∈ parts) (other : a ≠ b) : a.Apart b := by
  have : Std.Symm (Rect.Apart (K := K)) := ⟨fun _ _ => Rect.Apart.symm⟩
  exact tiles.apart.forall aPart bPart other

section Field

variable {K : Type} [Field K] [LinearOrder K] [IsStrictOrderedRing K]

/-- Rectangles of which each begins before the other ends, on both axes, overlap. -/
theorem Rect.not_apart {a b : Rect K} (aPos : 0 < a.width ∧ 0 < a.height)
    (bPos : 0 < b.width ∧ 0 < b.height) (leftRight : a.leftx < b.leftx + b.width)
    (rightLeft : b.leftx < a.leftx + a.width) (downUp : a.bottomy < b.bottomy + b.height)
    (upDown : b.bottomy < a.bottomy + a.height) : ¬a.Apart b := by
  have across : max a.leftx b.leftx < min (a.leftx + a.width) (b.leftx + b.width) :=
    lt_min (max_lt (by linarith [aPos.1]) rightLeft) (max_lt leftRight (by linarith [bPos.1]))
  have along : max a.bottomy b.bottomy < min (a.bottomy + a.height) (b.bottomy + b.height) :=
    lt_min (max_lt (by linarith [aPos.2]) upDown) (max_lt downUp (by linarith [bPos.2]))
  obtain ⟨x, afterX, beforeX⟩ := exists_between across
  obtain ⟨y, afterY, beforeY⟩ := exists_between along
  obtain ⟨aLeft, bLeft⟩ := max_lt_iff.mp afterX
  obtain ⟨aRight, bRight⟩ := lt_min_iff.mp beforeX
  obtain ⟨aBottom, bBottom⟩ := max_lt_iff.mp afterY
  obtain ⟨aTop, bTop⟩ := lt_min_iff.mp beforeY
  exact fun apart => apart x y ⟨⟨aLeft, aRight, aBottom, aTop⟩, bLeft, bRight, bBottom, bTop⟩

/-- All parts have positive sizes. -/
def Positive (parts : List (Rect K)) : Prop := ∀ q ∈ parts, 0 < q.width ∧ 0 < q.height

/-- Rectangles on two sides of a line are apart. -/
theorem Rect.apart_of_le {a b : Rect K}
    (line : a.leftx + a.width ≤ b.leftx ∨ b.leftx + b.width ≤ a.leftx ∨
      a.bottomy + a.height ≤ b.bottomy ∨ b.bottomy + b.height ≤ a.bottomy) : a.Apart b := by
  rintro x y ⟨⟨aLeft, aRight, aBottom, aTop⟩, bLeft, bRight, bBottom, bTop⟩
  rcases line with before | after | below | above <;> linarith

end Field

end GpuHotSpot
