import GpuHotSpot.Lib.Tiling
import Mathlib.Data.List.Perm.Basic
import Mathlib.Tactic.Ring

/-!
# Frames around tilings

A tiled rectangle gets a strip along each side, one piece for each part at that side; the last
piece of a strip goes on to the next corner, clockwise. The four strips are one strip and its
quarter turns.

* `tiles_westStrip`, …, `tiles_southStrip`: the pieces tile their strip.
* `tiles_framePieces`: the parts and the pieces tile the larger rectangle.
* `length_framePieces_le`: at most two pieces for each part, and two more.
* `coveredOnce_corner`: one piece has the corner in it.
-/

namespace GpuHotSpot

variable {K : Type} [Field K] [LinearOrder K] [IsStrictOrderedRing K]

open Rect

/-! ## Strips -/

variable {r t : K} {c u v : Rect K} {parts : List (Rect K)}

/-- The piece along the left side, up to the upper corner. -/
def westPiece (t : K) (c u : Rect K) : Rect K :=
  ⟨c.leftx - t, u.bottomy, t,
    if u.bottomy + u.height = c.bottomy + c.height then u.height + t else u.height⟩

/-- The piece along the upper side, up to the right corner. -/
def northPiece (t : K) (c u : Rect K) : Rect K :=
  ⟨u.leftx, c.bottomy + c.height,
    if u.leftx + u.width = c.leftx + c.width then u.width + t else u.width, t⟩

/-- The piece along the right side, down to the lower corner. -/
def eastPiece (t : K) (c u : Rect K) : Rect K :=
  ⟨c.leftx + c.width, if u.bottomy = c.bottomy then u.bottomy - t else u.bottomy, t,
    if u.bottomy = c.bottomy then u.height + t else u.height⟩

/-- The piece along the lower side, down to the left corner. -/
def southPiece (t : K) (c u : Rect K) : Rect K :=
  ⟨if u.leftx = c.leftx then u.leftx - t else u.leftx, c.bottomy - t,
    if u.leftx = c.leftx then u.width + t else u.width, t⟩

theorem westPiece_apart (uWest : u.leftx = c.leftx) (vWest : v.leftx = c.leftx)
    (uPos : 0 < u.width ∧ 0 < u.height) (vPos : 0 < v.width ∧ 0 < v.height)
    (uTop : u.bottomy + u.height ≤ c.bottomy + c.height)
    (vTop : v.bottomy + v.height ≤ c.bottomy + c.height) (apart : u.Apart v) :
    (westPiece t c u).Apart (westPiece t c v) := by
  rintro x y ⟨⟨-, -, uBottom, uAbove⟩, -, -, vBottom, vAbove⟩
  simp only [westPiece] at uBottom uAbove vBottom vAbove
  have uSide := uPos.1
  have vSide := vPos.1
  refine Rect.not_apart uPos vPos (by linarith) (by linarith) ?_ ?_ apart
  -- only a piece at the corner goes beyond its part
  · split_ifs at vAbove with corner
    · linarith [uPos.2]
    · linarith
  · split_ifs at uAbove with corner
    · linarith [vPos.2]
    · linarith

/-- **The strip on the left.** -/
theorem tiles_westStrip (tiles : Tiles c parts) (positive : Positive parts) (thick : 0 < t)
    (width : 0 < c.width) (height : 0 < c.height) :
    Tiles ⟨c.leftx - t, c.bottomy, t, c.height + t⟩
      ((parts.filter fun u => u.leftx = c.leftx).map (westPiece t c)) where
  nonneg q member := by
    obtain ⟨u, part, rfl⟩ := List.mem_map.mp member
    have size := positive u (List.mem_of_mem_filter part)
    refine ⟨thick.le, ?_⟩
    simp only [westPiece]
    split_ifs
    · linarith [size.2]
    · exact size.2.le
  apart := by
    rw [List.pairwise_map]
    refine (tiles.apart.filter _).imp_of_mem fun {u v} uPart vPart apart => ?_
    rw [List.mem_filter, decide_eq_true_eq] at uPart vPart
    exact westPiece_apart uPart.2 vPart.2 (positive u uPart.1) (positive v vPart.1)
      (tiles.bounds uPart.1).2.2.2 (tiles.bounds vPart.1).2.2.2 apart
  covers x y := by
    simp only [List.mem_map, List.mem_filter, decide_eq_true_eq, exists_exists_and_eq_and]
    constructor
    · rintro ⟨left, right, bottom, top⟩
      simp only at left right bottom top
      -- the part at the height of the point, or the one in the corner
      obtain ⟨u, part, uLeft, -, uBottom, uTop⟩ :=
        (tiles.covers c.leftx (min y (c.bottomy + c.height))).mp
          ⟨le_rfl, by linarith, le_min bottom (by linarith), min_le_right _ _⟩
      obtain ⟨leftOf, -, -, above⟩ := tiles.bounds part
      refine ⟨u, ⟨part, uLeft.antisymm leftOf⟩, left, right, ?_, ?_⟩
      · exact uBottom.trans (min_le_left _ _)
      · simp only [westPiece]
        rcases le_total y (c.bottomy + c.height) with inside | beyond
        · rw [min_eq_left inside] at uTop
          split_ifs
          · linarith
          · exact uTop
        · rw [min_eq_right beyond] at uTop
          rw [if_pos (above.antisymm uTop)]
          linarith
    · rintro ⟨u, ⟨part, west⟩, left, right, bottom, top⟩
      obtain ⟨-, -, below, above⟩ := tiles.bounds part
      simp only [westPiece] at left right bottom top
      refine ⟨left, right, below.trans bottom, ?_⟩
      simp only
      split_ifs at top
      · linarith
      · linarith

/-! ## Quarter turns of the strip -/

omit [IsStrictOrderedRing K] in
theorem turn_northPiece : (northPiece t c u).turn = westPiece t c.turn u.turn := by
  have corner : (u.turn.bottomy + u.turn.height = c.turn.bottomy + c.turn.height) =
      (u.leftx + u.width = c.leftx + c.width) := rfl
  simp only [westPiece, corner]
  ext
  · simp only [northPiece, turn]
    ring
  · rfl
  · rfl
  · rfl

omit [IsStrictOrderedRing K] in
theorem turn_eastPiece : (eastPiece t c u).turn = northPiece t c.turn u.turn := by
  have corner : (u.turn.leftx + u.turn.width = c.turn.leftx + c.turn.width) =
      (u.bottomy = c.bottomy) := by
    simp only [turn, neg_add_rev, neg_add_cancel_comm, neg_inj]
  simp only [northPiece, corner]
  ext
  · simp only [eastPiece, turn]
    split_ifs
    · ring
    · rfl
  · rfl
  · rfl
  · rfl

omit [IsStrictOrderedRing K] in
theorem turn_southPiece : (southPiece t c u).turn = eastPiece t c.turn u.turn := by
  have corner : (u.turn.bottomy = c.turn.bottomy) = (u.leftx = c.leftx) := rfl
  simp only [eastPiece, corner]
  ext
  · simp only [southPiece, turn]
    ring
  · rfl
  · rfl
  · rfl

/-- A strip follows from its quarter turn. -/
theorem tiles_of_turned {side side' : Rect K → Prop} [DecidablePred side] [DecidablePred side']
    {piece piece' : Rect K → Rect K} {strip strip' : Rect K}
    (turned : Tiles strip' (((parts.map turn).filter fun u => side' u).map piece'))
    (sides : ∀ u, side' u.turn ↔ side u) (pieces : ∀ u, (piece u).turn = piece' u.turn)
    (strips : strip.turn = strip') :
    Tiles strip ((parts.filter fun u => side u).map piece) := by
  refine Tiles.of_turn ?_
  rw [strips]
  have same : ((parts.filter fun u => side u).map piece).map turn =
      ((parts.map turn).filter fun u => side' u).map piece' := by
    rw [List.filter_map, List.map_map, List.map_map]
    have kept : ((fun u => decide (side' u)) ∘ turn) = fun u => decide (side u) := by
      funext u
      exact decide_eq_decide.mpr (sides u)
    rw [kept]
    exact List.map_congr_left fun u _ => pieces u
  rwa [same]

omit [IsStrictOrderedRing K] in
theorem positive_turn (positive : Positive parts) : Positive (parts.map turn) := by
  intro q member
  obtain ⟨u, part, rfl⟩ := List.mem_map.mp member
  exact (positive u part).symm

/-- **The strip above.** -/
theorem tiles_northStrip (tiles : Tiles c parts) (positive : Positive parts) (thick : 0 < t)
    (width : 0 < c.width) (height : 0 < c.height) :
    Tiles ⟨c.leftx, c.bottomy + c.height, c.width + t, t⟩
      ((parts.filter fun u => u.bottomy + u.height = c.bottomy + c.height).map
        (northPiece t c)) := by
  refine tiles_of_turned
    (tiles_westStrip tiles.turn (positive_turn positive) thick height width)
    (fun u => ?_) (fun u => turn_northPiece) ?_
  · simp only [turn, neg_inj]
  · ext
    · simp only [turn]
      ring
    · rfl
    · rfl
    · rfl

/-- **The strip on the right.** -/
theorem tiles_eastStrip (tiles : Tiles c parts) (positive : Positive parts) (thick : 0 < t)
    (width : 0 < c.width) (height : 0 < c.height) :
    Tiles ⟨c.leftx + c.width, c.bottomy - t, t, c.height + t⟩
      ((parts.filter fun u => u.leftx + u.width = c.leftx + c.width).map (eastPiece t c)) := by
  refine tiles_of_turned
    (tiles_northStrip tiles.turn (positive_turn positive) thick height width)
    (fun u => Iff.rfl) (fun u => turn_eastPiece) ?_
  ext
  · simp only [turn]
    ring
  · rfl
  · rfl
  · rfl

/-- **The strip below.** -/
theorem tiles_southStrip (tiles : Tiles c parts) (positive : Positive parts) (thick : 0 < t)
    (width : 0 < c.width) (height : 0 < c.height) :
    Tiles ⟨c.leftx - t, c.bottomy - t, c.width + t, t⟩
      ((parts.filter fun u => u.bottomy = c.bottomy).map (southPiece t c)) := by
  refine tiles_of_turned
    (tiles_eastStrip tiles.turn (positive_turn positive) thick height width)
    (fun u => ?_) (fun u => turn_southPiece) ?_
  · simp only [turn, neg_add_rev, neg_add_cancel_comm, neg_inj]
  · ext
    · simp only [turn]
      ring
    · rfl
    · rfl
    · rfl

/-! ## The frame -/

/-- **The frame.** A rectangle and the strips around it, each from one corner to the next. -/
theorem tiles_frame (thick : 0 ≤ t) (width : 0 ≤ c.width) (height : 0 ≤ c.height) :
    Tiles ⟨c.leftx - t, c.bottomy - t, c.width + 2 * t, c.height + 2 * t⟩
      [c, ⟨c.leftx - t, c.bottomy, t, c.height + t⟩,
        ⟨c.leftx, c.bottomy + c.height, c.width + t, t⟩,
        ⟨c.leftx + c.width, c.bottomy - t, t, c.height + t⟩,
        ⟨c.leftx - t, c.bottomy - t, c.width + t, t⟩] where
  nonneg q member := by
    simp only [List.mem_cons, List.not_mem_nil, or_false] at member
    rcases member with rfl | rfl | rfl | rfl | rfl
    · exact ⟨width, height⟩
    · exact ⟨thick, by linarith⟩
    · exact ⟨by linarith, thick⟩
    · exact ⟨thick, by linarith⟩
    · exact ⟨by linarith, thick⟩
  apart := by
    simp only [List.pairwise_cons, List.mem_cons, List.not_mem_nil, or_false, forall_eq_or_imp,
      forall_eq, IsEmpty.forall_iff, implies_true, List.Pairwise.nil, and_true]
    refine ⟨⟨?_, ?_, ?_, ?_⟩, ⟨?_, ?_, ?_⟩, ⟨?_, ?_⟩, ?_⟩
    · exact Rect.apart_of_le (.inr (.inl (by linarith)))
    · exact Rect.apart_of_le (.inr (.inr (.inl le_rfl)))
    · exact Rect.apart_of_le (.inl le_rfl)
    · exact Rect.apart_of_le (.inr (.inr (.inr (by linarith))))
    · exact Rect.apart_of_le (.inl (by linarith))
    · exact Rect.apart_of_le (.inl (by linarith))
    · exact Rect.apart_of_le (.inr (.inr (.inr (by linarith))))
    · exact Rect.apart_of_le (.inr (.inr (.inr (by linarith))))
    · exact Rect.apart_of_le (.inr (.inr (.inr (by linarith))))
    · exact Rect.apart_of_le (.inr (.inl (by linarith)))
  covers x y := by
    simp only [List.mem_cons, List.not_mem_nil, or_false, exists_eq_or_imp, exists_eq_left,
      Contains]
    constructor
    · rintro ⟨left, right, bottom, top⟩
      rcases le_or_gt x c.leftx with west | inside
      · rcases le_or_gt c.bottomy y with beside | below
        · exact .inr (.inl ⟨left, by linarith, beside, by linarith⟩)
        · exact .inr (.inr (.inr (.inr ⟨left, by linarith, bottom, by linarith⟩)))
      · rcases le_or_gt (c.bottomy + c.height) y with north | under
        · exact .inr (.inr (.inl ⟨inside.le, by linarith, north, by linarith⟩))
        · rcases le_or_gt (c.leftx + c.width) x with east | before
          · exact .inr (.inr (.inr (.inl ⟨east, by linarith, bottom, by linarith⟩)))
          · rcases le_or_gt y c.bottomy with south | above
            · exact .inr (.inr (.inr (.inr ⟨left, by linarith, bottom, by linarith⟩)))
            · exact .inl ⟨inside.le, before.le, above.le, under.le⟩
    · rintro (inside | inside | inside | inside | inside) <;>
      · obtain ⟨left, right, bottom, top⟩ := inside
        exact ⟨by linarith, by linarith, by linarith, by linarith⟩

/-! ## Corners -/

/-- The square at each corner, one side of it as long as the frame is thick. -/
def corners (t : K) (c : Rect K) : List (Rect K) :=
  [⟨c.leftx - t, c.bottomy + c.height, t, t⟩,
    ⟨c.leftx + c.width, c.bottomy + c.height, t, t⟩,
    ⟨c.leftx + c.width, c.bottomy - t, t, t⟩, ⟨c.leftx - t, c.bottomy - t, t, t⟩]

/-- One part has the rectangle in it, and the others are apart from the rectangle. -/
def CoveredOnce (parts : List (Rect K)) (a : Rect K) : Prop :=
  ∃ before q after, parts = before ++ q :: after ∧ a.Within q ∧ ∀ p ∈ before ++ after, p.Apart a

omit [IsStrictOrderedRing K] in
theorem coveredOnce_of_within {a q : Rect K} (tiles : Tiles c parts) (part : q ∈ parts)
    (within : a.Within q) : CoveredOnce parts a := by
  obtain ⟨before, after, rfl⟩ := List.append_of_mem part
  refine ⟨before, q, after, rfl, within, fun p other => ?_⟩
  have apart : p.Apart q := by
    obtain ⟨-, later, earlier⟩ := List.pairwise_append.mp tiles.apart
    rcases List.mem_append.mp other with first | last
    · exact earlier p first q List.mem_cons_self
    · exact (List.rel_of_pairwise_cons later last).symm
  obtain ⟨left, right, bottom, top⟩ := within
  rintro x y ⟨inside, aLeft, aRight, aBottom, aTop⟩
  exact apart x y ⟨inside, left.trans_lt aLeft, aRight.trans_le right, bottom.trans_lt aBottom,
    aTop.trans_le top⟩

/-! ## How many sides are touched -/

/-- Of elements that exclude each other there is at most one. -/
theorem countP_le_one {α : Type} {l : List α} {R : α → α → Prop} {p : α → Bool}
    (pairwise : l.Pairwise R)
    (excludes : ∀ a ∈ l, ∀ b ∈ l, p a = true → p b = true → ¬R a b) : l.countP p ≤ 1 := by
  induction l with
  | nil => simp
  | cons a l ih =>
    obtain ⟨first, others⟩ := List.pairwise_cons.mp pairwise
    rw [List.countP_cons]
    split_ifs with here
    · have none : l.countP p = 0 := List.countP_eq_zero.mpr fun b member there =>
        excludes a List.mem_cons_self b (List.mem_cons_of_mem a member) here there
          (first b member)
      omega
    · exact ih others fun b bMember d dMember =>
        excludes b (List.mem_cons_of_mem a bMember) d (List.mem_cons_of_mem a dMember)

/-- The sides of the rectangle that a part touches. -/
def touchesWest (c u : Rect K) : Bool := u.leftx = c.leftx
def touchesEast (c u : Rect K) : Bool := u.leftx + u.width = c.leftx + c.width
def touchesNorth (c u : Rect K) : Bool := u.bottomy + u.height = c.bottomy + c.height
def touchesSouth (c u : Rect K) : Bool := u.bottomy = c.bottomy

omit [IsStrictOrderedRing K] in
/-- A part touches two sides, and a third in one of four ways only. -/
theorem sides_le (l : List (Rect K)) :
    l.countP (touchesWest c) + l.countP (touchesEast c) + l.countP (touchesNorth c) +
        l.countP (touchesSouth c) ≤ 2 * l.length +
        (l.countP (fun u => touchesWest c u && touchesEast c u && touchesNorth c u) +
          l.countP (fun u => touchesWest c u && touchesEast c u && touchesSouth c u)) +
        (l.countP (fun u => touchesNorth c u && touchesSouth c u && touchesWest c u) +
          l.countP (fun u => touchesNorth c u && touchesSouth c u && touchesEast c u)) := by
  induction l with
  | nil => simp
  | cons u l ih =>
    simp only [List.countP_cons, List.length_cons]
    cases touchesWest c u <;> cases touchesEast c u <;> cases touchesNorth c u <;>
      cases touchesSouth c u <;> simp <;> omega

section Borders

variable (tiles : Tiles c parts) (positive : Positive parts)

include tiles positive

/-- A part from side to side and one from bottom to top overlap. -/
theorem not_apart_crossing (uPart : u ∈ parts) (vPart : v ∈ parts)
    (uSides : touchesWest c u = true ∧ touchesEast c u = true)
    (vSides : touchesNorth c v = true ∧ touchesSouth c v = true) : ¬u.Apart v := by
  simp only [touchesWest, touchesEast, touchesNorth, touchesSouth, decide_eq_true_eq] at *
  obtain ⟨uLeft, uRight, uBottom, uTop⟩ := tiles.bounds uPart
  obtain ⟨vLeft, vRight, vBottom, vTop⟩ := tiles.bounds vPart
  have uPos := positive u uPart
  have vPos := positive v vPart
  refine Rect.not_apart uPos vPos ?_ ?_ ?_ ?_ <;> linarith [uPos.1, uPos.2, vPos.1, vPos.2]

/-- Parts that overlap whenever both are of a kind: there is at most one of the kind. -/
theorem countP_of_crossing {p : Rect K → Bool}
    (crossing : ∀ u ∈ parts, ∀ v ∈ parts, p u = true → p v = true →
      u.leftx < v.leftx + v.width ∧ v.leftx < u.leftx + u.width ∧
        u.bottomy < v.bottomy + v.height ∧ v.bottomy < u.bottomy + u.height) :
    parts.countP p ≤ 1 := by
  refine countP_le_one tiles.apart fun u uPart v vPart uKind vKind => ?_
  obtain ⟨leftRight, rightLeft, downUp, upDown⟩ := crossing u uPart v vPart uKind vKind
  exact Rect.not_apart (positive u uPart) (positive v vPart) leftRight rightLeft downUp upDown

/-- One part at most touches two opposite sides and a third, in each of the four ways. -/
theorem countP_three_le_one :
    parts.countP (fun u => touchesWest c u && touchesEast c u && touchesNorth c u) ≤ 1 ∧
      parts.countP (fun u => touchesWest c u && touchesEast c u && touchesSouth c u) ≤ 1 ∧
      parts.countP (fun u => touchesNorth c u && touchesSouth c u && touchesWest c u) ≤ 1 ∧
      parts.countP (fun u => touchesNorth c u && touchesSouth c u && touchesEast c u) ≤ 1 := by
  refine ⟨?_, ?_, ?_, ?_⟩
  all_goals
    refine countP_of_crossing tiles positive fun u uPart v vPart uSides vSides => ?_
    simp only [touchesWest, touchesEast, touchesNorth, touchesSouth, Bool.and_eq_true,
      decide_eq_true_eq] at uSides vSides
    have uPos := positive u uPart
    have vPos := positive v vPart
    refine ⟨?_, ?_, ?_, ?_⟩ <;> linarith [uPos.1, uPos.2, vPos.1, vPos.2]

/-- Where one part goes from side to side and one from bottom to top, there is one part. -/
theorem length_le_one_of_crossing (uPart : u ∈ parts) (vPart : v ∈ parts)
    (uSides : touchesWest c u = true ∧ touchesEast c u = true)
    (vSides : touchesNorth c v = true ∧ touchesSouth c v = true) : parts.length ≤ 1 := by
  have same : u = v := by
    by_contra other
    exact not_apart_crossing tiles positive uPart vPart uSides vSides
      (tiles.apart_of_ne uPart vPart other)
  subst same
  simp only [touchesWest, touchesEast, touchesNorth, touchesSouth, decide_eq_true_eq] at *
  -- it overlaps every part
  have everyPart : ∀ w ∈ parts, w = u := by
    intro w wPart
    by_contra other
    obtain ⟨wLeft, wRight, wBottom, wTop⟩ := tiles.bounds wPart
    have wPos := positive w wPart
    refine Rect.not_apart wPos (positive u uPart) ?_ ?_ ?_ ?_
      (tiles.apart_of_ne wPart uPart other)
    all_goals linarith [wPos.1, wPos.2]
  have once : parts.countP (fun _ => true) ≤ 1 := by
    refine countP_of_crossing tiles positive fun v vPart w wPart _ _ => ?_
    have uPos := positive u uPart
    rw [everyPart v vPart, everyPart w wPart]
    refine ⟨?_, ?_, ?_, ?_⟩ <;> linarith [uPos.1, uPos.2]
  simpa using once

/-- **How many sides are touched.** Parts in one row or column touch two sides each, and the two at
its ends one more; nothing touches more. -/
theorem borders_le :
    parts.countP (touchesWest c) + parts.countP (touchesEast c) + parts.countP (touchesNorth c) +
      parts.countP (touchesSouth c) ≤ 2 * parts.length + 2 := by
  obtain ⟨wen, wes, nsw, nse⟩ := countP_three_le_one tiles positive
  have sides := sides_le (c := c) parts
  by_cases crossed : ∃ u ∈ parts, touchesWest c u = true ∧ touchesEast c u = true
  · obtain ⟨u, uPart, uSides⟩ := crossed
    by_cases upright : ∃ v ∈ parts, touchesNorth c v = true ∧ touchesSouth c v = true
    · obtain ⟨v, vPart, vSides⟩ := upright
      have alone := length_le_one_of_crossing tiles positive uPart vPart uSides vSides
      have west := parts.countP_le_length (p := touchesWest c)
      have east := parts.countP_le_length (p := touchesEast c)
      have north := parts.countP_le_length (p := touchesNorth c)
      have south := parts.countP_le_length (p := touchesSouth c)
      omega
    · have none (p : Rect K → Bool) :
          parts.countP (fun v => touchesNorth c v && touchesSouth c v && p v) = 0 := by
        refine List.countP_eq_zero.mpr fun v vPart vSides => upright ⟨v, vPart, ?_⟩
        simp only [Bool.and_eq_true] at vSides
        exact vSides.1
      rw [none, none] at sides
      omega
  · have none (p : Rect K → Bool) :
        parts.countP (fun v => touchesWest c v && touchesEast c v && p v) = 0 := by
      refine List.countP_eq_zero.mpr fun v vPart vSides => crossed ⟨v, vPart, ?_⟩
      simp only [Bool.and_eq_true] at vSides
      exact vSides.1
    rw [none, none] at sides
    omega

end Borders

/-! ## The parts of the frame -/

/-- The pieces of the frame at one part. -/
def framePieces (t : K) (c u : Rect K) : List (Rect K) :=
  (if touchesWest c u then [westPiece t c u] else []) ++
    (if touchesEast c u then [eastPiece t c u] else []) ++
    (if touchesNorth c u then [northPiece t c u] else []) ++
    (if touchesSouth c u then [southPiece t c u] else [])

/-- What is chosen element by element, in one go. -/
theorem flatMap_ite {α β : Type} (l : List α) (p : α → Bool) (f : α → β) :
    l.flatMap (fun a => if p a then [f a] else []) = (l.filter p).map f := by
  induction l with
  | nil => rfl
  | cons a l ih =>
    rw [List.flatMap_cons, ih, List.filter_cons]
    split_ifs
    · rfl
    · rfl

omit [IsStrictOrderedRing K] in
/-- The pieces, side by side of the rectangle. -/
theorem framePieces_perm (t : K) (c : Rect K) (parts : List (Rect K)) :
    ((parts.filter (touchesWest c)).map (westPiece t c) ++
      (parts.filter (touchesEast c)).map (eastPiece t c) ++
      (parts.filter (touchesNorth c)).map (northPiece t c) ++
      (parts.filter (touchesSouth c)).map (southPiece t c)).Perm
      (parts.flatMap (framePieces t c)) := by
  simp only [← flatMap_ite]
  refine List.Perm.trans ?_ (List.flatMap_append_perm parts _ _)
  refine List.Perm.append_right _ ?_
  refine List.Perm.trans ?_ (List.flatMap_append_perm parts _ _)
  exact List.Perm.append_right _ (List.flatMap_append_perm parts _ _)

/-- **A framed tiling.** -/
theorem tiles_framePieces (tiles : Tiles c parts) (positive : Positive parts) (thick : 0 < t)
    (width : 0 < c.width) (height : 0 < c.height) :
    Tiles ⟨c.leftx - t, c.bottomy - t, c.width + 2 * t, c.height + 2 * t⟩
      (parts ++ parts.flatMap (framePieces t c)) := by
  have west := tiles_westStrip tiles positive thick width height
  have north := tiles_northStrip tiles positive thick width height
  have east := tiles_eastStrip tiles positive thick width height
  have south := tiles_southStrip tiles positive thick width height
  have frame := tiles_frame (c := c) thick.le width.le height.le
  have finer := frame.refine_all
    (.cons tiles (.cons west (.cons north (.cons east (.cons south .nil)))))
  refine finer.perm (List.Perm.append_left parts (List.Perm.trans ?_ (framePieces_perm t c parts)))
  simp only [List.flatten_cons, List.flatten_nil, List.append_nil, List.append_assoc]
  -- the strip above comes after the one on the right
  exact List.Perm.append_left _ (List.perm_append_comm_assoc _ _ _)

/-- The pieces are at most two for each part and two more. -/
theorem length_framePieces_le (tiles : Tiles c parts) (positive : Positive parts) :
    (parts.flatMap (framePieces t c)).length ≤ 2 * parts.length + 2 := by
  have sides := borders_le tiles positive
  rw [← (framePieces_perm t c parts).length_eq]
  simp only [List.length_append, List.length_map, ← List.countP_eq_length_filter]
  omega

/-- **Corners.** One piece of the frame has the corner in it. -/
theorem coveredOnce_corner (tiles : Tiles c parts) (positive : Positive parts) (thick : 0 < t)
    (width : 0 < c.width) (height : 0 < c.height) {corner : Rect K}
    (member : corner ∈ corners t c) :
    CoveredOnce (parts ++ parts.flatMap (framePieces t c)) corner := by
  have framed := tiles_framePieces tiles positive thick width height
  have right := le_add_of_nonneg_right (a := c.leftx) width.le
  have top := le_add_of_nonneg_right (a := c.bottomy) height.le
  have once (u q : Rect K) (part : u ∈ parts) (piece : q ∈ framePieces t c u)
      (within : corner.Within q) :
      CoveredOnce (parts ++ parts.flatMap (framePieces t c)) corner :=
    coveredOnce_of_within framed
      (List.mem_append_right _ (List.mem_flatMap_of_mem part piece)) within
  simp only [corners, List.mem_cons, List.not_mem_nil, or_false] at member
  rcases member with rfl | rfl | rfl | rfl
  · obtain ⟨u, part, uLeft, -, uBottom, uTop⟩ :=
      (tiles.covers c.leftx (c.bottomy + c.height)).mp ⟨le_rfl, right, top, le_rfl⟩
    obtain ⟨leftOf, -, -, above⟩ := tiles.bounds part
    have west := uLeft.antisymm leftOf
    have north := above.antisymm uTop
    refine once u (westPiece t c u) part ?_ ?_
    · simp [framePieces, touchesWest, west]
    · simp only [Within, westPiece, if_pos north]
      exact ⟨le_rfl, le_rfl, uBottom, by linarith⟩
  · obtain ⟨u, part, uLeft, uRight, -, uTop⟩ :=
      (tiles.covers (c.leftx + c.width) (c.bottomy + c.height)).mp ⟨right, le_rfl, top, le_rfl⟩
    obtain ⟨-, rightOf, -, above⟩ := tiles.bounds part
    have east := rightOf.antisymm uRight
    have north := above.antisymm uTop
    refine once u (northPiece t c u) part ?_ ?_
    · simp [framePieces, touchesNorth, north]
    · simp only [Within, northPiece, if_pos east]
      exact ⟨uLeft, by linarith, le_rfl, le_rfl⟩
  · obtain ⟨u, part, -, uRight, uBottom, uTop⟩ :=
      (tiles.covers (c.leftx + c.width) c.bottomy).mp ⟨right, le_rfl, le_rfl, top⟩
    obtain ⟨-, rightOf, below, -⟩ := tiles.bounds part
    have east := rightOf.antisymm uRight
    have south := uBottom.antisymm below
    refine once u (eastPiece t c u) part ?_ ?_
    · simp [framePieces, touchesEast, east]
    · simp only [Within, eastPiece, if_pos south]
      exact ⟨le_rfl, le_rfl, by linarith, by linarith⟩
  · obtain ⟨u, part, uLeft, uRight, uBottom, -⟩ :=
      (tiles.covers c.leftx c.bottomy).mp ⟨le_rfl, right, le_rfl, top⟩
    obtain ⟨leftOf, -, below, -⟩ := tiles.bounds part
    have west := uLeft.antisymm leftOf
    have south := uBottom.antisymm below
    refine once u (southPiece t c u) part ?_ ?_
    · simp [framePieces, touchesSouth, south]
    · simp only [Within, southPiece, if_pos west]
      exact ⟨by linarith, by linarith, le_rfl, le_rfl⟩

end GpuHotSpot
