import Mathlib.Data.List.Infix
import GpuHotSpot.Lib.Text

/-!
# Backtracking patterns

Regular expressions as a backtracking matcher runs them: a pattern has a list of
ways to match at the start of a text, in the order in which they are tried, each
with the groups it captured and the text behind it. A search takes the first way
at the first position that has one.

* `search_eq_head?_found`: a search is the first of all positions that match.
* `search_concat`: a character behind a text that nothing at the end of a pattern may
  match does not change what a search finds.
-/

namespace GpuHotSpot

/-- Patterns over character classes, with greedy repetition of a class. -/
inductive Pattern
  | empty
  | one (p : Char → Bool)
  | many (p : Char → Bool)
  | seq (r s : Pattern)
  | group (r : Pattern)

namespace Pattern

/-- What may be left behind a repetition, the longest repetition first. -/
def manyRests (p : Char → Bool) : Text → List Text
  | [] => [[]]
  | c :: t => if p c then manyRests p t ++ [c :: t] else [c :: t]

/-- All ways to match at the start of a text: the groups captured and the text behind. -/
def run : Pattern → Text → List (List Text × Text)
  | .empty, t => [([], t)]
  | .one _, [] => []
  | .one p, c :: t => if p c then [([], t)] else []
  | .many p, t => (manyRests p t).map fun rest => ([], rest)
  | .seq r s, t => (r.run t).flatMap fun way =>
    (s.run way.2).map fun way' => (way.1 ++ way'.1, way'.2)
  | .group r, t => (r.run t).map fun way => (t.take (t.length - way.2.length) :: way.1, way.2)

/-- The groups of the way a matcher takes at the start of a text. -/
def first (r : Pattern) (t : Text) : Option (List Text) := (r.run t).head?.map Prod.fst

/-- The groups of the first position that matches. -/
def search (r : Pattern) (t : Text) : Option (List Text) := t.tails.findSome? r.first

/-- The groups of every position that matches. -/
def found (r : Pattern) (t : Text) : List (List Text) := t.tails.filterMap r.first

theorem search_eq_head?_found (r : Pattern) (t : Text) : r.search t = (r.found t).head? := by
  rw [search, found, List.head?_filterMap]

/-- Patterns one after the other. -/
def concat : List Pattern → Pattern
  | [] => .empty
  | r :: rs => .seq r (concat rs)

/-- At least one character of a class. -/
def some (p : Char → Bool) : Pattern := .seq (.one p) (.many p)

/-- The characters of a word, each up to `same`. -/
def word (same : Char → Char → Bool) (w : Text) : Pattern := concat (w.map fun c => .one (same c))

/-! ## Text behind a match -/

/-! ## A character behind the text -/

theorem suffix_of_mem_manyRests {p : Char → Bool} {t rest : Text}
    (member : rest ∈ manyRests p t) : rest <:+ t := by
  induction t with
  | nil =>
    rw [manyRests, List.mem_singleton] at member
    exact member ▸ List.suffix_rfl
  | cons c t ih =>
    rw [manyRests] at member
    split_ifs at member
    · rcases List.mem_append.mp member with later | here
      · exact (ih later).trans (List.suffix_cons c t)
      · exact List.mem_singleton.mp here ▸ List.suffix_rfl
    · exact List.mem_singleton.mp member ▸ List.suffix_rfl

/-- What is behind a match is an end of the text. -/
theorem suffix_of_mem_run (r : Pattern) {t : Text} {way : List Text × Text}
    (member : way ∈ r.run t) : way.2 <:+ t := by
  induction r generalizing t way with
  | empty =>
    rw [run, List.mem_singleton] at member
    exact member ▸ List.suffix_rfl
  | one p =>
    cases t with
    | nil => cases member
    | cons c t =>
      rw [run] at member
      split_ifs at member
      · exact List.mem_singleton.mp member ▸ List.suffix_cons c t
      · cases member
  | many p =>
    obtain ⟨rest, left, rfl⟩ := List.mem_map.mp member
    exact suffix_of_mem_manyRests left
  | seq r s ihr ihs =>
    obtain ⟨way₁, first, there⟩ := List.mem_flatMap.mp member
    obtain ⟨way₂, second, rfl⟩ := List.mem_map.mp there
    exact (ihs second).trans (ihr first)
  | group r ih =>
    obtain ⟨way₁, inner, rfl⟩ := List.mem_map.mp member
    have left : way₁.2 <:+ t := ih inner
    exact left

/-- The ways that leave something behind. -/
def leaving (ways : List (List Text × Text)) : List (List Text × Text) :=
  ways.filter fun way => !way.2.isEmpty

theorem leaving_run_nil (r : Pattern) : leaving (r.run []) = [] := by
  refine List.filter_eq_nil_iff.mpr fun way member => ?_
  simp [List.suffix_nil.mp (r.suffix_of_mem_run member)]

/-- A way with a character put behind what it leaves. -/
def behind (c : Char) (way : List Text × Text) : List Text × Text := (way.1, way.2 ++ [c])

theorem manyRests_concat (p : Char → Bool) (t : Text) (c : Char) :
    (manyRests p (t ++ [c])).filter (fun rest => !rest.isEmpty) =
      (manyRests p t).map (· ++ [c]) := by
  induction t with
  | nil =>
    simp only [List.nil_append, manyRests]
    split_ifs <;> simp
  | cons d t ih =>
    rw [List.cons_append, manyRests, manyRests]
    split_ifs
    · rw [List.filter_append, ih, List.map_append]
      simp
    · simp

/-- **A character behind the text.** The ways to match that leave it are the ways to match without
it, in the same order and with the same groups. -/
theorem leaving_run_concat (r : Pattern) (t : Text) (c : Char) :
    leaving (r.run (t ++ [c])) = (r.run t).map (behind c) := by
  induction r generalizing t with
  | empty => simp [run, leaving, behind]
  | one p =>
    cases t with
    | nil =>
      simp only [List.nil_append, run]
      split_ifs <;> simp [leaving]
    | cons d t =>
      rw [List.cons_append, run, run]
      split_ifs <;> simp [leaving, behind]
  | many p =>
    rw [run, run, leaving, List.filter_map, List.map_map]
    have rests := congrArg (List.map fun rest => (([] : List Text), rest)) (manyRests_concat p t c)
    rw [List.map_map] at rests
    exact rests
  | seq r s ihr ihs =>
    -- a way of `r` that leaves nothing leaves nothing behind `s` either
    have inner (way : List Text × Text) :
        leaving ((s.run way.2).map fun way' => (way.1 ++ way'.1, way'.2)) =
          (leaving (s.run way.2)).map fun way' => (way.1 ++ way'.1, way'.2) := by
      rw [leaving, leaving, List.filter_map]
      rfl
    have skip (ways : List (List Text × Text)) :
        ways.flatMap (fun way => (leaving (s.run way.2)).map fun way' =>
            (way.1 ++ way'.1, way'.2)) =
          (leaving ways).flatMap fun way => (leaving (s.run way.2)).map fun way' =>
            (way.1 ++ way'.1, way'.2) := by
      induction ways with
      | nil => rfl
      | cons way ways ih =>
        obtain ⟨groups, rest⟩ := way
        cases rest with
        | nil => rw [List.flatMap_cons, ih, leaving_run_nil]; rfl
        | cons d rest => rw [List.flatMap_cons, ih]; rfl
    calc leaving ((r.seq s).run (t ++ [c]))
        = (r.run (t ++ [c])).flatMap (fun way => (leaving (s.run way.2)).map fun way' =>
            (way.1 ++ way'.1, way'.2)) := by
          rw [run, leaving, List.filter_flatMap]
          exact congrArg (List.flatMap · _) (funext inner)
      _ = ((r.run t).map (behind c)).flatMap (fun way => (leaving (s.run way.2)).map fun way' =>
            (way.1 ++ way'.1, way'.2)) := by
          rw [skip, ihr]
      _ = (r.run t).flatMap (fun way => ((s.run way.2).map (behind c)).map fun way' =>
            (way.1 ++ way'.1, way'.2)) := by
          rw [List.flatMap_map]
          exact congrArg (List.flatMap · _) (funext fun way => by rw [behind, ihs])
      _ = ((r.seq s).run t).map (behind c) := by
          rw [run, List.map_flatMap]
          simp only [List.map_map]
          rfl
  | group r ih =>
    rw [run, run, leaving, List.filter_map]
    have inner : (r.run (t ++ [c])).filter (fun way => !way.2.isEmpty) =
        (r.run t).map (behind c) := ih t
    refine (congrArg (List.map _) inner).trans ?_
    rw [List.map_map, List.map_map]
    refine List.map_congr_left fun way member => ?_
    have short := (r.suffix_of_mem_run member).length_le
    simp only [Function.comp_apply, behind, List.length_append, List.length_singleton,
      Nat.add_sub_add_right]
    rw [List.take_append_of_le_length (Nat.sub_le _ _)]

/-- A pattern that ends with at least one character, which is not `c`. -/
inductive EndsWithout (c : Char) : Pattern → Prop
  | last {p : Char → Bool} (never : p c = false) : EndsWithout c (.seq (.group (.some p)) .empty)
  | seq (r : Pattern) {s : Pattern} (ends : EndsWithout c s) : EndsWithout c (.seq r s)

theorem EndsWithout.concat {c : Char} {p : Char → Bool} (never : p c = false) {rs : List Pattern}
    (last : rs.getLast? = Option.some (.group (.some p))) : EndsWithout c (.concat rs) := by
  obtain ⟨rs, rfl⟩ := List.getLast?_eq_some_iff.mp last
  clear last
  induction rs with
  | nil => exact .last never
  | cons r rs ih => exact .seq r ih

theorem EndsWithout.run_nil {c : Char} {r : Pattern} (ends : EndsWithout c r) : r.run [] = [] := by
  induction ends with
  | last never => rfl
  | seq r ends ih =>
    refine List.flatMap_eq_nil_iff.mpr fun way member => ?_
    rw [List.suffix_nil.mp (r.suffix_of_mem_run member), ih, List.map_nil]

/-- The character behind the text is left. -/
theorem EndsWithout.leaving_run {c : Char} {r : Pattern} (ends : EndsWithout c r) (t : Text) :
    leaving (r.run (t ++ [c])) = r.run (t ++ [c]) := by
  refine List.filter_eq_self.mpr fun way member => ?_
  suffices left : way.2 ≠ [] by simpa using left
  induction ends generalizing t way with
  | @last p never =>
    intro empty
    obtain ⟨way₁, inner, there⟩ := List.mem_flatMap.mp member
    obtain ⟨way₂, unit, rfl⟩ := List.mem_map.mp there
    rw [run, List.mem_singleton] at unit
    obtain ⟨way₃, found, rfl⟩ := List.mem_map.mp inner
    have gone : way₃.2 = [] := by rw [unit] at empty; exact empty
    obtain ⟨way₄, first, rests⟩ := List.mem_flatMap.mp found
    obtain ⟨way₅, rest, rfl⟩ := List.mem_map.mp rests
    obtain ⟨rest, many, rfl⟩ := List.mem_map.mp rest
    -- the repetition stops in front of `c`, and so does the first character
    have stops (t : Text) : ([] : Text) ∉ manyRests p (t ++ [c]) := by
      induction t with
      | nil => simp [manyRests, never]
      | cons d t ih =>
        rw [List.cons_append, manyRests]
        split_ifs <;> simp [ih]
    cases t with
    | nil => simp [run, never] at first
    | cons d t =>
      rw [List.cons_append, run] at first
      split_ifs at first
      · rw [List.mem_singleton.mp first] at many
        exact stops t (gone ▸ many)
      · cases first
  | seq r ends ih =>
    obtain ⟨way₁, first, there⟩ := List.mem_flatMap.mp member
    obtain ⟨way₂, second, rfl⟩ := List.mem_map.mp there
    rcases List.suffix_concat_iff.mp (r.suffix_of_mem_run first) with none | ⟨t', rest, -⟩
    · rw [none, ends.run_nil] at second
      cases second
    · rw [rest] at second
      exact ih t' way₂ second

/-- **A search** does not see a character behind the text that the end of the pattern does not
match. -/
theorem search_concat {r : Pattern} {c : Char} (ends : EndsWithout c r) (t : Text) :
    r.search (t ++ [c]) = r.search t := by
  have first (t : Text) : r.first (t ++ [c]) = r.first t := by
    rw [Pattern.first, Pattern.first, ← ends.leaving_run, leaving_run_concat, List.head?_map,
      Option.map_map]
    rfl
  have nothing : r.first [] = none := by rw [Pattern.first, ends.run_nil]; rfl
  induction t with
  | nil =>
    have alone := first []
    rw [List.nil_append] at alone
    simp [search, List.tails, List.findSome?, alone, nothing]
  | cons d t ih =>
    have here := first (d :: t)
    rw [List.cons_append] at here
    rw [search, search] at ih ⊢
    rw [List.cons_append, List.tails_cons, List.tails_cons, List.findSome?_cons,
      List.findSome?_cons, here, ih]

end Pattern

end GpuHotSpot
