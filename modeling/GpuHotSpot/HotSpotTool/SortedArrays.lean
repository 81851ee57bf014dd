import GpuHotSpot.HotSpotTool.Util
import Mathlib.Data.Finset.Card
import Mathlib.Data.Finset.Image
import Mathlib.Data.Finset.Range
import Mathlib.Logic.Function.Basic

/-!
# Sorted arrays of doubles

`bsearch_double` and `bsearch_insert_double` of `util.c`: a search that takes entries closer than
`DELTA` for equal, and an insertion at the place it finds. Where different numbers are never so
close, the array lists a finite set in order.

* `searched`: the search finds the number, or its place.
* `lists_insert`: an insertion adds the number to the set.
-/

namespace GpuHotSpot.HotSpotTool

variable {K : Type} [Field K] [LinearOrder K]

/-- `bsearch_double` on the `n` entries from `base` on: whether there is an equal entry, and where
it is or should have been. -/
def bsearchDouble (arr : ℕ → K) (base n : ℕ) (ele : K) : Bool × ℕ :=
  if n = 0 then (false, base)
  else if near (arr (base + n / 2)) ele then (true, base + n / 2)
  else if arr (base + n / 2) < ele then bsearchDouble arr (base + n / 2 + 1) ((n - 1) / 2) ele
  else bsearchDouble arr base (n / 2) ele
termination_by n
decreasing_by all_goals omega

/-- The loop of `bsearch_insert_double`: the entries from `loc` to `n` move up, the last one first. -/
def shiftUp (loc : ℕ) : ℕ → (ℕ → K) → ℕ → K
  | 0, arr => arr
  | i + 1, arr => if loc ≤ i then shiftUp loc i (Function.update arr (i + 1) (arr i)) else arr

/-- `bsearch_insert_double`: whether the number was not there, and the array. -/
def bsearchInsertDouble (arr : ℕ → K) (n : ℕ) (ele : K) : Bool × (ℕ → K) :=
  match bsearchDouble arr 0 n ele with
  | (true, _) => (false, arr)
  | (false, loc) => (true, Function.update (shiftUp loc n arr) loc ele)

/-! ## The search -/

/-- What a search finds. -/
inductive Searched (arr : ℕ → K) (base n : ℕ) (ele : K) : Bool × ℕ → Prop
  | found {loc : ℕ} (first : base ≤ loc) (last : loc < base + n) (here : arr loc = ele) :
    Searched arr base n ele (true, loc)
  | absent {loc : ℕ} (first : base ≤ loc) (last : loc ≤ base + n)
    (below : ∀ i, base ≤ i → i < loc → arr i < ele)
    (above : ∀ i, loc ≤ i → i < base + n → ele < arr i) : Searched arr base n ele (false, loc)

variable [IsStrictOrderedRing K] {arr : ℕ → K} {n : ℕ} {ele : K}

/-- **The search.** Among sorted entries, none of which is close to the number but the number itself,
it finds the number or its place. -/
theorem searched {base : ℕ} (sorted : ∀ i j, base ≤ i → i < j → j < base + n → arr i < arr j)
    (exact : ∀ i, base ≤ i → i < base + n → near (arr i) ele → arr i = ele) :
    Searched arr base n ele (bsearchDouble arr base n ele) := by
  fun_induction bsearchDouble arr base n ele with
  | case1 base =>
    exact .absent le_rfl (by omega) (fun i _ _ => by omega) fun i _ _ => by omega
  | case2 base n some close =>
    exact .found (by omega) (by omega) (exact _ (by omega) (by omega) close)
  | case3 base n some far less ih =>
    have upper := ih (fun i j first between last => sorted i j (by omega) between (by omega))
      fun i first last => exact i (by omega) (by omega)
    generalize bsearchDouble arr (base + n / 2 + 1) ((n - 1) / 2) ele = result at upper
    cases upper with
    | found first last here => exact .found (by omega) (by omega) here
    | absent first last below above =>
      refine .absent (by omega) (by omega) (fun i afterBase before => ?_)
        fun i after beforeEnd => above i after (by omega)
      rcases lt_trichotomy i (base + n / 2) with lower | rfl | higher
      · exact (sorted i _ afterBase lower (by omega)).trans less
      · exact less
      · exact below i (by omega) before
  | case4 base n some far notLess ih =>
    have more : ele < arr (base + n / 2) := by
      refine lt_of_le_of_ne (not_lt.mp notLess) fun same => far ?_
      rw [near, same, sub_self, abs_zero]
      exact delta_pos
    have lower := ih (fun i j first between last => sorted i j first between (by omega))
      fun i first last => exact i first (by omega)
    generalize bsearchDouble arr base (n / 2) ele = result at lower
    cases lower with
    | found first last here => exact .found first (by omega) here
    | absent first last below above =>
      refine .absent first (by omega) below fun i after beforeEnd => ?_
      rcases lt_trichotomy i (base + n / 2) with lower | rfl | higher
      · exact above i after (by omega)
      · exact more
      · exact more.trans (sorted _ i (by omega) higher beforeEnd)

/-! ## The insertion -/

/-- An array with the number of its entries. -/
structure Coordinates (K : Type) where
  entry : ℕ → K
  size : ℕ

/-- The entries are those of the set, in order. -/
structure Coordinates.Lists (c : Coordinates K) (s : Finset K) : Prop where
  sorted : ∀ i j, i < j → j < c.size → c.entry i < c.entry j
  mem : ∀ v, v ∈ s ↔ ∃ i < c.size, c.entry i = v

/-- Different numbers are at least `DELTA` apart. -/
def Separated (s : Finset K) : Prop := ∀ a ∈ s, ∀ b ∈ s, a ≠ b → DELTA ≤ |a - b|

variable {c : Coordinates K} {s : Finset K} {v : K}

omit [Field K] [IsStrictOrderedRing K] in
theorem Coordinates.Lists.size_eq (lists : c.Lists s) : c.size = s.card := by
  have image : s = (Finset.range c.size).image c.entry := by
    ext v
    simp only [lists.mem, Finset.mem_image, Finset.mem_range]
  have injective : Set.InjOn c.entry (Finset.range c.size) := by
    intro i iSize j jSize same
    rw [Finset.mem_coe, Finset.mem_range] at iSize jSize
    rcases lt_trichotomy i j with less | equal | more
    · exact absurd same (lists.sorted i j less jSize).ne
    · exact equal
    · exact absurd same (lists.sorted j i more iSize).ne'
  rw [image, Finset.card_image_of_injOn injective, Finset.card_range]

omit [IsStrictOrderedRing K] in
/-- What is close among separated numbers is equal. -/
theorem Separated.eq_of_near {a b : K} (separated : Separated s) (aMember : a ∈ s)
    (bMember : b ∈ s) (close : near a b) : a = b := by
  by_contra different
  exact absurd close (not_lt_of_ge (separated a aMember b bMember different))

/-- A search in the array of a set. -/
theorem Coordinates.Lists.searched (lists : c.Lists s) (separated : Separated (insert v s)) :
    Searched c.entry 0 c.size v (bsearchDouble c.entry 0 c.size v) := by
  refine GpuHotSpot.HotSpotTool.searched
    (fun i j _ between last => lists.sorted i j between (by omega)) fun i _ last close => ?_
  have member : c.entry i ∈ s := (lists.mem _).mpr ⟨i, by omega, rfl⟩
  exact separated.eq_of_near (Finset.mem_insert_of_mem member) (Finset.mem_insert_self v s) close

omit [Field K] [LinearOrder K] [IsStrictOrderedRing K] in
theorem shiftUp_apply (loc n : ℕ) (arr : ℕ → K) (k : ℕ) :
    shiftUp loc n arr k = if loc < k ∧ k ≤ n then arr (k - 1) else arr k := by
  induction n generalizing arr with
  | zero =>
    rw [shiftUp, if_neg (by omega)]
  | succ i ih =>
    rw [shiftUp]
    split_ifs with goes here here
    · rw [ih]
      split_ifs with lower
      · rw [Function.update_of_ne (by omega)]
      · obtain rfl : k = i + 1 := by omega
        rw [Function.update_self, Nat.add_sub_cancel]
    · rw [ih, if_neg (by omega), Function.update_of_ne (by omega)]
    · omega
    · rfl

omit [Field K] [LinearOrder K] [IsStrictOrderedRing K] in
/-- The array after an insertion at `loc`. -/
theorem inserted_apply (loc n : ℕ) (arr : ℕ → K) (v : K) (k : ℕ) :
    Function.update (shiftUp loc n arr) loc v k =
      if k = loc then v else if loc < k ∧ k ≤ n then arr (k - 1) else arr k := by
  split_ifs with here later
  · rw [here, Function.update_self]
  · rw [Function.update_of_ne here, shiftUp_apply, if_pos later]
  · rw [Function.update_of_ne here, shiftUp_apply, if_neg later]

omit [Field K] [IsStrictOrderedRing K] in
/-- An insertion at the place of a number keeps the order and adds the number. -/
theorem lists_inserted {loc : ℕ} (lists : c.Lists s) (last : loc ≤ c.size)
    (below : ∀ i, i < loc → c.entry i < v) (above : ∀ i, loc ≤ i → i < c.size → v < c.entry i) :
    Coordinates.Lists ⟨Function.update (shiftUp loc c.size c.entry) loc v, c.size + 1⟩
      (insert v s) where
  sorted i j less size := by
    simp only [inserted_apply] at size ⊢
    rcases lt_trichotomy i loc with before | rfl | after
    · rw [if_neg before.ne, if_neg (by omega)]
      split_ifs with here later
      · exact below i before
      · exact (below i before).trans (above _ (by omega) (by omega))
      · exact lists.sorted i j less (by omega)
    · rw [if_pos rfl, if_neg less.ne', if_pos (by omega)]
      exact above _ (by omega) (by omega)
    · rw [if_neg after.ne', if_pos (by omega), if_neg (by omega), if_pos (by omega)]
      exact lists.sorted _ _ (by omega) (by omega)
  mem w := by
    simp only [Finset.mem_insert, lists.mem, inserted_apply]
    constructor
    · rintro (rfl | ⟨i, size, rfl⟩)
      · exact ⟨loc, by omega, if_pos rfl⟩
      · rcases lt_or_ge i loc with before | after
        · exact ⟨i, by omega, by rw [if_neg before.ne, if_neg (by omega)]⟩
        · refine ⟨i + 1, by omega, ?_⟩
          rw [if_neg (by omega), if_pos (by omega), Nat.add_sub_cancel]
    · rintro ⟨i, size, rfl⟩
      split_ifs with here later
      · exact .inl rfl
      · exact .inr ⟨i - 1, by omega, rfl⟩
      · exact .inr ⟨i, by omega, rfl⟩

/-- **The insertion.** The number is there, or is added. -/
theorem lists_insert (lists : c.Lists s) (separated : Separated (insert v s)) :
    (v ∈ s ∧ bsearchInsertDouble c.entry c.size v = (false, c.entry)) ∨
      v ∉ s ∧ ∃ arr, bsearchInsertDouble c.entry c.size v = (true, arr) ∧
        Coordinates.Lists ⟨arr, c.size + 1⟩ (insert v s) := by
  have search := lists.searched separated
  rw [bsearchInsertDouble]
  generalize bsearchDouble c.entry 0 c.size v = result at search
  cases search with
  | found first last here => exact .inl ⟨(lists.mem v).mpr ⟨_, by omega, here⟩, rfl⟩
  | @absent loc first last below above =>
    refine .inr ⟨fun member => ?_, _, rfl, lists_inserted lists (by omega)
      (fun i before => below i (by omega) before)
      fun i after size => above i after (by omega)⟩
    obtain ⟨i, size, same⟩ := (lists.mem v).mp member
    rcases lt_or_ge i loc with before | after
    · exact absurd same (below i (by omega) before).ne
    · exact absurd same (above i after (by omega)).ne'

end GpuHotSpot.HotSpotTool
