import Mathlib

/-!
# The loop predictor

`common/performance_model/branch_predictors/lpb.h` with `saturating_predictor.h`: a table whose
entries count how often a branch goes one way before it goes the other way.

* `LoopState.update`: what an entry learns of an outcome.
* `Follows.of_formed`, `Follows.update`: an entry that has seen two repetitions of a loop follows it
  from then on.
* `learns`: so does the whole predictor, from the fourth repetition on.
* `not_predicted_of_long`: a loop that is too long for the counter is never learned.

A table has an entry for each index; there are 64 in the one that is used.
-/

namespace GpuHotSpot.Common.LoopPredictor

/-! ## Entries -/

/-- `SaturatingPredictor`, of `n` bits. -/
structure SaturatingPredictor where
  counter : ℤ
  deriving DecidableEq, Repr

namespace SaturatingPredictor

def predict (s : SaturatingPredictor) : Bool := 0 ≤ s.counter

def reset (n : ℕ) (prediction : Bool) : SaturatingPredictor :=
  if prediction then ⟨2 ^ (n - 1) - 1⟩ else ⟨-2 ^ (n - 1)⟩

def update (n : ℕ) (actual : Bool) (s : SaturatingPredictor) : SaturatingPredictor :=
  if actual then
    if s.counter ≠ 2 ^ (n - 1) - 1 then ⟨s.counter + 1⟩ else s
  else if s.counter ≠ -2 ^ (n - 1) then ⟨s.counter - 1⟩ else s

end SaturatingPredictor

/-- What an entry keeps of its branch. -/
structure LoopState where
  previousActual : Bool
  enabled : Bool
  predictor : SaturatingPredictor
  count : ℕ
  limit : ℕ
  deriving DecidableEq, Repr

namespace LoopState

/-- An entry of a new table. -/
def unused : LoopState := ⟨false, false, ⟨0⟩, 0, 0⟩

/-- What `lookup` predicts with the entry. -/
def prediction (e : LoopState) : Bool :=
  if e.count = e.limit then !e.predictor.predict else e.predictor.predict

/-- `prediction_match`. -/
def predictionMatch (actual : Bool) (e : LoopState) : Bool :=
  if e.count = e.limit then e.predictor.predict ≠ actual else e.predictor.predict = actual

/-- The counter, limit and flag of the same direction. The counters are numbers of 32 bits. -/
def sameDirection (actual : Bool) (e : LoopState) : LoopState :=
  if e.predictionMatch actual then
    { e with count := if e.count = e.limit then 0 else (e.count + 1) % 2 ^ 32 }
  else if e.count < e.limit then { e with count := 0, limit := e.count }
  else { e with
    count := (e.count + 1) % 2 ^ 32
    limit := (e.count + 1) % 2 ^ 32
    enabled := false }

/-- What `update` does to an entry with the tag of the branch. -/
def update (actual : Bool) (e : LoopState) : LoopState :=
  let next :=
    if e.previousActual = actual ∧ actual = !e.predictor.predict then
      { e with count := 1, limit := 1, predictor := e.predictor.update 1 actual, enabled := false }
    else if e.previousActual ≠ actual ∧ actual = !e.predictor.predict then
      if e.enabled then e.sameDirection actual else { e with enabled := true, count := 0 }
    else e.sameDirection actual
  { next with previousActual := actual }

/-- What `update` makes of an entry that is taken for another branch; it stays enabled if it was. -/
def replace (actual : Bool) (e : LoopState) : LoopState :=
  { e with predictor := .reset 1 actual, previousActual := actual, count := 1, limit := 1 }

end LoopState

/-! ## The table -/

structure Entry where
  tag : ℕ
  lru : ℕ
  loop : LoopState
  deriving DecidableEq, Repr

/-- The ways, each with its entries by index. -/
structure LoopBranchPredictor where
  lruUseCount : ℕ
  ways : ℕ → ℕ → Entry

/-- `BranchPredictorReturnValue`. -/
structure ReturnValue where
  hit : Bool
  prediction : Bool
  deriving DecidableEq, Repr

/-- The index of `gen_index_tag`. -/
def index (ip : ℕ) : ℕ := (ip >>> 4) &&& 0x3F

/-- The tag of `gen_index_tag`. -/
def tag (ip : ℕ) : ℕ := (ip >>> 10) &&& 0x3F

/-- A call of the predictor. -/
inductive Call
  | lookup (ip : ℕ)
  | update (ip : ℕ) (actual : Bool)
  deriving DecidableEq, Repr

/-- The branch of a call. -/
def Call.ip : Call → ℕ
  | .lookup ip => ip
  | .update ip _ => ip

namespace LoopBranchPredictor

def create : LoopBranchPredictor := ⟨0, fun _ _ => ⟨0, 0, .unused⟩⟩

/-- An entry changes. -/
def modify (w i : ℕ) (f : Entry → Entry) (s : LoopBranchPredictor) : LoopBranchPredictor :=
  { s with ways := Function.update s.ways w (Function.update (s.ways w) i (f (s.ways w i))) }

/-- An entry is the most recent one. -/
def use (w i : ℕ) (s : LoopBranchPredictor) : LoopBranchPredictor :=
  { s.modify w i fun e => { e with lru := s.lruUseCount } with lruUseCount := s.lruUseCount + 1 }

section Calls

variable (numWays : ℕ)

/-- The first way with the tag of the branch. -/
def find (ip : ℕ) (s : LoopBranchPredictor) : Option ℕ :=
  (List.range numWays).find? fun w => (s.ways w (index ip)).tag = tag ip

/-- The first of the least recently used ways. -/
def lruWay (i : ℕ) (s : LoopBranchPredictor) : ℕ :=
  (List.range numWays).foldl (fun best w =>
    if (s.ways w i).lru < (s.ways best i).lru then w else best) 0

def lookup (ip : ℕ) (s : LoopBranchPredictor) : ReturnValue × LoopBranchPredictor :=
  match (List.range numWays).find? fun w =>
    (s.ways w (index ip)).loop.enabled ∧ (s.ways w (index ip)).tag = tag ip with
  | none => (⟨false, false⟩, s)
  | some w => (⟨true, (s.ways w (index ip)).loop.prediction⟩, s.use w (index ip))

def update (ip : ℕ) (actual : Bool) (s : LoopBranchPredictor) : LoopBranchPredictor :=
  match s.find numWays ip with
  | some w =>
    (s.modify w (index ip) fun e => { e with loop := e.loop.update actual }).use w (index ip)
  | none =>
    let w := s.lruWay numWays (index ip)
    (s.modify w (index ip) fun e => { e with tag := tag ip, loop := e.loop.replace actual }).use w
      (index ip)

def step (s : LoopBranchPredictor) : Call → LoopBranchPredictor
  | .lookup ip => (s.lookup numWays ip).2
  | .update ip actual => s.update numWays ip actual

def run (calls : List Call) (s : LoopBranchPredictor) : LoopBranchPredictor :=
  calls.foldl (step numWays) s

/-- A state that calls lead to. -/
def Reachable (s : LoopBranchPredictor) : Prop := ∃ calls, s = run numWays calls create

end Calls

end LoopBranchPredictor

/-! ## Loops -/

/-- The outcomes of a branch that goes `n` times in the direction `d`, and then once the other
way. -/
def pattern (n : ℕ) (d : Bool) (k : ℕ) : Bool := if k % (n + 1) < n then d else !d

/-- The outcomes of a branch in some calls. -/
def outcomes (ip : ℕ) (calls : List Call) : List Bool :=
  calls.filterMap fun
    | .lookup _ => none
    | .update other actual => if other = ip then some actual else none

/-- A call is about the branch itself or one of another set; or it is about another one in the set
and leaves the entry of the branch where it is. -/
def Spares (numWays ip : ℕ) (s : LoopBranchPredictor) (call : Call) : Prop :=
  call.ip = ip ∨ index call.ip ≠ index ip ∨
    tag call.ip ≠ tag ip ∧ ∀ w, s.find numWays ip = some w →
      (s.step numWays call).find numWays ip = some w

/-- A branch repeats its pattern, and its entry is not replaced meanwhile. -/
structure Repeats (numWays ip n : ℕ) (d : Bool) (s : LoopBranchPredictor) (calls : List Call) :
    Prop where
  follows : ∀ k actual, (outcomes ip calls)[k]? = some actual → actual = pattern n d k
  spared : ∀ before call after, calls = before ++ call :: after →
    Spares numWays ip (s.run numWays before) call

/-! ## What an entry learns -/

namespace LoopState

variable {e : LoopState} {d : Bool} {n : ℕ}

/-- What holds of every entry. -/
structure Formed (e : LoopState) : Prop where
  counter : e.predictor.counter = 0 ∨ e.predictor.counter = -1
  order : e.count ≤ e.limit
  small : e.limit < 2 ^ 32

theorem predict_update (formed : e.Formed) (actual : Bool) :
    (e.predictor.update 1 actual).predict = actual ∧
      ((e.predictor.update 1 actual).counter = 0 ∨ (e.predictor.update 1 actual).counter = -1) := by
  cases actual
  · rcases formed.counter with zero | minus
    · simp [SaturatingPredictor.update, SaturatingPredictor.predict, zero]
    · simp [SaturatingPredictor.update, SaturatingPredictor.predict, minus]
  · rcases formed.counter with zero | minus
    · simp [SaturatingPredictor.update, SaturatingPredictor.predict, zero]
    · simp [SaturatingPredictor.update, SaturatingPredictor.predict, minus]

/-- An outcome in the direction of the entry. -/
theorem update_loop (same : e.predictor.predict = d) : e.update d = if e.count = e.limit then
      { e with
        previousActual := d
        count := (e.count + 1) % 2 ^ 32
        limit := (e.count + 1) % 2 ^ 32
        enabled := false }
    else { e with previousActual := d, count := (e.count + 1) % 2 ^ 32 } := by
  have along : ¬ d = !d := by cases d <;> decide
  rw [update, same, if_neg fun both => along both.2, if_neg fun both => along both.2, sameDirection,
    predictionMatch, same]
  by_cases full : e.count = e.limit
  · simp [full]
  · simp [full]

/-- An outcome in the other direction, twice in a row. -/
theorem update_turn (other : e.predictor.predict = !d) (again : e.previousActual = d) :
    e.update d = { e with
      count := 1, limit := 1, predictor := e.predictor.update 1 d, enabled := false } := by
  rw [update, other, Bool.not_not, if_pos ⟨again, rfl⟩, again]

/-- An outcome in the other direction, after one in that of the entry. -/
theorem update_exit (formed : e.Formed) (other : e.predictor.predict = !d)
    (first : e.previousActual = !d) : e.update d = { e with
      previousActual := d
      count := 0
      limit := if e.enabled then e.count else e.limit
      enabled := true } := by
  have differs : e.previousActual ≠ d := by
    rw [first]
    cases d <;> decide
  rw [update, other, Bool.not_not, if_neg fun both => differs both.1, if_pos ⟨differs, rfl⟩]
  by_cases enabled : e.enabled = true
  · rw [if_pos enabled, if_pos enabled, sameDirection, predictionMatch, other]
    by_cases full : e.count = e.limit
    · simp [full, enabled]
    · have shorter := lt_of_le_of_ne formed.order full
      simp [full, shorter, enabled]
  · rw [if_neg enabled, if_neg enabled]

/-- The three kinds of outcomes. -/
theorem formed_update (formed : e.Formed) (actual : Bool) : (e.update actual).Formed := by
  obtain ⟨counter, order, small⟩ := formed
  by_cases same : e.predictor.predict = actual
  · rw [update_loop same]
    split_ifs with full
    · exact ⟨counter, le_rfl, Nat.mod_lt _ (by decide)⟩
    · refine ⟨counter, ?_, small⟩
      show (e.count + 1) % 2 ^ 32 ≤ e.limit
      have shorter := lt_of_le_of_ne order full
      rw [Nat.mod_eq_of_lt (by omega)]
      exact shorter
  · have other : e.predictor.predict = !actual := Bool.eq_not.2 same
    by_cases again : e.previousActual = actual
    · rw [update_turn other again]
      exact ⟨(predict_update ⟨counter, order, small⟩ actual).2, le_rfl,
        Nat.one_lt_two_pow (by decide)⟩
    · rw [update_exit ⟨counter, order, small⟩ other (Bool.eq_not.2 again)]
      refine ⟨counter, Nat.zero_le _, ?_⟩
      show (if e.enabled = true then e.count else e.limit) < 2 ^ 32
      split_ifs
      · omega
      · exact small

theorem formed_replace (e : LoopState) (actual : Bool) : (e.replace actual).Formed := by
  refine ⟨?_, le_rfl, Nat.one_lt_two_pow (by decide)⟩
  cases actual
  · exact .inr rfl
  · exact .inl rfl

/-! ## Repetitions -/

/-- The entry follows the loop, of which it has seen `i` outcomes. A loop of one outcome may be
followed in either direction. -/
structure Follows (n : ℕ) (d : Bool) (i : ℕ) (e : LoopState) : Prop where
  formed : e.Formed
  enabled : e.enabled = true
  previous : e.previousActual = if i = 0 then !d else d
  counts : e.predictor.predict = d ∧ e.count = i ∧ e.limit = n ∨
    n = 1 ∧ e.predictor.predict = (!d) ∧ e.count = 1 - i ∧ e.limit = 1

/-- What an entry that follows a loop predicts. -/
theorem Follows.prediction {i : ℕ} (follows : e.Follows n d i) (inside : i ≤ n) :
    e.prediction = if i < n then d else !d := by
  rw [LoopState.prediction]
  rcases follows.counts with ⟨direction, count, limit⟩ | ⟨rfl, direction, count, limit⟩
  · rw [direction, count, limit]
    by_cases before : i < n
    · rw [if_pos before, if_neg before.ne]
    · rw [if_neg before, if_pos (by omega)]
  · rw [direction, count, limit, Bool.not_not]
    by_cases before : i < 1
    · rw [if_pos before, if_pos (by omega)]
    · rw [if_neg before, if_neg (by omega)]

/-- **An entry that follows a loop goes on doing so.** -/
theorem Follows.update {i : ℕ} (follows : e.Follows n d i) (inside : i ≤ n) (some : 0 < n)
    (small : n < 2 ^ 32) :
    (e.update (if i < n then d else !d)).Follows n d (if i < n then i + 1 else 0) := by
  have formed := formed_update follows.formed (if i < n then d else !d)
  obtain ⟨before, enabled, previous, counts⟩ := follows
  by_cases within : i < n
  · rw [if_pos within] at formed ⊢
    rw [if_pos within]
    rcases counts with ⟨direction, count, limit⟩ | ⟨rfl, direction, count, limit⟩
    · have room : e.count ≠ e.limit := by omega
      rw [update_loop direction, if_neg room] at formed ⊢
      refine ⟨formed, enabled, ?_, .inl ⟨direction, ?_, limit⟩⟩
      · rw [if_neg (Nat.succ_ne_zero i)]
      · show (e.count + 1) % 2 ^ 32 = i + 1
        rw [Nat.mod_eq_of_lt (by omega), count]
    · obtain rfl : i = 0 := by omega
      rw [if_pos rfl] at previous
      rw [update_exit before direction previous, if_pos enabled] at formed ⊢
      exact ⟨formed, rfl, rfl, .inr ⟨rfl, direction, rfl, count⟩⟩
  · obtain rfl : i = n := by omega
    rw [if_neg within] at formed ⊢
    rw [if_neg within]
    rw [if_neg some.ne'] at previous
    rcases counts with ⟨direction, count, limit⟩ | ⟨rfl, direction, count, limit⟩
    · have other : e.predictor.predict = !!d := by rw [direction, Bool.not_not]
      have first : e.previousActual = !!d := by rw [previous, Bool.not_not]
      rw [update_exit before other first, if_pos enabled] at formed ⊢
      exact ⟨formed, rfl, rfl, .inl ⟨direction, rfl, count⟩⟩
    · have room : e.count ≠ e.limit := by omega
      rw [update_loop direction, if_neg room] at formed ⊢
      refine ⟨formed, enabled, rfl, .inr ⟨rfl, direction, ?_, limit⟩⟩
      show (e.count + 1) % 2 ^ 32 = 1 - 0
      omega

/-- The entry after `m` outcomes of the loop, the first of which is number `k`. -/
def after (n : ℕ) (d : Bool) (k : ℕ) : ℕ → LoopState → LoopState
  | 0, e => e
  | m + 1, e => (after n d k m e).update (pattern n d (k + m))

variable {k m : ℕ}

theorem after_add (n : ℕ) (d : Bool) (k m m' : ℕ) (e : LoopState) :
    after n d k (m + m') e = after n d (k + m) m' (after n d k m e) := by
  induction m' with
  | zero => rfl
  | succ m' ih => rw [← Nat.add_assoc, after, after, ih, Nat.add_assoc]

theorem formed_after (formed : e.Formed) : (after n d k m e).Formed := by
  induction m with
  | zero => exact formed
  | succ m ih => exact formed_update ih _

theorem Follows.after (follows : e.Follows n d (k % (n + 1))) (some : 0 < n) (small : n < 2 ^ 32) :
    (after n d k m e).Follows n d ((k + m) % (n + 1)) := by
  induction m with
  | zero => exact follows
  | succ m ih =>
    have below : (k + m) % (n + 1) < n + 1 := Nat.mod_lt _ (Nat.succ_pos n)
    have next := Follows.update ih (Nat.le_of_lt_succ below) some small
    rw [LoopState.after, pattern, ← Nat.add_assoc, Nat.add_mod (k + m) 1]
    by_cases within : (k + m) % (n + 1) < n
    · rw [if_pos within] at next
      rwa [Nat.mod_eq_of_lt (by omega : 1 < n + 1), Nat.mod_eq_of_lt (by omega)]
    · rw [if_neg within] at next
      rwa [Nat.mod_eq_of_lt (by omega : 1 < n + 1),
        show (k + m) % (n + 1) + 1 = n + 1 by omega, Nat.mod_self]

/-- A repetition: `n` outcomes in one direction and one in the other. -/
theorem after_repetition (start : k % (n + 1) = 0) (inside : m ≤ n) :
    after n d k m e = (update d)^[m] e := by
  induction m with
  | zero => rfl
  | succ m ih =>
    have position : (k + m) % (n + 1) = m := by
      rw [Nat.add_mod, start, Nat.zero_add, Nat.mod_mod, Nat.mod_eq_of_lt (by omega)]
    rw [after, ih (by omega), pattern, position, if_pos (by omega), Function.iterate_succ_apply']

theorem after_whole (start : k % (n + 1) = 0) :
    after n d k (n + 1) e = ((update d)^[n] e).update (!d) := by
  have position : (k + n) % (n + 1) = n := by
    rw [Nat.add_mod, start, Nat.zero_add, Nat.mod_mod, Nat.mod_eq_of_lt (by omega)]
  rw [after, after_repetition start le_rfl, pattern, position, if_neg (lt_irrefl n)]

/-- The entry has seen the end of a repetition. -/
structure Aligned (n : ℕ) (d : Bool) (e : LoopState) : Prop where
  formed : e.Formed
  previous : e.previousActual = !d
  counts : e.predictor.predict = d ∧ e.enabled = true ∧ e.count = 0 ∨
    n = 1 ∧ e.predictor.predict = (!d) ∧ e.count = 1 ∧ (e.enabled = true ∨ e.limit = 1)

/-- The end of a repetition, in the direction of the entry. -/
theorem Aligned.of_exit (formed : e.Formed) (direction : e.predictor.predict = d)
    (previous : e.previousActual = d) : (e.update (!d)).Aligned n d := by
  have after := formed_update formed (!d)
  rw [update_exit formed (by rw [direction, Bool.not_not])
    (by rw [previous, Bool.not_not])] at after ⊢
  exact ⟨after, rfl, .inl ⟨direction, rfl, rfl⟩⟩

/-- The second of two outcomes turns the entry in their direction. -/
theorem direction_update (formed : e.Formed) (previous : e.previousActual = d) :
    (e.update d).predictor.predict = d ∧ (e.update d).previousActual = d := by
  by_cases same : e.predictor.predict = d
  · rw [update_loop same]
    split_ifs
    · exact ⟨same, rfl⟩
    · exact ⟨same, rfl⟩
  · rw [update_turn (Bool.eq_not.2 same) previous]
    exact ⟨(predict_update formed d).1, previous⟩

theorem direction_iterate (formed : e.Formed) (previous : e.previousActual = d)
    (direction : e.predictor.predict = d) (m : ℕ) : ((update d)^[m] e).Formed ∧
      ((update d)^[m] e).predictor.predict = d ∧ ((update d)^[m] e).previousActual = d := by
  induction m with
  | zero => exact ⟨formed, direction, previous⟩
  | succ m ih =>
    rw [Function.iterate_succ_apply']
    exact ⟨formed_update ih.1 d, direction_update ih.1 ih.2.2⟩

/-- A loop of one outcome, in the direction that is not its own. -/
theorem update_exit_loop (formed : e.Formed) (other : e.predictor.predict = !d)
    (first : e.previousActual = !d) : (e.update d).update (!d) =
    if (if e.enabled then e.count else e.limit) = 0 then
      { e with previousActual := !d, count := 1, limit := 1, enabled := false }
    else
      { e with
        previousActual := !d
        count := 1
        limit := if e.enabled then e.count else e.limit
        enabled := true } := by
  rw [update_exit formed other first]
  have next := @update_loop { e with
    previousActual := d
    count := 0
    limit := if e.enabled then e.count else e.limit
    enabled := true } (!d) other
  exact next.trans (if_congr eq_comm rfl rfl)

/-- **The first repetition** aligns any entry. -/
theorem Aligned.of_formed (formed : e.Formed) (some : 0 < n) (start : k % (n + 1) = 0) :
    (after n d k (n + 1) e).Aligned n d := by
  rw [after_whole start]
  obtain ⟨m, rfl⟩ : ∃ m, n = m + 1 := ⟨n - 1, by omega⟩
  rw [Function.iterate_succ_apply]
  have first := formed_update formed d
  by_cases direction : (e.update d).predictor.predict = d
  · obtain ⟨formed', direction', previous'⟩ := direction_iterate first rfl direction m
    exact .of_exit formed' direction' previous'
  · cases m with
    | succ m =>
      rw [Function.iterate_succ_apply]
      obtain ⟨turned, previous⟩ := direction_update first rfl
      obtain ⟨formed', direction', previous'⟩ :=
        direction_iterate (formed_update first d) previous turned m
      exact .of_exit formed' direction' previous'
    | zero =>
      -- Only a loop of one outcome may leave the entry in the other direction.
      have other : e.predictor.predict = !d := by
        refine Bool.eq_not.2 fun same => direction ?_
        rw [update_loop same]
        split_ifs
        · exact same
        · exact same
      have before : e.previousActual = !d :=
        Bool.eq_not.2 fun previous => direction (direction_update formed previous).1
      rw [Function.iterate_zero, id_eq]
      have second := formed_update first (!d)
      rw [update_exit_loop formed other before] at second ⊢
      generalize (if e.enabled = true then e.count else e.limit) = limit at second ⊢
      split_ifs at second ⊢
      · exact ⟨second, rfl, .inr ⟨rfl, other, rfl, .inr rfl⟩⟩
      · exact ⟨second, rfl, .inr ⟨rfl, other, rfl, .inl rfl⟩⟩

/-- The counter of an aligned entry in the next repetition. -/
theorem count_iterate (formed : e.Formed) (direction : e.predictor.predict = d)
    (enabled : e.enabled = true) (zero : e.count = 0) (small : m < 2 ^ 32) :
    ((update d)^[m] e).count = m ∧
      (((update d)^[m] e).enabled = true ∨ ((update d)^[m] e).limit = m) ∧
      ((update d)^[m] e).predictor.predict = d ∧ ((update d)^[m] e).Formed := by
  induction m with
  | zero => exact ⟨zero, .inl enabled, direction, formed⟩
  | succ m ih =>
    obtain ⟨count, either, direction', formed'⟩ := ih (by omega)
    have after := formed_update formed' d
    have next : (((update d)^[m] e).count + 1) % 2 ^ 32 = m + 1 := by
      rw [count, Nat.mod_eq_of_lt small]
    rw [Function.iterate_succ_apply']
    rw [update_loop direction'] at after ⊢
    split_ifs at after ⊢ with full
    · exact ⟨next, .inr next, direction', after⟩
    · refine ⟨next, either.imp_right fun limit => absurd ?_ full, direction', after⟩
      rw [count, limit]

/-- **The second repetition** teaches the loop to an aligned entry. -/
theorem Aligned.follows (aligned : e.Aligned n d) (some : 0 < n) (small : n < 2 ^ 32)
    (start : k % (n + 1) = 0) : (after n d k (n + 1) e).Follows n d 0 := by
  rw [after_whole start]
  obtain ⟨formed, previous, counts⟩ := aligned
  rcases counts with ⟨direction, enabled, zero⟩ | ⟨rfl, direction, one, either⟩
  · obtain ⟨count, either, direction', formed'⟩ :=
      count_iterate (m := n) formed direction enabled zero small
    have previous' : ((update d)^[n] e).previousActual = d := by
      obtain ⟨m, rfl⟩ : ∃ m, n = m + 1 := ⟨n - 1, by omega⟩
      rw [Function.iterate_succ_apply']
      rfl
    have after := formed_update formed' (!d)
    rw [update_exit formed' (by rw [direction', Bool.not_not])
      (by rw [previous', Bool.not_not])] at after ⊢
    refine ⟨after, rfl, rfl, .inl ⟨direction', rfl, ?_⟩⟩
    show (if ((update d)^[n] e).enabled = true then ((update d)^[n] e).count
      else ((update d)^[n] e).limit) = n
    split_ifs with enabled'
    · exact count
    · exact either.resolve_left enabled'
  · have limit : (if e.enabled = true then e.count else e.limit) = 1 := by
      split_ifs with enabled
      · exact one
      · exact either.resolve_left enabled
    have after := formed_update (formed_update formed d) (!d)
    rw [Function.iterate_one]
    rw [update_exit_loop formed direction previous, limit, if_neg Nat.one_ne_zero] at after ⊢
    exact ⟨after, rfl, rfl, .inr ⟨rfl, direction, rfl, rfl⟩⟩

/-- **Two repetitions** teach a loop to any entry. -/
theorem Follows.of_formed (formed : e.Formed) (some : 0 < n) (small : n < 2 ^ 32)
    (start : k % (n + 1) = 0) : (LoopState.after n d k (2 * (n + 1)) e).Follows n d 0 := by
  rw [Nat.two_mul, after_add]
  refine Aligned.follows (Aligned.of_formed formed some start) some small ?_
  rw [Nat.add_mod_right, start]

end LoopState

/-! ## What a call does to the table -/

namespace LoopBranchPredictor

variable {numWays ip i w : ℕ} {s : LoopBranchPredictor} {actual : Bool}

theorem ways_modify (w i : ℕ) (f : Entry → Entry) (s : LoopBranchPredictor) (w' i' : ℕ) :
    (s.modify w i f).ways w' i' = if w' = w ∧ i' = i then f (s.ways w i) else s.ways w' i' := by
  rw [modify]
  by_cases way : w' = w
  · subst way
    by_cases place : i' = i
    · subst place
      simp
    · simp [place]
  · simp [way]

@[simp] theorem tag_use (w i w' i' : ℕ) (s : LoopBranchPredictor) :
    ((s.use w i).ways w' i').tag = (s.ways w' i').tag := by
  show ((s.modify w i fun e => { e with lru := s.lruUseCount }).ways w' i').tag = _
  rw [ways_modify]
  split_ifs with same
  · rw [same.1, same.2]
  · rfl

@[simp] theorem loop_use (w i w' i' : ℕ) (s : LoopBranchPredictor) :
    ((s.use w i).ways w' i').loop = (s.ways w' i').loop := by
  show ((s.modify w i fun e => { e with lru := s.lruUseCount }).ways w' i').loop = _
  rw [ways_modify]
  split_ifs with same
  · rw [same.1, same.2]
  · rfl

theorem find_eq_some_iff : s.find numWays ip = some w ↔
    w < numWays ∧ (s.ways w (index ip)).tag = tag ip ∧
      ∀ v < w, (s.ways v (index ip)).tag ≠ tag ip := by
  rw [find, List.find?_range_eq_some]
  simp only [decide_eq_true_eq, List.mem_range, Bool.not_eq_true', decide_eq_false_iff_not]
  exact ⟨fun ⟨same, low, first⟩ => ⟨low, same, first⟩, fun ⟨low, same, first⟩ => ⟨same, low, first⟩⟩

theorem find_eq_none_iff : s.find numWays ip = none ↔
    ∀ v < numWays, (s.ways v (index ip)).tag ≠ tag ip := by
  simp [find]

/-- Two tables with the same tags in a set. -/
theorem find_congr {s' : LoopBranchPredictor}
    (same : ∀ v < numWays, (s'.ways v (index ip)).tag = (s.ways v (index ip)).tag) :
    s'.find numWays ip = s.find numWays ip := by
  rw [find, find]
  refine List.find?_congr fun v member => ?_
  rw [same v (List.mem_range.1 member)]

theorem lruWay_lt (some : 0 < numWays) (i : ℕ) (s : LoopBranchPredictor) :
    s.lruWay numWays i < numWays := by
  have bounded (ws : List ℕ) (best : ℕ) (low : best < numWays) (all : ∀ w ∈ ws, w < numWays) :
      ws.foldl (fun best w => if (s.ways w i).lru < (s.ways best i).lru then w else best) best <
        numWays := by
    induction ws generalizing best with
    | nil => exact low
    | cons w ws ih =>
      refine ih _ ?_ fun v member => all v (List.mem_cons_of_mem _ member)
      dsimp only
      split_ifs
      · exact all w List.mem_cons_self
      · exact low
  exact bounded _ 0 some fun w member => List.mem_range.1 member

/-- An update of an entry with the tag. -/
theorem update_found (found : s.find numWays ip = some w) (w' i' : ℕ) :
    (((s.update numWays ip actual).ways w' i').tag = (s.ways w' i').tag) ∧
      ((s.update numWays ip actual).ways w' i').loop =
        if w' = w ∧ i' = index ip then (s.ways w (index ip)).loop.update actual
        else (s.ways w' i').loop := by
  rw [update, found]
  simp only [tag_use, loop_use, ways_modify]
  split_ifs with same
  · rw [same.1, same.2]
    exact ⟨rfl, rfl⟩
  · exact ⟨rfl, rfl⟩

/-- An update that takes an entry for the branch. -/
theorem update_missing (missing : s.find numWays ip = none) (w' i' : ℕ) :
    (((s.update numWays ip actual).ways w' i').tag =
        if w' = s.lruWay numWays (index ip) ∧ i' = index ip then tag ip else (s.ways w' i').tag) ∧
      ((s.update numWays ip actual).ways w' i').loop =
        if w' = s.lruWay numWays (index ip) ∧ i' = index ip then
          (s.ways (s.lruWay numWays (index ip)) (index ip)).loop.replace actual
        else (s.ways w' i').loop := by
  rw [update, missing]
  simp only [tag_use, loop_use, ways_modify]
  split_ifs <;> exact ⟨rfl, rfl⟩

/-- A lookup leaves the tags and the loops. -/
theorem lookup_same (w' i' : ℕ) :
    (((s.lookup numWays ip).2.ways w' i').tag = (s.ways w' i').tag) ∧
      ((s.lookup numWays ip).2.ways w' i').loop = (s.ways w' i').loop := by
  rw [lookup]
  split
  · exact ⟨rfl, rfl⟩
  · exact ⟨tag_use .., loop_use ..⟩

/-- What holds of every table: of the ways with one tag in a set, only the first is in use. -/
structure Formed (numWays : ℕ) (s : LoopBranchPredictor) : Prop where
  entries : ∀ w i, (s.ways w i).loop.Formed
  single : ∀ i v w, v < w → w < numWays → (s.ways v i).tag = (s.ways w i).tag →
    (s.ways w i).loop.enabled = false

theorem formed_create : Formed numWays create :=
  ⟨fun _ _ => ⟨.inl rfl, le_rfl, Nat.two_pow_pos 32⟩, fun _ _ _ _ _ _ => rfl⟩

theorem Formed.step (formed : s.Formed numWays) (call : Call) :
    (s.step numWays call).Formed numWays := by
  cases call with
  | lookup ip =>
    refine ⟨fun w i => ?_, fun i v w less low same => ?_⟩
    · rw [LoopBranchPredictor.step, (lookup_same w i).2]
      exact formed.entries w i
    · rw [LoopBranchPredictor.step, (lookup_same v i).1, (lookup_same w i).1] at same
      rw [LoopBranchPredictor.step, (lookup_same w i).2]
      exact formed.single i v w less low same
  | update ip actual =>
    rw [LoopBranchPredictor.step]
    cases found : s.find numWays ip with
    | some way =>
      have first := (find_eq_some_iff.1 found).2
      refine ⟨fun w i => ?_, fun i v w less low same => ?_⟩
      · rw [(update_found found w i).2]
        split_ifs
        · exact LoopState.formed_update (formed.entries _ _) actual
        · exact formed.entries w i
      · rw [(update_found found v i).1, (update_found found w i).1] at same
        rw [(update_found found w i).2]
        split_ifs with here
        · obtain ⟨rfl, rfl⟩ := here
          exact absurd (same.trans first.1) (first.2 v less)
        · exact formed.single i v w less low same
    | none =>
      have missing := find_eq_none_iff.1 found
      refine ⟨fun w i => ?_, fun i v w less low same => ?_⟩
      · rw [(update_missing found w i).2]
        split_ifs
        · exact LoopState.formed_replace _ actual
        · exact formed.entries w i
      · -- The new tag is that of no other way of the set.
        rw [(update_missing found v i).1, (update_missing found w i).1] at same
        rw [(update_missing found w i).2]
        by_cases here : w = s.lruWay numWays (index ip) ∧ i = index ip
        · have other : ¬ (v = s.lruWay numWays (index ip) ∧ i = index ip) :=
            fun there => less.ne (there.1.trans here.1.symm)
          rw [if_neg other, if_pos here, here.2] at same
          exact absurd same (missing v (less.trans low))
        · rw [if_neg here] at same ⊢
          split_ifs at same with there
          · rw [there.2] at same
            exact absurd same.symm (missing w low)
          · exact formed.single i v w less low same

theorem Formed.run (formed : s.Formed numWays) (calls : List Call) :
    (s.run numWays calls).Formed numWays := by
  induction calls generalizing s with
  | nil => exact formed
  | cons call calls ih => exact ih (formed.step call)

theorem Reachable.formed (reachable : s.Reachable numWays) : s.Formed numWays := by
  obtain ⟨calls, rfl⟩ := reachable
  exact formed_create.run calls

/-- **A lookup** hits the entry of the branch if that is enabled. -/
theorem lookup_of_enabled (found : s.find numWays ip = some w)
    (enabled : (s.ways w (index ip)).loop.enabled = true) :
    (s.lookup numWays ip).1 = ⟨true, (s.ways w (index ip)).loop.prediction⟩ := by
  obtain ⟨low, same, first⟩ := find_eq_some_iff.1 found
  have hit : (List.range numWays).find? (fun w =>
      (s.ways w (index ip)).loop.enabled ∧ (s.ways w (index ip)).tag = tag ip) = some w := by
    rw [List.find?_range_eq_some]
    refine ⟨by simp [enabled, same], List.mem_range.2 low, fun v less => ?_⟩
    simp [first v less]
  rw [lookup, hit]

/-- And it misses if that is not enabled. -/
theorem lookup_of_not_enabled (formed : s.Formed numWays) (found : s.find numWays ip = some w)
    (disabled : (s.ways w (index ip)).loop.enabled = false) :
    (s.lookup numWays ip).1.hit = false := by
  obtain ⟨low, same, first⟩ := find_eq_some_iff.1 found
  have miss : (List.range numWays).find? (fun w =>
      (s.ways w (index ip)).loop.enabled ∧ (s.ways w (index ip)).tag = tag ip) = none := by
    rw [List.find?_eq_none]
    intro v member
    have inside := List.mem_range.1 member
    rw [decide_eq_true_eq]
    rintro ⟨enabled, tagged⟩
    rcases Nat.lt_trichotomy v w with before | rfl | after
    · exact first v before tagged
    · rw [disabled] at enabled
      exact absurd enabled (by decide)
    · rw [formed.single _ w v after inside (same.trans tagged.symm)] at enabled
      exact absurd enabled (by decide)
  rw [lookup, miss]

/-! ## Runs -/

variable {n k : ℕ} {d : Bool} {calls : List Call}

/-- After `k` outcomes of the branch the table has its entry, which has seen them, but for the first
one perhaps. -/
structure Knows (numWays ip n : ℕ) (d : Bool) (k : ℕ) (s : LoopBranchPredictor) : Prop where
  formed : s.Formed numWays
  seen : 0 < k → ∃ w e, e.Formed ∧ s.find numWays ip = some w ∧
    (s.ways w (index ip)).loop = LoopState.after n d 1 (k - 1) e

theorem outcomes_concat (ip : ℕ) (calls : List Call) (call : Call) :
    outcomes ip (calls ++ [call]) = outcomes ip calls ++ outcomes ip [call] :=
  List.filterMap_append

/-- An outcome of the branch. -/
theorem Knows.own (knows : s.Knows numWays ip n d k) (some : 0 < numWays) :
    (s.update numWays ip (pattern n d k)).Knows numWays ip n d (k + 1) := by
  have formed : (s.update numWays ip (pattern n d k)).Formed numWays :=
    knows.formed.step (.update ip (pattern n d k))
  refine ⟨formed, fun _ => ?_⟩
  rw [Nat.add_sub_cancel]
  cases found : s.find numWays ip with
  | some w =>
    have still : (s.update numWays ip (pattern n d k)).find numWays ip = .some w := by
      rw [find_congr fun v _ => (update_found found v (index ip)).1, found]
    have loop : ((s.update numWays ip (pattern n d k)).ways w (index ip)).loop =
        (s.ways w (index ip)).loop.update (pattern n d k) := by
      rw [(update_found found w (index ip)).2, if_pos ⟨rfl, rfl⟩]
    rcases Nat.eq_zero_or_pos k with rfl | later
    · exact ⟨w, _, formed.entries w (index ip), still, rfl⟩
    · obtain ⟨w', e, before, found', seen⟩ := knows.seen later
      cases found.symm.trans found'
      refine ⟨w, e, before, still, ?_⟩
      obtain ⟨j, rfl⟩ : ∃ j, k = j + 1 := ⟨k - 1, by omega⟩
      rw [loop, seen, Nat.add_sub_cancel, LoopState.after, Nat.add_comm 1 j]
  | none =>
    rcases Nat.eq_zero_or_pos k with rfl | later
    · have missing := find_eq_none_iff.1 found
      refine ⟨s.lruWay numWays (index ip), _, formed.entries _ (index ip), ?_, rfl⟩
      rw [find_eq_some_iff, (update_missing found _ _).1, if_pos ⟨rfl, rfl⟩]
      refine ⟨lruWay_lt some _ s, rfl, fun v less => ?_⟩
      rw [(update_missing found v _).1, if_neg fun both => less.ne both.1]
      exact missing v (less.trans (lruWay_lt some _ s))
    · obtain ⟨w, -, -, found', -⟩ := knows.seen later
      exact nomatch found.symm.trans found'

/-- A call about another branch leaves the entry, if it is not replaced. -/
theorem Knows.other (knows : s.Knows numWays ip n d k) {other : ℕ} (apart : index other ≠ index ip ∨
      tag other ≠ tag ip ∧ ∀ w, s.find numWays ip = some w →
        (s.update numWays other actual).find numWays ip = some w) :
    (s.update numWays other actual).Knows numWays ip n d k := by
  refine ⟨knows.formed.step (.update other actual), fun later => ?_⟩
  obtain ⟨w, e, before, found, seen⟩ := knows.seen later
  have tagged := (find_eq_some_iff.1 found).2.1
  refine ⟨w, e, before, ?_, ?_⟩
  · rcases apart with set | ⟨-, kept⟩
    · rw [← found]
      refine find_congr fun v _ => ?_
      cases found' : s.find numWays other with
      | some way => exact (update_found found' v (index ip)).1
      | none => rw [(update_missing found' v (index ip)).1, if_neg fun both => set both.2.symm]
    · exact kept w found
  · rw [← seen]
    cases found' : s.find numWays other with
    | some way =>
      rw [(update_found found' w (index ip)).2, if_neg]
      rintro ⟨rfl, set⟩
      rcases apart with other' | ⟨tags, -⟩
      · exact other' set.symm
      · have tagged' := (find_eq_some_iff.1 found').2.1
        rw [← set] at tagged'
        exact tags (tagged'.symm.trans tagged)
    | none =>
      rw [(update_missing found' w (index ip)).2, if_neg]
      rintro ⟨way, set⟩
      rcases apart with other' | ⟨tags, kept⟩
      · exact other' set.symm
      · have now := (find_eq_some_iff.1 (kept w found)).2.1
        rw [(update_missing found' w (index ip)).1, if_pos ⟨way, set⟩] at now
        exact tags now

/-- **One call** of the run. -/
theorem Knows.step (knows : s.Knows numWays ip n d k) (some : 0 < numWays) {call : Call}
    (spares : Spares numWays ip s call)
    (follows : ∀ actual, call = .update ip actual → actual = pattern n d k) :
    (s.step numWays call).Knows numWays ip n d (k + (outcomes ip [call]).length) := by
  cases call with
  | lookup other =>
    have length : (outcomes ip [.lookup other]).length = 0 := rfl
    rw [length, Nat.add_zero]
    refine ⟨knows.formed.step (.lookup other), fun later => ?_⟩
    obtain ⟨w, e, before, found, seen⟩ := knows.seen later
    refine ⟨w, e, before, ?_, ?_⟩
    · rw [← found]
      exact find_congr fun v _ => (lookup_same v (index ip)).1
    · rw [← seen]
      exact (lookup_same w (index ip)).2
  | update other actual =>
    by_cases same : other = ip
    · subst same
      have length : (outcomes other [.update other actual]).length = 1 := by simp [outcomes]
      rw [length, follows actual rfl]
      exact knows.own some
    · have length : (outcomes ip [.update other actual]).length = 0 := by simp [outcomes, same]
      rw [length]
      exact knows.other (spares.resolve_left same)

theorem run_concat (calls : List Call) (call : Call) :
    s.run numWays (calls ++ [call]) = (s.run numWays calls).step numWays call := by
  rw [run, run, List.foldl_append]
  rfl

/-- **A run**: the table knows as many outcomes as there were. -/
theorem Knows.run (formed : s.Formed numWays) (some : 0 < numWays)
    (repeats : Repeats numWays ip n d s calls) {before after : List Call}
    (split : calls = before ++ after) :
    (s.run numWays before).Knows numWays ip n d (outcomes ip before).length := by
  induction before using List.reverseRecOn generalizing after with
  | nil => exact ⟨formed, fun later => absurd later (Nat.lt_irrefl 0)⟩
  | append_singleton before call ih =>
    rw [List.append_assoc, List.singleton_append] at split
    have knows := ih split
    rw [run_concat, outcomes_concat, List.length_append]
    refine knows.step some (repeats.spared before call after split) fun actual same => ?_
    refine repeats.follows _ actual ?_
    rw [split, outcomes, List.filterMap_append, same]
    simp [outcomes]

/-- **The loop predictor learns every loop** that its counter has room for: from the fourth
repetition on, each lookup of the branch hits and predicts the outcome. -/
theorem learns (loop : 0 < n) (small : n < 2 ^ 32) (some : 0 < numWays)
    (reachable : s.Reachable numWays) (repeats : Repeats numWays ip n d s calls)
    {before after : List Call} (split : calls = before ++ .lookup ip :: after)
    (fourth : 3 * (n + 1) ≤ (outcomes ip before).length) :
    ((s.run numWays before).lookup numWays ip).1 =
      ⟨true, pattern n d (outcomes ip before).length⟩ := by
  have knows := Knows.run reachable.formed some repeats split
  generalize (outcomes ip before).length = k at fourth knows ⊢
  obtain ⟨w, e, formed, found, seen⟩ := knows.seen (by omega)
  -- The first repetition, the two that teach the loop, and the rest.
  have parts : k - 1 = n + (2 * (n + 1) + (k - 3 * (n + 1))) := by omega
  have follows : ((s.run numWays before).ways w (index ip)).loop.Follows n d (k % (n + 1)) := by
    have taught := LoopState.Follows.of_formed (d := d) (LoopState.formed_after (n := n) (d := d)
      (k := 1) (m := n) formed) loop small (k := 1 + n) (by rw [Nat.add_comm 1 n, Nat.mod_self])
    rw [seen, parts, LoopState.after_add, LoopState.after_add]
    have start : (1 + n + 2 * (n + 1)) % (n + 1) = 0 := by
      rw [Nat.add_comm 1 n, Nat.add_mul_mod_self_right, Nat.mod_self]
    rw [← start] at taught
    have rest := taught.after (m := k - 3 * (n + 1)) loop small
    rwa [show 1 + n + 2 * (n + 1) + (k - 3 * (n + 1)) = k by omega] at rest
  rw [lookup_of_enabled found follows.enabled,
    follows.prediction (Nat.le_of_lt_succ (Nat.mod_lt k (Nat.succ_pos n)))]
  rfl

/-- Lookups and updates of one branch by turns, for the outcomes from number `k` on. -/
def session (n : ℕ) (d : Bool) (k m : ℕ) : List Call :=
  (List.range m).flatMap fun i => [.lookup 0, .update 0 (pattern n d (k + i))]

theorem session_succ (n : ℕ) (d : Bool) (k m : ℕ) : session n d k (m + 1) =
    session n d k m ++ [.lookup 0, .update 0 (pattern n d (k + m))] := by
  rw [session, List.range_succ, List.flatMap_append, List.flatMap_singleton]
  rfl

theorem session_add (n : ℕ) (d : Bool) (k m m' : ℕ) :
    session n d k (m + m') = session n d k m ++ session n d (k + m) m' := by
  induction m' with
  | zero => exact (List.append_nil _).symm
  | succ m' ih =>
    rw [← Nat.add_assoc, session_succ, session_succ, ih, List.append_assoc, Nat.add_assoc]

theorem outcomes_session (n : ℕ) (d : Bool) (k m : ℕ) :
    outcomes 0 (session n d k m) = (List.range m).map fun i => pattern n d (k + i) := by
  induction m with
  | zero => rfl
  | succ m ih =>
    rw [session_succ, outcomes, List.filterMap_append, List.range_succ, List.map_append]
    exact congrArg₂ _ ih rfl

theorem repeats_session (numWays n : ℕ) (d : Bool) (s : LoopBranchPredictor) (m : ℕ) :
    Repeats numWays 0 n d s (session n d 0 m) := by
  refine ⟨fun k actual outcome => ?_, fun before call after split => .inl ?_⟩
  · rw [outcomes_session, List.getElem?_map, Option.map_eq_some_iff] at outcome
    obtain ⟨i, found, rfl⟩ := outcome
    obtain ⟨-, rfl⟩ := List.getElem?_eq_some_iff.1 found
    rw [List.getElem_range, Nat.zero_add]
  · have member : call ∈ session n d 0 m := by
      rw [split]
      simp
    rw [session, List.mem_flatMap] at member
    obtain ⟨i, -, member⟩ := member
    simp only [List.mem_cons, List.not_mem_nil, or_false] at member
    rcases member with rfl | rfl
    · rfl
    · rfl

/-- A loop of two outcomes, in a table of one way. -/
theorem learns_two : ((create.run 1 (session 2 true 0 9)).lookup 1 0).1 = ⟨true, true⟩ :=
  (learns (by decide) (by decide) (by decide) ⟨[], rfl⟩ (repeats_session 1 2 true create 10)
    (session_succ 2 true 0 9) (by decide)).trans (by decide)

/-! ## Loops that are too long -/

/-- An entry does not predict `2 ^ 32` outcomes in one direction. -/
theorem not_predicted_of_long {e : LoopState} (formed : e.Formed) (long : 2 ^ 32 ≤ n) :
    ¬ ∀ m < n, ((LoopState.update d)^[m] e).enabled = true ∧
      ((LoopState.update d)^[m] e).prediction = d := by
  intro predicted
  have disabled {e : LoopState} (other : e.predictor.predict = !d) (again : e.previousActual = d) :
      (e.update d).enabled = false := by rw [LoopState.update_turn other again]
  by_cases direction : e.predictor.predict = d
  · -- The counter goes up with every outcome, and stays below the limit.
    have counts (m : ℕ) (inside : m < n) : ((LoopState.update d)^[m] e).predictor.predict = d ∧
        ((LoopState.update d)^[m] e).count = e.count + m ∧
        ((LoopState.update d)^[m] e).limit = e.limit ∧ e.count + m < e.limit := by
      have below {e' : LoopState} (formed : e'.Formed) (direction : e'.predictor.predict = d)
          (right : e'.prediction = d) : e'.count < e'.limit := by
        refine lt_of_le_of_ne formed.order fun full => ?_
        rw [LoopState.prediction, if_pos full, direction] at right
        cases d <;> exact absurd right (by decide)
      induction m with
      | zero => exact ⟨direction, rfl, rfl, below formed direction (predicted 0 inside).2⟩
      | succ m ih =>
        obtain ⟨direction', count, limit, room⟩ := ih (by omega)
        have apart : ((LoopState.update d)^[m] e).count ≠ ((LoopState.update d)^[m] e).limit := by
          omega
        have small := formed.small
        have next : (LoopState.update d)^[m + 1] e = { (LoopState.update d)^[m] e with
            previousActual := d
            count := (((LoopState.update d)^[m] e).count + 1) % 2 ^ 32 } := by
          rw [Function.iterate_succ_apply', LoopState.update_loop direction', if_neg apart]
        have right := (predicted (m + 1) inside).2
        rw [next] at right ⊢
        have counted : (((LoopState.update d)^[m] e).count + 1) % 2 ^ 32 = e.count + (m + 1) := by
          rw [count, Nat.mod_eq_of_lt (by omega)]
          rfl
        refine ⟨direction', counted, limit, ?_⟩
        rw [LoopState.prediction] at right
        dsimp only at right
        rw [counted, limit, direction'] at right
        split_ifs at right with full
        · cases d <;> exact absurd right (by decide)
        · omega
    have last := (counts (2 ^ 32 - 1) (by omega)).2.2.2
    have small := formed.small
    omega
  · have other : e.predictor.predict = !d := Bool.eq_not.2 direction
    by_cases again : e.previousActual = d
    · have first := (predicted 1 (by omega)).1
      rw [Function.iterate_one, disabled other again] at first
      exact absurd first (by decide)
    · have second := (predicted 2 (by omega)).1
      have exit := LoopState.update_exit formed other (Bool.eq_not.2 again)
      have turn : ((e.update d).update d).enabled = false := by
        rw [exit]
        exact @disabled { e with
          previousActual := d
          count := 0
          limit := if e.enabled then e.count else e.limit
          enabled := true } other rfl
      rw [Function.iterate_succ_apply, Function.iterate_one, turn] at second
      exact absurd second (by decide)

theorem run_append (calls calls' : List Call) :
    s.run numWays (calls ++ calls') = (s.run numWays calls).run numWays calls' :=
  List.foldl_append

/-- The entry of the branch in a repetition. -/
theorem loop_session (found : s.find numWays 0 = some w) (start : k % (n + 1) = 0) {m : ℕ}
    (inside : m ≤ n) : (s.run numWays (session n d k m)).find numWays 0 = some w ∧
      ((s.run numWays (session n d k m)).ways w (index 0)).loop =
        (LoopState.update d)^[m] (s.ways w (index 0)).loop := by
  induction m with
  | zero => exact ⟨found, rfl⟩
  | succ m ih =>
    obtain ⟨found', loop⟩ := ih (by omega)
    have position : pattern n d (k + m) = d := by
      rw [pattern, Nat.add_mod, start, Nat.zero_add, Nat.mod_mod, Nat.mod_eq_of_lt (by omega),
        if_pos (by omega)]
    rw [session_succ, run_append, position]
    generalize s.run numWays (session n d k m) = t at found' loop ⊢
    show ((t.lookup numWays 0).2.update numWays 0 d).find numWays 0 = _ ∧
      (((t.lookup numWays 0).2.update numWays 0 d).ways w (index 0)).loop = _
    have looked : (t.lookup numWays 0).2.find numWays 0 = some w := by
      rw [find_congr fun v _ => (lookup_same v (index 0)).1, found']
    refine ⟨?_, ?_⟩
    · rw [find_congr fun v _ => (update_found looked v (index 0)).1, looked]
    · rw [(update_found looked w (index 0)).2, if_pos ⟨rfl, rfl⟩, (lookup_same w (index 0)).2,
        loop, Function.iterate_succ_apply']

/-- A loop of `2 ^ 32` outcomes is not learned. -/
theorem not_learns_long : ¬ ∀ (numWays ip n : ℕ) (d : Bool) (s : LoopBranchPredictor)
    (calls before after : List Call), 0 < n → 0 < numWays → s.Reachable numWays →
    Repeats numWays ip n d s calls → calls = before ++ .lookup ip :: after →
    3 * (n + 1) ≤ (outcomes ip before).length → ((s.run numWays before).lookup numWays ip).1 =
      ⟨true, pattern n d (outcomes ip before).length⟩ := by
  intro all
  obtain ⟨n, long⟩ : ∃ n, 2 ^ 32 ≤ n := ⟨2 ^ 32, le_rfl⟩
  have reachable : create.Reachable 1 := ⟨[], rfl⟩
  have repeats := repeats_session 1 n true create (4 * (n + 1))
  have knows : (create.run 1 (session n true 0 (3 * (n + 1)))).Knows 1 0 n true
      (outcomes 0 (session n true 0 (3 * (n + 1)))).length := by
    have split : session n true 0 (4 * (n + 1)) = session n true 0 (3 * (n + 1)) ++
        session n true (0 + 3 * (n + 1)) (n + 1) := by
      rw [← session_add, show 3 * (n + 1) + (n + 1) = 4 * (n + 1) by omega]
    exact Knows.run reachable.formed (by decide) repeats split
  rw [outcomes_session, List.length_map, List.length_range] at knows
  obtain ⟨w, e, -, found, -⟩ := knows.seen (by omega)
  refine not_predicted_of_long (d := true) (knows.formed.entries w (index 0)) long
    fun m inside => ?_
  have start : (0 + 3 * (n + 1)) % (n + 1) = 0 := by rw [Nat.zero_add, Nat.mul_mod_left]
  obtain ⟨found', loop⟩ := loop_session (d := true) found start inside.le
  have length : (outcomes 0 (session n true 0 (3 * (n + 1) + m))).length = 3 * (n + 1) + m := by
    rw [outcomes_session, List.length_map, List.length_range]
  have hits := all 1 0 n true create (session n true 0 (4 * (n + 1)))
    (session n true 0 (3 * (n + 1) + m))
    (.update 0 (pattern n true (0 + (3 * (n + 1) + m))) ::
      session n true (0 + (3 * (n + 1) + m + 1)) (n - m)) (by omega) (by decide) reachable repeats
    (by
      rw [show 4 * (n + 1) = 3 * (n + 1) + m + 1 + (n - m) by omega, session_add, session_succ,
        List.append_assoc]
      rfl) (by omega)
  rw [length, session_add, run_append] at hits
  have formed : ((create.run 1 (session n true 0 (3 * (n + 1)))).run 1
      (session n true (0 + 3 * (n + 1)) m)).Formed 1 := knows.formed.run _
  have position : pattern n true (3 * (n + 1) + m) = true := by
    rw [pattern, Nat.mul_comm, Nat.mul_add_mod, Nat.mod_eq_of_lt (by omega), if_pos inside]
  rw [← loop]
  cases enabled : ((((create.run 1 (session n true 0 (3 * (n + 1)))).run 1
      (session n true (0 + 3 * (n + 1)) m)).ways w (index 0)).loop).enabled with
  | false =>
    have miss := lookup_of_not_enabled formed found' enabled
    rw [hits] at miss
    exact nomatch miss
  | true =>
    rw [lookup_of_enabled found' enabled, position] at hits
    exact ⟨rfl, (ReturnValue.mk.inj hits).2⟩

end LoopBranchPredictor

end GpuHotSpot.Common.LoopPredictor
