import Mathlib.Data.Nat.Find
import GpuHotSpot.Lib.StrideWalk

/-!
# The walk over the cores

`getNextCore` and `getFreeCore`, with which `scheduler_pinned.cc` and `scheduler_open.cc` of
`common/scheduler` place a new thread. The walk has the configured interleaving as its stride and
stops at the cores that the mask enables; the loop over free cores ends where it comes back to the
core it started from, which it does not if that core is disabled.

* `walk_fair_iff`: when the walk ends and comes to all enabled cores.
* `initialPlacement_iff`: when in addition both schedulers find a free core.
-/

namespace GpuHotSpot.Common.CoreWalk

open Lib.StrideWalk

/-- The configuration of the walk: the number of cores, the interleaving, and the enabled cores. -/
structure Config where
  applicationCores : ℕ
  interleaving : ℕ
  coreMask : ℕ → Bool
  interleaving_pos : 1 ≤ interleaving
  interleaving_le : interleaving ≤ applicationCores

variable (config : Config)

/-- A pass of the loop of `getNextCore`. -/
def step (core_id : ℕ) : ℕ :=
  if config.applicationCores ≤ core_id + config.interleaving then
    ((core_id + config.interleaving) % config.applicationCores + 1) % config.interleaving
  else core_id + config.interleaving

/-- `getNextCore`, if its loop ends after so many passes. -/
def getNextCore : ℕ → ℕ → Option ℕ
  | 0, _ => none
  | fuel + 1, core_id =>
    if config.coreMask (step config core_id) then some (step config core_id)
    else getNextCore fuel (step config core_id)

/-- The loop of `getFreeCore`. -/
def freeLoop (free : ℕ → Bool) (core_first : ℕ) : ℕ → ℕ → Option ℕ
  | 0, _ => none
  | fuel + 1, core_next =>
    if free core_next then some core_next
    else
      match getNextCore config fuel core_next with
      | none => none
      | some core_next =>
        if core_next = core_first then some core_first
        else freeLoop free core_first fuel core_next

/-- `SchedulerPinned::getFreeCore`, where no thread runs on the idle cores. -/
def SchedulerPinned.getFreeCore (idle : ℕ → Bool) (fuel core_first : ℕ) : Option ℕ :=
  freeLoop config (fun core => idle core && config.coreMask core) core_first fuel core_first

/-- `SchedulerOpen::getFreeCore`, which does not look at the mask. -/
def SchedulerOpen.getFreeCore (idle : ℕ → Bool) (fuel core_first : ℕ) : Option ℕ :=
  freeLoop config idle core_first fuel core_first

/-! ## What they are for -/

/-- The call of `getNextCore` ends with a core. -/
def NextCore (core core' : ℕ) : Prop :=
  ∃ fuel, getNextCore config fuel core = some core'

/-- The walk ends from every core, and comes to every enabled one. -/
structure WalkFair : Prop where
  ends : ∀ c < config.applicationCores, ∃ d, NextCore config c d
  visits : ∀ c < config.applicationCores, ∀ d < config.applicationCores, config.coreMask d →
    Relation.TransGen (NextCore config) c d

/-- The core is enabled, and no thread runs there. -/
def EnabledIdle (idle : ℕ → Bool) (c : ℕ) : Prop :=
  c < config.applicationCores ∧ config.coreMask c ∧ idle c

/-- The call of `getFreeCore` ends from every core, with an enabled idle one if there is any. -/
def FindsFree (idle : ℕ → Bool) (getFreeCore : ℕ → ℕ → Option ℕ) : Prop :=
  ∀ c < config.applicationCores, ∃ fuel r, getFreeCore fuel c = some r ∧
    ((∃ d, EnabledIdle config idle d) → EnabledIdle config idle r)

/-- Both schedulers place a thread. -/
structure InitialPlacement (idle : ℕ → Bool) : Prop where
  walk : WalkFair config
  pinned : FindsFree config idle (SchedulerPinned.getFreeCore config idle)
  openScheduler : FindsFree config idle (SchedulerOpen.getFreeCore config idle)

/-! ## The walk -/

variable {config}

theorem step_eq : step config = stride config.applicationCores config.interleaving := rfl

theorem getNextCore_eq (fuel core : ℕ) :
    getNextCore config fuel core =
      nextHit (stride config.applicationCores config.interleaving) config.coreMask fuel core := by
  induction fuel generalizing core with
  | zero => rfl
  | succ fuel ih => rw [getNextCore, nextHit, ih, step_eq]

theorem nextCore_eq : NextCore config =
    Hits (stride config.applicationCores config.interleaving) config.coreMask := by
  funext c d
  simp only [NextCore, Hits, getNextCore_eq]

/-- The next core is enabled, and some steps away. -/
theorem NextCore.spec {c d : ℕ} (next : NextCore config c d) :
    config.coreMask d = true ∧ ∃ i, (step config)^[i + 1] c = d := by
  rw [nextCore_eq] at next
  obtain ⟨i, there, enabled, -⟩ := hits_iff.1 next
  exact ⟨enabled, i, there⟩

theorem iterate_step_lt {c : ℕ} (inside : c < config.applicationCores) (i : ℕ) :
    (step config)^[i] c < config.applicationCores :=
  iterate_stride_lt config.interleaving_pos config.interleaving_le inside i

/-- The next core is the first enabled one. -/
theorem exists_nextCore {c i : ℕ} (enabled : config.coreMask ((step config)^[i + 1] c) = true) :
    ∃ j ≤ i, NextCore config c ((step config)^[j + 1] c) := by
  rw [nextCore_eq]
  exact exists_hits enabled

/-- **When the walk is fair**: the columns that it goes through one after the other are all. -/
theorem walk_fair_iff (enabled : ∃ c < config.applicationCores, config.coreMask c) :
    WalkFair config ↔ Nat.Coprime (config.applicationCores - 1) config.interleaving := by
  have k_pos := config.interleaving_pos
  have k_le := config.interleaving_le
  obtain ⟨d, target, mask_d⟩ := enabled
  constructor
  · intro fair
    have same : ∀ c < config.applicationCores,
        d ≡ c [MOD Nat.gcd (config.applicationCores - 1) config.interleaving] := by
      intro c inside
      have visited := fair.visits c inside d target mask_d
      rw [nextCore_eq] at visited
      obtain ⟨i, there, -⟩ := transGen_hits_iff.1 visited
      rw [← there]
      exact iterate_stride_modEq k_pos k_le inside (i + 1)
    rcases Nat.lt_or_ge 1 config.applicationCores with several | one
    · have neighbours := (same 1 several).symm.trans (same 0 (by omega))
      exact Nat.eq_one_of_dvd_one ((Nat.modEq_zero_iff_dvd).mp neighbours)
    · have both : config.applicationCores = 1 ∧ config.interleaving = 1 := by omega
      rw [both.1, both.2]
      decide
  · intro coprime
    have reach : ∀ c < config.applicationCores, ∀ e < config.applicationCores,
        ∃ i, (step config)^[i + 1] c = e := fun c inside e target' =>
      exists_iterate_stride k_pos k_le coprime inside target'
    refine ⟨fun c inside => ?_, fun c inside e target' mask_e => ?_⟩
    · obtain ⟨i, there⟩ := reach c inside d target
      obtain ⟨j, -, next⟩ := exists_nextCore (c := c) (i := i) (there ▸ mask_d)
      exact ⟨_, next⟩
    · obtain ⟨i, there⟩ := reach c inside e target'
      rw [nextCore_eq]
      exact transGen_hits_iff.2 ⟨i, there, mask_e⟩

/-! ## The loop over free cores -/

section Loop

variable {free : ℕ → Bool} {core_first c d r : ℕ}

theorem getNextCore_mono {fuel more : ℕ} (le : fuel ≤ more)
    (found : getNextCore config fuel c = some d) : getNextCore config more c = some d := by
  rw [getNextCore_eq] at found ⊢
  exact nextHit_mono le found

theorem freeLoop_mono {fuel more : ℕ} (le : fuel ≤ more)
    (found : freeLoop config free core_first fuel c = some r) :
    freeLoop config free core_first more c = some r := by
  induction fuel generalizing c more with
  | zero => cases found
  | succ fuel ih =>
    obtain ⟨more, rfl⟩ : ∃ more', more = more' + 1 := ⟨more - 1, by omega⟩
    rw [freeLoop] at found ⊢
    by_cases here : free c = true
    · rw [if_pos here] at found ⊢
      exact found
    · rw [if_neg here] at found ⊢
      cases next : getNextCore config fuel c with
      | none =>
        rw [next] at found
        cases found
      | some e =>
        rw [next] at found
        rw [getNextCore_mono (by omega) next]
        dsimp only at found ⊢
        by_cases back : e = core_first
        · rw [if_pos back] at found ⊢
          exact found
        · rw [if_neg back] at found ⊢
          exact ih (by omega) found

variable (config free core_first) in
/-- The loop ends with `r`. -/
def Free (c r : ℕ) : Prop :=
  ∃ fuel, freeLoop config free core_first fuel c = some r

theorem Free.unique {r' : ℕ} (one : Free config free core_first c r)
    (other : Free config free core_first c r') : r = r' := by
  obtain ⟨fuel, found⟩ := one
  obtain ⟨fuel', found'⟩ := other
  have both := freeLoop_mono (Nat.le_max_left fuel fuel') found
  rw [freeLoop_mono (Nat.le_max_right fuel fuel') found'] at both
  exact (Option.some.inj both).symm

/-- A free core ends the loop. -/
theorem Free.here (is_free : free c = true) : Free config free core_first c c :=
  ⟨1, by rw [freeLoop, if_pos is_free]⟩

/-- The core that the loop started from ends it. -/
theorem Free.back (busy : free c = false) (next : NextCore config c core_first) :
    Free config free core_first c core_first := by
  obtain ⟨fuel, next⟩ := next
  refine ⟨fuel + 1, ?_⟩
  rw [freeLoop, busy, next]
  exact if_pos rfl

/-- Otherwise the loop goes on from the next core. -/
theorem Free.next (busy : free c = false) (next : NextCore config c d) (other : d ≠ core_first)
    (rest : Free config free core_first d r) : Free config free core_first c r := by
  obtain ⟨fuel, next⟩ := next
  obtain ⟨fuel', found⟩ := rest
  refine ⟨max fuel fuel' + 1, ?_⟩
  rw [freeLoop, busy, getNextCore_mono (Nat.le_max_left _ _) next]
  dsimp only
  rw [if_neg other, freeLoop_mono (Nat.le_max_right _ _) found]
  rfl

/-- **The loop finds a free core that it comes to before it is back.** -/
theorem exists_free {m : ℕ} (there : free ((step config)^[m] c) = true)
    (enabled : m = 0 ∨ config.coreMask ((step config)^[m] c) = true)
    (before : ∀ l, 0 < l → l ≤ m → (step config)^[l] c ≠ core_first) :
    ∃ i, Free config free core_first c ((step config)^[i] c) ∧ free ((step config)^[i] c) = true ∧
      (i = 0 ∨ config.coreMask ((step config)^[i] c) = true) := by
  induction m using Nat.strong_induction_on generalizing c with
  | h m ih =>
    by_cases is_free : free c = true
    · exact ⟨0, .here is_free, is_free, .inl rfl⟩
    · cases m with
      | zero => exact absurd there is_free
      | succ m =>
        have mask_there : config.coreMask ((step config)^[m + 1] c) = true :=
          enabled.resolve_left (Nat.succ_ne_zero m)
        obtain ⟨j, le, next⟩ := exists_nextCore mask_there
        have shift (l : ℕ) : (step config)^[l] ((step config)^[j + 1] c) =
            (step config)^[l + (j + 1)] c := (Function.iterate_add_apply _ _ _ _).symm
        have rest : m - j + (j + 1) = m + 1 := by omega
        obtain ⟨i, found, i_free, i_enabled⟩ := ih (m - j) (by omega)
          (c := (step config)^[j + 1] c) (by rw [shift, rest]; exact there)
          (by rw [shift, rest]; exact .inr mask_there)
          fun l some_step le' => by
            rw [shift]
            exact before _ (by omega) (by omega)
        rw [shift] at found i_free i_enabled
        refine ⟨i + (j + 1), .next (by simpa using is_free) next (before _ (by omega) (by omega))
          found, i_free, .inr ?_⟩
        rcases i_enabled with rfl | mask_i
        · rw [Nat.zero_add]
          exact next.spec.1
        · exact mask_i

/-- The loop comes back to an enabled core, if it finds no free one before. -/
theorem exists_free_or_back (enabled : config.coreMask core_first = true) {m : ℕ} (some_step : 0 < m)
    (back : (step config)^[m] c = core_first) :
    ∃ r, Free config free core_first c r := by
  induction m using Nat.strong_induction_on generalizing c with
  | h m ih =>
    by_cases is_free : free c = true
    · exact ⟨c, .here is_free⟩
    · have busy : free c = false := by simpa using is_free
      obtain ⟨m, rfl⟩ : ∃ m', m = m' + 1 := ⟨m - 1, by omega⟩
      obtain ⟨j, le, next⟩ := exists_nextCore (c := c) (i := m) (back ▸ enabled)
      by_cases here : (step config)^[j + 1] c = core_first
      · exact ⟨core_first, .back busy (here ▸ next)⟩
      · have less : j ≠ m := by
          rintro rfl
          exact here back
        obtain ⟨r, found⟩ := ih (m - j) (by omega) (c := (step config)^[j + 1] c) (by omega) (by
          rw [← Function.iterate_add_apply, show m - j + (j + 1) = m + 1 by omega]
          exact back)
        exact ⟨r, .next busy next here found⟩

/-- **Without a free enabled core the loop does not end from a disabled one.** -/
theorem freeLoop_diverges (disabled : config.coreMask core_first = false)
    (none_free : ∀ d < config.applicationCores, config.coreMask d = true → free d = false)
    (inside : c < config.applicationCores) (busy : free c = false) (fuel : ℕ) : freeLoop config free core_first fuel c = none := by
  induction fuel generalizing c with
  | zero => rfl
  | succ fuel ih =>
    rw [freeLoop, busy]
    cases next : getNextCore config fuel c with
    | none => rfl
    | some e =>
      obtain ⟨enabled, i, there⟩ := NextCore.spec ⟨fuel, next⟩
      have inside' : e < config.applicationCores := there ▸ iterate_step_lt inside (i + 1)
      have other : e ≠ core_first := by
        rintro rfl
        rw [enabled] at disabled
        cases disabled
      dsimp only
      rw [if_neg other, ih inside' (none_free e inside' enabled)]
      rfl

end Loop

/-! ## Placement -/

/-- On a fair walk every enabled free core is found from everywhere. -/
theorem exists_free_of_coprime (free : ℕ → Bool)
    (coprime : Nat.Coprime (config.applicationCores - 1) config.interleaving) {c d : ℕ}
    (inside : c < config.applicationCores) (target : d < config.applicationCores)
    (enabled : config.coreMask d = true) (is_free : free d = true) :
    ∃ r < config.applicationCores, Free config free c c r ∧ free r = true ∧
      (r = c ∨ config.coreMask r = true) := by
  by_cases here : free c = true
  · exact ⟨c, inside, .here here, here, .inl rfl⟩
  · have reached : ∃ m, (step config)^[m] c = d := by
      obtain ⟨i, there⟩ := exists_iterate_stride config.interleaving_pos config.interleaving_le
        coprime inside target
      exact ⟨i + 1, there⟩
    -- a walk of the least length does not come back before it is there
    obtain ⟨m, there, first⟩ : ∃ m, (step config)^[m] c = d ∧
        ∀ l < m, (step config)^[l] c ≠ d :=
      ⟨Nat.find reached, Nat.find_spec reached, fun l less => Nat.find_min reached less⟩
    have before : ∀ l, 0 < l → l ≤ m → (step config)^[l] c ≠ c := by
      intro l some_step le back
      refine first (m - l) (by omega) ?_
      rw [← there]
      conv_rhs => rw [show m = m - l + l by omega, Function.iterate_add_apply, back]
    have is_there : free ((step config)^[m] c) = true := there.symm ▸ is_free
    obtain ⟨i, found, i_free, i_enabled⟩ :=
      exists_free is_there (.inr (there.symm ▸ enabled)) before
    refine ⟨_, iterate_step_lt inside i, found, i_free, ?_⟩
    rcases i_enabled with rfl | mask_i
    · exact .inl rfl
    · exact .inr mask_i

/-- On a fair walk the loop comes back to an enabled core. -/
theorem exists_free_of_enabled (free : ℕ → Bool)
    (coprime : Nat.Coprime (config.applicationCores - 1) config.interleaving) {c : ℕ}
    (inside : c < config.applicationCores) (enabled : config.coreMask c = true) :
    ∃ r, Free config free c c r := by
  obtain ⟨i, back⟩ := exists_iterate_stride config.interleaving_pos config.interleaving_le coprime
    inside inside
  exact exists_free_or_back enabled (Nat.succ_pos i) back

/-- **When both schedulers place a thread.** The walk is to come to every core; and if a core is
disabled, an enabled core is to be idle, and no disabled one. -/
theorem initialPlacement_iff (config : Config) (idle : ℕ → Bool)
    (enabled : ∃ c < config.applicationCores, config.coreMask c) :
    InitialPlacement config idle ↔ Nat.Coprime (config.applicationCores - 1) config.interleaving ∧
        ((∀ c < config.applicationCores, config.coreMask c) ∨ (∃ d, EnabledIdle config idle d) ∧
            ∀ c < config.applicationCores, idle c → config.coreMask c) := by
  constructor
  · rintro ⟨walk, pinned, openScheduler⟩
    refine ⟨(walk_fair_iff enabled).mp walk, or_iff_not_imp_left.mpr fun not_all => ?_⟩
    push Not at not_all
    obtain ⟨c, inside, disabled⟩ := not_all
    have some_idle : ∃ d, EnabledIdle config idle d := by
      by_contra none_idle
      have disabled : config.coreMask c = false := by simpa using disabled
      obtain ⟨fuel, r, found, -⟩ := pinned c inside
      rw [SchedulerPinned.getFreeCore, freeLoop_diverges disabled (fun d target mask_d => ?_) inside
        (by rw [disabled, Bool.and_false])] at found
      · cases found
      · refine Bool.eq_false_iff.mpr fun is_free => none_idle ⟨d, target, mask_d, ?_⟩
        exact (Bool.and_eq_true_iff.mp is_free).1
    refine ⟨some_idle, fun e inside' is_idle => ?_⟩
    obtain ⟨fuel, r, found, right⟩ := openScheduler e inside'
    have same : r = e := Free.unique ⟨fuel, found⟩ (.here is_idle)
    exact same ▸ (right some_idle).2.1
  · rintro ⟨coprime, mask⟩
    refine ⟨(walk_fair_iff enabled).mpr coprime, fun c inside => ?_, fun c inside => ?_⟩
    · by_cases some_idle : ∃ d, EnabledIdle config idle d
      · obtain ⟨d, target, mask_d, idle_d⟩ := some_idle
        obtain ⟨r, bound, ⟨fuel, found⟩, is_free, -⟩ := exists_free_of_coprime
          (fun core => idle core && config.coreMask core) coprime inside target mask_d
          (by rw [idle_d, mask_d]; rfl)
        rw [Bool.and_eq_true] at is_free
        exact ⟨fuel, r, found, fun _ => ⟨bound, is_free.2, is_free.1⟩⟩
      · have all := mask.resolve_right fun other => some_idle other.1
        obtain ⟨r, fuel, found⟩ := exists_free_of_enabled
          (fun core => idle core && config.coreMask core) coprime inside (all c inside)
        exact ⟨fuel, r, found, fun other => absurd other some_idle⟩
    · by_cases some_idle : ∃ d, EnabledIdle config idle d
      · obtain ⟨d, target, mask_d, idle_d⟩ := id some_idle
        obtain ⟨r, bound, ⟨fuel, found⟩, is_idle, -⟩ :=
          exists_free_of_coprime idle coprime inside target mask_d idle_d
        refine ⟨fuel, r, found, fun _ => ⟨bound, ?_, is_idle⟩⟩
        exact mask.elim (fun all => all r bound) fun other => other.2 r bound is_idle
      · have all := mask.resolve_right fun other => some_idle other.1
        obtain ⟨r, fuel, found⟩ := exists_free_of_enabled idle coprime inside
          (all c inside)
        exact ⟨fuel, r, found, fun other => absurd other some_idle⟩

/-- Four cores with an interleaving of 2, all enabled. -/
theorem initialPlacement_four :
    InitialPlacement ⟨4, 2, fun _ => true, by decide, by decide⟩ fun _ => true :=
  (initialPlacement_iff _ _ ⟨0, by decide, rfl⟩).mpr ⟨by decide, .inl fun _ _ => rfl⟩

/-- Two cores of which core 0 is disabled: a thread is placed while core 1 is idle, but the search
from core 0 does not end once core 1 is busy. -/
theorem not_initialPlacement_masked :
    ¬InitialPlacement ⟨2, 1, fun c => c == 1, by decide, by decide⟩ fun _ => false := by
  intro right
  obtain ⟨fuel, r, found, -⟩ := right.pinned 0 (by decide)
  have diverges : SchedulerPinned.getFreeCore ⟨2, 1, fun c => c == 1, by decide, by decide⟩
      (fun _ => false) fuel 0 = none :=
    freeLoop_diverges rfl (fun _ _ _ => rfl) (by decide) rfl fuel
  exact absurd (found.symm.trans diverges) (Option.some_ne_none r)

end GpuHotSpot.Common.CoreWalk
