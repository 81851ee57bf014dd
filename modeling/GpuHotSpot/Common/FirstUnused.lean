import Mathlib.Data.List.TakeWhile
import GpuHotSpot.Common.SchedulerOpen
import GpuHotSpot.Lib.FirstOccurrences

/-!
# The first unused cores

`common/scheduler/policies/mapFirstUnused.cc` on the preferred cores that `initMappingPolicy` reads
from the configuration. A core that the configuration names twice stays in the order of preference
twice, and `map` counts it twice.

* `map_firstUnused_iff`: when it returns that.
* `map_firstUnused_always_iff`: it does so in all situations if no core is configured twice.
-/

namespace GpuHotSpot.Common.Open

open Lib.FirstOccurrences

variable {m : ℕ}

/-- `initMappingPolicy`: the configured cores up to the first entry that is -1. -/
def initMappingPolicy (getIntArray : Fin m → Option (Fin m)) : List (Fin m) :=
  (((List.finRange m).map getIntArray).takeWhile Option.isSome).filterMap id

/-- `MapFirstUnused::map`. -/
def mapFirstUnused (preferredCore : List (Fin m)) (taskCoreRequirement : ℕ)
    (availableCores : Fin m → Bool) : List (Fin m) :=
  mapLoop taskCoreRequirement availableCores [] (preferredCoresOrder preferredCore)

/-! ## What it is for -/

/-- The order of preference: every core at the first place it has, in the configuration or behind
it. -/
def preference (preferredCore : List (Fin m)) : List (Fin m) :=
  firstOccurrences id [] (preferredCore ++ List.finRange m)

/-- What the policy is to return: the first available cores in the order of preference, all
different, if there are enough, and none otherwise. -/
structure FirstUnused (preferredCore : List (Fin m)) (requirement : ℕ) (available : Fin m → Bool)
    (cores : List (Fin m)) : Prop where
  enough : requirement ≤ (Finset.univ.filter fun c => available c).card →
    cores.length = requirement ∧ cores.Nodup ∧ (∀ c ∈ cores, available c) ∧
      cores = ((preference preferredCore).filter available).take requirement
  few : (Finset.univ.filter fun c => available c).card < requirement → cores = []

/-! ## The order of the policy -/

/-- The available cores as often as the policy counts them. -/
def counted (preferredCore : List (Fin m)) (available : Fin m → Bool) : List (Fin m) :=
  (preferredCoresOrder preferredCore).filter available

/-- **The constructor appends the cores that are not preferred**, in their order. -/
theorem preferredCoresOrder_eq (preferredCore : List (Fin m)) :
    preferredCoresOrder preferredCore =
      preferredCore ++ (List.finRange m).filter (· ∉ preferredCore) := by
  have each : ∀ (l order : List (Fin m)), l.Nodup →
      l.foldl (fun order c => if c ∈ order then order else order ++ [c]) order =
        order ++ l.filter (· ∉ order) := by
    intro l
    induction l with
    | nil => exact fun order _ => (List.append_nil order).symm
    | cons c l ih =>
      intro order nodup
      rcases List.nodup_cons.mp nodup with ⟨new, nodup⟩
      rw [List.foldl_cons]
      by_cases known : c ∈ order
      · rw [if_pos known, ih order nodup, List.filter_cons_of_neg (by simpa using known)]
      · have rest : l.filter (· ∉ order ++ [c]) = l.filter (· ∉ order) := by
          refine List.filter_congr fun d member => ?_
          have other : d ≠ c := fun same => new (same ▸ member)
          simp [other]
        rw [if_neg known, ih _ nodup, rest, List.filter_cons_of_pos (by simpa using known),
          List.append_assoc, List.singleton_append]
  exact each _ _ (List.nodup_finRange m)

/-- Every available core is counted. -/
theorem mem_counted {preferredCore : List (Fin m)} {available : Fin m → Bool} {c : Fin m} :
    c ∈ counted preferredCore available ↔ available c := by
  rw [counted, List.mem_filter]
  exact and_iff_right ((preferredCoresOrder_spec preferredCore).1 c)

/-- The order of preference is that of the policy without its repetitions. -/
theorem preference_eq (preferredCore : List (Fin m)) :
    preference preferredCore = firstOccurrences id [] (preferredCoresOrder preferredCore) := by
  have different (l : List (Fin m)) (nodup : l.Nodup) : l.Pairwise fun c d => id c ≠ id d := nodup
  have distinct := List.nodup_finRange m
  rw [preference, preferredCoresOrder_eq, firstOccurrences_append, firstOccurrences_append,
    firstOccurrences_of_pairwise (different _ distinct),
    firstOccurrences_of_pairwise (different _ (distinct.filter _)), List.filter_filter]
  refine congrArg _ (List.filter_congr fun c _ => ?_)
  simp

/-- So are the available cores in it. -/
theorem preference_filter (preferredCore : List (Fin m)) (available : Fin m → Bool) :
    (preference preferredCore).filter available =
      firstOccurrences id [] (counted preferredCore available) := by
  rw [preference_eq]
  have commute (before : List (Fin m)) (l : List (Fin m)) :
      (firstOccurrences id before l).filter (fun c => available (id c)) =
        firstOccurrences id before (l.filter fun c => available (id c)) :=
    filter_firstOccurrences available fun _ _ => Iff.rfl
  exact commute [] _

/-- The distinct cores among the counted ones are the available ones. -/
theorem length_firstOccurrences_counted (preferredCore : List (Fin m)) (available : Fin m → Bool) :
    (firstOccurrences id [] (counted preferredCore available)).length =
      (Finset.univ.filter fun c => available c).card := by
  have nodup : (firstOccurrences id [] (counted preferredCore available)).Nodup :=
    pairwise_firstOccurrences
  rw [← List.toFinset_card_of_nodup nodup]
  refine congrArg _ (Finset.ext fun c => ?_)
  have left : (∃ d ∈ firstOccurrences id [] (counted preferredCore available), id d = c) ↔
      ∃ d ∈ counted preferredCore available, id d = c :=
    exists_key (by simp)
  simpa only [id, exists_eq_right, List.mem_toFinset, Finset.mem_filter, Finset.mem_univ,
    true_and, mem_counted] using left

/-! ## What it returns -/

/-- **The policy returns the first counted cores**, if as many are counted as required. -/
theorem mapFirstUnused_eq {preferredCore : List (Fin m)} {requirement : ℕ}
    (some_core : 1 ≤ requirement) (available : Fin m → Bool) :
    mapFirstUnused preferredCore requirement available =
      if requirement ≤ (counted preferredCore available).length then
        (counted preferredCore available).take requirement else [] := by
  rw [mapFirstUnused, mapLoop_eq (by exact some_core)]
  simp only [List.length_nil, Nat.zero_add, List.nil_append, Nat.sub_zero]
  rfl

/-- As many different cores as there are available ones can be in front. -/
theorem take_nodup_le {preferredCore : List (Fin m)} {requirement : ℕ} {available : Fin m → Bool}
    (many : requirement ≤ (counted preferredCore available).length)
    (nodup : ((counted preferredCore available).take requirement).Nodup) :
    requirement ≤ (Finset.univ.filter fun c => available c).card := by
  have front : ((counted preferredCore available).take requirement).length = requirement :=
    List.length_take_of_le many
  rw [← front, ← List.toFinset_card_of_nodup nodup]
  refine Finset.card_le_card fun c member => ?_
  have taken := List.mem_of_mem_take (List.mem_toFinset.mp member)
  exact Finset.mem_filter.mpr ⟨Finset.mem_univ c, mem_counted.1 taken⟩

/-- The policy does what it is for if not enough cores are counted, or if the ones in front
differ. -/
theorem firstUnused_iff_counted {preferredCore : List (Fin m)} {requirement : ℕ}
    (some_core : 1 ≤ requirement) (available : Fin m → Bool) :
    FirstUnused preferredCore requirement available
        (mapFirstUnused preferredCore requirement available) ↔
      (counted preferredCore available).length < requirement ∨
        ((counted preferredCore available).take requirement).Nodup := by
  have bound : (Finset.univ.filter fun c => available c).card ≤
      (counted preferredCore available).length := by
    rw [← length_firstOccurrences_counted preferredCore]
    exact sublist_firstOccurrences.length_le
  rw [mapFirstUnused_eq some_core]
  rcases Nat.lt_or_ge (counted preferredCore available).length requirement with few | many
  · rw [if_neg (by omega)]
    exact iff_of_true ⟨fun enough => by omega, fun _ => rfl⟩ (.inl few)
  · have front : ((counted preferredCore available).take requirement).length = requirement :=
      List.length_take_of_le many
    rw [if_pos many]
    constructor
    · intro right
      refine .inr (right.enough ?_).2.1
      by_contra tooFew
      have empty := congrArg List.length (right.few (by omega))
      rw [front, List.length_nil] at empty
      omega
    · rintro (few | nodup)
      · omega
      · have enough := take_nodup_le many nodup
        refine ⟨fun _ => ⟨front, nodup, fun c taken => ?_, ?_⟩, fun few => by omega⟩
        · exact mem_counted.1 (List.mem_of_mem_take taken)
        · rw [preference_filter]
          exact (take_firstOccurrences (fun c _ => by simp) nodup).symm

/-- Repetitions are among the preferred cores. -/
theorem take_counted_nodup_iff {preferredCore : List (Fin m)} {requirement : ℕ}
    {available : Fin m → Bool} :
    ((counted preferredCore available).take requirement).Nodup ↔
      ((preferredCore.filter available).take requirement).Nodup := by
  have rest : (((List.finRange m).filter (· ∉ preferredCore)).filter available).Nodup :=
    ((List.nodup_finRange m).filter _).filter _
  rw [counted, preferredCoresOrder_eq, List.filter_append, List.take_append, List.nodup_append]
  refine ⟨And.left, fun nodup => ⟨nodup, rest.sublist (List.take_sublist _ _), ?_⟩⟩
  rintro c front d behind rfl
  have preferred := (List.mem_filter.mp (List.mem_of_mem_take front)).1
  have unpreferred := (List.mem_filter.mp (List.mem_filter.mp (List.mem_of_mem_take behind)).1).2
  exact absurd preferred (by simpa using unpreferred)

/-- **When the policy returns the first unused cores.** Either the available entries of the
configuration and the available cores that it does not name are fewer than required, or the entries
that are taken are all different. -/
theorem mapFirstUnused_iff (getIntArray : Fin m → Option (Fin m)) (available : Fin m → Bool)
    {requirement : ℕ} (some_core : 1 ≤ requirement) :
    FirstUnused (initMappingPolicy getIntArray) requirement available
        (mapFirstUnused (initMappingPolicy getIntArray) requirement available) ↔
      ((initMappingPolicy getIntArray).filter available).length +
          (((List.finRange m).filter (· ∉ initMappingPolicy getIntArray)).filter available).length <
            requirement ∨
        (((initMappingPolicy getIntArray).filter available).take requirement).Nodup := by
  rw [firstUnused_iff_counted some_core, take_counted_nodup_iff, counted, preferredCoresOrder_eq,
    List.filter_append, List.length_append]

/-- Core 0 is configured twice, which a task that requires one core does not notice. -/
theorem mapFirstUnused_repeated :
    FirstUnused (initMappingPolicy fun c : Fin 3 => if c = 2 then none else some 0) 1 (fun _ => true)
      (mapFirstUnused (initMappingPolicy fun c : Fin 3 => if c = 2 then none else some 0) 1
        fun _ => true) :=
  (mapFirstUnused_iff _ _ (by decide)).mpr (.inr (by decide))

/-- The configuration 0, 0 on two cores: a task that requires both gets core 0 twice. -/
theorem not_mapFirstUnused_repeated :
    ¬FirstUnused (initMappingPolicy fun _ : Fin 2 => some 0) 2 (fun _ => true)
      (mapFirstUnused (initMappingPolicy fun _ : Fin 2 => some 0) 2 fun _ => true) := by
  intro right
  exact absurd (right.enough (by decide)).2.1 (by decide)

/-- **The policy is right in all situations if and only if no core is configured twice.** -/
theorem mapFirstUnused_always_iff (preferredCore : List (Fin m)) :
    (∀ (available : Fin m → Bool) (requirement : ℕ), 1 ≤ requirement →
        FirstUnused preferredCore requirement available
          (mapFirstUnused preferredCore requirement available)) ↔ preferredCore.Nodup := by
  constructor
  · intro always
    rcases Nat.eq_zero_or_pos preferredCore.length with none | some_core
    · exact List.length_eq_zero_iff.mp none ▸ List.nodup_nil
    · rcases (firstUnused_iff_counted some_core fun _ => true).mp (always _ _ some_core) with
        few | nodup
      · rw [counted, preferredCoresOrder_eq, List.filter_eq_self.mpr (fun _ _ => rfl),
          List.length_append] at few
        omega
      · rw [take_counted_nodup_iff, List.filter_eq_self.mpr (fun _ _ => rfl),
          List.take_length] at nodup
        exact nodup
  · intro nodup available requirement some_core
    refine (firstUnused_iff_counted some_core available).mpr (.inr ?_)
    exact take_counted_nodup_iff.2 ((nodup.filter _).sublist (List.take_sublist _ _))

end GpuHotSpot.Common.Open
