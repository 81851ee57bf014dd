import GpuHotSpot.Common.VictimSelection
import GpuHotSpot.Lib.Recency

/-!
# True LRU

A set of `cache_set_lru.cc` with one attempt, of up to 256 ways, while no way is in an upgrade.

* `Ordered`: the counter of a way is its place in the list of the ways by recency.
* `Ordered.choice`: what `getReplacementIndex` returns then.
* `Stacked`: the lines of a set are the first ones of the list of all lines by recency, as many as
  the set has ways.
* `lru_isTrue`: the counters are in the order of the last uses, a way that is not in use is filled
  first, else the one that was not used for longest; and a set with one more way holds all lines of
  one that has served the same accesses.
-/

namespace GpuHotSpot.Common.Caches

open Fallible Lib.Recency

/-! ## Uses of ways -/

/-- The event puts a line in an upgrade. -/
def SetEvent.Upgrades : SetEvent → Prop
  | .setCState _ cstate => cstate = .sharedUpgrading
  | _ => False

namespace CacheSet

/-- The way that a step uses: that of a hit, or of a new line. -/
def usedWays (associativity : ℕ) : SetEvent → CacheSet → List ℕ
  | .access tag updateReplacement, set =>
    if updateReplacement then (set.find associativity tag).toList else []
  | .insert _ cntlr, set =>
    match set.replacer.getReplacementIndex associativity set.ways cntlr with
    | .ok (index, _) => [index]
    | .error _ => []
  | .invalidate _, _ => []
  | .setCState _ _, _ => []

/-- The way was used after another one. Before their first use the ways count as used one after the
other, from the last to the first. -/
def UsedAfter (associativity : ℕ) (uses : List ℕ) (v w : ℕ) : Prop :=
  (uses.reverse ++ List.range associativity).idxOf v <
    (uses.reverse ++ List.range associativity).idxOf w

/-- What true LRU is, after some uses of ways. -/
structure TrueLru (associativity : ℕ) (uses : List ℕ) (set : CacheSet) : Prop where
  counters : ∃ s, set.replacer = .lru s ∧
    ((List.range associativity).map s.lruBits).Perm (List.range associativity) ∧
    ∀ v < associativity, ∀ w < associativity,
      s.lruBits v < s.lruBits w ↔ UsedAfter associativity uses v w
  choice : 0 < associativity → ∀ cntlr, ∃ index replacer,
    set.replacer.getReplacementIndex associativity set.ways cntlr = .ok (index, replacer) ∧
    index < associativity ∧
    (HasInvalid associativity set.ways → ¬ (set.ways index).isValid) ∧
    (¬ HasInvalid associativity set.ways →
      ∀ w < associativity, w ≠ index → UsedAfter associativity uses w index)

/-! ## Counters -/

variable {associativity : ℕ} {uses : List ℕ} {set : CacheSet} {s : CacheSetLRU}

/-- The counters are the places of the ways by recency, and no way is in an upgrade. -/
structure Ordered (associativity : ℕ) (uses : List ℕ) (set : CacheSet) (s : CacheSetLRU) :
    Prop where
  replacer : set.replacer = .lru s
  one : s.numAttempts = 1
  known : ∀ a ∈ uses, a ∈ List.range associativity
  places : ∀ w < associativity,
    s.lruBits w = (recency uses (List.range associativity)).idxOf w
  settled : ∀ i, isValidReplacement set.ways i

namespace Ordered

theorem perm (ordered : Ordered associativity uses set s) :
    (recency uses (List.range associativity)).Perm (List.range associativity) :=
  recency_perm ordered.known

theorem mem (ordered : Ordered associativity uses set s) {w : ℕ} (inside : w < associativity) :
    w ∈ recency uses (List.range associativity) :=
  ordered.perm.mem_iff.mpr (List.mem_range.mpr inside)

/-- The counters of different ways differ. -/
theorem injective (ordered : Ordered associativity uses set s) {v w : ℕ}
    (first : v < associativity) (second : w < associativity)
    (same : s.lruBits v = s.lruBits w) : v = w := by
  rw [ordered.places v first, ordered.places w second] at same
  exact (List.idxOf_inj (ordered.mem first)).mp same

theorem bits_lt (ordered : Ordered associativity uses set s) {w : ℕ} (inside : w < associativity) :
    s.lruBits w < associativity := by
  have place := List.idxOf_lt_length_of_mem (ordered.mem inside)
  rwa [← ordered.places w inside, ordered.perm.length_eq, List.length_range] at place

/-- **The counters are a permutation of the ways.** -/
theorem map_perm (ordered : Ordered associativity uses set s) :
    ((List.range associativity).map s.lruBits).Perm (List.range associativity) := by
  have nodup := ordered.perm.nodup_iff.mpr List.nodup_range
  have length := ordered.perm.length_eq
  rw [List.length_range] at length
  have places : (List.range associativity).map s.lruBits =
      (List.range associativity).map (recency uses (List.range associativity)).idxOf :=
    List.map_congr_left fun w member => ordered.places w (List.mem_range.mp member)
  have own : (recency uses (List.range associativity)).map
      (recency uses (List.range associativity)).idxOf = List.range associativity := by
    refine List.ext_getElem (by rw [List.length_map, length, List.length_range]) ?_
    intro i inside _
    rw [List.length_map] at inside
    rw [List.getElem_map, nodup.idxOf_getElem i inside, List.getElem_range]
  rw [places]
  exact (ordered.perm.symm.map _).trans (.of_eq own)

/-- **The counters are in the order of the last uses.** -/
theorem bits_lt_iff (ordered : Ordered associativity uses set s) {v w : ℕ}
    (first : v < associativity) (second : w < associativity) :
    s.lruBits v < s.lruBits w ↔ UsedAfter associativity uses v w := by
  rw [ordered.places v first, ordered.places w second, UsedAfter]
  exact idxOf_recency_lt ordered.known (List.mem_range.mpr first) (List.mem_range.mpr second)

/-- **The choice:** a way that is not in use, or the way with the highest counter. -/
theorem choice (ordered : Ordered associativity uses set s) (positive : 0 < associativity)
    (cntlr : Cntlr) : ∃ index < associativity,
      set.replacer.getReplacementIndex associativity set.ways cntlr =
        .ok (index, .lru { s with lruBits := moveToMRU associativity s.lruBits index }) ∧
      (HasInvalid associativity set.ways → ¬ (set.ways index).isValid) ∧
      (¬ HasInvalid associativity set.ways →
        ∀ w < associativity, s.lruBits w ≤ s.lruBits index) := by
  have some : ∃ w, Free associativity set.ways w := ⟨0, positive, ordered.settled 0⟩
  rw [ordered.replacer, Replacer.getReplacementIndex, CacheSetLRU.getReplacementIndex]
  cases found : firstInvalid associativity set.ways with
  | some i =>
    have ⟨inside, invalid⟩ := firstInvalid_some found
    exact ⟨i, inside, rfl, fun _ => invalid, fun full => absurd ⟨i, inside, invalid⟩ full⟩
  | none =>
    have asked : 1 < s.numAttempts → cntlr.isSome := by
      rw [ordered.one]
      exact fun less => absurd less (Nat.lt_irrefl 1)
    have sum : 0 + (0 + 1) = s.numAttempts := ordered.one.symm
    have attempt : CacheSetLRU.attempts associativity set.ways cntlr s.numAttempts (0 + 1) 0
        s.lruBits = _ := CacheSetLRU.attempts_succ some asked sum
    rw [if_neg fun rejected => Nat.lt_irrefl 0 rejected.1] at attempt
    dsimp only
    nth_rewrite 2 [ordered.one]
    rw [attempt]
    refine ⟨_, CacheSetLRU.select_lt some, rfl, fun some => absurd some (firstInvalid_none found),
      fun _ w inside => ?_⟩
    rcases CacheSetLRU.select_spec associativity set.ways s.lruBits with ⟨_, none⟩ | ⟨_, _, most⟩
    · rw [none w ⟨inside, ordered.settled w⟩]
      exact Nat.zero_le _
    · exact most w ⟨inside, ordered.settled w⟩

theorem trueLru (ordered : Ordered associativity uses set s) :
    TrueLru associativity uses set where
  counters := ⟨s, ordered.replacer, ordered.map_perm,
    fun _ first _ second => ordered.bits_lt_iff first second⟩
  choice positive cntlr := by
    obtain ⟨index, inside, chosen, invalid, most⟩ := ordered.choice positive cntlr
    refine ⟨index, _, chosen, inside, invalid, fun full w here other => ?_⟩
    have differ : s.lruBits w ≠ s.lruBits index :=
      fun same => other (ordered.injective here inside same)
    exact (ordered.bits_lt_iff here inside).mp (lt_of_le_of_ne (most full w here) differ)

/-- A way is used. -/
theorem move (ordered : Ordered associativity uses set s) {a : ℕ} (inside : a < associativity)
    {ways : ℕ → BlockInfo} (settled : ∀ i, isValidReplacement ways i) :
    Ordered associativity (uses ++ [a])
      ⟨ways, .lru { s with lruBits := moveToMRU associativity s.lruBits a }⟩
      { s with lruBits := moveToMRU associativity s.lruBits a } where
  replacer := rfl
  one := ordered.one
  known b member := by
    rcases List.mem_append.mp member with before | last
    · exact ordered.known b before
    · rw [List.mem_singleton.mp last]
      exact List.mem_range.mpr inside
  places w here := by
    rw [recency_append, recency_cons, recency_nil, idxOf_touch (ordered.mem here),
      ← ordered.places w here, ← ordered.places a inside]
    dsimp only
    rw [moveToMRU_apply]
    simp only [here, true_and]
  settled := settled

/-- A way changes to a line that is not in an upgrade. -/
theorem setWay (ordered : Ordered associativity uses set s) {info : BlockInfo} (index : ℕ)
    (good : info.cstate ≠ .sharedUpgrading) :
    Ordered associativity uses (set.setWay index info) s where
  replacer := ordered.replacer
  one := ordered.one
  known := ordered.known
  places := ordered.places
  settled i := by
    simp only [CacheSet.setWay, isValidReplacement, Function.update_apply]
    split
    · exact good
    · exact ordered.settled i

/-- **Each step** without a new upgrade uses the ways that it logs. -/
theorem step (ordered : Ordered associativity uses set s) {event : SetEvent}
    (settled : ¬ event.Upgrades) :
    Ensures (fun set' => ∃ s', Ordered associativity
        (uses ++ usedWays associativity event set) set' s') (fun _ => True)
      (set.step associativity event) := by
  cases event with
  | access tag updateReplacement =>
    rw [CacheSet.step, access, usedWays]
    cases found : set.find associativity tag with
    | none =>
      rw [Option.toList_none, ite_self, List.append_nil]
      exact ⟨s, ordered⟩
    | some index =>
      cases updateReplacement with
      | false =>
        rw [if_neg Bool.false_ne_true, List.append_nil]
        exact ⟨s, ordered⟩
      | true =>
        have inside := (find_spec found).1
        have counted : increment associativity (s.lruBits index) = .ok () :=
          if_pos (ordered.bits_lt inside)
        simp only [if_true, ordered.replacer, Replacer.updateReplacementIndex,
          CacheSetLRU.updateReplacementIndex, counted, ok_bind]
        exact ⟨_, ordered.move inside ordered.settled⟩
  | insert tag cntlr =>
    rw [CacheSet.step, insert, usedWays]
    rcases Nat.eq_zero_or_pos associativity with zero | positive
    · refine (ensures_any _).bind fun result _ => ?_
      dsimp only
      rw [if_neg (zero ▸ Nat.not_lt_zero _)]
      trivial
    · obtain ⟨index, inside, chosen, _, _⟩ := ordered.choice positive cntlr
      simp only [chosen, ok_bind, if_pos inside]
      exact ⟨_, (ordered.move inside ordered.settled).setWay index (by rintro ⟨⟩)⟩
  | invalidate tag =>
    rw [CacheSet.step, usedWays, List.append_nil, invalidate]
    split
    · exact ⟨s, ordered⟩
    · next index _ => exact ⟨s, ordered.setWay index (by rintro ⟨⟩)⟩
  | setCState tag cstate =>
    rw [CacheSet.step, usedWays, List.append_nil, CacheSet.setCState]
    split
    · trivial
    · next index _ => exact ⟨s, ordered.setWay index settled⟩

/-- **Every run** without an upgrade. -/
theorem run (ordered : Ordered associativity [] set s) {events : List SetEvent}
    (settled : ∀ event ∈ events, ¬ event.Upgrades) :
    Ensures (fun set' => ∃ s', Ordered associativity
        (runLog (CacheSet.step associativity) (usedWays associativity) events set) set' s')
      (fun _ => True) (runEvents (CacheSet.step associativity) events set) := by
  have along : Along (fun _ event => ¬ event.Upgrades) (CacheSet.step associativity) events set :=
    .of_forall fun event member _ => settled event member
  exact along.ensures_runLog (usedWays associativity)
    (fun uses set => ∃ s, Ordered associativity uses set s) (fun _ => True)
    (fun _ _ _ settled ⟨_, ordered⟩ => ordered.step settled) ⟨s, ordered⟩

end Ordered

/-- A set of LRU with one attempt, before its first line. -/
def unusedLru : CacheSet := ⟨fun _ => ⟨invalidTag, .invalid, false⟩, .lru (.create 1)⟩

theorem createCacheSet_eq {cfg : SetConfig} {policy : Policy}
    (kind : policy = .lru ∨ policy = .lruQbs) (one : getNumQBSAttempts cfg policy = 1) :
    createCacheSet cfg policy = .ok unusedLru := by
  rcases kind with rfl | rfl
  · rfl
  · rw [createCacheSet, one]
    rfl

theorem ordered_unused (small : associativity ≤ 256) :
    Ordered associativity [] unusedLru (.create 1) := by
  refine ⟨rfl, rfl, nofun, fun w inside => ?_, fun _ => nofun⟩
  have below : w % 256 = w := Nat.mod_eq_of_lt (lt_of_lt_of_le inside small)
  have place := List.nodup_range.idxOf_getElem w (by rwa [List.length_range])
  rw [List.getElem_range] at place
  exact below.trans place.symm

/-! ## Streams of accesses -/

/-- An access of a cache: a hit uses its line, and a line that is not there is inserted. -/
def serve (associativity : ℕ) (cntlr : Cntlr) (tag : Tag) (set : CacheSet) :
    Except SetFault CacheSet :=
  match set.find associativity tag with
  | some _ => set.access associativity tag true
  | none => set.insert associativity tag cntlr

/-- A line of the set has the tag. -/
def Resident (associativity : ℕ) (tag : Tag) (set : CacheSet) : Prop :=
  (set.find associativity tag).isSome

/-- The lines of the set are the first ones of a list, each in the way whose counter is its
place. -/
structure Stacked (associativity : ℕ) (stack : List Tag) (set : CacheSet) (s : CacheSetLRU) :
    Prop where
  ordered : ∃ uses, Ordered associativity uses set s
  nodup : stack.Nodup
  tags : ∀ w < associativity, (set.ways w).tag = (stack[s.lruBits w]?).elim invalidTag Subtype.val

namespace Stacked

variable {stack : List Tag} {tag : Tag} {w : ℕ}

theorem getElem?_eq_some_iff (stacked : Stacked associativity stack set s)
    (inside : w < associativity) :
    stack[s.lruBits w]? = some tag ↔ (set.ways w).tag = tag.val := by
  rw [stacked.tags w inside]
  cases stack[s.lruBits w]? with
  | none => exact iff_of_false nofun fun same => tag.property same.symm
  | some t => rw [Option.some.injEq, Option.elim_some, Subtype.ext_iff]

theorem getElem?_eq_none_iff (stacked : Stacked associativity stack set s)
    (inside : w < associativity) :
    stack[s.lruBits w]? = none ↔ ¬ (set.ways w).isValid := by
  rw [BlockInfo.isValid, not_not, stacked.tags w inside]
  cases stack[s.lruBits w]? with
  | none => exact iff_of_true rfl rfl
  | some t => exact iff_of_false (Option.some_ne_none t) t.property

/-- Each counter is that of a way. -/
theorem exists_way (stacked : Stacked associativity stack set s) {j : ℕ} (low : j < associativity) :
    ∃ w < associativity, s.lruBits w = j := by
  obtain ⟨uses, ordered⟩ := stacked.ordered
  obtain ⟨w, member, same⟩ := List.mem_map.mp
    (ordered.map_perm.mem_iff.mpr (List.mem_range.mpr low))
  exact ⟨w, List.mem_range.mp member, same⟩

/-- **The lines of the set** are the first ones of the list. -/
theorem resident_iff (stacked : Stacked associativity stack set s) :
    Resident associativity tag set ↔ ∃ j < associativity, stack[j]? = some tag := by
  constructor
  · intro resident
    obtain ⟨w, found⟩ := Option.isSome_iff_exists.mp resident
    obtain ⟨uses, ordered⟩ := stacked.ordered
    have ⟨inside, same⟩ := find_spec found
    exact ⟨s.lruBits w, ordered.bits_lt inside, (stacked.getElem?_eq_some_iff inside).mpr same⟩
  · rintro ⟨j, low, here⟩
    obtain ⟨w, inside, rfl⟩ := stacked.exists_way low
    rw [Resident, find, List.find?_isSome]
    refine ⟨w, List.mem_reverse.mpr (List.mem_range.mpr inside), ?_⟩
    rw [decide_eq_true_eq]
    exact (stacked.getElem?_eq_some_iff inside).mp here

/-- **A hit** moves its line to the front. -/
theorem hit (stacked : Stacked associativity stack set s)
    (found : set.find associativity tag = some w) :
    Stacked associativity (touch tag stack)
      ⟨set.ways, .lru { s with lruBits := moveToMRU associativity s.lruBits w }⟩
      { s with lruBits := moveToMRU associativity s.lruBits w } := by
  obtain ⟨uses, ordered⟩ := stacked.ordered
  have ⟨inside, same⟩ := find_spec found
  have here := (stacked.getElem?_eq_some_iff inside).mpr same
  refine ⟨⟨_, ordered.move inside ordered.settled⟩, nodup_touch stacked.nodup, fun v within => ?_⟩
  dsimp only
  rw [moveToMRU_apply]
  split
  · next own =>
      rw [own, same]
      rfl
  · next other =>
      split
      · next before =>
          rw [getElem?_touch_succ]
          · exact stacked.tags v within
          · intro j near there
            have low := (List.getElem?_eq_some_iff.mp there).1
            have place := (List.getElem?_inj low stacked.nodup).mp (there.trans here.symm)
            omega
      · next after =>
          have differ : s.lruBits v ≠ s.lruBits w :=
            fun equal => other (ordered.injective within inside equal)
          rw [getElem?_touch_of_lt stacked.nodup here (by omega)]
          exact stacked.tags v within

/-- **A new line** is put at the front. -/
theorem miss (stacked : Stacked associativity stack set s) (positive : 0 < associativity)
    (cntlr : Cntlr) (missing : set.find associativity tag = none) :
    ∃ index, index < associativity ∧
      set.insert associativity tag cntlr = .ok (setWay index ⟨tag.val, .invalid, false⟩
        ⟨set.ways, .lru { s with lruBits := moveToMRU associativity s.lruBits index }⟩) ∧
      Stacked associativity (touch tag stack) (setWay index ⟨tag.val, .invalid, false⟩
          ⟨set.ways, .lru { s with lruBits := moveToMRU associativity s.lruBits index }⟩)
        { s with lruBits := moveToMRU associativity s.lruBits index } := by
  obtain ⟨uses, ordered⟩ := stacked.ordered
  obtain ⟨index, inside, chosen, invalid, most⟩ := ordered.choice positive cntlr
  have absent (j : ℕ) (low : j < associativity) : stack[j]? ≠ some tag := by
    intro here
    have resident := stacked.resident_iff.2 ⟨j, low, here⟩
    rw [Resident, missing] at resident
    exact nomatch resident
  refine ⟨index, inside, ?_, ⟨_, (ordered.move inside ordered.settled).setWay index nofun⟩,
    nodup_touch stacked.nodup, fun v within => ?_⟩
  · rw [insert]
    simp only [chosen, ok_bind, if_pos inside]
  · simp only [setWay, Function.update_apply, moveToMRU_apply, within, true_and]
    by_cases own : v = index
    · rw [if_pos own, if_pos own]
      rfl
    · rw [if_neg own, if_neg own]
      split
      · next before =>
          rw [getElem?_touch_succ fun j near =>
            absent j (lt_of_le_of_lt near (ordered.bits_lt within))]
          exact stacked.tags v within
      · next after =>
          -- A counter above that of the way: the set was not full, and the way was not in use.
          have above : s.lruBits index < s.lruBits v :=
            lt_of_le_of_ne (Nat.le_of_not_lt after)
              fun equal => own (ordered.injective within inside equal.symm)
          have room : HasInvalid associativity set.ways := by
            by_contra full
            exact absurd (most full v within) (Nat.not_le_of_lt above)
          have short := List.getElem?_eq_none_iff.mp
            ((stacked.getElem?_eq_none_iff inside).mpr (invalid room))
          have length := length_touch_le tag stack
          rw [stacked.tags v within, List.getElem?_eq_none (by omega),
            List.getElem?_eq_none (by omega)]

/-- **Each access** uses a line. -/
theorem serve (stacked : Stacked associativity stack set s) (positive : 0 < associativity)
    (cntlr : Cntlr) (tag : Tag) :
    Ensures (fun set' => ∃ s', Stacked associativity (touch tag stack) set' s') (fun _ => False)
      (serve associativity cntlr tag set) := by
  rw [CacheSet.serve]
  cases found : set.find associativity tag with
  | none =>
    obtain ⟨index, _, filled, stacked'⟩ := stacked.miss positive cntlr found
    rw [filled]
    exact ⟨_, stacked'⟩
  | some w =>
    obtain ⟨uses, ordered⟩ := stacked.ordered
    have counted : increment associativity (s.lruBits w) = .ok () :=
      if_pos (ordered.bits_lt (find_spec found).1)
    simp only [access, found, if_true, ordered.replacer, Replacer.updateReplacementIndex,
      CacheSetLRU.updateReplacementIndex, counted, ok_bind]
    exact ⟨_, stacked.hit found⟩

/-- **Every stream of accesses.** -/
theorem run (stacked : Stacked associativity stack set s) (positive : 0 < associativity)
    (cntlr : Cntlr) (stream : List Tag) :
    Ensures (fun set' => ∃ s', Stacked associativity (recency stream stack) set' s')
      (fun _ => False) (runEvents (CacheSet.serve associativity cntlr) stream set) := by
  induction stream generalizing stack set s with
  | nil => exact ⟨s, stacked⟩
  | cons tag stream ih =>
    refine (stacked.serve positive cntlr tag).bind fun set' next => ?_
    obtain ⟨s', stacked'⟩ := next
    exact ih stacked'

end Stacked

theorem stacked_unused (small : associativity ≤ 256) :
    Stacked associativity [] unusedLru (.create 1) :=
  ⟨⟨[], ordered_unused small⟩, .nil, fun _ _ => rfl⟩

/-- **Inclusion.** After the same accesses, a set with one more way holds all lines of the set. -/
theorem inclusion (positive : 0 < associativity) (small : associativity < 256) (cntlr : Cntlr)
    (stream : List Tag) : ∃ set larger,
      runEvents (serve associativity cntlr) stream unusedLru = .ok set ∧
      runEvents (serve (associativity + 1) cntlr) stream unusedLru = .ok larger ∧
      ∀ tag, Resident associativity tag set → Resident (associativity + 1) tag larger := by
  have less := (stacked_unused small.le).run positive cntlr stream
  have more := (stacked_unused small).run (Nat.succ_pos associativity) cntlr stream
  cases first : runEvents (serve associativity cntlr) stream unusedLru with
  | error e =>
    rw [first] at less
    exact less.elim
  | ok set =>
    cases second : runEvents (serve (associativity + 1) cntlr) stream unusedLru with
    | error e =>
      rw [second] at more
      exact more.elim
    | ok larger =>
      rw [first] at less
      rw [second] at more
      obtain ⟨s, stacked⟩ := less
      obtain ⟨t, stacked'⟩ := more
      refine ⟨set, larger, rfl, rfl, fun tag resident => ?_⟩
      obtain ⟨j, low, here⟩ := stacked.resident_iff.1 resident
      exact stacked'.resident_iff.2 ⟨j, Nat.lt_succ_of_lt low, here⟩

/-- **LRU is true LRU.** In a set of up to 256 ways with one attempt, after every run without an
upgrade: the counters are a permutation in the order of the last uses, and the choice is a way that
is not in use, or the one that was not used for longest. And after the same accesses a set with one
more way holds all lines of the set. -/
theorem lru_isTrue {cfg : SetConfig} {policy : Policy} {created : CacheSet}
    (kind : policy = .lru ∨ policy = .lruQbs) (one : getNumQBSAttempts cfg policy = 1)
    (small : cfg.associativity ≤ 256) (start : createCacheSet cfg policy = .ok created) :
    (∀ events set, (∀ event ∈ events, ¬ event.Upgrades) →
      runEvents (CacheSet.step cfg.associativity) events created = .ok set →
      TrueLru cfg.associativity
        (runLog (CacheSet.step cfg.associativity) (usedWays cfg.associativity) events created)
        set) ∧
    (0 < cfg.associativity → cfg.associativity < 256 → ∀ cntlr stream, ∃ created' set larger,
      createCacheSet { cfg with associativity := cfg.associativity + 1 } policy = .ok created' ∧
      runEvents (serve cfg.associativity cntlr) stream created = .ok set ∧
      runEvents (serve (cfg.associativity + 1) cntlr) stream created' = .ok larger ∧
      ∀ tag, Resident cfg.associativity tag set →
        Resident (cfg.associativity + 1) tag larger) := by
  rw [createCacheSet_eq kind one, Except.ok.injEq] at start
  subst start
  constructor
  · intro events set settled ran
    obtain ⟨s, ordered⟩ := ((ordered_unused small).run settled).of_ok ran
    exact ordered.trueLru
  · intro positive below cntlr stream
    obtain ⟨set, larger, first, second, holds⟩ := inclusion positive below cntlr stream
    refine ⟨unusedLru, set, larger, createCacheSet_eq kind ?_, first, second, holds⟩
    cases policy <;> exact one

/-- Two ways are filled, and the first line is used again. -/
theorem lru_isTrue_two : ∃ set, runEvents (CacheSet.step 2) [.insert ⟨1, by decide⟩ none,
      .insert ⟨2, by decide⟩ none, .access ⟨1, by decide⟩ true] unusedLru = .ok set ∧
    TrueLru 2 [0, 1, 0] set := by
  have start : createCacheSet ⟨2, 1, 2⟩ .lru = .ok unusedLru := rfl
  refine ⟨_, rfl, (lru_isTrue (.inl rfl) rfl (by decide) start).1 [.insert ⟨1, by decide⟩ none,
    .insert ⟨2, by decide⟩ none, .access ⟨1, by decide⟩ true] _ ?_ rfl⟩
  simp [SetEvent.Upgrades]

end CacheSet

end GpuHotSpot.Common.Caches
