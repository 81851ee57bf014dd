import GpuHotSpot.Common.RobEntries
import Mathlib.Logic.Relation

/-!
# Moves of the reorder buffer

An event of the timer is a sequence of moves: a micro-op enters, is dispatched, issued or committed, or
only the front end, the clock and the accounts change.

* `Move.sound`: every move keeps it.
* `step_ensures`: every event is a sequence of moves.
-/

namespace GpuHotSpot.Common.RobTimer

open Fallible Relation

variable {κ : Type} {config : Config κ} {s s' : Timer κ}

/-! ## What holds of the entries -/

/-- The queue, the window, and the lists of dependencies and of dependants. -/
structure Sound (s : Timer κ) : Prop where
  window : s.rob.first + s.numInRob ≤ s.rob.entries.length
  next : s.nextSequenceNumber = s.rob.entries.length
  entered : s.entered.length = s.rob.entries.length
  kind : ∀ p op, s.entered[p]? = some op →
    (s.rob.slot p).uop.kind = { op.kind with sequenceNumber := p }
  issued : ∀ p, s.rob.Issued p → p < s.rob.first + s.numInRob
  committed : ∀ p < s.rob.first, s.rob.Issued p
  dependants : ∀ x, ∀ c ∈ (s.rob.slot x).dependants, x < c ∧ c < s.rob.entries.length
  dependencies : ∀ c, ∀ x ∈ (s.rob.slot c).uop.allDependencies, x < c ∧ ¬ s.rob.Issued x
  count : ∀ x, ¬ s.rob.Issued x → ∀ c,
    (s.rob.slot c).uop.allDependencies.count x = (s.rob.slot x).dependants.count c
  waiting : ∀ c, ¬ s.rob.Issued c → (s.rob.slot c).uop.allDependencies ≠ [] →
    (s.rob.slot c).ready = ⊤
  free : ∀ c, s.rob.Issued c → (s.rob.slot c).uop.allDependencies = []
  readyMax : ∀ c, (s.rob.slot c).readyMax ≤ (s.rob.slot c).ready
  log : ∀ x, s.rob.Issued x ↔ ∃ i ∈ s.issues, i.sequenceNumber = x
  done : ∀ i ∈ s.issues, (i.cycleDepend : Time) ≤ (s.rob.slot i.sequenceNumber).done

theorem Sound.numbered (sound : Sound s) : s.rob.Numbered := by
  intro p inside
  rw [← sound.entered] at inside
  have kind := sound.kind p _ (List.getElem?_eq_getElem inside)
  show (s.rob.slot p).uop.kind.sequenceNumber = p
  rw [kind]

theorem Sound.microOp (sound : Sound s) {p : ℕ} {op : DynamicMicroOp}
    (found : s.entered[p]? = some op) : (s.rob.slot p).uop.microOp = op.microOp := by
  have kind := sound.kind p op found
  show (s.rob.slot p).uop.kind.microOp = op.microOp
  rw [kind]
  rfl

theorem Sound.low (sound : Sound s) : s.rob.first ≤ s.rob.entries.length :=
  le_trans (Nat.le_add_right _ _) sound.window

theorem sound_start (config : Config κ) (period : ℕ) : Sound (Timer.start config period) where
  window := le_rfl
  next := rfl
  entered := rfl
  kind := fun p op found => by cases found
  issued := fun p issued => absurd rfl issued
  committed := fun p before => absurd before (Nat.not_lt_zero p)
  dependants := fun x c member => by cases member
  dependencies := fun c x member => by cases member
  count := fun x _ c => rfl
  waiting := fun c _ some => absurd rfl some
  free := fun c _ => rfl
  readyMax := fun c => le_top
  log := fun x => ⟨fun issued => absurd rfl issued, fun found => by simp [Timer.start] at found⟩
  done := fun i member => by cases member

/-! ## Moves -/

/-- What `execute` does beside the issue stage. -/
inductive Beside (config : Config κ) (s : Timer κ) : Timer κ → Prop
  | dispatch (inWindow : s.numInRob < config.windowSize) (room : s.rsEntriesUsed ≠ config.rsEntries)
      (inQueue : s.rob.first + s.numInRob < s.rob.entries.length) :
      Beside config s (s.dispatch (s.rob.first + s.numInRob))
  | commit (some : s.rob.first < s.rob.entries.length)
      (done : (s.rob.slot s.rob.first).done ≤ s.now) : Beside config s s.commit
  | control {s' : Timer κ} (clock : s.now ≤ s'.now)
      (same : s' = { s with
        contention := s'.contention
        now := s'.now
        period := s'.period
        frontendStalledUntil := s'.frontendStalledUntil
        inIcacheMiss := s'.inIcacheMiss
        willSkip := s'.willSkip
        timeSkipped := s'.timeSkipped
        cpiCurrentFrontEndStall := s'.cpiCurrentFrontEndStall
        cpi := s'.cpi
        simulating := s'.simulating
        totalInsnExec := s'.totalInsnExec
        totalLat := s'.totalLat
        returned := s'.returned }) : Beside config s s'

/-- What `execute` does with one entry, or with none. -/
inductive Move (config : Config κ) (s : Timer κ) : Timer κ → Prop
  | beside {s' : Timer κ} (move : Beside config s s') : Move config s s'
  | issue {s' : Timer κ} {p : ℕ} {u : DynamicMicroOp} {i : Issue} (low : s.rob.first ≤ p)
      (high : p < s.rob.first + s.numInRob) (waiting : ¬ s.rob.Issued p)
      (ready : (s.rob.slot p).ready ≤ s.now) (issuing : Issuing config p s s' u i) : Move config s s'

/-- Several moves. -/
abbrev Moves (config : Config κ) : Timer κ → Timer κ → Prop := ReflTransGen (Move config)

/-! ## A micro-op enters -/

section Enter

variable {op u v : DynamicMicroOp} {q : Rob} {e : RobEntry} {p : ℕ}

theorem Entering.rob (entering : Entering config op s s' u v q e) : s'.rob = q.push e := by
  rw [entering.timer]

theorem Entering.first (entering : Entering config op s s' u v q e) :
    s'.rob.first = s.rob.first := by
  rw [entering.rob]
  exact entering.registered.first

theorem Entering.length (entering : Entering config op s s' u v q e) :
    s'.rob.entries.length = s.rob.entries.length + 1 := by
  rw [entering.rob, Rob.length_push, entering.registered.length]

/-- The entries that were there know the new one. -/
theorem Entering.slot (entering : Entering config op s s' u v q e) (p : ℕ) :
    s'.rob.slot p = if p = s.rob.entries.length then e else
      { s.rob.slot p with
        dependants := (s.rob.slot p).dependants ++ List.replicate
          ((waitingOf s.rob v.allDependencies).count p) s.rob.entries.length } := by
  rw [entering.rob, Rob.slot_push, entering.registered.length, entering.registered.slot]

theorem Entering.slot_self (entering : Entering config op s s' u v q e) :
    s'.rob.slot s.rob.entries.length = e := by
  rw [entering.slot, if_pos rfl]

theorem Entering.slot_of_ne (entering : Entering config op s s' u v q e)
    (other : p ≠ s.rob.entries.length) : s'.rob.slot p = { s.rob.slot p with
      dependants := (s.rob.slot p).dependants ++ List.replicate
        ((waitingOf s.rob v.allDependencies).count p) s.rob.entries.length } := by
  rw [entering.slot, if_neg other]

theorem not_issued_length (q : Rob) : ¬ q.Issued q.entries.length := by
  rw [Rob.Issued, Rob.slot_of_length_le le_rfl]
  exact not_not.mpr rfl

theorem Entering.issued_iff (entering : Entering config op s s' u v q e) (p : ℕ) :
    s'.rob.Issued p ↔ s.rob.Issued p := by
  by_cases own : p = s.rob.entries.length
  · rw [own]
    refine iff_of_false ?_ (not_issued_length s.rob)
    rw [Rob.Issued, entering.slot_self, entering.done]
    exact not_not.mpr rfl
  · rw [Rob.Issued, Rob.Issued, entering.slot_of_ne own]

/-- What the new entry waits for. -/
theorem Entering.mem_dependencies (entering : Entering config op s s' u v q e) {x : ℕ} :
    x ∈ e.uop.allDependencies ↔ x ∈ v.allDependencies ∧ ¬ s.rob.Issued x := by
  rw [entering.dependencies.mem_iff, waitingOf, List.mem_filter, decide_eq_true_eq]

theorem Sound.enter (sound : Sound s) (entering : Entering config op s s' u v q e) : Sound s' := by
  have first := entering.first
  have length := entering.length
  have issued := entering.issued_iff
  have number : s'.numInRob = s.numInRob := by rw [entering.timer]
  have issues : s'.issues = s.issues := by rw [entering.timer]
  have list : s'.entered = s.entered ++ [op] := by rw [entering.timer]
  exact {
    window := by
      have window := sound.window
      omega
    next := by
      have next : s'.nextSequenceNumber = s.nextSequenceNumber + 1 := by rw [entering.timer]
      rw [next, sound.next, length]
    entered := by rw [list, List.length_append, sound.entered, length, List.length_singleton]
    kind := fun p op' found => by
      rw [list] at found
      by_cases own : p = s.rob.entries.length
      · subst own
        rw [List.getElem?_append_right (by rw [sound.entered]), sound.entered, Nat.sub_self] at found
        obtain rfl : op = op' := by simpa using found
        rw [entering.slot_self, DynamicMicroOp.kind_of_bare entering.bare]
        rfl
      · have inside : p < s.entered.length := by
          have bound := (List.getElem?_eq_some_iff.mp found).1
          rw [List.length_append, List.length_singleton, sound.entered] at bound
          rw [sound.entered]
          omega
        rw [List.getElem?_append_left inside] at found
        rw [entering.slot_of_ne own]
        exact sound.kind p op' found
    issued := fun p was => by
      rw [first, number]
      exact sound.issued p ((issued p).mp was)
    committed := fun p before => (issued p).mpr (sound.committed p (first ▸ before))
    dependants := fun x c member => by
      by_cases own : x = s.rob.entries.length
      · rw [own, entering.slot_self, entering.dependants] at member
        cases member
      · rw [entering.slot_of_ne own, List.mem_append] at member
        rw [length]
        rcases member with before | new
        · have bounds := sound.dependants x c before
          omega
        · obtain ⟨some, rfl⟩ := List.mem_replicate.mp new
          have member := List.count_pos_iff.mp (Nat.pos_of_ne_zero some)
          have inside := entering.inside x (List.mem_filter.mp member).1
          omega
    dependencies := fun c x member => by
      rw [issued]
      by_cases own : c = s.rob.entries.length
      · rw [own, entering.slot_self, entering.mem_dependencies] at member
        exact ⟨own ▸ (entering.inside x member.1).2, member.2⟩
      · rw [entering.slot_of_ne own] at member
        exact sound.dependencies c x member
    count := fun x unissued c => by
      rw [issued] at unissued
      have none (r : ℕ) : (s.rob.slot r).dependants.count s.rob.entries.length = 0 := by
        rw [List.count_eq_zero]
        exact fun member => absurd (sound.dependants r _ member).2 (lt_irrefl _)
      by_cases own : x = s.rob.entries.length
      · rw [own, entering.slot_self, entering.dependants, List.count_nil, List.count_eq_zero]
        intro member
        by_cases both : c = s.rob.entries.length
        · rw [both, entering.slot_self, entering.mem_dependencies] at member
          exact absurd (entering.inside _ member.1).2 (lt_irrefl _)
        · rw [entering.slot_of_ne both] at member
          have before := (sound.dependencies c _ member).1
          have outside : s.rob.slot c = RobEntry.unused := Rob.slot_of_length_le (by omega)
          rw [outside] at member
          cases member
      · rw [entering.slot_of_ne own, List.count_append, List.count_replicate]
        by_cases new : c = s.rob.entries.length
        · rw [new, entering.slot_self, none, if_pos (beq_self_eq_true _), Nat.zero_add,
            entering.dependencies.count_eq]
        · rw [entering.slot_of_ne new, if_neg (by simpa using Ne.symm new), Nat.add_zero]
          exact sound.count x unissued c
    waiting := fun c unissued some => by
      rw [issued] at unissued
      by_cases own : c = s.rob.entries.length
      · rw [own, entering.slot_self] at some ⊢
        rw [entering.ready, if_neg some]
      · rw [entering.slot_of_ne own] at some ⊢
        exact sound.waiting c unissued some
    free := fun c was => by
      rw [issued] at was
      have other : c ≠ s.rob.entries.length := by
        rintro rfl
        exact not_issued_length s.rob was
      rw [entering.slot_of_ne other]
      exact sound.free c was
    readyMax := fun c => by
      by_cases own : c = s.rob.entries.length
      · rw [own, entering.slot_self, entering.ready]
        split_ifs
        · exact le_rfl
        · exact le_top
      · rw [entering.slot_of_ne own]
        exact sound.readyMax c
    log := fun x => by rw [issued, issues, sound.log]
    done := fun i member => by
      rw [issues] at member
      have was := (sound.log i.sequenceNumber).mpr ⟨i, member, rfl⟩
      have other : i.sequenceNumber ≠ s.rob.entries.length := fun same =>
        not_issued_length s.rob (same ▸ was)
      rw [entering.slot_of_ne other]
      exact sound.done i member }

end Enter

/-! ## A micro-op is issued -/

section Issue

variable {p c : ℕ} {u : DynamicMicroOp} {i : Issue}

theorem issuedRob_self (high : p < s.rob.entries.length) : (s.issuedRob p u).slot p =
    { s.rob.slot p with uop := u, issued := s.now, done := doneTime u s } :=
  Rob.slot_modify_self high _

theorem issuedRob_of_ne (other : c ≠ p) : (s.issuedRob p u).slot c = s.rob.slot c :=
  Rob.slot_modify_of_ne other _

theorem Issuing.kind_access (issuing : Issuing config p s s' u i) :
    u.kind = (s.rob.slot p).uop.kind := by
  rw [issuing.access, accessMemory_kind]

theorem Issuing.sequenceNumber (numbered : s.rob.Numbered) (high : p < s.rob.entries.length)
    (issuing : Issuing config p s s' u i) : i.sequenceNumber = p := by
  rw [issuing.issue]
  show u.sequenceNumber = p
  rw [DynamicMicroOp.sequenceNumber_of_kind issuing.kind_access, numbered p high]

theorem Issuing.woken_of_ne (issuing : Issuing config p s s' u i) (other : c ≠ p) :
    Woken (known (s.issuedRob p u)) p i ((s.rob.slot p).dependants.count c) (s.rob.slot c)
      (s'.rob.slot c) := by
  have woken := issuing.woken c
  rwa [issuedRob_of_ne other] at woken

theorem Issuing.kind (high : p < s.rob.entries.length) (issuing : Issuing config p s s' u i) (c : ℕ) :
    (s'.rob.slot c).uop.kind = (s.rob.slot c).uop.kind := by
  rw [DynamicMicroOp.kind_of_bare (issuing.woken c).bare]
  by_cases same : c = p
  · rw [same, issuedRob_self high]
    exact issuing.kind_access
  · rw [issuedRob_of_ne same]

theorem Issuing.done_self (high : p < s.rob.entries.length) (issuing : Issuing config p s s' u i) :
    (s'.rob.slot p).done = (doneTime u s : ℕ) := by
  rw [(issuing.woken p).done, issuedRob_self high]

theorem Issuing.issued_iff (high : p < s.rob.entries.length) (issuing : Issuing config p s s' u i)
    (c : ℕ) : s'.rob.Issued c ↔ s.rob.Issued c ∨ c = p := by
  by_cases same : c = p
  · refine iff_of_true ?_ (.inr same)
    rw [same, Rob.Issued, issuing.done_self high]
    exact WithTop.coe_ne_top
  · rw [Rob.Issued, Rob.Issued, (issuing.woken_of_ne same).done]
    simp only [same, or_false]

theorem cycleDepend_le_doneTime (u : DynamicMicroOp) (s : Timer κ) :
    (issueTimes u s).cycleDepend ≤ doneTime u s := by
  simp only [issueTimes, doneTime]
  split_ifs
  · exact le_rfl
  · exact Nat.le_add_right _ _

/-- An entry that is ready has no dependencies. -/
theorem Sound.free_of_ready (sound : Sound s) (waiting : ¬ s.rob.Issued p)
    (ready : (s.rob.slot p).ready ≤ s.now) : (s.rob.slot p).uop.allDependencies = [] := by
  by_contra some
  rw [sound.waiting p waiting some, top_le_iff] at ready
  exact absurd ready WithTop.coe_ne_top

/-- What is left of the dependencies of an entry. -/
theorem Issuing.dependencies_perm (sound : Sound s) (high : p < s.rob.entries.length)
    (waiting : ¬ s.rob.Issued p) (ready : (s.rob.slot p).ready ≤ s.now)
    (issuing : Issuing config p s s' u i) (c : ℕ) :
    (s.rob.slot c).uop.allDependencies.Perm
      (List.replicate ((s.rob.slot p).dependants.count c) p ++ (s'.rob.slot c).uop.allDependencies) := by
  have perm := (issuing.woken c).dependencies
  rw [issuing.sequenceNumber sound.numbered high] at perm
  by_cases same : c = p
  · rw [same, issuedRob_self high] at perm
    rw [same]
    have free := sound.free_of_ready waiting ready
    have freeAfter : u.allDependencies = [] := by
      rw [issuing.access, accessMemory_allDependencies, free]
    rw [free]
    rwa [show (RobEntry.uop { s.rob.slot p with
      uop := u, issued := s.now, done := doneTime u s }).allDependencies = [] from freeAfter] at perm
  · rwa [issuedRob_of_ne same] at perm

theorem Sound.issue (sound : Sound s) (high : p < s.rob.first + s.numInRob)
    (waiting : ¬ s.rob.Issued p) (ready : (s.rob.slot p).ready ≤ s.now)
    (issuing : Issuing config p s s' u i) : Sound s' := by
  have inQueue : p < s.rob.entries.length := lt_of_lt_of_le high sound.window
  have first := issuing.first
  have length := issuing.length
  have issued := issuing.issued_iff inQueue
  have perm := issuing.dependencies_perm sound inQueue waiting ready
  have own := issuing.sequenceNumber sound.numbered inQueue
  have number : s'.numInRob = s.numInRob := by rw [issuing.timer]
  have issues : s'.issues = s.issues ++ [i] := by rw [issuing.timer]
  have list : s'.entered = s.entered := by rw [issuing.timer]
  have dependants (c : ℕ) : (s'.rob.slot c).dependants = (s.rob.slot c).dependants := by
    rw [(issuing.woken c).dependants]
    by_cases same : c = p
    · rw [same, issuedRob_self inQueue]
    · rw [issuedRob_of_ne same]
  have member (c : ℕ) {x : ℕ} (left : x ∈ (s'.rob.slot c).uop.allDependencies) :
      x ∈ (s.rob.slot c).uop.allDependencies :=
    (perm c).mem_iff.mpr (List.mem_append_right _ left)
  have empty (c : ℕ) (none : (s.rob.slot c).uop.allDependencies = []) :
      (s'.rob.slot c).uop.allDependencies = [] := by
    rw [List.eq_nil_iff_forall_not_mem]
    intro x left
    have there := member c left
    rw [none] at there
    cases there
  exact {
    window := by
      rw [first, length, number]
      exact sound.window
    next := by
      have next : s'.nextSequenceNumber = s.nextSequenceNumber := by rw [issuing.timer]
      rw [next, sound.next, length]
    entered := by rw [list, sound.entered, length]
    kind := fun c op found => by
      rw [list] at found
      rw [← sound.kind c op found, issuing.kind inQueue]
    issued := fun c was => by
      rw [first, number]
      rcases (issued c).mp was with before | rfl
      · exact sound.issued c before
      · exact high
    committed := fun c before => (issued c).mpr (.inl (sound.committed c (first ▸ before)))
    dependants := fun x c there => by
      rw [dependants] at there
      rw [length]
      exact sound.dependants x c there
    dependencies := fun c x left => by
      have bounds := sound.dependencies c x (member c left)
      refine ⟨bounds.1, fun was => ?_⟩
      rcases (issued x).mp was with before | rfl
      · exact bounds.2 before
      · have count := (perm c).count_eq x
        rw [List.count_append, List.count_replicate_self, sound.count x waiting c] at count
        have none := List.count_eq_zero.mp (show (s'.rob.slot c).uop.allDependencies.count x = 0 by
          omega)
        exact none left
    count := fun x unissued c => by
      rw [issued, not_or] at unissued
      rw [dependants, ← sound.count x unissued.1 c, (perm c).count_eq, List.count_append,
        List.count_replicate, if_neg (by simpa using Ne.symm unissued.2), Nat.zero_add]
    waiting := fun c unissued some => by
      rw [issued, not_or] at unissued
      have woken := issuing.woken_of_ne unissued.2
      have before := sound.waiting c unissued.1 fun none => some (empty c none)
      by_cases never : (s.rob.slot p).dependants.count c = 0
      · rw [woken.unchanged never, before]
      · rw [woken.ready never, if_neg some, before]
    free := fun c was => by
      rcases (issued c).mp was with before | rfl
      · exact empty c (sound.free c before)
      · exact empty c (sound.free_of_ready waiting ready)
    readyMax := fun c => by
      have start : ((s.issuedRob p u).slot c).readyMax ≤ ((s.issuedRob p u).slot c).ready := by
        by_cases same : c = p
        · rw [same, issuedRob_self inQueue]
          exact sound.readyMax p
        · rw [issuedRob_of_ne same]
          exact sound.readyMax c
      by_cases never : (s.rob.slot p).dependants.count c = 0
      · rw [(issuing.woken c).unchanged never]
        exact start
      · rw [(issuing.woken c).ready never]
        split_ifs with none
        · exact le_rfl
        · have some : (s.rob.slot c).uop.allDependencies ≠ [] := fun before => none (empty c before)
          have unissued : ¬ s.rob.Issued c := fun was => some (sound.free c was)
          have other : c ≠ p := by
            rintro rfl
            exact some (sound.free_of_ready waiting ready)
          rw [issuedRob_of_ne other, sound.waiting c unissued some]
          exact le_top
    log := fun x => by
      rw [issued, issues, sound.log]
      constructor
      · rintro (⟨j, member, same⟩ | rfl)
        · exact ⟨j, List.mem_append_left _ member, same⟩
        · exact ⟨i, List.mem_append_right _ (List.mem_singleton_self i), own⟩
      · rintro ⟨j, member, rfl⟩
        rcases List.mem_append.mp member with before | last
        · exact .inl ⟨j, before, rfl⟩
        · exact .inr (List.mem_singleton.mp last ▸ own)
    done := fun j there => by
      rw [issues, List.mem_append, List.mem_singleton] at there
      rcases there with before | rfl
      · have was := (sound.log j.sequenceNumber).mpr ⟨j, before, rfl⟩
        have other : j.sequenceNumber ≠ p := fun same => waiting (same ▸ was)
        rw [(issuing.woken_of_ne other).done]
        exact sound.done j before
      · rw [own, issuing.done_self inQueue, issuing.issue]
        exact WithTop.coe_le_coe.mpr (cycleDepend_le_doneTime u s) }

end Issue

/-! ## The other moves -/

theorem dispatch_slot (p c : ℕ) : ∃ ready : Time, (s.rob.slot c).ready ≤ ready ∧
    ∃ dispatched : Time, (s.dispatch p).rob.slot c =
      { s.rob.slot c with dispatched := dispatched, ready := ready } := by
  rw [Timer.dispatch]
  dsimp only
  rw [Rob.slot_modify]
  split_ifs with here
  · rw [here.1]
    exact ⟨_, le_max_left _ _, _, rfl⟩
  · exact ⟨_, le_rfl, _, rfl⟩

theorem dispatch_issued (p c : ℕ) : (s.dispatch p).rob.Issued c ↔ s.rob.Issued c := by
  obtain ⟨ready, -, dispatched, slot⟩ := dispatch_slot (s := s) p c
  rw [Rob.Issued, Rob.Issued, slot]

theorem Sound.dispatch (sound : Sound s) (inQueue : s.rob.first + s.numInRob < s.rob.entries.length) :
    Sound (s.dispatch (s.rob.first + s.numInRob)) := by
  have length : (s.dispatch (s.rob.first + s.numInRob)).rob.entries.length = s.rob.entries.length :=
    Rob.length_modify _
  have issued := dispatch_issued (s := s) (s.rob.first + s.numInRob)
  have slot := dispatch_slot (s := s) (s.rob.first + s.numInRob)
  exact {
    window := by
      rw [length]
      exact inQueue
    next := by
      rw [length]
      exact sound.next
    entered := by
      rw [length]
      exact sound.entered
    kind := fun c op found => by
      obtain ⟨ready, -, dispatched, slot⟩ := slot c
      rw [slot]
      exact sound.kind c op found
    issued := fun c was => Nat.lt_succ_of_lt (sound.issued c ((issued c).mp was))
    committed := fun c before => (issued c).mpr (sound.committed c before)
    dependants := fun x c member => by
      obtain ⟨ready, -, dispatched, slot⟩ := slot x
      rw [slot] at member
      rw [length]
      exact sound.dependants x c member
    dependencies := fun c x member => by
      obtain ⟨ready, -, dispatched, slot⟩ := slot c
      rw [slot] at member
      rw [issued]
      exact sound.dependencies c x member
    count := fun x unissued c => by
      obtain ⟨ready, -, dispatched, slotX⟩ := slot x
      obtain ⟨ready', -, dispatched', slotC⟩ := slot c
      rw [issued] at unissued
      rw [slotX, slotC]
      exact sound.count x unissued c
    waiting := fun c unissued some => by
      obtain ⟨ready, later, dispatched, slot⟩ := slot c
      rw [issued] at unissued
      rw [slot] at some ⊢
      exact top_le_iff.mp (sound.waiting c unissued some ▸ later)
    free := fun c was => by
      obtain ⟨ready, -, dispatched, slot⟩ := slot c
      rw [slot]
      exact sound.free c ((issued c).mp was)
    readyMax := fun c => by
      obtain ⟨ready, later, dispatched, slot⟩ := slot c
      rw [slot]
      exact (sound.readyMax c).trans later
    log := fun x => (issued x).trans (sound.log x)
    done := fun i member => by
      obtain ⟨ready, -, dispatched, slot⟩ := slot i.sequenceNumber
      rw [slot]
      exact sound.done i member }

theorem Sound.commit (sound : Sound s) (done : (s.rob.slot s.rob.first).done ≤ s.now) :
    Sound s.commit := by
  have was : s.rob.Issued s.rob.first := by
    intro top
    rw [top, top_le_iff] at done
    exact WithTop.coe_ne_top done
  have some := sound.issued _ was
  have window := sound.window
  have total : s.commit.rob.first + s.commit.numInRob = s.rob.first + s.numInRob := by
    show s.rob.first + 1 + (s.numInRob - 1) = _
    omega
  exact {
    window := by
      rw [total]
      exact window
    next := sound.next
    entered := sound.entered
    kind := sound.kind
    issued := fun p issued => by
      rw [total]
      exact sound.issued p issued
    committed := fun p before => by
      rcases Nat.lt_succ_iff_lt_or_eq.mp before with earlier | rfl
      · exact sound.committed p earlier
      · exact was
    dependants := sound.dependants
    dependencies := sound.dependencies
    count := sound.count
    waiting := sound.waiting
    free := sound.free
    readyMax := sound.readyMax
    log := sound.log
    done := sound.done }

/-- The ports do not matter. -/
theorem Sound.contention (sound : Sound s) (contention : κ) :
    Sound { s with contention := contention } :=
  ⟨sound.window, sound.next, sound.entered, sound.kind, sound.issued, sound.committed,
    sound.dependants, sound.dependencies, sound.count, sound.waiting, sound.free, sound.readyMax,
    sound.log, sound.done⟩

/-- **Every move keeps the entries in order.** -/
theorem Beside.sound (move : Beside config s s') (sound : Sound s) : Sound s' := by
  cases move with
  | dispatch inWindow room inQueue => exact sound.dispatch inQueue
  | commit some done => exact sound.commit done
  | control clock same =>
    rw [same]
    exact ⟨sound.window, sound.next, sound.entered, sound.kind, sound.issued, sound.committed,
      sound.dependants, sound.dependencies, sound.count, sound.waiting, sound.free, sound.readyMax,
      sound.log, sound.done⟩

theorem Sound.synchronize (sound : Sound s) (time : ℕ) : Sound { s with now := time } :=
  ⟨sound.window, sound.next, sound.entered, sound.kind, sound.issued, sound.committed,
    sound.dependants, sound.dependencies, sound.count, sound.waiting, sound.free, sound.readyMax,
    sound.log, sound.done⟩

theorem Move.sound (move : Move config s s') (sound : Sound s) : Sound s' := by
  cases move with
  | beside move => exact move.sound sound
  | issue low high waiting ready issuing => exact sound.issue high waiting ready issuing

/-- What every move keeps. -/
theorem kept_along {R : Timer κ → Timer κ → Prop} (inv : Timer κ → Prop)
    (kept : ∀ s s', R s s' → inv s → inv s') (moves : ReflTransGen R s s') (now : inv s) : inv s' := by
  induction moves with
  | refl => exact now
  | tail _ move ih => exact kept _ _ move ih

theorem Moves.sound (moves : Moves config s s') (sound : Sound s) : Sound s' :=
  kept_along Sound (fun _ _ move sound => Move.sound move sound) moves sound

/-! ## The stages -/

/-- The computation makes moves from `s`, if it does not fail. -/
abbrev Steps {A : Type} (R : Timer κ → Timer κ → Prop) (s : Timer κ) (timer : A → Timer κ) :
    Except Stop A → Prop :=
  Ensures (fun a => ReflTransGen R s (timer a)) fun _ => True

/-- Nothing is said about failures. -/
theorem ensures_of_ok {A : Type} {post : A → Prop} {x : Except Stop A}
    (ok : ∀ a, x = .ok a → post a) : Ensures post (fun _ => True) x := by
  cases x with
  | error e => trivial
  | ok a => exact ok a rfl

/-- Micro-ops enter one after the other. -/
theorem enterAll_eq (config : Config κ) (insts : List DynamicMicroOp) (s : Timer κ) :
    enterAll config insts s =
      runEvents (fun op t => enter config t op) (insts.filter fun op => !op.squashed) s := by
  rw [enterAll]
  generalize insts.filter (fun op => !op.squashed) = ops
  induction ops generalizing s with
  | nil => rfl
  | cons op ops ih =>
    rw [List.foldlM_cons, runEvents]
    exact bind_congr ih

/-- **The first loop of `simulate`**, when each micro-op that enters meets a condition. -/
theorem enterAll_ensures {cond : Timer κ → DynamicMicroOp → Prop} {inv : Timer κ → Prop}
    {insts : List DynamicMicroOp} (bare : ∀ op ∈ insts, op.dependencies = [])
    (along : Along cond (fun op t => enter config t op) (insts.filter fun op => !op.squashed) s)
    (entered : ∀ t t' op u v q e, op.dependencies = [] → cond t op → Sound t →
      Entering config op t t' u v q e → inv t → inv t') (sound : Sound s) (now : inv s) :
    Ensures (fun t => Sound t ∧ inv t) (fun _ => True) (enterAll config insts s) := by
  have bare (op : DynamicMicroOp) (member : op ∈ insts.filter fun op => !op.squashed) :
      op.dependencies = [] := bare op (List.mem_filter.mp member).1
  rw [enterAll_eq]
  generalize insts.filter (fun op => !op.squashed) = ops at along bare
  induction ops generalizing s with
  | nil => exact ⟨sound, now⟩
  | cons op ops ih =>
    rw [runEvents]
    cases entry : enter config s op with
    | error e => trivial
    | ok t =>
      obtain ⟨u, v, q, e, entering⟩ := enter_spec sound.numbered sound.low sound.next entry
      exact ih (sound.enter entering)
        (entered s t op u v q e (bare op List.mem_cons_self) along.1 sound entering now)
        (along.2 t entry) fun op member => bare op (List.mem_cons_of_mem _ member)

theorem enterAll_inv {inv : Timer κ → Prop} {insts : List DynamicMicroOp}
    (bare : ∀ op ∈ insts, op.dependencies = [])
    (entered : ∀ t t' op u v q e, op.dependencies = [] → Sound t → Entering config op t t' u v q e →
      inv t → inv t') (sound : Sound s) (now : inv s) :
    Ensures (fun t => Sound t ∧ inv t) (fun _ => True) (enterAll config insts s) :=
  enterAll_ensures bare (.of_forall fun _ _ _ => trivial)
    (fun t t' op u v q e plain _ => entered t t' op u v q e plain) sound now

/-- The entry to be dispatched next. -/
def Timer.nextToDispatch (s : Timer κ) : RobEntry := s.rob.slot (s.rob.first + s.numInRob)

/-- The front end has stalled for the micro-op that is dispatched next, if that is a miss. -/
def Timer.Paid (s : Timer κ) : Prop :=
  s.nextToDispatch.uop.iCacheHitWhere ≠ .l1i → s.inIcacheMiss = true

/-- The front end has the micro-op that is dispatched next. -/
def Timer.fetched (s : Timer κ) : Timer κ :=
  if s.nextToDispatch.uop.iCacheHitWhere ≠ .l1i then { s with inIcacheMiss := false } else s

theorem Timer.fetched_eq (s : Timer κ) :
    s.fetched = { s with inIcacheMiss := s.fetched.inIcacheMiss } := by
  rw [fetched]
  split_ifs <;> rfl

/-- The variables of the loop of `doDispatch` after an entry was dispatched. -/
def Dispatch.dispatched (d : Dispatch κ) : Dispatch κ :=
  let s := d.timer.fetched.dispatch (d.timer.rob.first + d.timer.numInRob)
  { d with
    timer := s
    uopsDispatched := d.uopsDispatched + 1
    nextEvent := min d.nextEvent (s.rob.slot (d.timer.rob.first + d.timer.numInRob)).ready }

/-- **A pass of the loop of `doDispatch`**, case by case. -/
theorem dispatchBody_cases {d : Dispatch κ} {post : Pass (Dispatch κ) → Prop} {fails : Stop → Prop}
    (full : ¬ d.timer.numInRob < config.windowSize → post (.stop d))
    (outside : d.timer.numInRob < config.windowSize → d.timer.rob.size ≤ d.timer.numInRob →
      fails .outsideQueue)
    (width : d.timer.numInRob < config.windowSize → d.timer.numInRob < d.timer.rob.size →
      d.uopsDispatched = config.dispatchWidth → post (.stop d))
    (miss : d.timer.numInRob < config.windowSize → d.timer.numInRob < d.timer.rob.size →
      d.uopsDispatched ≠ config.dispatchWidth → d.timer.nextToDispatch.uop.iCacheHitWhere ≠ .l1i →
      d.timer.inIcacheMiss = false →
      post (.stop { d with
        timer := { d.timer with
          frontendStalledUntil := (d.timer.now +
            d.timer.nextToDispatch.uop.iCacheLatency * d.timer.period : ℕ)
          inIcacheMiss := true }
        cpiFrontEnd := some (.instructionCache d.timer.nextToDispatch.uop.iCacheHitWhere) }))
    (rsFull : d.timer.numInRob < config.windowSize → d.timer.numInRob < d.timer.rob.size →
      d.uopsDispatched ≠ config.dispatchWidth → d.timer.Paid →
      d.timer.rsEntriesUsed = config.rsEntries →
      post (.stop { d with timer := d.timer.fetched, cpiFrontEnd := some .rsFull }))
    (skipped : config.assertSkip = true → d.timer.willSkip = true → fails .skipped)
    (mispredicted : d.timer.numInRob < config.windowSize → d.timer.numInRob < d.timer.rob.size →
      d.uopsDispatched ≠ config.dispatchWidth → d.timer.Paid →
      d.timer.rsEntriesUsed ≠ config.rsEntries →
      (d.timer.nextToDispatch.uop.microOp.branch &&
        d.timer.nextToDispatch.uop.branchMispredicted) = true →
      post (.stop { d.dispatched with
        timer := { d.dispatched.timer with frontendStalledUntil := ⊤ }
        cpiFrontEnd := some .branchPredictor }))
    (dispatched : d.timer.numInRob < config.windowSize → d.timer.numInRob < d.timer.rob.size →
      d.uopsDispatched ≠ config.dispatchWidth → d.timer.Paid →
      d.timer.rsEntriesUsed ≠ config.rsEntries →
      (d.timer.nextToDispatch.uop.microOp.branch &&
        d.timer.nextToDispatch.uop.branchMispredicted) = false →
      post (.next d.dispatched)) :
    Ensures post fails (dispatchBody config d) := by
  rw [dispatchBody]
  dsimp only
  by_cases room : d.timer.numInRob < config.windowSize
  · rw [if_neg (not_not.mpr room)]
    by_cases inside : d.timer.numInRob < d.timer.rob.size
    · rw [Rob.pointerAt_ok.2 ⟨inside, rfl⟩, ok_bind]
      by_cases wide : d.uopsDispatched = config.dispatchWidth
      · rw [if_pos wide]
        exact width room inside wide
      rw [if_neg wide]
      by_cases missing : d.timer.nextToDispatch.uop.iCacheHitWhere ≠ .l1i ∧
          d.timer.inIcacheMiss = false
      · rw [Timer.nextToDispatch] at missing
        rw [if_pos missing]
        exact miss room inside wide missing.1 missing.2
      have paid : d.timer.Paid := fun isMiss =>
        Bool.not_eq_false _ ▸ fun unpaid => missing ⟨isMiss, unpaid⟩
      rw [Timer.nextToDispatch] at missing
      rw [if_neg missing]
      have fetched : (if (d.timer.rob.slot (d.timer.rob.first + d.timer.numInRob)).uop.iCacheHitWhere ≠
            .l1i then { d.timer with inIcacheMiss := false } else d.timer) = d.timer.fetched := rfl
      rw [fetched]
      have used : d.timer.fetched.rsEntriesUsed = d.timer.rsEntriesUsed := by
        rw [Timer.fetched_eq]
      have skip : d.timer.fetched.willSkip = d.timer.willSkip := by rw [Timer.fetched_eq]
      rw [used, skip]
      by_cases stations : d.timer.rsEntriesUsed = config.rsEntries
      · rw [if_pos stations]
        exact rsFull room inside wide paid stations
      rw [if_neg stations]
      by_cases skipping : (config.assertSkip && d.timer.willSkip) = true
      · rw [if_pos skipping]
        rw [Bool.and_eq_true] at skipping
        exact skipped skipping.1 skipping.2
      rw [if_neg skipping]
      by_cases wrong : (d.timer.nextToDispatch.uop.microOp.branch &&
          d.timer.nextToDispatch.uop.branchMispredicted) = true
      · have post := mispredicted room inside wide paid stations wrong
        rw [Timer.nextToDispatch] at wrong
        rw [if_pos wrong]
        exact post
      · have post := dispatched room inside wide paid stations (Bool.not_eq_true _ ▸ wrong)
        rw [Timer.nextToDispatch] at wrong
        rw [if_neg wrong]
        exact post
    · have error : d.timer.rob.pointerAt d.timer.numInRob = .error .outsideQueue := if_neg inside
      rw [error]
      exact outside room (not_lt.mp inside)
  · rw [if_pos room]
    exact full room

theorem dispatchBody_moves {d : Dispatch κ} (moves : ReflTransGen (Beside config) s d.timer) :
    Steps (Beside config) s (fun b => b.value.timer) (dispatchBody config d) := by
  have fetch : ReflTransGen (Beside config) s d.timer.fetched := by
    rw [Timer.fetched]
    split_ifs
    · exact moves.tail (.control le_rfl rfl)
    · exact moves
  have dispatch (inWindow : d.timer.numInRob < config.windowSize)
      (inQueue : d.timer.numInRob < d.timer.rob.size)
      (room : d.timer.rsEntriesUsed ≠ config.rsEntries) : ReflTransGen (Beside config) s d.dispatched.timer := by
    have size : d.timer.rob.size = d.timer.rob.entries.length - d.timer.rob.first := rfl
    have first : d.timer.fetched.rob = d.timer.rob := by rw [Timer.fetched_eq]
    have number : d.timer.fetched.numInRob = d.timer.numInRob := by rw [Timer.fetched_eq]
    have used : d.timer.fetched.rsEntriesUsed = d.timer.rsEntriesUsed := by rw [Timer.fetched_eq]
    have same : d.dispatched.timer =
        d.timer.fetched.dispatch (d.timer.fetched.rob.first + d.timer.fetched.numInRob) := by
      rw [first, number]
      rfl
    rw [same]
    refine fetch.tail (.dispatch (number ▸ inWindow) (used ▸ room) ?_)
    rw [first, number]
    omega
  refine dispatchBody_cases (fun _ => moves) (fun _ _ => trivial) (fun _ _ _ => moves)
    (fun _ _ _ _ _ => moves.tail (.control le_rfl rfl)) (fun _ _ _ _ _ => fetch)
    (fun _ _ => trivial) (fun inWindow inQueue _ _ room _ => ?_)
    (fun inWindow inQueue _ _ room _ => dispatch inWindow inQueue room)
  exact (dispatch inWindow inQueue room).tail (.control le_rfl rfl)

theorem doDispatch_moves (s : Timer κ) : Steps (Beside config) s (fun r => r.1) (doDispatch config s) := by
  have front : Steps (Beside config) s (fun d => d.timer) (dispatchFrontEnd config s) := by
    rw [dispatchFrontEnd]
    split_ifs
    · have looped : Steps (Beside config) s (fun d => d.timer)
          (loop (dispatchBody config) (config.windowSize + 1) ⟨s, 0, ⊤, none⟩) :=
        Ensures.loop_inv (fun d moves => dispatchBody_moves moves) .refl
      exact looped.bind fun d moves => moves.tail (.control le_rfl rfl)
    · exact .refl
  refine front.bind fun d moves => ?_
  have head : Ensures (fun _ => True) (fun _ => True)
      (findCpiComponent d.timer (List.range d.timer.numInRob)) := ensures_of_ok fun _ _ => trivial
  exact head.bind fun _ _ => moves

/-- The variables of the walk when the entry at `p` has been looked at. -/
def Walk.look (p : ℕ) (w : Walk κ) : Walk κ :=
  { w with nextEvent := min w.nextEvent (w.timer.rob.slot p).ready }

/-- **A pass of the loop of `doIssue` for an entry that is not issued**, case by case. -/
theorem issueEntry_cases {w : Walk κ} {p : ℕ} {post : Pass (Walk κ) → Prop} {fails : Stop → Prop}
    (serializing : verdict config w (w.timer.rob.slot p) = .serializingBlocked →
      post (.stop (w.look p))) (blocked : verdict config w (w.timer.rob.slot p) = .blocked →
      post (leave config (w.look p) (w.timer.rob.slot p)))
    (membar : verdict config w (w.timer.rob.slot p) = .membarBlocked →
      post (leave config { w.look p with noMoreLoad := true, noMoreStore := true }
        (w.timer.rob.slot p)))
    (noPort : verdict config w (w.timer.rob.slot p) = .canIssue →
      (tryIssue config (w.timer.rob.slot p).uop w.timer).1 = false →
      post (leave config
        { w.look p with timer := (tryIssue config (w.timer.rob.slot p).uop w.timer).2 }
        (w.timer.rob.slot p)))
    (failed : verdict config w (w.timer.rob.slot p) = .canIssue →
      (tryIssue config (w.timer.rob.slot p).uop w.timer).1 = true → ∀ e,
      issueInstruction config p (w.look p).nextEvent
        (tryIssue config (w.timer.rob.slot p).uop w.timer).2 = .error e → fails e)
    (skipped : ∀ s nextEvent, verdict config w (w.timer.rob.slot p) = .canIssue →
      issueInstruction config p (w.look p).nextEvent
        (tryIssue config (w.timer.rob.slot p).uop w.timer).2 = .ok (s, nextEvent) →
      config.assertSkip = true → s.willSkip = true → fails .skipped)
    (issued : verdict config w (w.timer.rob.slot p) = .canIssue →
      (tryIssue config (w.timer.rob.slot p).uop w.timer).1 = true → ∀ s nextEvent,
      issueInstruction config p (w.look p).nextEvent
        (tryIssue config (w.timer.rob.slot p).uop w.timer).2 = .ok (s, nextEvent) →
      post (endOfPass config { w.look p with
        timer := s, nextEvent := nextEvent, numIssued := w.numIssued + 1 })) :
    Ensures post fails (issueEntry config w p) := by
  rw [issueEntry]
  dsimp only
  have look : verdict config { w with nextEvent := min w.nextEvent (w.timer.rob.slot p).ready }
      (w.timer.rob.slot p) = verdict config w (w.timer.rob.slot p) := rfl
  rw [look]
  cases said : verdict config w (w.timer.rob.slot p) with
  | serializingBlocked => exact serializing said
  | blocked => exact blocked said
  | membarBlocked => exact membar said
  | canIssue =>
    dsimp only
    cases port : (tryIssue config (w.timer.rob.slot p).uop w.timer).1 with
    | false => exact noPort said port
    | true =>
      cases ran : issueInstruction config p (w.look p).nextEvent
          (tryIssue config (w.timer.rob.slot p).uop w.timer).2 with
      | error e =>
        have same : issueInstruction config p (min w.nextEvent (w.timer.rob.slot p).ready)
          (tryIssue config (w.timer.rob.slot p).uop w.timer).2 = .error e := ran
        rw [if_pos rfl, same]
        exact failed said port e ran
      | ok r =>
        obtain ⟨t, nextEvent⟩ := r
        have same : issueInstruction config p (min w.nextEvent (w.timer.rob.slot p).ready)
          (tryIssue config (w.timer.rob.slot p).uop w.timer).2 = .ok (t, nextEvent) := ran
        rw [if_pos rfl, same, ok_bind]
        dsimp only
        by_cases skipping : (config.assertSkip && t.willSkip) = true
        · rw [if_pos skipping]
          rw [Bool.and_eq_true] at skipping
          exact skipped t nextEvent said ran skipping.1 skipping.2
        · rw [if_neg skipping]
          exact issued said port t nextEvent ran

theorem endOfPass_timer (w : Walk κ) : (endOfPass config w).value.timer = w.timer := by
  rw [endOfPass]
  split_ifs <;> rfl

theorem leave_timer (w : Walk κ) (e : RobEntry) : (leave config w e).value.timer = w.timer := by
  rw [leave]
  split_ifs
  · rfl
  · rw [endOfPass_timer]

theorem tryIssue_timer (u : DynamicMicroOp) (s : Timer κ) :
    (tryIssue config u s).2 = { s with contention := (tryIssue config u s).2.contention } := by
  rw [tryIssue]
  split <;> rfl

/-- An entry that can be issued is ready. -/
theorem ready_of_canIssue {w : Walk κ} {e : RobEntry} (said : verdict config w e = .canIssue) :
    e.ready ≤ w.timer.now := by
  by_contra late
  have later : (w.timer.now : Time) < e.ready := not_le.mp late
  rw [verdict, if_pos later] at said
  cases said

/-- A pass of the walk is at most one issue. -/
theorem issueBody_moves {w : Walk κ} (sound : Sound s) (moves : Moves config s w.timer) :
    Steps (Move config) s (fun b => b.value.timer) (issueBody config w) := by
  have soundNow := moves.sound sound
  rw [issueBody]
  split_ifs with window
  · by_cases inside : w.i < w.timer.rob.size
    · rw [Rob.pointerAt_ok.2 ⟨inside, rfl⟩, ok_bind]
      dsimp only
      split_ifs with issued
      · exact moves
      · have port : Moves config s
            (tryIssue config (w.timer.rob.slot (w.timer.rob.first + w.i)).uop w.timer).2 := by
          rw [tryIssue_timer]
          exact moves.tail (.beside (.control le_rfl rfl))
        refine issueEntry_cases (fun _ => moves) (fun _ => ?_) (fun _ => ?_) (fun _ _ => ?_)
          (fun _ _ _ _ => trivial) (fun _ _ _ _ _ _ => trivial) (fun said _ t event ran => ?_)
        · show Moves config s (leave config _ _).value.timer
          rw [leave_timer]
          exact moves
        · show Moves config s (leave config _ _).value.timer
          rw [leave_timer]
          exact moves
        · show Moves config s (leave config _ _).value.timer
          rw [leave_timer]
          exact port
        · show Moves config s (endOfPass config _).value.timer
          rw [endOfPass_timer]
          have soundPort := Moves.sound port sound
          have size : w.timer.rob.size = w.timer.rob.entries.length - w.timer.rob.first := rfl
          have rob : (tryIssue config (w.timer.rob.slot (w.timer.rob.first + w.i)).uop
            w.timer).2.rob = w.timer.rob := by rw [tryIssue_timer]
          have number : (tryIssue config (w.timer.rob.slot (w.timer.rob.first + w.i)).uop
            w.timer).2.numInRob = w.timer.numInRob := by rw [tryIssue_timer]
          have now : (tryIssue config (w.timer.rob.slot (w.timer.rob.first + w.i)).uop
            w.timer).2.now = w.timer.now := by rw [tryIssue_timer]
          obtain ⟨u, i, issuing, -⟩ := issueInstruction_spec soundPort.numbered
            (by rw [rob]; omega) (by rw [rob]; omega) ran
          refine port.tail (.issue (by rw [rob]; omega) (by rw [rob, number]; omega) ?_ ?_ issuing)
          · rw [rob]
            exact issued
          · rw [rob, now]
            exact ready_of_canIssue said
    · have error : w.timer.rob.pointerAt w.i = .error .outsideQueue := if_neg inside
      rw [error]
      trivial
  · exact moves

theorem doIssue_moves (sound : Sound s) : Steps (Move config) s (fun r => r.1) (doIssue config s) := by
  have looped : Steps (Move config) s (fun w => w.timer)
      (loop (issueBody config) (s.numInRob + 1) (Walk.start config s)) :=
    Ensures.loop_inv (fun w moves => issueBody_moves sound moves)
      (ReflTransGen.single (.beside (.control le_rfl rfl)))
  exact looped.bind fun w moves => moves

/-- What each move keeps holds after the round of the issue stage. -/
theorem doIssue_inv {inv : Timer κ → Prop}
    (beside : ∀ t t', Sound t → Beside config t t' → inv t → inv t')
    (issue : ∀ t t' q u i, Sound t → q < t.rob.first + t.numInRob → ¬ t.rob.Issued q →
      (t.rob.slot q).ready ≤ t.now → Issuing config q t t' u i → inv t → inv t')
    (sound : Sound s) (now : inv s) :
    Ensures (fun r => Sound r.1 ∧ inv r.1) (fun _ => True) (doIssue config s) := by
  refine (doIssue_moves sound).mono fun r moves => ?_
  refine kept_along (fun t => Sound t ∧ inv t) (fun t t' move both => ⟨move.sound both.1, ?_⟩) moves
    ⟨sound, now⟩
  cases move with
  | beside move => exact beside t t' both.1 move both.2
  | issue low high waiting ready issuing =>
    exact issue t t' _ _ _ both.1 high waiting ready issuing both.2

theorem commitBody_moves {c : Committing κ} (moves : ReflTransGen (Beside config) s c.timer) :
    Steps (Beside config) s (fun b => b.value.timer) (commitBody config c) := by
  rw [commitBody]
  dsimp only
  split_ifs with stop skip enough
  · exact moves
  · trivial
  all_goals
    rw [not_or, not_not] at stop
    have size : c.timer.rob.size = c.timer.rob.entries.length - c.timer.rob.first := rfl
    exact moves.tail (.commit (by omega) stop.2)

theorem doCommit_moves (s : Timer κ) : Steps (Beside config) s (fun r => r.1) (doCommit config s) := by
  have looped : Steps (Beside config) s (fun c => c.timer)
      (loop (commitBody config) (s.rob.size + 1) ⟨s, 0, 0⟩) :=
    Ensures.loop_inv (fun c moves => commitBody_moves moves) .refl
  exact looped.bind fun c moves => moves

theorem advance_moves (event : Time) (component : CpiComponent) (s : Timer κ) :
    ReflTransGen (Beside config) s (advance config event component s).1 :=
  ReflTransGen.single (.control (Nat.le_add_right _ _) rfl)

/-- `simulate` has to give more micro-ops before the timer goes on. -/
def Starved (config : Config κ) (s : Timer κ) : Prop :=
  s.frontendStalledUntil ≤ s.now ∧ s.rob.size < s.numInRob + 2 * config.dispatchWidth

instance (config : Config κ) (s : Timer κ) : Decidable (Starved config s) :=
  inferInstanceAs (Decidable (_ ∧ _))

/-- The timer when `simulate` has been called. -/
def Timer.called (s : Timer κ) : Timer κ :=
  { s with simulating := true, totalInsnExec := 0, totalLat := 0 }

theorem Timer.called_beside (config : Config κ) (s : Timer κ) : Beside config s s.called :=
  .control le_rfl rfl

theorem step_simulate {insts : List DynamicMicroOp}
    (ran : step config (.simulate insts) s = .ok s') :
    (∀ op ∈ insts, op.dependencies = []) ∧ enterAll config insts s.called = .ok s' := by
  rw [step] at ran
  split_ifs at ran with busy
  rw [Bool.or_eq_true, not_or, List.any_eq_true] at busy
  refine ⟨fun op member => ?_, ran⟩
  by_contra some
  exact busy.2 ⟨op, member, by simpa using some⟩

/-- **One event**: micro-ops enter, or a round of the issue stage with other moves before and after it,
or the clock is set. -/
theorem step_ensures {inv : Timer κ → Prop} {e : Event}
    (simulate : ∀ insts, e = .simulate insts → (∀ op ∈ insts, op.dependencies = []) →
      Sound s.called → inv s.called →
      Ensures (fun t => Sound t ∧ inv t) (fun _ => True) (enterAll config insts s.called))
    (beside : ∀ t t', Sound t → Beside config t t' → inv t → inv t')
    (issue : ∀ t nextDispatch component, e = .execute → ¬ Starved config s →
      doDispatch config s = .ok (t, nextDispatch, component) → Sound t → inv t →
      Ensures (fun r => Sound r.1 ∧ inv r.1) (fun _ => True) (doIssue config t))
    (synchronize : ∀ time, e = .synchronize time → inv s → inv { s with now := time })
    (sound : Sound s) (now : inv s) :
    Ensures (fun s => Sound s ∧ inv s) (fun _ => True) (step config e s) := by
  have one (t t' : Timer κ) (move : Beside config t t') (both : Sound t ∧ inv t) :
      Sound t' ∧ inv t' := ⟨move.sound both.1, beside t t' both.1 move both.2⟩
  have several {t t' : Timer κ} (moves : ReflTransGen (Beside config) t t')
      (both : Sound t ∧ inv t) : Sound t' ∧ inv t' :=
    kept_along (fun s => Sound s ∧ inv s) one moves both
  cases e with
  | simulate insts =>
    refine ensures_of_ok fun t ran => ?_
    obtain ⟨bare, ran⟩ := step_simulate ran
    have start := one _ _ (Timer.called_beside config s) ⟨sound, now⟩
    exact (simulate insts rfl bare start.1 start.2).of_ok ran
  | execute =>
    rw [step]
    split_ifs
    · have round : Ensures (fun r => Sound r.1 ∧ inv r.1) (fun _ => True) (execute config s) := by
        rw [execute]
        split_ifs with starved
        · exact ⟨sound, now⟩
        have dispatching : Steps (Beside config) s (fun r => r.1) (doDispatch config s) :=
          doDispatch_moves s
        cases dispatched : doDispatch config s with
        | error e => trivial
        | ok r =>
          obtain ⟨t, nextDispatch, component⟩ := r
          rw [dispatched] at dispatching
          have front := several dispatching ⟨sound, now⟩
          rw [ok_bind]
          refine Ensures.bind (issue t nextDispatch component rfl starved dispatched front.1 front.2)
            fun ⟨u, nextIssue⟩ issued => ?_
          refine Ensures.bind (doCommit_moves u) fun ⟨v, nextCommit, executed⟩ committed => ?_
          exact several (committed.trans (advance_moves _ _ _)) issued
      refine round.bind fun ⟨t, executed, latency⟩ both => ?_
      have finish : Beside config t (finishRound executed latency t) := by
        rw [finishRound]
        split_ifs
        · exact .control le_rfl rfl
        · exact .control le_rfl rfl
      exact one _ _ finish both
    · trivial
  | synchronize time =>
    rw [step]
    split_ifs
    · trivial
    · exact ⟨sound.synchronize time, synchronize time rfl now⟩
  | changePeriod period =>
    rw [step]
    split_ifs
    · trivial
    · have move : Beside config s { s with period := period } := .control le_rfl rfl
      exact one _ _ move ⟨sound, now⟩

/-- What every move keeps holds after every event. -/
theorem step_inv {inv : Timer κ → Prop} {e : Event}
    (enter : ∀ t t' op u v q e, op.dependencies = [] → Sound t → Entering config op t t' u v q e →
      inv t → inv t') (beside : ∀ t t', Sound t → Beside config t t' → inv t → inv t')
    (issue : ∀ t t' q u i, Sound t → q < t.rob.first + t.numInRob → ¬ t.rob.Issued q →
      (t.rob.slot q).ready ≤ t.now → Issuing config q t t' u i → inv t → inv t')
    (synchronize : ∀ time, inv s → inv { s with now := time }) (sound : Sound s) (now : inv s) :
    Ensures (fun s => Sound s ∧ inv s) (fun _ => True) (step config e s) :=
  step_ensures (fun _ _ bare sound now => enterAll_inv bare enter sound now) beside
    (fun _ _ _ _ _ _ sound now => doIssue_inv beside issue sound now)
    (fun time _ => synchronize time) sound now

/-! ## Bookkeeping -/

/-- The window and the reservation stations are within their sizes; the stations in use are those of
the entries in the window that are not issued; no micro-op is issued twice; and the micro-ops are
committed in their order, none of them before it is done. -/
structure Bookkeeping (config : Config κ) (s : Timer κ) : Prop where
  window : s.numInRob ≤ config.windowSize
  stations : s.rsEntriesUsed =
    (List.range' s.rob.first s.numInRob).countP fun p => ¬ s.rob.Issued p
  room : s.rsEntriesUsed ≤ config.rsEntries
  once : (s.issues.map Issue.sequenceNumber).Nodup
  inOrder : s.commits.map Commit.sequenceNumber = List.range s.rob.first
  finished : ∀ c ∈ s.commits, c.done ≤ (c.committed : Time)

namespace Bookkeeping

variable (book : Bookkeeping config s)
include book

theorem of_same (first : s'.rob.first = s.rob.first)
    (issued : ∀ p, s'.rob.Issued p ↔ s.rob.Issued p) (number : s'.numInRob = s.numInRob)
    (used : s'.rsEntriesUsed = s.rsEntriesUsed) (issues : s'.issues = s.issues)
    (commits : s'.commits = s.commits) : Bookkeeping config s' where
  window := number ▸ book.window
  stations := by
    rw [used, book.stations, number, first]
    simp only [issued]
  room := used ▸ book.room
  once := issues ▸ book.once
  inOrder := by
    rw [commits, first]
    exact book.inOrder
  finished := commits ▸ book.finished

theorem dispatch (sound : Sound s) (inWindow : s.numInRob < config.windowSize)
    (room : s.rsEntriesUsed ≠ config.rsEntries) :
    Bookkeeping config (s.dispatch (s.rob.first + s.numInRob)) where
  window := inWindow
  stations := by
    have waiting : ¬ s.rob.Issued (s.rob.first + s.numInRob) := fun issued =>
      absurd (sound.issued _ issued) (lt_irrefl _)
    show s.rsEntriesUsed + 1 = (List.range' s.rob.first (s.numInRob + 1)).countP _
    simp only [dispatch_issued]
    rw [List.range'_concat, Nat.one_mul, List.countP_append, ← book.stations,
      List.countP_singleton, if_pos (decide_eq_true waiting)]
  room := lt_of_le_of_ne book.room room
  once := book.once
  inOrder := book.inOrder
  finished := book.finished

theorem commit (sound : Sound s) (some : s.rob.first < s.rob.entries.length)
    (done : (s.rob.slot s.rob.first).done ≤ s.now) : Bookkeeping config s.commit := by
  have issued : s.rob.Issued s.rob.first := by
    intro top
    rw [top, top_le_iff] at done
    exact WithTop.coe_ne_top done
  obtain ⟨n, more⟩ : ∃ n, s.numInRob = n + 1 := by
    have inside := sound.issued _ issued
    exact ⟨s.numInRob - 1, by omega⟩
  have less : s.commit.numInRob = n := by
    show s.numInRob - 1 = n
    omega
  have window := book.window
  refine ⟨?_, ?_, book.room, book.once, ?_, ?_⟩
  · omega
  · have stations := book.stations
    rw [more, List.range'_succ, List.countP_cons_of_neg (by simp [issued])] at stations
    rw [less]
    exact stations
  · show (s.commits ++ [_]).map Commit.sequenceNumber = List.range (s.rob.first + 1)
    rw [List.map_append, book.inOrder, List.range_succ]
    exact congrArg (List.range s.rob.first ++ [·]) (sound.numbered _ some)
  · intro c member
    rcases List.mem_append.1 member with earlier | last
    · exact book.finished c earlier
    · rw [List.mem_singleton.1 last]
      exact done

theorem issue (sound : Sound s) {p : ℕ} {u : DynamicMicroOp} {i : Issue}
    (high : p < s.rob.first + s.numInRob) (waiting : ¬ s.rob.Issued p)
    (issuing : Issuing config p s s' u i) : Bookkeeping config s' := by
  have low : s.rob.first ≤ p := by
    by_contra below
    exact waiting (sound.committed p (not_le.1 below))
  have inQueue : p < s.rob.entries.length := lt_of_lt_of_le high sound.window
  have number : s'.numInRob = s.numInRob := by rw [issuing.timer]
  have used : s'.rsEntriesUsed = s.rsEntriesUsed - 1 := by rw [issuing.timer]
  have issues : s'.issues = s.issues ++ [i] := by rw [issuing.timer]
  have commits : s'.commits = s.commits := by rw [issuing.timer]
  have fewer : s.rsEntriesUsed = (List.range' s'.rob.first s'.numInRob).countP
      (fun c => ¬ s'.rob.Issued c) + 1 := by
    have member : p ∈ List.range' s.rob.first s.numInRob := List.mem_range'_1.2 ⟨low, high⟩
    have perm := List.perm_cons_erase member
    rw [book.stations, number, issuing.first, perm.countP_eq, perm.countP_eq,
      List.countP_cons_of_pos (by simp [waiting]),
      List.countP_cons_of_neg (by simp [issuing.issued_iff inQueue])]
    congr 1
    refine List.countP_congr fun c other => ?_
    have apart : c ≠ p := ((List.nodup_range').mem_erase_iff.1 other).1
    simp [issuing.issued_iff inQueue, apart]
  refine ⟨number ▸ book.window, ?_, ?_, ?_, ?_, commits ▸ book.finished⟩
  · omega
  · have room := book.room
    omega
  · rw [issues, List.map_append]
    refine List.nodup_append.2 ⟨book.once, List.nodup_singleton _, fun x before y new same => ?_⟩
    rw [List.mem_singleton.1 new, issuing.sequenceNumber sound.numbered inQueue] at same
    obtain ⟨j, logged, number⟩ := List.mem_map.1 before
    exact waiting ((sound.log p).2 ⟨j, logged, number.trans same⟩)
  · rw [commits, issuing.first]
    exact book.inOrder

end Bookkeeping

/-- **The bookkeeping of the reorder buffer**, in every state of every run. -/
theorem run_bookkeeping (config : Config κ) (period : ℕ) (events : List Event) :
    Ensures (fun s => Sound s ∧ Bookkeeping config s) (fun _ => True)
      (runEvents (step config) events (Timer.start config period)) := by
  refine ensures_runEvents (fun e s both => ?_) ⟨sound_start config period, ?_⟩
  · refine step_inv (fun t t' op u v q entry _ _ entering book => ?_)
      (fun t t' sound move book => ?_) (fun t t' q u i sound high waiting _ issuing book => ?_)
      (fun time book => book.of_same rfl (fun _ => Iff.rfl) rfl rfl rfl rfl) both.1 both.2
    · have same : t'.numInRob = t.numInRob ∧ t'.rsEntriesUsed = t.rsEntriesUsed ∧
          t'.issues = t.issues ∧ t'.commits = t.commits := by
        rw [entering.timer]
        exact ⟨rfl, rfl, rfl, rfl⟩
      exact book.of_same entering.first entering.issued_iff same.1 same.2.1 same.2.2.1 same.2.2.2
    · cases move with
      | dispatch inWindow room inQueue => exact book.dispatch sound inWindow room
      | commit some done => exact book.commit sound some done
      | control clock same =>
        rw [same]
        exact book.of_same rfl (fun _ => Iff.rfl) rfl rfl rfl rfl
    · exact book.issue sound high waiting issuing
  · exact ⟨Nat.zero_le _, rfl, Nat.zero_le _, List.nodup_nil, rfl, fun _ member => nomatch member⟩

end GpuHotSpot.Common.RobTimer
