import GpuHotSpot.Common.SmtTimer

/-!
# Progress of the SMT barrier

What a release does when the barrier is reached: no running thread is outside it then, so all depends
on whether a thread that waits in it is still running.

* `barrierRelease_spec`: with such a thread the release ends, and a running thread is outside the
  barrier, or is the caller and is let out.
* `barrierRelease_neverEnds`: without one its second loop goes on for ever.
* `run_releases`: the two, at each evaluation of each run.
-/

namespace GpuHotSpot.Common.SmtTimer

open Fallible

variable {config : Config} {rounds : ℕ} {occupancy : Occupancy} {s s' : Timer}
  {caller : Option ℕ} {all : Bool} {t u : ℕ} {r : Release}

/-! ## The barrier -/

theorem reached_iff (s : Timer) (ts : List ℕ) (any : Bool) :
    reached s ts any = true ↔
      (∀ t ∈ ts, (s.threads t).running = true → (s.threads t).inBarrier = true) ∧
        (any = true ∨ ∃ t ∈ ts, (s.threads t).inBarrier = true) := by
  induction ts generalizing any with
  | nil => simp [reached]
  | cons t ts ih =>
    rw [reached]
    cases running : (s.threads t).running <;> cases inBarrier : (s.threads t).inBarrier <;>
      simp [ih, running, inBarrier]

/-- The barrier is reached when no running thread is outside it and some thread is in it. -/
theorem isBarrierReached_iff :
    isBarrierReached config s = true ↔ s.inSync = false ∧
        (∀ t < config.numThreads, (s.threads t).running = true → (s.threads t).inBarrier = true) ∧
        ∃ t < config.numThreads, (s.threads t).inBarrier = true := by
  simp [isBarrierReached, reached_iff, Config.order]

/-- A thread that waits in the barrier is still running. -/
def Awake (config : Config) (s : Timer) : Prop :=
  ∃ t < config.numThreads, (s.threads t).inBarrier = true ∧ (s.threads t).running = true

/-! ## The loops -/

@[simp] theorem update_threads (t : ℕ) (f : SmtThread → SmtThread) (s : Timer) :
    (s.update t f).threads t = f (s.threads t) := Function.update_self ..

theorem update_threads_of_ne (other : u ≠ t) (f : SmtThread → SmtThread) (s : Timer) :
    (s.update t f).threads u = s.threads u := Function.update_of_ne other ..

/-- A release lets out the one thread. -/
theorem release_threads (t u : ℕ) (s : Timer) :
    ((release t s).threads u).running = (s.threads u).running ∧
      ((release t s).threads u).inBarrier = (if u = t then false else (s.threads u).inBarrier) ∧
      (¬ u = t → ((release t s).threads u).waiting = (s.threads u).waiting) := by
  have threads : (release t s).threads = (s.update t SmtThread.release).threads := rfl
  rw [threads]
  by_cases same : u = t
  · subst same
    rw [if_pos rfl, update_threads]
    exact ⟨rfl, rfl, fun other => absurd rfl other⟩
  · rw [if_neg same, update_threads_of_ne same]
    exact ⟨rfl, rfl, fun _ => rfl⟩

/-- What the loops of a release keep, from the state they began in. -/
structure Releasing (config : Config) (caller : Option ℕ) (s : Timer) (r : Release) : Prop where
  running : ∀ t, (r.timer.threads t).running = (s.threads t).running
  inside : ∀ t, (r.timer.threads t).inBarrier = true → (s.threads t).inBarrier = true
  signalled : ∃ ts, r.timer.signalled = s.signalled ++ ts ∧
    ∀ t ∈ ts, t < config.numThreads ∧ (s.threads t).inBarrier = true
  progress : r.numRunning ≠ 0 → ∃ t < config.numThreads, (s.threads t).running = true ∧
    ((r.timer.threads t).inBarrier = false ∨ caller = some t ∧ r.releaseMe = true)
  kept : r.numRunning = 0 → ∀ t, (s.threads t).inBarrier = true → (s.threads t).running = true →
    (r.timer.threads t).inBarrier = true
  waiting : ∀ t, (r.timer.threads t).inBarrier = true →
    (r.timer.threads t).waiting = (s.threads t).waiting
  told : r.timer.told = []

/-- Where the loops begin. -/
theorem Releasing.start (config : Config) (caller : Option ℕ) (s : Timer) :
    Releasing config caller s ⟨{ s with executeThread := caller, told := [] }, 0, false⟩ where
  running _ := rfl
  inside _ still := still
  signalled := ⟨[], (List.append_nil _).symm, nofun⟩
  progress some := absurd rfl some
  kept _ _ inside _ := inside
  waiting _ _ := rfl
  told := rfl

theorem Releasing.execute (rel : Releasing config caller s r) (t : ℕ) :
    Releasing config caller s (r.execute t) :=
  ⟨rel.running, rel.inside, rel.signalled, rel.progress, rel.kept, rel.waiting, rel.told⟩

/-- A running thread outside the barrier is counted. -/
theorem Releasing.count (rel : Releasing config caller s r) (inRange : t < config.numThreads)
    (outside : (r.timer.threads t).inBarrier = false) :
    Releasing config caller s { r with numRunning :=
      if (r.timer.threads t).running then r.numRunning + 1 else r.numRunning } where
  running := rel.running
  inside := rel.inside
  signalled := rel.signalled
  progress some := by
    cases running : (r.timer.threads t).running with
    | true => exact ⟨t, inRange, (rel.running t).symm.trans running, .inl outside⟩
    | false =>
      rw [running] at some
      exact rel.progress some
  kept none := by
    refine rel.kept ?_
    cases running : (r.timer.threads t).running with
    | true =>
      rw [running] at none
      cases none
    | false =>
      rw [running] at none
      exact none
  waiting := rel.waiting
  told := rel.told

/-- A thread in the barrier is let out. -/
theorem Releasing.letOut (rel : Releasing config caller s r) (inRange : t < config.numThreads)
    (inBarrier : (r.timer.threads t).inBarrier = true) :
    Releasing config caller s (r.letOut caller t) := by
  by_cases isCaller : caller = some t
  · rw [Release.letOut, if_pos isCaller]
    refine ⟨rel.running, rel.inside, rel.signalled, fun some => ?_, fun none => rel.kept ?_,
      rel.waiting, rel.told⟩
    · cases running : (r.timer.threads t).running with
      | true => exact ⟨t, inRange, (rel.running t).symm.trans running, .inr ⟨isCaller, rfl⟩⟩
      | false =>
        simp only [running, Bool.false_eq_true, if_false] at some
        obtain ⟨u, inRange', isRunning, out | ⟨mine, -⟩⟩ := rel.progress some
        · exact ⟨u, inRange', isRunning, .inl out⟩
        · exact ⟨u, inRange', isRunning, .inr ⟨mine, rfl⟩⟩
    · simp only at none
      split_ifs at none
      exact none
  · rw [Release.letOut, if_neg isCaller]
    have threads (u : ℕ) := release_threads t u r.timer
    refine ⟨fun u => (threads u).1.trans (rel.running u), fun u still => ?_, ?_, fun some => ?_,
      fun none u => ?_, fun u still => ?_, rel.told⟩
    · rw [(threads u).2.1] at still
      split_ifs at still
      exact rel.inside u still
    · obtain ⟨ts, logged, members⟩ := rel.signalled
      refine ⟨ts ++ [t], ?_, fun u member => ?_⟩
      · rw [← List.append_assoc, ← logged]
        rfl
      · rcases List.mem_append.mp member with earlier | last
        · exact members u earlier
        · rw [List.mem_singleton.mp last]
          exact ⟨inRange, rel.inside t inBarrier⟩
    · cases running : (r.timer.threads t).running with
      | true =>
        refine ⟨t, inRange, (rel.running t).symm.trans running, .inl ?_⟩
        rw [(threads t).2.1, if_pos rfl]
      | false =>
        simp only [running, Bool.false_eq_true, if_false] at some
        obtain ⟨u, inRange', isRunning, out | mine⟩ := rel.progress some
        · refine ⟨u, inRange', isRunning, .inl ?_⟩
          rw [(threads u).2.1, out, ite_self]
        · exact ⟨u, inRange', isRunning, .inr mine⟩
    · intro wasInside isRunning
      have none' : (r.timer.threads t).running = false ∧ r.numRunning = 0 := by
        simp only at none
        split_ifs at none with running
        exact ⟨Bool.not_eq_true _ ▸ running, none⟩
      have other : u ≠ t := fun same => by
        rw [← rel.running, same, none'.1] at isRunning
        cases isRunning
      rw [(threads u).2.1, if_neg other]
      exact rel.kept none'.2 u wasInside isRunning
    · rw [(threads u).2.1] at still
      split_ifs at still with other
      exact ((threads u).2.2 other).trans (rel.waiting u still)

theorem releaseNeedy_spec (ts : List ℕ) (inRange : ∀ t ∈ ts, t < config.numThreads)
    (rel : Releasing config caller s r) :
    Releasing config caller s (releaseNeedy occupancy all caller ts r) := by
  induction ts generalizing r with
  | nil => exact rel
  | cons t ts ih =>
    have here := inRange t List.mem_cons_self
    have later := fun u member => inRange u (List.mem_cons_of_mem t member)
    rw [releaseNeedy]
    cases inBarrier : (r.timer.threads t).inBarrier with
    | false =>
      rw [Bool.not_false, if_pos rfl]
      exact ih later (rel.count here inBarrier)
    | true =>
      rw [Bool.not_true, if_neg Bool.false_ne_true]
      have out := rel.letOut here inBarrier
      by_cases enough : occupancy.enough t = true
      · rw [if_pos enough]
        exact ih later rel
      · rw [if_neg enough]
        cases all with
        | true => exact ih later out
        | false => exact out.execute t

theorem releaseLowest_spec {limit : ℕ} (ts : List ℕ) (inRange : ∀ t ∈ ts, t < config.numThreads)
    (rel : Releasing config caller s r) :
    Releasing config caller s (releaseLowest occupancy all caller limit ts r) := by
  induction ts generalizing r with
  | nil => exact rel
  | cons t ts ih =>
    have here := inRange t List.mem_cons_self
    have later := fun u member => inRange u (List.mem_cons_of_mem t member)
    rw [releaseLowest]
    by_cases low : ((r.timer.threads t).inBarrier && (r.timer.threads t).running &&
        decide (occupancy.surplus t < limit)) = true
    · rw [if_pos low]
      simp only [Bool.and_eq_true] at low
      have out := rel.letOut here low.1.1
      cases all with
      | true => exact ih later out
      | false => exact out.execute t
    · rw [if_neg low]
      exact ih later rel

variable (occupancy all caller) in
/-- Threads let out stay counted. -/
theorem releaseLowest_numRunning (limit : ℕ) (ts : List ℕ) (r : Release) :
    r.numRunning ≤ (releaseLowest occupancy all caller limit ts r).numRunning := by
  have grows (t : ℕ) (r : Release) : r.numRunning ≤ (r.letOut caller t).numRunning := by
    rw [Release.letOut]
    split_ifs <;> simp
  induction ts generalizing r with
  | nil => exact le_rfl
  | cons t ts ih =>
    rw [releaseLowest]
    split_ifs
    · exact (grows t r).trans (ih _)
    · exact grows t r
    · exact ih r

/-- A limit above the surplus of a running thread in the barrier lets someone out. -/
theorem releaseLowest_progress {limit : ℕ} (ts : List ℕ) (member : t ∈ ts)
    (inBarrier : (r.timer.threads t).inBarrier = true)
    (running : (r.timer.threads t).running = true) (low : occupancy.surplus t < limit) :
    (releaseLowest occupancy all caller limit ts r).numRunning ≠ 0 := by
  have counted (u : ℕ) (isRunning : (r.timer.threads u).running = true) :
      (r.letOut caller u).numRunning = r.numRunning + 1 := by
    rw [Release.letOut, if_pos isRunning]
    split_ifs <;> rfl
  induction ts with
  | nil => cases member
  | cons u ts ih =>
    rw [releaseLowest]
    by_cases first : ((r.timer.threads u).inBarrier && (r.timer.threads u).running &&
        decide (occupancy.surplus u < limit)) = true
    · rw [if_pos first]
      simp only [Bool.and_eq_true] at first
      have some := counted u first.1.2
      split_ifs
      · have more := releaseLowest_numRunning occupancy caller all limit ts
          (r.letOut caller u)
        omega
      · change (r.letOut caller u).numRunning ≠ 0
        omega
    · rw [if_neg first]
      rcases List.mem_cons.mp member with same | later
      · subst same
        exact absurd (by simp [inBarrier, running, low]) first
      · exact ih later

theorem releaseSomeone_spec (rounds limit : ℕ) (rel : Releasing config caller s r) :
    Ensures (fun r' => Releasing config caller s r' ∧ r'.numRunning ≠ 0) (fun _ => True)
      (releaseSomeone config occupancy all caller rounds limit r) := by
  have inOrder : ∀ t ∈ config.order, t < config.numThreads := fun t member =>
    List.mem_range.mp member
  induction rounds generalizing limit r with
  | zero =>
    rw [releaseSomeone]
    split_ifs with some
    · exact ⟨rel, some⟩
    · trivial
  | succ rounds ih =>
    rw [releaseSomeone]
    split_ifs with some
    · exact ⟨rel, some⟩
    · exact ih _ (releaseLowest_spec config.order inOrder rel)

/-- While a thread in the barrier is running, the limit grows until someone is let out. -/
theorem releaseSomeone_ends (awake : Awake config s) (rounds k : ℕ)
    (rel : Releasing config caller s r) (enough : r.numRunning ≠ 0 ∨ k ≤ 32 ∧ 33 ≤ k + rounds) :
    ∃ r', releaseSomeone config occupancy all caller rounds (2 ^ k) r = .ok r' := by
  have inOrder : ∀ t ∈ config.order, t < config.numThreads := fun t member =>
    List.mem_range.mp member
  induction rounds generalizing k r with
  | zero =>
    rcases enough with some | ⟨low, high⟩
    · exact ⟨r, by rw [releaseSomeone, if_pos some]⟩
    · omega
  | succ rounds ih =>
    by_cases some : r.numRunning ≠ 0
    · exact ⟨r, by rw [releaseSomeone, if_pos some]⟩
    · obtain ⟨low, high⟩ := enough.resolve_left some
      have doubled : 2 ^ k * 2 % 2 ^ 64 = 2 ^ (k + 1) := by
        rw [← Nat.pow_succ]
        exact Nat.mod_eq_of_lt (Nat.pow_lt_pow_right (by omega) (by omega))
      rw [releaseSomeone, if_neg some, doubled]
      refine ih (k + 1) (releaseLowest_spec config.order inOrder rel) ?_
      by_cases last : k = 32
      · left
        obtain ⟨t, inRange, inBarrier, running⟩ := awake
        refine releaseLowest_progress config.order (List.mem_range.mpr inRange)
          (rel.kept (not_not.mp some) t inBarrier running) ((rel.running t).trans running) ?_
        rw [last]
        exact occupancy.surplus_lt t
      · exact .inr ⟨by omega, by omega⟩

/-- With no thread running, nothing changes any more. -/
theorem releaseSomeone_neverEnds (nobody : ∀ t < config.numThreads,
    (r.timer.threads t).running = false) (none : r.numRunning = 0) (rounds limit : ℕ) :
    releaseSomeone config occupancy all caller rounds limit r = .error .neverEnds := by
  have same (limit : ℕ) (ts : List ℕ) (inRange : ∀ t ∈ ts, t < config.numThreads) :
      releaseLowest occupancy all caller limit ts r = r := by
    induction ts with
    | nil => rfl
    | cons t ts ih =>
      have still := nobody t (inRange t List.mem_cons_self)
      rw [releaseLowest, if_neg (by simp [still])]
      exact ih fun u member => inRange u (List.mem_cons_of_mem t member)
  induction rounds generalizing limit with
  | zero => rw [releaseSomeone, if_neg (not_not.mpr none)]
  | succ rounds ih =>
    rw [releaseSomeone, if_neg (not_not.mpr none),
      same limit config.order fun t member => List.mem_range.mp member]
    exact ih _

/-! ## The release -/

variable (config occupancy caller all) in
theorem releaseNeedy_start (s : Timer) :
    Releasing config caller s (releaseNeedy occupancy all caller config.order
      ⟨{ s with executeThread := caller, told := [] }, 0, false⟩) :=
  releaseNeedy_spec config.order (fun _ member => List.mem_range.mp member) (.start config caller s)

variable (config rounds occupancy caller all) in
theorem barrierRelease_spec (s : Timer) :
    Ensures (fun r => Releasing config caller s r ∧ r.numRunning ≠ 0) (fun _ => True)
      (barrierRelease config rounds occupancy all caller s) :=
  releaseSomeone_spec rounds 1 (releaseNeedy_start config occupancy caller all s)

variable (occupancy caller all) in
/-- **The release ends** when a thread in the barrier is running. -/
theorem barrierRelease_ends (awake : Awake config s) :
    ∃ r, barrierRelease config 33 occupancy all caller s = .ok r :=
  releaseSomeone_ends awake 33 0 (releaseNeedy_start config occupancy caller all s) (.inr ⟨by omega, by omega⟩)

/-- **The release never ends** when the barrier is reached without such a thread. -/
theorem barrierRelease_neverEnds (reached : isBarrierReached config s = true)
    (asleep : ¬ Awake config s) (rounds : ℕ) :
    barrierRelease config rounds occupancy all caller s = .error .neverEnds := by
  have nobody : ∀ t < config.numThreads, (s.threads t).running = false := by
    intro t inRange
    by_contra running
    have running := Bool.not_eq_false _ ▸ running
    exact asleep ⟨t, inRange, (isBarrierReached_iff.1 reached).2.1 t inRange running, running⟩
  have rel := releaseNeedy_start config occupancy caller all s
  refine releaseSomeone_neverEnds (fun t inRange => (rel.running t).trans (nobody t inRange)) ?_ _ _
  by_contra some
  obtain ⟨t, inRange, running, -⟩ := rel.progress some
  rw [nobody t inRange] at running
  cases running

/-- A running thread has been let out, and only threads of the barrier are signalled. -/
structure Progress (config : Config) (caller : Option ℕ) (s : Timer) (r : Release) : Prop where
  someone : ∃ t < config.numThreads, (r.timer.threads t).running = true ∧
    ((r.timer.threads t).inBarrier = false ∨ caller = some t ∧ r.releaseMe = true)
  signalled : ∃ ts, r.timer.signalled = s.signalled ++ ts ∧
    ∀ t ∈ ts, (s.threads t).inBarrier = true

theorem progress_iff (reached : isBarrierReached config s = true) :
    (∃ rounds r, barrierRelease config rounds occupancy all caller s = .ok r ∧
      Progress config caller s r) ↔ Awake config s := by
  constructor
  · rintro ⟨rounds, r, ended, -⟩
    by_contra asleep
    rw [barrierRelease_neverEnds reached asleep] at ended
    cases ended
  · intro awake
    obtain ⟨r, ended⟩ := barrierRelease_ends occupancy caller all awake
    have spec := barrierRelease_spec config 33 occupancy caller all s
    rw [ended] at spec
    obtain ⟨rel, some⟩ := spec
    obtain ⟨t, inRange, running, out⟩ := rel.progress some
    obtain ⟨ts, logged, members⟩ := rel.signalled
    exact ⟨33, r, ended, ⟨t, inRange, (rel.running t).trans running, out⟩, ts, logged,
      fun u member => (members u member).2⟩

/-! ## Runs -/

/-- Between events a thread in the barrier waits, and since the last release no more than one thread
was told to execute. -/
structure Invariant (s : Timer) : Prop where
  waits : ∀ t, (s.threads t).inBarrier = true → 0 < (s.threads t).waiting
  told : s.told = [] ∨ (∃ t, s.told = [t]) ∧ s.executeThread = none

theorem Invariant.start : Invariant Timer.start where
  waits _ inBarrier := by cases inBarrier
  told := .inl rfl

theorem Invariant.update (inv : Invariant s) (t : ℕ) {f : SmtThread → SmtThread}
    (keeps : ∀ th, (f th).inBarrier = true → 0 < th.waiting ∨ th.inBarrier = false →
      0 < (f th).waiting) : Invariant (s.update t f) where
  waits u inBarrier := by
    by_cases same : u = t
    · subst same
      rw [update_threads] at inBarrier ⊢
      refine keeps _ inBarrier ?_
      cases inside : (s.threads u).inBarrier with
      | true => exact .inl (inv.waits u inside)
      | false => exact .inr rfl
    · rw [update_threads_of_ne same] at inBarrier ⊢
      exact inv.waits u inBarrier
  told := inv.told

/-- An update that leaves the barrier alone. -/
theorem Invariant.update_of_same (inv : Invariant s) (t : ℕ) {f : SmtThread → SmtThread}
    (inside : ∀ th, (f th).inBarrier = th.inBarrier) (waiting : ∀ th, (f th).waiting = th.waiting) :
    Invariant (s.update t f) := by
  refine inv.update t fun th inBarrier before => ?_
  rw [inside] at inBarrier
  rw [waiting]
  refine before.resolve_right fun outside => ?_
  rw [outside] at inBarrier
  cases inBarrier

theorem Invariant.release (inv : Invariant s) (t : ℕ) : Invariant (release t s) where
  waits u inBarrier := by
    rw [(release_threads t u s).2.1] at inBarrier
    split_ifs at inBarrier with other
    rw [(release_threads t u s).2.2 other]
    exact inv.waits u inBarrier
  told := inv.told

theorem Invariant.releaseAllThreads (inv : Invariant s) (ts : List ℕ) :
    Invariant (releaseAllThreads ts s) := by
  induction ts generalizing s with
  | nil => exact inv
  | cons t ts ih =>
    rw [SmtTimer.releaseAllThreads]
    split_ifs
    · exact ih (inv.release t)
    · exact ih inv

/-- A release leaves the threads that stay in the barrier waiting. -/
theorem Releasing.invariant (rel : Releasing config caller s r)
    (waits : ∀ t, (s.threads t).inBarrier = true → 0 < (s.threads t).waiting) :
    Invariant r.timer where
  waits t inBarrier := by
    rw [rel.waiting t inBarrier]
    exact waits t (rel.inside t inBarrier)
  told := .inl rel.told

theorem map_timer_spec {x : Except Stop Release}
    (run : Ensures (fun r => Invariant r.timer) (fun _ => True) x) :
    Ensures Invariant (fun _ => True) (Release.timer <$> x) := by
  cases x with
  | error e => trivial
  | ok r => exact run

theorem barrierRelease_invariant
    (waits : ∀ t, (s.threads t).inBarrier = true → 0 < (s.threads t).waiting) :
    Ensures (fun r => Invariant r.timer) (fun _ => True)
      (barrierRelease config rounds occupancy all caller s) :=
  (barrierRelease_spec config rounds occupancy caller all s).mono fun _ spec => spec.1.invariant waits

theorem signalBarrier_spec (inv : Invariant s) :
    Ensures Invariant (fun _ => True) (signalBarrier config rounds occupancy s) := by
  rw [signalBarrier]
  split_ifs
  · exact map_timer_spec (barrierRelease_invariant inv.waits)
  · exact inv

/-- Who is told to execute takes the place of the one that was selected. -/
theorem leave_spec (inv : Invariant s) (t : ℕ) :
    Ensures Invariant (fun _ => True) (leave config rounds occupancy t s) := by
  rw [leave]
  split_ifs with selected client
  · have nobody : s.told = [] := inv.told.resolve_right fun told => by
      rw [told.2] at selected
      cases selected
    refine ⟨inv.waits, .inr ⟨⟨t, ?_⟩, rfl⟩⟩
    change s.told ++ [t] = [t]
    rw [nobody, List.nil_append]
  · exact map_timer_spec (barrierRelease_invariant inv.waits)
  · exact inv

theorem barrier_spec (after : Occupancy) (inv : Invariant s) (t : ℕ) :
    Ensures Invariant (fun _ => True) (barrier config rounds occupancy after t s) := by
  have waitsIn : Invariant (wait t (enter t s)) := by
    have both : wait t (enter t s) =
        s.update t fun th => { th with inBarrier := true, waiting := th.waiting + 1 } := by
      rw [wait, enter, Timer.update, Timer.update, Timer.update]
      simp only [Function.update_self, Function.update_idem]
    rw [both]
    exact inv.update t fun th _ _ => Nat.succ_pos _
  have others (u : ℕ) (other : u ≠ t) : (enter t s).threads u = s.threads u :=
    update_threads_of_ne other _ s
  rw [barrier]
  split_ifs with noThread notReached
  · trivial
  · exact waitsIn
  · refine (barrierRelease_spec config rounds occupancy (some t) false (enter t s)).bind fun r spec => ?_
    have rel := spec.1
    have waits (u : ℕ) (other : u ≠ t) (inBarrier : (r.timer.threads u).inBarrier = true) :
        0 < (r.timer.threads u).waiting := by
      have inside := rel.inside u inBarrier
      rw [others u other] at inside
      rw [rel.waiting u inBarrier, others u other]
      exact inv.waits u inside
    split_ifs
    · have out : Invariant (r.timer.update t fun th => { th with inBarrier := false }) := by
        refine ⟨fun u inBarrier => ?_, .inl rel.told⟩
        by_cases same : u = t
        · subst same
          rw [update_threads] at inBarrier
          cases inBarrier
        · rw [update_threads_of_ne same] at inBarrier ⊢
          exact waits u same inBarrier
      exact leave_spec out t
    · refine ⟨fun u inBarrier => ?_, .inl rel.told⟩
      by_cases same : u = t
      · subst same
        rw [wait, update_threads]
        exact Nat.succ_pos _
      · rw [wait, update_threads_of_ne same] at inBarrier ⊢
        exact waits u same inBarrier

theorem threadStops_spec (inv : Invariant s) (thread : ℕ) :
    Invariant (threadStops config thread s) := by
  rw [threadStops]
  split
  · exact inv
  · exact inv.update_of_same _ (fun _ => rfl) fun _ => rfl

/-- The thread leaves where it was. -/
theorem gone_spec (config : Config) (inv : Invariant s) (thread : ℕ) :
    Invariant (match findSmtThreadFromThread config thread s with
      | none => s
      | some t =>
          let s := s.update t fun th => { th with running := false, thread := none }
        if (s.threads t).inBarrier then release t s else s) := by
  split
  · exact inv
  · have left := inv.update_of_same (f := fun th => { th with running := false, thread := none })
      ‹ℕ› (fun _ => rfl) fun _ => rfl
    dsimp only
    split_ifs
    · exact left.release _
    · exact left

theorem threadMigrate_spec (inv : Invariant s) (thread core : ℕ) :
    Invariant (threadMigrate config thread core s) := by
  have gone := gone_spec config inv thread
  rw [threadMigrate]
  split
  · exact gone
  · exact gone.update_of_same _ (fun _ => rfl) fun _ => rfl

/-- **One event.** -/
theorem step_spec (inv : Invariant s) (e : Event) :
    Ensures Invariant (fun _ => True) (step config rounds e s) := by
  cases e with
  | threadStart thread =>
    change Invariant (threadStart config thread s)
    rw [threadStart]
    split
    · exact inv
    · exact inv.update_of_same _ (fun _ => rfl) fun _ => rfl
  | threadExit thread occupancy | threadStall thread occupancy =>
    exact signalBarrier_spec (threadStops_spec inv thread)
  | threadResume thread =>
    change Invariant (threadResume config thread s)
    rw [threadResume]
    split
    · exact inv
    · exact inv.update_of_same _ (fun _ => rfl) fun _ => rfl
  | threadMigrate thread core => exact threadMigrate_spec inv thread core
  | simulate t occupancy after =>
    rw [step]
    split_ifs
    · trivial
    · exact barrier_spec after inv t
    · exact inv
  | wake t after =>
    rw [step]
    split_ifs
    · trivial
    · have woken : Invariant (s.update t fun th => { th with woken := th.woken - 1 }) :=
        inv.update_of_same t (fun _ => rfl) fun _ => rfl
      exact leave_spec woken t
  | synchronized t occupancy =>
    rw [step]
    split_ifs
    · exact map_timer_spec (barrierRelease_invariant inv.waits)
    · trivial
  | enable => exact ⟨inv.waits, inv.told⟩
  | disable =>
    have off : Invariant { s with enabled := false } := ⟨inv.waits, inv.told⟩
    exact off.releaseAllThreads config.order
  | roiBegin =>
    refine ⟨fun t inBarrier => ?_, inv.told⟩
    dsimp only at inBarrier ⊢
    split_ifs at inBarrier ⊢
    · exact inv.waits t inBarrier
    · exact inv.waits t inBarrier

/-- **Runs.** In each state of a run at most one thread was told to execute since the last release,
and wherever the barrier is found reached the release makes progress exactly when a thread in the
barrier is still running. -/
theorem run_releases {es : List Event}
    (ran : runEvents (step config rounds) es Timer.start = .ok s) :
    s.told.length ≤ 1 ∧
      ∀ e s₁ caller occupancy, evaluation config e s = some (s₁, caller, occupancy) →
        isBarrierReached config s₁ = true →
        ((∃ rounds r, barrierRelease config rounds occupancy false caller s₁ = .ok r ∧
          Progress config caller s₁ r) ↔ Awake config s₁) := by
  have inv : Invariant s :=
    (ensures_runEvents (fun e s₁ inv => step_spec inv e) Invariant.start).of_ok ran
  refine ⟨?_, fun e s₁ caller occupancy _ reached => progress_iff reached⟩
  rcases inv.told with nobody | ⟨⟨t, one⟩, -⟩
  · rw [nobody]
    exact Nat.zero_le 1
  · rw [one]
    exact le_rfl

/-! ## Two threads -/

/-- Two SMT threads on the cores 0 and 1. -/
def twoThreads : Config := ⟨2, by decide, id, true⟩

/-- Buffers that are full enough. -/
def full : Occupancy := ⟨fun _ => 200, fun _ => true, fun _ => by decide⟩

/-- A thread alone comes to the barrier and is let out again. -/
theorem run_releases_one :
    ∃ s, runEvents (step twoThreads 33) [.threadMigrate 7 0, .simulate 0 full full] Timer.start =
        .ok s ∧ s.told.length ≤ 1 ∧
        ∀ e s₁ caller occupancy, evaluation twoThreads e s = some (s₁, caller, occupancy) →
          isBarrierReached twoThreads s₁ = true →
          ((∃ rounds r, barrierRelease twoThreads rounds occupancy false caller s₁ = .ok r ∧
            Progress twoThreads caller s₁ r) ↔ Awake twoThreads s₁) := by
  obtain ⟨s, ran⟩ : ∃ s, runEvents (step twoThreads 33) [.threadMigrate 7 0, .simulate 0 full full]
      Timer.start = .ok s := ⟨_, rfl⟩
  exact ⟨s, ran, run_releases ran⟩

/-- A thread waits in the barrier for another one, and is marked as stalled there; when the other one
stalls too the release never ends. -/
theorem release_of_stalled_never_ends :
    ∃ s, runEvents (step twoThreads 33)
        [.threadMigrate 7 0, .threadMigrate 8 1, .simulate 0 full full, .threadStall 7 full]
        Timer.start = .ok s ∧ evaluation twoThreads (.threadStall 8 full) s =
        some (threadStops twoThreads 8 s, none, full) ∧
      isBarrierReached twoThreads (threadStops twoThreads 8 s) = true ∧
      ∀ rounds, barrierRelease twoThreads rounds full false none (threadStops twoThreads 8 s) =
        .error .neverEnds := by
  refine ⟨_, rfl, rfl, rfl, fun rounds => barrierRelease_neverEnds rfl ?_ rounds⟩
  rintro ⟨t, inRange, inBarrier, running⟩
  change t < 2 at inRange
  obtain rfl | rfl : t = 0 ∨ t = 1 := by omega
  · cases running
  · cases running

end GpuHotSpot.Common.SmtTimer
