import GpuHotSpot.Common.BarrierSyncServer
import Mathlib.Algebra.Order.BigOperators.Group.List
import Mathlib.Algebra.Order.Group.Nat

/-!
# Progress of the barrier

* `Invariant`: while the server is enabled, a core whose clock is not below the barrier time waits
  in the barrier; each core that was taken out of it is signalled once, or is about to be.
* `releaseLoop_spec`: the loop of `barrierRelease` keeps the invariant, and it ends when a core waits.
* `run_progresses`: the invariant holds in each run in which no core is outside the barrier with a
  clock at the barrier time when the server is enabled again, and the running cores do not come to
  the barrier while the release of a core that does not run is deferred.
-/

namespace GpuHotSpot.Common.BarrierSyncServer

open Fallible

/-! ## The invariant -/

/-- What holds between the events. -/
structure Invariant (config : Config) (s : Server) : Prop where
  waits : s.disable = false → ∀ c < config.applicationCores, s.nextBarrierTime ≤ s.localClock c →
    s.barrierAcquire c = true
  inside : ∀ c, s.barrierAcquire c = true →
    c < config.applicationCores ∧ config.coreGroup c = none ∧ s.coreThread c ≠ none
  apart : ∀ c d, s.barrierAcquire c = true → s.barrierAcquire d = true →
    s.coreThread c = s.coreThread d → c = d
  deferred : ∀ c ∈ s.toRelease, c < config.applicationCores ∧ config.coreGroup c = none ∧
    s.barrierAcquire c = false ∧ s.localClock c < s.nextBarrierTime
  once : s.toRelease.Nodup
  signals : (s.signalled ++ s.toRelease).Perm s.taken
  positive : 0 < s.nextBarrierTime
  next_quanta : config.barrierInterval ∣ s.nextBarrierTime
  global_quanta : config.barrierInterval ∣ s.globalTime
  global_le : s.globalTime ≤ s.nextBarrierTime

section

variable {config : Config} {s s' : Server} {caller : Option ℕ} {running : ℕ → Bool}
  {env : Environment}

theorem Invariant.start : Invariant config (Server.start config) where
  waits _ c _ late := absurd late (Nat.not_le_of_gt config.interval_pos)
  inside c waits := by cases waits
  apart c d waits := by cases waits
  deferred c member := by cases member
  once := List.nodup_nil
  signals := List.Perm.refl _
  positive := config.interval_pos
  next_quanta := Nat.dvd_refl _
  global_quanta := Nat.dvd_zero _
  global_le := Nat.zero_le _

theorem Invariant.releases (inv : Invariant config s) (rel : Releases s s') :
    Invariant config s' where
  waits enabled c inside late := by
    rw [rel.disable] at enabled
    rw [rel.nextBarrierTime, rel.localClock] at late
    rw [rel.barrierAcquire]
    exact inv.waits enabled c inside late
  inside c waits := by
    rw [rel.barrierAcquire] at waits
    rw [rel.coreThread]
    exact inv.inside c waits
  apart c d first second same := by
    rw [rel.barrierAcquire] at first second
    rw [rel.coreThread] at same
    exact inv.apart c d first second same
  deferred c member := by
    rw [rel.barrierAcquire, rel.localClock, rel.nextBarrierTime]
    exact inv.deferred c (rel.sublist.subset member)
  once := inv.once.sublist rel.sublist
  signals := by
    rw [rel.taken]
    exact rel.perm.trans inv.signals
  positive := by
    rw [rel.nextBarrierTime]
    exact inv.positive
  next_quanta := by
    rw [rel.nextBarrierTime]
    exact inv.next_quanta
  global_quanta := by
    rw [rel.globalTime]
    exact inv.global_quanta
  global_le := by
    rw [rel.globalTime, rel.nextBarrierTime]
    exact inv.global_le

/-- The clocks of cores in the barrier can be set back. -/
theorem Invariant.clear (inv : Invariant config s) (clock : ℕ → ℕ)
    (same : ∀ c, clock c = s.localClock c ∨ clock c = 0) :
    Invariant config { s with localClock := clock } where
  waits enabled c inside late := by
    rcases same c with keeps | zero
    · exact inv.waits enabled c inside (late.trans_eq keeps)
    · exact absurd (late.trans_eq zero) (Nat.not_le_of_gt inv.positive)
  inside := inv.inside
  apart := inv.apart
  deferred c member := by
    obtain ⟨inside, group, out, early⟩ := inv.deferred c member
    refine ⟨inside, group, out, ?_⟩
    rcases same c with keeps | zero
    · exact keeps.trans_lt early
    · exact zero.trans_lt inv.positive
  once := inv.once
  signals := inv.signals
  positive := inv.positive
  next_quanta := inv.next_quanta
  global_quanta := inv.global_quanta
  global_le := inv.global_le

theorem releaseThread_spec (inv : Invariant config s) (thread : ℕ) :
    Invariant config (releaseThread config thread s) := by
  refine Invariant.releases (inv.clear _ fun c => ?_) (doRelease_spec 1 _)
  by_cases cleared : c < config.applicationCores ∧ s.barrierAcquire c ∧
      s.coreThread c = some thread
  · exact .inr (if_pos cleared)
  · exact .inl (if_neg cleared)

/-- Disabling the server empties the barrier. -/
theorem setDisable_spec (inv : Invariant config s) : Invariant config (setDisable config true s) := by
  have out : ∀ c, (setDisable config true s).barrierAcquire c = false := by
    intro c
    change (if c < config.applicationCores then false else s.barrierAcquire c) = false
    by_cases inside : c < config.applicationCores
    · exact if_pos inside
    · rw [if_neg inside]
      cases waits : s.barrierAcquire c with
      | false => rfl
      | true => exact absurd (inv.inside c waits).1 inside
  refine ⟨nofun, fun c waits => ?_, fun c d waits => ?_, fun c member => ?_, inv.once, inv.signals,
    inv.positive, inv.next_quanta, inv.global_quanta, inv.global_le⟩
  · rw [out] at waits
    cases waits
  · rw [out] at waits
    cases waits
  · obtain ⟨inside, group, -, early⟩ := inv.deferred c member
    exact ⟨inside, group, out c, early⟩

/-! ## The hooks -/

/-- What the hooks of a round change: they set clocks back, or disable the server. -/
structure Hooked (config : Config) (s s' : Server) : Prop where
  inv : Invariant config s'
  nothing : s'.toRelease = []
  nextBarrierTime : s'.nextBarrierTime = s.nextBarrierTime
  globalTime : s'.globalTime = s.globalTime
  taken : s'.taken = s.taken
  returned : s'.returned = s.returned
  enabled : s'.disable = false → s.disable = false ∧ s'.barrierAcquire = s.barrierAcquire ∧
    s'.coreThread = s.coreThread ∧ ∀ c, s'.localClock c ≤ s.localClock c

theorem act_spec (inv : Invariant config s) (nothing : s.toRelease = []) (action : Action) :
    Hooked config s (act config s action) := by
  cases action with
  | migrate thread =>
    let clock : ℕ → ℕ := fun c =>
      if c < config.applicationCores ∧ s.barrierAcquire c ∧ s.coreThread c = some thread then 0
      else s.localClock c
    have same : act config s (.migrate thread) = { s with localClock := clock } :=
      doRelease_nil 1 nothing
    refine ⟨releaseThread_spec inv thread, ?_, ?_, ?_, ?_, ?_, fun enabled => ?_⟩
    · rw [same]
      exact nothing
    · rw [same]
    · rw [same]
    · rw [same]
    · rw [same]
    · rw [same] at enabled ⊢
      refine ⟨enabled, rfl, rfl, fun c => ?_⟩
      by_cases cleared : c < config.applicationCores ∧ s.barrierAcquire c ∧
          s.coreThread c = some thread
      · exact (if_pos cleared : clock c = 0).trans_le (Nat.zero_le _)
      · exact (if_neg cleared : clock c = s.localClock c).le
  | disable => exact ⟨setDisable_spec inv, nothing, rfl, rfl, rfl, rfl, nofun⟩

theorem hooks_spec (inv : Invariant config s) (nothing : s.toRelease = [])
    (actions : List Action) : Hooked config s (actions.foldl (act config) s) := by
  induction actions generalizing s with
  | nil =>
    refine ⟨inv, nothing, rfl, rfl, rfl, rfl, fun enabled => ?_⟩
    exact ⟨enabled, rfl, rfl, fun _ => Nat.le_refl _⟩
  | cons action actions ih =>
    have first := act_spec inv nothing action
    have rest := ih first.inv first.nothing
    refine ⟨rest.inv, rest.nothing, rest.nextBarrierTime.trans first.nextBarrierTime,
      rest.globalTime.trans first.globalTime, rest.taken.trans first.taken,
      rest.returned.trans first.returned, fun enabled => ?_⟩
    obtain ⟨enabled₁, acquire, thread, clock⟩ := rest.enabled enabled
    obtain ⟨enabled₂, acquire', thread', clock'⟩ := first.enabled enabled₁
    exact ⟨enabled₂, acquire.trans acquire', thread.trans thread',
      fun c => (clock c).trans (clock' c)⟩

/-! ## Opening the barrier -/

/-- A list whose members are all the same. -/
theorem eq_nil_or_singleton {l : List ℕ} (nodup : l.Nodup) (same : ∀ c ∈ l, ∀ d ∈ l, c = d) :
    l = [] ∨ ∃ c ∈ l, l = [c] := by
  cases l with
  | nil => exact .inl rfl
  | cons c l =>
    refine .inr ⟨c, List.mem_cons_self, ?_⟩
    cases l with
    | nil => rfl
    | cons d l =>
      have equal := same c List.mem_cons_self d (List.mem_cons_of_mem c List.mem_cons_self)
      obtain ⟨fresh, -⟩ := List.nodup_cons.1 nodup
      exact absurd (equal ▸ List.mem_cons_self) fresh

/-- A core is out of the barrier, and below the barrier time. -/
def Resumed (s : Server) (core : ℕ) : Prop :=
  s.barrierAcquire core = false ∧ s.localClock core < s.nextBarrierTime

/-- What a release does: the times only increase, and the cores that are taken out of the barrier
are below the new barrier time; at most one of them is the caller's. -/
structure Released (caller : Option ℕ) (s s' : Server) : Prop where
  global_le : s.globalTime ≤ s'.globalTime
  next_le : s.nextBarrierTime ≤ s'.nextBarrierTime
  taken : ∃ cores, s'.taken = s.taken ++ cores ∧
    ∀ c ∈ cores, s.barrierAcquire c = true ∧ Resumed s' c
  returned : s'.returned = s.returned ∨ ∃ c, s'.returned = s.returned ++ [c] ∧
    s.barrierAcquire c = true ∧ s.coreThread c = caller ∧ Resumed s' c

/-- Nothing was taken out. -/
theorem Released.still (global : s.globalTime ≤ s'.globalTime)
    (next : s.nextBarrierTime ≤ s'.nextBarrierTime) (taken : s'.taken = s.taken)
    (returned : s'.returned = s.returned) : Released caller s s' :=
  ⟨global, next, ⟨[], by rw [taken, List.append_nil], nofun⟩, .inl returned⟩

/-- The same release, from an earlier state with the same records. -/
theorem Released.of_earlier {s₀ : Server} (rel : Released caller s s')
    (global : s₀.globalTime ≤ s.globalTime) (next : s₀.nextBarrierTime ≤ s.nextBarrierTime)
    (taken : s.taken = s₀.taken) (returned : s.returned = s₀.returned)
    (acquire : ∀ c, s.barrierAcquire c = true → s₀.barrierAcquire c = true)
    (thread : s.coreThread = s₀.coreThread) : Released caller s₀ s' where
  global_le := global.trans rel.global_le
  next_le := next.trans rel.next_le
  taken := by
    obtain ⟨cores, appended, members⟩ := rel.taken
    exact ⟨cores, taken ▸ appended, fun c member =>
      ⟨acquire c (members c member).1, (members c member).2⟩⟩
  returned := by
    rcases rel.returned with same | ⟨c, appended, waits, isCaller, resumed⟩
    · exact .inl (same.trans returned)
    · exact .inr ⟨c, returned ▸ appended, acquire c waits, thread ▸ isCaller, resumed⟩

/-- Deferred releases that follow a release. -/
theorem Released.releases {s'' : Server} (rel : Released caller s s') (more : Releases s' s'') :
    Released caller s s'' := by
  have same : ∀ c, Resumed s' c → Resumed s'' c := by
    intro c resumed
    rw [Resumed, more.barrierAcquire, more.localClock, more.nextBarrierTime]
    exact resumed
  refine ⟨more.globalTime ▸ rel.global_le, more.nextBarrierTime ▸ rel.next_le, ?_, ?_⟩
  · obtain ⟨cores, appended, members⟩ := rel.taken
    exact ⟨cores, more.taken.trans appended, fun c member =>
      ⟨(members c member).1, same c (members c member).2⟩⟩
  · rcases rel.returned with none | ⟨c, appended, waits, isCaller, resumed⟩
    · exact .inl (more.returned.trans none)
    · exact .inr ⟨c, more.returned.trans appended, waits, isCaller, same c resumed⟩

/-- **Taking cores out.** Those that are below the new time leave the barrier. -/
theorem takesOut_spec (inv : Invariant config s) (nothing : s.toRelease = []) {s₁ : Server}
    (takes : TakesOut caller config.cores
      { s with nextBarrierTime := s.nextBarrierTime + config.barrierInterval } s₁) :
    Invariant config s₁ ∧ Released caller s s₁ := by
  let s' : Server := { s with nextBarrierTime := s.nextBarrierTime + config.barrierInterval }
  have next : s₁.nextBarrierTime = s.nextBarrierTime + config.barrierInterval :=
    takes.nextBarrierTime
  have clock : s₁.localClock = s.localClock := takes.localClock
  have thread : s₁.coreThread = s.coreThread := takes.coreThread
  have stays : ∀ c, s₁.barrierAcquire c = true → s.barrierAcquire c = true := by
    intro c waits
    rw [takes.barrierAcquire] at waits
    exact (Bool.and_eq_true_iff.1 waits).1
  have due_iff : ∀ c, due s' c = true ↔
      s.localClock c < s.nextBarrierTime + config.barrierInterval ∧ s.barrierAcquire c = true := by
    intro c
    rw [due, Bool.and_eq_true_iff, decide_eq_true_iff]
  have released : s₁.toRelease = config.cores.filter (dueSignal caller s') := by
    have appended : s₁.toRelease = s.toRelease ++ config.cores.filter (dueSignal caller s') :=
      takes.toRelease
    exact appended.trans ((congrArg (· ++ _) nothing).trans (List.nil_append _))
  have nodup : config.cores.Nodup := List.nodup_range
  have resumed : ∀ c ∈ config.cores, due s' c = true → Resumed s₁ c := by
    intro c inCores isDue
    refine ⟨?_, ?_⟩
    · rw [takes.barrierAcquire]
      change (s.barrierAcquire c && !(decide (c ∈ config.cores) && due s' c)) = false
      rw [isDue]
      simp [inCores]
    · rw [clock, next]
      exact ((due_iff c).1 isDue).1
  refine ⟨⟨fun enabled c inside late => ?_, fun c waits => ?_, fun c d first second same => ?_,
    fun c member => ?_, ?_, ?_, ?_, ?_, ?_, ?_⟩, ?_⟩
  · rw [next, clock] at late
    have before := inv.waits (takes.disable.symm.trans enabled) c inside (by omega)
    have notDue : due s' c = false := by
      rw [← Bool.not_eq_true, due_iff]
      exact fun isDue => absurd isDue.1 (Nat.not_lt_of_le late)
    rw [takes.barrierAcquire]
    change (s.barrierAcquire c && !(decide (c ∈ config.cores) && due s' c)) = true
    rw [before, notDue]
    simp
  · rw [thread]
    exact inv.inside c (stays c waits)
  · rw [thread] at same
    exact inv.apart c d (stays c first) (stays d second) same
  · rw [released] at member
    obtain ⟨inCores, signal⟩ := List.mem_filter.1 member
    have isDue : due s' c = true := (Bool.and_eq_true_iff.1 signal).1
    obtain ⟨-, waits⟩ := (due_iff c).1 isDue
    obtain ⟨inside, group, -⟩ := inv.inside c waits
    exact ⟨inside, group, resumed c inCores isDue⟩
  · rw [released]
    exact nodup.filter _
  · rw [takes.signalled, takes.taken, released]
    have signals := inv.signals
    rw [nothing, List.append_nil] at signals
    exact signals.append_right _
  · rw [next]
    exact Nat.add_pos_left inv.positive _
  · rw [next]
    exact Nat.dvd_add inv.next_quanta (Nat.dvd_refl _)
  · rw [takes.globalTime]
    exact inv.global_quanta
  · rw [takes.globalTime, next]
    exact inv.global_le.trans (Nat.le_add_right _ _)
  · have members : ∀ c ∈ config.cores.filter (dueReturn caller s'),
        s.barrierAcquire c = true ∧ s.coreThread c = caller ∧ Resumed s₁ c := by
      intro c member
      obtain ⟨inCores, back⟩ := List.mem_filter.1 member
      obtain ⟨isDue, isCaller⟩ := Bool.and_eq_true_iff.1 back
      exact ⟨((due_iff c).1 isDue).2, of_decide_eq_true isCaller, resumed c inCores isDue⟩
    have same : ∀ c ∈ config.cores.filter (dueReturn caller s'),
        ∀ d ∈ config.cores.filter (dueReturn caller s'), c = d := by
      intro c first d second
      obtain ⟨waits, isCaller, -⟩ := members c first
      obtain ⟨waits', isCaller', -⟩ := members d second
      exact inv.apart c d waits waits' (isCaller.trans isCaller'.symm)
    refine ⟨takes.globalTime.symm.le, ?_, ⟨_, takes.taken, fun c member => ?_⟩, ?_⟩
    · rw [next]
      exact Nat.le_add_right _ _
    · obtain ⟨inCores, signal⟩ := List.mem_filter.1 member
      have isDue : due s' c = true := (Bool.and_eq_true_iff.1 signal).1
      exact ⟨((due_iff c).1 isDue).2, resumed c inCores isDue⟩
    · rcases eq_nil_or_singleton (nodup.filter (dueReturn caller s')) same with nil | ⟨c, member, one⟩
      · left
        have appended := takes.returned
        rw [nil, List.append_nil] at appended
        exact appended
      · right
        have appended := takes.returned
        rw [one] at appended
        obtain ⟨waits, isCaller, back⟩ := members c member
        exact ⟨c, appended, waits, isCaller, back⟩

/-- The cores that are taken out are shuffled, and the first of them are signalled. -/
theorem finish_spec (inv : Invariant config s') (rel : Released caller s s') :
    Invariant config (finish config env s') ∧ Released caller s (finish config env s') := by
  have perm := env.shuffle_perm s'.toRelease
  let s₁ : Server := { s' with toRelease := env.shuffle s'.toRelease }
  have shuffled : Invariant config s₁ :=
    { inv with
      deferred := fun c member => inv.deferred c (perm.subset member)
      once := perm.nodup_iff.2 inv.once
      signals := (perm.append_left s'.signalled).trans inv.signals }
  have released := doRelease_spec config.numHostCores s₁
  have rel₁ : Released caller s s₁ := ⟨rel.global_le, rel.next_le, rel.taken, rel.returned⟩
  exact ⟨shuffled.releases released, rel₁.releases released⟩

/-- Rounds enough to bring a core that waits below the barrier time. -/
def Enough (config : Config) (rounds : ℕ) (s : Server) : Prop :=
  0 < rounds ∧ (s.disable = true ∨ ∃ c < config.applicationCores, s.barrierAcquire c = true ∧
    s.localClock c < s.nextBarrierTime + rounds * config.barrierInterval)

/-- A round in which no core is taken out leaves one round less to do. -/
theorem Enough.next {rounds : ℕ} (enough : Enough config (rounds + 1) s)
    (enabled : s.disable = false) {clock : ℕ → ℕ} (le : ∀ c, clock c ≤ s.localClock c)
    (later : ∀ c < config.applicationCores, s.barrierAcquire c = true →
      s.nextBarrierTime + config.barrierInterval ≤ clock c) :
    0 < rounds ∧ ∃ c < config.applicationCores, s.barrierAcquire c = true ∧
      clock c < s.nextBarrierTime + config.barrierInterval + rounds * config.barrierInterval := by
  obtain ⟨-, off | ⟨c, inside, waits, soon⟩⟩ := enough
  · rw [enabled] at off
    cases off
  · have lower := later c inside waits
    have upper : clock c <
        s.nextBarrierTime + config.barrierInterval + rounds * config.barrierInterval := by
      have := le c
      rw [Nat.add_mul, Nat.one_mul] at soon
      omega
    refine ⟨Nat.pos_of_ne_zero fun none => ?_, c, inside, waits, upper⟩
    subst none
    omega

/-- **The loop of `barrierRelease`** keeps the invariant, and ends in time if it has rounds enough. -/
theorem releaseLoop_spec (continueUntilRelease : Bool) (rounds round : ℕ)
    (inv : Invariant config s) (nothing : s.toRelease = []) :
    Ensures (fun r => Invariant config r.2 ∧ Released caller s r.2)
      (fun stop => stop = .deadlocked ∧ continueUntilRelease = true ∨
        stop = .neverEnds ∧ ¬ Enough config rounds s)
      (releaseLoop config caller continueUntilRelease env rounds round s) := by
  induction rounds generalizing s round with
  | zero => exact .inr ⟨rfl, fun enough => absurd enough.1 (Nat.lt_irrefl 0)⟩
  | succ rounds ih =>
    let s₁ : Server := { s with globalTime := s.nextBarrierTime }
    have inv₁ : Invariant config s₁ :=
      { inv with global_quanta := inv.next_quanta, global_le := Nat.le_refl _ }
    have hooked := hooks_spec inv₁ nothing (env.hooks round)
    let s₂ := (env.hooks round).foldl (act config) s₁
    have global : s.globalTime ≤ s₂.globalTime := by
      rw [hooked.globalTime]
      exact inv.global_le
    have next : s.nextBarrierTime ≤ s₂.nextBarrierTime := hooked.nextBarrierTime.symm.le
    have quiet : Invariant config s₂ ∧ Released caller s s₂ :=
      ⟨hooked.inv, .still global next hooked.taken hooked.returned⟩
    unfold releaseLoop
    change Ensures _ _ (if continueUntilRelease = true ∧ env.anyThreadRunning round = true then
      .ok (false, s₂) else _)
    split_ifs with woken stuck off
    · exact quiet
    · exact .inl ⟨rfl, stuck.1⟩
    · exact quiet
    have enabled : s₂.disable = false := Bool.eq_false_iff.2 off
    obtain ⟨enabled₀, acquire, thread, clock⟩ := hooked.enabled enabled
    let s' : Server := { s₂ with nextBarrierTime := s₂.nextBarrierTime + config.barrierInterval }
    have nodup : config.cores.Nodup := List.nodup_range
    have spec := takeOut_spec (s := s') caller nodup false true
    rcases folded : config.cores.foldl (takeOut caller) (s', false, true) with
      ⟨s₃, resumed, mustWait⟩
    rw [folded] at spec
    dsimp only
    rw [folded]
    obtain ⟨takes, any⟩ : TakesOut caller config.cores s' s₃ ∧
      resumed = (false || config.cores.any (due s')) := spec
    obtain ⟨inv₃, rel₃⟩ := takesOut_spec hooked.inv hooked.nothing takes
    have earlier : ∀ {t : Server}, Released caller s₂ t → Released caller s t := fun rel =>
      rel.of_earlier global next hooked.taken hooked.returned
        (fun c waits => by rw [← acquire]; exact waits) thread
    cases resumed with
    | true => exact finish_spec inv₃ (earlier rel₃)
    | false =>
      -- No core is due, so none is taken out, and each core that waits is later.
      have notDue : ∀ c ∈ config.cores, due s' c = false := by
        intro c member
        have none : config.cores.any (due s') = false := by
          rw [any, Bool.false_or]
        exact Bool.eq_false_iff.2 (List.any_eq_false.1 none c member)
      have noSignal : config.cores.filter (dueSignal caller s') = [] := by
        refine List.filter_eq_nil_iff.2 fun c member => ?_
        simp [dueSignal, notDue c member]
      have noReturn : config.cores.filter (dueReturn caller s') = [] := by
        refine List.filter_eq_nil_iff.2 fun c member => ?_
        simp [dueReturn, notDue c member]
      have nothing₃ : s₃.toRelease = [] := by
        rw [takes.toRelease, noSignal, List.append_nil]
        exact hooked.nothing
      have waiting : ∀ c, s₃.barrierAcquire c = s₂.barrierAcquire c := by
        intro c
        rw [takes.barrierAcquire]
        by_cases member : c ∈ config.cores
        · simp [notDue c member, s']
        · simp [member, s']
      have taken : s₃.taken = s₂.taken := by
        rw [takes.taken, noSignal, List.append_nil]
      have returned : s₃.returned = s₂.returned := by
        rw [takes.returned, noReturn, List.append_nil]
      have loop := ih (round + 1) inv₃ nothing₃
      refine loop.imp (fun r spec => ⟨spec.1, earlier (spec.2.of_earlier rel₃.global_le
        rel₃.next_le taken returned (fun c waits => by rw [← waiting]; exact waits)
        takes.coreThread)⟩) ?_
      rintro stop (deadlock | ⟨never, notEnough⟩)
      · exact .inl deadlock
      refine .inr ⟨never, fun enough => notEnough ?_⟩
      have later : ∀ c < config.applicationCores, s.barrierAcquire c = true →
          s.nextBarrierTime + config.barrierInterval ≤ s₂.localClock c := by
        intro c inside waits
        have notDue := notDue c (List.mem_range.2 inside)
        rw [due] at notDue
        change (decide (s₂.localClock c < s₂.nextBarrierTime + config.barrierInterval) &&
          s₂.barrierAcquire c) = false at notDue
        rw [hooked.nextBarrierTime, acquire] at notDue
        change (decide (s₂.localClock c < s.nextBarrierTime + config.barrierInterval) &&
          s.barrierAcquire c) = false at notDue
        rw [waits, Bool.and_true] at notDue
        exact Nat.le_of_not_lt (of_decide_eq_false notDue)
      obtain ⟨pos, c, inside, waits, soon⟩ := enough.next enabled₀ clock later
      refine ⟨pos, .inr ⟨c, inside, ?_, ?_⟩⟩
      · rw [waiting, acquire]
        exact waits
      · rw [takes.localClock, takes.nextBarrierTime]
        change s₂.localClock c <
          s₂.nextBarrierTime + config.barrierInterval + rounds * config.barrierInterval
        rw [hooked.nextBarrierTime]
        exact soon

/-- When the running cores may all have come to the barrier, the cores whose releases are deferred
run: each deferred core runs, or a running core is early, or no core runs. -/
def Orderly (config : Config) (running : ℕ → Bool) (deferred : List ℕ) (early : ℕ → Prop) : Prop :=
  (∀ c ∈ deferred, running c = true) ∨
    (∃ c < config.applicationCores, Checked config running c ∧ early c) ∨
    ∀ c < config.applicationCores, ¬ Checked config running c

theorem Orderly.mono {deferred : List ℕ} {early early' : ℕ → Prop}
    (orderly : Orderly config running deferred early) (weaker : ∀ c, early c → early' c) :
    Orderly config running deferred early' := by
  rcases orderly with runs | ⟨c, inside, checked, isEarly⟩ | none
  · exact .inl runs
  · exact .inr (.inl ⟨c, inside, checked, weaker c isEarly⟩)
  · exact .inr (.inr none)

/-- No core is still being released when the running cores have all come to the barrier. -/
theorem nothing_deferred (inv : Invariant config s) (reached : isBarrierReached config running s = true)
    (orderly : Orderly config running s.toRelease fun c => s.localClock c < s.nextBarrierTime) :
    s.toRelease = [] := by
  obtain ⟨late, d, insideD, checkedD⟩ := isBarrierReached_iff.1 reached
  rcases orderly with runs | ⟨c, inside, checked, early⟩ | none
  · refine List.eq_nil_iff_forall_not_mem.2 fun c member => ?_
    obtain ⟨inside, group, -, early⟩ := inv.deferred c member
    exact absurd early (Nat.not_lt_of_le (late c inside ⟨group, runs c member⟩))
  · exact absurd early (Nat.not_lt_of_le (late c inside checked))
  · exact absurd checkedD (none d insideD)

/-- A core that has come to the barrier waits in it, and the time reaches its clock. -/
theorem enoughRounds_spec (inv : Invariant config s) (enabled : s.disable = false)
    (reached : isBarrierReached config running s = true) :
    Enough config (enoughRounds config s) s := by
  obtain ⟨late, c, inside, checked⟩ := isBarrierReached_iff.1 reached
  have waits := inv.waits enabled c inside (late c inside checked)
  have le : s.localClock c ≤ (config.cores.map s.localClock).sum :=
    List.single_le_sum (fun _ _ => Nat.zero_le _) _
      (List.mem_map.2 ⟨c, List.mem_range.2 inside, rfl⟩)
  have quanta : enoughRounds config s ≤ enoughRounds config s * config.barrierInterval :=
    Nat.le_mul_of_pos_right _ config.interval_pos
  refine ⟨Nat.succ_pos _, .inr ⟨c, inside, waits, ?_⟩⟩
  unfold enoughRounds at quanta ⊢
  omega

/-- **`barrierRelease`** ends when the barrier is reached and no release is deferred. -/
theorem barrierRelease_spec (inv : Invariant config s) (enabled : s.disable = false)
    (reached : isBarrierReached config running s = true) (nothing : s.toRelease = []) :
    Ensures (fun r => Invariant config r.2 ∧ Released caller s r.2) (fun _ => False)
      (barrierRelease config caller false env (enoughRounds config s) s) := by
  rw [barrierRelease, if_neg (not_not.2 nothing)]
  refine (releaseLoop_spec false (enoughRounds config s) 0 inv nothing).imp (fun _ => id) ?_
  rintro stop (⟨-, waiting⟩ | ⟨-, notEnough⟩)
  · cases waiting
  · exact notEnough (enoughRounds_spec inv enabled reached)

/-! ## The condition and the effect -/

/-- The condition on an event.  A thread enters the barrier at most once, on a core whose release is
not deferred; the cores whose releases stay deferred are in order; and the server is enabled when
each core that is late waits. -/
def Proper (config : Config) (s : Server) : Event → Prop
  | .synchronize core thread time running _ =>
    core < config.applicationCores ∧
    (∀ c, s.barrierAcquire c = true → s.coreThread c ≠ some thread) ∧
    (s.disable = false → s.nextBarrierTime ≤ time →
      config.master core ∉ s.toRelease.dropLast ∧
      Orderly config running s.toRelease.dropLast fun c =>
        c ≠ config.master core ∧ s.localClock c < s.nextBarrierTime)
  | .threadExit thread running _ | .threadStall thread running _ =>
    s.disable = false → Orderly config running s.toRelease.dropLast fun c =>
      s.localClock c < s.nextBarrierTime ∨
        s.barrierAcquire c = true ∧ s.coreThread c = some thread
  | .threadMigrate _ => True
  | .setDisable disable => disable = false → ∀ c < config.applicationCores,
      s.nextBarrierTime ≤ s.localClock c → s.barrierAcquire c = true
  | .advance _ _ _ => s.toRelease = []

/-- The core that enters the barrier. -/
def Event.entry (config : Config) : Event → Option ℕ
  | .synchronize core _ _ _ _ => some (config.master core)
  | _ => none

/-- Where a step may stop: a core enters the barrier twice, or nothing ever runs again. -/
def MayStop (config : Config) (s : Server) (e : Event) (stop : Stop) : Prop :=
  match e with
  | .synchronize core _ _ _ _ =>
    stop = .alreadyInBarrier ∧ s.barrierAcquire (config.master core) = true
  | .advance _ _ _ => stop = .deadlocked ∨ stop = .neverEnds
  | _ => False

/-- What a step does. -/
structure Progresses (config : Config) (e : Event) (s s' : Server) : Prop where
  global_le : s.globalTime ≤ s'.globalTime
  next_le : s.nextBarrierTime ≤ s'.nextBarrierTime
  taken : ∃ cores, s'.taken = s.taken ++ cores ∧ ∀ c ∈ cores, Resumed s' c
  returned : s'.returned = s.returned ∨ ∃ c, e.entry config = some c ∧
    s'.returned = s.returned ++ [c] ∧ Resumed s' c

theorem Progresses.still {e : Event} (global : s'.globalTime = s.globalTime)
    (next : s'.nextBarrierTime = s.nextBarrierTime) (taken : s'.taken = s.taken)
    (returned : s'.returned = s.returned) : Progresses config e s s' :=
  ⟨global.symm.le, next.symm.le, ⟨[], by rw [taken, List.append_nil], nofun⟩, .inl returned⟩

/-- A release on behalf of no thread. -/
theorem Progresses.of_released {e : Event} (inv : Invariant config s)
    (rel : Released none s s') : Progresses config e s s' := by
  refine ⟨rel.global_le, rel.next_le, ?_, .inl ?_⟩
  · obtain ⟨cores, appended, members⟩ := rel.taken
    exact ⟨cores, appended, fun c member => (members c member).2⟩
  · rcases rel.returned with same | ⟨c, -, waits, none, -⟩
    · exact same
    · exact absurd none (inv.inside c waits).2.2

/-! ## Steps -/

/-- What follows `releaseThread` in `threadExit` and `threadStall`. -/
theorem signal_spec (inv : Invariant config s) (orderly : s.disable = false →
      Orderly config running s.toRelease fun c => s.localClock c < s.nextBarrierTime) :
    Ensures (fun s' => Invariant config s' ∧ Released none s s') (fun _ => False)
      (signal config running env s) := by
  unfold signal
  split_ifs with off reached
  · exact ⟨inv, .still (Nat.le_refl _) (Nat.le_refl _) rfl rfl⟩
  · have enabled : s.disable = false := Bool.eq_false_iff.2 off
    have nothing := nothing_deferred inv reached (orderly enabled)
    exact (barrierRelease_spec inv enabled reached nothing).bind fun r spec => spec
  · exact ⟨inv, .still (Nat.le_refl _) (Nat.le_refl _) rfl rfl⟩

/-- What `releaseThread` does: it sets the clocks back where the thread waits. -/
theorem releaseThread_releases (inv : Invariant config s) (thread : ℕ) :
    ∃ clock : ℕ → ℕ, (∀ c, clock c ≤ s.localClock c) ∧
      (∀ c, s.barrierAcquire c = true → s.coreThread c = some thread → clock c = 0) ∧
      releaseThread config thread s = doRelease 1 { s with localClock := clock } := by
  refine ⟨_, fun c => ?_, fun c waits isThread => ?_, rfl⟩
  · by_cases cleared : c < config.applicationCores ∧ s.barrierAcquire c ∧
        s.coreThread c = some thread
    · exact (if_pos cleared).trans_le (Nat.zero_le _)
    · exact (if_neg cleared).le
  · exact if_pos ⟨(inv.inside c waits).1, waits, isThread⟩

theorem threadStops_spec (inv : Invariant config s) (thread : ℕ)
    (orderly : s.disable = false → Orderly config running s.toRelease.dropLast fun c =>
      s.localClock c < s.nextBarrierTime ∨
        s.barrierAcquire c = true ∧ s.coreThread c = some thread) :
    Ensures (fun s' => Invariant config s' ∧ Released none s s') (fun _ => False)
      (threadStops config thread running env s) := by
  obtain ⟨clock, le, zero, same⟩ := releaseThread_releases inv thread
  have inv₁ := releaseThread_spec inv thread
  unfold threadStops
  rw [same] at inv₁ ⊢
  have rel := doRelease_spec 1 { s with localClock := clock }
  refine (signal_spec inv₁ fun enabled => ?_).mono fun s' spec => ⟨spec.1, ?_⟩
  · rw [doRelease_one, rel.localClock, rel.nextBarrierTime]
    rw [rel.disable] at enabled
    refine (orderly enabled).mono fun c early => ?_
    rcases early with early | ⟨waits, isThread⟩
    · exact (le c).trans_lt early
    · exact (zero c waits isThread).trans_lt inv.positive
  · refine spec.2.of_earlier ?_ ?_ rel.taken rel.returned (fun c waits => ?_) rel.coreThread
    · rw [rel.globalTime]
    · rw [rel.nextBarrierTime]
    · rw [rel.barrierAcquire] at waits
      exact waits

/-- A thread enters the barrier. -/
theorem Invariant.enter (inv : Invariant config s) {core thread time : ℕ}
    (inside : core < config.applicationCores) (group : config.coreGroup core = none)
    (fresh : ∀ c, s.barrierAcquire c = true → s.coreThread c ≠ some thread)
    (released : core ∉ s.toRelease) :
    Invariant config { s with
      localClock := Function.update s.localClock core time
      barrierAcquire := Function.update s.barrierAcquire core true
      coreThread := Function.update s.coreThread core (some thread) } where
  waits enabled c inside late := by
    change Function.update s.barrierAcquire core true c = true
    change s.nextBarrierTime ≤ Function.update s.localClock core time c at late
    by_cases isCore : c = core
    · rw [isCore, Function.update_self]
    · rw [Function.update_of_ne isCore] at late ⊢
      exact inv.waits enabled c inside late
  inside c waits := by
    change Function.update s.barrierAcquire core true c = true at waits
    change c < config.applicationCores ∧ config.coreGroup c = none ∧
      Function.update s.coreThread core (some thread) c ≠ none
    by_cases isCore : c = core
    · rw [isCore, Function.update_self]
      exact ⟨inside, group, nofun⟩
    · rw [Function.update_of_ne isCore] at waits ⊢
      exact inv.inside c waits
  apart c d first second same := by
    change Function.update s.barrierAcquire core true c = true at first
    change Function.update s.barrierAcquire core true d = true at second
    change Function.update s.coreThread core (some thread) c =
      Function.update s.coreThread core (some thread) d at same
    by_cases isCore : c = core
    · by_cases isCore' : d = core
      · rw [isCore, isCore']
      · rw [isCore, Function.update_self, Function.update_of_ne isCore'] at same
        rw [Function.update_of_ne isCore'] at second
        exact absurd same.symm (fresh d second)
    · rw [Function.update_of_ne isCore] at first same
      by_cases isCore' : d = core
      · rw [isCore', Function.update_self] at same
        exact absurd same (fresh c first)
      · rw [Function.update_of_ne isCore'] at second same
        exact inv.apart c d first second same
  deferred c member := by
    have other : c ≠ core := fun same => released (same ▸ member)
    change c < config.applicationCores ∧ config.coreGroup c = none ∧
      Function.update s.barrierAcquire core true c = false ∧
      Function.update s.localClock core time c < s.nextBarrierTime
    rw [Function.update_of_ne other, Function.update_of_ne other]
    exact inv.deferred c member
  once := inv.once
  signals := inv.signals
  positive := inv.positive
  next_quanta := inv.next_quanta
  global_quanta := inv.global_quanta
  global_le := inv.global_le

/-- The master of a core takes part in the barrier itself. -/
theorem master_spec {core : ℕ} (inside : core < config.applicationCores) :
    config.master core < config.applicationCores ∧ config.coreGroup (config.master core) = none := by
  unfold Config.master
  cases group : config.coreGroup core with
  | none => exact ⟨inside, group⟩
  | some master => exact config.masters core master group

theorem synchronize_spec (inv : Invariant config s) {core thread time : ℕ}
    (proper : Proper config s (.synchronize core thread time running env)) :
    Ensures (fun s' => Invariant config s' ∧
        Progresses config (.synchronize core thread time running env) s s')
      (fun stop => stop = .alreadyInBarrier ∧ s.barrierAcquire (config.master core) = true)
      (synchronize config core thread time running env s) := by
  obtain ⟨inCores, fresh, apart⟩ := proper
  by_cases off : s.disable = true
  · simp only [synchronize, if_pos off]
    exact ⟨inv, .still rfl rfl rfl rfl⟩
  by_cases twice : s.barrierAcquire (config.master core) = true
  · simp only [synchronize, if_neg off, if_pos twice]
    exact ⟨rfl, twice⟩
  by_cases early : time < s.nextBarrierTime
  · simp only [synchronize, if_neg off, if_neg twice, if_pos early]
    exact ⟨inv, .still rfl rfl rfl rfl⟩
  have enabled : s.disable = false := Bool.eq_false_iff.2 off
  obtain ⟨released, orderly⟩ := apart enabled (Nat.le_of_not_lt early)
  obtain ⟨inside, group⟩ := master_spec inCores
  have rel := doRelease_spec 1 s
  have member_iff := doRelease_one s
  let s₁ := doRelease 1 s
  let master := config.master core
  let s₂ : Server := { s₁ with
    localClock := Function.update s₁.localClock master time
    barrierAcquire := Function.update s₁.barrierAcquire master true
    coreThread := Function.update s₁.coreThread master (some thread) }
  have inv₂ : Invariant config s₂ := by
    refine (inv.releases rel).enter inside group (fun c waits => ?_) (by rwa [member_iff])
    rw [rel.barrierAcquire] at waits
    rw [rel.coreThread]
    exact fresh c waits
  have still : Progresses config (.synchronize core thread time running env) s s₂ :=
    .still rel.globalTime rel.nextBarrierTime rel.taken rel.returned
  have entered : synchronize config core thread time running env s =
      if isBarrierReached config running s₂ = true then
        barrierRelease config (some thread) false env (enoughRounds config s₂) s₂ >>=
          fun r => .ok r.2
      else .ok s₂ := by
    simp only [synchronize, if_neg off, if_neg twice, if_neg early]
    rfl
  rw [entered]
  split_ifs with reached
  · have nothing : s₂.toRelease = [] := by
      refine nothing_deferred inv₂ reached ?_
      change Orderly config running (doRelease 1 s).toRelease _
      rw [member_iff]
      refine orderly.mono fun c ⟨other, early⟩ => ?_
      change Function.update (doRelease 1 s).localClock master time c <
        (doRelease 1 s).nextBarrierTime
      rw [Function.update_of_ne other, rel.localClock, rel.nextBarrierTime]
      exact early
    have enabled₂ : s₂.disable = false := rel.disable.trans enabled
    refine (barrierRelease_spec inv₂ enabled₂ reached nothing).imp (fun r spec => spec) nofun
      |>.bind fun r spec => ⟨spec.1, ?_⟩
    have rel₂ := spec.2
    refine ⟨still.global_le.trans rel₂.global_le, still.next_le.trans rel₂.next_le, ?_, ?_⟩
    · obtain ⟨cores, appended, members⟩ := rel₂.taken
      refine ⟨cores, ?_, fun c member => (members c member).2⟩
      rw [appended]
      exact congrArg (· ++ cores) rel.taken
    · rcases rel₂.returned with same | ⟨c, appended, waits, isCaller, resumed⟩
      · exact .inl (same.trans rel.returned)
      · have isMaster : c = master := by
          refine inv₂.apart c master waits (Function.update_self ..) ?_
          have entering : s₂.coreThread master = some thread := Function.update_self ..
          rw [isCaller, entering]
        refine .inr ⟨c, congrArg some isMaster.symm, ?_, resumed⟩
        rw [appended]
        exact congrArg (· ++ [c]) rel.returned
  · exact ⟨inv₂, still⟩

/-- **One event.** -/
theorem step_spec {e : Event} (inv : Invariant config s) (proper : Proper config s e) :
    Ensures (fun s' => Invariant config s' ∧ Progresses config e s s') (MayStop config s e)
      (step config e s) := by
  cases e with
  | synchronize core thread time running env => exact synchronize_spec inv proper
  | threadExit thread running env | threadStall thread running env =>
    exact (threadStops_spec inv thread proper).mono fun s' spec =>
      ⟨spec.1, .of_released inv spec.2⟩
  | threadMigrate thread =>
    obtain ⟨clock, -, -, same⟩ := releaseThread_releases inv thread
    have rel := doRelease_spec 1 { s with localClock := clock }
    refine ⟨releaseThread_spec inv thread, ?_⟩
    change Progresses config _ s (releaseThread config thread s)
    rw [same]
    exact .still rel.globalTime rel.nextBarrierTime rel.taken rel.returned
  | setDisable disable =>
    refine ⟨?_, .still ?_ ?_ ?_ ?_⟩
    · cases disable with
      | true => exact setDisable_spec inv
      | false => exact { inv with waits := fun _ => proper rfl }
    all_goals cases disable <;> rfl
  | advance running env rounds =>
    have nothing : s.toRelease = [] := proper
    have first : Ensures (fun r => Invariant config r.2 ∧ Released none s r.2)
        (fun stop => stop = .deadlocked ∨ stop = .neverEnds)
        (barrierRelease config none true env rounds s) := by
      rw [barrierRelease, if_neg (not_not.2 nothing)]
      refine (releaseLoop_spec true rounds 0 inv nothing).imp (fun _ spec => spec) ?_
      rintro stop (⟨deadlock, -⟩ | ⟨never, -⟩)
      · exact .inl deadlock
      · exact .inr never
    exact first.bind fun r spec => ⟨spec.1, .of_released inv spec.2⟩

/-- **Runs.** In a run whose events are proper, each state satisfies the invariant, and each further
proper event makes progress and stops nowhere but at a second entry or where nothing runs again. -/
theorem run_progresses {es : List Event}
    (proper : Along (Proper config) (step config) es (Server.start config))
    (ran : runEvents (step config) es (Server.start config) = .ok s) :
    Invariant config s ∧ ∀ e, Proper config s e → Ensures
        (fun s' => Invariant config s' ∧ Progresses config e s s') (MayStop config s e)
        (step config e s) := by
  have inv : Invariant config s := by
    have kept : Ensures (Invariant config) (fun _ => True)
        (runEvents (step config) es (Server.start config)) := by
      refine proper.ensures_runEvents ?_ Invariant.start
      intro e s₁ proper inv
      exact (step_spec inv proper).imp (fun _ spec => spec.1) fun _ _ => trivial
    exact kept.of_ok ran
  exact ⟨inv, fun e proper => step_spec inv proper⟩

end

/-! ## Two cores -/

/-- Two cores, and a quantum of 100. -/
def twoCores : Config := ⟨2, 100, 1, fun _ => none, by decide, nofun⟩

/-- Hooks that do nothing. -/
def calm : Environment := ⟨fun _ => [], fun _ => false, fun _ => true, id, fun _ => List.Perm.refl _⟩

/-- Both threads come to the barrier; the second one opens it. -/
theorem run_progresses_two :
    ∃ s, runEvents (step twoCores) [.synchronize 0 0 100 (fun _ => true) calm,
        .synchronize 1 1 100 (fun _ => true) calm] (Server.start twoCores) = .ok s ∧
      Invariant twoCores s ∧ ∀ e, Proper twoCores s e → Ensures
          (fun s' => Invariant twoCores s' ∧ Progresses twoCores e s s') (MayStop twoCores s e)
          (step twoCores e s) := by
  have proper : Along (Proper twoCores) (step twoCores)
      [.synchronize 0 0 100 (fun _ => true) calm, .synchronize 1 1 100 (fun _ => true) calm]
      (Server.start twoCores) := by
    refine ⟨⟨by decide, nofun, fun _ _ => ⟨nofun, .inl nofun⟩⟩, fun s₁ moved => ?_⟩
    cases moved
    refine ⟨⟨by decide, fun c waits => ?_, fun _ _ => ⟨nofun, .inl nofun⟩⟩, fun _ _ => trivial⟩
    change Function.update (fun _ => false) 0 true c = true at waits
    change Function.update (fun _ => none) 0 (some 0) c ≠ some 1
    by_cases isCore : c = 0
    · rw [isCore]
      decide
    · rw [Function.update_of_ne isCore]
      nofun
  exact ⟨_, rfl, run_progresses proper rfl⟩

/-- Without a core in the barrier, and with hooks that do nothing, the loop has no last round. -/
theorem releaseLoop_never_ends {config : Config} {caller : Option ℕ} {s : Server}
    (enabled : s.disable = false) (empty : ∀ c, s.barrierAcquire c = false) (rounds round : ℕ) :
    releaseLoop config caller false calm rounds round s = .error .neverEnds := by
  induction rounds generalizing s round with
  | zero => rfl
  | succ rounds ih =>
    let s' : Server := { s with
      globalTime := s.nextBarrierTime
      nextBarrierTime := s.nextBarrierTime + config.barrierInterval }
    have still : ∀ cores : List ℕ,
        cores.foldl (takeOut caller) (s', false, true) = (s', false, true) := by
      intro cores
      induction cores with
      | nil => rfl
      | cons core cores ihCores =>
        have out : ¬ (s'.localClock core < s'.nextBarrierTime ∧ s'.barrierAcquire core) := by
          rintro ⟨-, waits⟩
          rw [empty] at waits
          cases waits
        rw [List.foldl_cons, takeOut, if_neg out]
        exact ihCores
    have again := ih (s := s') enabled empty (round + 1)
    unfold releaseLoop
    simp only [calm, List.foldl_nil, Bool.false_eq_true, false_and, if_false]
    refine (if_neg (Bool.eq_false_iff.1 enabled)).trans ?_
    rw [still]
    exact again

/-- Core 0 comes to the barrier; the server is disabled and enabled again, and the core is out of
the barrier with a clock at the barrier time.  When the thread of core 1 stalls, the barrier is
reached and the loop does not end. -/
theorem stall_after_enable_never_ends :
    ∃ s, runEvents (step twoCores) [.synchronize 0 0 100 (fun _ => true) calm, .setDisable true,
        .setDisable false] (Server.start twoCores) = .ok s ∧
      s.disable = false ∧ s.nextBarrierTime ≤ s.localClock 0 ∧ s.barrierAcquire 0 = false ∧
      isBarrierReached twoCores (· == 0) (releaseThread twoCores 1 s) = true ∧
      ∀ rounds, barrierRelease twoCores none false calm rounds (releaseThread twoCores 1 s) =
        .error .neverEnds := by
  refine ⟨_, rfl, rfl, by decide, rfl, by decide, fun rounds => ?_⟩
  refine releaseLoop_never_ends rfl (fun c => ?_) rounds 0
  change (if c < 2 then false else Function.update (fun _ => false) 0 true c) = false
  by_cases inside : c < 2
  · exact if_pos inside
  · rw [if_neg inside, Function.update_of_ne (by omega)]

end GpuHotSpot.Common.BarrierSyncServer
