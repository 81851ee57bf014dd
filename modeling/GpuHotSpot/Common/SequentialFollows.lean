import GpuHotSpot.Common.SequentialHandOver
import GpuHotSpot.Common.SequentialLine

/-!
# The sequential scheduler follows the line

* `Follows.create`, `Follows.start`, `Follows.exit`: it stays so with every event.
-/

namespace GpuHotSpot.Common.Sequential

open Fallible
open PinnedBase (Fault Status StallType ThreadInfo ThreadState)

/-! ## The two states -/

/-- What is known of a thread is what the line says. -/
structure ThreadFollows (sizes : List ℤ) (l : Line) (t : ℕ) (th : ThreadState) (info : ThreadInfo)
    (runnable : Bool) : Prop where
  coreRunning : ∀ core, info.coreRunning = some core ↔ l.holder core = some t
  affinity : t < l.created → ∀ core, info.coreAffinity core = true ↔ core = pinballCore sizes t
  fresh : l.created ≤ t → info = .init
  status : th.status = l.status sizes t
  core : th.core =
    if l.Holds sizes t ∧ l.finished t = false then some (pinballCore sizes t) else none
  reason : l.status sizes t = .stalled → th.stalledReason = .unscheduled
  runnable : runnable = true ↔ l.status sizes t = .running

/-- The state of the scheduler's base is that of the line. -/
structure FollowsBase (cores : ℕ) (sizes : List ℤ) (l : Line) (b : PinnedBase.State) : Prop where
  numThreads : b.numThreads = l.created
  holder : b.coreThreadRunning = l.holder
  inside : ∀ t, t < l.created → pinballCore sizes t < cores
  thread : ∀ t, ThreadFollows sizes l t (b.thread t) (b.threadInfo t) (b.isRunnable t)

/-- The state of the scheduler is that of the line. -/
structure Follows (cores : ℕ) (sizes : List ℤ) (l : Line) (s : State) : Prop where
  base : FollowsBase cores sizes l s.base
  queued : ∀ core t, t ∈ s.coreWaitingThreads core ↔
    pinballCore sizes t = core ∧ l.started t = true ∧ ∃ h, l.holder core = some h ∧ h < t
  sorted : ∀ core, (s.coreWaitingThreads core).Pairwise (· < ·)
  next : ∀ core, s.nextThreadToExecute core = l.next sizes core
  length : s.seqs.length = cores ∧ sizes.length = cores
  sets : s.seqs.drop s.currentPinballSet = setsLeft sizes l.created
  current : s.currentPinballSet = pinballCore sizes l.created

section Steps

variable {cores : ℕ} {sizes : List ℤ} {l : Line} {s s' : State} {t : ℕ} {time : SubsecondTime}

theorem pairwise_orderedInsert {q : List ℕ} (sorted : q.Pairwise (· < ·)) (new : t ∉ q) :
    (q.orderedInsert (· ≤ ·) t).Pairwise (· < ·) := by
  induction q with
  | nil => exact List.pairwise_singleton _ _
  | cons u q ih =>
    rw [List.pairwise_cons] at sorted
    rw [List.mem_cons, not_or] at new
    rw [List.orderedInsert_cons]
    split_ifs with before
    · have first : t < u := lt_of_le_of_ne before new.1
      refine List.pairwise_cons.mpr ⟨fun v member => ?_, List.pairwise_cons.mpr sorted⟩
      rcases List.mem_cons.mp member with rfl | later
      · exact first
      · exact first.trans (sorted.1 v later)
    · refine List.pairwise_cons.mpr ⟨fun v member => ?_, ih sorted.2 new.2⟩
      rcases (List.mem_orderedInsert _).mp member with rfl | later
      · exact not_le.mp before
      · exact sorted.1 v later

/-- What is known of the other threads stays as it is. -/
theorem ThreadFollows.congr {l' : Line} {th : ThreadState} {info : ThreadInfo} {r : Bool}
    (follows : ThreadFollows sizes l t th info r) (created : t < l'.created ↔ t < l.created)
    (holder : ∀ core, l'.holder core = some t ↔ l.holder core = some t)
    (started : l'.started t = l.started t) (finished : l'.finished t = l.finished t) :
    ThreadFollows sizes l' t th info r := by
  have holds : l'.Holds sizes t ↔ l.Holds sizes t := holder _
  have status : l'.status sizes t = l.status sizes t := by
    simp only [Line.status, holds, started, finished]
  refine ⟨fun core => (follows.coreRunning core).trans (holder core).symm,
    fun before => follows.affinity (created.1 before),
    fun beyond => follows.fresh (not_lt.mp fun before => absurd beyond
      (not_le.mpr (created.2 before))), ?_, ?_, ?_, ?_⟩
  · rw [status, follows.status]
  · simp only [holds, finished, follows.core]
  · rw [status]
    exact follows.reason
  · rw [status]
    exact follows.runnable

theorem affinityCore_eq {info : ThreadInfo} {core : ℕ} (inside : core < cores)
    (own : ∀ core', info.coreAffinity core' = true ↔ core' = core) : affinityCore cores info = core := by
  have found : (List.range cores).find? info.coreAffinity = some core := by
    cases here : (List.range cores).find? info.coreAffinity with
    | none =>
      have none := List.find?_eq_none.mp here core (List.mem_range.mpr inside)
      exact absurd ((own core).mpr rfl) none
    | some core' => rw [(own core').mp (List.find?_some here)]
  rw [affinityCore, found]
  rfl

/-- `b'` is `b` but for one thread and for whether that is runnable. -/
structure Changed (b b' : PinnedBase.State) (t : ℕ) (f : ThreadState → ThreadState)
    (runnable : Bool) : Prop where
  numThreads : b'.numThreads = b.numThreads
  created : t < b.numThreads
  holder : b'.coreThreadRunning = b.coreThreadRunning
  info : b'.threadInfo = b.threadInfo
  thread : b'.thread = Function.update b.thread t (f (b.thread t))
  runnable : ∀ u, b'.isRunnable u = if u = t then runnable else b.isRunnable u

theorem isRunnable_of_setRunnable {b b' : PinnedBase.State} {r : Bool}
    (ran : b.setRunnable t r = .ok b') :
    b' = { b with threadsRunnable := b.threadsRunnable.set t r } ∧
      ∀ u, b'.isRunnable u = if u = t then r else b.isRunnable u := by
  unfold PinnedBase.State.setRunnable at ran
  split_ifs at ran with inside
  cases ran
  exact ⟨rfl, getD_set inside r⟩

theorem Changed.setRunnable {b b' b'' : PinnedBase.State} {f : ThreadState → ThreadState}
    {r r' : Bool} (changed : Changed b b' t f r) (ran : b'.setRunnable t r' = .ok b'') :
    Changed b b'' t f r' := by
  obtain ⟨rfl, runnable⟩ := isRunnable_of_setRunnable ran
  refine ⟨changed.numThreads, changed.created, changed.holder, changed.info, changed.thread,
    fun u => (runnable u).trans ?_⟩
  rw [changed.runnable u]
  split_ifs <;> rfl

theorem beginStart_changed {b b' : PinnedBase.State} (ran : PinnedBase.beginStart t b = .ok b') :
    Changed b b' t (fun th => { th with status := .running }) true := by
  unfold PinnedBase.beginStart at ran
  split_ifs at ran with beyond
  dsimp only at ran
  obtain ⟨rfl, runnable⟩ := isRunnable_of_setRunnable ran
  refine ⟨?_, not_le.mp beyond, ?_, ?_, ?_, fun u => (runnable u).trans ?_⟩
  · split_ifs <;> rfl
  · split_ifs <;> rfl
  · split_ifs <;> rfl
  · split_ifs <;> rfl
  · congr 1
    split_ifs
    · exact getD_append_replicate b.threadsRunnable 16 u
    · rfl

theorem beginExit_changed {b b' : PinnedBase.State} (ran : PinnedBase.beginExit t b = .ok b') :
    Changed b b' t (fun th => { th with
      status := .idle
      core := none }) false ∧ (b.thread t).core ≠ none ∧ (b.thread t).status = .running := by
  unfold PinnedBase.beginExit at ran
  split_ifs at ran with bad
  obtain ⟨rfl, runnable⟩ := isRunnable_of_setRunnable ran
  simp only [not_or, not_le, not_not] at bad
  exact ⟨⟨rfl, bad.1, rfl, rfl, rfl, runnable⟩, bad.2.1, bad.2.2⟩

theorem Line.status_start (unfinished : l.finished t = false) (u : ℕ) :
    (l.step sizes (.start t time)).status sizes u =
      if u = t then if l.Holds sizes t then .running else .stalled else l.status sizes u := by
  have holds : (l.step sizes (.start t time)).Holds sizes u ↔ l.Holds sizes u := Iff.rfl
  simp only [Line.status, holds]
  simp only [Line.step, Function.update_apply]
  by_cases same : u = t
  · simp [same, unfinished]
  · simp [same]

theorem Line.next_start (wf : l.Wf sizes) (once : l.started t = false) (core : ℕ) :
    (l.step sizes (.start t time)).next sizes core =
      if core = pinballCore sizes t ∧ l.Holds sizes t then l.next sizes core + 1
      else l.next sizes core := by
  simp only [Line.next, Line.step, Function.update_apply]
  cases here : l.holder core with
  | none =>
    rw [if_neg]
    intro both
    rw [both.1, both.2] at here
    cases here
  | some h =>
    dsimp only
    by_cases same : h = t
    · have own := (wf.own core h here).2
      subst same own
      have holds : l.Holds sizes h := here
      simp [holds, once]
    · have apart : ¬(core = pinballCore sizes t ∧ l.Holds sizes t) := by
        intro both
        rw [both.1, both.2] at here
        exact same (Option.some.inj here).symm
      simp [same, apart]

theorem FollowsBase.start {b b' : PinnedBase.State} (follows : FollowsBase cores sizes l b)
    (unfinished : l.finished t = false)
    (changed : Changed b b' t (fun th => { th with status := .running })
      (decide (l.Holds sizes t))) :
    FollowsBase cores sizes (l.step sizes (.start t time)) (PinnedBase.endStart t b') := by
  refine ⟨changed.numThreads.trans follows.numThreads, changed.holder.trans follows.holder,
    follows.inside, fun u => ?_⟩
  have info : (PinnedBase.endStart t b').threadInfo u = b.threadInfo u := congrFun changed.info u
  have runnable : (PinnedBase.endStart t b').isRunnable u =
      if u = t then decide (l.Holds sizes t) else b.isRunnable u := changed.runnable u
  rw [info, runnable]
  have old := follows.thread u
  by_cases same : u = t
  · subst same
    have now : (l.step sizes (.start u time)).status sizes u = _ := Line.status_start unfinished u
    have thread : (PinnedBase.endStart u b').thread u =
        if l.Holds sizes u then { b.thread u with status := .running }
        else ⟨.stalled, .unscheduled, none⟩ := by
      simp only [PinnedBase.endStart, PinnedBase.State.setThread, changed.thread,
        Function.update_self, old.core, unfinished]
      split_ifs with holds <;> simp_all
    rw [if_pos rfl] at now
    rw [if_pos rfl, thread]
    refine ⟨old.coreRunning, old.affinity, old.fresh, ?_, ?_, ?_, ?_⟩
    · rw [now]
      split_ifs <;> rfl
    · have holds : (l.step sizes (.start u time)).Holds sizes u ↔ l.Holds sizes u := Iff.rfl
      have finished : (l.step sizes (.start u time)).finished u = false := unfinished
      simp only [holds, finished, and_true]
      split_ifs with here
      · simp [old.core, here, unfinished]
      · rfl
    · intro stalled
      rw [now] at stalled
      split_ifs at stalled with here
      rw [if_neg here]
    · rw [now]
      split_ifs with here <;> simp [here]
  · rw [if_neg same]
    have thread : (PinnedBase.endStart t b').thread u = b.thread u := by
      simp only [PinnedBase.endStart, PinnedBase.State.setThread, changed.thread,
        Function.update_of_ne same]
    rw [thread]
    refine old.congr Iff.rfl (fun _ => Iff.rfl) ?_ rfl
    exact Function.update_of_ne same _ _

/-- A thread that starts runs if it has its core, and waits otherwise. -/
theorem Follows.start (follows : Follows cores sizes l s) (wf : l.Wf sizes)
    (once : l.started t = false) (ran : step cores (.start t time) s = .ok s') :
    l.Valid sizes (.start t time) ∧ Follows cores sizes (l.step sizes (.start t time)) s' := by
  obtain ⟨base, begun, rest⟩ := bind_ok.1 ran
  obtain ⟨s1, starting, ended⟩ := bind_ok.1 rest
  have changed := beginStart_changed begun
  have created : t < l.created := follows.base.numThreads ▸ changed.created
  have unfinished : l.finished t = false := wf.unfinished once
  refine ⟨⟨created, once⟩, ?_⟩
  cases ended
  have core : affinityCore cores (base.threadInfo t) = pinballCore sizes t := by
    rw [changed.info]
    exact affinityCore_eq (follows.base.inside t created)
      ((follows.base.thread t).affinity created)
  have holder : base.coreThreadRunning = l.holder := changed.holder.trans follows.base.holder
  unfold threadStart at starting
  simp only [core, holder] at starting
  split_ifs at starting with holds
  · cases starting
    have holds' : l.Holds sizes t := holds
    refine ⟨follows.base.start unfinished ?_, fun core' u => ?_, follows.sorted, fun core' => ?_,
      follows.length, follows.sets, follows.current⟩
    · simpa [holds'] using changed
    · refine (follows.queued core' u).trans (and_congr_right fun own => ?_)
      by_cases same : u = t
      · subst same
        refine iff_of_false (by simp [once]) fun waits => ?_
        obtain ⟨h, here, before⟩ := waits.2
        have same : some h = some u := here.symm.trans (own ▸ holds)
        exact absurd before (by simp [Option.some.inj same])
      · simp [Line.step, same]
    · rw [Line.next_start wf once, ← follows.next core']
      simp only [Function.update_apply, holds', and_true]
      split_ifs with same
      · rw [same]
      · rfl
  · obtain ⟨base', parked, rest⟩ := bind_ok.1 starting
    cases rest
    have holds' : ¬l.Holds sizes t := holds
    have waits : ∃ h, l.holder (pinballCore sizes t) = some h ∧ h < t := by
      obtain ⟨h, here⟩ := Option.ne_none_iff_exists'.mp (wf.held t created)
      refine ⟨h, here, lt_of_le_of_ne (not_lt.mp fun before => ?_) fun same => ?_⟩
      · exact absurd (wf.past h t here before) (by simp [unfinished])
      · exact holds (same ▸ here)
    have absent : ∀ core', t ∉ s.coreWaitingThreads core' := fun core' member => by
      have := ((follows.queued core' t).mp member).2.1
      simp [once] at this
    refine ⟨follows.base.start unfinished ?_, fun core' u => ?_, fun core' => ?_, fun core' => ?_,
      follows.length, follows.sets, follows.current⟩
    · simpa [holds'] using changed.setRunnable parked
    · have old := follows.queued core' u
      simp only [Line.step, Function.update_apply]
      by_cases own : core' = pinballCore sizes t
      · rw [if_pos own, List.mem_orderedInsert, ← own, old]
        by_cases same : u = t
        · subst same
          simp [own, waits]
        · simp [same]
      · rw [if_neg own, old]
        refine and_congr_right fun mine => ?_
        rw [if_neg fun same : u = t => own (same ▸ mine.symm)]
    · simp only [Function.update_apply]
      split_ifs
      · exact pairwise_orderedInsert (follows.sorted _) (absent _)
      · exact follows.sorted core'
    · rw [Line.next_start wf once, if_neg fun both => holds' both.2]
      exact follows.next core'

/-- A thread that has exited still holds its core, and is not runnable. -/
theorem FollowsBase.exit {b b' : PinnedBase.State} (follows : FollowsBase cores sizes l b)
    (before : t < l.created) (time : SubsecondTime)
    (changed : Changed b b' t (fun th => { th with
      status := .idle
      core := none }) false) :
    FollowsBase cores sizes { l with finished := Function.update l.finished t true }
      (b'.setInfo t fun info => { info with lastScheduledOut := time }) := by
  refine ⟨changed.numThreads.trans follows.numThreads, changed.holder.trans follows.holder,
    follows.inside, fun u => ?_⟩
  have runnable : (b'.setInfo t fun info => { info with lastScheduledOut := time }).isRunnable u =
      if u = t then false else b.isRunnable u := changed.runnable u
  have thread : (b'.setInfo t fun info => { info with lastScheduledOut := time }).thread u =
      b'.thread u := rfl
  have info : (b'.setInfo t fun info => { info with lastScheduledOut := time }).threadInfo u =
      if u = t then { b.threadInfo t with lastScheduledOut := time } else b.threadInfo u := by
    simp only [PinnedBase.State.setInfo, changed.info, Function.update_apply]
  rw [runnable, thread, changed.thread, info]
  have old := follows.thread u
  by_cases same : u = t
  · subst same
    rw [if_pos rfl, if_pos rfl, Function.update_self]
    have status : Line.status sizes { l with finished := Function.update l.finished u true } u =
        .idle := by simp [Line.status]
    refine ⟨old.coreRunning, old.affinity, fun beyond => ?_, status.symm, ?_, ?_, ?_⟩
    · exact absurd before (not_lt.mpr beyond)
    · simp
    · simp [status]
    · simp [status]
  · rw [if_neg same, if_neg same, Function.update_of_ne same]
    refine old.congr Iff.rfl (fun _ => Iff.rfl) rfl ?_
    exact Function.update_of_ne same _ _

theorem FollowsBase.handOver {b b' b'' : PinnedBase.State} (follows : FollowsBase cores sizes l b)
    (own : ∀ core u, l.holder core = some u → pinballCore sizes u = core)
    (holds : l.Holds sizes t) (gone : l.finished t = true) (started : l.started (t + 1) = true)
    (unfinished : l.finished (t + 1) = false) (before : t + 1 < l.created)
    (same : pinballCore sizes (t + 1) = pinballCore sizes t)
    (set : b.setRunnable (t + 1) true = .ok b')
    (handed : HandedOver b' b'' (pinballCore sizes t) t (t + 1)) :
    FollowsBase cores sizes
      { l with holder := Function.update l.holder (pinballCore sizes t) (some (t + 1)) } b'' := by
  obtain ⟨rfl, runnable⟩ := isRunnable_of_setRunnable set
  refine ⟨handed.numThreads.trans follows.numThreads, ?_, follows.inside, fun u => ?_⟩
  · rw [handed.cores]
    exact congrArg (Function.update · _ _) follows.holder
  have old := follows.thread u
  have holder : ∀ core, Function.update l.holder (pinballCore sizes t) (some (t + 1)) core = some u ↔
      if u = t + 1 then core = pinballCore sizes t
      else if u = t then False else l.holder core = some u := by
    intro core
    by_cases here : core = pinballCore sizes t
    · subst here
      rw [Function.update_self]
      split_ifs with next last
      · simp [next]
      · simp [last]
      · rw [holds]
        simp [Ne.symm next, Ne.symm last]
    · rw [Function.update_of_ne here]
      split_ifs with next last
      · subst next
        exact iff_of_false (fun held => here ((own core _ held).symm.trans same)) here
      · subst last
        exact iff_of_false (fun held => here (own core _ held).symm) id
      · rfl
  have running : Line.status sizes
      { l with holder := Function.update l.holder (pinballCore sizes t) (some (t + 1)) } (t + 1) =
        .running := by
    simp [Line.status, Line.Holds, started, unfinished, same]
  by_cases next : u = t + 1
  · subst next
    have ready : b''.isRunnable (t + 1) = true := by
      rw [handed.runnable, runnable, if_pos rfl]
    refine ⟨fun core => ?_, fun inside core => ?_, fun beyond => ?_, ?_, ?_, ?_, ?_⟩
    · rw [handed.coreRunning, if_pos rfl, holder core, if_pos rfl, Option.some.injEq, eq_comm]
    · rw [handed.coreAffinity]
      exact old.affinity before core
    · exact absurd before (not_lt.mpr beyond)
    · rw [handed.thread, if_pos rfl, running]
    · rw [handed.thread, if_pos rfl]
      simp [Line.Holds, unfinished, same]
    · simp [running]
    · simp [running, ready]
  · by_cases last : u = t
    · subst last
      have idle : Line.status sizes
          { l with holder := Function.update l.holder (pinballCore sizes u) (some (u + 1)) } u =
            .idle := by simp [Line.status, gone]
      have created : u < l.created := (Nat.lt_succ_self u).trans before
      refine ⟨fun core => ?_, fun inside core => ?_, fun beyond => ?_, ?_, ?_, ?_, ?_⟩
      · rw [handed.coreRunning, if_neg next, if_pos rfl, holder core, if_neg next, if_pos rfl]
        simp
      · rw [handed.coreAffinity]
        exact old.affinity created core
      · exact absurd created (not_lt.mpr beyond)
      · rw [handed.thread, if_neg next, if_pos rfl, idle]
        exact old.status.trans (by simp [Line.status, gone])
      · rw [handed.thread, if_neg next, if_pos rfl]
        simp [Line.Holds]
      · simp [idle]
      · rw [handed.runnable, runnable, if_neg next, old.runnable]
        simp [Line.status, gone]
    · have thread : b''.thread u = b.thread u := by
        rw [handed.thread, if_neg next, if_neg last]
      have runnable : b''.isRunnable u = b.isRunnable u := by
        rw [handed.runnable, runnable, if_neg next]
      rw [thread, handed.others u next last, runnable]
      refine old.congr Iff.rfl (fun core => ?_) rfl rfl
      simpa only [if_neg next, if_neg last] using holder core

/-- A thread without its core has no core. -/
theorem FollowsBase.nowhere {b : PinnedBase.State} (follows : FollowsBase cores sizes l b)
    (own : ∀ core u, l.holder core = some u → pinballCore sizes u = core)
    (waits : ¬l.Holds sizes t) : (b.threadInfo t).coreRunning = none := by
  cases here : (b.threadInfo t).coreRunning with
  | none => rfl
  | some core =>
    have held := ((follows.thread t).coreRunning core).mp here
    refine absurd ?_ waits
    rw [Line.Holds, own core t held]
    exact held

/-- A thread that has started and waits for its core is stalled. -/
theorem FollowsBase.stalled {b : PinnedBase.State} (follows : FollowsBase cores sizes l b)
    (started : l.started t = true) (unfinished : l.finished t = false) (waits : ¬l.Holds sizes t) :
    b.thread t = ⟨.stalled, .unscheduled, none⟩ := by
  have known := follows.thread t
  have status : l.status sizes t = .stalled := by simp [Line.status, started, unfinished, waits]
  have reason := known.reason status
  have core := known.core
  rw [if_neg fun both => waits both.1] at core
  have now := known.status.trans status
  rcases here : b.thread t with ⟨_, _, _⟩
  simp_all

/-- The thread that waits is the only one that may run on the core of a thread that has exited. -/
theorem FollowsBase.only {b : PinnedBase.State} (follows : FollowsBase cores sizes l b)
    (wf : ∀ t, l.started t = true → t < l.created)
    (own : ∀ core u, l.holder core = some u → pinballCore sizes u = core)
    (holds : l.Holds sizes t) (gone : l.finished t = true) (before : t + 1 < l.created)
    (same : pinballCore sizes (t + 1) = pinballCore sizes t)
    {b' : PinnedBase.State} (set : b.setRunnable (t + 1) true = .ok b') (u : ℕ) :
    b'.isCandidate (pinballCore sizes t) u = true ↔ u = t + 1 := by
  obtain ⟨rfl, runnable⟩ := isRunnable_of_setRunnable set
  have old := follows.thread u
  simp only [PinnedBase.State.isCandidate, Bool.and_eq_true, Bool.or_eq_true, Bool.not_eq_true',
    ThreadInfo.isRunning, Option.isSome_eq_false_iff, Option.isNone_iff_eq_none, beq_iff_eq,
    runnable u]
  constructor
  · intro candidate
    by_contra other
    have running := candidate.1.2
    rw [if_neg other, old.runnable] at running
    have mine : l.Holds sizes u ∧ l.started u = true := by
      simp only [Line.status] at running
      split_ifs at running with _ started here
      exact ⟨here, started⟩
    have core := (old.affinity (wf u mine.2) _).mp candidate.1.1
    have last : some t = some u := holds.symm.trans (core ▸ mine.1)
    cases last
    simp [Line.status, gone] at running
  · intro next
    subst next
    refine ⟨⟨(old.affinity before _).mpr same.symm, by simp⟩, Or.inl ?_⟩
    refine follows.nowhere own fun held => ?_
    rw [Line.Holds, same, holds] at held
    simp at held

/-- A thread that exits hands its core to the one behind it, if that waits. -/
theorem Follows.exit (follows : Follows cores sizes l s) (wf : l.Wf sizes)
    (ran : step cores (.exit t time) s = .ok s') :
    l.Valid sizes (.exit t time) ∧ Follows cores sizes (l.step sizes (.exit t time)) s' := by
  obtain ⟨base, begun, exiting⟩ := bind_ok.1 ran
  obtain ⟨changed, hasCore, running⟩ := beginExit_changed begun
  have known := follows.base.thread t
  have created : t < l.created := follows.base.numThreads ▸ changed.created
  have valid : l.Valid sizes (.exit t time) := by
    rw [known.status] at running
    simp only [Line.status] at running
    split_ifs at running with gone started holds
    exact ⟨started, Bool.eq_false_iff.mpr gone, holds⟩
  refine ⟨valid, ?_⟩
  obtain ⟨started, unfinished, holds⟩ := valid
  obtain ⟨base', again, exiting⟩ := bind_ok.1 exiting
  have changed := changed.setRunnable again
  have exited := follows.base.exit created time changed
  have core : affinityCore cores (base'.threadInfo t) = pinballCore sizes t := by
    rw [changed.info]
    exact affinityCore_eq (follows.base.inside t created) (known.affinity created)
  dsimp only at exiting
  rw [core] at exiting
  have waiting : t + 1 ∈ s.coreWaitingThreads (pinballCore sizes t) ↔
      l.started (t + 1) = true ∧ pinballCore sizes (t + 1) = pinballCore sizes t := by
    rw [follows.queued, and_comm, holds]
    simp
  have next : s.nextThreadToExecute (pinballCore sizes t) = t + 1 := by
    rw [follows.next, Line.next, holds]
    simp [started]
  have stays : t + 1 ∉ s.coreWaitingThreads (pinballCore sizes t) →
      Follows cores sizes (l.step sizes (.exit t time))
        { s with base := base'.setInfo t fun info => { info with lastScheduledOut := time } } := by
    intro absent
    rw [Line.step, if_neg fun both => absent (waiting.mpr both)]
    exact ⟨exited, follows.queued, follows.sorted, follows.next, follows.length, follows.sets,
      follows.current⟩
  cases queue : s.coreWaitingThreads (pinballCore sizes t) with
  | nil =>
    rw [queue] at exiting
    cases exiting
    exact stays (by simp [queue])
  | cons first behind =>
    rw [queue] at exiting
    dsimp only at exiting
    have later : t < first := by
      obtain ⟨_, _, h, here, before⟩ :=
        (follows.queued _ first).mp (queue ▸ List.mem_cons_self)
      have same : some h = some t := here.symm.trans holds
      exact Option.some.inj same ▸ before
    have sorted := List.pairwise_cons.mp (queue ▸ follows.sorted (pinballCore sizes t))
    split_ifs at exiting with wrong
    · cases exiting
      refine stays fun member => wrong ?_
      rw [queue, List.mem_cons] at member
      have first_le : first ≤ t + 1 := by
        rcases member with rfl | behind
        · exact le_rfl
        · exact (sorted.1 _ behind).le
      rw [next]
      omega
    · obtain ⟨b1, ready, handing⟩ := bind_ok.1 exiting
      obtain ⟨b2, rescheduled, rest⟩ := bind_ok.1 handing
      cases rest
      have isNext : first = t + 1 := by
        rw [next, ne_eq, not_not] at wrong
        exact_mod_cast wrong
      subst isNext
      have both := waiting.mp (queue ▸ List.mem_cons_self)
      rw [Line.step, if_pos both]
      refine ⟨?_, fun core' u => ?_, fun core' => ?_, fun core' => ?_, follows.length,
        follows.sets, follows.current⟩
      · have own : ∀ core u, l.holder core = some u → pinballCore sizes u = core :=
          fun core u held => (wf.own core u held).2
        have before : t + 1 < l.created := wf.created _ both.1
        have behind : l.finished (t + 1) = false :=
          wf.behind t (t + 1) (both.2 ▸ holds) (Nat.lt_succ_self t)
        have gone : Function.update l.finished t true t = true := Function.update_self _ _ _
        have still : Function.update l.finished t true (t + 1) = false := by
          rw [Function.update_of_ne (Nat.succ_ne_self t), behind]
        have waits : ¬l.Holds sizes (t + 1) := by
          rw [Line.Holds, both.2, holds]
          simp
        have only := exited.only wf.created own holds gone before both.2 ready
        have set := isRunnable_of_setRunnable ready
        have handed : HandedOver b1 b2 (pinballCore sizes t) t (t + 1) := by
          refine (ensures_reschedule_only time ?_ ?_ (Nat.succ_ne_self t) only ?_ ?_
            ?_).of_ok rescheduled
          · rw [set.1]
            exact (congrFun exited.holder _).trans holds
          · rw [set.1, (exited.thread t).status]
            simp [Line.status]
          · rw [set.1]
            exact exited.stalled both.1 still waits
          · rw [set.1]
            exact exited.nowhere own waits
          · intro core' affinity
            rw [set.1] at affinity
            exact (((exited.thread (t + 1)).affinity before core').mp affinity).trans both.2
        exact exited.handOver own holds gone both.1 still before both.2 ready handed
      · have old := follows.queued core' u
        by_cases here : core' = pinballCore sizes t
        · subst here
          have absent : t + 1 ∉ behind := fun member => absurd (sorted.1 _ member) (lt_irrefl _)
          rw [queue, List.mem_cons, holds] at old
          simp only [Function.update_self, Option.some.injEq, exists_eq_left'] at old ⊢
          constructor
          · intro member
            have known := old.mp (Or.inr member)
            exact ⟨known.1, known.2.1, sorted.1 u member⟩
          · intro known
            have member := old.mpr ⟨known.1, known.2.1, by omega⟩
            exact member.resolve_left fun same => by omega
        · simp only [Function.update_of_ne here]
          exact old
      · simp only [Function.update_apply]
        split_ifs
        · exact sorted.2
        · exact follows.sorted core'
      · by_cases here : core' = pinballCore sizes t
        · subst here
          rw [Line.next]
          simp only [Function.update_self, both.1, if_pos, next]
          omega
        · simp only [Line.next, Function.update_of_ne here]
          exact follows.next core'

theorem findFreeCoreForThread_eq {core : ℕ} {b : PinnedBase.State} (inside : core < cores)
    (own : ∀ core', (b.threadInfo t).coreAffinity core' = true ↔ core' = core) :
    PinnedBase.findFreeCoreForThread (config cores) b t =
      if b.coreThreadRunning core = none then some core else none := by
  cases found : PinnedBase.findFreeCoreForThread (config cores) b t with
  | none =>
    have none := List.find?_eq_none.mp found core (List.mem_range.mpr inside)
    simp only [(own core).mpr rfl, Bool.true_and, Option.isNone_iff_eq_none] at none
    rw [if_neg none]
  | some core' =>
    have here := List.find?_some found
    simp only [Bool.and_eq_true, own, Option.isNone_iff_eq_none] at here
    obtain ⟨rfl, free⟩ := here
    rw [if_pos free]

/-- A new thread with affinity to one core is placed there if the core is free. -/
theorem placeThread_spec {core : ℕ} {b : PinnedBase.State} (inside : core < cores)
    (own : ∀ core', (b.threadInfo t).coreAffinity core' = true ↔ core' = core) :
    ∃ b', PinnedBase.placeThread (config cores) t b =
        (b', if b.coreThreadRunning core = none then some core else none) ∧
      b'.coreThreadRunning = (if b.coreThreadRunning core = none then
        Function.update b.coreThreadRunning core (some t) else b.coreThreadRunning) ∧
      b'.threadInfo = Function.update b.threadInfo t { b.threadInfo t with
        coreRunning := if b.coreThreadRunning core = none then some core else none } ∧
      b'.thread = b.thread ∧ b'.numThreads = b.numThreads ∧
      b'.threadsRunnable = b.threadsRunnable := by
  unfold PinnedBase.placeThread
  rw [findFreeCoreForThread_eq inside own]
  split_ifs with free
  · exact ⟨_, rfl, rfl, rfl, rfl, rfl, rfl⟩
  · exact ⟨_, rfl, rfl, rfl, rfl, rfl, rfl⟩

/-- The base after a thread with affinity to one core is created. -/
theorem FollowsBase.create {b b' : PinnedBase.State} (follows : FollowsBase cores sizes l b)
    (wf : l.Wf sizes) (inside : pinballCore sizes l.created < cores)
    (numThreads : b'.numThreads = b.numThreads + 1)
    (holder : b'.coreThreadRunning = b.coreThreadRunning)
    (thread : b'.thread = Function.update b.thread l.created ⟨.initializing, .unscheduled, none⟩)
    (info : ∀ u, u ≠ l.created → b'.threadInfo u = b.threadInfo u)
    (own : ∀ core, (b'.threadInfo l.created).coreAffinity core = true ↔
      core = pinballCore sizes l.created) (runnable : b'.threadsRunnable = b.threadsRunnable) :
    FollowsBase cores sizes (l.step sizes .create)
      ((PinnedBase.placeThread (config cores) l.created b').1.setThread l.created fun th =>
        { th with core := (PinnedBase.placeThread (config cores) l.created b').2 }) := by
  obtain ⟨b'', placed, holder'', info'', thread'', numThreads'', runnable''⟩ :=
    placeThread_spec inside own
  rw [holder, follows.holder] at placed holder'' info''
  rw [placed]
  have same : ∀ u, (b''.setThread l.created fun th => { th with
      core := if l.holder (pinballCore sizes l.created) = none then
        some (pinballCore sizes l.created) else none }).isRunnable u = b.isRunnable u := by
    intro u
    simp only [PinnedBase.State.isRunnable, PinnedBase.State.setThread, runnable'', runnable]
  refine ⟨?_, ?_, ?_, fun u => ?_⟩
  · exact numThreads''.trans (numThreads.trans (congrArg (· + 1) follows.numThreads))
  · exact holder''
  · intro u before
    rcases Nat.lt_succ_iff_lt_or_eq.mp before with old | rfl
    · exact follows.inside u old
    · exact inside
  · rw [same u]
    simp only [PinnedBase.State.setThread, thread'', thread, info'']
    have old := follows.thread u
    by_cases new : u = l.created
    · subst new
      simp only [Function.update_self]
      have unstarted : l.started l.created = false := wf.unstarted le_rfl
      have unfinished : l.finished l.created = false := wf.unfinished unstarted
      have nowhere : ∀ core, l.holder core ≠ some l.created := fun core held =>
        absurd (wf.own core _ held).1 (lt_irrefl _)
      have status : (l.step sizes .create).status sizes l.created = .initializing := by
        simp [Line.status, Line.step, unstarted, unfinished]
      have held : ∀ core, (l.step sizes .create).holder core = some l.created ↔
          l.holder (pinballCore sizes l.created) = none ∧ core = pinballCore sizes l.created := by
        intro core
        simp only [Line.step]
        split_ifs with free
        · rw [Function.update_apply]
          split_ifs with here
          · simp [free, here]
          · simp [free, here, nowhere core]
        · simp [free, nowhere core]
      refine ⟨fun core => ?_, fun _ core => own core, fun beyond => ?_, status.symm, ?_, ?_, ?_⟩
      · rw [held]
        split_ifs with free
        · simp [free, eq_comm]
        · simp [free]
      · exact absurd beyond (not_le.mpr (Nat.lt_succ_self _))
      · simp only [Line.Holds, held, and_true]
        have finished : (l.step sizes .create).finished l.created = false := unfinished
        simp [finished]
      · simp [status]
      · rw [old.runnable, status]
        simp [Line.status, unstarted, unfinished]
    · simp only [Function.update_of_ne new, info u new]
      refine old.congr ?_ (fun core => ?_) rfl rfl
      · simp only [Line.step]
        omega
      · simp only [Line.step]
        split_ifs with free
        · rw [Function.update_apply]
          split_ifs with here
          · rw [here, free]
            simp [Ne.symm new]
          · rfl
        · rfl

/-- A thread that is created gets its core if that is free. -/
theorem Follows.create (follows : Follows cores sizes l s) (wf : l.Wf sizes)
    (ran : step cores .create s = .ok s') : Follows cores sizes (l.step sizes .create) s' := by
  have number : s.base.numThreads = l.created := follows.base.numThreads
  have new : s.base.threadInfo l.created = .init := (follows.base.thread _).fresh le_rfl
  unfold step createThread at ran
  dsimp only at ran
  rw [number] at ran
  generalize pushed : s.base.pushThread.resizeInfo l.created = b at ran
  have info : b.threadInfo = s.base.threadInfo := by
    rw [← pushed, PinnedBase.State.resizeInfo]
    split_ifs <;> rfl
  have holder : b.coreThreadRunning = s.base.coreThreadRunning := by
    rw [← pushed, PinnedBase.State.resizeInfo]
    split_ifs <;> rfl
  have numThreads : b.numThreads = s.base.numThreads + 1 := by
    rw [← pushed, PinnedBase.State.resizeInfo]
    split_ifs <;> rfl
  have runnable : b.threadsRunnable = s.base.threadsRunnable := by
    rw [← pushed, PinnedBase.State.resizeInfo]
    split_ifs <;> rfl
  have thread : b.thread = Function.update s.base.thread l.created
      ⟨.initializing, .unscheduled, none⟩ := by
    rw [← pushed, PinnedBase.State.resizeInfo, ← number]
    split_ifs <;> rfl
  rw [info, new, if_neg (by simp [ThreadInfo.init])] at ran
  unfold threadSetInitialAffinity at ran
  dsimp only at ran
  have sets := follows.sets
  rw [follows.current] at ran sets
  cases first : s.seqs[pinballCore sizes l.created]? with
  | none =>
    rw [first] at ran
    cases ran
  | some left =>
    rw [first] at ran
    dsimp only at ran
    rw [ok_bind] at ran
    cases ran
    obtain ⟨bound, here⟩ := List.getElem?_eq_some_iff.mp first
    have inside : pinballCore sizes l.created < cores := follows.length.1 ▸ bound
    rw [List.drop_eq_getElem_cons bound, here] at sets
    have rest := setsLeft_succ sets.symm
    refine ⟨?_, ?_, follows.sorted, ?_, ?_, ?_, ?_⟩
    · refine follows.base.create wf inside numThreads holder thread (fun u other => ?_)
        (fun core => ?_) runnable
      · rw [← info]
        exact Function.update_of_ne other _ _
      · simp [PinnedBase.State.setInfo, ThreadInfo.setAffinitySingle, ThreadInfo.addAffinity,
          ThreadInfo.clearAffinity, ThreadInfo.setExplicitAffinity, Function.update_apply]
    · intro core u
      refine (follows.queued core u).trans (and_congr_right fun own => ?_)
      refine and_congr_right fun started => ?_
      have before := wf.created u started
      simp only [Line.step]
      split_ifs with free
      · rw [Function.update_apply]
        split_ifs with same
        · rw [same, free]
          simp [before.le]
        · rfl
      · rfl
    · intro core
      have old := follows.next core
      simp only [Line.next, Line.step] at old ⊢
      rw [old]
      split_ifs with free
      · rw [Function.update_apply]
        split_ifs with same
        · subst same
          have unstarted : l.started l.created = false := wf.unstarted le_rfl
          rw [free]
          simp only [unstarted]
          refine (eq_sum_of_first (follows.length.2 ▸ inside) fun u before same => ?_).symm
          exact wf.held u before (same ▸ free)
        · rfl
      · rfl
    · exact ⟨List.length_set.trans follows.length.1, follows.length.2⟩
    · refine Eq.trans ?_ rest.1.symm
      split_ifs
      · exact List.drop_set_of_lt (Nat.lt_succ_self _)
      · rw [List.drop_eq_getElem_cons (by simpa using bound), List.getElem_set_self,
          List.drop_set_of_lt (Nat.lt_succ_self _)]
    · exact rest.2.symm

theorem follows_init (ready : schedulerSequential cores sizes = .ok s) :
    Follows cores sizes .init s := by
  unfold schedulerSequential at ready
  split_ifs at ready with same
  cases ready
  refine ⟨⟨rfl, rfl, nofun, fun t => ⟨?_, nofun, fun _ => rfl, rfl, ?_, nofun, ?_⟩⟩, ?_, ?_, ?_,
    ⟨same, same⟩, (setsLeft_zero sizes).symm, (pinballCore_zero sizes).symm⟩
  · exact fun _ => iff_of_false nofun nofun
  · rw [if_neg fun holds => nomatch holds.1]
    rfl
  · refine iff_of_false (fun ready => ?_) nofun
    cases (getD_append_replicate [] 16 t).symm.trans ready
  · exact fun core t => iff_of_false (List.not_mem_nil) fun both => nomatch both.2.1
  · exact fun _ => List.Pairwise.nil
  · exact fun _ => rfl

end Steps

end GpuHotSpot.Common.Sequential
