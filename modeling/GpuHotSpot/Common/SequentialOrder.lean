import GpuHotSpot.Common.SequentialFollows

/-!
# The sequential scheduler and the threads it loses

A core is handed over when its thread exits, and only to a thread that has started by then.
A thread that starts later waits for ever.

* `run_follows`: the scheduler follows the line of threads in every run.
* `losesNoThread_iff`: no thread is lost exactly when each thread that is needed has started
  before the one ahead of it exits.
-/

namespace GpuHotSpot.Common.Sequential

open Fallible

/-! ## Runs -/

/-- The threads that start, in order. -/
def starts (events : List Event) : List ℕ :=
  events.filterMap fun e => match e with
    | .start t _ => some t
    | _ => none

/-- The threads that exit, in order. -/
def exits (events : List Event) : List ℕ :=
  events.filterMap fun e => match e with
    | .exit t _ => some t
    | _ => none

/-- The line after the events. -/
def lineAfter (sizes : List ℤ) (events : List Event) : Line :=
  events.foldl (fun l e => l.step sizes e) .init

section Runs

variable {cores : ℕ} {sizes : List ℤ} {events before after : List Event} {s s' : State} {t u : ℕ}
  {time : SubsecondTime}

theorem lineAfter_concat (events : List Event) (e : Event) :
    lineAfter sizes (events ++ [e]) = (lineAfter sizes events).step sizes e := by
  rw [lineAfter, List.foldl_append]
  rfl

theorem started_lineAfter : (lineAfter sizes events).started t = true ↔ t ∈ starts events := by
  induction events using List.reverseRecOn with
  | nil => exact iff_of_false nofun List.not_mem_nil
  | append_singleton events e ih =>
    rw [lineAfter_concat, Line.started_step, ih, starts, starts, List.filterMap_append,
      List.mem_append, or_comm]
    refine or_congr_right ?_
    cases e <;> simp [eq_comm]

theorem finished_lineAfter : (lineAfter sizes events).finished t = true ↔ t ∈ exits events := by
  induction events using List.reverseRecOn with
  | nil => exact iff_of_false nofun List.not_mem_nil
  | append_singleton events e ih =>
    rw [lineAfter_concat, Line.finished_step, ih, exits, exits, List.filterMap_append,
      List.mem_append, or_comm]
    refine or_congr_right ?_
    cases e <;> simp [eq_comm]

/-- Every event is valid where it happens. -/
def AllValid (sizes : List ℤ) (events : List Event) : Prop :=
  ∀ before e after, events = before ++ e :: after → (lineAfter sizes before).Valid sizes e

/-- **The scheduler follows the line.** When each thread starts once, every event is valid, and the
state is that of the line. -/
theorem run_follows (ready : schedulerSequential cores sizes = .ok s) (once : (starts events).Nodup)
    (ran : runEvents (step cores) events s = .ok s') :
    Follows cores sizes (lineAfter sizes events) s' ∧ (lineAfter sizes events).Wf sizes ∧
      AllValid sizes events := by
  induction events using List.reverseRecOn generalizing s' with
  | nil =>
    cases ran
    exact ⟨follows_init ready, Line.wf_init, fun before e after empty => by simp at empty⟩
  | append_singleton events e ih =>
    rw [runEvents_concat] at ran
    obtain ⟨mid, first, last⟩ := bind_ok.1 ran
    have nodup : (starts events).Nodup := by
      rw [starts, List.filterMap_append] at once
      exact once.of_append_left
    obtain ⟨follows, wf, valid⟩ := ih nodup first
    have now : (lineAfter sizes events).Valid sizes e ∧
        Follows cores sizes ((lineAfter sizes events).step sizes e) s' := by
      cases e with
      | create => exact ⟨trivial, follows.create wf last⟩
      | exit t time => exact follows.exit wf last
      | start t time =>
        refine follows.start wf ?_ last
        rw [Bool.eq_false_iff, Ne, started_lineAfter]
        intro before
        rw [starts, List.filterMap_append] at once
        exact List.disjoint_of_nodup_append once before (by simp)
    rw [lineAfter_concat]
    refine ⟨now.2, wf.step now.1, fun before e' after split => ?_⟩
    rcases List.eq_nil_or_concat after with rfl | ⟨after, last', rfl⟩
    · obtain ⟨rfl, same⟩ := List.append_inj' split rfl
      cases same
      exact now.1
    · rw [List.concat_eq_append, ← List.cons_append, ← List.append_assoc] at split
      exact valid before e' after (List.append_inj' split rfl).1

/-- What valid events preserve holds from some time on. -/
theorem lineAfter_invariant {P : Line → Prop} (valid : AllValid sizes (before ++ after))
    (preserved : ∀ l e, P l → l.Valid sizes e → P (l.step sizes e))
    (initial : P (lineAfter sizes before)) : P (lineAfter sizes (before ++ after)) := by
  induction after using List.reverseRecOn with
  | nil => rwa [List.append_nil]
  | append_singleton events e ih =>
    rw [← List.append_assoc] at valid ⊢
    rw [lineAfter_concat]
    refine preserved _ _ (ih fun b e' a split => ?_) (valid _ e [] rfl)
    refine valid b e' (a ++ [e]) ?_
    rw [split, List.append_assoc, List.cons_append]

/-- A core only goes to later threads. -/
theorem holder_mono (valid : AllValid sizes (before ++ after)) {core : ℕ}
    (here : (lineAfter sizes before).holder core = some t) :
    ∃ u, (lineAfter sizes (before ++ after)).holder core = some u ∧ t ≤ u := by
  refine lineAfter_invariant (P := fun l => ∃ u, l.holder core = some u ∧ t ≤ u) valid
    (fun l e known now => ?_) ⟨t, here, le_rfl⟩
  obtain ⟨u, here, le⟩ := known
  rcases Line.holder_step now here with still | next
  · exact ⟨u, still, le⟩
  · exact ⟨u + 1, next.2, le.trans (Nat.le_succ u)⟩

/-- A core that was not handed over when its thread exited never is. -/
theorem holder_stuck (valid : AllValid sizes (before ++ after)) {core : ℕ}
    (here : (lineAfter sizes before).holder core = some t)
    (gone : (lineAfter sizes before).finished t = true) :
    (lineAfter sizes (before ++ after)).holder core = some t ∧
      (lineAfter sizes (before ++ after)).finished t = true := by
  refine lineAfter_invariant (P := fun l => l.holder core = some t ∧ l.finished t = true) valid
    (fun l e known now => ?_) ⟨here, gone⟩
  refine ⟨?_, Line.finished_step.2 (Or.inr known.2)⟩
  rcases Line.holder_step now known.1 with still | ⟨⟨time, rfl⟩, _⟩
  · exact still
  · rw [now.2.1] at known
    cases known.2

/-! ## Losing no thread -/

/-- Threads of a core have it in their order, one at a time, and a thread that has started and has
not finished waits only while another thread has the core. -/
structure LosesNoThread (cores : ℕ) (sizes : List ℤ) (s : State) (events : List Event) : Prop where
  ordered : ∀ before middle after u v, events = before ++ middle ++ after →
    runEvents (step cores) before s = .ok u → runEvents (step cores) (before ++ middle) s = .ok v →
    ∀ core t t', (u.base.thread t).core = some core → (v.base.thread t').core = some core →
      pinballCore sizes t = core ∧ t ≤ t'
  served : ∀ before after u, events = before ++ after →
    runEvents (step cores) before s = .ok u → ∀ t ∈ starts before, t ∉ exits before →
      ∃ t', (u.base.thread t').core = some (pinballCore sizes t)

/-- When a thread exits and any thread behind it starts at all, the one just behind has started. -/
def Orderly (sizes : List ℤ) (events : List Event) : Prop :=
  ∀ before t time after, events = before ++ .exit t time :: after →
    (∃ u ∈ starts events, t < u ∧ pinballCore sizes u = pinballCore sizes t) →
      t + 1 ∈ starts before

theorem mem_starts (split : events = before ++ after) (started : t ∈ starts before) :
    t ∈ starts events := by
  rw [split, starts, List.filterMap_append]
  exact List.mem_append_left _ started

/-- What has its core is the thread that the line says. -/
theorem Follows.of_core {l : Line} (follows : Follows cores sizes l s) {core : ℕ}
    (has : (s.base.thread t).core = some core) :
    pinballCore sizes t = core ∧ l.holder core = some t ∧ l.finished t = false := by
  rw [(follows.base.thread t).core] at has
  split_ifs at has with both
  cases has
  exact ⟨rfl, both⟩

theorem split_of_exits (gone : t ∈ exits events) :
    ∃ before time after, events = before ++ .exit t time :: after := by
  obtain ⟨e, member, isExit⟩ := List.mem_filterMap.mp gone
  obtain ⟨before, after, split⟩ := List.append_of_mem member
  cases e with
  | create => cases isExit
  | start u time => cases isExit
  | exit u time =>
    cases isExit
    exact ⟨before, time, after, split⟩

theorem nodup_starts (once : (starts events).Nodup) (split : events = before ++ after) :
    (starts before).Nodup := by
  rw [split, starts, List.filterMap_append] at once
  exact once.of_append_left

/-- Threads of a core have it in their order, whatever the order of the events. -/
theorem ordered (ready : schedulerSequential cores sizes = .ok s) (once : (starts events).Nodup)
    {middle : List Event} {v w : State} (split : events = before ++ middle ++ after)
    (first : runEvents (step cores) before s = .ok v)
    (second : runEvents (step cores) (before ++ middle) s = .ok w) {core : ℕ}
    (here : (v.base.thread t).core = some core) (later : (w.base.thread u).core = some core) :
    pinballCore sizes t = core ∧ t ≤ u := by
  have nodup := nodup_starts once split
  obtain ⟨early, -, -⟩ := run_follows ready (nodup_starts nodup rfl) first
  obtain ⟨late, -, valid⟩ := run_follows ready nodup second
  obtain ⟨own, holds, -⟩ := early.of_core here
  obtain ⟨t', holds', le⟩ := holder_mono valid holds
  have same := holds'.symm.trans (late.of_core later).2.1
  exact ⟨own, Option.some.inj same ▸ le⟩

/-- A core that was handed over at each exit has a thread. -/
theorem served_of_orderly (ready : schedulerSequential cores sizes = .ok s)
    (once : (starts events).Nodup) (orderly : Orderly sizes events)
    (split : events = before ++ after) {v : State}
    (ran : runEvents (step cores) before s = .ok v) (started : t ∈ starts before)
    (unfinished : t ∉ exits before) : ∃ t', (v.base.thread t').core = some (pinballCore sizes t) := by
  obtain ⟨follows, wf, valid⟩ := run_follows ready (nodup_starts once split) ran
  have created := wf.created t (started_lineAfter.2 started)
  obtain ⟨h, holder⟩ := Option.ne_none_iff_exists'.mp (wf.held t created)
  have own : pinballCore sizes h = pinballCore sizes t := (wf.own _ h holder).2
  have holds : (lineAfter sizes before).Holds sizes h := by rw [Line.Holds, own, holder]
  by_cases gone : h ∈ exits before
  · exfalso
    have behind : h < t := by
      refine lt_of_le_of_ne (not_lt.mp fun ahead => ?_) fun same => unfinished (same ▸ gone)
      exact unfinished (finished_lineAfter.1 (wf.past h t holder ahead))
    obtain ⟨b, time, a, rfl⟩ := split_of_exits gone
    have next : h + 1 ∈ starts b := by
      refine orderly b h time (a ++ after) ?_ ⟨t, mem_starts split started, behind, own.symm⟩
      rw [split, List.append_assoc, List.cons_append]
    have core : pinballCore sizes (h + 1) = pinballCore sizes h :=
      le_antisymm (own ▸ pinballCore_mono sizes behind) (pinballCore_mono sizes (Nat.le_succ h))
    have handed : (lineAfter sizes (b ++ [.exit h time])).holder (pinballCore sizes t) =
        some (h + 1) := by
      rw [lineAfter_concat, Line.holder_exit, if_pos ⟨own.symm, started_lineAfter.2 next, core⟩]
    rw [List.append_cons] at valid holder
    obtain ⟨u, now, later⟩ := holder_mono valid handed
    rw [holder] at now
    cases now
    omega
  · refine ⟨h, ?_⟩
    have still : (lineAfter sizes before).finished h = false := by
      rw [Bool.eq_false_iff, Ne, finished_lineAfter]
      exact gone
    rw [(follows.base.thread h).core, if_pos ⟨holds, still⟩, own]

/-- Where no thread is lost, the exits are in order. -/
theorem orderly_of_served (ready : schedulerSequential cores sizes = .ok s)
    (once : (starts events).Nodup) (ran : runEvents (step cores) events s = .ok s')
    (served : ∀ t ∈ starts events, t ∉ exits events →
      ∃ t', (s'.base.thread t').core = some (pinballCore sizes t)) : Orderly sizes events := by
  intro before t time after split behind
  obtain ⟨u, started, ahead, same⟩ := behind
  obtain ⟨follows, wf, valid⟩ := run_follows ready once ran
  by_contra late
  have exiting := valid before (.exit t time) after split
  rw [split, List.append_cons] at valid
  have stuck : (lineAfter sizes (before ++ [.exit t time])).holder (pinballCore sizes u) = some t ∧
      (lineAfter sizes (before ++ [.exit t time])).finished t = true := by
    rw [lineAfter_concat, same]
    refine ⟨?_, Line.finished_step.2 (Or.inl ⟨time, rfl⟩)⟩
    rw [Line.holder_exit, if_neg fun next => late (started_lineAfter.1 next.2.1)]
    exact exiting.2.2
  have still := holder_stuck valid stuck.1 stuck.2
  rw [← List.append_cons, ← split] at still
  have unfinished := wf.behind t u still.1 ahead
  obtain ⟨t', has⟩ := served u started fun gone => by
    rw [finished_lineAfter.2 gone] at unfinished
    cases unfinished
  obtain ⟨-, holder, running⟩ := follows.of_core has
  rw [still.1] at holder
  cases holder
  rw [still.2] at running
  cases running

/-- **No thread is lost** exactly when, at each exit, the thread just behind has started, unless no
thread behind ever starts. Otherwise the core is not handed over, and the threads that start on it
wait for ever. -/
theorem losesNoThread_iff (ready : schedulerSequential cores sizes = .ok s)
    (once : (starts events).Nodup) (ran : runEvents (step cores) events s = .ok s') :
    LosesNoThread cores sizes s events ↔ Orderly sizes events := by
  constructor
  · intro lost
    exact orderly_of_served ready once ran (lost.served events [] s' (List.append_nil _).symm ran)
  · intro orderly
    refine ⟨fun before middle after u v split first second core t t' here later => ?_,
      fun before after u split first t started unfinished => ?_⟩
    · exact ordered ready once split first second here later
    · exact served_of_orderly ready once orderly split first started unfinished

/-- Two threads of one core, the second of which starts before the first one exits. -/
theorem losesNoThread_iff_two : ∃ s, schedulerSequential 1 [2] = .ok s ∧
    (LosesNoThread 1 [2] s [.create, .create, .start 0 0, .start 1 0, .exit 0 0] ↔
      Orderly [2] [.create, .create, .start 0 0, .start 1 0, .exit 0 0]) := by
  refine ⟨_, rfl, ?_⟩
  refine losesNoThread_iff rfl ?_ rfl
  decide

/-- A thread that starts after the one before it has exited waits for ever: its core is still that of
the other one. -/
theorem late_start_lost : ∃ s s', schedulerSequential 1 [2] = .ok s ∧
    (starts [.create, .create, .start 0 0, .exit 0 0, .start 1 0]).Nodup ∧
    runEvents (step 1) [.create, .create, .start 0 0, .exit 0 0, .start 1 0] s = .ok s' ∧
    ¬LosesNoThread 1 [2] s [.create, .create, .start 0 0, .exit 0 0, .start 1 0] := by
  refine ⟨_, _, rfl, by decide, rfl, fun lost => ?_⟩
  obtain ⟨t, has⟩ := lost.served _ [] _ (List.append_nil _).symm rfl 1 (by decide) (by decide)
  have once : (starts [.create, .create, .start 0 0, .exit 0 0, .start 1 0]).Nodup := by decide
  have ready : schedulerSequential 1 [2] = .ok _ := rfl
  have known := (run_follows ready once rfl).1.of_core has
  have zero : some t = some 0 := known.2.1.symm.trans rfl
  cases zero
  exact absurd known.2.2 nofun

end Runs

end GpuHotSpot.Common.Sequential
