import GpuHotSpot.Common.SchedulerSequential

/-!
# The line of threads

What the sequential scheduler has to keep track of: which threads were created, started and
finished, and which thread each core was handed to last.

* `Line.step`: what each event does.
* `Line.Wf`: on a core, the threads before the last one have finished, those behind it have not.
* `Line.holder_step`: when a core goes to another thread.
-/

namespace GpuHotSpot.Common.Sequential

open PinnedBase (Status)

/-- The threads that were created, started and finished, and the last thread that each core was handed
to. -/
structure Line where
  created : ℕ
  started : ℕ → Bool
  finished : ℕ → Bool
  holder : ℕ → Option ℕ

namespace Line

def init : Line := ⟨0, fun _ => false, fun _ => false, fun _ => none⟩

variable (sizes : List ℤ)

/-- The core goes to its first thread when that is created, and to a later one when the one just
before it exits, if the later one has started. -/
def step (l : Line) : Event → Line
  | .create =>
    { l with
      created := l.created + 1
      holder :=
        if l.holder (pinballCore sizes l.created) = none then
          Function.update l.holder (pinballCore sizes l.created) (some l.created)
        else l.holder }
  | .start t _ => { l with started := Function.update l.started t true }
  | .exit t _ =>
    { l with
      finished := Function.update l.finished t true
      holder :=
        if l.started (t + 1) = true ∧ pinballCore sizes (t + 1) = pinballCore sizes t then
          Function.update l.holder (pinballCore sizes t) (some (t + 1))
        else l.holder }

/-- The thread's core was handed to it last. -/
def Holds (l : Line) (t : ℕ) : Prop := l.holder (pinballCore sizes t) = some t

instance (l : Line) (t : ℕ) : Decidable (l.Holds sizes t) := by unfold Holds; infer_instance

/-- A thread starts after its creation and once, and exits while it has its core. -/
def Valid (l : Line) : Event → Prop
  | .create => True
  | .start t _ => t < l.created ∧ l.started t = false
  | .exit t _ => l.started t = true ∧ l.finished t = false ∧ l.Holds sizes t

/-- The threads before the last one of a core have finished, those behind it have not. -/
structure Wf (l : Line) : Prop where
  created : ∀ t, l.started t = true → t < l.created
  started : ∀ t, l.finished t = true → l.started t = true
  own : ∀ core t, l.holder core = some t → t < l.created ∧ pinballCore sizes t = core
  held : ∀ t, t < l.created → l.holder (pinballCore sizes t) ≠ none
  past : ∀ h t, l.holder (pinballCore sizes t) = some h → t < h → l.finished t = true
  behind : ∀ h t, l.holder (pinballCore sizes t) = some h → h < t → l.finished t = false

variable {sizes} {l : Line} {e : Event}

theorem wf_init : Wf sizes init :=
  ⟨nofun, nofun, nofun, fun _ before => absurd before (Nat.not_lt_zero _), nofun, nofun⟩

theorem finished_step {t : ℕ} : (l.step sizes e).finished t = true ↔
    (∃ time, e = .exit t time) ∨ l.finished t = true := by
  cases e with
  | create => simp [Line.step]
  | start u time => simp [Line.step]
  | exit u time =>
    simp only [Line.step, Function.update_apply]
    split_ifs with same
    · simp [same]
    · simp [Ne.symm same]

theorem started_step {t : ℕ} : (l.step sizes e).started t = true ↔
    (∃ time, e = .start t time) ∨ l.started t = true := by
  cases e with
  | create => simp [Line.step]
  | exit u time => simp [Line.step]
  | start u time =>
    simp only [Line.step, Function.update_apply]
    split_ifs with same
    · simp [same]
    · simp [Ne.symm same]

theorem Wf.unstarted (wf : Wf sizes l) {t : ℕ} (beyond : l.created ≤ t) : l.started t = false := by
  by_contra started
  exact absurd beyond (not_le.mpr (wf.created t (Bool.eq_true_of_not_eq_false started)))

theorem Wf.unfinished (wf : Wf sizes l) {t : ℕ} (unstarted : l.started t = false) :
    l.finished t = false := by
  by_contra finished
  rw [wf.started t (Bool.eq_true_of_not_eq_false finished)] at unstarted
  cases unstarted

theorem Wf.create (wf : Wf sizes l) : Wf sizes (l.step sizes .create) := by
  have fresh : ∀ t, l.holder (pinballCore sizes l.created) = none →
      pinballCore sizes t = pinballCore sizes l.created → l.created ≤ t := by
    intro t none same
    by_contra before
    exact wf.held t (not_le.mp before) (same ▸ none)
  have holder : ∀ core h, (l.step sizes .create).holder core = some h → l.holder core = some h ∨
      l.holder core = none ∧ core = pinballCore sizes l.created ∧ h = l.created := by
    intro core h here
    simp only [step] at here
    split_ifs at here with none
    · rw [Function.update_apply] at here
      split_ifs at here with same
      · exact Or.inr ⟨same ▸ none, same, (Option.some.inj here).symm⟩
      · exact Or.inl here
    · exact Or.inl here
  refine ⟨fun t started => Nat.lt_succ_of_lt (wf.created t started), wf.started, ?_, ?_, ?_, ?_⟩
  · intro core t here
    rcases holder core t here with old | ⟨_, rfl, rfl⟩
    · exact ⟨Nat.lt_succ_of_lt (wf.own core t old).1, (wf.own core t old).2⟩
    · exact ⟨Nat.lt_succ_self _, rfl⟩
  · intro t before none
    simp only [step] at none
    split_ifs at none with free
    · rw [Function.update_apply] at none
      split_ifs at none with same
      have last : t ≠ l.created := fun last => same (last ▸ rfl)
      exact wf.held t (lt_of_le_of_ne (Nat.le_of_lt_succ before) last) none
    · rcases Nat.lt_succ_iff_lt_or_eq.mp before with old | rfl
      · exact wf.held t old none
      · exact free none
  · intro h t here before
    rcases holder _ h here with old | ⟨none, same, rfl⟩
    · exact wf.past h t old before
    · exact absurd (fresh t (same ▸ none) same) (not_le.mpr before)
  · intro h t here behind
    rcases holder _ h here with old | ⟨none, same, rfl⟩
    · exact wf.behind h t old behind
    · exact wf.unfinished (wf.unstarted behind.le)

theorem Wf.start (wf : Wf sizes l) {t : ℕ} {time : SubsecondTime}
    (valid : l.Valid sizes (.start t time)) : Wf sizes (l.step sizes (.start t time)) := by
  refine ⟨fun u started => ?_, fun u finished => ?_, wf.own, wf.held, wf.past, wf.behind⟩
  · simp only [step, Function.update_apply] at started
    split_ifs at started with same
    · exact same ▸ valid.1
    · exact wf.created u started
  · simp only [step, Function.update_apply]
    split_ifs
    · rfl
    · exact wf.started u finished

/-- After an exit a core has the thread it had, or the one just behind it. -/
theorem holder_exit {t core : ℕ} {time : SubsecondTime} :
    (l.step sizes (.exit t time)).holder core =
      if core = pinballCore sizes t ∧ l.started (t + 1) = true ∧
        pinballCore sizes (t + 1) = pinballCore sizes t then some (t + 1) else l.holder core := by
  simp only [step]
  split_ifs with next here here
  · rw [here.1, Function.update_self]
  · rw [Function.update_of_ne fun same => here ⟨same, next⟩]
  · exact absurd here.2 next
  · rfl

theorem Wf.exit (wf : Wf sizes l) {t : ℕ} {time : SubsecondTime}
    (valid : l.Valid sizes (.exit t time)) : Wf sizes (l.step sizes (.exit t time)) := by
  obtain ⟨started, unfinished, holds⟩ := valid
  have finished : ∀ u, (l.step sizes (.exit t time)).finished u = true ↔
      t = u ∨ l.finished u = true := by
    intro u
    simp [finished_step]
  refine ⟨wf.created, fun u gone => ?_, fun core u here => ?_, fun u before none => ?_,
    fun h u here before => ?_, fun h u here behind => ?_⟩
  · rcases (finished u).mp gone with rfl | old
    · exact started
    · exact wf.started u old
  · rw [holder_exit] at here
    split_ifs at here with next
    · cases here
      exact ⟨wf.created _ next.2.1, next.2.2.trans next.1.symm⟩
    · exact wf.own core u here
  · rw [holder_exit] at none
    split_ifs at none with next
    exact wf.held u before none
  · rw [finished]
    rw [holder_exit] at here
    split_ifs at here with next
    · cases here
      rcases Nat.lt_succ_iff_lt_or_eq.mp before with old | same
      · exact Or.inr (wf.past t u (next.1 ▸ holds) old)
      · exact Or.inl same.symm
    · exact Or.inr (wf.past h u here before)
  · rw [Bool.eq_false_iff, Ne, finished]
    rw [holder_exit] at here
    split_ifs at here with next
    · cases here
      have old := wf.behind t u (next.1 ▸ holds) (by omega)
      exact not_or.mpr ⟨by omega, by simp [old]⟩
    · refine not_or.mpr ⟨fun same => ?_, by simp [wf.behind h u here behind]⟩
      subst same
      rw [holds] at here
      exact absurd behind (by simp [Option.some.inj here])

/-- Every valid event keeps the line in order. -/
theorem Wf.step (wf : Wf sizes l) (valid : l.Valid sizes e) : Wf sizes (l.step sizes e) := by
  cases e with
  | create => exact wf.create
  | start t time => exact wf.start valid
  | exit t time => exact wf.exit valid

/-- A core keeps its thread, unless that exits while the one just behind it waits. -/
theorem holder_step (valid : l.Valid sizes e) {core h : ℕ} (here : l.holder core = some h) :
    (l.step sizes e).holder core = some h ∨
      (∃ time, e = .exit h time) ∧ (l.step sizes e).holder core = some (h + 1) := by
  cases e with
  | create =>
    refine Or.inl ?_
    simp only [Line.step]
    split_ifs with free
    · rw [Function.update_of_ne fun same => ?_, here]
      rw [same, free] at here
      cases here
    · exact here
  | start t time => exact Or.inl here
  | exit t time =>
    rw [holder_exit]
    split_ifs with next
    · have same := Option.some.inj ((next.1 ▸ here).symm.trans valid.2.2)
      exact Or.inr ⟨⟨time, same ▸ rfl⟩, by rw [same]⟩
    · exact Or.inl here

variable (sizes) in
/-- What the thread manager says of a thread. -/
def status (l : Line) (t : ℕ) : Status :=
  if l.finished t then .idle
  else if l.started t then if l.Holds sizes t then .running else .stalled
  else .initializing

variable (sizes) in
/-- The thread that a core is to execute next. -/
def next (l : Line) (core : ℕ) : ℤ :=
  match l.holder core with
  | none => (sizes.take core).sum
  | some h => if l.started h then h + 1 else h

end Line

end GpuHotSpot.Common.Sequential
