import GpuHotSpot.Common.CorePairing

/-!
# Time sharing

Threads that may only run on one core share it. `reschedule` gives the core to the thread that waits
for the longest time, in whole picoseconds, so that the threads take turns.

* `chooseThread_best`: the thread with the highest score, and the first one of these, is chosen.
* `reschedule_gives`: what a call does when it chooses a thread.
* `Served.next`: after each call the threads wait in the order in which they lost the core.
* `reschedule_roundRobin`: any `k` calls in a row give the core to each of `k` threads once.
-/

namespace GpuHotSpot.Common.PinnedBase

open Fallible

/-! ## Turns -/

/-- In as many turns as a queue is long, in which its first element moves to its end, every element is
first once. -/
theorem map_head?_rotate {α : Type*} (l : List α) (i : ℕ) :
    (List.range l.length).map (fun j => (l.rotate (i + j)).head?) = (l.rotate i).map some := by
  refine List.ext_getElem (by simp) fun j inside inside' => ?_
  rw [List.length_map] at inside'
  rw [List.length_map, List.length_range] at inside
  have first : (l.rotate (i + j)).head? = some (l.rotate i)[j] := by
    rw [List.head?_eq_getElem?, List.getElem?_eq_getElem (by rw [List.length_rotate]; omega),
      List.getElem_rotate, List.getElem_rotate]
    simp only [Nat.zero_add, Nat.add_comm i j]
  rw [List.getElem_map, List.getElem_range, List.getElem_map]
  exact first

/-! ## Calls -/

variable (config : Config)

/-- Calls of `reschedule` for a core, each after what happens elsewhere before it, and the threads
that have the core after them. -/
def owners (core : ℕ) :
    List (SubsecondTime × (State → State)) → State → Except Fault (List (Option ℕ))
  | [], _ => .ok []
  | (time, elsewhere) :: calls, s => do
      let s ← reschedule config time core (elsewhere s)
      let later ← owners core calls s
      .ok (s.coreThreadRunning core :: later)

/-- The threads that share a core: they are runnable and have affinity to no other core. Nobody else
that is runnable has affinity to the core. -/
structure Shares (core : ℕ) (threads : List ℕ) (s : State) : Prop where
  paired : Inv s
  room : s.threadsRunnable.length ≤ s.infoSize
  sharing : ∀ t, (s.threadInfo t).coreAffinity core = true ∧ s.isRunnable t = true ↔ t ∈ threads
  single : ∀ t ∈ threads, ∀ other, (s.threadInfo t).coreAffinity other = true → other = core
  here : ∀ t ∈ threads, ∀ other, (s.threadInfo t).coreRunning = some other → other = core
  current : ∀ t, s.coreThreadRunning core = some t → t ∈ threads
  started : ∀ t ∈ threads, t < s.numThreads ∧ (s.thread t).status ≠ .initializing

/-- What happens elsewhere changes neither the thread of the core nor when the threads had it. -/
structure Undisturbed (core : ℕ) (threads : List ℕ) (s s' : State) : Prop where
  shares : Shares core threads s'
  current : s'.coreThreadRunning core = s.coreThreadRunning core
  stamps : ∀ t ∈ threads,
    (s'.threadInfo t).lastScheduledIn = (s.threadInfo t).lastScheduledIn ∧
      (s'.threadInfo t).lastScheduledOut = (s.threadInfo t).lastScheduledOut

/-- Calls for a core follow each other after more picoseconds than its number, and not within the same
picosecond. -/
def Spaced (core : ℕ) (time time' : SubsecondTime) : Prop :=
  time.toNat + 1000 * core < time'.toNat ∧ time.getPS < time'.getPS

variable {config} {core t : ℕ} {threads : List ℕ} {s s' : State} {time time' : SubsecondTime}

/-! ## The thread that is chosen -/

/-- **The first thread with the highest score is chosen.** -/
theorem chooseThread_best (candidate : s.isCandidate core t = true)
    (best : ∀ u, s.isCandidate core u = true → u ≠ t →
      s.score time u < s.score time t ∨ s.score time u = s.score time t ∧ t < u) :
    chooseThread s time core = some t := by
  have inside : t ∈ List.range s.threadsRunnable.length := by
    simp only [State.isCandidate, Bool.and_eq_true] at candidate
    exact List.mem_range.mpr (State.lt_of_isRunnable candidate.1.2)
  have all : ∀ (l : List ℕ) (b : Option ℕ × ℤ), l.Pairwise (· < ·) →
      (t ∈ l ∧ b.2 < s.score time t) ∨ b = (some t, s.score time t) →
      l.foldl (fun (b : Option ℕ × ℤ) u =>
        if s.isCandidate core u ∧ b.2 < s.score time u then (some u, s.score time u) else b) b =
        (some t, s.score time t) := by
    intro l
    induction l with
    | nil =>
      intro b _ now
      rcases now with ⟨member, -⟩ | found
      · cases member
      · exact found
    | cons u l ih =>
      intro b sorted now
      rcases List.pairwise_cons.mp sorted with ⟨before, sorted⟩
      refine ih _ sorted ?_
      dsimp only
      by_cases same : u = t
      · subst same
        refine .inr ?_
        rcases now with ⟨-, less⟩ | rfl
        · rw [if_pos ⟨candidate, less⟩]
        · rw [if_neg fun better => absurd better.2 (Int.lt_irrefl _)]
      · rcases now with ⟨member, less⟩ | rfl
        · have later : t ∈ l := (List.mem_cons.mp member).resolve_left (Ne.symm same)
          refine .inl ⟨later, ?_⟩
          split_ifs with better
          · rcases best u better.1 same with lower | ⟨-, after⟩
            · exact lower
            · exact absurd (before t later) (by omega)
          · exact less
        · refine .inr (if_neg fun better => ?_)
          have higher := better.2
          dsimp only at higher
          rcases best u better.1 same with lower | ⟨equal, -⟩ <;> omega
  exact congrArg Prod.fst (all _ _ List.pairwise_lt_range (.inl ⟨inside, score_gt s time t⟩))

/-- Some thread is chosen if there is a candidate. -/
theorem exists_chooseThread (candidate : s.isCandidate core t = true) (time : SubsecondTime) :
    ∃ u, chooseThread s time core = some u := by
  have inside : t ∈ List.range s.threadsRunnable.length := by
    simp only [State.isCandidate, Bool.and_eq_true] at candidate
    exact List.mem_range.mpr (State.lt_of_isRunnable candidate.1.2)
  have all : ∀ (l : List ℕ) (b : Option ℕ × ℤ),
      b.1.isSome = true ∨ b.2 = -2 ^ 63 ∧ t ∈ l →
      (l.foldl (fun (b : Option ℕ × ℤ) u =>
        if s.isCandidate core u ∧ b.2 < s.score time u then (some u, s.score time u)
        else b) b).1.isSome = true := by
    intro l
    induction l with
    | nil =>
      intro b now
      rcases now with found | ⟨-, member⟩
      · exact found
      · cases member
    | cons u l ih =>
      intro b now
      refine ih _ ?_
      dsimp only
      split_ifs with better
      · exact .inl rfl
      · refine now.imp_right fun start => ⟨start.1, ?_⟩
        refine (List.mem_cons.mp start.2).resolve_left ?_
        rintro rfl
        exact better ⟨candidate, start.1 ▸ score_gt s time t⟩
  exact Option.isSome_iff_exists.mp (all _ _ (.inr ⟨rfl, inside⟩))

/-- The candidates are the threads that share the core. -/
theorem Shares.isCandidate_iff (shares : Shares core threads s) :
    s.isCandidate core t = true ↔ t ∈ threads := by
  rw [State.isCandidate, Bool.and_eq_true, Bool.and_eq_true, shares.sharing]
  refine and_iff_left_of_imp fun member => ?_
  rw [ThreadInfo.isRunning]
  cases running : (s.threadInfo t).coreRunning with
  | none => rfl
  | some other => simp [shares.here t member other running]

/-! ## A call -/

/-- What no call changes: who is there, who is runnable and where, and who has started. -/
structure Keeps (s s' : State) : Prop where
  numThreads : s'.numThreads = s.numThreads
  length : s'.threadsRunnable.length = s.threadsRunnable.length
  runnable : ∀ u, s'.isRunnable u = s.isRunnable u
  infoSize : s'.infoSize = s.infoSize
  affinity : ∀ u, (s'.threadInfo u).coreAffinity = (s.threadInfo u).coreAffinity
  status : ∀ u, (s.thread u).status ≠ .initializing → (s'.thread u).status ≠ .initializing

theorem Keeps.refl (s : State) : Keeps s s :=
  ⟨rfl, rfl, fun _ => rfl, rfl, fun _ => rfl, fun _ => id⟩

theorem Keeps.trans {s'' : State} (first : Keeps s s') (second : Keeps s' s'') : Keeps s s'' :=
  ⟨second.numThreads.trans first.numThreads, second.length.trans first.length,
    fun u => (second.runnable u).trans (first.runnable u), second.infoSize.trans first.infoSize,
    fun u => (second.affinity u).trans (first.affinity u),
    fun u started => second.status u (first.status u started)⟩

theorem Keeps.setInfo {f : ThreadInfo → ThreadInfo}
    (affinity : ∀ info, (f info).coreAffinity = info.coreAffinity) : Keeps s (s.setInfo t f) := by
  refine ⟨rfl, rfl, fun _ => rfl, rfl, fun u => ?_, fun _ => id⟩
  simp only [State.setInfo, Function.update_apply]
  split_ifs with same
  · rw [affinity, same]
  · rfl

theorem Keeps.setCore (to_core : Option ℕ) :
    Keeps s (s.setThread t fun th => { th with core := to_core }) := by
  refine ⟨rfl, rfl, fun _ => rfl, rfl, fun _ => rfl, fun u started => ?_⟩
  simp only [State.setThread, Function.update_apply]
  split_ifs with same
  · exact same ▸ started
  · exact started

theorem Keeps.setThreadRunning (core : ℕ) (new : Option ℕ) :
    Keeps s (s.setThreadRunning core new) :=
  ⟨rfl, rfl, fun _ => rfl, rfl, fun _ => rfl, fun _ => id⟩

theorem Keeps.setQuantumLeft (core : ℕ) (left : SubsecondTime) :
    Keeps s (s.setQuantumLeft core left) :=
  ⟨rfl, rfl, fun _ => rfl, rfl, fun _ => rfl, fun _ => id⟩

/-- The core of a thread that is woken is not free any more, so that no call is nested. -/
theorem exists_wakeThread (config : Config) (core : ℕ) (time : SubsecondTime)
    (reschedule : SubsecondTime → ℕ → State → Except Fault State) (runnable : s.isRunnable t = true)
    (single : ∀ other, (s.threadInfo t).coreAffinity other = true → other = core)
    (busy : (s.coreThreadRunning core).isSome) (to_core : Option ℕ) :
    ∃ s', wakeThread config reschedule t to_core time s = .ok s' ∧ Keeps s s' ∧
      s'.threadInfo = s.threadInfo ∧ s'.coreThreadRunning = s.coreThreadRunning := by
  rw [wakeThread]
  split_ifs
  · have none_free : ∀ s' : State, s'.threadInfo = s.threadInfo →
        s'.coreThreadRunning = s.coreThreadRunning →
        rescheduleFreeCore config reschedule t time s' = .ok s' := by
      intro s' info current
      suffices none : findFreeCoreForThread config s' t = none by rw [rescheduleFreeCore, none]
      refine List.find?_eq_none.mpr fun other _ is_free => ?_
      rw [info, current, Bool.and_eq_true] at is_free
      rw [single other is_free.1, Option.isNone_iff_eq_none] at is_free
      rw [is_free.2] at busy
      cases busy
    have inside : t < s.threadsRunnable.length := State.lt_of_isRunnable runnable
    rw [resumeThread, State.setRunnable, if_pos (by exact inside), ok_bind]
    refine ⟨_, none_free _ rfl rfl, ⟨rfl, List.length_set, fun u => ?_, rfl, fun _ => rfl,
      fun u started => ?_⟩, rfl, rfl⟩
    · by_cases same : u = t
      · subst same
        rw [runnable]
        simp [State.isRunnable, State.setThread, List.getD_eq_getElem?_getD, inside]
      · simp [State.isRunnable, State.setThread, List.getD_eq_getElem?_getD, Ne.symm same]
    · simp only [State.setThread, Function.update_apply]
      split_ifs
      · rintro ⟨⟩
      · exact started
  · exact ⟨s, rfl, .refl s, rfl, rfl⟩

/-- The thread before loses the core. -/
theorem exists_scheduleOut (config : Config) (core : ℕ) (time : SubsecondTime)
    (reschedule : SubsecondTime → ℕ → State → Except Fault State)
    (known : ∀ o, s.coreThreadRunning core = some o → o < s.numThreads) :
    ∃ s', scheduleOut config reschedule core time s = .ok s' ∧ Keeps s s' ∧
      s'.coreThreadRunning = s.coreThreadRunning ∧
      ∀ u, (s'.threadInfo u).lastScheduledIn = (s.threadInfo u).lastScheduledIn ∧
        (s'.threadInfo u).coreRunning =
          (if s.coreThreadRunning core = some u then none else (s.threadInfo u).coreRunning) ∧
        (s'.threadInfo u).lastScheduledOut =
          (if s.coreThreadRunning core = some u then time + .ps core
          else (s.threadInfo u).lastScheduledOut) := by
  rw [scheduleOut]
  cases runs : s.coreThreadRunning core with
  | none => exact ⟨s, rfl, .refl s, rfl, fun u => ⟨rfl, rfl, rfl⟩⟩
  | some o =>
    refine ⟨((s.setCoreRunning o none).setInfo o fun info =>
      { info with lastScheduledOut := time + .ps core }).setThread o fun th =>
        { th with core := none }, ?_, ?_, rfl, fun u => ?_⟩
    · change moveThread config reschedule o none time _ = _
      rw [moveThread, if_neg (by exact not_le.mpr (known o runs)), wakeThread,
        if_neg fun wakes => absurd wakes.1 Bool.false_ne_true]
      rfl
    · have first : Keeps s (s.setCoreRunning o none) := .setInfo fun _ => rfl
      refine Keeps.trans (first.trans ?_) (.setCore none)
      exact .setInfo fun _ => rfl
    · by_cases same : u = o
      · subst same
        simp [State.setThread, State.setInfo, State.setCoreRunning]
      · simp [State.setThread, State.setInfo, State.setCoreRunning, same, Ne.symm same]

/-- The thread that waits gets the core. -/
theorem exists_scheduleIn (config : Config) (core : ℕ) (time : SubsecondTime)
    (reschedule : SubsecondTime → ℕ → State → Except Fault State)
    (known : t < s.numThreads) (runnable : s.isRunnable t = true)
    (single : ∀ other, (s.threadInfo t).coreAffinity other = true → other = core)
    (waits : (s.threadInfo t).coreRunning = none) :
    ∃ s', scheduleIn config reschedule core (some t) time s = .ok s' ∧ Keeps s s' ∧
      s'.coreThreadRunning core = some t ∧ ∀ u, (s'.threadInfo u).lastScheduledIn =
          (if u = t then time else (s.threadInfo u).lastScheduledIn) ∧
        (s'.threadInfo u).coreRunning =
          (if u = t then some core else (s.threadInfo u).coreRunning) ∧
        (s'.threadInfo u).lastScheduledOut = (s.threadInfo u).lastScheduledOut := by
  let before := ((s.setThreadRunning core (some t)).setCoreRunning t (some core)).setInfo t
    fun info => { info with lastScheduledIn := time }
  have keeps : Keeps s before := by
    have first : Keeps s ((s.setThreadRunning core (some t)).setCoreRunning t (some core)) :=
      Keeps.trans (.setThreadRunning core (some t)) (.setInfo fun _ => rfl)
    exact first.trans (.setInfo fun _ => rfl)
  have owner : before.coreThreadRunning core = some t := Function.update_self _ _ _
  obtain ⟨after, woken, still, info, current⟩ := exists_wakeThread config core time reschedule
    (s := before) (by rw [keeps.runnable]; exact runnable)
    (fun other allowed => single other (by rwa [keeps.affinity] at allowed))
    (by rw [owner]; rfl) (some core)
  refine ⟨after.setThread t fun th => { th with core := some core }, ?_,
    (keeps.trans still).trans (.setCore _), ?_, fun u => ?_⟩
  · rw [scheduleIn]
    have waits' : ((s.setThreadRunning core (some t)).threadInfo t).coreRunning = none := waits
    simp only [waits']
    rw [moveThread, if_neg (by exact not_le.mpr known)]
    change (wakeThread config reschedule t (some core) time before >>= _) = _
    rw [woken]
    rfl
  · change after.coreThreadRunning core = some t
    rw [current, owner]
  · change ((after.threadInfo u).lastScheduledIn = _ ∧ (after.threadInfo u).coreRunning = _ ∧
      (after.threadInfo u).lastScheduledOut = _)
    rw [info]
    by_cases same : u = t
    · subst same
      simp [before, State.setInfo, State.setCoreRunning, State.setThreadRunning]
    · simp [before, State.setInfo, State.setCoreRunning, State.setThreadRunning, same]

/-- What a call does when it chooses the thread `t`. -/
structure Gives (core t : ℕ) (time : SubsecondTime) (threads : List ℕ) (s s' : State) : Prop where
  shares : Shares core threads s'
  owner : s'.coreThreadRunning core = some t
  stamps : ∀ u,
    (s'.threadInfo u).lastScheduledIn = (if u = t ∧ s.coreThreadRunning core ≠ some t then time
      else (s.threadInfo u).lastScheduledIn) ∧
    (s'.threadInfo u).lastScheduledOut = (if u ≠ t ∧ s.coreThreadRunning core = some u then
      time + .ps core else (s.threadInfo u).lastScheduledOut)

/-- The threads share the core as before when a call has given it to one of them. -/
theorem Shares.of_keeps (shares : Shares core threads s) (keeps : Keeps s s') (paired : Inv s')
    (here : ∀ t ∈ threads, ∀ other, (s'.threadInfo t).coreRunning = some other → other = core)
    (current : ∀ t, s'.coreThreadRunning core = some t → t ∈ threads) :
    Shares core threads s' := by
  refine ⟨paired, ?_, fun u => ?_, fun u member other allowed => ?_, here, current,
    fun u member => ?_⟩
  · rw [keeps.length, keeps.infoSize]
    exact shares.room
  · rw [keeps.affinity, keeps.runnable]
    exact shares.sharing u
  · rw [keeps.affinity] at allowed
    exact shares.single u member other allowed
  · rw [keeps.numThreads]
    exact ⟨(shares.started u member).1, keeps.status u (shares.started u member).2⟩

/-- **A call gives the core to the thread it chooses.** -/
theorem reschedule_gives (config : Config) (shares : Shares core threads s)
    (chosen : chooseThread s time core = some t) :
    ∃ s', reschedule config time core s = .ok s' ∧ Gives core t time threads s s' := by
  have member : t ∈ threads := shares.isCandidate_iff.1 (chooseThread_spec chosen)
  have paired := ensures_reschedule (c := config) shares.paired time core
  have started : ¬((s.coreThreadRunning core).any fun o => (s.thread o).status = .initializing) := by
    intro starts
    cases runs : s.coreThreadRunning core with
    | none =>
      rw [runs] at starts
      cases starts
    | some o =>
      rw [runs] at starts
      exact (shares.started o (shares.current o runs)).2 (by simpa using starts)
  by_cases stays : s.coreThreadRunning core = some t
  · have same : reschedule config time core s = .ok (s.setQuantumLeft core config.quantum) := by
      rw [reschedule, rescheduleWithin, if_neg started, if_neg (not_lt.mpr shares.room), chosen, if_pos stays]
    refine ⟨_, same, ?_, stays, fun u => ⟨?_, ?_⟩⟩
    · exact shares.of_keeps (.setQuantumLeft core _) (paired.of_ok same) shares.here shares.current
    · rw [if_neg fun new => new.2 stays]
      rfl
    · rw [if_neg]
      · rfl
      · rintro ⟨other, runs⟩
        exact other (Option.some.inj (runs.symm.trans stays))
  · have waits : (s.threadInfo t).coreRunning = none := by
      refine Option.eq_none_iff_forall_ne_some.mpr fun other runs => stays ?_
      have on_core : other = core := shares.here t member other runs
      exact (shares.paired.paired core t).mpr (on_core ▸ runs)
    obtain ⟨s₁, out, keeps₁, current₁, info₁⟩ := exists_scheduleOut config core time
      (rescheduleWithin config (config.applicationCores + 1))
      fun o runs => (shares.started o (shares.current o runs)).1
    obtain ⟨s₂, into, keeps₂, owner, info₂⟩ := exists_scheduleIn config core time
      (rescheduleWithin config (config.applicationCores + 1))
      (by rw [keeps₁.numThreads]; exact (shares.started t member).1)
      (by rw [keeps₁.runnable]; exact ((shares.sharing t).mpr member).2)
      (by rw [keeps₁.affinity]; exact shares.single t member)
      (by rw [(info₁ t).2.1, if_neg stays, waits])
    have result : reschedule config time core s = .ok (s₂.setQuantumLeft core config.quantum) := by
      rw [reschedule, rescheduleWithin, if_neg started, if_neg (not_lt.mpr shares.room), chosen,
        if_neg stays, switchThread, out, ok_bind, into]
      rfl
    refine ⟨_, result, ?_, owner, fun u => ⟨?_, ?_⟩⟩
    · refine shares.of_keeps ((keeps₁.trans keeps₂).trans (.setQuantumLeft core _))
        (paired.of_ok result) (fun u member' other runs => ?_) fun u runs => ?_
      · change (s₂.threadInfo u).coreRunning = some other at runs
        rw [(info₂ u).2.1, (info₁ u).2.1] at runs
        split_ifs at runs
        · exact (Option.some.inj runs).symm
        · exact shares.here u member' other runs
      · have same := Option.some.inj (owner.symm.trans runs)
        exact same ▸ member
    · change (s₂.threadInfo u).lastScheduledIn = _
      rw [(info₂ u).1, (info₁ u).1]
      simp only [ne_eq, stays, not_false_eq_true, and_true]
    · change (s₂.threadInfo u).lastScheduledOut = _
      rw [(info₂ u).2.2, (info₁ u).2.2]
      refine if_congr ?_ rfl rfl
      refine ⟨fun runs => ⟨?_, runs⟩, And.right⟩
      rintro rfl
      exact stays runs

/-! ## The order of the threads -/

theorem getPS_eq (time : SubsecondTime) : time.getPS = (time.toNat / 1000 : ℕ) := rfl

/-- What the penalty of the core adds. -/
theorem getPS_add (fits : time.toNat + 1000 * core < 2 ^ 64) :
    (time + SubsecondTime.ps core).getPS = time.getPS + core := by
  have penalty : (SubsecondTime.ps core).toNat = 1000 * core := by
    rw [SubsecondTime.ps, UInt64.toNat_mul, UInt64.toNat_ofNat']
    change core % 2 ^ 64 * 1000 % 2 ^ 64 = 1000 * core
    omega
  rw [getPS_eq, getPS_eq, UInt64.toNat_add, penalty, Nat.mod_eq_of_lt fits]
  omega

/-- The thread `u` lost its core before `v` did, or they are equal there and `u` is the first. -/
def Before (s : State) (u v : ℕ) : Prop :=
  (s.threadInfo u).lastScheduledOut.getPS < (s.threadInfo v).lastScheduledOut.getPS ∨
    (s.threadInfo u).lastScheduledOut.getPS = (s.threadInfo v).lastScheduledOut.getPS ∧ u < v

/-- After a call the core has the thread `o`, and the others wait in their order. A call so late that
the penalty is beyond the range of times has no other behind it. -/
structure Served (core : ℕ) (time : SubsecondTime) (o : ℕ) (waiting : List ℕ) (s : State) :
    Prop where
  owner : s.coreThreadRunning core = some o
  order : time.toNat + 1000 * core < 2 ^ 64 → waiting.Pairwise (Before s)
  past : time.toNat + 1000 * core < 2 ^ 64 → ∀ w ∈ waiting,
    (s.threadInfo w).lastScheduledOut.getPS ≤ time.getPS + core
  entered : (s.threadInfo o).lastScheduledIn.getPS ≤ time.getPS

/-- What happens elsewhere keeps the order. -/
theorem Served.undisturbed {o : ℕ} {waiting : List ℕ} (served : Served core time o waiting s)
    (undisturbed : Undisturbed core threads s s') (perm : threads.Perm (o :: waiting)) :
    Served core time o waiting s' := by
  have stamps : ∀ w ∈ waiting, (s'.threadInfo w).lastScheduledOut =
      (s.threadInfo w).lastScheduledOut := fun w member =>
    (undisturbed.stamps w (perm.mem_iff.mpr (List.mem_cons_of_mem _ member))).2
  refine ⟨undisturbed.current.trans served.owner, fun fits => ?_, fun fits w member => ?_, ?_⟩
  · refine (served.order fits).imp_of_mem fun {u v} inU inV before => ?_
    rw [Before, stamps u inU, stamps v inV]
    exact before
  · rw [stamps w member]
    exact served.past fits w member
  · rw [(undisturbed.stamps o (perm.mem_iff.mpr List.mem_cons_self)).1]
    exact served.entered

/-- Of the threads that share the core the one that has it runs, and the others wait. -/
theorem Shares.coreRunning_eq (shares : Shares core threads s) {o : ℕ}
    (owner : s.coreThreadRunning core = some o) (member : t ∈ threads) :
    (s.threadInfo t).coreRunning = if t = o then some core else none := by
  split_ifs with same
  · exact (shares.paired.paired core t).mp (same ▸ owner)
  · refine Option.eq_none_iff_forall_ne_some.mpr fun other runs => same ?_
    have on_core : other = core := shares.here t member other runs
    have mine := (shares.paired.paired core t).mpr (on_core ▸ runs)
    exact Option.some.inj (mine.symm.trans owner)

/-- The scores: that of the thread that has the core is negative, the others are not. -/
theorem Served.score {o : ℕ} {waiting : List ℕ} (served : Served core time o waiting s)
    (shares : Shares core threads s) (perm : threads.Perm (o :: waiting)) (nodup : threads.Nodup)
    (spaced : Spaced core time time') :
    s.score time' o < 0 ∧ ∀ w ∈ waiting, 0 ≤ s.score time' w ∧
      s.score time' w = time'.getPS - (s.threadInfo w).lastScheduledOut.getPS := by
  have fits : time.toNat + 1000 * core < 2 ^ 64 := spaced.1.trans (UInt64.toNat_lt time')
  have entered := served.entered
  have apart : time.getPS + core ≤ time'.getPS := by
    have later := spaced.1
    rw [getPS_eq, getPS_eq]
    omega
  constructor
  · have running : (s.threadInfo o).isRunning = true := by
      rw [ThreadInfo.isRunning, shares.coreRunning_eq served.owner
        (perm.mem_iff.mpr List.mem_cons_self), if_pos rfl]
      rfl
    have later := spaced.2
    rw [State.score, if_pos running]
    omega
  · intro w member
    have other : w ≠ o := by
      rintro rfl
      exact (List.nodup_cons.mp (perm.nodup_iff.mp nodup)).1 member
    have waits : ¬(s.threadInfo w).isRunning = true := by
      rw [ThreadInfo.isRunning, shares.coreRunning_eq served.owner
        (perm.mem_iff.mpr (List.mem_cons_of_mem _ member)), if_neg other]
      exact Bool.false_ne_true
    have past := served.past fits w member
    rw [State.score, if_neg waits]
    exact ⟨by omega, rfl⟩

/-- **The next call gives the core to the thread that waits for the longest time**, and the thread
that had it waits behind all others. -/
theorem Served.next (config : Config) {o w : ℕ} {waiting : List ℕ}
    (served : Served core time o (w :: waiting) s)
    (shares : Shares core threads s) (perm : threads.Perm (o :: w :: waiting))
    (nodup : threads.Nodup) (spaced : Spaced core time time') :
    ∃ s', reschedule config time' core s = .ok s' ∧ Shares core threads s' ∧
      Served core time' w (waiting ++ [o]) s' := by
  have fits : time.toNat + 1000 * core < 2 ^ 64 := spaced.1.trans (UInt64.toNat_lt time')
  obtain ⟨not_o, not_w⟩ : (o ≠ w ∧ o ∉ waiting) ∧ w ∉ waiting := by
    have distinct := perm.nodup_iff.mp nodup
    simp only [List.nodup_cons, List.mem_cons, not_or] at distinct
    exact ⟨distinct.1, distinct.2.1⟩
  rcases List.pairwise_cons.mp (served.order fits) with ⟨first, rest⟩
  obtain ⟨low, high⟩ := served.score shares perm nodup spaced
  have chosen : chooseThread s time' core = some w := by
    refine chooseThread_best (shares.isCandidate_iff.2 (perm.mem_iff.mpr (by simp)))
      fun u candidate other => ?_
    have mine := high w List.mem_cons_self
    rcases List.mem_cons.mp (perm.mem_iff.mp (shares.isCandidate_iff.1 candidate)) with
      rfl | member
    · exact .inl (by omega)
    · have later := (List.mem_cons.mp member).resolve_left other
      rw [mine.2, (high u member).2]
      rcases first u later with less | ⟨equal, after⟩
      · exact .inl (by omega)
      · exact .inr ⟨by omega, after⟩
  obtain ⟨s', called, gives⟩ := reschedule_gives config shares chosen
  have other_owner : s.coreThreadRunning core ≠ some w := by
    rw [served.owner]
    exact fun same => not_o.1 (Option.some.inj same)
  have kept : ∀ u ∈ waiting, (s'.threadInfo u).lastScheduledOut =
      (s.threadInfo u).lastScheduledOut := by
    intro u member
    rw [(gives.stamps u).2, if_neg]
    rintro ⟨-, runs⟩
    exact not_o.2 (Option.some.inj (served.owner.symm.trans runs) ▸ member)
  have lost (fits' : time'.toNat + 1000 * core < 2 ^ 64) :
      (s'.threadInfo o).lastScheduledOut.getPS = time'.getPS + core := by
    rw [(gives.stamps o).2, if_pos ⟨not_o.1, served.owner⟩, getPS_add fits']
  have later := spaced.2
  refine ⟨s', called, gives.shares, gives.owner, fun fits' => ?_, fun fits' u member => ?_, ?_⟩
  · refine List.pairwise_append.mpr ⟨?_, List.pairwise_singleton _ _, fun u member v single => ?_⟩
    · refine rest.imp_of_mem fun {u v} inU inV before => ?_
      rw [Before, kept u inU, kept v inV]
      exact before
    · have past := served.past fits u (List.mem_cons_of_mem _ member)
      rw [List.mem_singleton.mp single, Before, kept u member, lost fits']
      exact .inl (by omega)
  · rcases List.mem_append.mp member with inside | single
    · have past := served.past fits u (List.mem_cons_of_mem _ inside)
      rw [kept u inside]
      omega
    · rw [List.mem_singleton.mp single, lost fits']
  · rw [(gives.stamps w).1, if_pos ⟨rfl, other_owner⟩]

/-- Alone on the core a thread keeps it. -/
theorem Served.next_alone (config : Config) {o : ℕ} (served : Served core time o [] s)
    (shares : Shares core threads s) (perm : threads.Perm [o]) (spaced : Spaced core time time') :
    ∃ s', reschedule config time' core s = .ok s' ∧ Shares core threads s' ∧
      Served core time' o [] s' := by
  have only : ∀ u, s.isCandidate core u = true ↔ u = o := fun u => by
    rw [shares.isCandidate_iff, perm.mem_iff, List.mem_singleton]
  obtain ⟨s', called, gives⟩ :=
    reschedule_gives config shares (chooseThread_only time' only)
  refine ⟨s', called, gives.shares, gives.owner, fun _ => .nil, fun _ w member => ?_, ?_⟩
  · cases member
  have later := spaced.2
  have entered := served.entered
  rw [(gives.stamps o).1, if_neg fun new => new.2 served.owner]
  exact entered.trans later.le

/-! ## Runs -/

/-- A call after the first one moves the queue on by one. -/
theorem Served.step (config : Config) {o : ℕ} {waiting : List ℕ}
    (served : Served core time o waiting s)
    (shares : Shares core threads s) (perm : threads.Perm (o :: waiting)) (nodup : threads.Nodup)
    (spaced : Spaced core time time') :
    ∃ s' o' waiting', reschedule config time' core s = .ok s' ∧ Shares core threads s' ∧
      Served core time' o' waiting' s' ∧ o' :: waiting' = (o :: waiting).rotate 1 := by
  cases waiting with
  | nil =>
    obtain ⟨s', called, shares', served'⟩ := served.next_alone config shares perm spaced
    exact ⟨s', o, [], called, shares', served', by simp⟩
  | cons w waiting =>
    obtain ⟨s', called, shares', served'⟩ :=
      served.next config shares perm nodup spaced
    exact ⟨s', w, waiting ++ [o], called, shares', served', by simp⟩

/-- Different threads can be put into the order in which they lost the core. -/
theorem exists_before_order (s : State) {l : List ℕ} (nodup : l.Nodup) :
    ∃ waiting : List ℕ, waiting.Perm l ∧ waiting.Pairwise (Before s) := by
  let key : ℕ → ℤ ×ₗ ℕ := fun t => toLex ((s.threadInfo t).lastScheduledOut.getPS, t)
  have total : Std.Total fun u v => key u ≤ key v := ⟨fun u v => le_total (key u) (key v)⟩
  have transitive : IsTrans ℕ fun u v => key u ≤ key v := ⟨fun u v w => le_trans⟩
  have perm := List.perm_insertionSort (fun u v => key u ≤ key v) l
  have sorted := List.pairwise_insertionSort (fun u v => key u ≤ key v) l
  refine ⟨_, perm, (sorted.and (perm.nodup_iff.mpr nodup)).imp fun {u v} both => ?_⟩
  rcases Prod.Lex.le_iff.mp both.1 with less | ⟨equal, le⟩
  · exact .inl less
  · exact .inr ⟨equal, lt_of_le_of_ne le both.2⟩

/-- **The first call** starts the queue. -/
theorem exists_served (config : Config) (time : SubsecondTime) (shares : Shares core threads s)
    (nodup : threads.Nodup) (some_thread : threads ≠ [])
    (past : ∀ u ∈ threads, (s.threadInfo u).lastScheduledIn.getPS ≤ time.getPS ∧
      (s.threadInfo u).lastScheduledOut.getPS ≤ time.getPS) :
    ∃ s' o waiting, reschedule config time core s = .ok s' ∧ Shares core threads s' ∧
      threads.Perm (o :: waiting) ∧ Served core time o waiting s' := by
  obtain ⟨t, member⟩ := List.exists_mem_of_ne_nil threads some_thread
  obtain ⟨o, chosen⟩ := exists_chooseThread (shares.isCandidate_iff.2 member) time
  have inside : o ∈ threads := shares.isCandidate_iff.1 (chooseThread_spec chosen)
  obtain ⟨s', called, gives⟩ := reschedule_gives config shares chosen
  obtain ⟨waiting, same, sorted⟩ := exists_before_order s' (nodup.erase o)
  refine ⟨s', o, waiting, called, gives.shares,
    (List.perm_cons_erase inside).trans (same.symm.cons o), gives.owner, fun _ => sorted,
    fun fits u waits => ?_, ?_⟩
  · have before := (past u (List.mem_of_mem_erase (same.mem_iff.mp waits))).2
    rw [(gives.stamps u).2]
    split_ifs
    · rw [getPS_add fits]
    · omega
  · rw [(gives.stamps o).1]
    split_ifs
    · exact le_rfl
    · exact (past o inside).1

/-- The queue moves on with every call. -/
theorem Served.owners (config : Config) (nodup : threads.Nodup)
    {calls : List (SubsecondTime × (State → State))}
    (elsewhere : ∀ call ∈ calls, ∀ s, Shares core threads s →
      Undisturbed core threads s (call.2 s)) {o : ℕ} {waiting : List ℕ}
    (served : Served core time o waiting s) (shares : Shares core threads s)
    (perm : threads.Perm (o :: waiting))
    (spaced : (time :: calls.map Prod.fst).IsChain (Spaced core)) :
    owners config core calls s =
      .ok ((List.range calls.length).map fun j => ((o :: waiting).rotate (1 + j)).head?) := by
  induction calls generalizing s time o waiting with
  | nil => rfl
  | cons call calls ih =>
    obtain ⟨time', other⟩ := call
    rw [List.map_cons, List.isChain_cons_cons] at spaced
    have undisturbed := elsewhere _ List.mem_cons_self s shares
    obtain ⟨s', o', waiting', called, shares', served', queue⟩ :=
      (served.undisturbed undisturbed perm).step config undisturbed.shares perm nodup spaced.1
    have perm' : threads.Perm (o' :: waiting') := by
      rw [queue]
      exact perm.trans (List.rotate_perm _ 1).symm
    have later := ih (fun call member => elsewhere call (List.mem_cons_of_mem _ member)) served'
      shares' perm' spaced.2
    have first : ((o :: waiting).rotate 1).head? = some o' := by rw [← queue]; rfl
    rw [PinnedBase.owners, called, ok_bind, later, ok_bind, List.length_cons,
      List.range_succ_eq_map, List.map_cons, List.map_map, served'.owner, Nat.add_zero, first,
      queue]
    refine congrArg _ (congrArg _ (List.map_congr_left fun j _ => ?_))
    rw [Function.comp_apply, List.rotate_rotate, Nat.succ_eq_add_one, Nat.add_comm j 1]

/-- **Round robin.** Any `k` calls in a row give the core to each of the `k` threads that share it
once, if the calls are more picoseconds apart than the number of the core, and none within the same
picosecond. Before the first call the threads have had the core only in the past. -/
theorem reschedule_roundRobin (config : Config) (shares : Shares core threads s)
    (nodup : threads.Nodup) (some_thread : threads ≠ [])
    (calls : List (SubsecondTime × (State → State)))
    (elsewhere : ∀ call ∈ calls, ∀ s, Shares core threads s → Undisturbed core threads s (call.2 s))
    (spaced : (calls.map Prod.fst).IsChain (Spaced core))
    (past : ∀ time ∈ (calls.map Prod.fst).head?, ∀ u ∈ threads,
      (s.threadInfo u).lastScheduledIn.getPS ≤ time.getPS ∧
        (s.threadInfo u).lastScheduledOut.getPS ≤ time.getPS) :
    ∃ turns, owners config core calls s = .ok turns ∧ turns.length = calls.length ∧
      ∀ i, i + threads.length ≤ calls.length →
        ((turns.drop i).take threads.length).Perm (threads.map some) := by
  cases calls with
  | nil =>
    refine ⟨[], rfl, rfl, fun i inside => ?_⟩
    rw [List.length_nil] at inside
    exact absurd (List.length_eq_zero_iff.mp (by omega)) some_thread
  | cons call calls =>
    obtain ⟨time, other⟩ := call
    have undisturbed := elsewhere _ List.mem_cons_self s shares
    obtain ⟨s', o, waiting, called, shares', perm, served⟩ :=
      exists_served config time undisturbed.shares nodup some_thread fun u member => by
        rw [(undisturbed.stamps u member).1, (undisturbed.stamps u member).2]
        exact past time rfl u member
    have later := served.owners config nodup
      (fun call member => elsewhere call (List.mem_cons_of_mem _ member)) shares' perm spaced
    have turns : owners config core ((time, other) :: calls) s =
        .ok ((List.range (calls.length + 1)).map fun j => ((o :: waiting).rotate j).head?) := by
      rw [owners, called, ok_bind, later, ok_bind, List.range_succ_eq_map, List.map_cons,
        List.map_map, served.owner, List.rotate_zero, List.head?_cons]
      refine congrArg _ (congrArg _ (List.map_congr_left fun j _ => ?_))
      rw [Function.comp_apply, Nat.succ_eq_add_one, Nat.add_comm j 1]
    refine ⟨_, turns, by simp, fun i inside => ?_⟩
    rw [List.length_cons] at inside
    rw [perm.length_eq] at inside ⊢
    have window : (((List.range (calls.length + 1)).map fun j =>
        ((o :: waiting).rotate j).head?).drop i).take (o :: waiting).length =
        ((o :: waiting).rotate i).map some := by
      rw [← map_head?_rotate]
      refine List.ext_getElem ?_ fun j in_window in_rotation => ?_
      · simp only [List.length_take, List.length_drop, List.length_map, List.length_range]
        omega
      · simp
    rw [window]
    exact ((List.rotate_perm _ i).trans perm.symm).map some

/-- Two threads are created for core 0 of a processor with one core, and start. -/
def twoThreads : Except Fault State :=
  runEvents (step ⟨1, 1000000⟩) [.create [0], .create [0], .start 0 0, .start 1 0] .init

theorem twoThreads_shares : ∃ s, twoThreads = .ok s ∧ Shares 0 [0, 1] s ∧
    ∀ u ∈ [0, 1], (s.threadInfo u).lastScheduledIn = 0 ∧ (s.threadInfo u).lastScheduledOut = 0 := by
  have run : Ensures Inv (· ≠ .unfinished) twoThreads :=
    ensures_runEvents (fun e s inv => ensures_step e inv) inv_init
  refine ⟨_, rfl, ⟨run.of_ok rfl, by decide, fun t => ?_, fun t member other allowed => ?_,
    fun t member other runs => ?_, fun t runs => ?_, by decide⟩, by decide⟩
  · rcases t with _ | _ | t
    · decide
    · decide
    · exact iff_of_false (fun both => by cases both.1) (by simp)
  · cases other with
    | zero => rfl
    | succ other =>
      rcases t with _ | _ | t
      · cases allowed
      · cases allowed
      · cases allowed
  · rcases t with _ | _ | t
    · exact (Option.some.inj runs).symm
    · cases runs
    · cases runs
  · cases runs
    decide

/-- Calls after 2 and after 4 picoseconds. -/
theorem reschedule_roundRobin_two : ∃ s turns, twoThreads = .ok s ∧
    owners ⟨1, 1000000⟩ 0 [(2000, id), (4000, id)] s = .ok turns ∧ turns.length = 2 ∧
      ∀ i, i + 2 ≤ 2 → ((turns.drop i).take 2).Perm [some 0, some 1] := by
  obtain ⟨s, reached, shares, stamps⟩ := twoThreads_shares
  obtain ⟨turns, called, length, windows⟩ := reschedule_roundRobin ⟨1, 1000000⟩ shares (by decide)
    (by decide) [(2000, id), (4000, id)]
    (fun call member s shares => by
      rcases List.mem_pair.mp member with rfl | rfl <;>
        exact ⟨shares, rfl, fun _ _ => ⟨rfl, rfl⟩⟩)
    (.cons_cons ⟨by decide, by decide⟩ (.singleton _))
    (fun time first u member => by
      cases first
      rw [(stamps u member).1, (stamps u member).2]
      decide)
  exact ⟨s, turns, reached, called, length, windows⟩

/-- On core 0 calls may be less than a picosecond apart. After 1 and after 2 femtoseconds all threads
have the same score, and both calls give the core to the first thread. -/
theorem not_reschedule_roundRobin : ∃ s, twoThreads = .ok s ∧ Shares 0 [0, 1] s ∧
    (1 : SubsecondTime).toNat + 1000 * 0 < (2 : SubsecondTime).toNat ∧
    owners ⟨1, 1000000⟩ 0 [(1, id), (2, id)] s = .ok [some 0, some 0] ∧
    ¬[some 0, some 0].Perm ([0, 1].map some) := by
  obtain ⟨s, reached, shares, -⟩ := twoThreads_shares
  refine ⟨s, reached, shares, by decide, ?_, by decide⟩
  have same : twoThreads.bind (owners ⟨1, 1000000⟩ 0 [(1, id), (2, id)]) =
      .ok [some 0, some 0] := rfl
  rwa [reached] at same

end GpuHotSpot.Common.PinnedBase
