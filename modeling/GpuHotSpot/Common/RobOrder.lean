import GpuHotSpot.Common.RobMoves

/-!
# Fences and stores in the issue stage

The walk of `doIssue` keeps fences and stores in program order by its flags. A fence that is not ready,
one whose port is taken, and a barrier that an earlier one already blocks are passed by without a flag, so
what comes after them may be issued first.

* `KeepsOrder`: the program order that fences and stores demand.
* `keepsOrder_of_heldBack`: the order, if what comes after a fence that is passed by is held back.
-/

namespace GpuHotSpot.Common.RobTimer

open Fallible

variable {κ : Type} {config : Config κ} {s s' : Timer κ}

/-! ## Program order -/

namespace DynamicMicroOp

def isFence (u : DynamicMicroOp) : Bool := u.microOp.serializing || u.microOp.membar

def isMemory (u : DynamicMicroOp) : Bool := u.isLoad || u.isStore

theorem isFence_of_kind {u u' : DynamicMicroOp} (same : u'.kind = u.kind) :
    u'.isFence = u.isFence := by
  rw [isFence, isFence, microOp_of_kind same]

theorem isMemory_of_kind {u u' : DynamicMicroOp} (same : u'.kind = u.kind) :
    u'.isMemory = u.isMemory := by
  rw [isMemory, isMemory, isLoad_of_kind same, isStore_of_kind same]

end DynamicMicroOp

/-- The micro-op was issued. -/
def InLog (issues : List Issue) (x : ℕ) : Prop := ∃ j ∈ issues, j.sequenceNumber = x

/-- What the order demands of the older micro-op `x` when `u` is issued at a time, after `issues`. -/
structure Demands (issues : List Issue) (time : ℕ) (u : DynamicMicroOp) (x : ℕ)
    (older : DynamicMicroOp) : Prop where
  serializing : older.microOp.serializing = true → InLog issues x
  membar : older.microOp.membar = true → u.isMemory = true → InLog issues x
  all : u.isFence = true ∨ u.isStore = true → InLog issues x
  completed : u.isFence = true → older.isStore = true →
    ∀ j ∈ issues, j.sequenceNumber = x → j.cycleDone ≤ time

/-- **Program order**: nothing is issued before an older serializing micro-op, no load or store before
an older barrier; a fence comes after all older micro-ops and when the older stores are complete, and a
store after all older micro-ops. -/
def KeepsOrder (s : Timer κ) : Prop :=
  ∀ before i after, s.issues = before ++ i :: after → ∀ u x older,
    s.entered[i.sequenceNumber]? = some u → x < i.sequenceNumber → s.entered[x]? = some older →
      Demands before i.time u x older

/-! ## The condition -/

/-- The entry at `d` is not issued in the rest of a walk that has passed by the fence at `p`. -/
def Stuck (s : Timer κ) (p d : ℕ) : Prop :=
  d ≤ p ∨ (s.rob.slot d).uop.isFence = true ∨ (s.rob.slot d).uop.isMemory = true

instance (s : Timer κ) (p d : ℕ) : Decidable (Stuck s p d) := inferInstanceAs (Decidable (_ ∨ _))

/-- The entry at `y` is not ready, and if it waits for others then not only for micro-ops without a
latency. -/
def Waits (s : Timer κ) (p y : ℕ) : Prop :=
  s.now < (s.rob.slot y).ready ∧ ((s.rob.slot y).uop.allDependencies ≠ [] →
    ∃ d ∈ (s.rob.slot y).uop.allDependencies,
      Stuck s p d ∨ (s.rob.slot d).uop.execLatency * s.period ≠ 0)

instance (s : Timer κ) (p y : ℕ) : Decidable (Waits s p y) := inferInstanceAs (Decidable (_ ∧ _))

/-- A younger micro-op of the window that is not issued. -/
def Behind (s : Timer κ) (p y : ℕ) : Prop :=
  p < y ∧ y < s.rob.first + s.numInRob ∧ ¬ s.rob.Issued y

instance (s : Timer κ) (p y : ℕ) : Decidable (Behind s p y) := inferInstanceAs (Decidable (_ ∧ _))

/-- **When a pass goes on past a fence that it did not issue**, everything after a serializing micro-op
is held back, and so are the loads and stores after a barrier, unless the flags are raised. -/
def HoldsBack (w w' : Walk κ) : Prop :=
  let p := w.timer.rob.first + w.i
  ¬ w'.timer.rob.Issued p → ∀ y, Behind w'.timer p y →
    ((w'.timer.rob.slot p).uop.microOp.serializing = true →
      w'.timer.now < (w'.timer.rob.slot y).ready) ∧
    ((w'.timer.rob.slot p).uop.microOp.membar = true →
      (w'.noMoreLoad && w'.noMoreStore) = false →
      (w'.timer.rob.slot y).uop.isMemory = true → Waits w'.timer p y)

/-- What is behind is in the window. -/
instance (s : Timer κ) (p : ℕ) (q : ℕ → Prop) [DecidablePred q] :
    Decidable (∀ y, Behind s p y → q y) :=
  decidable_of_iff (∀ y < s.rob.first + s.numInRob, Behind s p y → q y)
    ⟨fun all y behind => all y behind.2.1 behind, fun all y _ behind => all y behind⟩

instance (w w' : Walk κ) : Decidable (HoldsBack w w') :=
  inferInstanceAs (Decidable (¬ w'.timer.rob.Issued (w.timer.rob.first + w.i) →
    ∀ y, Behind w'.timer (w.timer.rob.first + w.i) y → (_ → _) ∧ (_ → _ → _ → _)))

/-- The walk of the event holds back what its fences demand. -/
def HeldBack (config : Config κ) (s : Timer κ) (e : Event) : Prop :=
  e = .execute → ¬ Starved config s → ∀ t nextDispatch component,
    doDispatch config s = .ok (t, nextDispatch, component) →
      LoopAlong HoldsBack (issueBody config) (t.numInRob + 1) (Walk.start config t)

instance (config : Config κ) (s : Timer κ) : ∀ e, Decidable (HeldBack config s e)
  | .execute => have : Decidable (∀ d, doDispatch config s = .ok d →
        LoopAlong HoldsBack (issueBody config) (d.1.numInRob + 1) (Walk.start config d.1)) :=
      decidableOk (doDispatch config s)
    decidable_of_iff (¬ Starved config s → ∀ d, doDispatch config s = .ok d →
        LoopAlong HoldsBack (issueBody config) (d.1.numInRob + 1) (Walk.start config d.1))
      ⟨fun held _ fed t event component dispatched => held fed (t, event, component) dispatched,
        fun held fed d dispatched => held rfl fed d.1 d.2.1 d.2.2 dispatched⟩
  | .simulate _ => .isTrue fun other => Event.noConfusion other
  | .synchronize _ => .isTrue fun other => Event.noConfusion other
  | .changePeriod _ => .isTrue fun other => Event.noConfusion other

/-! ## The log -/

/-- The order, and when the stores are complete. -/
structure Ordered (s : Timer κ) : Prop where
  order : KeepsOrder s
  stores : ∀ i ∈ s.issues, ∀ u, s.entered[i.sequenceNumber]? = some u → u.isStore = true →
    i.cycleDone ≤ s.lastStoreDone

theorem Ordered.of_append (ordered : Ordered s) (sound : Sound s) {ops : List DynamicMicroOp}
    (issues : s'.issues = s.issues) (entered : s'.entered = s.entered ++ ops)
    (last : s'.lastStoreDone = s.lastStoreDone) : Ordered s' := by
  have inside {i : Issue} (member : i ∈ s.issues) : i.sequenceNumber < s.entered.length := by
    have bound := sound.issued _ ((sound.log i.sequenceNumber).mpr ⟨i, member, rfl⟩)
    rw [sound.entered]
    exact lt_of_lt_of_le bound sound.window
  refine ⟨fun before i after split u x older own younger there => ?_,
    fun i member u own store => ?_⟩
  · rw [issues] at split
    have member : i ∈ s.issues := by rw [split]; exact List.mem_append_right _ List.mem_cons_self
    rw [entered, List.getElem?_append_left (inside member)] at own
    rw [entered, List.getElem?_append_left (younger.trans (inside member))] at there
    exact ordered.order before i after split u x older own younger there
  · rw [issues] at member
    rw [entered, List.getElem?_append_left (inside member)] at own
    rw [last]
    exact ordered.stores i member u own store

theorem Ordered.enter (ordered : Ordered s) (sound : Sound s) {op u v : DynamicMicroOp} {q : Rob}
    {e : RobEntry} (entering : Entering config op s s' u v q e) : Ordered s' := by
  have issues : s'.issues = s.issues := by rw [entering.timer]
  have entered : s'.entered = s.entered ++ [op] := by rw [entering.timer]
  have last : s'.lastStoreDone = s.lastStoreDone := by rw [entering.timer]
  exact ordered.of_append sound issues entered last

/-- What happens beside the issue stage does not matter. -/
theorem Beside.ordered (move : Beside config s s') (sound : Sound s) (ordered : Ordered s) :
    Ordered s' := by
  cases move with
  | dispatch inWindow room inQueue => exact ordered.of_append sound rfl (List.append_nil _).symm rfl
  | commit some done => exact ordered.of_append sound rfl (List.append_nil _).symm rfl
  | control clock same =>
    rw [same]
    exact ordered.of_append sound rfl (List.append_nil _).symm rfl

/-! ## Held back -/

/-- What stays true of an entry that waits, while the walk goes on. -/
def Held (s : Timer κ) (p y : ℕ) : Prop :=
  s.now < (s.rob.slot y).readyMax ∨
    (s.rob.slot y).uop.allDependencies = [] ∧ s.now < (s.rob.slot y).ready ∨
    ∃ d ∈ (s.rob.slot y).uop.allDependencies,
      Stuck s p d ∨ (s.rob.slot d).uop.execLatency * s.period ≠ 0

theorem Waits.held {p y : ℕ} (waits : Waits s p y) : Held s p y := by
  by_cases none : (s.rob.slot y).uop.allDependencies = []
  · exact .inr (.inl ⟨none, waits.1⟩)
  · exact .inr (.inr (waits.2 none))

theorem Held.not_ready (sound : Sound s) {p y : ℕ} (unissued : ¬ s.rob.Issued y)
    (held : Held s p y) : s.now < (s.rob.slot y).ready := by
  rcases held with later | ⟨-, later⟩ | ⟨d, member, -⟩
  · exact lt_of_lt_of_le later (sound.readyMax y)
  · exact later
  · rw [sound.waiting y unissued (List.ne_nil_of_mem member)]
    exact WithTop.coe_lt_top _

section Issue

variable {p q y : ℕ} {u : DynamicMicroOp} {i : Issue}

theorem Stuck.issue (inQueue : q < s.rob.entries.length) (issuing : Issuing config q s s' u i) {d : ℕ}
    (stuck : Stuck s p d) : Stuck s' p d := by
  rw [Stuck, DynamicMicroOp.isFence_of_kind (issuing.kind inQueue d),
    DynamicMicroOp.isMemory_of_kind (issuing.kind inQueue d)]
  exact stuck

/-- An issue of a micro-op that is neither a fence nor a load or store leaves the others waiting. -/
theorem Held.issue (sound : Sound s) (high : q < s.rob.first + s.numInRob)
    (waiting : ¬ s.rob.Issued q) (ready : (s.rob.slot q).ready ≤ s.now) (free : ¬ Stuck s p q)
    (issuing : Issuing config q s s' u i) (other : y ≠ q) (held : Held s p y) : Held s' p y := by
  have inQueue : q < s.rob.entries.length := lt_of_lt_of_le high sound.window
  have woken := issuing.woken_of_ne other
  have now : s'.now = s.now := by rw [issuing.timer]
  have period : s'.period = s.period := by rw [issuing.timer]
  have count := sound.count q waiting y
  have latency {d : ℕ} (another : d ≠ q) :
      (s'.rob.slot d).uop.execLatency = (s.rob.slot d).uop.execLatency :=
    DynamicMicroOp.execLatency_of_bare (issuing.woken_of_ne another).bare
  have slow {d : ℕ} (another : d ≠ q)
      (slow : Stuck s p d ∨ (s.rob.slot d).uop.execLatency * s.period ≠ 0) :
      Stuck s' p d ∨ (s'.rob.slot d).uop.execLatency * s'.period ≠ 0 := by
    rw [latency another, period]
    exact slow.imp_left (Stuck.issue inQueue issuing)
  rw [Held, now]
  by_cases never : (s.rob.slot q).dependants.count y = 0
  · rw [woken.unchanged never]
    rcases held with later | done | ⟨d, member, wait⟩
    · exact .inl later
    · exact .inr (.inl done)
    · have another : d ≠ q := by
        rintro rfl
        exact absurd (List.count_pos_iff.mpr member) (by omega)
      exact .inr (.inr ⟨d, member, slow another wait⟩)
  · rw [woken.readyMax never]
    have there : q ∈ (s.rob.slot y).uop.allDependencies := List.count_pos_iff.mp (by omega)
    rcases held with later | ⟨none, -⟩ | ⟨d, member, wait⟩
    · exact .inl (later.trans_le (le_max_left _ _))
    · rw [none] at there
      cases there
    · by_cases same : d = q
      · subst same
        have takes := wait.resolve_left free
        have plain : (s.rob.slot d).uop.isMemory = false :=
          Bool.not_eq_true _ ▸ (not_or.mp (not_or.mp free).2).2
        rw [DynamicMicroOp.isMemory] at plain
        have same : u = (s.rob.slot d).uop := by
          rw [issuing.access, accessMemory, plain]
          rfl
        have depend : i.cycleDepend = s.now + (s.rob.slot d).uop.execLatency * s.period := by
          rw [issuing.issue, issueTimes, same, if_neg]
          rw [(Bool.or_eq_false_iff.mp plain).2]
          exact Bool.false_ne_true
        refine .inl (lt_of_lt_of_le (WithTop.coe_lt_coe.mpr ?_) (le_max_right _ _))
        rw [depend]
        exact Nat.lt_add_of_pos_right (Nat.pos_of_ne_zero takes)
      · refine .inr (.inr ⟨d, ?_, slow same wait⟩)
        have perm := issuing.dependencies_perm sound inQueue waiting ready y
        rcases List.mem_append.mp (perm.mem_iff.mp member) with removed | left
        · exact absurd (List.eq_of_mem_replicate removed) same
        · exact left

end Issue

/-! ## The walk -/

/-- What the walk keeps. -/
structure OrderedWalk (w : Walk κ) : Prop where
  sound : Sound w.timer
  ordered : Ordered w.timer
  head : w.headOfQueue = true → ∀ x < w.timer.rob.first + w.i, w.timer.rob.Issued x
  serializing : ∀ p < w.timer.rob.first + w.i, ¬ w.timer.rob.Issued p →
    (w.timer.rob.slot p).uop.microOp.serializing = true → ∀ y, w.timer.rob.first + w.i ≤ y →
    y < w.timer.rob.first + w.timer.numInRob → ¬ w.timer.rob.Issued y →
    w.timer.now < (w.timer.rob.slot y).ready
  membar : ∀ p < w.timer.rob.first + w.i, ¬ w.timer.rob.Issued p →
    (w.timer.rob.slot p).uop.microOp.membar = true → (w.noMoreLoad && w.noMoreStore) = false →
    ∀ y, w.timer.rob.first + w.i ≤ y → y < w.timer.rob.first + w.timer.numInRob →
    ¬ w.timer.rob.Issued y → (w.timer.rob.slot y).uop.isMemory = true → Held w.timer p y

/-- How a pass of the walk ends. -/
abbrev PassesOrdered (w : Walk κ) : Pass (Walk κ) → Prop :=
  Passes (fun w' => HoldsBack w w' → OrderedWalk w') fun w' => Sound w'.timer ∧ Ordered w'.timer

theorem OrderedWalk.start (sound : Sound s) (ordered : Ordered s) :
    OrderedWalk (Walk.start config s) where
  sound := sound.contention _
  ordered := ordered.of_append sound rfl (List.append_nil _).symm rfl
  head := fun _ x before => sound.committed x before
  serializing := fun p before unissued => absurd (sound.committed p before) unissued
  membar := fun p before unissued => absurd (sound.committed p before) unissued

/-- The ports do not matter. -/
theorem OrderedWalk.contention {w : Walk κ} (walk : OrderedWalk w) (contention : κ) :
    OrderedWalk { w with timer := { w.timer with contention := contention } } where
  sound := walk.sound.contention _
  ordered := walk.ordered.of_append walk.sound rfl (List.append_nil _).symm rfl
  head := walk.head
  serializing := walk.serializing
  membar := walk.membar

/-- An issued entry is passed by. -/
theorem OrderedWalk.skip {w w' : Walk κ} (walk : OrderedWalk w) (timer : w'.timer = w.timer)
    (place : w'.i = w.i + 1) (head : w'.headOfQueue = w.headOfQueue)
    (load : w'.noMoreLoad = w.noMoreLoad) (store : w'.noMoreStore = w.noMoreStore)
    (issued : w.timer.rob.Issued (w.timer.rob.first + w.i)) : OrderedWalk w' := by
  have earlier {p : ℕ} (before : p < w.timer.rob.first + (w.i + 1))
      (unissued : ¬ w.timer.rob.Issued p) : p < w.timer.rob.first + w.i := by
    rcases Nat.lt_succ_iff_lt_or_eq.mp before with earlier | rfl
    · exact earlier
    · exact absurd issued unissued
  refine ⟨timer ▸ walk.sound, timer ▸ walk.ordered, ?_, ?_, ?_⟩
  · rw [timer, place, head]
    intro atHead x before
    by_contra unissued
    exact unissued (walk.head atHead x (earlier before unissued))
  · rw [timer, place]
    intro p before unissued serializing y after
    exact walk.serializing p (earlier before unissued) unissued serializing y (by omega)
  · rw [timer, place, load, store]
    intro p before unissued membar flags y after
    exact walk.membar p (earlier before unissued) unissued membar flags y (by omega)

/-- An entry is passed by without being issued. -/
theorem OrderedWalk.passBy {w w' : Walk κ} (walk : OrderedWalk w) (timer : w'.timer = w.timer)
    (place : w'.i = w.i + 1) (head : w'.headOfQueue = false)
    (flags : (w'.noMoreLoad && w'.noMoreStore) = false → (w.noMoreLoad && w.noMoreStore) = false)
    (unissued : ¬ w.timer.rob.Issued (w.timer.rob.first + w.i)) (held : HoldsBack w w') :
    OrderedWalk w' := by
  rw [HoldsBack, timer] at held
  have held := held unissued
  have earlier {p : ℕ} (before : p < w.timer.rob.first + (w.i + 1)) :
      p < w.timer.rob.first + w.i ∨ p = w.timer.rob.first + w.i :=
    Nat.lt_succ_iff_lt_or_eq.mp before
  refine ⟨timer ▸ walk.sound, timer ▸ walk.ordered, ?_, ?_, ?_⟩
  · rw [head]
    intro atHead
    cases atHead
  · rw [timer, place]
    intro p before waiting serializing y after inWindow behind
    rcases earlier before with older | rfl
    · exact walk.serializing p older waiting serializing y (by omega) inWindow behind
    · exact (held y ⟨by omega, inWindow, behind⟩).1 serializing
  · rw [timer, place]
    intro p before waiting membar lowered y after inWindow behind memory
    rcases earlier before with older | rfl
    · exact walk.membar p older waiting membar (flags lowered) y (by omega) inWindow behind memory
    · exact ((held y ⟨by omega, inWindow, behind⟩).2 membar lowered memory).held

theorem endOfPass_cases {w : Walk κ} {post : Pass (Walk κ) → Prop} (stop : post (.stop w))
    (next : post (.next { w with i := w.i + 1 })) : post (endOfPass config w) := by
  rw [endOfPass]
  split_ifs
  · exact stop
  · exact next

theorem OrderedWalk.leave {w v : Walk κ} (walk : OrderedWalk w) {e : RobEntry}
    (timer : v.timer = w.timer) (place : v.i = w.i)
    (flags : (v.noMoreLoad && v.noMoreStore) = false → (w.noMoreLoad && w.noMoreStore) = false)
    (unissued : ¬ w.timer.rob.Issued (w.timer.rob.first + w.i)) :
    PassesOrdered w (leave config v e) := by
  have stop : Sound v.timer ∧ Ordered v.timer := timer ▸ ⟨walk.sound, walk.ordered⟩
  rw [RobTimer.leave]
  split_ifs
  · exact stop
  · refine endOfPass_cases stop fun held => ?_
    exact walk.passBy timer (congrArg (· + 1) place) rfl flags unissued held

/-- What the verdict says of a micro-op that can be issued. -/
theorem canIssue_spec {w : Walk κ} {e : RobEntry} (said : verdict config w e = .canIssue) :
    e.ready ≤ w.timer.now ∧ (e.uop.isMemory = true → (w.noMoreLoad && w.noMoreStore) = false) ∧
      (e.uop.isFence = true → w.headOfQueue = true ∧ w.timer.lastStoreDone ≤ w.timer.now) ∧
      (e.uop.isStore = true → w.headOfQueue = true) := by
  refine ⟨ready_of_canIssue said, ?_⟩
  rw [verdict] at said
  split_ifs at said with late flags serializing first membar first ports loads unresolved stores
  all_goals
    have memory : e.uop.isMemory = true → (w.noMoreLoad && w.noMoreStore) = false := by
      rw [DynamicMicroOp.isMemory]
      intro memory
      cases load : w.noMoreLoad with
      | false => rfl
      | true =>
        cases store : w.noMoreStore with
        | false => rfl
        | true =>
          rw [load, store, Bool.true_and, Bool.true_and] at flags
          exact absurd memory flags
  · rw [Bool.and_eq_true, decide_eq_true_eq] at first
    exact ⟨memory, fun _ => first, fun _ => first.1⟩
  · rw [Bool.and_eq_true, decide_eq_true_eq] at first
    exact ⟨memory, fun _ => first, fun _ => first.1⟩
  · refine ⟨memory, fun fence => ?_, fun store => ?_⟩
    · rw [DynamicMicroOp.isFence, Bool.or_eq_true] at fence
      exact absurd fence (not_or.mpr ⟨serializing, membar⟩)
    · rw [store, Bool.true_and, Bool.or_eq_true, not_or] at stores
      simpa using stores.1

section Issue

variable {w : Walk κ} {t : Timer κ} {u : DynamicMicroOp} {i : Issue}

/-- **The issue of an entry is in order.** -/
theorem OrderedWalk.ordered_issue (walk : OrderedWalk w) (inWindow : w.i < w.timer.numInRob)
    (said : verdict config w (w.timer.rob.slot (w.timer.rob.first + w.i)) = .canIssue)
    (unissued : ¬ w.timer.rob.Issued (w.timer.rob.first + w.i))
    (issuing : Issuing config (w.timer.rob.first + w.i) w.timer t u i) : Ordered t := by
  obtain ⟨ready, memory, fence, store⟩ := canIssue_spec said
  have sound := walk.sound
  have inQueue : w.timer.rob.first + w.i < w.timer.rob.entries.length :=
    lt_of_lt_of_le (Nat.add_lt_add_left inWindow _) sound.window
  have own := issuing.sequenceNumber sound.numbered inQueue
  have issues : t.issues = w.timer.issues ++ [i] := by rw [issuing.timer]
  have entered : t.entered = w.timer.entered := by rw [issuing.timer]
  have time : i.time = w.timer.now := by rw [issuing.issue]; rfl
  have last : t.lastStoreDone =
      if u.isStore then max w.timer.lastStoreDone i.cycleDone else w.timer.lastStoreDone := by
    rw [issuing.timer]
  have later : w.timer.lastStoreDone ≤ t.lastStoreDone := by
    rw [last]
    split_ifs
    · exact le_max_left _ _
    · exact le_rfl
  refine ⟨fun before j after split u' x older ownOp younger olderOp => ?_,
    fun j member u' found isStore => ?_⟩
  · rw [issues] at split
    rw [entered] at ownOp olderOp
    rcases List.eq_nil_or_concat after with rfl | ⟨rest, l, rfl⟩
    · obtain ⟨rfl, same⟩ := List.append_inj' split rfl
      obtain rfl := List.singleton_inj.mp same
      rw [own] at ownOp younger
      have mine := sound.microOp ownOp
      have his := sound.microOp olderOp
      have inLog : InLog w.timer.issues x ↔ w.timer.rob.Issued x := (sound.log x).symm
      refine ⟨fun serializing => ?_, fun membar isMemory => ?_, fun needs => ?_,
        fun isFence isStore j member same => ?_⟩
      · rw [inLog]
        by_contra waiting
        exact absurd (walk.serializing x younger waiting (his ▸ serializing) _ le_rfl
          (Nat.add_lt_add_left inWindow _) unissued) (not_lt.mpr ready)
      · rw [inLog]
        by_contra waiting
        rw [DynamicMicroOp.isMemory, DynamicMicroOp.isLoad, DynamicMicroOp.isStore, ← mine] at isMemory
        have held := walk.membar x younger waiting (his ▸ membar) (memory isMemory) _ le_rfl
          (Nat.add_lt_add_left inWindow _) unissued isMemory
        exact absurd (held.not_ready sound unissued) (not_lt.mpr ready)
      · rw [inLog]
        refine walk.head ?_ x younger
        rcases needs with isFence | isStore
        · rw [DynamicMicroOp.isFence, ← mine] at isFence
          exact (fence isFence).1
        · rw [DynamicMicroOp.isStore, ← mine] at isStore
          exact store isStore
      · rw [DynamicMicroOp.isFence, ← mine] at isFence
        rw [time]
        exact (walk.ordered.stores j member older (same ▸ olderOp) isStore).trans (fence isFence).2
    · rw [List.concat_eq_append, ← List.cons_append, ← List.append_assoc] at split
      obtain ⟨same, -⟩ := List.append_inj' split rfl
      exact walk.ordered.order before j rest same u' x older ownOp younger olderOp
  · rw [issues] at member
    rw [entered] at found
    rcases List.mem_append.mp member with before | new
    · exact (walk.ordered.stores j before u' found isStore).trans later
    · obtain rfl := List.mem_singleton.mp new
      rw [own] at found
      have storing : u.isStore = true := by
        rw [DynamicMicroOp.isStore_of_kind issuing.kind_access, DynamicMicroOp.isStore,
          sound.microOp found]
        exact isStore
      rw [last, if_pos storing]
      exact le_max_right _ _

/-- The walk goes on after an issue. -/
theorem OrderedWalk.issue (walk : OrderedWalk w) (inWindow : w.i < w.timer.numInRob)
    (said : verdict config w (w.timer.rob.slot (w.timer.rob.first + w.i)) = .canIssue)
    (unissued : ¬ w.timer.rob.Issued (w.timer.rob.first + w.i))
    (issuing : Issuing config (w.timer.rob.first + w.i) w.timer t u i) {w' : Walk κ}
    (timer : w'.timer = t) (place : w'.i = w.i + 1) (head : w'.headOfQueue = w.headOfQueue)
    (load : w'.noMoreLoad = w.noMoreLoad) (store : w'.noMoreStore = w.noMoreStore) :
    OrderedWalk w' := by
  have spec := canIssue_spec said
  have sound := walk.sound
  have high : w.timer.rob.first + w.i < w.timer.rob.first + w.timer.numInRob :=
    Nat.add_lt_add_left inWindow _
  have inQueue := lt_of_lt_of_le high sound.window
  have first : t.rob.first = w.timer.rob.first := issuing.first
  have number : t.numInRob = w.timer.numInRob := by rw [issuing.timer]
  have now : t.now = w.timer.now := by rw [issuing.timer]
  have issued := issuing.issued_iff inQueue
  have older {x : ℕ} (before : x < w.timer.rob.first + (w.i + 1)) (waiting : ¬ t.rob.Issued x) :
      x < w.timer.rob.first + w.i ∧ ¬ w.timer.rob.Issued x := by
    rw [issued, not_or] at waiting
    exact ⟨lt_of_le_of_ne (Nat.lt_succ_iff.mp before) waiting.2, waiting.1⟩
  refine ⟨timer ▸ sound.issue high unissued spec.1 issuing,
    timer ▸ walk.ordered_issue inWindow said unissued issuing, ?_, ?_, ?_⟩
  · rw [timer, place, head, first]
    intro atHead x before
    by_contra waiting
    have old := older before waiting
    exact old.2 (walk.head atHead x old.1)
  · rw [timer, place, first]
    intro p before waiting serializing
    have old := older before waiting
    rw [DynamicMicroOp.microOp_of_kind (issuing.kind inQueue p)] at serializing
    exact absurd (walk.serializing p old.1 old.2 serializing _ le_rfl high unissued)
      (not_lt.mpr spec.1)
  · rw [timer, place, load, store, first, number]
    intro p before waiting membar lowered y after inside behind memory
    have old := older before waiting
    rw [DynamicMicroOp.microOp_of_kind (issuing.kind inQueue p)] at membar
    rw [DynamicMicroOp.isMemory_of_kind (issuing.kind inQueue y)] at memory
    rw [issued, not_or] at behind
    have free : ¬ Stuck w.timer p (w.timer.rob.first + w.i) := by
      rintro (before | isFence | isMemory)
      · exact absurd old.1 (not_lt.mpr before)
      · exact old.2 (walk.head (spec.2.2.1 isFence).1 p old.1)
      · have held := walk.membar p old.1 old.2 membar lowered _ le_rfl high unissued isMemory
        exact absurd (held.not_ready sound unissued) (not_lt.mpr spec.1)
    exact (walk.membar p old.1 old.2 membar lowered y (by omega) inside behind.1 memory).issue sound
      high unissued spec.1 free issuing behind.2

end Issue

/-- **A pass of the walk.** -/
theorem OrderedWalk.pass {w : Walk κ} (walk : OrderedWalk w) :
    Ensures (PassesOrdered w) (fun _ => True) (issueBody config w) := by
  rw [issueBody]
  split_ifs with inWindow
  · by_cases inside : w.i < w.timer.rob.size
    · rw [Rob.pointerAt_ok.2 ⟨inside, rfl⟩, ok_bind]
      dsimp only
      split_ifs with issued
      · exact fun _ => walk.skip rfl rfl rfl rfl rfl issued
      · refine issueEntry_cases (fun _ => ⟨walk.sound, walk.ordered⟩) (fun _ => ?_) (fun _ => ?_)
          (fun _ _ => ?_) (fun _ _ _ _ => trivial) (fun _ _ _ _ _ _ => trivial)
          (fun said _ t event ran => ?_)
        · exact walk.leave rfl rfl id issued
        · exact walk.leave rfl rfl (fun lowered => Bool.noConfusion (show true = false from lowered)) issued
        · rw [tryIssue_timer]
          have port := walk.contention
            (tryIssue config (w.timer.rob.slot (w.timer.rob.first + w.i)).uop w.timer).2.contention
          exact port.leave rfl rfl id issued
        · rw [tryIssue_timer] at ran
          have port := walk.contention
            (tryIssue config (w.timer.rob.slot (w.timer.rob.first + w.i)).uop w.timer).2.contention
          have size : w.timer.rob.size = w.timer.rob.entries.length - w.timer.rob.first := rfl
          obtain ⟨u, i, issuing, -⟩ :=
            issueInstruction_spec port.sound.numbered (Nat.le_add_right _ _) (by dsimp only; omega) ran
          have after : OrderedWalk { w.look (w.timer.rob.first + w.i) with
              timer := t, nextEvent := event, numIssued := w.numIssued + 1, i := w.i + 1 } :=
            port.issue inWindow said issued issuing rfl rfl rfl rfl rfl
          exact endOfPass_cases ⟨after.sound, after.ordered⟩ fun _ => after
    · have error : w.timer.rob.pointerAt w.i = .error .outsideQueue := if_neg inside
      rw [error]
      trivial
  · exact ⟨walk.sound, walk.ordered⟩

/-- The round of the issue stage. -/
theorem doIssue_ordered (sound : Sound s) (ordered : Ordered s)
    (along : LoopAlong HoldsBack (issueBody config) (s.numInRob + 1) (Walk.start config s)) :
    Ensures (fun r => Sound r.1 ∧ Ordered r.1) (fun _ => True) (doIssue config s) := by
  have walked := LoopAlong.ensures (fun w walk => OrderedWalk.pass walk)
    (fun w walk => ⟨walk.sound, walk.ordered⟩) along (OrderedWalk.start sound ordered)
  exact walked.bind fun w both => both

theorem ordered_start (config : Config κ) (period : ℕ) : Ordered (Timer.start config period) where
  order := fun before i after split => by cases before <;> cases split
  stores := fun i member => by cases member

/-- **When the order is kept**: in every run whose walks hold back what comes after a fence that they
pass by. -/
theorem keepsOrder_of_heldBack (config : Config κ) (period : ℕ) (es : List Event) (s : Timer κ)
    (ran : runEvents (step config) es (Timer.start config period) = .ok s)
    (along : Along (HeldBack config) (step config) es (Timer.start config period)) : KeepsOrder s := by
  have run : Ensures (fun s => Sound s ∧ Ordered s) (fun _ => True)
      (runEvents (step config) es (Timer.start config period)) :=
    along.ensures_runEvents
      (fun e s held both => step_ensures
        (fun insts _ bare sound ordered => enterAll_inv bare
          (fun t t' op u v q e _ sound entering ordered => ordered.enter sound entering) sound ordered)
        (fun t t' sound move ordered => move.ordered sound ordered)
        (fun t nextDispatch component isExecute starved dispatched sound ordered =>
          doIssue_ordered sound ordered (held isExecute starved t nextDispatch component dispatched))
        (fun time _ ordered => ordered.of_append both.1 rfl (List.append_nil _).symm rfl)
        both.1 both.2)
      ⟨sound_start config period, ordered_start config period⟩
  exact (run.of_ok ran).2.order

/-! ## A fence that is not ready -/

/-- A serializing micro-op waits for a slow one, and the micro-ops after it do not. -/
def fenceEvents : List Event :=
  .simulate [plainMicroOp [] [1] 20 false, plainMicroOp [1] [] 1 true, plainMicroOp [] [] 1 false,
    plainMicroOp [] [] 1 false, plainMicroOp [] [] 1 false] :: List.replicate 4 .execute

/-- The third micro-op is issued before the serializing one. -/
theorem fence_passedBy : ∃ s, runEvents (step narrowConfig) fenceEvents (Timer.start narrowConfig 1) =
    .ok s ∧ ¬ KeepsOrder s := by
  obtain ⟨s, ran, issues, entered⟩ : ∃ s, runEvents (step narrowConfig) fenceEvents
      (Timer.start narrowConfig 1) = .ok s ∧ s.issues = [⟨0, 1, 21, 22⟩] ++ ⟨2, 3, 4, 5⟩ :: [] ∧
        s.entered = [plainMicroOp [] [1] 20 false, plainMicroOp [1] [] 1 true,
          plainMicroOp [] [] 1 false, plainMicroOp [] [] 1 false, plainMicroOp [] [] 1 false] :=
    ⟨_, rfl, by decide, rfl⟩
  refine ⟨s, ran, fun order => ?_⟩
  have demands := order _ _ _ issues (plainMicroOp [] [] 1 false) 1 (plainMicroOp [1] [] 1 true)
    (by rw [entered]; rfl) (by decide) (by rw [entered]; rfl)
  obtain ⟨j, member, same⟩ := demands.serializing rfl
  rw [List.mem_singleton.mp member] at same
  exact absurd same (by decide)

/-- A serializing micro-op waits for one that takes two cycles, and what comes after it is dispatched
too late to be ready before it. -/
def heldEvents : List Event :=
  .simulate (plainMicroOp [] [1] 2 false :: plainMicroOp [1] [] 1 true ::
    List.replicate 6 (plainMicroOp [] [] 1 false)) :: List.replicate 5 .execute

/-- The serializing micro-op is passed by at 2, issued at 3, and followed at 4. -/
theorem keepsOrder_of_fence : ∃ s, runEvents (step narrowConfig) heldEvents
      (Timer.start narrowConfig 1) = .ok s ∧
    s.issues = [⟨0, 1, 3, 4⟩, ⟨1, 3, 4, 5⟩, ⟨2, 4, 5, 6⟩] ∧ KeepsOrder s := by
  obtain ⟨s, ran, issues⟩ : ∃ s, runEvents (step narrowConfig) heldEvents
      (Timer.start narrowConfig 1) = .ok s ∧
        s.issues = [⟨0, 1, 3, 4⟩, ⟨1, 3, 4, 5⟩, ⟨2, 4, 5, 6⟩] := ⟨_, rfl, by decide⟩
  exact ⟨s, ran, issues, keepsOrder_of_heldBack narrowConfig 1 heldEvents s ran (by decide +kernel)⟩

end GpuHotSpot.Common.RobTimer
