import Mathlib
import GpuHotSpot.Common.FrontEndHistory

/-!
# Stalls for misses of the instruction cache

`doDispatch` of `rob_timer.cc` and `tryDispatch` of `rob_smt_timer.cc` take the flag of a miss down
before it is known whether there is a reservation station for the micro-op, so that without one the
micro-op stalls the front end again.

* `Refuses`, `SmtRefuses`: a micro-op whose stall is over finds no reservation station.
* `step_charged`, `smtStep_charges`: what an event keeps that refuses no such micro-op.
* `stallsOnce`: then each miss stalls the front end once, after every run.
-/

namespace GpuHotSpot.Common.ICacheStalls

open Fallible RobTimer
open RobSmtTimer (Record)

/-! ## The stages -/

variable {κ : Type} {config : RobTimer.Config κ} {s s' : RobTimer.Timer κ} {log : List Record}

def FrontEnd.ofTimer (s : RobTimer.Timer κ) : FrontEnd where
  rob := s.rob
  numInRob := s.numInRob
  nextSequenceNumber := s.nextSequenceNumber
  frontendStalledUntil := s.frontendStalledUntil
  inIcacheMiss := s.inIcacheMiss
  entered := s.entered

/-- **A micro-op is issued**; if it is the branch that the front end waits for, the front end goes on. -/
theorem Charged.issue (charged : Charged (.ofTimer s) log) {p : ℕ} {u : DynamicMicroOp} {i : Issue}
    (high : p < s.rob.first + s.numInRob) (waiting : ¬ s.rob.Issued p)
    (issuing : Issuing config p s s' u i) : Charged (.ofTimer s') log := by
  have inQueue : p < s.rob.entries.length := lt_of_lt_of_le high charged.window
  have first := issuing.first
  have length := issuing.length
  have issued := issuing.issued_iff inQueue
  have number : s'.numInRob = s.numInRob := by rw [issuing.timer]
  have next : s'.nextSequenceNumber = s.nextSequenceNumber := by rw [issuing.timer]
  have entered : (FrontEnd.ofTimer s').entered = (FrontEnd.ofTimer s).entered := by
    show s'.entered = s.entered
    rw [issuing.timer]
  have flag : s'.inIcacheMiss = s.inIcacheMiss := by rw [issuing.timer]
  have until_ : s'.frontendStalledUntil = if u.microOp.branch && u.branchMispredicted then
      (resumeTime config s.now s.period : Time) else s.frontendStalledUntil := by
    rw [issuing.timer]
  have dispatched : (FrontEnd.ofTimer s').dispatched = (FrontEnd.ofTimer s).dispatched := by
    show s'.rob.first + s'.numInRob = s.rob.first + s.numInRob
    rw [first, number]
  have branch := mispredicted_of_kind issuing.kind_access
  have unresolved (r : ℕ) (now : (FrontEnd.ofTimer s').Unresolved r) :
      r ≠ p ∧ (FrontEnd.ofTimer s).Unresolved r := by
    obtain ⟨inside, waits, wrong⟩ := now
    rw [dispatched] at inside
    have unissued : ¬ (s.rob.Issued r ∨ r = p) := fun was => waits ((issued r).2 was)
    refine ⟨fun same => unissued (.inr same), inside, fun was => unissued (.inl was), ?_⟩
    exact (mispredicted_of_kind (issuing.kind inQueue r)).symm.trans wrong
  have stalled : (FrontEnd.ofTimer s').stalled = (FrontEnd.ofTimer s).stalled ∧
      ∀ r, (FrontEnd.ofTimer s').Unresolved r → s'.frontendStalledUntil = ⊤ := by
    by_cases wrong : (u.microOp.branch && u.branchMispredicted) = true
    · have own : (FrontEnd.ofTimer s).Unresolved p := ⟨high, waiting, branch.symm.trans wrong⟩
      have unpaid : s.inIcacheMiss = false := by
        cases flag : s.inIcacheMiss with
        | false => rfl
        | true =>
          have history := charged.history
          rw [FrontEnd.stalled, show (FrontEnd.ofTimer s).inIcacheMiss = true from flag,
            charged.branches p own] at history
          obtain ⟨op, earlier, start, period, -, -, top, -, -⟩ := history.stalling
          exact absurd top WithTop.top_ne_coe
      constructor
      · rw [FrontEnd.stalled, FrontEnd.stalled,
          show (FrontEnd.ofTimer s').inIcacheMiss = false from flag.trans unpaid,
          show (FrontEnd.ofTimer s).inIcacheMiss = false from unpaid]
        rfl
      · intro r now
        exact absurd (charged.only r p (unresolved r now).2 own) (unresolved r now).1
    · rw [if_neg wrong] at until_
      constructor
      · show (if s'.inIcacheMiss then some s'.frontendStalledUntil else none) =
          if s.inIcacheMiss then some s.frontendStalledUntil else none
        rw [flag, until_]
      · intro r now
        exact until_.trans (charged.branches r (unresolved r now).2)
  exact {
    window := by
      rw [dispatched]
      exact charged.window.trans (le_of_eq length.symm)
    next := next.trans (charged.next.trans length.symm)
    entered := (congrArg List.length entered).trans (charged.entered.trans length.symm)
    kind := fun r op found => by
      refine (issuing.kind inQueue r).trans (charged.kind r op ?_)
      rw [← entered]
      exact found
    issued := fun r was => by
      rw [dispatched]
      rcases (issued r).1 was with before | rfl
      · exact charged.issued r before
      · exact high
    history := by
      rw [dispatched, stalled.1, entered]
      exact charged.history
    branches := stalled.2
    only := fun q r nowQ nowR => charged.only q r (unresolved q nowQ).2 (unresolved r nowR).2 }

/-- A pass of the walk is at most one issue. -/
theorem issueBody_charged {w : Walk κ} (charged : Charged (.ofTimer w.timer) log) :
    Ensures (fun b => Charged (.ofTimer b.value.timer) log) (fun _ => True) (issueBody config w) := by
  rw [issueBody]
  split_ifs with window
  · by_cases inside : w.i < w.timer.rob.size
    · rw [Rob.pointerAt_ok.2 ⟨inside, rfl⟩, ok_bind]
      dsimp only
      split_ifs with issued
      · exact charged
      · have port (u : DynamicMicroOp) :
            Charged (.ofTimer (RobTimer.tryIssue config u w.timer).2) log := by
          rw [tryIssue_timer]
          exact charged
        have number (u : DynamicMicroOp) :
            (RobTimer.tryIssue config u w.timer).2.numInRob = w.timer.numInRob := by
          rw [tryIssue_timer]
        have rob (u : DynamicMicroOp) : (RobTimer.tryIssue config u w.timer).2.rob = w.timer.rob := by
          rw [tryIssue_timer]
        have size : w.timer.rob.size = w.timer.rob.entries.length - w.timer.rob.first := rfl
        refine issueEntry_cases (fun _ => charged) (fun _ => ?_) (fun _ => ?_) (fun _ _ => ?_)
          (fun _ _ _ _ => trivial) (fun _ _ _ _ _ _ => trivial) (fun _ _ t event ran => ?_)
        · rw [leave_timer]
          exact charged
        · rw [leave_timer]
          exact charged
        · rw [leave_timer]
          exact port _
        · rw [endOfPass_timer]
          obtain ⟨u, i, issuing, -⟩ := issueInstruction_spec (port _).numbered
            (by rw [rob]; omega) (by rw [rob]; omega) ran
          refine (port _).issue (by rw [rob, number]; omega) ?_ issuing
          rw [rob]
          exact issued
    · have error : w.timer.rob.pointerAt w.i = .error .outsideQueue := if_neg inside
      rw [error]
      trivial
  · exact charged

theorem commitBody_charged {c : Committing κ} (charged : Charged (.ofTimer c.timer) log) :
    Ensures (fun b => Charged (.ofTimer b.value.timer) log) (fun _ => True)
      (commitBody config c) := by
  have commit (done : (c.timer.rob.slot c.timer.rob.first).done ≤ c.timer.now) :
      Charged (.ofTimer c.timer.commit) log := by
    refine charged.commit fun top => ?_
    rw [show (c.timer.rob.slot c.timer.rob.first).done = ⊤ from top, top_le_iff] at done
    exact WithTop.coe_ne_top done
  rw [commitBody]
  dsimp only
  split_ifs with stop skip enough
  · exact charged
  · trivial
  all_goals exact commit (not_not.1 (not_or.1 stop).2)

theorem Charged.dispatchTimer (charged : Charged (.ofTimer s) log)
    (ready : s.frontendStalledUntil ≤ s.now) (inQueue : s.numInRob < s.rob.size) (paid : s.Paid)
    {q : Rob} (alike : Alike s.rob q)
    (same : FrontEnd.ofTimer s' = { FrontEnd.ofTimer s with
      rob := q
      numInRob := s.numInRob + 1
      inIcacheMiss := false
      frontendStalledUntil := if s.nextToDispatch.uop.microOp.branch &&
        s.nextToDispatch.uop.branchMispredicted then ⊤ else s.frontendStalledUntil }) :
    Charged (.ofTimer s') (log ++ [.dispatch s.nextToDispatch.uop.sequenceNumber s.now]) := by
  have size : s.rob.size = s.rob.entries.length - s.rob.first := rfl
  have inside : s.rob.first + s.numInRob < s.rob.entries.length := by omega
  rw [same]
  exact (charged.dispatch ready inside paid rfl).alike alike

/-! ## The front end of a core with one thread -/

/-- What the front end has done, as its fields show it. -/
def observed (s t : RobTimer.Timer κ) : List Record :=
  let p := s.rob.first + s.numInRob
  let sequenceNumber := (s.rob.slot p).uop.sequenceNumber
  if s.numInRob < t.numInRob then [.dispatch sequenceNumber (t.rob.slot p).dispatched]
  else if !s.inIcacheMiss && t.inIcacheMiss then
    [.stall sequenceNumber s.now s.period t.frontendStalledUntil]
  else []

/-- What the front end does in `doDispatch`. -/
def dispatchRecords (config : RobTimer.Config κ) (s : RobTimer.Timer κ) : List Record :=
  if s.frontendStalledUntil ≤ s.now then
    loopLog (fun d d' => observed d.timer d'.timer) (RobTimer.dispatchBody config)
      (config.windowSize + 1) ⟨s, 0, ⊤, none⟩
  else []

/-- What it does in an event. -/
def records (config : RobTimer.Config κ) (e : RobTimer.Event) (s : RobTimer.Timer κ) : List Record :=
  match e with
  | .execute => if s.simulating ∧ ¬ Starved config s then dispatchRecords config s else []
  | _ => []

/-- **The micro-op that was paid for is refused**: no reservation station is free for it. -/
def Refuses (config : RobTimer.Config κ) (s : RobTimer.Timer κ) (e : RobTimer.Event) : Prop :=
  e = .execute ∧ s.simulating ∧ ¬ Starved config s ∧ s.frontendStalledUntil ≤ s.now ∧
    s.numInRob < config.windowSize ∧ 0 < config.dispatchWidth ∧
    s.inIcacheMiss ∧ s.rsEntriesUsed = config.rsEntries

theorem observed_nil (number : s'.numInRob = s.numInRob)
    (flag : s'.inIcacheMiss = true → s.inIcacheMiss = true) : observed s s' = [] := by
  rw [observed, number, if_neg (lt_irrefl _), if_neg]
  rw [Bool.and_eq_true, Bool.not_eq_true']
  exact fun both => Bool.false_ne_true (both.1.symm.trans (flag both.2))

/-- What the loop of `doDispatch` keeps: a flag that is up is not older than the loop, and then there is
a reservation station. -/
structure Dispatching (config : RobTimer.Config κ) (log : List Record) (d : RobTimer.Dispatch κ) :
    Prop where
  charged : Charged (.ofTimer d.timer) log
  ready : d.timer.frontendStalledUntil ≤ d.timer.now
  room : d.timer.inIcacheMiss = true → d.uopsDispatched = 0 ∧
    (d.timer.numInRob < config.windowSize → 0 < config.dispatchWidth →
      d.timer.rsEntriesUsed ≠ config.rsEntries)

/-- The flag is down when the micro-op is there. -/
theorem Charged.fetched (charged : Charged (.ofTimer s) log) (inQueue : s.numInRob < s.rob.size) :
    s.fetched = { s with inIcacheMiss := false } := by
  rw [Timer.fetched]
  split_ifs with missed
  · rfl
  · have flag : s.inIcacheMiss = false := by
      by_contra up
      have size : s.rob.size = s.rob.entries.length - s.rob.first := rfl
      have history := charged.history
      rw [FrontEnd.stalled, show (FrontEnd.ofTimer s).inIcacheMiss = true from
        Bool.eq_true_of_not_eq_false up] at history
      obtain ⟨op, earlier, start, period, own, isMiss, -⟩ := history.stalling
      obtain ⟨op', own', hitWhere, -⟩ := charged.own
        (show s.rob.first + s.numInRob < s.rob.entries.length by omega)
      cases own.symm.trans own'
      exact absurd (hitWhere ▸ isMiss) missed
    rw [← flag]

theorem Charged.dispatch_observed (charged : Charged (.ofTimer s) log)
    (ready : s.frontendStalledUntil ≤ s.now) (inQueue : s.numInRob < s.rob.size) (paid : s.Paid)
    {stop : Time} (stops : stop = if s.nextToDispatch.uop.microOp.branch &&
      s.nextToDispatch.uop.branchMispredicted then ⊤ else s.frontendStalledUntil)
    (timer : s' = { s.fetched.dispatch (s.rob.first + s.numInRob) with
      frontendStalledUntil := stop }) :
    Charged (.ofTimer s') (log ++ observed s s') ∧ s'.inIcacheMiss = false := by
  have size : s.rob.size = s.rob.entries.length - s.rob.first := rfl
  have inside : s.rob.first + s.numInRob < s.rob.entries.length := by omega
  rw [charged.fetched inQueue] at timer
  have seen : observed s s' = [.dispatch s.nextToDispatch.uop.sequenceNumber s.now] := by
    rw [observed, if_pos (by rw [timer]; exact Nat.lt_succ_self _), timer]
    show [Record.dispatch _ ((s.rob.modify _ _).slot _).dispatched] = _
    rw [Rob.slot_modify_self inside]
    rfl
  rw [seen]
  refine ⟨charged.dispatchTimer ready inQueue paid (q := s'.rob) ?_ ?_, by rw [timer]; rfl⟩
  · rw [timer]
    exact .modify s.rob rfl Iff.rfl
  · rw [timer, stops]
    rfl

/-- **A pass of the loop of `doDispatch`.** -/
theorem Dispatching.pass {d : RobTimer.Dispatch κ} (dispatching : Dispatching config log d) :
    Ensures (Passes (fun d' => Dispatching config (log ++ observed d.timer d'.timer) d')
        fun d' => Charged (.ofTimer d'.timer) (log ++ observed d.timer d'.timer))
      (fun _ => True) (RobTimer.dispatchBody config d) := by
  have charged := dispatching.charged
  have ready := dispatching.ready
  have same : Charged (.ofTimer d.timer) (log ++ observed d.timer d.timer) := by
    rw [observed_nil rfl id, List.append_nil]
    exact charged
  refine dispatchBody_cases (fun _ => same) (fun _ _ => trivial) (fun _ _ _ => same)
    (fun _ inQueue _ missed unpaid => ?_) (fun inWindow inQueue width _ used => ?_)
    (fun _ _ => trivial) (fun _ inQueue _ paid _ wrong => ?_)
    (fun _ inQueue _ paid _ right => ?_)
  · have size : d.timer.rob.size = d.timer.rob.entries.length - d.timer.rob.first := rfl
    have inside : d.timer.rob.first + d.timer.numInRob < d.timer.rob.entries.length := by omega
    have stalls := charged.miss ready inside missed unpaid d.timer.period rfl
    dsimp only [Passes]
    rw [observed, if_neg (lt_irrefl _), unpaid]
    exact stalls
  · -- The flag is down already: when it is up there is a reservation station.
    have down : d.timer.inIcacheMiss = false := by
      by_contra up
      obtain ⟨first, room⟩ := dispatching.room (by simpa using up)
      exact room inWindow (by omega) used
    have fetched : d.timer.fetched = d.timer := by
      rw [charged.fetched inQueue, ← down]
    dsimp only [Passes]
    rw [fetched]
    exact same
  · exact (charged.dispatch_observed ready inQueue paid (if_pos wrong).symm rfl).1
  · have timer : d.dispatched.timer =
        { d.timer.fetched.dispatch (d.timer.rob.first + d.timer.numInRob) with
          frontendStalledUntil := d.timer.frontendStalledUntil } := by
      show d.timer.fetched.dispatch _ = _
      rw [charged.fetched inQueue]
      rfl
    obtain ⟨later, down⟩ := charged.dispatch_observed ready inQueue paid (by rw [right]; rfl) timer
    refine ⟨later, ?_, fun up => by rw [down] at up; cases up⟩
    rw [timer, charged.fetched inQueue]
    exact ready

theorem doDispatch_charged (charged : Charged (.ofTimer s) log)
    (room : s.frontendStalledUntil ≤ s.now → s.inIcacheMiss = true →
      s.numInRob < config.windowSize → 0 < config.dispatchWidth →
      s.rsEntriesUsed ≠ config.rsEntries) :
    Ensures (fun r => Charged (.ofTimer r.1) (log ++ dispatchRecords config s)) (fun _ => True)
      (RobTimer.doDispatch config s) := by
  have front : Ensures (fun d => Charged (.ofTimer d.timer) (log ++ dispatchRecords config s))
      (fun _ => True) (dispatchFrontEnd config s) := by
    rw [dispatchFrontEnd, dispatchRecords]
    split_ifs with ready
    · have start : Dispatching config log (⟨s, 0, ⊤, none⟩ : RobTimer.Dispatch κ) :=
        ⟨charged, ready, fun up => ⟨rfl, room ready up⟩⟩
      refine Ensures.bind (Ensures.loopLog (fun l d dispatching => dispatching.pass)
        (fun l d dispatching => dispatching.charged) start) fun d charged => ?_
      exact charged
    · rw [List.append_nil]
      exact charged
  refine front.bind fun d charged => ?_
  refine (ensures_any (findCpiComponent d.timer (List.range d.timer.numInRob))).bind fun _ _ => ?_
  exact charged

theorem doIssue_charged (charged : Charged (.ofTimer s) log) :
    Ensures (fun r => Charged (.ofTimer r.1) log) (fun _ => True) (RobTimer.doIssue config s) := by
  have start : Charged (.ofTimer (Walk.start config s).timer) log := charged
  refine Ensures.bind (@Ensures.loop_inv _ _ _ _ (fun w : Walk κ => Charged (.ofTimer w.timer) log)
    (fun w charged => issueBody_charged charged) _ _ start) fun w charged => ?_
  exact charged

theorem doCommit_charged (charged : Charged (.ofTimer s) log) :
    Ensures (fun r => Charged (.ofTimer r.1) log) (fun _ => True) (RobTimer.doCommit config s) := by
  refine Ensures.bind (@Ensures.loop_inv _ _ _ _
    (fun c : Committing κ => Charged (.ofTimer c.timer) log)
    (fun c charged => commitBody_charged charged) _ _ charged) fun c charged => ?_
  exact charged

theorem enter_charged (charged : Charged (.ofTimer s) log) (op : DynamicMicroOp) :
    Ensures (fun t => Charged (.ofTimer t) log) (fun _ => True) (enter config s op) := by
  refine ensures_of_ok fun t entered => ?_
  have low : s.rob.first ≤ s.rob.entries.length :=
    le_trans (Nat.le_add_right _ _) charged.window
  obtain ⟨u, v, q, e, entering⟩ := enter_spec charged.numbered low charged.next entered
  have alike : Alike s.rob q := by
    refine ⟨entering.registered.first, entering.registered.length, fun p => ?_, fun p => ?_⟩
    · rw [entering.registered.slot]
    · rw [Rob.Issued, Rob.Issued, entering.registered.slot]
  have kind : e.uop.kind = { op.kind with sequenceNumber := q.entries.length } := by
    rw [DynamicMicroOp.kind_of_bare entering.bare, entering.registered.length]
    rfl
  have later := (charged.alike alike).enter kind entering.done
  rw [entering.timer]
  exact later

theorem enterAll_charged (charged : Charged (.ofTimer s) log) (insts : List DynamicMicroOp) :
    Ensures (fun t => Charged (.ofTimer t) log) (fun _ => True) (enterAll config insts s) :=
  Ensures.foldlM (fun _ op _ charged => enter_charged charged op) charged

/-- **One event**, that does not refuse a micro-op that was paid for. -/
theorem step_charged {e : RobTimer.Event} (accepts : ¬ Refuses config s e)
    (charged : Charged (.ofTimer s) log) :
    Ensures (fun t => Charged (.ofTimer t) (log ++ records config e s)) (fun _ => True)
      (RobTimer.step config e s) := by
  cases e with
  | simulate insts =>
    refine ensures_of_ok fun t ran => ?_
    obtain ⟨-, ran⟩ := step_simulate ran
    have called : Charged (.ofTimer s.called) log := charged
    show Charged (.ofTimer t) (log ++ [])
    rw [List.append_nil]
    exact (enterAll_charged called insts).of_ok ran
  | execute =>
    rw [RobTimer.step, records]
    by_cases simulating : s.simulating = true
    · rw [if_pos simulating, RobTimer.execute]
      by_cases starved : Starved config s
      · rw [if_pos (show _ ∧ _ from starved), if_neg (fun both => both.2 starved), List.append_nil,
          ok_bind]
        exact charged
      · rw [if_neg (show ¬ (_ ∧ _) from starved), if_pos ⟨simulating, starved⟩]
        have room (ready : s.frontendStalledUntil ≤ s.now) (up : s.inIcacheMiss = true)
            (inWindow : s.numInRob < config.windowSize) (wide : 0 < config.dispatchWidth) :
            s.rsEntriesUsed ≠ config.rsEntries := fun used =>
          accepts ⟨rfl, simulating, starved, ready, inWindow, wide, up, used⟩
        refine @Ensures.bind _ _ _ _ _ _ (fun r => Charged (.ofTimer r.1)
          (log ++ dispatchRecords config s)) _ ?_ fun r charged => ?_
        · refine (doDispatch_charged charged room).bind fun _ charged => ?_
          refine (doIssue_charged charged).bind fun _ charged => ?_
          exact (doCommit_charged charged).bind fun _ charged => charged
        · obtain ⟨t, executed, latency⟩ := r
          show Charged (.ofTimer (finishRound executed latency t)) _
          rw [finishRound]
          split_ifs
          · exact charged
          · exact charged
    · rw [if_neg simulating]
      trivial
  | synchronize time =>
    show Ensures (fun t => Charged (.ofTimer t) (log ++ [])) _ _
    rw [RobTimer.step, List.append_nil]
    split_ifs
    · trivial
    · exact charged
  | changePeriod period =>
    show Ensures (fun t => Charged (.ofTimer t) (log ++ [])) _ _
    rw [RobTimer.step, List.append_nil]
    split_ifs
    · trivial
    · exact charged

theorem charged_start (config : RobTimer.Config κ) (period : ℕ) :
    Charged (.ofTimer (RobTimer.Timer.start config period)) [] where
  window := le_rfl
  next := rfl
  entered := rfl
  kind := fun p op found => by cases found
  issued := fun p was => absurd rfl was
  history := .start
  branches := fun p now => absurd now.1 (Nat.not_lt_zero p)
  only := fun p q now => absurd now.1 (Nat.not_lt_zero p)

/-! ## Dependencies of a micro-op that is dispatched -/

section Dependencies

variable {q q' : Rob} {p low : ℕ} {e e' : RobEntry}

theorem setAddressProducers_kept (numbered : q.Numbered) {producers : RegisterDependencies}
    (ran : setAddressProducers q producers low e = .ok e') : e'.uop = e.uop ∧ e'.done = e.done := by
  rw [setAddressProducers] at ran
  split_ifs at ran with store
  · obtain ⟨e₁, folded, ran⟩ := bind_ok.1 ran
    obtain ⟨-, -, same⟩ := addAddressRegisters_spec numbered folded
    have kept : e₁.uop = e.uop ∧ e₁.done = e.done := by rw [same]; exact ⟨rfl, rfl⟩
    split_ifs at ran
    · cases ran
      exact kept
    · cases ran
      exact kept
  · cases ran
    exact ⟨rfl, rfl⟩

/-- The loop over the dependencies. -/
theorem registers_alike {dependencies : List ℕ} {r r' : Registering}
    (ran : dependencies.foldlM (RobSmtTimer.register low p) r = .ok r') : Alike r.rob r'.rob := by
  induction dependencies generalizing r with
  | nil =>
    cases ran
    exact .refl _
  | cons x xs ih =>
    rw [List.foldlM_cons] at ran
    obtain ⟨r₁, first, rest⟩ := bind_ok.1 ran
    refine Alike.trans ?_ (ih rest)
    rw [RobSmtTimer.register] at first
    split_ifs at first
    · cases first
      exact .refl _
    · obtain ⟨slot, found, first⟩ := bind_ok.1 first
      split_ifs at first
      · cases first
        exact .refl _
      · cases first
        exact .modify _ rfl Iff.rfl

theorem link_kept (ran : RobSmtTimer.link low p q e = .ok (q', e')) :
    Alike q q' ∧ e'.uop.bare = e.uop.bare ∧ e'.done = e.done := by
  rw [RobSmtTimer.link] at ran
  obtain ⟨dependencies, -, ran⟩ := bind_ok.1 ran
  obtain ⟨r, registered, ran⟩ := bind_ok.1 ran
  split_ifs at ran
  obtain ⟨u, removal, ran⟩ := bind_ok.1 ran
  have alike := registers_alike registered
  have bare := (foldlM_removeDependency_spec removal).1
  dsimp only at ran
  split_ifs at ran
  · cases ran
    exact ⟨alike, bare, rfl⟩
  · cases ran
    exact ⟨alike, bare, rfl⟩

/-- **The dependencies** are looked up without a change of what is in the queue. -/
theorem setDependencies_kept {smt : RobSmtTimer.Config κ} (numbered : s.rob.Numbered)
    (ran : RobSmtTimer.setDependencies smt p s = .ok s') :
    Alike s.rob s'.rob ∧ s' = { s with
      rob := s'.rob
      registerDependencies := s'.registerDependencies
      memoryDependencies := s'.memoryDependencies } := by
  rw [RobSmtTimer.setDependencies] at ran
  obtain ⟨e₁, address, ran⟩ := bind_ok.1 ran
  obtain ⟨⟨registers, u₁⟩, setRegisters, ran⟩ := bind_ok.1 ran
  obtain ⟨⟨memory, u₂⟩, setMemory, ran⟩ := bind_ok.1 ran
  obtain ⟨u₃, forwarded, ran⟩ := bind_ok.1 ran
  obtain ⟨⟨rob, e₂⟩, linked, ran⟩ := bind_ok.1 ran
  cases ran
  obtain ⟨uop, done⟩ := setAddressProducers_kept numbered address
  obtain ⟨alike, bare, done'⟩ := link_kept linked
  refine ⟨alike.trans (.modify _ ?_ ?_), rfl⟩
  · rw [alike.kind, ← uop]
    refine DynamicMicroOp.kind_of_bare (bare.trans ?_)
    calc u₃.bare
      _ = u₂.bare := (forward_spec numbered forwarded).bare
      _ = u₁.bare := (MemoryDependencies.setDependencies_spec setMemory).1
      _ = e₁.uop.bare := (RegisterDependencies.setDependencies_spec setRegisters).1
  · show e₂.done ≠ ⊤ ↔ rob.Issued p
    rw [alike.issued, Rob.Issued, ← done, show e₂.done = e₁.done from done']

end Dependencies

/-! ## The front ends of the SMT threads -/

section Smt

variable {smt : RobSmtTimer.Config κ} {t t' : RobSmtTimer.Timer κ}

def FrontEnd.ofThread (t : RobSmtTimer.RobThread) : FrontEnd where
  rob := t.rob
  numInRob := t.numInRob
  nextSequenceNumber := t.nextSequenceNumber
  frontendStalledUntil := t.frontendStalledUntil
  inIcacheMiss := t.inIcacheMiss
  entered := t.entered

/-- **The micro-op of a thread that was paid for is refused**: no reservation station is free for it. -/
def SmtRefuses (smt : RobSmtTimer.Config κ) (t : RobSmtTimer.Timer κ) (e : RobSmtTimer.Event) : Prop :=
  e = .executeCycle ∧ RobSmtTimer.canExecute smt t ∧ ∃ thread < smt.numThreads,
    RobSmtTimer.canDispatch t thread ∧ 0 < smt.dispatchWidth ∧ (t.threads thread).inIcacheMiss ∧
    t.rsEntriesUsed = smt.rsEntries

/-- What the loop of `tryDispatch` keeps; as long as nothing is dispatched, so many reservation
stations are in use. -/
structure SmtDispatching (smt : RobSmtTimer.Config κ) (window used : ℕ)
    (d : RobSmtTimer.Dispatch κ) : Prop where
  charged : Charged (.ofTimer d.timer) d.records
  ready : d.timer.frontendStalledUntil ≤ d.timer.now
  room : d.timer.inIcacheMiss = true → d.uopsDispatched = 0 ∧
    (d.timer.numInRob < window → 0 < smt.dispatchWidth → d.timer.rsEntriesUsed ≠ smt.rsEntries)
  idle : d.uopsDispatched = 0 → d.timer.rsEntriesUsed = used

theorem SmtDispatching.pass {window used : ℕ} {d : RobSmtTimer.Dispatch κ}
    (dispatching : SmtDispatching smt window used d) :
    Ensures (Passes (SmtDispatching smt window used) fun d' =>
        Charged (.ofTimer d'.timer) d'.records ∧
          (d'.uopsDispatched = 0 → d'.timer.rsEntriesUsed = used))
      (fun _ => True) (RobSmtTimer.dispatchBody smt window d) := by
  have charged := dispatching.charged
  have ready := dispatching.ready
  have size : d.timer.rob.size = d.timer.rob.entries.length - d.timer.rob.first := rfl
  have stays : Charged (.ofTimer d.timer) d.records ∧
      (d.uopsDispatched = 0 → d.timer.rsEntriesUsed = used) := ⟨charged, dispatching.idle⟩
  rw [RobSmtTimer.dispatchBody]
  dsimp only
  by_cases inWindow : d.timer.numInRob < window
  · rw [if_neg (not_not.2 inWindow)]
    by_cases inQueue : d.timer.numInRob < d.timer.rob.size
    · have inside : d.timer.rob.first + d.timer.numInRob < d.timer.rob.entries.length := by omega
      rw [Rob.pointerAt_ok.2 ⟨inQueue, rfl⟩, ok_bind]
      by_cases width : d.uopsDispatched = smt.dispatchWidth
      · rw [if_pos width]
        exact stays
      rw [if_neg width]
      by_cases missing : d.timer.nextToDispatch.uop.iCacheHitWhere ≠ .l1i ∧
          d.timer.inIcacheMiss = false
      · have stalls := charged.miss ready inside missing.1 missing.2 d.timer.period rfl
        rw [Timer.nextToDispatch] at missing
        rw [if_pos missing]
        exact ⟨stalls, dispatching.idle⟩
      have paid : d.timer.Paid := fun isMiss =>
        Bool.not_eq_false _ ▸ fun unpaid => missing ⟨isMiss, unpaid⟩
      rw [Timer.nextToDispatch] at missing
      rw [if_neg missing]
      have fetched : (if (d.timer.rob.slot (d.timer.rob.first + d.timer.numInRob)).uop.iCacheHitWhere ≠
            .l1i then { d.timer with inIcacheMiss := false } else d.timer) = d.timer.fetched := rfl
      rw [fetched, charged.fetched inQueue]
      dsimp only
      by_cases stations : d.timer.rsEntriesUsed = smt.rsEntries
      · rw [if_pos stations]
        -- The flag is down already: when it is up there is a reservation station.
        have down : d.timer.inIcacheMiss = false := by
          by_contra up
          obtain ⟨first, room⟩ := dispatching.room (by simpa using up)
          exact room inWindow (by omega) stations
        rw [← down]
        exact stays
      rw [if_neg stations]
      cases ran : RobSmtTimer.setDependencies smt (d.timer.rob.first + d.timer.numInRob)
          { d.timer with inIcacheMiss := false } with
      | error e => trivial
      | ok s₁ =>
        obtain ⟨alike, same⟩ := setDependencies_kept (s := { d.timer with inIcacheMiss := false })
          charged.numbered ran
        have high : d.timer.rob.first + d.timer.numInRob < s₁.rob.entries.length := by
          rw [alike.length]
          exact inside
        have time : ((s₁.dispatch (d.timer.rob.first + d.timer.numInRob)).rob.slot
            (d.timer.rob.first + d.timer.numInRob)).dispatched = d.timer.now := by
          show ((s₁.rob.modify _ _).slot _).dispatched = _
          rw [Rob.slot_modify_self high, same]
        have dispatch {t : RobTimer.Timer κ} {stop : Time}
            (timer : t = { s₁.dispatch (d.timer.rob.first + d.timer.numInRob) with
              frontendStalledUntil := stop })
            (stops : stop = if d.timer.nextToDispatch.uop.microOp.branch &&
              d.timer.nextToDispatch.uop.branchMispredicted then ⊤
              else d.timer.frontendStalledUntil) :
            Charged (.ofTimer t) (d.records ++
              [.dispatch d.timer.nextToDispatch.uop.sequenceNumber d.timer.now]) := by
          refine charged.dispatchTimer ready inQueue paid (q := t.rob) ?_ ?_
          · rw [timer]
            exact alike.trans (.modify s₁.rob rfl Iff.rfl)
          · rw [timer, stops, same]
            rfl
        rw [ok_bind, time]
        by_cases wrong : (d.timer.nextToDispatch.uop.microOp.branch &&
            d.timer.nextToDispatch.uop.branchMispredicted) = true
        · have post := @dispatch _ ⊤ rfl (if_pos wrong).symm
          rw [Timer.nextToDispatch] at wrong
          rw [if_pos wrong]
          exact ⟨post, fun none => absurd none (Nat.succ_ne_zero _)⟩
        · have until_ : (s₁.dispatch (d.timer.rob.first + d.timer.numInRob)).frontendStalledUntil =
              d.timer.frontendStalledUntil := by
            rw [same]
            rfl
          have post := dispatch rfl (until_.trans (if_neg wrong).symm)
          rw [Timer.nextToDispatch] at wrong
          rw [if_neg wrong]
          refine ⟨post, ?_, fun up => ?_, fun none => absurd none (Nat.succ_ne_zero _)⟩
          · dsimp only
            rw [until_, same]
            exact ready
          · dsimp only at up
            rw [same] at up
            cases up
    · have error : d.timer.rob.pointerAt d.timer.numInRob = .error .outsideQueue := if_neg inQueue
      rw [error]
      trivial
  · rw [if_pos inWindow]
    exact stays

/-- The invariant, of every thread. -/
def Charges (t : RobSmtTimer.Timer κ) : Prop :=
  ∀ i, Charged (.ofThread (t.threads i)) (t.threads i).records

theorem put_threads (i j : ℕ) (v : RobTimer.Timer κ)
    (f : RobSmtTimer.RobThread → RobSmtTimer.RobThread) :
    (t.put i v f).threads j = if j = i then f ((t.threads i).put v) else t.threads j :=
  Function.update_apply ..

/-- A stage has changed what a thread sees of the timer. -/
theorem Charges.put (charges : Charges t) {i : ℕ} {v : RobTimer.Timer κ}
    {f : RobSmtTimer.RobThread → RobSmtTimer.RobThread} (charged : Charged (.ofTimer v) log)
    (front : FrontEnd.ofThread (f ((t.threads i).put v)) = .ofTimer v)
    (records : (f ((t.threads i).put v)).records = log) : Charges (t.put i v f) := by
  intro j
  rw [put_threads]
  split_ifs
  · rw [front, records]
    exact charged
  · exact charges j

/-- A thread is not in the state that `SmtRefuses` speaks of. -/
def Accepts (smt : RobSmtTimer.Config κ) (t : RobSmtTimer.Timer κ) (i : ℕ) : Prop :=
  (t.threads i).inIcacheMiss = true → 0 < smt.dispatchWidth → t.rsEntriesUsed ≠ smt.rsEntries

theorem tryDispatch_charges (charges : Charges t) {i : ℕ} {nextEvent : Time}
    (ready : (t.threads i).frontendStalledUntil ≤ t.now) (accepts : Accepts smt t i) :
    Ensures (fun r => Charges r.2.1 ∧ r.2.1.now = t.now ∧
        r.2.1.currentWindowSize = t.currentWindowSize ∧
        (r.1 = false → r.2.1.rsEntriesUsed = t.rsEntriesUsed) ∧
        ∀ j ≠ i, r.2.1.threads j = t.threads j)
      (fun _ => True) (RobSmtTimer.tryDispatch smt i nextEvent t) := by
  rw [RobSmtTimer.tryDispatch]
  have start : SmtDispatching smt t.currentWindowSize t.rsEntriesUsed
      ⟨t.view smt i, 0, nextEvent, (t.threads i).nextEvent, none, (t.threads i).records⟩ :=
    ⟨charges i, ready, fun up => ⟨rfl, fun _ => accepts up⟩, fun _ => rfl⟩
  refine Ensures.bind (@Ensures.loop _ _ _ _ _ (fun _ => SmtDispatching smt _ _)
    (fun _ d dispatching => dispatching.pass)
    (fun d dispatching => ⟨dispatching.charged, dispatching.idle⟩) _ _ start) fun d done => ?_
  refine ⟨?_, rfl, rfl, fun none => done.2 ?_, fun j other => ?_⟩
  · dsimp only
    exact charges.put done.1 rfl rfl
  · have : ¬ 0 < d.uopsDispatched := of_decide_eq_false none
    omega
  · dsimp only
    rw [put_threads, if_neg other]

/-- What the loop of `doDispatch` keeps, from its start and with the threads that are left. -/
structure Taking (t : RobSmtTimer.Timer κ) (rest : List ℕ) (r : RobSmtTimer.Round κ) : Prop where
  charges : Charges r.timer
  now : r.timer.now = t.now
  window : r.timer.currentWindowSize = t.currentWindowSize
  idle : r.hasDispatched = false → r.timer.rsEntriesUsed = t.rsEntriesUsed
  left : ∀ i ∈ rest, r.timer.threads i = t.threads i

theorem Taking.pass {i : ℕ} {rest : List ℕ} {r : RobSmtTimer.Round κ}
    (taking : Taking t (i :: rest) r) (new : i ∉ rest)
    (accepts : RobSmtTimer.canDispatch t i = true → Accepts smt t i) :
    Ensures (Taking t rest) (fun _ => True) (RobSmtTimer.dispatchThread smt r i) := by
  have own := taking.left i List.mem_cons_self
  have stays : Taking t rest r := { taking with
    left := fun j member => taking.left j (List.mem_cons_of_mem _ member) }
  rw [RobSmtTimer.dispatchThread]
  dsimp only
  split_ifs with stalled idle full busy
  · exact stays
  · exact stays
  · exact stays
  · exact stays
  · rw [Bool.or_eq_true, not_or, decide_eq_true_eq] at idle
    have fresh := taking.idle (Bool.eq_false_of_not_eq_true busy)
    have can : RobSmtTimer.canDispatch t i = true := by
      rw [own, taking.now] at stalled idle
      rw [own, taking.window] at full
      rw [RobSmtTimer.canDispatch]
      simp only [Bool.not_eq_true', Bool.or_eq_false_iff, decide_eq_false_iff_not]
      exact ⟨⟨⟨stalled, idle.2⟩, full⟩, Bool.eq_false_of_not_eq_true idle.1⟩
    have accepted : Accepts smt r.timer i := by
      intro up wide
      rw [fresh]
      exact accepts can (own ▸ up) wide
    refine (tryDispatch_charges taking.charges (not_lt.1 stalled) accepted).bind
      fun ⟨hasDispatched, t', nextEvent⟩ ⟨charges, now, window, idle, others⟩ => ?_
    exact {
      charges := charges
      now := now.trans taking.now
      window := window.trans taking.window
      idle := fun none => (idle none).trans fresh
      left := fun j member => (others j fun same => new (same ▸ member)).trans
        (taking.left j (List.mem_cons_of_mem _ member)) }

theorem threadsFrom_nodup (first : ℕ) : (RobSmtTimer.threadsFrom smt first).Nodup := by
  refine List.Nodup.map_on (fun i low j low' same => ?_) List.nodup_range
  have congruent : i ≡ j [MOD smt.numThreads] := Nat.ModEq.add_left_cancel' first same
  exact congruent.eq_of_lt_of_lt (List.mem_range.1 low) (List.mem_range.1 low')

theorem threadsFrom_lt {first i : ℕ} (member : i ∈ RobSmtTimer.threadsFrom smt first) :
    i < smt.numThreads := by
  obtain ⟨j, low, rfl⟩ := List.mem_map.1 member
  exact Nat.mod_lt _ (Nat.zero_lt_of_lt (List.mem_range.1 low))

theorem Taking.all {threads : List ℕ} {r : RobSmtTimer.Round κ} (taking : Taking t threads r)
    (nodup : threads.Nodup)
    (accepts : ∀ i ∈ threads, RobSmtTimer.canDispatch t i = true → Accepts smt t i) :
    Ensures (Taking t []) (fun _ => True) (threads.foldlM (RobSmtTimer.dispatchThread smt) r) := by
  induction threads generalizing r with
  | nil => exact taking
  | cons i rest ih =>
    rw [List.foldlM_cons]
    rw [List.nodup_cons] at nodup
    refine (taking.pass nodup.1 (accepts i List.mem_cons_self)).bind fun r' taking => ?_
    exact ih taking nodup.2 fun j member => accepts j (List.mem_cons_of_mem _ member)

theorem smtDispatch_charges (charges : Charges t)
    (accepts : ∀ i < smt.numThreads, RobSmtTimer.canDispatch t i = true → Accepts smt t i) :
    Ensures (fun r => Charges r.1) (fun _ => True) (RobSmtTimer.doDispatch smt t) := by
  have start : Taking t (RobSmtTimer.threadsFrom smt t.dispatchThread)
      (⟨t, ⊤, t.dispatchThread, false⟩ : RobSmtTimer.Round κ) :=
    ⟨charges, rfl, rfl, fun _ => rfl, fun _ _ => rfl⟩
  refine (start.all (threadsFrom_nodup _) fun i member =>
    accepts i (threadsFrom_lt member)).bind fun r taking => ?_
  exact taking.charges

theorem tryIssue_charges (charges : Charges t) {i : ℕ} {nextEvent : Time} :
    Ensures (fun r => Charges r.2.1) (fun _ => True) (RobSmtTimer.tryIssue smt i nextEvent t) := by
  have start : Charged (.ofTimer (t.view smt i)) (t.threads i).records := charges i
  rw [RobSmtTimer.tryIssue]
  refine Ensures.bind (@Ensures.loop_inv _ _ _ _ (fun w : Walk κ =>
    Charged (.ofTimer w.timer) (t.threads i).records) (fun w charged => issueBody_charged charged)
    _ _ start) fun w charged => ?_
  rw [ensures_ok]
  dsimp only
  exact charges.put charged rfl rfl

theorem issueThreads_charges (charges : Charges t) {threads : List ℕ} {nextEvent : Time} :
    Ensures (fun r => Charges r.2.1) (fun _ => True)
      (RobSmtTimer.issueThreads smt threads nextEvent t) := by
  induction threads generalizing t nextEvent with
  | nil => exact charges
  | cons i rest ih =>
    rw [RobSmtTimer.issueThreads]
    split_ifs
    · exact ih charges
    · refine (tryIssue_charges charges).bind fun ⟨hasIssued, t', nextEvent'⟩ charges => ?_
      dsimp only
      split_ifs
      · exact charges
      · exact ih charges
    · exact ih charges

theorem commitThread_charges (charges : Charges t) (i : ℕ) :
    Ensures Charges (fun _ => True) (RobSmtTimer.commitThread smt t i) := by
  have start : Charged (.ofTimer (t.view smt i)) (t.threads i).records := charges i
  rw [RobSmtTimer.commitThread]
  refine Ensures.bind (@Ensures.loop_inv _ _ _ _ (fun c : Committing κ =>
    Charged (.ofTimer c.timer) (t.threads i).records) (fun c charged => commitBody_charged charged)
    _ _ start) fun c charged => ?_
  rw [ensures_ok]
  exact charges.put charged rfl rfl

theorem executeCycle_charges (charges : Charges t)
    (accepts : ∀ i < smt.numThreads, RobSmtTimer.canDispatch t i = true → Accepts smt t i) :
    Ensures Charges (fun _ => True) (RobSmtTimer.executeCycle smt t) := by
  refine (smtDispatch_charges charges accepts).bind fun ⟨t, _⟩ charges => ?_
  have issue : Ensures (fun r => Charges r.1) (fun _ => True) (RobSmtTimer.doIssue smt t) := by
    have start : Charges (t.initCycle smt) := charges
    exact (issueThreads_charges start).bind fun r charges => charges
  refine issue.bind fun ⟨t, _⟩ charges => ?_
  have commit : Ensures (fun r => Charges r.1) (fun _ => True) (RobSmtTimer.doCommit smt t) :=
    (Ensures.foldlM (fun t i _ charges => commitThread_charges charges i) charges).bind
      fun r charges => charges
  exact commit.bind fun r charges => charges

theorem push_charged {r : RobSmtTimer.RobThread} (charged : Charged (.ofThread r) r.records)
    (op : DynamicMicroOp) :
    Ensures (fun r => Charged (.ofThread r) r.records) (fun _ => True)
      (RobSmtTimer.push smt r op) := by
  rw [RobSmtTimer.push]
  split_ifs
  · trivial
  · refine charged.enter (e := RobEntry.init op r.nextSequenceNumber) ?_ rfl
    rw [show r.nextSequenceNumber = r.rob.entries.length from charged.next]
    rfl

/-- **One event of the SMT threads**, that does not refuse a micro-op that was paid for. -/
theorem smtStep_charges {e : RobSmtTimer.Event} (accepts : ¬ SmtRefuses smt t e)
    (charges : Charges t) : Ensures Charges (fun _ => True) (RobSmtTimer.step smt e t) := by
  have change {i : ℕ} {f : RobSmtTimer.RobThread → RobSmtTimer.RobThread}
      (charged : Charged (.ofThread (f (t.threads i))) (f (t.threads i)).records) :
      Charges (t.setThread i f) := by
    intro j
    have threads : (t.setThread i f).threads j = if j = i then f (t.threads i) else t.threads j :=
      Function.update_apply ..
    rw [threads]
    split_ifs
    · exact charged
    · exact charges j
  cases e with
  | pushInstructions i insts =>
    rw [RobSmtTimer.step]
    split_ifs
    · refine Ensures.bind (Ensures.foldlM (fun r op _ charged => push_charged charged op)
        (charges i)) fun r charged => ?_
      exact change charged
    · trivial
  | executeCycle =>
    rw [RobSmtTimer.step]
    split_ifs with can
    · refine executeCycle_charges charges fun i low canDispatch up wide used => ?_
      exact accepts ⟨rfl, can, i, low, canDispatch, wide, up, used⟩
    · trivial
  | synchronize i time =>
    rw [RobSmtTimer.step]
    split_ifs
    · rw [ensures_ok, RobSmtTimer.synchronize]
      have set : Charges (t.setThread i fun t => { t with now := time }) := change (charges i)
      split_ifs
      · exact set
      · exact set
    · trivial
  | setRunning i running =>
    rw [RobSmtTimer.step]
    split_ifs
    · exact change (f := fun t => { t with running := running }) (charges i)
    · trivial
  | changePeriod period =>
    rw [RobSmtTimer.step]
    split_ifs
    · trivial
    · exact charges

theorem charges_start (smt : RobSmtTimer.Config κ) (period : ℕ) :
    Charges (RobSmtTimer.Timer.start smt period) :=
  fun _ => charged_start smt.toConfig period

end Smt

/-! ## Runs -/

/-- **A miss stalls dispatch once**, in both timers, in every run in which no micro-op that was paid for
is refused for lack of a reservation station. -/
theorem stallsOnce (κ : Type) :
    (∀ (config : RobTimer.Config κ) (period : ℕ) (es : List RobTimer.Event) (s : RobTimer.Timer κ),
      Along (fun s e => ¬ Refuses config s e) (RobTimer.step config) es (.start config period) →
      runEvents (RobTimer.step config) es (.start config period) = .ok s → StallsOnce s.entered
        (runLog (RobTimer.step config) (records config) es (.start config period))) ∧
    ∀ (smt : RobSmtTimer.Config κ) (period : ℕ) (es : List RobSmtTimer.Event)
      (t : RobSmtTimer.Timer κ),
      Along (fun t e => ¬ SmtRefuses smt t e) (RobSmtTimer.step smt) es (.start smt period) →
      runEvents (RobSmtTimer.step smt) es (.start smt period) = .ok t →
      ∀ thread, StallsOnce (t.threads thread).entered (t.threads thread).records := by
  constructor
  · intro config period es s along ran
    have charged := Along.ensures_runLog along (records config)
      (fun log s => Charged (.ofTimer s) log) (fun _ => True)
      (fun e s log accepts charged => step_charged accepts charged) (charged_start config period)
    rw [List.nil_append] at charged
    exact (charged.of_ok ran).history.once
  · intro smt period es t along ran thread
    have charges : Ensures Charges (fun _ => True) _ := along.ensures_runEvents
      (fun e t accepts charges => smtStep_charges accepts charges) (charges_start smt period)
    exact (charges.of_ok ran thread).history.once

/-! ## A refused micro-op -/

/-- A core with one reservation station. -/
def oneStation : RobTimer.Config Unit := { narrowConfig with rsEntries := 1 }

/-- Two SMT threads share it. -/
def oneStationSmt : RobSmtTimer.Config Unit where
  toConfig := oneStation
  numThreads := 2
  windowRepartition := true
  simultaneousIssue := true

/-- A micro-op that missed the instruction cache. -/
def missing (latency : ℕ) : DynamicMicroOp :=
  { plainMicroOp [] [] 1 false with iCacheHitWhere := .l2Own, iCacheLatency := latency }

/-- A slow micro-op, one that waits for it, and one that missed. -/
def slowThenMissing : List DynamicMicroOp :=
  [plainMicroOp [] [1] 20 false, plainMicroOp [1] [] 1 false, missing 2,
    plainMicroOp [] [] 1 false, plainMicroOp [] [] 1 false]

theorem ok_of_isOk {F A : Type} {x : Except F A} (isOk : x.isOk = true) : ∃ a, x = .ok a := by
  cases x with
  | error e => cases isOk
  | ok a => exact ⟨a, rfl⟩

theorem not_stallsOnce_of_twice {ops : List DynamicMicroOp} {before after : List Record}
    {x start period y start' period' : ℕ} {stop stop' : Time} : ¬ StallsOnce ops
      (before ++ .stall x start period stop :: .stall y start' period' stop' :: after) := by
  intro once
  rcases (once.stalled _ _ _ _ _ _ rfl).2 with none | ⟨time, rest, next, -⟩
  · cases none
  · cases next

/-- When the stall for the third micro-op is over, the second one has the only reservation station; so
the front end stalls again, in both timers. -/
theorem not_stallsOnce_full :
    (∃ s, runEvents (RobTimer.step oneStation) (.simulate slowThenMissing :: List.replicate 7 .execute)
        (.start oneStation 1) = .ok s ∧
      ¬ StallsOnce s.entered (runLog (RobTimer.step oneStation) (records oneStation)
        (.simulate slowThenMissing :: List.replicate 7 .execute) (.start oneStation 1))) ∧
    ∃ t, runEvents (RobSmtTimer.step oneStationSmt) (.setRunning 0 true ::
        .pushInstructions 0 slowThenMissing :: List.replicate 7 .executeCycle)
        (.start oneStationSmt 1) = .ok t ∧
      ¬ StallsOnce (t.threads 0).entered (t.threads 0).records := by
  constructor
  · obtain ⟨s, ran⟩ : ∃ s, runEvents (RobTimer.step oneStation)
        (.simulate slowThenMissing :: List.replicate 7 .execute) (.start oneStation 1) = .ok s :=
      ok_of_isOk (by decide_cbv)
    have log : runLog (RobTimer.step oneStation) (records oneStation)
        (.simulate slowThenMissing :: List.replicate 7 .execute) (.start oneStation 1) =
          [.dispatch 0 (0 : ℕ), .dispatch 1 (2 : ℕ)] ++
            .stall 2 3 1 (5 : ℕ) :: .stall 2 6 1 (8 : ℕ) :: [] := by decide_cbv
    refine ⟨s, ran, fun once => ?_⟩
    rw [log] at once
    exact not_stallsOnce_of_twice once
  · have log : ((runEvents (RobSmtTimer.step oneStationSmt) (.setRunning 0 true ::
        .pushInstructions 0 slowThenMissing :: List.replicate 7 .executeCycle)
        (.start oneStationSmt 1)).toOption.map fun t => (t.threads 0).records) =
          some ([.dispatch 0 (0 : ℕ), .dispatch 1 (2 : ℕ)] ++
            .stall 2 3 1 (5 : ℕ) :: .stall 2 6 1 (8 : ℕ) :: []) := by decide_cbv
    cases ran : runEvents (RobSmtTimer.step oneStationSmt) (.setRunning 0 true ::
        .pushInstructions 0 slowThenMissing :: List.replicate 7 .executeCycle)
        (.start oneStationSmt 1) with
    | error e =>
      rw [ran] at log
      cases log
    | ok t =>
      rw [ran] at log
      have records : (t.threads 0).records = _ := Option.some.inj log
      refine ⟨t, rfl, fun once => ?_⟩
      rw [records] at once
      exact not_stallsOnce_of_twice once

end GpuHotSpot.Common.ICacheStalls
