import GpuHotSpot.Common.RobMoves
import GpuHotSpot.Common.RobSmtTimer

/-!
# The history of a front end

The front ends of `rob_timer.cc` and `rob_smt_timer.cc` stall for a micro-op whose instruction missed
the instruction cache, and one flag says that the stall has begun.

* `StallsOnce`: each such micro-op stalls the front end once, right before it is dispatched.
* `History`: how the records of a front end come about; `History.once`.
-/

namespace GpuHotSpot.Common.ICacheStalls

open Fallible RobTimer
open RobSmtTimer (Record)

/-! ## What a front end should do -/

/-- The front end stalls for the micro-op `x`. -/
def StallsFor (x : ℕ) : Record → Prop
  | .stall y _ _ _ => y = x
  | .dispatch _ _ => False

/-- The micro-op `x`, dispatched at a time between these records: if it hit, the front end never stalls
for it; if it missed, the front end stalls for it right before, as long as its latency says, and at no
other time. -/
def PaidFor (ops : List DynamicMicroOp) (before : List Record) (x : ℕ) (time : Time)
    (after : List Record) : Prop :=
  ∃ op, ops[x]? = some op ∧
    (op.iCacheHitWhere = .l1i → ∀ r ∈ before ++ after, ¬ StallsFor x r) ∧
    (op.iCacheHitWhere ≠ .l1i → ∃ earlier start period,
      before = earlier ++ [.stall x start period (start + op.iCacheLatency * period : ℕ)] ∧
      (start + op.iCacheLatency * period : ℕ) ≤ time ∧
      ∀ r ∈ earlier ++ after, ¬ StallsFor x r)

/-- **One stall for a miss**: every micro-op that is dispatched is paid for, and a stall is for a
micro-op that missed, which is the next one to be dispatched. -/
structure StallsOnce (ops : List DynamicMicroOp) (log : List Record) : Prop where
  dispatched : ∀ before x time after, log = before ++ .dispatch x time :: after →
    PaidFor ops before x time after
  stalled : ∀ before x start period (stop : Time) after,
    log = before ++ .stall x start period stop :: after →
      (∃ op, ops[x]? = some op ∧ op.iCacheHitWhere ≠ .l1i ∧
        stop = (start + op.iCacheLatency * period : ℕ)) ∧
      (after = [] ∨ ∃ time rest, after = .dispatch x time :: rest ∧ stop ≤ time)

/-! ## Histories -/

/-- The records of a front end that has dispatched `n` of the micro-ops, and maybe stalls for the next
one until a time. -/
inductive History (ops : List DynamicMicroOp) : ℕ → Option Time → List Record → Prop
  | start : History ops 0 none []
  | hit {n : ℕ} {log : List Record} {op : DynamicMicroOp} (before : History ops n none log)
      (own : ops[n]? = some op) (inCache : op.iCacheHitWhere = .l1i) (time : Time) :
      History ops (n + 1) none (log ++ [.dispatch n time])
  | miss {n : ℕ} {log : List Record} {op : DynamicMicroOp} (before : History ops n none log)
      (own : ops[n]? = some op) (missed : op.iCacheHitWhere ≠ .l1i) (start period : ℕ) :
      History ops n (some (start + op.iCacheLatency * period : ℕ))
        (log ++ [.stall n start period (start + op.iCacheLatency * period : ℕ)])
  | paid {n : ℕ} {log : List Record} {stop time : Time} (before : History ops n (some stop) log)
      (late : stop ≤ time) : History ops (n + 1) none (log ++ [.dispatch n time])

section History

variable {ops : List DynamicMicroOp} {n : ℕ} {stalled : Option Time} {log : List Record}

/-- More micro-ops enter. -/
theorem History.append (history : History ops n stalled log) (more : List DynamicMicroOp) :
    History (ops ++ more) n stalled log := by
  have kept {k : ℕ} {op : DynamicMicroOp} (own : ops[k]? = some op) :
      (ops ++ more)[k]? = some op := by
    rw [List.getElem?_append_left (List.getElem?_eq_some_iff.1 own).1]
    exact own
  induction history with
  | start => exact .start
  | hit before own inCache time ih => exact .hit ih (kept own) inCache time
  | miss before own missed start period ih => exact .miss ih (kept own) missed start period
  | paid before late ih => exact .paid ih late

/-- The front end stalls for a micro-op that missed, right after the records before. -/
theorem History.stalling {stop : Time} (history : History ops n (some stop) log) :
    ∃ op earlier start period, ops[n]? = some op ∧ op.iCacheHitWhere ≠ .l1i ∧
      stop = (start + op.iCacheLatency * period : ℕ) ∧ History ops n none earlier ∧
      log = earlier ++ [.stall n start period stop] := by
  cases history with
  | miss before own missed start period => exact ⟨_, _, _, _, own, missed, rfl, before, rfl⟩

/-- The front end has not stalled for a later micro-op than the next one. -/
theorem History.bound (history : History ops n stalled log) {x : ℕ} :
    ∀ r ∈ log, StallsFor x r → x < n ∨ x = n ∧ stalled ≠ none := by
  induction history with
  | start => exact fun r member => by cases member
  | hit before own inCache time ih =>
    intro r member stalls
    rcases List.mem_append.1 member with old | new
    · have bound := ih r old stalls
      simp only [ne_eq, not_true_eq_false, and_false, or_false] at bound
      exact .inl (bound.trans (Nat.lt_succ_self _))
    · rw [List.mem_singleton.1 new] at stalls
      exact stalls.elim
  | miss before own missed start period ih =>
    intro r member stalls
    rcases List.mem_append.1 member with old | new
    · have bound := ih r old stalls
      simp only [ne_eq, not_true_eq_false, and_false, or_false] at bound
      exact .inl bound
    · rw [List.mem_singleton.1 new] at stalls
      exact .inr ⟨Eq.symm stalls, Option.some_ne_none _⟩
  | paid before late ih =>
    intro r member stalls
    rcases List.mem_append.1 member with old | new
    · have bound := ih r old stalls
      exact .inl (by omega)
    · rw [List.mem_singleton.1 new] at stalls
      exact stalls.elim

/-- It has not stalled for the next one, unless it does now. -/
theorem History.fresh (history : History ops n none log) {x : ℕ} (later : n ≤ x) :
    ∀ r ∈ log, ¬ StallsFor x r := by
  intro r member stalls
  rcases history.bound r member stalls with before | now
  · exact absurd later (not_le.2 before)
  · exact now.2 rfl

theorem History.dispatched_lt (history : History ops n stalled log) {x : ℕ} {time : Time}
    (member : .dispatch x time ∈ log) : x < n := by
  induction history with
  | start => cases member
  | hit before own inCache time ih =>
    rcases List.mem_append.1 member with old | new
    · exact (ih old).trans (Nat.lt_succ_self _)
    · cases List.mem_singleton.1 new
      exact Nat.lt_succ_self _
  | miss before own missed start period ih =>
    rcases List.mem_append.1 member with old | new
    · exact ih old
    · cases List.mem_singleton.1 new
  | paid before late ih =>
    rcases List.mem_append.1 member with old | new
    · exact (ih old).trans (Nat.lt_succ_self _)
    · cases List.mem_singleton.1 new
      exact Nat.lt_succ_self _

/-- A front end that does not stall has not just begun to. -/
theorem History.settled (history : History ops n none log) {before : List Record}
    {x start period : ℕ} {stop : Time} : log ≠ before ++ [.stall x start period stop] := by
  intro same
  cases history with
  | start => exact List.append_ne_nil_of_right_ne_nil _ (List.cons_ne_nil _ _) same.symm
  | hit => cases (List.append_inj' same rfl).2
  | paid => cases (List.append_inj' same rfl).2

/-- A list with one more element, taken apart. -/
theorem split_concat {A : Type} {l before after : List A} {a b : A}
    (same : l ++ [a] = before ++ b :: after) :
    (after = [] ∧ before = l ∧ b = a) ∨ ∃ rest, after = rest ++ [a] ∧ l = before ++ b :: rest := by
  rcases List.eq_nil_or_concat' after with rfl | ⟨rest, c, rfl⟩
  · obtain ⟨rfl, last⟩ := List.append_inj' same rfl
    exact .inl ⟨rfl, rfl, (List.singleton_injective last).symm⟩
  · rw [← List.cons_append, ← List.append_assoc] at same
    obtain ⟨rfl, last⟩ := List.append_inj' same rfl
    exact .inr ⟨rest, by rw [List.singleton_injective last], rfl⟩

theorem PaidFor.concat {before after : List Record} {x : ℕ} {time : Time}
    (paid : PaidFor ops before x time after) {r : Record} (other : ¬ StallsFor x r) :
    PaidFor ops before x time (after ++ [r]) := by
  obtain ⟨op, own, hit, miss⟩ := paid
  have more {l : List Record} (none : ∀ r ∈ l, ¬ StallsFor x r) :
      ∀ r' ∈ l ++ [r], ¬ StallsFor x r' := by
    intro r' member
    rcases List.mem_append.1 member with old | new
    · exact none r' old
    · rwa [List.mem_singleton.1 new]
  refine ⟨op, own, fun inCache => ?_, fun missed => ?_⟩
  · rw [← List.append_assoc]
    exact more (hit inCache)
  · obtain ⟨earlier, start, period, split, late, none⟩ := miss missed
    refine ⟨earlier, start, period, split, late, ?_⟩
    rw [← List.append_assoc]
    exact more none

/-- **A history stalls once for each miss.** -/
theorem History.once (history : History ops n stalled log) : StallsOnce ops log := by
  induction history with
  | start =>
    constructor
    · exact fun before x time after same => absurd same (by simp)
    · exact fun before x start period stop after same => absurd same (by simp)
  | hit before own inCache time ih =>
    constructor
    · intro before' x time' after same
      rcases split_concat same with ⟨rfl, rfl, new⟩ | ⟨rest, rfl, old⟩
      · cases new
        refine ⟨_, own, fun _ => ?_, absurd inCache⟩
        rw [List.append_nil]
        exact before.fresh le_rfl
      · exact (ih.dispatched before' x time' rest old).concat id
    · intro before' x start period stop after same
      rcases split_concat same with ⟨rfl, rfl, new⟩ | ⟨rest, rfl, old⟩
      · cases new
      · obtain ⟨missed, next⟩ := ih.stalled before' x start period stop rest old
        rcases next with rfl | ⟨time', rest, rfl, late⟩
        · exact absurd old before.settled
        · exact ⟨missed, .inr ⟨time', _, rfl, late⟩⟩
  | miss before own missed start period ih =>
    constructor
    · intro before' x time' after same
      rcases split_concat same with ⟨rfl, rfl, new⟩ | ⟨rest, rfl, old⟩
      · cases new
      · refine (ih.dispatched before' x time' rest old).concat fun stalls => ?_
        have earlier := before.dispatched_lt (old ▸ List.mem_append_right _ List.mem_cons_self)
        exact absurd earlier (not_lt.2 (le_of_eq stalls))
    · intro before' x start' period' stop after same
      rcases split_concat same with ⟨rfl, rfl, new⟩ | ⟨rest, rfl, old⟩
      · cases new
        exact ⟨⟨_, own, missed, rfl⟩, .inl rfl⟩
      · obtain ⟨missed, next⟩ := ih.stalled before' x start' period' stop rest old
        rcases next with rfl | ⟨time', rest, rfl, late⟩
        · exact absurd old before.settled
        · exact ⟨missed, .inr ⟨time', _, rfl, late⟩⟩
  | paid before late ih =>
    obtain ⟨op, earlier, start, period, own, missed, rfl, first, rfl⟩ := before.stalling
    constructor
    · intro before' x time' after same
      rcases split_concat same with ⟨rfl, rfl, new⟩ | ⟨rest, rfl, old⟩
      · cases new
        refine ⟨op, own, fun inCache => absurd inCache missed, fun _ => ?_⟩
        refine ⟨earlier, start, period, rfl, late, ?_⟩
        rw [List.append_nil]
        exact first.fresh le_rfl
      · exact (ih.dispatched before' x time' rest old).concat id
    · intro before' x start' period' stop after same
      rcases split_concat same with ⟨rfl, rfl, new⟩ | ⟨rest, rfl, old⟩
      · cases new
      · obtain ⟨missed, next⟩ := ih.stalled before' x start' period' stop rest old
        refine ⟨missed, .inr ?_⟩
        rcases next with rfl | ⟨time', rest, rfl, late'⟩
        · have same := List.singleton_injective (List.append_inj' old rfl).2
          rw [Record.stall.injEq] at same
          obtain ⟨rfl, -, -, rfl⟩ := same
          exact ⟨_, [], rfl, late⟩
        · exact ⟨time', _, rfl, late'⟩

end History

/-! ## Front ends -/

/-- What a thread keeps for its front end. -/
structure FrontEnd where
  rob : Rob
  numInRob : ℕ
  nextSequenceNumber : ℕ
  frontendStalledUntil : Time
  inIcacheMiss : Bool
  entered : List DynamicMicroOp

namespace FrontEnd

variable (f : FrontEnd)

/-- How many micro-ops have been dispatched. -/
def dispatched : ℕ := f.rob.first + f.numInRob

/-- The stall that has not been paid for. -/
def stalled : Option Time := if f.inIcacheMiss then some f.frontendStalledUntil else none

/-- A mispredicted branch of the window that has not been issued. -/
def Unresolved (p : ℕ) : Prop :=
  p < f.dispatched ∧ ¬ f.rob.Issued p ∧
    ((f.rob.slot p).uop.microOp.branch && (f.rob.slot p).uop.branchMispredicted) = true

end FrontEnd

/-- **The invariant**: the records are a history up to the micro-ops dispatched, and while a mispredicted
branch is not issued the front end is stalled for it alone. -/
structure Charged (f : FrontEnd) (log : List Record) : Prop where
  window : f.dispatched ≤ f.rob.entries.length
  next : f.nextSequenceNumber = f.rob.entries.length
  entered : f.entered.length = f.rob.entries.length
  kind : ∀ p op, f.entered[p]? = some op →
    (f.rob.slot p).uop.kind = { op.kind with sequenceNumber := p }
  issued : ∀ p, f.rob.Issued p → p < f.dispatched
  history : History f.entered f.dispatched f.stalled log
  branches : ∀ p, f.Unresolved p → f.frontendStalledUntil = ⊤
  only : ∀ p q, f.Unresolved p → f.Unresolved q → p = q

/-- The same micro-ops in the same slots, some of them issued or not. -/
structure Alike (q q' : Rob) : Prop where
  first : q'.first = q.first
  length : q'.entries.length = q.entries.length
  kind : ∀ p, (q'.slot p).uop.kind = (q.slot p).uop.kind
  issued : ∀ p, q'.Issued p ↔ q.Issued p

namespace Alike

variable {q q' q'' : Rob}

theorem refl (q : Rob) : Alike q q := ⟨rfl, rfl, fun _ => rfl, fun _ => Iff.rfl⟩

theorem trans (one : Alike q q') (two : Alike q' q'') : Alike q q'' where
  first := two.first.trans one.first
  length := two.length.trans one.length
  kind := fun p => (two.kind p).trans (one.kind p)
  issued := fun p => (two.issued p).trans (one.issued p)

/-- One entry changes, not its micro-op and not whether it is issued. -/
theorem modify (q : Rob) {p : ℕ} {g : RobEntry → RobEntry}
    (kind : (g (q.slot p)).uop.kind = (q.slot p).uop.kind)
    (done : (g (q.slot p)).done ≠ ⊤ ↔ q.Issued p) : Alike q (q.modify p g) := by
  refine ⟨rfl, q.length_modify g, fun r => ?_, fun r => ?_⟩
  · rw [Rob.slot_modify]
    split_ifs with here
    · rw [here.1, kind]
    · rfl
  · rw [Rob.Issued, Rob.Issued, Rob.slot_modify]
    split_ifs with here
    · rw [here.1]
      exact done
    · exact Iff.rfl

end Alike

theorem mispredicted_of_kind {u v : DynamicMicroOp} (same : v.kind = u.kind) :
    (v.microOp.branch && v.branchMispredicted) = (u.microOp.branch && u.branchMispredicted) := by
  have predicted : v.kind.branchMispredicted = u.kind.branchMispredicted := by rw [same]
  rw [DynamicMicroOp.microOp_of_kind same]
  exact congrArg _ predicted

section Charged

variable {f : FrontEnd} {log : List Record}

theorem Charged.numbered (charged : Charged f log) : f.rob.Numbered := by
  intro p inside
  rw [← charged.entered] at inside
  have kind := charged.kind p _ (List.getElem?_eq_getElem inside)
  show (f.rob.slot p).uop.kind.sequenceNumber = p
  rw [kind]

/-- What has entered, of what is in the queue. -/
theorem Charged.own (charged : Charged f log) {p : ℕ} (inside : p < f.rob.entries.length) :
    ∃ op, f.entered[p]? = some op ∧ op.iCacheHitWhere = (f.rob.slot p).uop.iCacheHitWhere ∧
      op.iCacheLatency = (f.rob.slot p).uop.iCacheLatency := by
  rw [← charged.entered] at inside
  have found := List.getElem?_eq_getElem inside
  have kind := charged.kind p _ found
  refine ⟨_, found, ?_, ?_⟩
  · show _ = (f.rob.slot p).uop.kind.iCacheHitWhere
    rw [kind]
    rfl
  · show _ = (f.rob.slot p).uop.kind.iCacheLatency
    rw [kind]
    rfl

/-- The entries change, but not their micro-ops and which of them are issued. -/
theorem Charged.alike (charged : Charged f log) {q : Rob} (alike : Alike f.rob q) :
    Charged { f with rob := q } log := by
  have dispatched : FrontEnd.dispatched { f with rob := q } = f.dispatched :=
    congrArg (· + f.numInRob) alike.first
  have unresolved (p : ℕ) (now : FrontEnd.Unresolved { f with rob := q } p) : f.Unresolved p := by
    obtain ⟨inside, waiting, wrong⟩ := now
    rw [dispatched] at inside
    rw [mispredicted_of_kind (alike.kind p)] at wrong
    exact ⟨inside, fun was => waiting ((alike.issued p).2 was), wrong⟩
  exact {
    window := by
      rw [dispatched, alike.length]
      exact charged.window
    next := charged.next.trans alike.length.symm
    entered := charged.entered.trans alike.length.symm
    kind := fun p op found => (alike.kind p).trans (charged.kind p op found)
    issued := fun p was => by
      rw [dispatched]
      exact charged.issued p ((alike.issued p).1 was)
    history := by
      rw [dispatched]
      exact charged.history
    branches := fun p now => charged.branches p (unresolved p now)
    only := fun p r nowP nowR => charged.only p r (unresolved p nowP) (unresolved r nowR) }

/-- A micro-op enters. -/
theorem Charged.enter (charged : Charged f log) {op : DynamicMicroOp} {e : RobEntry}
    (kind : e.uop.kind = { op.kind with sequenceNumber := f.rob.entries.length })
    (waiting : e.done = ⊤) :
    Charged { f with
      rob := f.rob.push e
      nextSequenceNumber := f.nextSequenceNumber + 1
      entered := f.entered ++ [op] } log := by
  have slot (p : ℕ) : (f.rob.push e).slot p =
      if p = f.rob.entries.length then e else f.rob.slot p := Rob.slot_push e
  have issued (p : ℕ) (was : (f.rob.push e).Issued p) : f.rob.Issued p := by
    rw [Rob.Issued, slot] at was
    split_ifs at was with own
    · exact absurd waiting was
    · exact was
  have unresolved (p : ℕ) (now : FrontEnd.Unresolved { f with
      rob := f.rob.push e
      nextSequenceNumber := f.nextSequenceNumber + 1
      entered := f.entered ++ [op] } p) : f.Unresolved p := by
    obtain ⟨inside, waits, wrong⟩ := now
    have other : p ≠ f.rob.entries.length := by
      have bound : p < f.dispatched := inside
      have window := charged.window
      omega
    dsimp only at waits wrong
    rw [Rob.Issued, slot, if_neg other] at waits
    rw [slot, if_neg other] at wrong
    exact ⟨inside, waits, wrong⟩
  exact {
    window := charged.window.trans (by simp)
    next := by simp [charged.next]
    entered := by simp [charged.entered]
    kind := fun p op' found => by
      dsimp only at found ⊢
      rw [slot]
      split_ifs with own
      · rw [own, ← charged.entered, List.getElem?_concat_length] at found
        cases found
        rw [kind, own]
      · have inside := (List.getElem?_eq_some_iff.1 found).1
        rw [List.length_append, List.length_singleton, charged.entered] at inside
        rw [List.getElem?_append_left (by rw [charged.entered]; omega)] at found
        exact charged.kind p op' found
    issued := fun p was => charged.issued p (issued p was)
    history := charged.history.append [op]
    branches := fun p now => charged.branches p (unresolved p now)
    only := fun p r nowP nowR => charged.only p r (unresolved p nowP) (unresolved r nowR) }

/-- A front end that goes on waits for no branch. -/
theorem Charged.resolved (charged : Charged f log) {now : ℕ}
    (ready : f.frontendStalledUntil ≤ (now : Time)) (p : ℕ) : ¬ f.Unresolved p := by
  intro unresolved
  rw [charged.branches p unresolved, top_le_iff] at ready
  exact WithTop.coe_ne_top ready

/-- **A miss**: the front end begins to stall. -/
theorem Charged.miss (charged : Charged f log) {now : ℕ}
    (ready : f.frontendStalledUntil ≤ (now : Time)) (inQueue : f.dispatched < f.rob.entries.length)
    (missed : (f.rob.slot f.dispatched).uop.iCacheHitWhere ≠ .l1i) (unpaid : f.inIcacheMiss = false)
    (period : ℕ) {stop : Time}
    (stops : stop = (now + (f.rob.slot f.dispatched).uop.iCacheLatency * period : ℕ)) :
    Charged { f with frontendStalledUntil := stop, inIcacheMiss := true }
      (log ++ [.stall (f.rob.slot f.dispatched).uop.sequenceNumber now period stop]) := by
  obtain ⟨op, own, hitWhere, latency⟩ := charged.own inQueue
  have history := charged.history
  rw [FrontEnd.stalled, unpaid] at history
  exact {
    window := charged.window
    next := charged.next
    entered := charged.entered
    kind := charged.kind
    issued := charged.issued
    history := by
      rw [charged.numbered _ inQueue, stops, ← latency]
      exact history.miss own (hitWhere.symm ▸ missed) now period
    branches := fun p now => absurd now (charged.resolved ready p)
    only := fun p q now => absurd now (charged.resolved ready p) }

/-- **A dispatch**, of a micro-op that hit or has been paid for. -/
theorem Charged.dispatch (charged : Charged f log) {now : ℕ}
    (ready : f.frontendStalledUntil ≤ (now : Time)) (inQueue : f.dispatched < f.rob.entries.length)
    (paid : (f.rob.slot f.dispatched).uop.iCacheHitWhere ≠ .l1i → f.inIcacheMiss = true)
    {stop : Time} (stops : stop = if (f.rob.slot f.dispatched).uop.microOp.branch &&
      (f.rob.slot f.dispatched).uop.branchMispredicted then ⊤ else f.frontendStalledUntil) :
    Charged { f with
      numInRob := f.numInRob + 1
      inIcacheMiss := false
      frontendStalledUntil := stop }
      (log ++ [.dispatch (f.rob.slot f.dispatched).uop.sequenceNumber now]) := by
  obtain ⟨op, own, hitWhere, -⟩ := charged.own inQueue
  have new (p : ℕ) (now : FrontEnd.Unresolved { f with
      numInRob := f.numInRob + 1, inIcacheMiss := false, frontendStalledUntil := stop } p) :
      p = f.dispatched := by
    obtain ⟨inside, waiting, wrong⟩ := now
    have bound : p < f.dispatched + 1 := inside
    by_contra other
    exact charged.resolved ready p ⟨by omega, waiting, wrong⟩
  exact {
    window := inQueue
    next := charged.next
    entered := charged.entered
    kind := charged.kind
    issued := fun p was => Nat.lt_succ_of_lt (charged.issued p was)
    history := by
      rw [charged.numbered _ inQueue]
      have history := charged.history
      rw [FrontEnd.stalled] at history
      cases flag : f.inIcacheMiss with
      | true =>
        rw [flag] at history
        exact history.paid ready
      | false =>
        rw [flag] at history
        refine history.hit own ?_ now
        by_contra missed
        rw [hitWhere] at missed
        rw [paid missed] at flag
        cases flag
    branches := fun p now => by
      rw [← new p now] at stops
      exact stops.trans (if_pos now.2.2)
    only := fun p q nowP nowQ => (new p nowP).trans (new q nowQ).symm }

/-- The entry at the front leaves the queue. -/
theorem Charged.commit (charged : Charged f log) (was : f.rob.Issued f.rob.first) :
    Charged { f with rob := f.rob.pop, numInRob := f.numInRob - 1 } log := by
  have some := charged.issued _ was
  have dispatched : FrontEnd.dispatched { f with rob := f.rob.pop, numInRob := f.numInRob - 1 } =
      f.dispatched := by
    show f.rob.first + 1 + (f.numInRob - 1) = f.rob.first + f.numInRob
    rw [FrontEnd.dispatched] at some
    omega
  have unresolved (p : ℕ) (now : FrontEnd.Unresolved { f with
      rob := f.rob.pop, numInRob := f.numInRob - 1 } p) : f.Unresolved p := by
    obtain ⟨inside, waiting, wrong⟩ := now
    rw [dispatched] at inside
    exact ⟨inside, waiting, wrong⟩
  exact {
    window := by
      rw [dispatched]
      exact charged.window
    next := charged.next
    entered := charged.entered
    kind := charged.kind
    issued := fun p was => by
      rw [dispatched]
      exact charged.issued p was
    history := by
      rw [dispatched]
      exact charged.history
    branches := fun p now => charged.branches p (unresolved p now)
    only := fun p r nowP nowR => charged.only p r (unresolved p nowP) (unresolved r nowR) }

end Charged

end GpuHotSpot.Common.ICacheStalls
