import GpuHotSpot.Common.RobProducers

/-!
# Data dependences in the reorder buffer

A micro-op waits for its producers: those that are not issued are its dependencies, and the results of
the others are in `readyMax`. A load that forwards takes over the dependencies of the store, but not the
`readyMax` of the store; so an operand of the store that is on its way when the load enters is lost.

* `Operand`: the results that a micro-op needs, of those in the queue when it enters.
* `operands_available`: a micro-op is issued after its operands, if no operand is lost.
-/

namespace GpuHotSpot.Common.RobTimer

open Fallible

variable {κ : Type} {config : Config κ} {s s' : Timer κ}

/-! ## Operands -/

/-- `p` is among the micro-ops from `low` on whose results `c` needs: its producers, and for a load the
store that it reads from, or the producers of that store if the store forwards. -/
def Operand (config : Config κ) (ops : List DynamicMicroOp) (low c p : ℕ) : Prop :=
  low ≤ p ∧ (Source ops c p ∨ ∃ x, low ≤ x ∧ StoreProducer ops c x ∧
    if config.storeToLoadForwarding = true then Source ops x p else p = x)

/-- The result of `p` is there by a time. -/
def Available (s : Timer κ) (p time : ℕ) : Prop :=
  ∃ j ∈ s.issues, j.sequenceNumber = p ∧ j.cycleDepend ≤ time

/-- The entry `c` waits for the result of `p`, or knows when it is there, or it is there. -/
def Tracks (s : Timer κ) (c p : ℕ) : Prop :=
  p ∈ (s.rob.slot c).uop.allDependencies ∨ ∃ j ∈ s.issues, j.sequenceNumber = p ∧
    ((j.cycleDepend : Time) ≤ (s.rob.slot c).readyMax ∨ j.cycleDepend ≤ s.now)

/-- **When no operand is lost**: no producer of a load that may forward is a store, and all operands of
the store that it forwards from that are issued are there. -/
def OperandsInTime (config : Config κ) (s : Timer κ) (op : DynamicMicroOp) : Prop :=
  config.storeToLoadForwarding = true → op.isLoad = true →
    (∀ x u, s.rob.first ≤ x → Source (s.entered ++ [op]) s.entered.length x →
      s.entered[x]? = some u → u.isStore = false) ∧
    ∀ x, s.rob.first ≤ x → StoreProducer (s.entered ++ [op]) s.entered.length x →
      (s.rob.slot x).readyMax ≤ s.now

/-- No operand of an event is lost, and the clock is not set back. -/
def InTime (config : Config κ) (s : Timer κ) : Event → Prop
  | .simulate insts => Along (OperandsInTime config) (fun op t => enter config t op)
      (insts.filter fun op => !op.squashed) s.called
  | .synchronize time => s.now ≤ time
  | .execute => True
  | .changePeriod _ => True

/-! ## Results are not forgotten -/

variable {c p : ℕ}

theorem Tracks.mono (tracks : Tracks s c p)
    (dependencies : (s'.rob.slot c).uop.allDependencies = (s.rob.slot c).uop.allDependencies)
    (readyMax : (s'.rob.slot c).readyMax = (s.rob.slot c).readyMax) (issues : s'.issues = s.issues)
    (clock : s.now ≤ s'.now) : Tracks s' c p := by
  rw [Tracks, dependencies, readyMax, issues]
  rcases tracks with waits | ⟨j, member, same, known⟩
  · exact .inl waits
  · exact .inr ⟨j, member, same, known.imp_right fun there => there.trans clock⟩

theorem Beside.tracks (move : Beside config s s') (tracks : Tracks s c p) : Tracks s' c p := by
  cases move with
  | dispatch inWindow room inQueue =>
    obtain ⟨ready, -, dispatched, slot⟩ := dispatch_slot (s := s) (s.rob.first + s.numInRob) c
    exact tracks.mono (by rw [slot]) (by rw [slot]) rfl le_rfl
  | commit some done => exact tracks.mono rfl rfl rfl le_rfl
  | control clock same =>
    rw [same]
    exact tracks.mono rfl rfl rfl clock

section Issue

variable {q : ℕ} {u : DynamicMicroOp} {i : Issue}

/-- The dependants of an issued entry learn when its result is there. -/
theorem Issuing.tracks (sound : Sound s) (high : q < s.rob.first + s.numInRob)
    (waiting : ¬ s.rob.Issued q) (ready : (s.rob.slot q).ready ≤ s.now)
    (issuing : Issuing config q s s' u i) (tracks : Tracks s c p) : Tracks s' c p := by
  have inQueue := lt_of_lt_of_le high sound.window
  have issues : s'.issues = s.issues ++ [i] := by rw [issuing.timer]
  have now : s'.now = s.now := by rw [issuing.timer]
  have own := issuing.sequenceNumber sound.numbered inQueue
  have start : ((s.issuedRob q u).slot c).readyMax = (s.rob.slot c).readyMax := by
    by_cases same : c = q
    · rw [same, issuedRob_self inQueue]
    · rw [issuedRob_of_ne same]
  have woken := issuing.woken c
  have later : (s.rob.slot c).readyMax ≤ (s'.rob.slot c).readyMax := by
    by_cases never : (s.rob.slot q).dependants.count c = 0
    · rw [woken.unchanged never, start]
    · rw [woken.readyMax never, start]
      exact le_max_left _ _
  rw [Tracks, issues, now]
  rcases tracks with waits | ⟨j, member, same, known⟩
  · have perm := issuing.dependencies_perm sound inQueue waiting ready c
    rcases List.mem_append.mp (perm.mem_iff.mp waits) with removed | left
    · obtain ⟨some, rfl⟩ := List.mem_replicate.mp removed
      refine .inr ⟨i, List.mem_append_right _ (List.mem_singleton_self i), own, .inl ?_⟩
      rw [woken.readyMax some]
      exact le_max_right _ _
    · exact .inl left
  · exact .inr ⟨j, List.mem_append_left _ member, same, known.imp_left fun there => there.trans later⟩

end Issue

/-! ## A micro-op enters -/

section Enter

variable {op u v : DynamicMicroOp} {q : Rob} {e : RobEntry} {n : ℕ}

theorem Entering.tracks_of_ne (entering : Entering config op s s' u v q e)
    (other : c ≠ s.rob.entries.length) (tracks : Tracks s c p) : Tracks s' c p := by
  have issues : s'.issues = s.issues := by rw [entering.timer]
  have now : s.now = s'.now := by rw [entering.timer]
  have slot := entering.slot_of_ne other
  exact tracks.mono (by rw [slot]) (by rw [slot]) issues now.le

/-- The new entry knows of its dependencies. -/
theorem Entering.tracks_own (sound : Sound s) (entering : Entering config op s s' u v q e)
    (member : p ∈ v.allDependencies) : Tracks s' s.rob.entries.length p := by
  have issues : s'.issues = s.issues := by rw [entering.timer]
  rw [Tracks, entering.slot_self, issues]
  by_cases issued : s.rob.Issued p
  · obtain ⟨j, there, rfl⟩ := (sound.log p).mp issued
    refine .inr ⟨j, there, rfl, .inl ((sound.done j there).trans ?_)⟩
    exact (entering.readyMax _).mp le_rfl _ member issued
  · exact .inl (entering.mem_dependencies.2 ⟨member, issued⟩)

/-- Everything in the queue tracks its operands. -/
def TracksAll (config : Config κ) (s : Timer κ) : Prop :=
  ∀ c p, c < s.entered.length → Operand config s.entered s.rob.first c p → Tracks s c p

theorem Operand.append_iff {ops more : List DynamicMicroOp} {low : ℕ} (inside : c < ops.length) :
    Operand config (ops ++ more) low c p ↔ Operand config ops low c p := by
  rw [Operand, Operand, Source.append_iff inside]
  refine and_congr_right fun _ => or_congr_right (exists_congr fun x => ?_)
  rw [StoreProducer.append_iff inside]
  refine and_congr_right fun _ => and_congr_right fun ⟨op, _, _, last⟩ => ?_
  rw [Source.append_iff (last.before.trans inside)]

/-- **A new micro-op knows of its operands.** -/
theorem Entering.tracks (bare : op.dependencies = []) (sound : Sound s) (producing : Producing s)
    (all : TracksAll config s) (inTime : OperandsInTime config s op)
    (entering : Entering config op s s' u v q e)
    (operand : Operand config s'.entered s.rob.first s.entered.length p) :
    Tracks s' s.rob.entries.length p := by
  have entered : s'.entered = s.entered ++ [op] := by rw [entering.timer]
  have members {x : ℕ} := entering.mem_producers bare sound producing (x := x)
  have isLoad : u.isLoad = op.isLoad :=
    DynamicMicroOp.isLoad_of_bare (u := s.own op) entering.bareOwn
  have source {x : ℕ} (valid : s.rob.first ≤ x) (src : Source s'.entered s.entered.length x) :
      x ∈ u.allDependencies := members.mpr <| by
    rcases src with register | intra
    · exact .inr (.inl ⟨valid, .inl register⟩)
    · exact .inl intra
  have storing {x : ℕ} {w : DynamicMicroOp} (found : s.entered[x]? = some w) :
      w.isStore = (s.rob.slot x).uop.isStore := by
    rw [DynamicMicroOp.isStore, DynamicMicroOp.isStore, sound.microOp found]
  -- the store that is found is no producer of an operand
  have noSource {z : ℕ} (on : (config.storeToLoadForwarding && u.isLoad) = true)
      (first : FirstStore s.rob u.allDependencies z) : ¬ Source s'.entered s.entered.length z := by
    intro src
    obtain ⟨⟨valid, inside⟩, before, after, -, store, -⟩ := first
    rw [isLoad, Bool.and_eq_true] at on
    have found := List.getElem?_eq_getElem (sound.entered.symm ▸ inside : z < s.entered.length)
    have plain := (inTime on.1 on.2).1 z _ valid (entered ▸ src) found
    rw [storing found, store] at plain
    cases plain
  obtain ⟨valid, src | ⟨x, validX, store, operandOf⟩⟩ := operand
  · have there := source valid src
    have forwarded := entering.forwarded
    cases forwarded with
    | off none => exact entering.tracks_own sound there
    | noStore on none => exact entering.tracks_own sound there
    | store on first bareV without membersV =>
      rcases List.mem_cons.mp (without.mem_iff.mp there) with rfl | rest
      · exact absurd src (noSource on first)
      · exact entering.tracks_own sound ((membersV p).mpr (.inl rest))
  · have there : x ∈ u.allDependencies := members.mpr (.inr (.inl ⟨validX, .inr store⟩))
    obtain ⟨w, found, load, last⟩ := id store
    have own : s'.entered[s.entered.length]? = some op := by rw [entered]; simp
    obtain rfl : op = w := Option.some_injective _ (own.symm.trans found)
    have storeX : (s.rob.slot x).uop.isStore = true := by
      obtain ⟨w, foundX, stores⟩ := last.holds
      rw [entered, List.getElem?_append_left last.before] at foundX
      exact storing foundX ▸ stores.1
    have forwarded := entering.forwarded
    cases forwarded with
    | off none =>
      rw [isLoad, load, Bool.and_true] at none
      rw [if_neg (by rw [none]; exact Bool.false_ne_true)] at operandOf
      exact entering.tracks_own sound (operandOf ▸ there)
    | noStore on none =>
      rw [none x there] at storeX
      cases storeX
    | @store _ z rest on first bareV without membersV =>
      have forwarding : config.storeToLoadForwarding = true := (Bool.and_eq_true _ _ ▸ on).1
      have plain := noSource on first
      have member : z ∈ u.allDependencies := without.mem_iff.mpr List.mem_cons_self
      obtain ⟨⟨validZ, insideZ⟩, before, after, -, storeZ, -⟩ := first
      have same : z = x := by
        rcases members.mp member with intra | ⟨-, register | storeZ⟩ | ⟨-, membar, -⟩
        · exact absurd (.inr intra) plain
        · exact absurd (.inl register) plain
        · obtain ⟨w, foundZ, -, lastZ⟩ := storeZ
          obtain rfl : op = w := Option.some_injective _ (own.symm.trans foundZ)
          exact lastZ.unique last
        · obtain ⟨w, foundZ, noStore⟩ := producing.membar z membar
          rw [storing foundZ, storeZ] at noStore
          cases noStore
      subst same
      rw [if_pos forwarding, entered, Source.append_iff last.before] at operandOf
      rcases all z p last.before ⟨valid, .inl operandOf⟩ with waits | ⟨j, there, sameJ, known⟩
      · exact entering.tracks_own sound ((membersV p).mpr (.inr waits))
      · have now : s'.now = s.now := by rw [entering.timer]
        have issues : s'.issues = s.issues := by rw [entering.timer]
        have early : j.cycleDepend ≤ s.now := by
          rcases known with waited | there
          · exact WithTop.coe_le_coe.mp
              (waited.trans ((inTime forwarding load).2 z validZ (entered ▸ store)))
          · exact there
        rw [Tracks, issues, now]
        exact .inr ⟨j, there, sameJ, .inr early⟩

end Enter

/-! ## Runs -/

/-- The tables are true, and everything in the queue tracks its operands. -/
structure Tracking (config : Config κ) (s : Timer κ) : Prop where
  producing : Producing s
  all : TracksAll config s

theorem tracking_start (config : Config κ) (period : ℕ) :
    Tracking config (Timer.start config period) where
  producing := producing_start config period
  all := fun c _ inside => absurd inside (Nat.not_lt_zero c)

theorem Tracking.enter {op u v : DynamicMicroOp} {q : Rob} {e : RobEntry}
    (tracking : Tracking config s) (bare : op.dependencies = []) (sound : Sound s)
    (inTime : OperandsInTime config s op) (entering : Entering config op s s' u v q e) :
    Tracking config s' := by
  refine ⟨tracking.producing.enter sound entering, fun c p inside operand => ?_⟩
  have entered : s'.entered = s.entered ++ [op] := by rw [entering.timer]
  rw [entered, List.length_append, List.length_singleton] at inside
  rw [entering.first] at operand
  by_cases own : c = s.entered.length
  · subst own
    have tracks := entering.tracks bare sound tracking.producing tracking.all inTime operand
    rwa [← sound.entered] at tracks
  · have older : c < s.entered.length := by omega
    rw [entered, Operand.append_iff older] at operand
    exact entering.tracks_of_ne (sound.entered ▸ own) (tracking.all c p older operand)

theorem Operand.mono {ops : List DynamicMicroOp} {low low' : ℕ} (le : low ≤ low')
    (operand : Operand config ops low' c p) : Operand config ops low c p := by
  obtain ⟨valid, src | ⟨x, validX, store, operandOf⟩⟩ := operand
  · exact ⟨le.trans valid, .inl src⟩
  · exact ⟨le.trans valid, .inr ⟨x, le.trans validX, store, operandOf⟩⟩

theorem Beside.tracking (move : Beside config s s') (tracking : Tracking config s) :
    Tracking config s' := by
  refine ⟨move.producing tracking.producing, fun c p inside operand => move.tracks ?_⟩
  have same : s'.entered = s.entered ∧ s.rob.first ≤ s'.rob.first := by
    cases move with
    | dispatch inWindow room inQueue => exact ⟨rfl, le_rfl⟩
    | commit some done => exact ⟨rfl, Nat.le_succ _⟩
    | control clock same =>
      rw [same]
      exact ⟨rfl, le_rfl⟩
  rw [same.1] at inside operand
  exact tracking.all c p inside (operand.mono same.2)

theorem Tracking.issue {q : ℕ} {u : DynamicMicroOp} {i : Issue} (tracking : Tracking config s)
    (sound : Sound s) (high : q < s.rob.first + s.numInRob) (waiting : ¬ s.rob.Issued q)
    (ready : (s.rob.slot q).ready ≤ s.now) (issuing : Issuing config q s s' u i) :
    Tracking config s' := by
  refine ⟨issuing.producing tracking.producing, fun c p inside operand => ?_⟩
  have entered : s'.entered = s.entered := by rw [issuing.timer]
  rw [entered] at inside operand
  rw [issuing.first] at operand
  exact issuing.tracks sound high waiting ready (tracking.all c p inside operand)

theorem Tracking.synchronize (tracking : Tracking config s) {time : ℕ} (later : s.now ≤ time) :
    Tracking config { s with now := time } :=
  ⟨tracking.producing.of_same le_rfl rfl rfl rfl,
    fun c p inside operand => (tracking.all c p inside operand).mono rfl rfl rfl later⟩

/-- **One event**, when no operand is lost. -/
theorem Tracking.step {e : Event} (inTime : InTime config s e) (sound : Sound s)
    (tracking : Tracking config s) :
    Ensures (fun s => Sound s ∧ Tracking config s) (fun _ => True) (step config e s) := by
  refine step_ensures (fun insts isSimulate bare sound now => ?_)
    (fun t t' _ move now => move.tracking now)
    (fun t _ _ _ _ _ sound now => doIssue_inv (fun t t' _ move now => move.tracking now)
      (fun t t' q u i sound high waiting ready issuing now =>
        now.issue sound high waiting ready issuing) sound now)
    (fun time isSynchronize now => ?_) sound tracking
  · subst isSimulate
    exact enterAll_ensures bare inTime
      (fun t t' op u v q e plain inTime sound entering now => now.enter plain sound inTime entering)
      sound now
  · subst isSynchronize
    exact now.synchronize inTime

/-! ## Issue times -/

/-- The entry `c` tracks the result of `p`, and when `c` is issued the result is there. -/
structure Settled (s : Timer κ) (c p : ℕ) : Prop where
  tracks : Tracks s c p
  available : ∀ i ∈ s.issues, i.sequenceNumber = c → Available s p i.time

theorem Available.append {t : Timer κ} {i : Issue} {time : ℕ} (issues : t.issues = s.issues ++ [i])
    (available : Available s p time) : Available t p time := by
  obtain ⟨j, member, same⟩ := available
  exact ⟨j, issues ▸ List.mem_append_left _ member, same⟩

theorem Settled.of_same (settled : Settled s c p) (tracks : Tracks s' c p)
    (issues : s'.issues = s.issues) : Settled s' c p := by
  refine ⟨tracks, fun i member same => ?_⟩
  rw [issues] at member
  obtain ⟨j, there, known⟩ := settled.available i member same
  exact ⟨j, issues ▸ there, known⟩

/-- When an entry is issued, its operands are there. -/
theorem Settled.issue {q : ℕ} {u : DynamicMicroOp} {i : Issue} (sound : Sound s)
    (high : q < s.rob.first + s.numInRob) (waiting : ¬ s.rob.Issued q)
    (ready : (s.rob.slot q).ready ≤ s.now) (issuing : Issuing config q s s' u i)
    (settled : Settled s c p) : Settled s' c p := by
  have issues : s'.issues = s.issues ++ [i] := by rw [issuing.timer]
  refine ⟨issuing.tracks sound high waiting ready settled.tracks, fun j member same => ?_⟩
  rw [issues] at member
  rcases List.mem_append.mp member with old | new
  · exact (settled.available j old same).append issues
  · obtain rfl := List.mem_singleton.mp new
    obtain rfl : q = c :=
      (issuing.sequenceNumber sound.numbered (lt_of_lt_of_le high sound.window)).symm.trans same
    have time : j.time = s.now := by rw [issuing.issue]; rfl
    rcases settled.tracks with waits | ⟨k, there, own, known⟩
    · rw [sound.free_of_ready waiting ready] at waits
      cases waits
    · have early : k.cycleDepend ≤ s.now := by
        rcases known with waited | early
        · exact WithTop.coe_le_coe.mp (waited.trans ((sound.readyMax q).trans ready))
        · exact early
      exact ⟨k, issues ▸ List.mem_append_left _ there, own, time ▸ early⟩

/-- The micro-ops of a call of `simulate` are settled for good: `ops` had entered at its end, the call's
own ones from `start`, and the queue began at `low`. -/
structure Settling (config : Config κ) (ops : List DynamicMicroOp) (low start : ℕ) (s : Timer κ) :
    Prop where
  entered : ∃ more, s.entered = ops ++ more
  settled : ∀ c p, start ≤ c → c < ops.length → Operand config ops low c p → Settled s c p

variable {ops : List DynamicMicroOp} {low start : ℕ}

theorem Settling.enter {op u v : DynamicMicroOp} {q : Rob} {e : RobEntry}
    (settling : Settling config ops low start s) (sound : Sound s)
    (entering : Entering config op s s' u v q e) : Settling config ops low start s' := by
  have entered : s'.entered = s.entered ++ [op] := by rw [entering.timer]
  have issues : s'.issues = s.issues := by rw [entering.timer]
  obtain ⟨more, split⟩ := settling.entered
  refine ⟨⟨more ++ [op], by rw [entered, split, List.append_assoc]⟩, fun c p from' inside operand => ?_⟩
  have settled := settling.settled c p from' inside operand
  have other : c ≠ s.rob.entries.length := by
    rw [← sound.entered, split, List.length_append]
    omega
  exact settled.of_same (entering.tracks_of_ne other settled.tracks) issues

theorem Beside.settling (move : Beside config s s') (settling : Settling config ops low start s) :
    Settling config ops low start s' := by
  have same : s'.entered = s.entered ∧ s'.issues = s.issues := by
    cases move with
    | dispatch inWindow room inQueue => exact ⟨rfl, rfl⟩
    | commit some done => exact ⟨rfl, rfl⟩
    | control clock same =>
      rw [same]
      exact ⟨rfl, rfl⟩
  refine ⟨same.1.symm ▸ settling.entered, fun c p from' inside operand => ?_⟩
  have settled := settling.settled c p from' inside operand
  exact settled.of_same (move.tracks settled.tracks) same.2

theorem Settling.step {e : Event} (inTime : InTime config s e) (sound : Sound s)
    (settling : Settling config ops low start s) :
    Ensures (fun s => Sound s ∧ Settling config ops low start s) (fun _ => True) (step config e s) := by
  refine step_ensures
    (fun insts _ bare sound now => enterAll_inv bare
      (fun t t' op u v q e _ sound entering now => now.enter sound entering) sound now)
    (fun t t' _ move now => move.settling now)
    (fun t _ _ _ _ _ sound now => doIssue_inv (fun t t' _ move now => move.settling now)
      (fun t t' q u i sound high waiting ready issuing now => ?_) sound now)
    (fun time isSynchronize now => ?_) sound settling
  · refine ⟨?_, fun c p from' inside operand =>
      (now.settled c p from' inside operand).issue sound high waiting ready issuing⟩
    rw [issuing.timer]
    exact now.entered
  · subst isSynchronize
    refine ⟨now.entered, fun c p from' inside operand => ?_⟩
    have settled := now.settled c p from' inside operand
    exact settled.of_same (settled.tracks.mono rfl rfl rfl inTime) rfl

/-- A call of `simulate` only adds micro-ops. -/
theorem simulate_spec {insts : List DynamicMicroOp} (sound : Sound s)
    (ran : step config (.simulate insts) s = .ok s') :
    (∃ more, s'.entered = s.entered ++ more) ∧ s'.issues = s.issues ∧ s'.rob.first = s.rob.first := by
  obtain ⟨bare, ran⟩ := step_simulate ran
  have all : Ensures (fun t => Sound t ∧ (∃ more, t.entered = s.entered ++ more) ∧
      t.issues = s.issues ∧ t.rob.first = s.rob.first) (fun _ => True)
      (enterAll config insts s.called) := by
    refine enterAll_inv bare (fun t t' op u v q e _ _ entering now => ?_)
      ((Timer.called_beside config s).sound sound) ⟨⟨[], (List.append_nil _).symm⟩, rfl, rfl⟩
    obtain ⟨⟨more, split⟩, issues, first⟩ := now
    have entered : t'.entered = t.entered ++ [op] := by rw [entering.timer]
    have same : t'.issues = t.issues := by rw [entering.timer]
    exact ⟨⟨more ++ [op], by rw [entered, split, List.append_assoc]⟩, same.trans issues,
      entering.first.trans first⟩
  exact (all.of_ok ran).2

/-- **Data dependences are respected**: in every run in which no operand is lost, the micro-ops of each
call of `simulate` are issued when the results that they need are there. -/
theorem operands_available (config : Config κ) (period : ℕ) (es₁ es₂ : List Event)
    (insts : List DynamicMicroOp) (s₁ t s₂ : Timer κ)
    (before : runEvents (step config) es₁ (Timer.start config period) = .ok s₁)
    (entered : step config (.simulate insts) s₁ = .ok t)
    (after : runEvents (step config) es₂ t = .ok s₂)
    (along : Along (InTime config) (step config) (es₁ ++ .simulate insts :: es₂)
      (Timer.start config period)) :
    ∀ i ∈ s₂.issues, s₁.entered.length ≤ i.sequenceNumber → i.sequenceNumber < t.entered.length →
      ∀ p, Operand config s₂.entered s₁.rob.first i.sequenceNumber p → Available s₂ p i.time := by
  have first : Ensures (fun s => Sound s ∧ Tracking config s) (fun _ => True)
      (runEvents (step config) es₁ (Timer.start config period)) :=
    along.of_append.ensures_runEvents (fun e s inTime both => both.2.step inTime both.1)
      ⟨sound_start config period, tracking_start config period⟩
  obtain ⟨sound, tracking⟩ := first.of_ok before
  have later := along.after before
  obtain ⟨soundT, trackingT⟩ := (tracking.step later.1 sound).of_ok entered
  obtain ⟨-, issues, front⟩ := simulate_spec sound entered
  -- none of the new micro-ops is issued yet
  have settling : Settling config t.entered s₁.rob.first s₁.entered.length t := by
    refine ⟨⟨[], (List.append_nil _).symm⟩, fun c p new inside operand =>
      ⟨trackingT.all c p inside (front.symm ▸ operand), fun i member same => ?_⟩⟩
    rw [issues] at member
    have old := sound.issued _ ((sound.log i.sequenceNumber).mpr ⟨i, member, rfl⟩)
    have window := sound.window
    have length := sound.entered
    omega
  have last : Ensures
      (fun s => Sound s ∧ Settling config t.entered s₁.rob.first s₁.entered.length s)
      (fun _ => True) (runEvents (step config) es₂ t) :=
    (later.2 t entered).ensures_runEvents (fun e s inTime both => both.2.step inTime both.1)
      ⟨soundT, settling⟩
  obtain ⟨-, ⟨rest, whole⟩, settled⟩ := last.of_ok after
  intro i member new inside p operand
  rw [whole, Operand.append_iff inside] at operand
  exact (settled _ p new inside operand).available i member rfl

/-! ## An operand that is lost -/

/-- A slow micro-op, and two others. -/
def slowEvents : List Event :=
  .simulate [plainMicroOp [] [1] 20 false, plainMicroOp [] [] 1 false, plainMicroOp [] [] 1 false] ::
    List.replicate 3 .execute

/-- A store of the slow result, a load that reads it back, and three others. -/
def forwardedLoad : List DynamicMicroOp :=
  [memoryMicroOp .store [1] [] 100, memoryMicroOp .load [] [2] 100, plainMicroOp [] [] 1 false,
    plainMicroOp [] [] 1 false, plainMicroOp [] [] 1 false]

/-- The slow result that the store waits for is an operand of the load. -/
theorem operand_of_forwardedLoad {s : Timer Unit}
    (entered : s.entered = [plainMicroOp [] [1] 20 false, plainMicroOp [] [] 1 false,
      plainMicroOp [] [] 1 false] ++ forwardedLoad) : Operand narrowConfig s.entered 0 4 0 := by
  rw [entered]
  have store : LastBefore ([plainMicroOp [] [1] 20 false, plainMicroOp [] [] 1 false,
      plainMicroOp [] [] 1 false] ++ forwardedLoad) (StoresTo 100) 4 3 :=
    ⟨by decide, ⟨_, rfl, rfl, rfl⟩, fun y op above below => absurd below (by omega)⟩
  have register : LastBefore ([plainMicroOp [] [1] 20 false, plainMicroOp [] [] 1 false,
      plainMicroOp [] [] 1 false] ++ forwardedLoad) (Writes 1) 3 0 := by
    refine ⟨by decide, ⟨_, rfl, List.mem_singleton_self 1⟩, fun y op above below found writes => ?_⟩
    rcases (show y = 1 ∨ y = 2 by omega) with rfl | rfl
    · cases found
      cases writes
    · cases found
      cases writes
  refine ⟨le_rfl, .inr ⟨3, Nat.zero_le 3, ⟨_, rfl, rfl, store⟩, ?_⟩⟩
  rw [if_pos (show narrowConfig.storeToLoadForwarding = true from rfl)]
  exact .inl ⟨_, rfl, 1, List.mem_singleton_self 1, register⟩

/-- The load is issued at 5, and the result that it reads is there at 21. -/
theorem operand_lost : ∃ s₁ t s₂,
    runEvents (step narrowConfig) slowEvents (Timer.start narrowConfig 1) = .ok s₁ ∧
    step narrowConfig (.simulate forwardedLoad) s₁ = .ok t ∧
    runEvents (step narrowConfig) (List.replicate 4 .execute) t = .ok s₂ ∧
    ∃ i ∈ s₂.issues, s₁.entered.length ≤ i.sequenceNumber ∧ i.sequenceNumber < t.entered.length ∧
      ∃ p, Operand narrowConfig s₂.entered s₁.rob.first i.sequenceNumber p ∧
        ¬ Available s₂ p i.time := by
  refine ⟨_, _, _, rfl, rfl, rfl, ⟨4, 5, 10, 11⟩, by decide, by decide, by decide, 0, ?_, ?_⟩
  · exact operand_of_forwardedLoad rfl
  · rintro ⟨j, member, same, early⟩
    revert j
    decide

/-- A micro-op of two cycles, the store and the load enter together, and are issued at 1, 3 and 4. -/
theorem operands_available_together : ∃ s₁ t s₂,
    runEvents (step narrowConfig) [] (Timer.start narrowConfig 1) = .ok s₁ ∧
    step narrowConfig (.simulate (plainMicroOp [] [1] 2 false :: forwardedLoad)) s₁ = .ok t ∧
    runEvents (step narrowConfig) (List.replicate 5 .execute) t = .ok s₂ ∧
    s₂.issues = [⟨0, 1, 3, 4⟩, ⟨1, 3, 4, 9⟩, ⟨2, 4, 9, 10⟩] ∧
    ∀ i ∈ s₂.issues, s₁.entered.length ≤ i.sequenceNumber → i.sequenceNumber < t.entered.length →
      ∀ p, Operand narrowConfig s₂.entered s₁.rob.first i.sequenceNumber p →
        Available s₂ p i.time := by
  obtain ⟨t, entered⟩ : ∃ t, step narrowConfig
    (.simulate (plainMicroOp [] [1] 2 false :: forwardedLoad)) (Timer.start narrowConfig 1) = .ok t :=
      ⟨_, rfl⟩
  obtain ⟨s₂, after, issues⟩ : ∃ s₂, runEvents (step narrowConfig) (List.replicate 5 .execute) t =
      .ok s₂ ∧ s₂.issues = [⟨0, 1, 3, 4⟩, ⟨1, 3, 4, 9⟩, ⟨2, 4, 9, 10⟩] := by
    cases entered
    exact ⟨_, rfl, by decide⟩
  have executes (n : ℕ) (t : Timer Unit) :
      Along (InTime narrowConfig) (step narrowConfig) (List.replicate n .execute) t := by
    induction n generalizing t with
    | zero => trivial
    | succ n ih => exact ⟨trivial, fun t _ => ih t⟩
  refine ⟨_, t, s₂, rfl, entered, after, issues,
    operands_available narrowConfig 1 [] (List.replicate 5 .execute) _ _ t s₂ rfl entered after
      ⟨?_, fun t' _ => executes 5 t'⟩⟩
  refine ⟨fun _ load => absurd load (by decide), fun t₁ one => ?_⟩
  refine ⟨fun _ load => absurd load (by decide), fun t₂ two => ⟨fun _ _ => ?_, fun t₃ _ =>
    ⟨fun _ load => absurd load (by decide), fun t₄ _ =>
      ⟨fun _ load => absurd load (by decide), fun t₅ _ =>
        ⟨fun _ load => absurd load (by decide), fun t₆ _ => trivial⟩⟩⟩⟩⟩
  obtain ⟨list, slow, store⟩ : t₂.entered =
      [plainMicroOp [] [1] 2 false, memoryMicroOp .store [1] [] 100] ∧
      (t₂.rob.slot 0).readyMax ≤ t₂.now ∧ (t₂.rob.slot 1).readyMax ≤ t₂.now := by
    cases one
    cases two
    exact ⟨rfl, le_rfl, le_rfl⟩
  rw [list]
  refine ⟨?_, ?_⟩
  · rintro x u - (⟨op, found, r, member, -⟩ | ⟨op, found, low, high⟩)
    · cases found
      cases member
    · cases found
      have low : 2 ≤ x := low
      have high : x < 2 := high
      omega
  · rintro x - ⟨op, -, -, last⟩
    have before : x < 2 := last.before
    rcases (show x = 0 ∨ x = 1 by omega) with rfl | rfl
    · exact slow
    · exact store

end GpuHotSpot.Common.RobTimer
