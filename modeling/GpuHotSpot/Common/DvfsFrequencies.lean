import Mathlib
import GpuHotSpot.Lib.Machine

/-!
# Frequencies that are set and reported

The two control loops of `common/scheduler/scheduler_open.cc` that change the frequencies of cores,
and where these are kept: the DVFS manager has a clock period for every domain of cores, the
scheduler a maximum for every core, and the performance counters the frequencies they were notified
of. `executeDVFSPolicy` notifies them of what its policy wants, which `setFrequency` limits.

* `setFrequency_spec`: the frequency of a core after a call.
* `executeDVFSPolicy_spec`, `ensures_checkFrequencies`: the loops.
* `frequencies_in_force`: what is reported is in force, and within its limits, in runs in which the
  policy keeps to the limits.
-/

namespace GpuHotSpot.Common.Dvfs

open Fallible

/-- A division by zero or a conversion without a value is undefined; `at` checks its index. -/
inductive Fault where
  | undefined | outOfRange
  deriving DecidableEq

/-- The arithmetic of `double` that `checkFrequencies` uses. Not every number has a value of the type
`int`. -/
structure Arithmetic (D : Type) where
  ofInt : ℤ → D
  mul : D → D → D
  sub : D → D → D
  div : D → D → D
  less : D → D → Bool
  toInt : D → Option ℤ

structure Config (D : Type) where
  coresPerSocket : ℕ
  minFrequency : ℤ
  maxFrequency : ℤ
  subcoreEnabled : Bool
  vth : D
  deltaVScaleFactor : D
  arithmetic : Arithmetic D

/-- The periods of the domains in femtoseconds, the maximum of each core, and the frequencies of the
performance counters. -/
structure State (n : ℕ) where
  appProcDomains : ℕ → ℕ
  maxFrequencyDynamic : Fin n → ℤ
  frequencies : List ℤ

variable {D : Type} {n : ℕ} (config : Config D)

/-! ## The DVFS manager and the magic server -/

def getCoreDomainId (core : Fin n) : ℕ :=
  core / config.coresPerSocket

/-- `MagicServer::getFrequency`, by `getPeriodInFreqMHz`. -/
def MagicServer.getFrequency (core : Fin n) (s : State n) : Except Fault ℤ :=
  if s.appProcDomains (getCoreDomainId config core) = 0 then .error .undefined
  else .ok (10 ^ 9 / s.appProcDomains (getCoreDomainId config core) : ℕ)

/-- `MagicServer::setFrequency` with a number of 64 bits. At zero the core is stalled, and keeps its
period. -/
def MagicServer.setFrequency (core : Fin n) (freq_in_mhz : ℕ) (s : State n) : State n :=
  let freq_in_hz := 1000000 * freq_in_mhz % 2 ^ 64
  if 0 < freq_in_hz then
    { s with
      appProcDomains :=
        Function.update s.appProcDomains (getCoreDomainId config core) (10 ^ 15 / freq_in_hz) }
  else s

/-! ## The performance counters -/

def getFreqOfCore (core : Fin n) (s : State n) : ℤ :=
  s.frequencies.getD core (-1)

def notifyFreqsOfCores (newFrequencies : List ℤ) (s : State n) : State n :=
  { s with frequencies := newFrequencies }

/-! ## The scheduler -/

/-- The limits of `setFrequency`. -/
def limited (core : Fin n) (frequency : ℤ) (s : State n) : ℤ :=
  let frequency := if frequency < config.minFrequency then config.minFrequency else frequency
  if frequency > s.maxFrequencyDynamic core then s.maxFrequencyDynamic core else frequency

def setFrequency (core : Fin n) (frequency : ℤ) (s : State n) : Except Fault (State n) := do
  let oldFrequency ← MagicServer.getFrequency config core s
  if limited config core frequency s ≠ oldFrequency then
    .ok (MagicServer.setFrequency config core (limited config core frequency s % 2 ^ 64).toNat s)
  else .ok s

/-- The calls of `setFrequency` for cores, with the states after them. -/
abbrev Calls (n : ℕ) : Type := List (Fin n × State n)

/-- A pass of the loop of `executeDVFSPolicy`. -/
def setPolicyFrequency (frequencies : List ℤ) (now : State n × Calls n) (core : Fin n) :
    Except Fault (State n × Calls n) :=
  match frequencies[(core : ℕ)]? with
  | none => .error .outOfRange
  | some frequency => do
      let s ← setFrequency config core frequency now.1
      .ok (s, now.2 ++ [(core, s)])

/-- `executeDVFSPolicy`, where the policy returns the `frequencies`. -/
def executeDVFSPolicy (frequencies : List ℤ) (s : State n) :
    Except Fault (State n × Calls n) := do
  let _oldFrequencies ← (List.finRange n).mapM fun core => MagicServer.getFrequency config core s
  let now ← (List.finRange n).foldlM (setPolicyFrequency config frequencies) (s, [])
  .ok (notifyFreqsOfCores frequencies now.1, now.2)

/-- `std::max_element`. -/
def maxElement : List D → Option D
  | [] => none
  | x :: xs => some (xs.foldl (fun y x => if config.arithmetic.less y x then x else y) x)

/-- The value for a core, or the largest one. -/
def measured (values : List D) (core : Fin n) : Option D :=
  if config.subcoreEnabled then maxElement config values else values[(core : ℕ)]?

/-- `maxFrequency * (1 - (delta_v * delta_v_scale_factor)/(vdd-vth))` as an `int`. -/
def newMaxFrequency (vdds delta_vs : List D) (core : Fin n) : Except Fault ℤ :=
  let a := config.arithmetic
  match measured config vdds core, measured config delta_vs core with
  | some vdd, some delta_v =>
    match a.toInt (a.mul (a.ofInt config.maxFrequency) (a.sub (a.ofInt 1)
      (a.div (a.mul delta_v config.deltaVScaleFactor) (a.sub vdd config.vth)))) with
    | some frequency => .ok frequency
    | none => .error .undefined
  | _, _ => .error .outOfRange

/-- `maxFrequencyDynamic.at(core) = newMaxFrequency`. -/
def State.setMaximum (core : Fin n) (newMax : ℤ) (s : State n) : State n :=
  { s with maxFrequencyDynamic := Function.update s.maxFrequencyDynamic core newMax }

/-- A pass of the loop of `checkFrequencies`. -/
def checkFrequency (vdds delta_vs : List D) (now : State n × Calls n) (core : Fin n) :
    Except Fault (State n × Calls n) := do
  let frequency ← MagicServer.getFrequency config core now.1
  let newMax ← newMaxFrequency config vdds delta_vs core
  if frequency > newMax then do
    let s ← setFrequency config core frequency (now.1.setMaximum core newMax)
    .ok (s, now.2 ++ [(core, s)])
  else .ok (now.1.setMaximum core newMax, now.2)

/-- `checkFrequencies` with what is measured. -/
def checkFrequencies (vdds delta_vs : List D) (s : State n) : Except Fault (State n × Calls n) :=
  (List.finRange n).foldlM (checkFrequency config vdds delta_vs) (s, [])

/-! ## Runs -/

inductive Event (D : Type) where
  | dvfs (frequencies : List ℤ)
  | check (vdds delta_vs : List D)

/-- The state, the calls of `setFrequency` up to now, and the states after `executeDVFSPolicy`. -/
structure History (n : ℕ) where
  state : State n
  calls : Calls n
  executed : List (State n)

def step : Event D → History n → Except Fault (History n)
  | .dvfs frequencies, h => do
      let (s, calls) ← executeDVFSPolicy config frequencies h.state
      .ok ⟨s, h.calls ++ calls, h.executed ++ [s]⟩
  | .check vdds delta_vs, h => do
      let (s, calls) ← checkFrequencies config vdds delta_vs h.state
      .ok ⟨s, h.calls ++ calls, h.executed⟩

/-- The performance counters report for each core the frequency that the magic server holds. -/
def Reported (s : State n) : Prop :=
  ∀ core, MagicServer.getFrequency config core s = .ok (getFreqOfCore core s)

/-- The frequency of the core is within its limits. -/
def Limited (core : Fin n) (s : State n) : Prop :=
  ∃ frequency, MagicServer.getFrequency config core s = .ok frequency ∧
    frequency ≤ s.maxFrequencyDynamic core ∧
    min config.minFrequency (s.maxFrequencyDynamic core) ≤ frequency

/-! ## Conditions -/

/-- A frequency that a period in whole femtoseconds expresses. -/
def Expressible (frequency : ℤ) : Prop :=
  0 < frequency ∧ ((10 ^ 9 / (10 ^ 9 / frequency.toNat) : ℕ) : ℤ) = frequency

/-- What the policy returns for a core is within its limits, expressible, and the same for all cores
of its domain. -/
structure Keeps (frequencies : List ℤ) (s : State n) (core : Fin n) (frequency : ℤ) : Prop where
  returned : frequencies[(core : ℕ)]? = some frequency
  limits : frequency ≤ s.maxFrequencyDynamic core ∧
    (config.minFrequency ≤ frequency ∨ frequency = s.maxFrequencyDynamic core)
  expressible : Expressible frequency
  domain : ∀ other : Fin n, getCoreDomainId config other = getCoreDomainId config core →
    frequencies[(other : ℕ)]? = some frequency

/-- The condition on a step: the policy keeps to the limits, and a maximum to which the frequency of a
core is lowered is expressible. -/
def Kept (h : History n) : Event D → Prop
  | .dvfs frequencies => ∀ core, ∃ frequency, Keeps config frequencies h.state core frequency
  | .check vdds delta_vs => ∀ core frequency newMax,
      MagicServer.getFrequency config core h.state = .ok frequency →
      newMaxFrequency config vdds delta_vs core = .ok newMax →
      newMax < frequency → Expressible newMax

/-! ## A call of `setFrequency` -/

section Call

variable {config} {core other : Fin n} {s s' : State n} {frequency newMax : ℤ}

theorem limited_eq : limited config core frequency s =
    min (max frequency config.minFrequency) (s.maxFrequencyDynamic core) := by
  rw [limited]
  split_ifs <;> omega

theorem Expressible.bounds (expressible : Expressible frequency) :
    frequency.toNat ≤ 10 ^ 9 ∧ 0 < frequency.toNat ∧ 10 ^ 9 / frequency.toNat ≠ 0 := by
  rcases expressible with ⟨pos, exact⟩
  refine ⟨?_, by omega, fun zero => ?_⟩
  · have small := Nat.div_le_self (10 ^ 9) (10 ^ 9 / frequency.toNat)
    omega
  · rw [zero, Nat.div_zero] at exact
    exact absurd exact (by omega)

/-- The frequency of a core depends on the period of its domain. -/
theorem getFrequency_congr (same : s'.appProcDomains (getCoreDomainId config other) =
    s.appProcDomains (getCoreDomainId config core)) :
    MagicServer.getFrequency config other s' = MagicServer.getFrequency config core s := by
  rw [MagicServer.getFrequency, MagicServer.getFrequency, same]

theorem getFrequency_of_period {period : ℕ}
    (held : s.appProcDomains (getCoreDomainId config core) = period) (nonzero : period ≠ 0) :
    MagicServer.getFrequency config core s = .ok ((10 ^ 9 / period : ℕ) : ℤ) := by
  subst held
  rw [MagicServer.getFrequency, if_neg nonzero]

/-- The magic server holds an expressible frequency that it is given. -/
theorem getFrequency_setFrequency (expressible : Expressible frequency)
    (domain : getCoreDomainId config other = getCoreDomainId config core) :
    MagicServer.getFrequency config other
        (MagicServer.setFrequency config core (frequency % 2 ^ 64).toNat s) = .ok frequency := by
  rcases expressible.bounds with ⟨small, some_mhz, period⟩
  have mhz : (frequency % 2 ^ 64).toNat = frequency.toNat := by omega
  have hz : 1000000 * frequency.toNat % 2 ^ 64 = 1000000 * frequency.toNat := by omega
  have period_eq : 10 ^ 15 / (1000000 * frequency.toNat) = 10 ^ 9 / frequency.toNat :=
    Nat.mul_div_mul_left (10 ^ 9) frequency.toNat (by decide : 0 < 1000000)
  rw [MagicServer.setFrequency, mhz, hz, if_pos (by omega), period_eq,
    getFrequency_of_period (by rw [domain]; exact Function.update_self _ _ _) period, expressible.2]

/-- What a call of `setFrequency` leaves as it was. -/
structure Frame (config : Config D) (core : Fin n) (s s' : State n) : Prop where
  maximum : s'.maxFrequencyDynamic = s.maxFrequencyDynamic
  reported : s'.frequencies = s.frequencies
  elsewhere : ∀ other : Fin n, getCoreDomainId config other ≠ getCoreDomainId config core →
    MagicServer.getFrequency config other s' = MagicServer.getFrequency config other s

/-- **The frequency after a call** is the one requested, if that is within its limits and
expressible, for all cores of the domain. -/
theorem setFrequency_spec {old requested : ℤ}
    (clocked : MagicServer.getFrequency config core s = .ok old)
    (limits : limited config core requested s = frequency) (expressible : Expressible frequency) :
    ∃ s', setFrequency config core requested s = .ok s' ∧ Frame config core s s' ∧
      ∀ other, getCoreDomainId config other = getCoreDomainId config core →
        MagicServer.getFrequency config other s' = .ok frequency := by
  rw [setFrequency, clocked, ok_bind, limits]
  split_ifs with changes
  · refine ⟨_, rfl, ?_, fun other => getFrequency_setFrequency expressible⟩
    rw [MagicServer.setFrequency]
    split_ifs
    · refine ⟨rfl, rfl, fun other apart => ?_⟩
      exact getFrequency_congr (Function.update_of_ne apart _ _)
    · exact ⟨rfl, rfl, fun _ _ => rfl⟩
  · refine ⟨s, rfl, ⟨rfl, rfl, fun _ _ => rfl⟩, fun other domain => ?_⟩
    rw [not_not.mp changes, ← clocked]
    exact getFrequency_congr (congrArg _ domain)

end Call

/-! ## The loops -/

/-- Every core has a frequency. -/
def Clocked (s : State n) : Prop :=
  ∀ core, ∃ frequency, MagicServer.getFrequency config core s = .ok frequency

section Loops

variable {config} {frequencies : List ℤ} {f : Fin n → ℤ} {s : State n}

/-- The loop of `executeDVFSPolicy`, with the frequencies `f` for the cores. -/
theorem foldlM_setPolicyFrequency (keeps : ∀ core, Keeps config frequencies s core (f core))
    (cores done : List (Fin n)) (now : State n × Calls n)
    (maximum : now.1.maxFrequencyDynamic = s.maxFrequencyDynamic) (clocked : Clocked config now.1)
    (set : ∀ core ∈ done, MagicServer.getFrequency config core now.1 = .ok (f core))
    (limits : ∀ call ∈ now.2, Limited config call.1 call.2) :
    ∃ now', cores.foldlM (setPolicyFrequency config frequencies) now = .ok now' ∧
      (∀ core, core ∈ done ∨ core ∈ cores →
        MagicServer.getFrequency config core now'.1 = .ok (f core)) ∧
      ∀ call ∈ now'.2, Limited config call.1 call.2 := by
  induction cores generalizing done now with
  | nil => exact ⟨now, rfl, fun core here => set core (here.resolve_right List.not_mem_nil), limits⟩
  | cons core cores ih =>
    have keep := keeps core
    obtain ⟨old, clock⟩ := clocked core
    have inside : limited config core (f core) now.1 = f core := by
      have bounds := keep.limits
      rw [limited_eq, maximum]
      omega
    obtain ⟨s', called, frame, held⟩ := setFrequency_spec clock inside keep.expressible
    have pass : setPolicyFrequency config frequencies now core =
        .ok (s', now.2 ++ [(core, s')]) := by
      rw [setPolicyFrequency, keep.returned]
      dsimp only
      rw [called, ok_bind]
    -- the cores of the domain get the same frequency, the other ones keep theirs
    have same : ∀ other, getCoreDomainId config other = getCoreDomainId config core →
        f other = f core := fun other domain =>
      Option.some.inj ((keeps other).returned.symm.trans (keep.domain other domain))
    have clocked' : Clocked config s' := fun other => by
      by_cases domain : getCoreDomainId config other = getCoreDomainId config core
      · exact ⟨_, held other domain⟩
      · rw [frame.elsewhere other domain]
        exact clocked other
    have set' : ∀ other ∈ core :: done,
        MagicServer.getFrequency config other s' = .ok (f other) := fun other member => by
      by_cases domain : getCoreDomainId config other = getCoreDomainId config core
      · rw [held other domain, same other domain]
      · rw [frame.elsewhere other domain]
        refine set other ((List.mem_cons.mp member).resolve_left ?_)
        rintro rfl
        exact domain rfl
    have this_call : Limited config core s' := by
      have bounds := keep.limits
      rw [Limited, frame.maximum, maximum]
      exact ⟨f core, held core rfl, bounds.1, by omega⟩
    have limits' : ∀ call ∈ now.2 ++ [(core, s')], Limited config call.1 call.2 := by
      intro call member
      rcases List.mem_append.mp member with before | last
      · exact limits call before
      · rw [List.mem_singleton.mp last]
        exact this_call
    rw [List.foldlM_cons, pass, ok_bind]
    obtain ⟨now', ran, all, final⟩ :=
      ih (core :: done) (s', now.2 ++ [(core, s')]) (frame.maximum.trans maximum) clocked' set' limits'
    refine ⟨now', ran, fun other here => all other ?_, final⟩
    rcases here with before | member
    · exact .inl (List.mem_cons_of_mem _ before)
    · rcases List.mem_cons.mp member with rfl | later
      · exact .inl List.mem_cons_self
      · exact .inr later

/-- **What the policy wants is in force**, if it keeps to the limits. -/
theorem executeDVFSPolicy_spec (clocked : Clocked config s)
    (kept : ∀ core, ∃ frequency, Keeps config frequencies s core frequency) :
    ∃ s' calls, executeDVFSPolicy config frequencies s = .ok (s', calls) ∧ Clocked config s' ∧
      Reported config s' ∧ ∀ call ∈ calls, Limited config call.1 call.2 := by
  choose f keeps using kept
  have old : ∀ cores : List (Fin n),
      ∃ l, (cores.mapM fun core => MagicServer.getFrequency config core s) = .ok l := by
    intro cores
    induction cores with
    | nil => exact ⟨[], rfl⟩
    | cons core cores ih =>
      obtain ⟨frequency, clock⟩ := clocked core
      obtain ⟨l, rest⟩ := ih
      exact ⟨frequency :: l, by rw [List.mapM_cons, clock, ok_bind, rest]; rfl⟩
  obtain ⟨oldFrequencies, read⟩ := old (List.finRange n)
  obtain ⟨now, ran, all, limits⟩ := foldlM_setPolicyFrequency keeps (List.finRange n) [] (s, [])
    rfl clocked (fun core none => by cases none) (fun call none => by cases none)
  have held : ∀ core, MagicServer.getFrequency config core
      (notifyFreqsOfCores frequencies now.1) = .ok (f core) := fun core =>
    all core (.inr (List.mem_finRange core))
  refine ⟨_, _, by rw [executeDVFSPolicy, read, ok_bind, ran, ok_bind], fun core => ⟨_, held core⟩,
    fun core => ?_, limits⟩
  have reported : getFreqOfCore core (notifyFreqsOfCores frequencies now.1) = f core := by
    rw [getFreqOfCore, notifyFreqsOfCores, List.getD_eq_getElem?_getD, (keeps core).returned]
    rfl
  rw [held core, reported]

@[simp] theorem setMaximum_self (core : Fin n) (newMax : ℤ) :
    (s.setMaximum core newMax).maxFrequencyDynamic core = newMax :=
  Function.update_self _ _ _

/-- A frequency above the new maximum is lowered to it, whatever the minimum is. -/
theorem limited_setMaximum {core : Fin n} {newMax frequency : ℤ} (more : newMax < frequency) :
    limited config core frequency (s.setMaximum core newMax) = newMax := by
  rw [limited_eq, setMaximum_self]
  omega

/-- The loop of `checkFrequencies` only lowers frequencies. -/
theorem ensures_checkFrequencies {vdds delta_vs : List D} (clocked : Clocked config s)
    (kept : ∀ core frequency newMax, MagicServer.getFrequency config core s = .ok frequency →
      newMaxFrequency config vdds delta_vs core = .ok newMax → newMax < frequency →
      Expressible newMax) :
    Ensures (fun now => Clocked config now.1 ∧ ∀ call ∈ now.2, Limited config call.1 call.2)
      (fun _ => True) (checkFrequencies config vdds delta_vs s) := by
  have loop : Ensures (fun now => (∀ core, ∃ frequency frequency',
        MagicServer.getFrequency config core s = .ok frequency ∧
        MagicServer.getFrequency config core now.1 = .ok frequency' ∧ frequency' ≤ frequency) ∧
      ∀ call ∈ now.2, Limited config call.1 call.2)
      (fun _ => True) (checkFrequencies config vdds delta_vs s) := by
    refine Ensures.foldlM (fun now core _ inv => ?_) ⟨fun core => ?_, fun call none => by cases none⟩
    · obtain ⟨lower, limits⟩ := inv
      obtain ⟨before, frequency, clock₀, clock, le⟩ := lower core
      rw [checkFrequency, clock, ok_bind]
      cases measure : newMaxFrequency config vdds delta_vs core with
      | error e => trivial
      | ok newMax =>
        rw [ok_bind]
        split_ifs with more
        · have clock' : MagicServer.getFrequency config core (now.1.setMaximum core newMax) =
              .ok frequency := clock
          obtain ⟨s', called, frame, held⟩ := setFrequency_spec clock' (limited_setMaximum more)
            (kept core before newMax clock₀ measure (by omega))
          rw [called, ok_bind]
          refine ⟨fun other => ?_, fun call member => ?_⟩
          · obtain ⟨first, then_, start, now_, below⟩ := lower other
            by_cases domain : getCoreDomainId config other = getCoreDomainId config core
            · refine ⟨first, newMax, start, held other domain, ?_⟩
              have same : MagicServer.getFrequency config other now.1 =
                  MagicServer.getFrequency config core now.1 :=
                getFrequency_congr (congrArg _ domain)
              rw [now_, clock, Except.ok.injEq] at same
              omega
            · refine ⟨first, then_, start, ?_, below⟩
              rw [frame.elsewhere other domain]
              exact now_
          · rcases List.mem_append.mp member with earlier | this
            · exact limits call earlier
            · rw [List.mem_singleton.mp this]
              refine ⟨newMax, held core rfl, ?_, ?_⟩
              · rw [frame.maximum, setMaximum_self]
              · rw [frame.maximum, setMaximum_self]
                exact min_le_right _ _
        · exact ⟨lower, limits⟩
    · obtain ⟨frequency, clock⟩ := clocked core
      exact ⟨frequency, frequency, clock, clock, le_rfl⟩
  refine loop.mono fun now inv => ⟨fun core => ?_, inv.2⟩
  obtain ⟨_, frequency, -, clock, -⟩ := inv.1 core
  exact ⟨frequency, clock⟩

end Loops

/-! ## Runs -/

/-- What is reported was in force after every `executeDVFSPolicy`, and what a call of `setFrequency`
left was within the limits. -/
structure InForce (h : History n) : Prop where
  clocked : Clocked config h.state
  reported : ∀ s ∈ h.executed, Reported config s
  limited : ∀ call ∈ h.calls, Limited config call.1 call.2

variable {config}

/-- One step of a run. -/
theorem InForce.step {h : History n} (inForce : InForce config h) {e : Event D}
    (kept : Kept config h e) : Ensures (InForce config) (fun _ => True) (step config e h) := by
  cases e with
  | dvfs frequencies =>
    obtain ⟨s', calls, ran, clocked, reported, limits⟩ :=
      executeDVFSPolicy_spec inForce.clocked kept
    rw [Dvfs.step, ran, ok_bind]
    refine ⟨clocked, fun s member => ?_, fun call member => ?_⟩
    · rcases List.mem_append.mp member with before | last
      · exact inForce.reported s before
      · rw [List.mem_singleton.mp last]
        exact reported
    · exact (List.mem_append.mp member).elim (inForce.limited call) (limits call)
  | check vdds delta_vs =>
    rw [Dvfs.step]
    refine (ensures_checkFrequencies inForce.clocked kept).bind fun now after => ?_
    refine ⟨after.1, inForce.reported, fun call member => ?_⟩
    exact (List.mem_append.mp member).elim (inForce.limited call) (after.2 call)

/-- **Frequencies recorded are frequencies in force**, in runs in which every output of the DVFS
policy keeps to the limits of its cores, and frequencies are lowered to expressible ones. -/
theorem frequencies_in_force {s : State n} (clocked : Clocked config s) {events : List (Event D)}
    (kept : Along (Kept config) (step config) events ⟨s, [], []⟩) {h : History n}
    (ran : runEvents (step config) events ⟨s, [], []⟩ = .ok h) :
    (∀ s' ∈ h.executed, Reported config s') ∧ ∀ call ∈ h.calls, Limited config call.1 call.2 := by
  have start : InForce config (⟨s, [], []⟩ : History n) :=
    ⟨clocked, fun _ none => absurd none List.not_mem_nil,
      fun _ none => absurd none List.not_mem_nil⟩
  have run : Ensures (InForce config) (fun _ => True) (runEvents (step config) events ⟨s, [], []⟩) :=
    kept.ensures_runEvents (fun e h kept inForce => inForce.step kept) start
  have after := run.of_ok ran
  exact ⟨after.reported, after.limited⟩

/-- A core between 1 and 4 GHz, with rational numbers for voltages. -/
def oneCore : Config ℚ where
  coresPerSocket := 1
  minFrequency := 1000
  maxFrequency := 4000
  subcoreEnabled := false
  vth := 0
  deltaVScaleFactor := 1
  arithmetic := ⟨fun n => n, (· * ·), (· - ·), (· / ·), fun x y => decide (x < y),
    fun x => some (x.num.tdiv x.den)⟩

/-- It runs at 4 GHz. -/
def fullSpeed : State 1 := ⟨fun _ => 250000, fun _ => 4000, []⟩

theorem clocked_fullSpeed : Clocked oneCore fullSpeed := fun _ =>
  ⟨_, getFrequency_of_period (rfl : fullSpeed.appProcDomains _ = 250000)
    (show 250000 ≠ 0 by decide)⟩

/-- The policy returns 3 GHz. -/
theorem frequencies_in_force_oneCore : ∃ h,
    runEvents (step oneCore) [.dvfs [3000]] ⟨fullSpeed, [], []⟩ = .ok h ∧
      (∀ s' ∈ h.executed, Reported oneCore s') ∧
      ∀ call ∈ h.calls, Limited oneCore call.1 call.2 := by
  have keeps : Keeps oneCore [3000] fullSpeed 0 3000 := by
    refine ⟨rfl, by decide, ⟨by decide, by decide⟩, fun other _ => ?_⟩
    rw [Subsingleton.elim other 0]
    rfl
  have kept : Along (Kept oneCore) (step oneCore) [.dvfs [3000]] ⟨fullSpeed, [], []⟩ := by
    refine ⟨fun core => ⟨3000, ?_⟩, fun _ _ => trivial⟩
    rw [Subsingleton.elim core 0]
    exact keeps
  exact ⟨_, rfl, frequencies_in_force clocked_fullSpeed kept rfl⟩

/-- A policy for a constant frequency of 5 GHz: 4 GHz are in force, 5 GHz are reported. -/
theorem not_frequencies_in_force : ∃ s calls,
    executeDVFSPolicy oneCore [5000] fullSpeed = .ok (s, calls) ∧
      MagicServer.getFrequency oneCore 0 s = .ok 4000 ∧ getFreqOfCore 0 s = 5000 ∧
      ¬Reported oneCore s := by
  refine ⟨_, _, rfl, rfl, rfl, fun reported => ?_⟩
  have equal : (Except.ok 4000 : Except Fault ℤ) = .ok 5000 := reported 0
  cases equal

end GpuHotSpot.Common.Dvfs
