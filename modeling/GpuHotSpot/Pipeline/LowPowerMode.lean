import GpuHotSpot.Pipeline.PipelineRunner

/-!
# Low-power mode over whole runs

An action keeps low-power mode twice: as a set of channels and as a flag for each
bank. `DTMAction.Consistent` says that the two agree; every policy preserves it,
so the set `_record_history` recovers from the flags is the action's own.

The hysteresis of `LowPowerModePolicy` lives in the action that is threaded from
one evaluation to the next. The runner evaluates its policy without a previous
action: `inLowPowerMode_step` says what is left of it over a run.
-/

namespace GpuHotSpot.Pipeline

variable {K : Type*} [ExactFloat K]

/-! ## The two representations agree -/

/-- Exactly the banks of the channels in low-power mode are inactive. -/
def DTMAction.Consistent (action : DTMAction K) : Prop :=
  ∀ b, action.bankActive b = false ↔ bankToChannel b ∈ action.lpmChannels

omit [ExactFloat K] in
theorem DTMAction.Consistent.of_eq {a a' : DTMAction K} (consistent : a.Consistent)
    (channels : a'.lpmChannels = a.lpmChannels) (banks : a'.bankActive = a.bankActive) :
    a'.Consistent := by
  intro b
  rw [channels, banks]
  exact consistent b

theorem DTMAction.Consistent.init : (DTMAction.init : DTMAction K).Consistent := by
  intro b
  simp [DTMAction.init]

theorem LowPowerModePolicy.consistent_evaluateChannel (p : LowPowerModePolicy K)
    (bankTemps : Bank → K) {action : DTMAction K} (consistent : action.Consistent) (ch : Channel) :
    (p.evaluateChannel bankTemps action ch).Consistent := by
  intro b
  unfold evaluateChannel
  split_ifs
  · by_cases inCh : bankToChannel b = ch
    · simp [setBanks, mem_channelToBanks, inCh]
    · simp [setBanks, mem_channelToBanks, inCh, consistent b]
  · by_cases inCh : bankToChannel b = ch
    · simp [setBanks, mem_channelToBanks, inCh]
    · simp [setBanks, mem_channelToBanks, inCh, consistent b]
  · exact consistent b

theorem BasicPolicy.consistent_evaluate (p : BasicPolicy K) (bankTemps : Bank → K)
    {action : DTMAction K} (consistent : action.Consistent) :
    (p.evaluate bankTemps (some action)).Consistent := by
  cases p with
  | lowPowerMode p =>
    exact List.foldlRecOn _ _ consistent fun a holds ch _ =>
      p.consistent_evaluateChannel bankTemps holds ch
  | throttling p =>
    obtain ⟨channels, banks⟩ := BasicPolicy.lpm_evaluate_of_ne (p := .throttling p)
      (by simp) bankTemps action
    exact consistent.of_eq channels banks
  | dvfs p =>
    obtain ⟨channels, banks⟩ := BasicPolicy.lpm_evaluate_of_ne (p := .dvfs p)
      (by simp) bankTemps action
    exact consistent.of_eq channels banks

/-- **Every policy keeps the two representations in agreement.** -/
theorem DTMPolicy.consistent_evaluate (policy : DTMPolicy K) (bankTemps : Bank → K)
    {action : DTMAction K} (consistent : action.Consistent) :
    (policy.evaluate bankTemps (some action)).Consistent :=
  policy.evaluate_invariant (fun p _ holds => p.consistent_evaluate bankTemps holds) consistent

theorem DTMPolicy.consistent_evaluate_none (policy : DTMPolicy K) (bankTemps : Bank → K) :
    (policy.evaluate bankTemps none).Consistent := by
  rw [policy.evaluate_none]
  exact policy.consistent_evaluate bankTemps .init

/-- A fresh action threaded through a sequence of evaluations. -/
def threadAction (calls : List (DTMPolicy K × (Bank → K))) : DTMAction K :=
  calls.foldl (fun action call => call.1.evaluate call.2 (some action)) .init

theorem consistent_threadAction (calls : List (DTMPolicy K × (Bank → K))) :
    (threadAction calls).Consistent :=
  List.foldlRecOn _ _ .init fun _ holds call _ =>
    call.1.consistent_evaluate call.2 holds

omit [ExactFloat K] in
/-- Any one bank of a channel tells whether the channel is in low-power mode. -/
theorem DTMAction.Consistent.inactiveChannels {action : DTMAction K}
    (consistent : action.Consistent) :
    inactiveChannels action.bankActive = action.lpmChannels := by
  ext ch
  have first := mem_channelToBanks.1 (List.head_mem (channelToBanks_ne_nil ch))
  have flag := consistent ((channelToBanks ch).head (channelToBanks_ne_nil ch))
  rw [first] at flag
  simp only [Pipeline.inactiveChannels, Finset.mem_filter, Finset.mem_univ, true_and,
    Bool.not_eq_true']
  exact flag

/-- **Low-power bookkeeping.** After any sequence of evaluations the inactive banks are those
of the channels in low-power mode, and what the history records from the first bank of each
channel is that set of channels. -/
theorem lpm_bookkeeping (calls : List (DTMPolicy K × (Bank → K))) (s : RunnerState K)
    (row : PowerRow K) (bankTemps : Option (Bank → K)) :
    (∀ b, (threadAction calls).bankActive b = false ↔
      bankToChannel b ∈ (threadAction calls).lpmChannels) ∧
    (recordHistory row bankTemps (applyAction (threadAction calls) s)).history.lpmChannels =
      s.history.lpmChannels ++ [(threadAction calls).lpmChannels] := by
  refine ⟨consistent_threadAction calls, ?_⟩
  rw [← (consistent_threadAction calls).inactiveChannels]
  rfl

/-! ## Hysteresis over a run -/

/-- All banks of a channel are inactive. -/
def InLowPowerMode (s : RunnerState K) (ch : Channel) : Prop :=
  ∀ b ∈ channelToBanks ch, s.bankActive b = false

omit [ExactFloat K] in
theorem inLowPowerMode_iff {s : RunnerState K} {action : DTMAction K} {ch : Channel}
    (consistent : action.Consistent) (applied : s.bankActive = action.bankActive) :
    InLowPowerMode s ch ↔ ch ∈ action.lpmChannels := by
  obtain ⟨b, member⟩ := List.exists_mem_of_ne_nil _ (channelToBanks_ne_nil ch)
  have flag (b : Bank) (member : b ∈ channelToBanks ch) :
      s.bankActive b = false ↔ ch ∈ action.lpmChannels := by
    rw [applied, consistent b, mem_channelToBanks.1 member]
  exact ⟨fun off => (flag b member).mp (off b member), fun inSet b member => (flag b member).mpr inSet⟩

theorem inLowPowerMode_applyDtm (policy : DTMPolicy K) (row : PowerRow K) (bankTemps : Bank → K)
    (s : RunnerState K) (ch : Channel) :
    InLowPowerMode (applyDtm policy row bankTemps s) ch ↔
      Latches policy.lowPowerModes (chPeak bankTemps ch) := by
  rw [← policy.mem_lpmChannels_evaluate_none]
  exact inLowPowerMode_iff (policy.consistent_evaluate_none bankTemps) rfl

/-- **One iteration.** A failed step leaves low-power mode alone; after a successful one it is
what the policy decides from that step's temperatures alone. -/
theorem inLowPowerMode_step {cfg : PipelineConfig K} {policy : DTMPolicy K} {env : PipelineEnv}
    {n : ℕ} {s s' : RunnerState K} {interval : Interval K}
    (moved : step cfg policy env n s = some (s', interval)) (ch : Channel) :
    InLowPowerMode s' ch ↔
      match interval.bankTemps with
      | none => InLowPowerMode s ch
      | some bankTemps => Latches policy.lowPowerModes (chPeak bankTemps ch) := by
  obtain ⟨row, ok, files, -, -, ⟨-, rfl, rfl⟩ | ⟨bankTemps, -, -, rfl, rfl⟩⟩ := step_cases moved
  · exact Iff.rfl
  · exact inLowPowerMode_applyDtm policy row bankTemps _ ch

/-- Once in low-power mode, a channel stays there after every later step until a successful
step reads a peak strictly below `cooldownTemp`. -/
def Hysteresis (cfg : PipelineConfig K) (policy : DTMPolicy K) (env : PipelineEnv)
    (files : WorkDir) (cooldownTemp : K) (ch : Channel) : Prop :=
  ∀ i j s t shown shown', i ≤ j →
    run cfg policy env files i = some (s, shown) → run cfg policy env files j = some (t, shown') →
    InLowPowerMode s ch →
    (∀ k interval bankTemps, i ≤ k → shown'[k]? = some interval →
      interval.bankTemps = some bankTemps → cooldownTemp ≤ chPeak bankTemps ch) →
    InLowPowerMode t ch

/-- Every successful step taken from low-power mode that reads no peak below `cooldownTemp`
reads one at which the policy would put the channel there afresh. -/
def Relatched (cfg : PipelineConfig K) (policy : DTMPolicy K) (env : PipelineEnv)
    (files : WorkDir) (cooldownTemp : K) (ch : Channel) : Prop :=
  ∀ k s shown s' interval bankTemps, run cfg policy env files k = some (s, shown) →
    step cfg policy env k s = some (s', interval) → InLowPowerMode s ch →
    interval.bankTemps = some bankTemps → cooldownTemp ≤ chPeak bankTemps ch →
    Latches policy.lowPowerModes (chPeak bankTemps ch)

/-- **Hysteresis over a run.** It holds exactly of the runs in which no successful step needs
it: whatever keeps a channel in low-power mode is that step's own temperature. -/
theorem hysteresis_iff_relatched (cfg : PipelineConfig K) (policy : DTMPolicy K)
    (env : PipelineEnv) (files : WorkDir) (cooldownTemp : K) (ch : Channel) :
    Hysteresis cfg policy env files cooldownTemp ch ↔
      Relatched cfg policy env files cooldownTemp ch := by
  constructor
  · intro hysteresis k s shown s' interval bankTemps reached moved low read warm
    have next : run cfg policy env files (k + 1) = some (s', shown ++ [interval]) :=
      runFor_succ.2 ⟨s, shown, interval, reached, moved, rfl⟩
    have still := hysteresis k (k + 1) s s' shown _ (Nat.le_succ k) reached next low (by
      intro j other temps after entry readOther
      have length := runFor_length reached
      have last : j = k := by
        have inside := (List.getElem?_eq_some_iff.mp entry).1
        simp only [List.length_append, List.length_singleton] at inside
        omega
      subst last
      rw [← length, List.getElem?_concat_length, Option.some.injEq] at entry
      rw [← entry, read, Option.some.injEq] at readOther
      exact readOther ▸ warm)
    rwa [inLowPowerMode_step moved, read] at still
  · intro relatched i j s t shown shown' le reached reached' low warm
    -- along the run from `i`, every pass leaves the channel in low-power mode
    induction j, le using Nat.le_induction generalizing t shown' with
    | base =>
      have same := reached.symm.trans reached'
      cases same
      exact low
    | succ j le ih =>
      obtain ⟨u, before, interval, earlier, moved, rfl⟩ := runFor_succ.1 reached'
      have length := runFor_length earlier
      have still := ih u before earlier fun k other temps after entry readOther =>
        warm k other temps after
          (by rw [List.getElem?_append_left (List.getElem?_eq_some_iff.mp entry).1, entry])
          readOther
      rw [inLowPowerMode_step moved]
      cases read : interval.bankTemps with
      | none => exact still
      | some bankTemps =>
        refine relatched j u before t interval bankTemps earlier moved still read ?_
        exact warm j interval bankTemps le (by rw [← length, List.getElem?_concat_length]) read

theorem inLowPowerMode_uniformEnv {cfg : PipelineConfig K} {policy : DTMPolicy K} {temps : ℕ → K}
    {files : WorkDir} {n : ℕ} {s : RunnerState K} {shown : List (Interval K)}
    (reached : run cfg policy (uniformEnv cfg temps) files (n + 1) = some (s, shown))
    (ch : Channel) :
    InLowPowerMode s ch ↔ Latches policy.lowPowerModes (roundTo 2 (temps n)) := by
  obtain ⟨_, _, _, -, moved, -⟩ := runFor_succ.1 reached
  rw [inLowPowerMode_step moved, bankTemps_uniformEnv moved]
  simp only [chPeak_const]

/-- A policy of thresholds 85 and 75 drops a channel that it put into low-power mode at 90
degrees as soon as a step reads 80. -/
theorem not_hysteresis_of_eighty :
    ¬ Hysteresis (K := ℝ) (PipelineConfig.default []) (.basic (.lowPowerMode ⟨85, 75⟩))
      (uniformEnv (K := ℝ) (PipelineConfig.default []) fun n => if n = 0 then 90 else 80)
      (fun _ => none) 75 0 := by
  intro hysteresis
  have ninety : roundTo 2 (90 : ℝ) = 90 := by exact_mod_cast roundTo_natCast (K := ℝ) 2 90
  have eighty : roundTo 2 (80 : ℝ) = 80 := by exact_mod_cast roundTo_natCast (K := ℝ) 2 80
  obtain ⟨s, shown, reached⟩ := run_uniformEnv (PipelineConfig.default [])
    (.basic (.lowPowerMode ⟨85, 75⟩)) (fun n => if n = 0 then (90 : ℝ) else 80) (fun _ => none) 1
  obtain ⟨t, shown', reached'⟩ := run_uniformEnv (PipelineConfig.default [])
    (.basic (.lowPowerMode ⟨85, 75⟩)) (fun n => if n = 0 then (90 : ℝ) else 80) (fun _ => none) 2
  have low : InLowPowerMode s 0 := by
    rw [inLowPowerMode_uniformEnv reached, if_pos rfl, ninety]
    exact latches_singleton.2 (by norm_num)
  have still := hysteresis 1 2 s t shown shown' (by decide) reached reached' low (by
    intro k interval bankTemps after entry read
    have length := runFor_length reached'
    have inside := (List.getElem?_eq_some_iff.mp entry).1
    obtain ⟨_, _, _, _, -, moved, -, same⟩ := runFor_prefix reached' (length ▸ inside)
    cases entry.symm.trans same
    rw [bankTemps_uniformEnv moved, Option.some.injEq, if_neg (by omega), eighty] at read
    rw [← read, chPeak_const]
    norm_num)
  rw [inLowPowerMode_uniformEnv reached', if_neg one_ne_zero, eighty] at still
  exact absurd (latches_singleton.1 still) (by norm_num)

end GpuHotSpot.Pipeline
