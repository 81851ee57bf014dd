import Mathlib.Data.Finset.Insert
import Mathlib.Data.Fintype.Basic
import Mathlib.Order.Lattice
import GpuHotSpot.Pipeline.Config

/-!
# Dynamic thermal management policies

`pipeline/dtm_policies.py`: the action record, the three basic policies and their
composition. A policy reads per-bank temperatures and refines the action it is
handed, or a fresh `DTMAction` when it is handed none.

A composite may hold composites. `DTMPolicy.evaluate_eq_foldl` flattens the tree
into the chain of its basic policies, and every later fact is about one basic
policy or a fold over that chain. What `LowPowerModePolicy` does to a channel is
said once, by `LowPowerModePolicy.mem_lpmChannels_evaluate`.
-/

namespace GpuHotSpot.Pipeline

variable {K : Type*} [ExactFloat K]

/-! ## Peaks -/

/-- `np.max` over the banks of a channel. -/
def chPeak (bankTemps : Bank → K) (ch : Channel) : K :=
  ((channelToBanks ch).map bankTemps).max (by simp [channelToBanks_ne_nil])

/-- `np.max` over all banks. -/
def peakTemp (bankTemps : Bank → K) : K :=
  ((List.finRange numBanks).map bankTemps).max (by simp)

theorem chPeak_le_iff {bankTemps : Bank → K} {ch : Channel} {x : K} :
    chPeak bankTemps ch ≤ x ↔ ∀ b, bankToChannel b = ch → bankTemps b ≤ x := by
  simp [chPeak, List.max_le_iff, mem_channelToBanks]

theorem peakTemp_le_iff {bankTemps : Bank → K} {x : K} :
    peakTemp bankTemps ≤ x ↔ ∀ b, bankTemps b ≤ x := by
  simp [peakTemp, List.max_le_iff]

theorem le_chPeak {bankTemps : Bank → K} {b : Bank} {ch : Channel} (inCh : bankToChannel b = ch) :
    bankTemps b ≤ chPeak bankTemps ch :=
  chPeak_le_iff.1 le_rfl b inCh

theorem le_peakTemp (bankTemps : Bank → K) (b : Bank) : bankTemps b ≤ peakTemp bankTemps :=
  peakTemp_le_iff.1 le_rfl b

theorem chPeak_mono {T T' : Bank → K} (le : ∀ b, T b ≤ T' b) (ch : Channel) :
    chPeak T ch ≤ chPeak T' ch :=
  chPeak_le_iff.2 fun b inCh => (le b).trans (le_chPeak inCh)

theorem peakTemp_mono {T T' : Bank → K} (le : ∀ b, T b ≤ T' b) : peakTemp T ≤ peakTemp T' :=
  peakTemp_le_iff.2 fun b => (le b).trans (le_peakTemp T' b)

theorem chPeak_const (x : K) (ch : Channel) : chPeak (fun _ => x) ch = x := by
  obtain ⟨b, member⟩ := List.exists_mem_of_ne_nil _ (channelToBanks_ne_nil ch)
  have reached : (fun _ => x) b ≤ chPeak (fun _ => x) ch :=
    @le_chPeak K _ (fun _ => x) b ch (mem_channelToBanks.1 member)
  exact le_antisymm (chPeak_le_iff.2 fun _ _ => le_rfl) reached

theorem peakTemp_const (x : K) : peakTemp (fun _ => x) = x :=
  le_antisymm (peakTemp_le_iff.2 fun _ => le_rfl) (le_peakTemp (fun _ => x) 0)

/-! ## Actions -/

/-- `DTMAction`: the adjustments a policy requests. -/
structure DTMAction (K : Type*) where
  throttleFactors : Bank → K
  freqScale : K
  voltageScale : K
  bankActive : Bank → Bool
  lpmChannels : Finset Channel
  lpmPseudochannels : Finset PseudoChannel
  migrationPairs : List (Channel × Channel)

/-- A fresh action: no throttling, nominal frequency and voltage, every bank active. -/
def DTMAction.init : DTMAction K where
  throttleFactors := fun _ => 1
  freqScale := 1
  voltageScale := 1
  bankActive := fun _ => true
  lpmChannels := ∅
  lpmPseudochannels := ∅
  migrationPairs := []

/-! ## Basic policies -/

/-- `ThrottlingPolicy`: linear throttling between two temperatures. -/
structure ThrottlingPolicy (K : Type*) where
  throttleTemp : K
  criticalTemp : K

/-- `ThrottlingPolicy(config, throttle_temp, critical_temp)`: an absent or zero argument falls
back to the config. -/
def ThrottlingPolicy.new (cfg : PipelineConfig K) (throttleTemp criticalTemp : Option K) :
    ThrottlingPolicy K where
  throttleTemp := (throttleTemp.filter (· ≠ 0)).getD cfg.throttleTempC
  criticalTemp := (criticalTemp.filter (· ≠ 0)).getD cfg.criticalTempC

/-- The factor `evaluate` assigns to a bank at temperature `t`. -/
def ThrottlingPolicy.factor (p : ThrottlingPolicy K) (t : K) : K :=
  if p.criticalTemp ≤ t then 0
  else if p.throttleTemp ≤ t then
    ExactFloat.round (max (1 - (t - p.throttleTemp) / (p.criticalTemp - p.throttleTemp)) 0) 4
  else 1

def ThrottlingPolicy.evaluate (p : ThrottlingPolicy K) (bankTemps : Bank → K)
    (currentAction : Option (DTMAction K)) : DTMAction K :=
  let action := currentAction.getD .init
  let span := p.criticalTemp - p.throttleTemp
  if span ≤ 0 then action
  else { action with throttleFactors := fun b => p.factor (bankTemps b) }

/-- The walk of `DVFSPolicy.evaluate` from the hottest threshold down: the position of the
first threshold reached, position 0 standing for the fallback as well. -/
def DvfsTable.levelBelow (table : DvfsTable K) (peak : K) : ℕ → ℕ
  | 0 => 0
  | i + 1 =>
    if table.thresholds[i]?.any (· ≤ peak) then i else table.levelBelow peak i

def DvfsTable.level (table : DvfsTable K) (peak : K) : ℕ :=
  table.levelBelow peak table.thresholds.length

theorem DvfsTable.levelBelow_le_pred (table : DvfsTable K) (peak : K) (i : ℕ) :
    table.levelBelow peak i ≤ i - 1 := by
  induction i with
  | zero => exact le_rfl
  | succ i ih =>
    rw [levelBelow]
    split
    · omega
    · exact ih.trans (by omega)

theorem DvfsTable.level_lt_freq (table : DvfsTable K) (peak : K) :
    table.level peak < table.freqFactors.length := by
  have bound := table.levelBelow_le_pred peak table.thresholds.length
  have positive := table.freqFactors_pos
  have fits := table.thresholds_le_freq
  rw [level]
  omega

theorem DvfsTable.level_lt_volt (table : DvfsTable K) (peak : K) :
    table.level peak < table.voltFactors.length := by
  have bound := table.levelBelow_le_pred peak table.thresholds.length
  have positive := table.voltFactors_pos
  have fits := table.thresholds_le_volt
  rw [level]
  omega

/-- The frequency factor at a peak temperature. -/
def DvfsTable.freqAt (table : DvfsTable K) (peak : K) : K :=
  table.freqFactors.get ⟨table.level peak, table.level_lt_freq peak⟩

/-- The voltage factor at a peak temperature. -/
def DvfsTable.voltAt (table : DvfsTable K) (peak : K) : K :=
  table.voltFactors.get ⟨table.level peak, table.level_lt_volt peak⟩

theorem DvfsTable.freqAt_of_level {table : DvfsTable K} {peak f : K} {i : ℕ}
    (level : table.level peak = i) (entry : table.freqFactors[i]? = some f) :
    table.freqAt peak = f := by
  subst level
  exact (List.getElem?_eq_some_iff.mp entry).2

theorem DvfsTable.voltAt_of_level {table : DvfsTable K} {peak v : K} {i : ℕ}
    (level : table.level peak = i) (entry : table.voltFactors[i]? = some v) :
    table.voltAt peak = v := by
  subst level
  exact (List.getElem?_eq_some_iff.mp entry).2

/-- `DVFSPolicy`: step-wise global frequency and voltage scaling by the table of its config. -/
structure DVFSPolicy (K : Type*) where
  table : DvfsTable K

def DVFSPolicy.evaluate (p : DVFSPolicy K) (bankTemps : Bank → K)
    (currentAction : Option (DTMAction K)) : DTMAction K :=
  let action := currentAction.getD .init
  { action with
    freqScale := p.table.freqAt (peakTemp bankTemps)
    voltageScale := p.table.voltAt (peakTemp bankTemps) }

/-- `LowPowerModePolicy`: gate whole channels, with hysteresis. -/
structure LowPowerModePolicy (K : Type*) where
  criticalTemp : K
  cooldownTemp : K

/-- `LowPowerModePolicy(config, critical_temp, cooldown_temp)`: an absent or zero argument
falls back to the config. -/
def LowPowerModePolicy.new (cfg : PipelineConfig K) (criticalTemp cooldownTemp : Option K) :
    LowPowerModePolicy K where
  criticalTemp := (criticalTemp.filter (· ≠ 0)).getD cfg.criticalTempC
  cooldownTemp := (cooldownTemp.filter (· ≠ 0)).getD cfg.cooldownTempC

/-- `for b in banks: bank_active[b] = value`. -/
def setBanks (banks : List Bank) (value : Bool) (bankActive : Bank → Bool) : Bank → Bool :=
  fun b => if b ∈ banks then value else bankActive b

/-- One pass of the loop over channels. -/
def LowPowerModePolicy.evaluateChannel (p : LowPowerModePolicy K) (bankTemps : Bank → K)
    (action : DTMAction K) (ch : Channel) : DTMAction K :=
  let banks := channelToBanks ch
  if p.criticalTemp ≤ chPeak bankTemps ch then
    { action with
      lpmChannels := insert ch action.lpmChannels
      bankActive := setBanks banks false action.bankActive }
  else if ch ∈ action.lpmChannels ∧ chPeak bankTemps ch < p.cooldownTemp then
    { action with
      lpmChannels := action.lpmChannels.erase ch
      bankActive := setBanks banks true action.bankActive }
  else action

def LowPowerModePolicy.evaluate (p : LowPowerModePolicy K) (bankTemps : Bank → K)
    (currentAction : Option (DTMAction K)) : DTMAction K :=
  (List.finRange numChannels).foldl (p.evaluateChannel bankTemps) (currentAction.getD .init)

/-- The concrete policies other than the composite. -/
inductive BasicPolicy (K : Type*)
  | throttling (p : ThrottlingPolicy K)
  | dvfs (p : DVFSPolicy K)
  | lowPowerMode (p : LowPowerModePolicy K)

def BasicPolicy.evaluate :
    BasicPolicy K → (Bank → K) → Option (DTMAction K) → DTMAction K
  | .throttling p => p.evaluate
  | .dvfs p => p.evaluate
  | .lowPowerMode p => p.evaluate

/-! ## Composition -/

/-- A policy: a basic one, or a `CompositeDTMPolicy` over a list of policies. -/
inductive DTMPolicy (K : Type*)
  | basic (p : BasicPolicy K)
  | composite (policies : List (DTMPolicy K))

mutual

def DTMPolicy.evaluate : DTMPolicy K → (Bank → K) → Option (DTMAction K) → DTMAction K
  | .basic p, bankTemps, currentAction => p.evaluate bankTemps currentAction
  | .composite policies, bankTemps, currentAction =>
    evaluateAll policies bankTemps (currentAction.getD .init)

/-- `for policy in self.policies: action = policy.evaluate(bank_temps, action)`. -/
def evaluateAll : List (DTMPolicy K) → (Bank → K) → DTMAction K → DTMAction K
  | [], _, action => action
  | policy :: policies, bankTemps, action =>
    evaluateAll policies bankTemps (policy.evaluate bankTemps (some action))

end

mutual

/-- The basic policies of a tree, in the order they are evaluated. -/
def DTMPolicy.chain : DTMPolicy K → List (BasicPolicy K)
  | .basic p => [p]
  | .composite policies => chainAll policies

def chainAll : List (DTMPolicy K) → List (BasicPolicy K)
  | [] => []
  | policy :: policies => policy.chain ++ chainAll policies

end

/-- The low-power policies of a tree, in the order they are evaluated. -/
def DTMPolicy.lowPowerModes (policy : DTMPolicy K) : List (LowPowerModePolicy K) :=
  policy.chain.filterMap fun
    | .lowPowerMode p => some p
    | _ => none

@[simp] theorem DTMPolicy.evaluate_none (policy : DTMPolicy K) (bankTemps : Bank → K) :
    policy.evaluate bankTemps none = policy.evaluate bankTemps (some .init) := by
  cases policy with
  | basic p => cases p <;> rfl
  | composite policies => simp only [DTMPolicy.evaluate, Option.getD]

mutual

/-- A tree of policies acts as the chain of its basic policies. -/
theorem DTMPolicy.evaluate_eq_foldl (policy : DTMPolicy K) (bankTemps : Bank → K)
    (action : DTMAction K) :
    policy.evaluate bankTemps (some action) =
      policy.chain.foldl (fun a p => p.evaluate bankTemps (some a)) action := by
  cases policy with
  | basic p => rfl
  | composite policies =>
    rw [DTMPolicy.evaluate, DTMPolicy.chain]
    exact evaluateAll_eq_foldl policies bankTemps action

theorem evaluateAll_eq_foldl (policies : List (DTMPolicy K)) (bankTemps : Bank → K)
    (action : DTMAction K) :
    evaluateAll policies bankTemps action =
      (chainAll policies).foldl (fun a p => p.evaluate bankTemps (some a)) action := by
  cases policies with
  | nil => rfl
  | cons policy policies =>
    rw [evaluateAll, chainAll, List.foldl_append, ← policy.evaluate_eq_foldl]
    exact evaluateAll_eq_foldl policies bankTemps _

end

/-- A property every basic policy preserves is preserved by every tree of policies. -/
theorem DTMPolicy.evaluate_invariant {P : DTMAction K → Prop} {bankTemps : Bank → K}
    (preserves : ∀ (p : BasicPolicy K) a, P a → P (p.evaluate bankTemps (some a)))
    (policy : DTMPolicy K) {action : DTMAction K} (start : P action) :
    P (policy.evaluate bankTemps (some action)) := by
  rw [policy.evaluate_eq_foldl]
  exact List.foldlRecOn _ _ start fun a holds p _ => preserves p a holds

/-! ## What low-power mode does to a channel -/

theorem LowPowerModePolicy.mem_lpmChannels_evaluateChannel (p : LowPowerModePolicy K)
    (bankTemps : Bank → K) (action : DTMAction K) (ch ch' : Channel) :
    ch' ∈ (p.evaluateChannel bankTemps action ch).lpmChannels ↔ if ch' = ch then
        p.criticalTemp ≤ chPeak bankTemps ch ∨
          ch ∈ action.lpmChannels ∧ p.cooldownTemp ≤ chPeak bankTemps ch
      else ch' ∈ action.lpmChannels := by
  unfold evaluateChannel
  by_cases same : ch' = ch
  · subst same
    by_cases hot : p.criticalTemp ≤ chPeak bankTemps ch'
    · simp [hot]
    · by_cases cool : ch' ∈ action.lpmChannels ∧ chPeak bankTemps ch' < p.cooldownTemp
      · simp [hot, cool]
      · rw [not_and, not_lt] at cool
        simp only [hot, if_false, if_true, false_or]
        rw [if_neg (by simpa using cool)]
        exact ⟨fun member => ⟨member, cool member⟩, And.left⟩
  · by_cases hot : p.criticalTemp ≤ chPeak bankTemps ch
    · simp [hot, same]
    · by_cases cool : ch ∈ action.lpmChannels ∧ chPeak bankTemps ch < p.cooldownTemp
      · simp [hot, cool, same]
      · simp [hot, cool, same]

/-- **One evaluation.** A channel is in low-power mode afterwards exactly when its peak
reaches `critical_temp`, or it was in low-power mode and has not cooled below
`cooldown_temp`. -/
theorem LowPowerModePolicy.mem_lpmChannels_evaluate (p : LowPowerModePolicy K)
    (bankTemps : Bank → K) (action : DTMAction K) (ch : Channel) :
    ch ∈ (p.evaluate bankTemps (some action)).lpmChannels ↔ p.criticalTemp ≤ chPeak bankTemps ch ∨
        ch ∈ action.lpmChannels ∧ p.cooldownTemp ≤ chPeak bankTemps ch := by
  -- the loop visits each channel once, and a visit touches no other channel
  have visits : ∀ (chs : List Channel) (a : DTMAction K), chs.Nodup →
      (ch ∈ (chs.foldl (p.evaluateChannel bankTemps) a).lpmChannels ↔
        if ch ∈ chs then
          p.criticalTemp ≤ chPeak bankTemps ch ∨
            ch ∈ a.lpmChannels ∧ p.cooldownTemp ≤ chPeak bankTemps ch
        else ch ∈ a.lpmChannels) := by
    intro chs
    induction chs with
    | nil => simp
    | cons head rest ih =>
      intro a nodup
      rw [List.nodup_cons] at nodup
      rw [List.foldl_cons, ih _ nodup.2, p.mem_lpmChannels_evaluateChannel]
      by_cases same : ch = head
      · subst same
        simp [nodup.1]
      · simp [same]
  simpa [evaluate] using visits (List.finRange numChannels) action (List.nodup_finRange _)

/-- Throttling and DVFS leave low-power mode alone. -/
theorem BasicPolicy.lpm_evaluate_of_ne {p : BasicPolicy K} (other : ∀ q, p ≠ .lowPowerMode q)
    (bankTemps : Bank → K) (action : DTMAction K) :
    (p.evaluate bankTemps (some action)).lpmChannels = action.lpmChannels ∧
      (p.evaluate bankTemps (some action)).bankActive = action.bankActive := by
  cases p with
  | throttling p =>
    simp only [BasicPolicy.evaluate, ThrottlingPolicy.evaluate, Option.getD]
    split <;> exact ⟨rfl, rfl⟩
  | dvfs p => exact ⟨rfl, rfl⟩
  | lowPowerMode q => exact absurd rfl (other q)

/-- A chain of low-power policies holds a channel of this peak: one of them is critical,
and no later one has cooled. -/
def Latches (ps : List (LowPowerModePolicy K)) (peak : K) : Prop :=
  ∃ before p after, ps = before ++ p :: after ∧ p.criticalTemp ≤ peak ∧
    ∀ q ∈ after, q.cooldownTemp ≤ peak

theorem latches_append_singleton {ps : List (LowPowerModePolicy K)} {p : LowPowerModePolicy K}
    {peak : K} :
    Latches (ps ++ [p]) peak ↔ p.criticalTemp ≤ peak ∨ Latches ps peak ∧ p.cooldownTemp ≤ peak := by
  constructor
  · rintro ⟨before, q, after, split, hot, warm⟩
    rcases List.eq_nil_or_concat after with rfl | ⟨after, last, rfl⟩
    · obtain ⟨-, eq⟩ := List.append_inj' split rfl
      cases eq
      exact Or.inl hot
    · rw [List.concat_eq_append, ← List.cons_append, ← List.append_assoc] at split
      obtain ⟨rfl, eq⟩ := List.append_inj' split rfl
      cases eq
      rw [List.concat_eq_append] at warm
      exact Or.inr ⟨⟨before, q, after, rfl, hot, fun r member => warm r (by simp [member])⟩,
        warm p (by simp)⟩
  · rintro (hot | ⟨⟨before, q, after, rfl, hot, warm⟩, cool⟩)
    · exact ⟨ps, p, [], rfl, hot, by simp⟩
    · refine ⟨before, q, after ++ [p], by simp, hot, fun r member => ?_⟩
      rcases List.mem_append.mp member with inAfter | isLast
      · exact warm r inAfter
      · rw [List.mem_singleton] at isLast
        exact isLast ▸ cool

theorem latches_singleton {p : LowPowerModePolicy K} {peak : K} :
    Latches [p] peak ↔ p.criticalTemp ≤ peak := by
  have last : Latches ([] ++ [p]) peak ↔ _ := latches_append_singleton
  simpa [Latches] using last

/-- **A fresh evaluation.** Without a previous action, a policy tree puts a channel into
low-power mode exactly when its low-power chain latches at the channel's peak. -/
theorem DTMPolicy.mem_lpmChannels_evaluate_none (policy : DTMPolicy K) (bankTemps : Bank → K)
    (ch : Channel) :
    ch ∈ (policy.evaluate bankTemps none).lpmChannels ↔
      Latches policy.lowPowerModes (chPeak bankTemps ch) := by
  rw [policy.evaluate_none, policy.evaluate_eq_foldl, lowPowerModes]
  induction policy.chain using List.reverseRecOn with
  | nil => simp [DTMAction.init, Latches]
  | append_singleton ps p ih =>
    rw [List.foldl_append, List.foldl_cons, List.foldl_nil, List.filterMap_append]
    cases p with
    | lowPowerMode q =>
      rw [BasicPolicy.evaluate, q.mem_lpmChannels_evaluate, ih]
      exact latches_append_singleton.symm
    | throttling q =>
      rw [(BasicPolicy.lpm_evaluate_of_ne (by simp) _ _).1, ih]
      simp
    | dvfs q =>
      rw [(BasicPolicy.lpm_evaluate_of_ne (by simp) _ _).1, ih]
      simp

end GpuHotSpot.Pipeline
