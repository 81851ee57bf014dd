import GpuHotSpot.Lib.Footprint
import GpuHotSpot.Pipeline.DtmPolicies

/-!
# The order of policies

The policies of a composite refine one action one after the other. Each of them
works on its own part of the action: throttling on the factors, DVFS on frequency
and voltage, low-power mode on the channels and the banks it gates. Nobody uses the
pseudo-channels and the migration pairs.

* `composite_evaluate_perm`: policies of different kinds may be given in any order,
  and every part of the result is what the policy of its kind would have made of the
  incoming action.
-/

namespace GpuHotSpot.Pipeline

variable {K : Type*}

/-! ## Parts of an action -/

/-- The parts of an action. -/
inductive ActionPart
  | throttling
  | dvfs
  | lowPowerMode
  | unused
  deriving DecidableEq, Repr

/-- Two actions agree on a part. -/
def DTMAction.Same (a a' : DTMAction K) : ActionPart → Prop
  | .throttling => a.throttleFactors = a'.throttleFactors
  | .dvfs => a.freqScale = a'.freqScale ∧ a.voltageScale = a'.voltageScale
  | .lowPowerMode => a.bankActive = a'.bankActive ∧ a.lpmChannels = a'.lpmChannels
  | .unused => a.lpmPseudochannels = a'.lpmPseudochannels ∧ a.migrationPairs = a'.migrationPairs

/-- The part a policy works on. -/
def BasicPolicy.part : BasicPolicy K → ActionPart
  | .throttling _ => .throttling
  | .dvfs _ => .dvfs
  | .lowPowerMode _ => .lowPowerMode

namespace DTMAction.Same

variable {a a' a'' : DTMAction K} {part : ActionPart}

protected theorem refl (a : DTMAction K) (part : ActionPart) : a.Same a part := by
  cases part with
  | throttling => exact rfl
  | dvfs | lowPowerMode | unused => exact ⟨rfl, rfl⟩

protected theorem symm (same : a.Same a' part) : a'.Same a part := by
  cases part with
  | throttling => exact Eq.symm same
  | dvfs | lowPowerMode | unused => exact ⟨same.1.symm, same.2.symm⟩

protected theorem trans (same : a.Same a' part) (same' : a'.Same a'' part) : a.Same a'' part := by
  cases part with
  | throttling => exact Eq.trans same same'
  | dvfs | lowPowerMode | unused => exact ⟨same.1.trans same'.1, same.2.trans same'.2⟩

end DTMAction.Same

/-- Nothing is in an action but its parts. -/
theorem DTMAction.eq_of_same {a a' : DTMAction K} (same : ∀ part, a.Same a' part) : a = a' := by
  obtain ⟨throttleFactors, freqScale, voltageScale, bankActive, lpmChannels, pseudo, pairs⟩ := a
  obtain rfl : throttleFactors = _ := same .throttling
  obtain ⟨rfl, rfl⟩ : freqScale = _ ∧ voltageScale = _ := same .dvfs
  obtain ⟨rfl, rfl⟩ : bankActive = _ ∧ lpmChannels = _ := same .lowPowerMode
  obtain ⟨rfl, rfl⟩ : pseudo = _ ∧ pairs = _ := same .unused
  rfl

/-! ## What a policy reads and writes -/

variable [ExactFloat K]

/-- Visiting a channel leaves the other parts alone. -/
theorem LowPowerModePolicy.same_evaluateChannel (p : LowPowerModePolicy K) (bankTemps : Bank → K)
    (a : DTMAction K) (ch : Channel) {part : ActionPart} (other : part ≠ .lowPowerMode) :
    (p.evaluateChannel bankTemps a ch).Same a part := by
  rw [evaluateChannel]
  cases part with
  | lowPowerMode => exact absurd rfl other
  | throttling => split_ifs <;> exact rfl
  | dvfs | unused => split_ifs <;> exact ⟨rfl, rfl⟩

/-- Visiting a channel is decided by the channels in low-power mode. -/
theorem LowPowerModePolicy.evaluateChannel_same (p : LowPowerModePolicy K) (bankTemps : Bank → K)
    {a a' : DTMAction K} (same : a.Same a' .lowPowerMode) (ch : Channel) :
    (p.evaluateChannel bankTemps a ch).Same (p.evaluateChannel bankTemps a' ch) .lowPowerMode := by
  obtain ⟨active, channels⟩ := same
  rw [evaluateChannel, evaluateChannel, channels, active]
  split_ifs
  · exact ⟨rfl, rfl⟩
  · exact ⟨rfl, rfl⟩
  · exact ⟨active, channels⟩

/-- **Writes.** A policy writes to its own part. -/
theorem BasicPolicy.same_evaluate (p : BasicPolicy K) (bankTemps : Bank → K) (a : DTMAction K)
    {part : ActionPart} (other : p.part ≠ part) :
    (p.evaluate bankTemps (some a)).Same a part := by
  cases p with
  | throttling p =>
    simp only [BasicPolicy.evaluate, ThrottlingPolicy.evaluate, Option.getD]
    split_ifs
    · exact .refl a part
    · cases part with
      | throttling => exact absurd rfl other
      | dvfs | lowPowerMode | unused => exact ⟨rfl, rfl⟩
  | dvfs p =>
    cases part with
    | dvfs => exact absurd rfl other
    | throttling => exact rfl
    | lowPowerMode | unused => exact ⟨rfl, rfl⟩
  | lowPowerMode p =>
    refine List.foldlRecOn (motive := fun a' : DTMAction K => a'.Same a part) _ _ (.refl a part) ?_
    intro a' same ch _
    exact (p.same_evaluateChannel bankTemps a' ch (Ne.symm other)).trans same

/-- **Reads.** What a policy writes is decided by the temperatures and its own part. -/
theorem BasicPolicy.evaluate_same (p : BasicPolicy K) (bankTemps : Bank → K) {a a' : DTMAction K}
    (same : a.Same a' p.part) :
    (p.evaluate bankTemps (some a)).Same (p.evaluate bankTemps (some a')) p.part := by
  cases p with
  | throttling p =>
    simp only [BasicPolicy.evaluate, ThrottlingPolicy.evaluate, Option.getD]
    split_ifs
    · exact same
    · exact rfl
  | dvfs p => exact ⟨rfl, rfl⟩
  | lowPowerMode p =>
    have visits (chs : List Channel) : ∀ a a' : DTMAction K, a.Same a' .lowPowerMode →
        (chs.foldl (p.evaluateChannel bankTemps) a).Same
          (chs.foldl (p.evaluateChannel bankTemps) a') .lowPowerMode := by
      induction chs with
      | nil => exact fun _ _ same => same
      | cons ch chs ih => exact fun a a' same => ih _ _ (p.evaluateChannel_same bankTemps same ch)
    exact visits (List.finRange numChannels) a a' same

/-- The basic policies at given temperatures. -/
def policyFootprint (bankTemps : Bank → K) : Footprint (DTMAction K) (BasicPolicy K) ActionPart where
  act p a := p.evaluate bankTemps (some a)
  owner := BasicPolicy.part
  same part a a' := a.Same a' part
  equivalence part := ⟨fun a => .refl a part, .symm, .trans⟩
  own p _ _ same := p.evaluate_same bankTemps same
  other p _ a other := p.same_evaluate bankTemps a other

/-! ## Composites -/

/-- A composite runs the chain of its basic policies on the incoming action. -/
theorem composite_evaluate_eq_run (policies : List (DTMPolicy K)) (bankTemps : Bank → K)
    (currentAction : Option (DTMAction K)) :
    (DTMPolicy.composite policies).evaluate bankTemps currentAction =
      (policyFootprint bankTemps).run (chainAll policies) (currentAction.getD .init) := by
  rw [DTMPolicy.evaluate, evaluateAll_eq_foldl]
  rfl

omit [ExactFloat K] in
theorem chainAll_eq_flatMap (policies : List (DTMPolicy K)) :
    chainAll policies = policies.flatMap DTMPolicy.chain := by
  induction policies with
  | nil => rfl
  | cons policy policies ih => rw [chainAll, ih, List.flatMap_cons]

theorem BasicPolicy.evaluate_getD (p : BasicPolicy K) (bankTemps : Bank → K)
    (currentAction : Option (DTMAction K)) :
    p.evaluate bankTemps (some (currentAction.getD .init)) = p.evaluate bankTemps currentAction := by
  cases currentAction with
  | none => cases p <;> rfl
  | some a => rfl

/-- **The order of policies.** If no two of the basic policies of a composite are of one kind, then
its list of policies may be permuted. A part of the result is what the policy of its kind alone
makes of the incoming action, and where there is no policy of its kind, it is that of the incoming
action. Pseudo-channels and migration pairs are those of the incoming action in any case. -/
theorem composite_evaluate_perm (policies : List (DTMPolicy K))
    (kinds : ((chainAll policies).map BasicPolicy.part).Nodup) (bankTemps : Bank → K)
    (currentAction : Option (DTMAction K)) :
    (∀ policies', policies.Perm policies' →
      (DTMPolicy.composite policies').evaluate bankTemps currentAction =
        (DTMPolicy.composite policies).evaluate bankTemps currentAction) ∧ (∀ p ∈ chainAll policies,
      ((DTMPolicy.composite policies).evaluate bankTemps currentAction).Same
        (p.evaluate bankTemps currentAction) p.part) ∧
    ∀ part ∉ (chainAll policies).map BasicPolicy.part,
      ((DTMPolicy.composite policies).evaluate bankTemps currentAction).Same
        (currentAction.getD .init) part := by
  simp only [composite_evaluate_eq_run]
  refine ⟨?_, ?_, ?_⟩
  · intro policies' perm
    refine ((policyFootprint bankTemps).run_perm (fun _ _ => DTMAction.eq_of_same) ?_ kinds _).symm
    rw [chainAll_eq_flatMap, chainAll_eq_flatMap]
    exact perm.flatMap_right _
  · intro p member
    rw [← p.evaluate_getD]
    exact (policyFootprint bankTemps).same_run_of_mem kinds member _
  · intro part foreign
    exact (policyFootprint bankTemps).same_run_of_notMem foreign _

/-- The shipped policies, forwards and backwards. -/
theorem composite_evaluate_perm_reverse :
    let throttling : DTMPolicy ℝ := .basic (.throttling ⟨80, 85⟩)
    let dvfs : DTMPolicy ℝ := .basic (.dvfs ⟨(PipelineConfig.default []).dvfs⟩)
    let lowPowerMode : DTMPolicy ℝ := .basic (.lowPowerMode ⟨85, 75⟩)
    (DTMPolicy.composite [lowPowerMode, dvfs, throttling]).evaluate (fun _ => 90) none =
      (DTMPolicy.composite [throttling, dvfs, lowPowerMode]).evaluate (fun _ => 90) none := by
  intro throttling dvfs lowPowerMode
  refine (composite_evaluate_perm [throttling, dvfs, lowPowerMode] ?_ (fun _ => 90) none).1 _ ?_
  · simp [throttling, dvfs, lowPowerMode, chainAll, DTMPolicy.chain, BasicPolicy.part]
  · exact (List.reverse_perm [throttling, dvfs, lowPowerMode]).symm

end GpuHotSpot.Pipeline
