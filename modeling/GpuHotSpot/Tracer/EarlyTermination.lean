import GpuHotSpot.Lib.Largest
import GpuHotSpot.Tracer.KernelSelection

/-!
# Stopping at the limit

With `TERMINATE_UPON_LIMIT` the tool ends the process at the first launch whose
number is greater than every end in `DYNAMIC_KERNEL_RANGE`. An open range has no end
and does not raise that limit: it is stored with the end 0, as is a range that ends
at 0 or is not given at all.

* `shouldTraceKernel_stopped`: what is still selected from there on.
* `dropsNothing_iff`: when nothing is.
-/

namespace GpuHotSpot.Tracer

/-- The end stored for a token. -/
def tokenStop (token : Text) : Option ℕ := (parseRange (upTo '@' token)).map Prod.snd

section Ranges

variable {regex : Regex} {settings s : Settings} {envVar : Option Text}

/-- The ranges of the tool are those of the tokens, or an open one if there are no tokens, and its
limit is 0 or the greatest end. -/
theorem withRanges_spec (read : settings.withRanges regex envVar = some s) :
    s.terminateAfterLimit = settings.terminateAfterLimit ∧
      s.maxKernelId = (s.ranges.map (·.stop)).foldl max 0 ∧
      (envVar.getD [] = [] ∧ s.maxKernelId = 0 ∨ ∀ range, range ∈ s.ranges ↔
          ∃ token ∈ tokens (envVar.getD []), parseToken regex token = some range) := by
  obtain ⟨⟨ranges, maxKernelId⟩, parsed, rfl⟩ := Option.map_eq_some_iff.mp read
  rw [parseKernelRangesFromEnv.eq_def] at parsed
  split at parsed
  · cases parsed
    exact ⟨rfl, rfl, .inl ⟨rfl, rfl⟩⟩
  · cases parsed
    exact ⟨rfl, rfl, .inl ⟨rfl, rfl⟩⟩
  · obtain ⟨ranges', mapped, same⟩ := Option.map_eq_some_iff.mp parsed
    cases same
    exact ⟨rfl, rfl, .inr fun range => mem_of_mapM mapped⟩

/-- **From the exit on**, a kernel is selected only by a range whose end is stored as 0. -/
theorem shouldTraceKernel_stopped (limit : s.maxKernelId = (s.ranges.map (·.stop)).foldl max 0)
    {k : ℕ} (beyond : s.maxKernelId < k) (name : Text) :
    shouldTraceKernel s.ranges k name = true ↔
      ∃ range ∈ s.ranges, range.stop = 0 ∧ range.start ≤ k ∧
        range.kernelNameRegexes.any (· name) = true := by
  have ends := (foldl_max_le_iff.1 (limit ▸ le_refl s.maxKernelId)).2
  rw [shouldTraceKernel, List.any_eq_true]
  refine exists_congr fun range => and_congr_right fun member => ?_
  have low := ends range.stop (List.mem_map_of_mem member)
  rw [Bool.and_eq_true, KernelRange.holds_eq_true]
  constructor
  · rintro ⟨⟨from_, openEnd | upTo⟩, accepts⟩
    · exact ⟨openEnd, from_, accepts⟩
    · omega
  · rintro ⟨openEnd, from_, accepts⟩
    exact ⟨⟨from_, .inl openEnd⟩, accepts⟩

theorem stopsAt_iff {k : ℕ} :
    s.stopsAt k = true ↔ s.terminateAfterLimit = true ∧ s.maxKernelId ≠ 0 ∧ s.maxKernelId < k := by
  simp [Settings.stopsAt, and_assoc]

theorem enterKernelLaunch_eq_none_iff {tool : Tool} {name : Text} :
    enterKernelLaunch s tool name = none ↔ s.stopsAt tool.kernelId = true := by
  rw [enterKernelLaunch]
  split_ifs with stops <;> simp [stops]

/-- The end and the patterns of a range are those of its token. -/
theorem parseToken_eq_some_iff {token : Text} {range : KernelRange} :
    parseToken regex token = some range ↔
      parseRange (upTo '@' token) = some (range.start, range.stop) ∧
        parseRegexes regex (behind '@' token) = range.kernelNameRegexes := by
  obtain ⟨start, stop, accepts⟩ := range
  rw [parseToken, Option.map_eq_some_iff]
  constructor
  · rintro ⟨⟨start', stop'⟩, parsed, same⟩
    cases same
    exact ⟨parsed, rfl⟩
  · rintro ⟨parsed, rfl⟩
    exact ⟨_, parsed, rfl⟩

/-- **Stopping drops nothing** exactly if the tool is not told to stop, or no token has an end other
than 0, or no token with the end 0 has a pattern that matches some name. -/
theorem dropsNothing_iff (read : settings.withRanges regex envVar = some s) :
    (∀ tool name, enterKernelLaunch s tool name = none →
      ∀ k, tool.kernelId ≤ k → ∀ kernelName, shouldTraceKernel s.ranges k kernelName = false) ↔
    (settings.terminateAfterLimit = false ∨
      (∀ token ∈ tokens (envVar.getD []), ∀ stop, tokenStop token = some stop → stop = 0) ∨
      ∀ token ∈ tokens (envVar.getD []), tokenStop token = some 0 → ∀ kernelName,
        (parseRegexes regex (behind '@' token)).any (· kernelName) = false) := by
  obtain ⟨told, limit, ranges⟩ := withRanges_spec read
  rcases ranges with ⟨unset, unlimited⟩ | ranges
  · rw [unset, show tokens [] = [] from tokensBy_nil]
    refine iff_of_true ?_ (.inr (.inl fun _ none => absurd none List.not_mem_nil))
    intro tool name exits
    exact absurd unlimited (stopsAt_iff.1 (enterKernelLaunch_eq_none_iff.1 exits)).2.1
  constructor
  · intro drops
    by_contra reached
    rw [not_or, not_or, Bool.not_eq_false] at reached
    obtain ⟨terminates, someEnd, someOpen⟩ := reached
    push Not at someEnd someOpen
    obtain ⟨token, member, stop, ends, positive⟩ := someEnd
    obtain ⟨token', member', openEnd, kernelName, accepts⟩ := someOpen
    obtain ⟨⟨start, _⟩, parsed, rfl⟩ := Option.map_eq_some_iff.mp ends
    obtain ⟨⟨start', _⟩, parsed', rfl⟩ := Option.map_eq_some_iff.mp openEnd
    have limited : s.maxKernelId ≠ 0 := by
      intro unlimited
      have inRanges := (ranges ⟨start, _, parseRegexes regex (behind '@' token)⟩).mpr
        ⟨token, member, parseToken_eq_some_iff.2 ⟨parsed, rfl⟩⟩
      have low := (foldl_max_le_iff.1 (limit ▸ unlimited).le).2 _ (List.mem_map_of_mem inRanges)
      exact positive (Nat.le_zero.mp low)
    -- the first number behind the limit and behind the start of the open range
    have beyond : s.maxKernelId < max (s.maxKernelId + 1) start' := by omega
    have selected := (shouldTraceKernel_stopped limit beyond kernelName).mpr
      ⟨_, (ranges ⟨start', 0, parseRegexes regex (behind '@' token')⟩).mpr
        ⟨token', member', parseToken_eq_some_iff.2 ⟨parsed', rfl⟩⟩, rfl, le_max_right _ _,
          Bool.eq_true_of_not_eq_false accepts⟩
    have dropped := drops ⟨false, false, max (s.maxKernelId + 1) start', [], []⟩ []
      (enterKernelLaunch_eq_none_iff.2 (stopsAt_iff.2 ⟨told.trans terminates, limited, beyond⟩))
      _ le_rfl kernelName
    rw [selected] at dropped
    cases dropped
  · intro condition tool name exits k later kernelName
    obtain ⟨terminates, limited, beyond⟩ :=
      stopsAt_iff.1 (enterKernelLaunch_eq_none_iff.1 exits)
    rw [Bool.eq_false_iff]
    intro selected
    obtain ⟨range, inRanges, openEnd, -, accepts⟩ :=
      (shouldTraceKernel_stopped limit (beyond.trans_le later) kernelName).mp selected
    obtain ⟨token, member, parsed⟩ := (ranges range).mp inRanges
    obtain ⟨numbers, patterns⟩ := parseToken_eq_some_iff.1 parsed
    rcases condition with untold | noEnd | silent
    · rw [← told, terminates] at untold
      cases untold
    · refine limited (Nat.le_zero.mp (limit ▸ foldl_max_le_iff.2 ⟨le_rfl, fun stop inEnds => ?_⟩))
      obtain ⟨range', inRanges', rfl⟩ := List.mem_map.mp inEnds
      obtain ⟨token', member', parsed'⟩ := (ranges range').mp inRanges'
      refine (noEnd token' member' _ ?_).le
      rw [tokenStop, (parseToken_eq_some_iff.1 parsed').1]
      rfl
    · have quiet := silent token member (by rw [tokenStop, numbers, openEnd]; rfl) kernelName
      rw [patterns, accepts] at quiet
      cases quiet

end Ranges

/-- A tool that is told to stop at the limit. -/
def stoppingSettings : Settings := { exampleSettings with terminateAfterLimit := true }

/-- `1-5` and `3`: the process may stop. -/
theorem dropsNothing_iff_closed :
    ∃ s, stoppingSettings.withRanges .literal (some "1-5 3".toList) = some s ∧
      ∀ tool name, enterKernelLaunch s tool name = none →
        ∀ k, tool.kernelId ≤ k → ∀ kernelName, shouldTraceKernel s.ranges k kernelName = false := by
  obtain ⟨s, read⟩ : ∃ s, stoppingSettings.withRanges .literal (some "1-5 3".toList) = some s :=
    ⟨_, rfl⟩
  refine ⟨s, read, (dropsNothing_iff read).mpr (.inr (.inr ?_))⟩
  have ends : ∀ token ∈ tokens "1-5 3".toList, tokenStop token ≠ some 0 := by decide +kernel
  exact fun token member openEnd => absurd openEnd (ends token member)

/-- `1-5 10-`: the process stops at the sixth launch, and the tenth is never traced. -/
theorem exists_dropped :
    ∃ s, stoppingSettings.withRanges .literal (some "1-5 10-".toList) = some s ∧
      enterKernelLaunch s ⟨false, false, 6, [], []⟩ ['a'] = none ∧
      shouldTraceKernel s.ranges 10 ['a'] = true :=
  ⟨_, rfl, by decide +kernel, by decide +kernel⟩

end GpuHotSpot.Tracer
