import Mathlib.Data.List.Chain
import Mathlib.Data.List.Nodup
import Mathlib.Tactic.Tauto
import GpuHotSpot.Tracer.KernelRanges

/-!
# Which kernels are traced

`enter_kernel_launch` and `leave_kernel_launch` of
`util/tracer_nvbit/tracer_tool/tracer_tool.cu`, for kernels launched one after
another in one context.

Whether a launch is traced goes through the flag `active_region`. A launch that is
selected sets it. When it is left, the flag is cleared unless the kernel that was
left would be selected under the next number, whatever the next kernel is.

* `runLaunches_traced`: what the flag amounts to over a run.
* `selected_iff`: when exactly the documented kernels are traced.
-/

namespace GpuHotSpot.Tracer

/-! ## Launches -/

/-- What the tool is told by its environment. -/
structure Settings where
  activeFromStart : Bool
  terminateAfterLimit : Bool
  xzCompressTrace : Bool
  userFolder : Text
  ctx : ℕ
  ranges : List KernelRange
  maxKernelId : ℕ

/-- The globals of the tool that a launch reads or writes, and the files it makes. -/
structure Tool where
  activeRegion : Bool
  stopReport : Bool
  kernelId : ℕ
  traceFiles : List Text
  kernelslist : List Text

/-- `nvbit_at_init` and `nvbit_at_ctx_init`. -/
def Tool.init : Tool := ⟨false, false, 1, [], []⟩

section Launch

variable (s : Settings)

/-- `kernel-%d-ctx_0x%lx.trace`. -/
def traceName (kernelId : ℕ) : Text :=
  "kernel-".toList ++ (fmtInt kernelId ++ '-' :: ("ctx_0x".toList ++ Nat.toDigits 16 s.ctx ++
    ".trace".toList ++ if s.xzCompressTrace then ".xz".toList else []))

/-- The trace file of a launch. -/
def traceFile (kernelId : ℕ) : Text :=
  s.userFolder ++ "/traces/".toList ++ "/".toList ++ traceName s kernelId

/-- The tool stops the process once the greatest kernel id was reached, if it is told to. -/
def Settings.stopsAt (kernelId : ℕ) : Bool :=
  s.terminateAfterLimit && s.maxKernelId ≠ 0 && s.maxKernelId < kernelId

/-- `enter_kernel_launch`, `none` where it ends the process. -/
def enterKernelLaunch (tool : Tool) (name : Text) : Option Tool :=
  let activeRegion :=
    if s.activeFromStart && shouldTraceKernel s.ranges tool.kernelId name then true
    else tool.activeRegion
  if s.stopsAt tool.kernelId then none
  else
    let stopReport := !activeRegion
    some
      { activeRegion
        stopReport
        kernelId := tool.kernelId + 1
        traceFiles := if !stopReport then tool.traceFiles ++ [traceFile s tool.kernelId]
          else tool.traceFiles
        kernelslist := if !stopReport then tool.kernelslist ++ [traceName s tool.kernelId]
          else tool.kernelslist }

/-- `leave_kernel_launch`. The number of the next kernel is already counted. -/
def leaveKernelLaunch (tool : Tool) (name : Text) : Tool :=
  if s.activeFromStart && !shouldTraceKernel s.ranges tool.kernelId name then
    { tool with activeRegion := false }
  else tool

/-- A launch that took place. -/
structure Launch where
  id : ℕ
  name : Text
  traced : Bool
  deriving DecidableEq

/-- Kernels launched one after another, as far as the tool lets the process live. -/
def runLaunches (tool : Tool) : List Text → List Launch × Tool
  | [] => ([], tool)
  | name :: names =>
    match enterKernelLaunch s tool name with
    | none => ([], tool)
    | some entered =>
      let (launches, last) := runLaunches (leaveKernelLaunch s entered name) names
      (⟨tool.kernelId, name, !entered.stopReport⟩ :: launches, last)

/-- The launches that take place, numbered from `k` on. -/
def started (k : ℕ) : List Text → List (ℕ × Text)
  | [] => []
  | name :: names => if s.stopsAt k then [] else (k, name) :: started (k + 1) names

end Launch

/-- What the tool is told, with its ranges read from `DYNAMIC_KERNEL_RANGE`. -/
def Settings.withRanges (s : Settings) (regex : Regex) (envVar : Option Text) : Option Settings :=
  (parseKernelRangesFromEnv regex envVar).map fun (ranges, maxKernelId) =>
    { s with ranges, maxKernelId }

/-! ## The flag over a run -/

section Run

variable {s : Settings}

/-- A launch is traced if it is selected or the flag is still set. -/
def tracedNow (s : Settings) (tool : Tool) (name : Text) : Bool :=
  tool.activeRegion || shouldTraceKernel s.ranges tool.kernelId name

/-- The tool behind a launch. -/
def afterLaunch (s : Settings) (tool : Tool) (name : Text) : Tool where
  activeRegion := tracedNow s tool name && shouldTraceKernel s.ranges (tool.kernelId + 1) name
  stopReport := !tracedNow s tool name
  kernelId := tool.kernelId + 1
  traceFiles := tool.traceFiles ++
    if tracedNow s tool name then [traceFile s tool.kernelId] else []
  kernelslist := tool.kernelslist ++
    if tracedNow s tool name then [traceName s tool.kernelId] else []

/-- **One launch**: entering and leaving it. -/
theorem runLaunches_cons (active : s.activeFromStart = true) {tool : Tool} {name : Text}
    {names : List Text} (lives : s.stopsAt tool.kernelId = false) :
    runLaunches s tool (name :: names) = (⟨tool.kernelId, name, tracedNow s tool name⟩ ::
          (runLaunches s (afterLaunch s tool name) names).1,
        (runLaunches s (afterLaunch s tool name) names).2) := by
  cases here : shouldTraceKernel s.ranges tool.kernelId name <;>
  cases next : shouldTraceKernel s.ranges (tool.kernelId + 1) name <;>
  cases flag : tool.activeRegion <;>
  simp [runLaunches, enterKernelLaunch, leaveKernelLaunch, afterLaunch, tracedNow, active, lives,
    here, next, flag]

theorem runLaunches_stop {tool : Tool} {name : Text} {names : List Text}
    (stops : s.stopsAt tool.kernelId = true) : runLaunches s tool (name :: names) = ([], tool) := by
  rw [runLaunches, enterKernelLaunch, if_pos stops]

/-- The launches of a run are those that are started. -/
theorem runLaunches_started (active : s.activeFromStart = true) (tool : Tool) (names : List Text) :
    (runLaunches s tool names).1.map (fun l => (l.id, l.name)) = started s tool.kernelId names := by
  induction names generalizing tool with
  | nil => rfl
  | cons name names ih =>
    cases stops : s.stopsAt tool.kernelId with
    | true => simp [runLaunches_stop stops, started, stops]
    | false =>
      rw [runLaunches_cons active stops, started, stops]
      simp [ih, afterLaunch]

theorem le_of_mem_started {names : List Text} {k : ℕ} {launch : ℕ × Text}
    (member : launch ∈ started s k names) : k ≤ launch.1 := by
  induction names generalizing k with
  | nil => cases member
  | cons name names ih =>
    rw [started] at member
    split_ifs at member
    · cases member
    · rcases List.mem_cons.mp member with rfl | later
      · exact le_rfl
      · exact (Nat.le_succ k).trans (ih later)

theorem head_started {names : List Text} {k : ℕ} {launch : ℕ × Text}
    (first : launch ∈ (started s k names).head?) : launch.1 = k := by
  cases names with
  | nil => cases first
  | cons name names =>
    rw [started] at first
    split_ifs at first
    · cases first
    · rw [List.head?_cons, Option.mem_def, Option.some.injEq] at first
      rw [← first]

theorem nodup_started {names : List Text} {k : ℕ} :
    ((started s k names).map Prod.fst).Nodup := by
  induction names generalizing k with
  | nil => exact List.nodup_nil
  | cons name names ih =>
    rw [started]
    split_ifs
    · exact List.nodup_nil
    · rw [List.map_cons, List.nodup_cons]
      refine ⟨fun again => ?_, ih⟩
      obtain ⟨launch, member, same⟩ := List.mem_map.mp again
      have := le_of_mem_started member
      omega

/-- What a launch adds: `a` is the flag in front of it, `now` and `again` whether it is selected under
its number and the next, `first` whether the next launch is. -/
theorem handover {a now again wanted rest first chain : Prop} (covered : wanted → now) :
    ((a ∨ now ↔ wanted) ∧ rest ∧ ((a ∨ now) ∧ again → first) ∧ chain) ↔
      ((now → wanted) ∧ rest) ∧ (a → now) ∧ (now → again → first) ∧ chain := by
  tauto

/-- **The flag over a run**: if everything to be traced is selected, the launches traced are those to
be traced exactly if these are the selected ones, and a launch that would be selected under the next
number is followed by one that is. -/
theorem runLaunches_traced (active : s.activeFromStart = true) {wanted : ℕ × Text → Prop}
    (selected : ∀ launch, wanted launch → shouldTraceKernel s.ranges launch.1 launch.2 = true)
    (tool : Tool) (names : List Text) :
    (∀ l ∈ (runLaunches s tool names).1, (l.traced = true ↔ wanted (l.id, l.name))) ↔
      (∀ launch ∈ started s tool.kernelId names,
        shouldTraceKernel s.ranges launch.1 launch.2 = true → wanted launch) ∧
      (tool.activeRegion = true → ∀ launch ∈ (started s tool.kernelId names).head?,
        shouldTraceKernel s.ranges launch.1 launch.2 = true) ∧
      (started s tool.kernelId names).IsChain fun launch next =>
        shouldTraceKernel s.ranges launch.1 launch.2 = true →
          shouldTraceKernel s.ranges next.1 launch.2 = true →
            shouldTraceKernel s.ranges next.1 next.2 = true := by
  induction names generalizing tool with
  | nil => simp [runLaunches, started]
  | cons name names ih =>
    cases stops : s.stopsAt tool.kernelId with
    | true => simp [runLaunches_stop stops, started, stops]
    | false =>
      have handedOver : (∀ next ∈ (started s (tool.kernelId + 1) names).head?,
            shouldTraceKernel s.ranges tool.kernelId name = true →
              shouldTraceKernel s.ranges next.1 name = true →
                shouldTraceKernel s.ranges next.1 next.2 = true) ↔
          (shouldTraceKernel s.ranges tool.kernelId name = true →
            shouldTraceKernel s.ranges (tool.kernelId + 1) name = true →
              ∀ next ∈ (started s (tool.kernelId + 1) names).head?,
                shouldTraceKernel s.ranges next.1 next.2 = true) := by
        constructor
        · intro each now again next first
          refine each next first now ?_
          rwa [head_started first]
        · intro all next first now again
          rw [head_started first] at again
          exact all now again next first
      have covered := selected (tool.kernelId, name)
      have flag : (afterLaunch s tool name).activeRegion = true ↔
          (tool.activeRegion = true ∨ shouldTraceKernel s.ranges tool.kernelId name = true) ∧
            shouldTraceKernel s.ranges (tool.kernelId + 1) name = true := by
        simp [afterLaunch, tracedNow]
      have now : tracedNow s tool name = true ↔
          tool.activeRegion = true ∨ shouldTraceKernel s.ranges tool.kernelId name = true := by
        simp [tracedNow]
      have numbered : (afterLaunch s tool name).kernelId = tool.kernelId + 1 := rfl
      rw [runLaunches_cons active stops, started, stops, List.forall_mem_cons, ih, now, flag,
        numbered, if_neg Bool.false_ne_true, List.forall_mem_cons, List.isChain_cons, handedOver,
        List.head?_cons]
      simp only [Option.mem_def, Option.some.injEq, forall_eq']
      exact handover covered

/-- A launch leaves a trace file and an entry of the list exactly if it is traced. -/
theorem runLaunches_files (active : s.activeFromStart = true) (tool : Tool) (names : List Text) :
    (runLaunches s tool names).2.traceFiles = tool.traceFiles ++
        (((runLaunches s tool names).1.filter (·.traced)).map fun l => traceFile s l.id) ∧
      (runLaunches s tool names).2.kernelslist = tool.kernelslist ++
        ((runLaunches s tool names).1.filter (·.traced)).map fun l => traceName s l.id := by
  induction names generalizing tool with
  | nil => simp [runLaunches]
  | cons name names ih =>
    cases stops : s.stopsAt tool.kernelId with
    | true => simp [runLaunches_stop stops]
    | false =>
      obtain ⟨files, entries⟩ := ih (afterLaunch s tool name)
      rw [runLaunches_cons active stops, files, entries, List.filter_cons]
      cases now : tracedNow s tool name <;> simp [afterLaunch, now]

end Run

/-! ## Names of traces -/

theorem traceName_injective (s : Settings) : Function.Injective (traceName s) := by
  -- a number ends where the dash of the context begins
  have dash (k : ℕ) : '-' ∉ Nat.toDigits 10 k := fun member =>
    absurd (isDigitIn_of_mem_toDigits (by decide) (by decide) member) (by decide)
  intro k k' same
  have rest := List.append_cancel_left same
  rw [fmtInt_ofNat, fmtInt_ofNat] at rest
  refine toDigits_injective (b := 10) (by decide) (by decide) ?_
  rw [← upTo_append_cons (dash k), rest, upTo_append_cons (dash k')]

theorem traceFile_injective (s : Settings) : Function.Injective (traceFile s) := by
  intro k k' same
  exact traceName_injective s (List.append_cancel_left same)

/-! ## The documented selection -/

/-- A launch is traced, with a trace file and an entry of the list, exactly if it is wanted. -/
structure TracedAs (s : Settings) (last : Tool) (l : Launch) (wanted : Prop) : Prop where
  reported : l.traced = true ↔ wanted
  file : traceFile s l.id ∈ last.traceFiles ↔ wanted
  entry : traceName s l.id ∈ last.kernelslist ↔ wanted

/-- The trace file and the entry of a launch are there exactly if it is traced. -/
theorem tracedAs_iff {s : Settings} (active : s.activeFromStart = true) {names : List Text}
    {l : Launch} (member : l ∈ (runLaunches s .init names).1) {wanted : Prop} :
    TracedAs s (runLaunches s .init names).2 l wanted ↔ (l.traced = true ↔ wanted) := by
  obtain ⟨files, entries⟩ := runLaunches_files active .init names
  have once : ((runLaunches s .init names).1.map (·.id)).Nodup := by
    have ids : ((runLaunches s .init names).1.map fun l => (l.id, l.name)).map Prod.fst =
        (runLaunches s .init names).1.map (·.id) := by
      rw [List.map_map]
      rfl
    rw [← ids, runLaunches_started active]
    exact nodup_started
  have own (name : ℕ → Text) (injective : Function.Injective name) :
      name l.id ∈ ((runLaunches s .init names).1.filter (·.traced)).map (fun l => name l.id) ↔
        l.traced = true := by
    rw [List.mem_map]
    constructor
    · rintro ⟨l', inRun, same⟩
      obtain ⟨member', traced⟩ := List.mem_filter.mp inRun
      rwa [← List.inj_on_of_nodup_map once member' member (injective same)]
    · intro traced
      exact ⟨l, List.mem_filter.mpr ⟨member, traced⟩, rfl⟩
  have file := own (traceFile s) (traceFile_injective s)
  have entry := own (traceName s) (traceName_injective s)
  constructor
  · intro tracedAs
    exact tracedAs.reported
  · intro reported
    refine ⟨reported, ?_, ?_⟩
    · rw [files, Tool.init, List.nil_append, ← reported]
      exact file
    · rw [entries, Tool.init, List.nil_append, ← reported]
      exact entry

theorem mem_of_mem_started {s : Settings} {names : List Text} {k : ℕ} {launch : ℕ × Text}
    (member : launch ∈ started s k names) : launch.2 ∈ names := by
  induction names generalizing k with
  | nil => cases member
  | cons name names ih =>
    rw [started] at member
    split_ifs at member
    · cases member
    · rcases List.mem_cons.mp member with rfl | later
      · exact List.mem_cons_self
      · exact List.mem_cons_of_mem _ (ih later)

/-- What is traced of a run with documented ranges. -/
theorem runLaunches_documented {regex : Regex} {s : Settings} (active : s.activeFromStart = true)
    {specs : List TokenSpec} (ranges : s.ranges = specs.map (TokenSpec.toRange regex))
    {names : List Text} (oneLine : ∀ name ∈ names, OneLine name) :
    (∀ l ∈ (runLaunches s .init names).1,
        TracedAs s (runLaunches s .init names).2 l (Covers regex specs l.id l.name)) ↔
      (∀ launch ∈ started s 1 names, ZeroEndCovers regex specs launch.1 launch.2 →
        Covers regex specs launch.1 launch.2) ∧
      (started s 1 names).IsChain fun launch next =>
        shouldTraceKernel s.ranges launch.1 launch.2 = true →
          shouldTraceKernel s.ranges next.1 launch.2 = true →
            shouldTraceKernel s.ranges next.1 next.2 = true := by
  have selects : ∀ launch ∈ started s 1 names,
      (shouldTraceKernel s.ranges launch.1 launch.2 = true ↔
        Covers regex specs launch.1 launch.2 ∨ ZeroEndCovers regex specs launch.1 launch.2) := by
    intro launch member
    rw [ranges]
    exact shouldTraceKernel_documented regex (le_of_mem_started member)
      (oneLine _ (mem_of_mem_started member))
  have wanted : ∀ launch, (launch ∈ started s 1 names ∧ Covers regex specs launch.1 launch.2) →
      shouldTraceKernel s.ranges launch.1 launch.2 = true :=
    fun launch ⟨member, covers⟩ => (selects launch member).mpr (.inl covers)
  have member : ∀ l ∈ (runLaunches s .init names).1, (l.id, l.name) ∈ started s 1 names := by
    intro l inRun
    have inStarted := List.mem_map_of_mem (f := fun l : Launch => (l.id, l.name)) inRun
    rwa [runLaunches_started active] at inStarted
  calc (∀ l ∈ (runLaunches s .init names).1,
          TracedAs s (runLaunches s .init names).2 l (Covers regex specs l.id l.name))
      ↔ ∀ l ∈ (runLaunches s .init names).1, (l.traced = true ↔
          (l.id, l.name) ∈ started s 1 names ∧ Covers regex specs l.id l.name) := by
        refine forall₂_congr fun l inRun => ?_
        rw [tracedAs_iff active inRun, and_iff_right (member l inRun)]
    _ ↔ _ := runLaunches_traced active wanted .init names
    _ ↔ _ := by
        refine and_congr (forall₂_congr fun launch inStarted => ?_) ?_
        · rw [selects launch inStarted, and_iff_right (show launch ∈ started s 1 names from inStarted)]
          tauto
        · exact and_iff_right nofun

/-- **The documented kernels are traced** if and only if no launch is covered by a token that ends
at 0 alone, and every selected launch whose kernel would be selected under the next number too is
followed by a selected one. -/
theorem selected_iff (regex : Regex) (settings : Settings)
    (active : settings.activeFromStart = true) {input : Text} {specs : List TokenSpec}
    (documented : Documented input specs) {names : List Text}
    (oneLine : ∀ name ∈ names, OneLine name) :
    ∃ s, settings.withRanges regex (some input) = some s ∧ ((∀ l ∈ (runLaunches s .init names).1,
          TracedAs s (runLaunches s .init names).2 l (Covers regex specs l.id l.name)) ↔
        (∀ launch ∈ started s 1 names, ZeroEndCovers regex specs launch.1 launch.2 →
          Covers regex specs launch.1 launch.2) ∧
        (started s 1 names).IsChain fun launch next =>
          shouldTraceKernel s.ranges launch.1 launch.2 = true →
            shouldTraceKernel s.ranges next.1 launch.2 = true →
              shouldTraceKernel s.ranges next.1 next.2 = true) := by
  refine ⟨{ settings with
    ranges := specs.map (TokenSpec.toRange regex)
    maxKernelId := (specs.map (·.range.stop)).foldl max 0 }, ?_, ?_⟩
  · rw [Settings.withRanges, parseKernelRangesFromEnv_documented regex documented]
    rfl
  · refine runLaunches_documented ?_ rfl oneLine
    exact active

/-- The numeral of a digit. -/
def digitNumeral (d : Fin 10) : Numeral where
  digits := [d.val.digitChar]
  nonempty := List.cons_ne_nil _ _
  decimal c member := by
    rw [List.mem_singleton.mp member]
    exact isDigitIn_digitChar d.isLt (by decide)
  fits := by
    revert d
    decide

/-- A tool that selects kernels by their ranges. -/
def exampleSettings : Settings := ⟨true, false, true, "/tmp".toList, 1, [], 0⟩

/-- `2` traces the second of three kernels. -/
theorem selected_iff_single :
    ∃ s, exampleSettings.withRanges .literal (some ['2']) = some s ∧
      ∀ l ∈ (runLaunches s .init [['a'], ['b'], ['c']]).1,
        TracedAs s (runLaunches s .init [['a'], ['b'], ['c']]).2 l
          (Covers .literal [⟨.single (digitNumeral 2), []⟩] l.id l.name) := by
  have documented : Documented ['2'] [⟨.single (digitNumeral 2), []⟩] := ⟨by decide, by simp⟩
  have oneLine : ∀ name ∈ [['a'], ['b'], ['c']], OneLine name := by simp [OneLine]
  obtain ⟨s, read, traced⟩ := selected_iff .literal exampleSettings rfl documented oneLine
  refine ⟨s, read, traced.2 ?_⟩
  rw [Settings.withRanges, parseKernelRangesFromEnv_documented .literal documented] at read
  cases read
  constructor
  · rintro launch - ⟨t, member, zero, -⟩
    rw [List.mem_singleton.mp member] at zero
    exact absurd (show (digitNumeral 2).value = 0 from zero) (by decide)
  · decide

/-- `1-2@a` with kernels `a` and `b`: the first launch leaves the flag set, as `a` would be selected
as the second too, and `b` is traced. -/
theorem exists_traced_not_covered :
    ¬ ∀ (regex : Regex) (settings s : Settings) (input : Text) (specs : List TokenSpec)
      (names : List Text), settings.activeFromStart = true → Documented input specs →
      (∀ name ∈ names, OneLine name) → settings.withRanges regex (some input) = some s →
        ∀ l ∈ (runLaunches s .init names).1,
          TracedAs s (runLaunches s .init names).2 l (Covers regex specs l.id l.name) := by
  intro claim
  have documented : Documented ['1', '-', '2', '@', 'a']
      [⟨.closed (digitNumeral 1) (digitNumeral 2), [⟨['a'], by decide, by decide⟩]⟩] :=
    ⟨by decide, by simp⟩
  have read := parseKernelRangesFromEnv_documented .literal documented
  have traced := claim .literal exampleSettings _ _ _ [['a'], ['b']] rfl documented
    (by simp [OneLine]) (by rw [Settings.withRanges, read]; rfl) ⟨2, ['b'], true⟩ (by decide)
  obtain ⟨t, member, -, accepts⟩ := traced.reported.mp rfl
  rw [List.mem_singleton.mp member] at accepts
  revert accepts
  simp [TokenSpec.Matches, Regex.literal]

end GpuHotSpot.Tracer
