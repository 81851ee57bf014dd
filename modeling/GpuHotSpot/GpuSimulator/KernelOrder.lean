import Mathlib.Data.List.Nodup
import Mathlib.Tactic.Common
import GpuHotSpot.GpuSimulator.AccelSim
import GpuHotSpot.Lib.History

/-!
# Every kernel is simulated

A run of the simulation loop is right if every kernel is launched once, the kernels
of a stream in their order and one at a time, and leaves the window only after it
was launched and has finished.

`cleanup` removes kernels at every other index while the core is idle, launched or
not. `Framework.SafeCleanup` says that they were launched; a run is right if and
only if every cleanup in it is safe.

* `simulationLoop_iff`: the equivalence.
-/

namespace GpuHotSpot.GpuSimulator

variable {sim : GpgpuSim}

/-! ## What a right run is -/

/-- The kernels launched, in order. -/
def launchedKernels (events : List (Event sim)) : List KernelInfo :=
  events.filterMap fun
    | .launched k _ => some k
    | .removed _ _ => none

/-- A kernel is launched once, after the kernels of its stream launched before it have finished,
and in their order; it is removed after it was launched and has finished. -/
def Event.Right (before : List (Event sim)) : Event sim → Prop
  | .launched k core => ∀ k' ∈ launchedKernels before, k'.uid ≠ k.uid ∧
      (k'.cudaStreamId = k.cudaStreamId → k'.uid < k.uid ∧ k'.uid ∈ sim.finished core)
  | .removed k core =>
    (∃ k' ∈ launchedKernels before, k'.uid = k.uid) ∧ k.uid ∈ sim.finished core

/-- The streams of the kernels in a command list: kernel `uid` has the entry `uid - 1`. -/
def kernelStreams (commands : List TraceCommand) : List ℕ :=
  commands.filterMap fun
    | .kernelLaunch cudaStreamId => some cudaStreamId
    | .cpuGpuMemCopy _ _ => none

/-- Every kernel of the command list was launched, on its stream. -/
def AllLaunched (commandlist : List TraceCommand) (events : List (Event sim)) : Prop :=
  ∀ i stream, (kernelStreams commandlist)[i]? = some stream →
    ∃ k ∈ launchedKernels events, k.uid = i + 1 ∧ k.cudaStreamId = stream

/-- A cleanup with an idle core visits launched kernels only. -/
def Framework.SafeCleanup (f : Framework sim) : Prop :=
  ∀ cycles uid core, simulate cycles f.gpgpuSim = some (uid, core) → sim.active core = false →
    ∀ k ∈ everyOther f.kernelsInfo, k.wasLaunched = true

/-! ## The invariant -/

/-- What the loop keeps between the window, the busy streams, the core and the history. -/
structure Inv (commandlist : List TraceCommand) (f : Framework sim) (events : List (Event sim)) :
    Prop where
  read : f.commandlistIndex ≤ commandlist.length
  next : f.nextUid = (kernelStreams (commandlist.take f.commandlistIndex)).length + 1
  ordered : f.kernelsInfo.Pairwise fun k k' => k.uid < k'.uid
  numbered : ∀ k ∈ f.kernelsInfo, 0 < k.uid ∧ k.uid < f.nextUid ∧
    (kernelStreams commandlist)[k.uid - 1]? = some k.cudaStreamId
  history : Justified Event.Right events
  known : ∀ k ∈ launchedKernels events, 0 < k.uid ∧ k.uid < f.nextUid ∧
    (kernelStreams commandlist)[k.uid - 1]? = some k.cudaStreamId
  flagged : ∀ k ∈ f.kernelsInfo,
    k.wasLaunched = true ↔ ∃ k' ∈ launchedKernels events, k'.uid = k.uid
  covered : ∀ uid, 0 < uid → uid < f.nextUid →
    (∃ k ∈ launchedKernels events, k.uid = uid) ∨ ∃ k ∈ f.kernelsInfo, k.uid = uid
  waiting : ∀ k ∈ launchedKernels events, ∀ k' ∈ f.kernelsInfo, k'.wasLaunched = false →
    k.cudaStreamId = k'.cudaStreamId → k.uid < k'.uid
  core : ∀ uid, uid ∈ sim.launched f.gpgpuSim ↔ ∃ k ∈ launchedKernels events, k.uid = uid
  finished : sim.finished f.gpgpuSim ⊆ sim.launched f.gpgpuSim
  running : ∀ k ∈ launchedKernels events, k.uid ∈ sim.finished f.gpgpuSim ∨
    ∃ k' ∈ f.kernelsInfo, k'.uid = k.uid
  busy : f.busyStreams.Perm ((f.kernelsInfo.filter (·.wasLaunched)).map (·.cudaStreamId))
  exclusive : f.busyStreams.Nodup

variable {commandlist : List TraceCommand} {windowSize : ℕ} {f : Framework sim}
  {events : List (Event sim)}

theorem Inv.init : Inv commandlist (.init : Framework sim) [] where
  read := Nat.zero_le _
  next := rfl
  ordered := .nil
  numbered := by simp [Framework.init]
  history := justified_nil
  known := by simp [launchedKernels]
  flagged := by simp [Framework.init]
  covered := by
    intro uid positive below
    simp only [Framework.init] at below
    omega
  waiting := by simp [launchedKernels]
  core := by simp [Framework.init, sim.launched_init, launchedKernels]
  finished := by simp [Framework.init, sim.finished_init]
  running := by simp [launchedKernels]
  busy := .refl _
  exclusive := List.nodup_nil

/-- The invariant sees a core only through what it launched and what finished. -/
theorem Inv.of_core (inv : Inv commandlist f events) {core : sim.State}
    (launched : sim.launched core = sim.launched f.gpgpuSim)
    (finished : sim.finished f.gpgpuSim ⊆ sim.finished core)
    (onlyLaunched : sim.finished core ⊆ sim.launched core) :
    Inv commandlist { f with gpgpuSim := core } events :=
  { inv with
    core := fun uid => by rw [launched, inv.core]
    finished := onlyLaunched
    running := fun k member => (inv.running k member).imp (fun done => finished done) id }

/-! ## Reading commands -/

theorem kernelStreams_take_succ {i : ℕ} {command : TraceCommand}
    (at_i : commandlist[i]? = some command) :
    kernelStreams (commandlist.take (i + 1)) =
      kernelStreams (commandlist.take i) ++ kernelStreams [command] := by
  rw [List.take_add_one, at_i, Option.toList_some, kernelStreams, List.filterMap_append]
  rfl

/-- The kernel behind `i` commands has the stream the next command gives it. -/
theorem kernelStreams_at {i stream : ℕ} (at_i : commandlist[i]? = some (.kernelLaunch stream)) :
    (kernelStreams commandlist)[(kernelStreams (commandlist.take i)).length]? = some stream := by
  obtain ⟨inside, here⟩ := List.getElem?_eq_some_iff.mp at_i
  have split : kernelStreams commandlist = kernelStreams (commandlist.take i) ++
      stream :: kernelStreams (commandlist.drop (i + 1)) := by
    conv_lhs => rw [← List.take_append_drop i commandlist, List.drop_eq_getElem_cons inside, here]
    rw [kernelStreams, List.filterMap_append]
    rfl
  simp [split]

theorem Inv.command (inv : Inv commandlist f events) {command : TraceCommand}
    (next : commandlist[f.commandlistIndex]? = some command) :
    Inv commandlist (f.command command) events := by
  have inside := (List.getElem?_eq_some_iff.mp next).1
  have streams := kernelStreams_take_succ next
  cases command with
  | cpuGpuMemCopy addre bcount =>
    have moved := inv.of_core (sim.launched_perfMemcpyToGpu f.gpgpuSim addre bcount)
      (sim.finished_perfMemcpyToGpu f.gpgpuSim addre bcount).ge
      (by rw [sim.launched_perfMemcpyToGpu, sim.finished_perfMemcpyToGpu]; exact inv.finished)
    refine { moved with read := inside, next := ?_ }
    rw [Framework.command, streams, inv.next]
    simp [kernelStreams]
  | kernelLaunch stream =>
    have fresh : ∀ k ∈ launchedKernels events, k.uid ≠ f.nextUid :=
      fun k member => (inv.known k member).2.1.ne
    have positive : 0 < f.nextUid := inv.next ▸ Nat.succ_pos _
    refine
      { inv with
        read := inside
        next := ?_
        ordered := ?_
        numbered := ?_
        known := ?_
        flagged := ?_
        covered := ?_
        waiting := ?_
        running := ?_
        busy := ?_ }
    · rw [Framework.command, streams, inv.next]
      simp [kernelStreams]
    · refine List.pairwise_append.mpr ⟨inv.ordered, List.pairwise_singleton _ _, ?_⟩
      intro k member k' last
      rw [List.mem_singleton.mp last]
      exact (inv.numbered k member).2.1
    · intro k member
      rcases List.mem_append.mp member with old | last
      · obtain ⟨positive, below, streamOf⟩ := inv.numbered k old
        exact ⟨positive, Nat.lt_succ_of_lt below, streamOf⟩
      · rw [List.mem_singleton.mp last]
        refine ⟨positive, Nat.lt_succ_self _, ?_⟩
        rw [inv.next]
        exact kernelStreams_at next
    · intro k member
      obtain ⟨positive, below, streamOf⟩ := inv.known k member
      exact ⟨positive, Nat.lt_succ_of_lt below, streamOf⟩
    · intro k member
      rcases List.mem_append.mp member with old | last
      · exact inv.flagged k old
      · rw [List.mem_singleton.mp last]
        simpa using fresh
    · intro uid positive below
      rcases Nat.lt_succ_iff_lt_or_eq.mp below with old | rfl
      · refine (inv.covered uid positive old).imp id ?_
        rintro ⟨k, member, same⟩
        exact ⟨k, List.mem_append_left _ member, same⟩
      · exact .inr ⟨_, List.mem_append_right _ (List.mem_singleton.mpr rfl), rfl⟩
    · intro k member k' member' waits same
      rcases List.mem_append.mp member' with old | last
      · exact inv.waiting k member k' old waits same
      · rw [List.mem_singleton.mp last]
        exact (inv.known k member).2.1
    · intro k member
      refine (inv.running k member).imp id ?_
      rintro ⟨k', member', same⟩
      exact ⟨k', List.mem_append_left _ member', same⟩
    · simpa [Framework.command] using inv.busy

theorem Inv.parseCommands {commands : List TraceCommand} (inv : Inv commandlist f events)
    (left : commandlist.drop f.commandlistIndex = commands) :
    Inv commandlist (parseCommands windowSize commands f) events := by
  induction commands generalizing f with
  | nil => exact inv
  | cons command commands ih =>
    rw [GpuSimulator.parseCommands]
    split_ifs
    · have next : commandlist[f.commandlistIndex]? = some command := by
        rw [← List.head?_drop, left, List.head?_cons]
      refine ih (inv.command next) ?_
      have moved : (f.command command).commandlistIndex = f.commandlistIndex + 1 := by
        cases command <;> rfl
      rw [moved, ← List.drop_drop, left, List.drop_one, List.tail_cons]
    · exact inv

/-! ## Launching -/

theorem launchedKernels_launched {k : KernelInfo} {core : sim.State} :
    launchedKernels (events ++ [.launched k core]) = launchedKernels events ++ [k] := by
  rw [launchedKernels, launchedKernels, List.filterMap_append]
  rfl

theorem launchedKernels_removed {k : KernelInfo} {core : sim.State} :
    launchedKernels (events ++ [.removed k core]) = launchedKernels events := by
  rw [launchedKernels, launchedKernels, List.filterMap_append]
  exact List.append_nil _

theorem startable_iff {core : sim.State} {busyStreams : List ℕ} {k : KernelInfo} :
    startable core busyStreams k = true ↔
      k.cudaStreamId ∉ busyStreams ∧ sim.canStartKernel core = true ∧ k.wasLaunched = false := by
  simp [startable, and_assoc]

/-- Launching a kernel whose stream is free, when no kernel in front of it in the window waits
for that stream. -/
theorem Inv.launch {visited rest : List KernelInfo} {k : KernelInfo}
    (inv : Inv commandlist f events) (window : f.kernelsInfo = visited ++ k :: rest)
    (free : k.cudaStreamId ∉ f.busyStreams) (waits : k.wasLaunched = false)
    (first : ∀ k' ∈ visited, k'.wasLaunched = false → k'.cudaStreamId ≠ k.cudaStreamId) :
    Inv commandlist
      { f with
        kernelsInfo := visited ++ k.setLaunched :: rest
        busyStreams := f.busyStreams ++ [k.cudaStreamId]
        gpgpuSim := sim.launch f.gpgpuSim k.uid }
      (events ++ [.launched k f.gpgpuSim]) := by
  have member : k ∈ f.kernelsInfo := by simp [window]
  have notYet : ∀ k' ∈ launchedKernels events, k'.uid ≠ k.uid := by
    intro k' launched same
    rw [(inv.flagged k member).mpr ⟨k', launched, same⟩] at waits
    cases waits
  have ordered := inv.ordered
  rw [window] at ordered
  have sameUids : ∀ {P : ℕ → Prop},
      (∃ k' ∈ visited ++ k.setLaunched :: rest, P k'.uid) ↔ ∃ k' ∈ f.kernelsInfo, P k'.uid := by
    intro P
    simp [window, KernelInfo.setLaunched, or_and_right, exists_or]
  have others : ∀ k' ∈ visited ++ k.setLaunched :: rest, k' = k.setLaunched ∨
      (k' ∈ f.kernelsInfo ∧ k'.uid ≠ k.uid) := by
    intro k' member'
    rw [List.pairwise_append, List.pairwise_cons] at ordered
    rcases List.mem_append.mp member' with front | behind
    · refine .inr ⟨by simp [window, front], ?_⟩
      exact (ordered.2.2 k' front k List.mem_cons_self).ne
    · rcases List.mem_cons.mp behind with rfl | behind
      · exact .inl rfl
      · refine .inr ⟨by simp [window, behind], ?_⟩
        exact (ordered.2.1.1 k' behind).ne'
  refine
    { inv with
      ordered := ?_
      numbered := ?_
      history := ?_
      known := ?_
      flagged := ?_
      covered := ?_
      waiting := ?_
      core := ?_
      finished := ?_
      running := ?_
      busy := ?_
      exclusive := ?_ }
  · rw [List.pairwise_append, List.pairwise_cons] at ordered ⊢
    refine ⟨ordered.1, ordered.2.1, fun a front b behind => ?_⟩
    rcases List.mem_cons.mp behind with rfl | behind
    · exact ordered.2.2 a front k List.mem_cons_self
    · exact ordered.2.2 a front b (List.mem_cons_of_mem _ behind)
  · intro k' member'
    rcases others k' member' with rfl | ⟨old, -⟩
    · exact inv.numbered k member
    · exact inv.numbered k' old
  · refine justified_concat.2 ⟨inv.history, fun k' launched => ⟨notYet k' launched, ?_⟩⟩
    intro same
    refine ⟨inv.waiting k' launched k member waits same, ?_⟩
    rcases inv.running k' launched with done | ⟨held, inWindow, sameUid⟩
    · exact done
    -- a launched kernel of this stream that is still in the window would keep the stream busy
    · exfalso
      have flag : held.wasLaunched = true :=
        (inv.flagged held inWindow).mpr ⟨k', launched, sameUid.symm⟩
      have stream : held.cudaStreamId = k.cudaStreamId := by
        have heldStream := (inv.numbered held inWindow).2.2
        rw [sameUid, (inv.known k' launched).2.2, Option.some.injEq] at heldStream
        rw [← heldStream, same]
      refine free (inv.busy.mem_iff.mpr ?_)
      rw [← stream]
      exact List.mem_map_of_mem (List.mem_filter.mpr ⟨inWindow, flag⟩)
  · rw [launchedKernels_launched]
    intro k' launched
    rcases List.mem_append.mp launched with old | last
    · exact inv.known k' old
    · rw [List.mem_singleton.mp last]
      exact inv.numbered k member
  · rw [launchedKernels_launched]
    intro k' member'
    rcases others k' member' with rfl | ⟨old, different⟩
    · exact ⟨fun _ => ⟨k, by simp, rfl⟩, fun _ => rfl⟩
    · rw [inv.flagged k' old]
      simp [or_and_right, exists_or, different.symm]
  · rw [launchedKernels_launched]
    intro uid positive below
    rw [sameUids (P := fun n => n = uid)]
    refine (inv.covered uid positive below).imp ?_ id
    rintro ⟨k', launched, same⟩
    exact ⟨k', List.mem_append_left _ launched, same⟩
  · rw [launchedKernels_launched]
    intro k' launched k'' member'' waits'' same
    rcases others k'' member'' with rfl | ⟨old, different⟩
    · cases waits''
    · rcases List.mem_append.mp launched with earlier | last
      · exact inv.waiting k' earlier k'' old waits'' same
      · rw [List.mem_singleton.mp last] at same ⊢
        rw [List.pairwise_append, List.pairwise_cons] at ordered
        rw [window] at old
        rcases List.mem_append.mp old with front | behind
        · exact absurd same.symm (first k'' front waits'')
        · rcases List.mem_cons.mp behind with rfl | behind
          · exact absurd rfl different
          · exact ordered.2.1.1 k'' behind
  · intro uid
    rw [launchedKernels_launched, sim.launched_launch, Finset.mem_insert, inv.core]
    simp only [List.mem_append, List.mem_singleton, or_and_right, exists_or, exists_eq_left]
    rw [or_comm, eq_comm (a := uid)]
  · rw [sim.finished_launch, sim.launched_launch]
    exact inv.finished.trans (Finset.subset_insert _ _)
  · rw [launchedKernels_launched, sim.finished_launch]
    intro k' launched
    rw [sameUids (P := fun n => n = k'.uid)]
    rcases List.mem_append.mp launched with old | last
    · exact inv.running k' old
    · rw [List.mem_singleton.mp last]
      exact .inr ⟨k, member, rfl⟩
  · have before := inv.busy
    rw [window] at before
    simp only [List.filter_append, List.filter_cons, waits, KernelInfo.setLaunched, List.map_append,
      List.map_cons, ite_true, Bool.false_eq_true, ite_false] at before ⊢
    exact (List.perm_append_comm.trans (before.cons k.cudaStreamId)).trans
      List.perm_middle.symm
  · rw [List.nodup_append]
    refine ⟨inv.exclusive, List.nodup_singleton _, ?_⟩
    intro stream busy stream' last same
    rw [List.mem_singleton.mp last] at same
    exact free (same ▸ busy)

/-- **The launching loop**: a kernel passed over waits for a busy stream or for a core that starts
no kernel any more. -/
theorem Inv.launchFrom {rest : List KernelInfo} (visited : List KernelInfo) {core : sim.State} {busy : List ℕ}
    (inv : Inv commandlist
      { f with kernelsInfo := visited ++ rest, busyStreams := busy, gpgpuSim := core } events)
    (passed : ∀ k ∈ visited, k.wasLaunched = false →
      k.cudaStreamId ∈ busy ∨ sim.canStartKernel core = false) :
    Inv commandlist
      { f with
        kernelsInfo := visited ++ (launchFrom core busy rest).1
        busyStreams := (launchFrom core busy rest).2.1
        gpgpuSim := (launchFrom core busy rest).2.2.1 }
      (events ++ (launchFrom core busy rest).2.2.2) := by
  induction rest generalizing visited core busy events with
  | nil => simpa [GpuSimulator.launchFrom] using inv
  | cons k rest ih =>
    rw [GpuSimulator.launchFrom]
    split_ifs with starts
    · obtain ⟨free, canStart, waits⟩ := startable_iff.1 starts
      have launched := inv.launch rfl free waits (fun k' front waits' same =>
        (passed k' front waits').elim (fun occupied => free (same ▸ occupied))
          (fun stopped => by simp [canStart] at stopped))
      have next := ih (visited ++ [k.setLaunched]) (by simpa using launched) ?_
      · simpa using next
      · intro k' front waits'
        rcases List.mem_append.mp front with earlier | last
        · rcases passed k' earlier waits' with occupied | stopped
          · exact .inl (List.mem_append_left _ occupied)
          · rw [canStart] at stopped
            cases stopped
        · rw [List.mem_singleton.mp last] at waits'
          cases waits'
    · have next := ih (visited ++ [k]) (by simpa using inv) ?_
      · simpa using next
      · intro k' front waits'
        rcases List.mem_append.mp front with earlier | last
        · exact passed k' earlier waits'
        · rw [List.mem_singleton.mp last] at waits' ⊢
          rw [startable_iff] at starts
          by_contra none
          rw [not_or, Bool.not_eq_false] at none
          exact starts ⟨none.1, none.2, waits'⟩

theorem Inv.launchKernels (inv : Inv commandlist f events) :
    Inv commandlist (f.launchKernels commandlist windowSize).1
      (events ++ (f.launchKernels commandlist windowSize).2) := by
  have parsed : Inv commandlist (f.parseCommandlist commandlist windowSize) events :=
    inv.parseCommands rfl
  exact Inv.launchFrom [] parsed (by simp)

/-! ## Removing -/

/-- Removing a kernel that was launched and has finished. -/
theorem Inv.remove {visited rest : List KernelInfo} {k : KernelInfo}
    (inv : Inv commandlist f events) (window : f.kernelsInfo = visited ++ k :: rest)
    (launched : k.wasLaunched = true) (done : k.uid ∈ sim.finished f.gpgpuSim) :
    Inv commandlist
      { f with
        kernelsInfo := visited ++ rest
        busyStreams := f.busyStreams.erase k.cudaStreamId }
      (events ++ [.removed k f.gpgpuSim]) := by
  have member : k ∈ f.kernelsInfo := by simp [window]
  have sub : ∀ k' ∈ visited ++ rest, k' ∈ f.kernelsInfo := by
    intro k' kept
    rw [window]
    rcases List.mem_append.mp kept with front | behind
    · exact List.mem_append_left _ front
    · exact List.mem_append_right _ (List.mem_cons_of_mem _ behind)
  have kept : ∀ uid, uid ≠ k.uid → (∃ k' ∈ f.kernelsInfo, k'.uid = uid) →
      ∃ k' ∈ visited ++ rest, k'.uid = uid := by
    rintro uid different ⟨k', inWindow, rfl⟩
    rw [window] at inWindow
    rcases List.mem_append.mp inWindow with front | behind
    · exact ⟨k', List.mem_append_left _ front, rfl⟩
    · rcases List.mem_cons.mp behind with rfl | behind
      · exact absurd rfl different
      · exact ⟨k', List.mem_append_right _ behind, rfl⟩
  obtain ⟨k₀, was, sameUid⟩ := (inv.flagged k member).mp launched
  refine
    { inv with
      ordered := ?_
      numbered := fun k' kept => inv.numbered k' (sub k' kept)
      history := justified_concat.2 ⟨inv.history, ⟨k₀, was, sameUid⟩, done⟩
      known := ?_
      flagged := ?_
      covered := ?_
      waiting := ?_
      core := ?_
      running := ?_
      busy := ?_
      exclusive := inv.exclusive.erase _ }
  · have ordered := inv.ordered
    rw [window] at ordered
    exact ordered.sublist ((List.sublist_cons_self k rest).append_left visited)
  · rw [launchedKernels_removed]
    exact inv.known
  · rw [launchedKernels_removed]
    exact fun k' kept => inv.flagged k' (sub k' kept)
  · rw [launchedKernels_removed]
    intro uid positive below
    rcases inv.covered uid positive below with was | inWindow
    · exact .inl was
    · by_cases same : uid = k.uid
      · exact .inl ⟨k₀, was, by rw [same, sameUid]⟩
      · exact .inr (kept uid same inWindow)
  · rw [launchedKernels_removed]
    exact fun k' was k'' kept => inv.waiting k' was k'' (sub k'' kept)
  · rw [launchedKernels_removed]
    exact inv.core
  · rw [launchedKernels_removed]
    intro k' was
    by_cases same : k'.uid = k.uid
    · exact .inl (same ▸ done)
    · exact (inv.running k' was).imp id (kept k'.uid same)
  · have busy := inv.busy
    rw [window] at busy
    simp only [List.filter_append, List.filter_cons, launched, List.map_append, List.map_cons,
      ite_true] at busy ⊢
    have first := busy.trans List.perm_middle
    simpa using first.erase k.cudaStreamId

/-- **The loop of `cleanup`**, if it visits launched kernels only while the core is idle. -/
theorem Inv.cleanupFrom {finishedKernel j : ℕ} {kernels : List KernelInfo} {busy : List ℕ}
    (inv : Inv commandlist { f with kernelsInfo := kernels, busyStreams := busy } events)
    (reported : finishedKernel ≠ 0 → finishedKernel ∈ sim.finished f.gpgpuSim)
    (safe : sim.active f.gpgpuSim = false →
      ∀ k ∈ everyOther (kernels.drop j), k.wasLaunched = true) :
    Inv commandlist
      { f with
        kernelsInfo := (cleanupFrom f.gpgpuSim finishedKernel j kernels busy).1
        busyStreams := (cleanupFrom f.gpgpuSim finishedKernel j kernels busy).2.1 }
      (events ++ (cleanupFrom f.gpgpuSim finishedKernel j kernels busy).2.2) := by
  induction j, kernels, busy using cleanupFrom.induct f.gpgpuSim finishedKernel
      generalizing events with
  | case1 j kernels busy inRange visits running =>
    rw [GpuSimulator.cleanupFrom, dif_pos inRange]
    simp only [sim.limit_never_hit, Bool.or_false, Bool.not_false, Bool.true_and,
      Bool.or_eq_true, Bool.not_eq_true', decide_eq_true_eq] at visits running ⊢
    have uid : kernels[j].uid = finishedKernel :=
      visits.resolve_right (by simp [running])
    have inWindow : kernels[j] ∈ kernels := List.getElem_mem inRange
    have done : kernels[j].uid ∈ sim.finished f.gpgpuSim := by
      rw [uid]
      exact reported (uid ▸ (inv.numbered _ inWindow).1.ne')
    have launched : kernels[j].wasLaunched = true :=
      (inv.flagged _ inWindow).mpr ((inv.core _).mp (inv.finished done))
    rw [if_pos (.inl uid), if_pos running, List.eraseIdx_eq_take_drop_succ]
    exact inv.remove (by simp) launched done
  | case2 j kernels busy inRange visits running kernels' busy' events' eq ih =>
    rw [GpuSimulator.cleanupFrom, dif_pos inRange]
    simp only [sim.limit_never_hit, Bool.or_false, Bool.not_false, Bool.true_and,
      Bool.or_eq_true, Bool.not_eq_true', decide_eq_true_eq, Bool.not_eq_true] at visits running ⊢
    have inWindow : kernels[j] ∈ kernels := List.getElem_mem inRange
    have visited := safe running
    rw [List.drop_eq_getElem_cons inRange, everyOther_cons, List.drop_drop] at visited
    have launched := visited _ List.mem_cons_self
    have done : kernels[j].uid ∈ sim.finished f.gpgpuSim :=
      sim.idle _ running ((inv.core _).mpr ((inv.flagged _ inWindow).mp launched))
    have erased : kernels.eraseIdx j = kernels.take j ++ kernels.drop (j + 1) :=
      List.eraseIdx_eq_take_drop_succ kernels j
    have window : kernels = kernels.take j ++ kernels[j] :: kernels.drop (j + 1) := by simp
    have removed := inv.remove window launched done
    rw [← erased] at removed
    have next := ih removed fun _ => ?_
    · rw [if_pos (.inr running), if_neg (by simp [running])]
      simpa using next
    · rw [erased, List.drop_append, List.drop_eq_nil_of_le (by simp), List.nil_append]
      simpa [List.length_take, inRange.le, Nat.min_eq_left] using
        fun k' member => visited k' (List.mem_cons_of_mem _ member)
  | case3 j kernels busy inRange passes ih =>
    rw [GpuSimulator.cleanupFrom, dif_pos inRange, if_neg passes]
    refine ih inv fun idle => ?_
    simp [idle] at passes
  | case4 j kernels busy outside =>
    rw [GpuSimulator.cleanupFrom, dif_neg outside]
    simpa using inv

/-- What `cleanup` does while the core is idle. -/
theorem cleanupFrom_idle {core : sim.State} (idle : sim.active core = false) {finishedKernel j : ℕ}
    {kernels : List KernelInfo} {busy : List ℕ} :
    (cleanupFrom core finishedKernel j kernels busy).2.2 =
      (everyOther (kernels.drop j)).map fun k => .removed k core := by
  induction j, kernels, busy using cleanupFrom.induct core finishedKernel with
  | case1 j kernels busy inRange visits running => simp [idle] at running
  | case2 j kernels busy inRange visits running kernels' busy' events' eq ih =>
    rw [cleanupFrom, dif_pos inRange, if_pos visits, if_neg running]
    simp only
    rw [ih, List.eraseIdx_eq_take_drop_succ, List.drop_append,
      List.drop_eq_nil_of_le (by simp), List.nil_append, List.drop_eq_getElem_cons inRange,
      everyOther_cons, List.map_cons, List.drop_drop, List.drop_drop, List.length_take,
      Nat.min_eq_left inRange.le, Nat.add_sub_cancel_left]
  | case3 j kernels busy inRange passes ih => simp [idle] at passes
  | case4 j kernels busy outside =>
    rw [cleanupFrom, dif_neg outside, List.drop_eq_nil_of_le (Nat.le_of_not_lt outside)]
    rfl

/-! ## The second half of a pass -/

/-- What `simulate` leaves: the kernels launched are the same, and one it reports has finished. -/
theorem simulate_core {cycles uid : ℕ} {core core' : sim.State}
    (returns : simulate cycles core = some (uid, core'))
    (onlyLaunched : sim.finished core ⊆ sim.launched core) :
    sim.launched core' = sim.launched core ∧ sim.finished core ⊆ sim.finished core' ∧
      sim.finished core' ⊆ sim.launched core' ∧ (uid ≠ 0 → uid ∈ sim.finished core') := by
  induction cycles generalizing core with
  | zero => cases returns
  | succ cycles ih =>
    rw [simulate] at returns
    split_ifs at returns with idle
    · cases returns
      exact ⟨rfl, subset_rfl, onlyLaunched, fun reported => absurd rfl reported⟩
    · have onlyLaunched' : sim.finished (sim.finishedKernel (sim.cycle core)).2 ⊆
          sim.launched (sim.finishedKernel (sim.cycle core)).2 := by
        rw [sim.finished_finishedKernel, sim.launched_finishedKernel, sim.launched_cycle]
        exact (sim.finished_cycle_launched core).trans
          (Finset.union_subset onlyLaunched subset_rfl)
      simp only at returns
      split_ifs at returns with goesOn
      · obtain ⟨launched, finished, rest⟩ := ih returns onlyLaunched'
        refine ⟨?_, ?_, rest⟩
        · rw [launched, sim.launched_finishedKernel, sim.launched_cycle]
        · refine subset_trans ?_ finished
          rw [sim.finished_finishedKernel]
          exact sim.finished_cycle core
      · cases returns
        refine ⟨?_, ?_, onlyLaunched', ?_⟩
        · rw [sim.launched_finishedKernel, sim.launched_cycle]
        · rw [sim.finished_finishedKernel]
          exact sim.finished_cycle core
        · rw [sim.finished_finishedKernel]
          exact sim.finishedKernel_finished _

/-- How many cycles are allowed does not matter to a `simulate` that returns. -/
theorem simulate_unique {cycles cycles' : ℕ} {core : sim.State} {result result' : ℕ × sim.State}
    (returns : simulate cycles core = some result)
    (returns' : simulate cycles' core = some result') : result = result' := by
  induction cycles generalizing cycles' core with
  | zero => cases returns
  | succ cycles ih =>
    cases cycles' with
    | zero => cases returns'
    | succ cycles' =>
      rw [simulate] at returns returns'
      split_ifs at returns returns' with idle
      · rw [← Option.some.injEq, ← returns, returns']
      · simp only at returns returns'
        split_ifs at returns returns' with goesOn
        · exact ih returns returns'
        · rw [← Option.some.injEq, ← returns, returns']

theorem Inv.simulateAndCleanup {cycles : ℕ} {f' : Framework sim} {done : List (Event sim)}
    (inv : Inv commandlist f events) (safe : f.SafeCleanup)
    (returns : f.simulateAndCleanup cycles = some (f', done)) :
    Inv commandlist f' (events ++ done) := by
  obtain ⟨⟨uid, core⟩, simulated, rest⟩ := Option.bind_eq_some_iff.mp returns
  obtain ⟨launched, finished, onlyLaunched, reported⟩ := simulate_core simulated inv.finished
  have ran := inv.of_core launched finished onlyLaunched
  simp only at rest
  split_ifs at rest with cleans
  · rw [Framework.cleanup] at rest
    split_ifs at rest
    cases rest
    exact ran.cleanupFrom (f := { f with gpgpuSim := core }) reported
      fun idle => safe cycles uid core simulated idle
  · cases rest
    simpa using ran

/-- A history stays right through a pass only if its cleanup is safe. -/
theorem safeCleanup_of_right {cycles : ℕ} {f' : Framework sim} {done : List (Event sim)}
    (inv : Inv commandlist f events) (returns : f.simulateAndCleanup cycles = some (f', done))
    (right : Justified Event.Right (events ++ done)) : f.SafeCleanup := by
  intro cycles' uid core simulated idle k visited
  obtain ⟨⟨uid', core'⟩, simulated', rest⟩ := Option.bind_eq_some_iff.mp returns
  obtain ⟨rfl, rfl⟩ : uid = uid' ∧ core = core' := by
    have same := simulate_unique simulated simulated'
    exact ⟨congrArg Prod.fst same, congrArg Prod.snd same⟩
  have inWindow : f.kernelsInfo ≠ [] := by
    rintro empty
    simp [empty, everyOther] at visited
  simp only at rest
  rw [if_pos (by simp [idle]), Framework.cleanup, if_neg inWindow, Option.some.injEq,
    Prod.mk.injEq] at rest
  obtain ⟨front, behind, split⟩ := List.append_of_mem visited
  have events_eq : done = front.map (fun k => .removed k core) ++ .removed k core ::
      behind.map fun k => .removed k core := by
    rw [← rest.2, cleanupFrom_idle idle, List.drop_zero, split, List.map_append, List.map_cons]
  obtain ⟨⟨k', launched, same⟩, -⟩ := right (events ++ front.map fun k => .removed k core)
    (.removed k core) (behind.map fun k => .removed k core) (by simp [events_eq])
  have earlier : k' ∈ launchedKernels events := by
    have none : launchedKernels (front.map fun k => Event.removed k core) = [] := by
      simp [launchedKernels, List.filterMap_map]
    rwa [launchedKernels, List.filterMap_append, ← launchedKernels, ← launchedKernels, none,
      List.append_nil] at launched
  exact (inv.flagged k (mem_of_mem_everyOther visited)).mpr ⟨k', earlier, same⟩

/-! ## Whole runs -/

variable {point : Point} {passes : List (Framework sim)}

/-- **Invariant.** It holds all along a run whose cleanups are safe. -/
theorem Run.inv (run : Run sim commandlist windowSize point f events passes)
    (safe : ∀ pass ∈ passes, pass.SafeCleanup) : Inv commandlist f events := by
  induction run with
  | start => exact .init
  | launch _ _ ih => exact (ih safe).launchKernels
  | finish _ returns ih =>
    refine (ih fun pass member => ?_).simulateAndCleanup ?_ returns
    · exact safe pass (List.mem_append_left _ member)
    · exact safe _ (List.mem_append_right _ (List.mem_singleton.mpr rfl))

/-- The cleanups of a run whose history is right are safe. -/
theorem Run.safe (run : Run sim commandlist windowSize point f events passes)
    (right : Justified Event.Right events) : ∀ pass ∈ passes, pass.SafeCleanup := by
  induction run with
  | start => simp
  | launch _ _ ih => exact ih right.of_append
  | finish run returns ih =>
    have safe := ih right.of_append
    intro pass member
    rcases List.mem_append.mp member with earlier | last
    · exact safe pass earlier
    · rw [List.mem_singleton.mp last]
      exact safeCleanup_of_right (run.inv safe) returns right

/-- When nothing is left to do, every kernel was launched. -/
theorem Inv.allLaunched (inv : Inv commandlist f events) (done : ¬ f.Unfinished commandlist) :
    AllLaunched commandlist events := by
  intro i stream at_i
  rw [Framework.Unfinished, not_or, not_not, not_lt] at done
  have all : f.nextUid = (kernelStreams commandlist).length + 1 := by
    rw [inv.next, List.take_of_length_le done.1]
  have inside := (List.getElem?_eq_some_iff.mp at_i).1
  rcases inv.covered (i + 1) (Nat.succ_pos i) (by omega) with ⟨k, launched, uid⟩ | ⟨k, member, -⟩
  · refine ⟨k, launched, uid, ?_⟩
    have streamOf := (inv.known k launched).2.2
    rw [uid, Nat.add_sub_cancel, at_i, Option.some.injEq] at streamOf
    exact streamOf.symm
  · rw [done.2] at member
    cases member

/-- **Every kernel is simulated** if and only if every cleanup is safe: in every run, kernels are
launched once, in the order of their stream and one at a time, leave the window after they
were launched and finished, and all were launched when nothing is left to do, exactly if no cleanup
with an idle core visits a kernel that was not launched. -/
theorem simulationLoop_iff (run : Run sim commandlist windowSize point f events passes) :
    (Justified Event.Right events ∧ (¬ f.Unfinished commandlist → AllLaunched commandlist events)) ↔
      ∀ pass ∈ passes, pass.SafeCleanup := by
  constructor
  · intro right
    exact run.safe right.1
  · intro safe
    exact ⟨(run.inv safe).history, (run.inv safe).allLaunched⟩

/-! ## One kernel at a time -/

theorem length_parseCommands {commands : List TraceCommand}
    (fits : f.kernelsInfo.length ≤ windowSize) :
    (parseCommands windowSize commands f).kernelsInfo.length ≤ windowSize := by
  induction commands generalizing f with
  | nil => exact fits
  | cons command commands ih =>
    rw [parseCommands]
    split_ifs with room
    · refine ih ?_
      cases command with
      | cpuGpuMemCopy addre bcount => exact fits
      | kernelLaunch stream => simpa [Framework.command, Nat.succ_le_iff] using room
    · exact fits

theorem length_launchFrom {core : sim.State} {busy : List ℕ} {kernels : List KernelInfo} :
    (launchFrom core busy kernels).1.length = kernels.length := by
  induction kernels generalizing core busy with
  | nil => rfl
  | cons k kernels ih =>
    rw [launchFrom]
    split_ifs <;> simp [ih]

theorem length_cleanupFrom {core : sim.State} {finishedKernel j : ℕ} {kernels : List KernelInfo}
    {busy : List ℕ} :
    (cleanupFrom core finishedKernel j kernels busy).1.length ≤ kernels.length := by
  induction j, kernels, busy using cleanupFrom.induct core finishedKernel with
  | case1 j kernels busy inRange visits running =>
    rw [cleanupFrom, dif_pos inRange, if_pos visits, if_pos running]
    exact (List.eraseIdx_sublist kernels j).length_le
  | case2 j kernels busy inRange visits running kernels' busy' events' eq ih =>
    rw [cleanupFrom, dif_pos inRange, if_pos visits, if_neg running]
    exact ih.trans (List.eraseIdx_sublist kernels j).length_le
  | case3 j kernels busy inRange passes ih =>
    rw [cleanupFrom, dif_pos inRange, if_neg passes]
    exact ih
  | case4 j kernels busy outside => rw [cleanupFrom, dif_neg outside]

theorem length_simulateAndCleanup {cycles : ℕ} {f' : Framework sim} {done : List (Event sim)}
    (returns : f.simulateAndCleanup cycles = some (f', done)) :
    f'.kernelsInfo.length ≤ f.kernelsInfo.length := by
  obtain ⟨⟨uid, core⟩, -, rest⟩ := Option.bind_eq_some_iff.mp returns
  simp only at rest
  split_ifs at rest
  · rw [Framework.cleanup] at rest
    split_ifs at rest
    cases rest
    exact length_cleanupFrom
  · cases rest
    exact le_rfl

/-- A kernel alone in the window is launched, if the core starts one when all others are done. -/
theorem launchFrom_single (inv : Inv commandlist f events)
    (starts : ∀ core, sim.launched core ⊆ sim.finished core → sim.canStartKernel core = true)
    (single : f.kernelsInfo.length ≤ 1) :
    ∀ k ∈ (launchFrom f.gpgpuSim f.busyStreams f.kernelsInfo).1, k.wasLaunched = true := by
  match window : f.kernelsInfo with
  | [] => simp [launchFrom]
  | [k] =>
    cases flag : k.wasLaunched with
    | true => simp [launchFrom, startable, flag]
    | false =>
      have unlaunched : ∀ k' ∈ launchedKernels events, k'.uid ≠ k.uid := by
        intro k' launched same
        have := (inv.flagged k (by simp [window])).mpr ⟨k', launched, same⟩
        rw [flag] at this
        cases this
      have free : f.busyStreams = [] := by
        simpa [window, flag] using inv.busy
      have idle : sim.launched f.gpgpuSim ⊆ sim.finished f.gpgpuSim := by
        intro uid launched
        obtain ⟨k', was, rfl⟩ := (inv.core uid).mp launched
        rcases inv.running k' was with done | ⟨held, member, same⟩
        · exact done
        · rw [window, List.mem_singleton] at member
          rw [member] at same
          exact absurd same.symm (unlaunched k' was)
      simp [launchFrom, startable, flag, free, starts _ idle, KernelInfo.setLaunched]
  | _ :: _ :: _ => simp [window] at single

/-- **A window of one kernel** keeps every cleanup safe, if the core starts a kernel when all
others are done. -/
theorem Run.safe_of_single
    (starts : ∀ core, sim.launched core ⊆ sim.finished core → sim.canStartKernel core = true)
    (run : Run sim commandlist 1 point f events passes) :
    (∀ pass ∈ passes, pass.SafeCleanup) ∧ f.kernelsInfo.length ≤ 1 ∧
      (point = .launched → ∀ k ∈ f.kernelsInfo, k.wasLaunched = true) := by
  induction run with
  | start => simp [Framework.init]
  | @launch f events passes run unfinished ih =>
    obtain ⟨safe, single, -⟩ := ih
    have parsed : Inv commandlist (f.parseCommandlist commandlist 1) events :=
      (run.inv safe).parseCommands rfl
    have single' : (f.parseCommandlist commandlist 1).kernelsInfo.length ≤ 1 :=
      length_parseCommands single
    refine ⟨safe, ?_, fun _ => launchFrom_single parsed starts single'⟩
    rw [Framework.launchKernels, length_launchFrom]
    exact single'
  | finish run returns ih =>
    obtain ⟨safe, single, launched⟩ := ih
    refine ⟨?_, (length_simulateAndCleanup returns).trans single, nofun⟩
    intro pass member
    rcases List.mem_append.mp member with earlier | last
    · exact safe pass earlier
    · rw [List.mem_singleton.mp last]
      exact fun _ _ _ _ _ k visited => launched rfl k (mem_of_mem_everyOther visited)

/-- **One kernel at a time**, and every kernel is simulated. -/
theorem simulated_of_single
    (starts : ∀ core, sim.launched core ⊆ sim.finished core → sim.canStartKernel core = true)
    (run : Run sim commandlist 1 point f events passes) :
    Justified Event.Right events ∧ (¬ f.Unfinished commandlist → AllLaunched commandlist events) :=
  have inv := run.inv (run.safe_of_single starts).1
  ⟨inv.history, inv.allLaunched⟩

/-! ## A core that finishes kernels within a cycle -/

/-- A core that is done with every kernel after one cycle. Its state lists the kernels launched,
finished and reported. -/
def oneCycleCore : GpgpuSim where
  State := List ℕ × List ℕ × List ℕ
  init := ([], [], [])
  canStartKernel _ := true
  active s := !s.1.all s.2.1.contains
  cycleInsnCtaMaxHit _ := false
  launch s uid := (s.1 ++ [uid], s.2)
  cycle s := (s.1, s.2.1 ++ s.1, s.2.2)
  finishedKernel s :=
    match s.2.1.find? fun uid => !s.2.2.contains uid with
    | some uid => (uid, s.1, s.2.1, uid :: s.2.2)
    | none => (0, s)
  perfMemcpyToGpu s _ _ := s
  launched s := s.1.toFinset
  finished s := s.2.1.toFinset
  reported s := s.2.2.toFinset
  launched_init := rfl
  finished_init := rfl
  launched_launch s uid := by simp
  finished_launch _ _ := rfl
  launched_cycle _ := rfl
  finished_cycle s := by simp
  finished_cycle_launched s := by simp
  launched_finishedKernel s := by split <;> rfl
  finished_finishedKernel s := by split <;> rfl
  launched_perfMemcpyToGpu _ _ _ := rfl
  finished_perfMemcpyToGpu _ _ _ := rfl
  finishedKernel_finished s := by
    split
    · rename_i uid found
      exact fun _ => List.mem_toFinset.mpr (List.mem_of_find?_eq_some found)
    · exact fun zero => absurd rfl zero
  finishedKernel_once s := by
    split
    · rename_i uid found
      have unreported := List.find?_some found
      simpa using fun _ : uid ≠ 0 => unreported
    · exact fun zero => absurd rfl zero
  reported_finishedKernel s := by
    split
    · simp
    · exact fun zero => absurd rfl zero
  idle s inactive := by
    intro uid launched
    simp only [Bool.not_eq_false', List.all_eq_true, List.contains_iff_mem] at inactive
    exact List.mem_toFinset.mpr (inactive uid (List.mem_toFinset.mp launched))
  limit_never_hit _ := rfl

/-- Two kernels of one stream. -/
def twoKernels : List TraceCommand := [.kernelLaunch 0, .kernelLaunch 0]

/-- The second of them is launched, finishes and leaves the window. -/
theorem cleanup_second : (⟨2, [⟨2, 0, true⟩], [0], 3, ([1, 2], [1], [1])⟩ :
    Framework oneCycleCore).simulateAndCleanup 1 =
      some (⟨2, [], [], 3, ([1, 2], [1, 1, 2], [2, 1])⟩,
        [.removed ⟨2, 0, true⟩ ([1, 2], [1, 1, 2], [2, 1])]) := by
  have simulated : @simulate oneCycleCore 1 ([1, 2], [1], [1]) =
      some (2, ([1, 2], [1, 1, 2], [2, 1])) := rfl
  rw [Framework.simulateAndCleanup, simulated]
  simp [Framework.cleanup, cleanupFrom, oneCycleCore]

/-- In a window of two the second kernel waits for the first one, and is not removed with it. -/
theorem simulationLoop_iff_twoKernels :
    ∃ f events passes, Run oneCycleCore twoKernels 2 .head f events passes ∧ passes.length = 2 ∧
      Justified Event.Right events ∧ ¬ f.Unfinished twoKernels ∧ AllLaunched twoKernels events := by
  have read : Run oneCycleCore twoKernels 2 .launched
      ⟨2, [⟨1, 0, true⟩, ⟨2, 0, false⟩], [0], 3, ([1], [], [])⟩
      [.launched ⟨1, 0, false⟩ ([], [], [])] [] :=
    .launch .start (.inl (by decide))
  have cleaned : (⟨2, [⟨1, 0, true⟩, ⟨2, 0, false⟩], [0], 3, ([1], [], [])⟩ :
      Framework oneCycleCore).simulateAndCleanup 1 =
        some (⟨2, [⟨2, 0, false⟩], [], 3, ([1], [1], [1])⟩,
          [.removed ⟨1, 0, true⟩ ([1], [1], [1])]) := by
    simp [Framework.simulateAndCleanup, simulate, Framework.cleanup, cleanupFrom, oneCycleCore]
  have again : Run oneCycleCore twoKernels 2 .launched
      ⟨2, [⟨2, 0, true⟩], [0], 3, ([1, 2], [1], [1])⟩
      [.launched ⟨1, 0, false⟩ ([], [], []), .removed ⟨1, 0, true⟩ ([1], [1], [1]),
        .launched ⟨2, 0, false⟩ ([1], [1], [1])]
      [⟨2, [⟨1, 0, true⟩, ⟨2, 0, false⟩], [0], 3, ([1], [], [])⟩] :=
    (read.finish cleaned).launch (.inr (List.cons_ne_nil _ _))
  have right := simulationLoop_iff (again.finish cleanup_second)
  have last : ¬ (⟨2, [], [], 3, ([1, 2], [1, 1, 2], [2, 1])⟩ :
      Framework oneCycleCore).Unfinished twoKernels := by
    simp [Framework.Unfinished, twoKernels]
  obtain ⟨justified, all⟩ := right.mpr fun pass member cycles uid core _ _ k visited => by
    rcases List.mem_pair.mp member with rfl | rfl <;> rw [List.mem_singleton.mp visited]
  exact ⟨_, _, _, again.finish cleanup_second, rfl, justified, last, all last⟩

/-- In a window of one the two kernels are read, launched and removed one after the other. -/
theorem simulated_of_single_twoKernels :
    ∃ f events passes, Run oneCycleCore twoKernels 1 .head f events passes ∧
      (launchedKernels events).map KernelInfo.uid = [1, 2] ∧
      Justified Event.Right events ∧ ¬ f.Unfinished twoKernels ∧ AllLaunched twoKernels events := by
  have read : Run oneCycleCore twoKernels 1 .launched
      ⟨1, [⟨1, 0, true⟩], [0], 2, ([1], [], [])⟩ [.launched ⟨1, 0, false⟩ ([], [], [])] [] :=
    .launch .start (.inl (by decide))
  have cleaned : (⟨1, [⟨1, 0, true⟩], [0], 2, ([1], [], [])⟩ :
      Framework oneCycleCore).simulateAndCleanup 1 =
        some (⟨1, [], [], 2, ([1], [1], [1])⟩, [.removed ⟨1, 0, true⟩ ([1], [1], [1])]) := by
    simp [Framework.simulateAndCleanup, simulate, Framework.cleanup, cleanupFrom, oneCycleCore]
  have again := (read.finish cleaned).launch (.inl (by decide))
  have last : ¬ (⟨2, [], [], 3, ([1, 2], [1, 1, 2], [2, 1])⟩ :
      Framework oneCycleCore).Unfinished twoKernels := by
    simp [Framework.Unfinished, twoKernels]
  obtain ⟨justified, all⟩ := simulated_of_single (fun _ _ => rfl) (again.finish cleanup_second)
  exact ⟨_, _, _, again.finish cleanup_second, rfl, justified, last, all last⟩

/-- The framework after the commands of three kernels of one stream were read. -/
def threeKernels : Framework oneCycleCore where
  commandlistIndex := 3
  kernelsInfo := [⟨1, 0, true⟩, ⟨2, 0, false⟩, ⟨3, 0, false⟩]
  busyStreams := [0]
  nextUid := 4
  gpgpuSim := ([1], [], [])

/-- Three kernels of one stream in a window of three: when the first one finishes the core is
idle, and the third one is removed with it. -/
theorem exists_removed_not_launched :
    ¬ ∀ (sim : GpgpuSim) (commandlist : List TraceCommand) (windowSize : ℕ) (point : Point)
      (f : Framework sim) (events : List (Event sim)) (passes : List (Framework sim)),
      Run sim commandlist windowSize point f events passes → Justified Event.Right events ∧
          (¬ f.Unfinished commandlist → AllLaunched commandlist events) := by
  intro claim
  have read : Run oneCycleCore [.kernelLaunch 0, .kernelLaunch 0, .kernelLaunch 0] 3 .launched
      threeKernels [.launched ⟨1, 0, false⟩ ([], [], [])] [] :=
    .launch .start (.inl (by decide))
  have cleaned : threeKernels.simulateAndCleanup 1 = some
      ({ threeKernels with
          kernelsInfo := [⟨2, 0, false⟩], busyStreams := [], gpgpuSim := ([1], [1], [1]) },
        [.removed ⟨1, 0, true⟩ ([1], [1], [1]), .removed ⟨3, 0, false⟩ ([1], [1], [1])]) := by
    have simulated : simulate 1 threeKernels.gpgpuSim = some (1, ([1], [1], [1])) := rfl
    rw [Framework.simulateAndCleanup, simulated]
    simp [Framework.cleanup, cleanupFrom, threeKernels, oneCycleCore]
  obtain ⟨right, -⟩ := claim _ _ _ _ _ _ _ (read.finish cleaned)
  have removed := right [.launched ⟨1, 0, false⟩ ([], [], []), .removed ⟨1, 0, true⟩ ([1], [1], [1])]
    (.removed ⟨3, 0, false⟩ ([1], [1], [1])) [] rfl
  simp [Event.Right, launchedKernels] at removed

end GpuHotSpot.GpuSimulator
