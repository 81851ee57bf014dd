import GpuHotSpot.Common.SyncServer

/-!
# The discipline of the synchronisation server

* `Invariant`: each stalled thread waits in one queue, and a mutex with waiters has an owner.
* `Discipline`: what one request does to the owners, to the barriers and to the stalled threads.
* `run_disciplined`: the two hold in each run in which no thread tries to lock its own mutex.
-/

namespace GpuHotSpot.Common

open Fallible

namespace SyncServer

/-! ## What holds between the requests -/

/-- A mutex with waiters has an owner, each stalled thread is in one queue, and there because of
the call that it is in. -/
structure Invariant (s : Server) : Prop where
  held : ∀ m, (s.mutexAt m).owner = none → (s.mutexAt m).waiting = []
  oneQueue : OneQueue s.queue fun t => s.calls t ≠ none
  locking : ∀ m, ∀ t ∈ (s.mutexAt m).waiting, ∃ call, s.calls t = some call ∧ call.mutex = some m
  signalled : ∀ c, ∀ w ∈ s.condAt c, s.calls w.threadId = some (.condWait c w.mutex)
  meeting : ∀ (b : ℕ) barrier, s.barriers[b]? = some barrier →
    barrier.waiting.length < barrier.count.toNat ∧
      ∀ t ∈ barrier.waiting, s.calls t = some (.barrierWait b)

theorem Invariant.start : Invariant Server.start where
  held _ _ := rfl
  oneQueue := OneQueue.empty (fun p => by cases p <;> rfl) fun _ stalled => stalled rfl
  locking m t waits := by cases waits
  signalled c w waits := by cases waits
  meeting b barrier known := by cases known

section Step

variable {s s' : Server} {rescheduleCost time : SubsecondTime} {caller : ℕ}

theorem stalled_of_queue (oneQueue : OneQueue s.queue fun t => s.calls t ≠ none) {t : ℕ}
    (p : Place) (waits : t ∈ s.queue p) : s.calls t ≠ none :=
  (oneQueue.stalled_iff t).2 ⟨p, waits⟩

/-- The invariant after a change: only what is new in a queue needs its call. -/
theorem Invariant.change (inv : Invariant s)
    (held : ∀ m, (s'.mutexAt m).owner = none → (s'.mutexAt m).waiting = [])
    (oneQueue : OneQueue s'.queue fun t => s'.calls t ≠ none)
    (same : ∀ t, s.calls t ≠ none → s'.calls t ≠ none → s'.calls t = s.calls t)
    (locking : ∀ m, ∀ t ∈ (s'.mutexAt m).waiting,
      t ∈ (s.mutexAt m).waiting ∨ ∃ call, s'.calls t = some call ∧ call.mutex = some m)
    (signalled : ∀ c, ∀ w ∈ s'.condAt c,
      w ∈ s.condAt c ∨ s'.calls w.threadId = some (.condWait c w.mutex))
    (meeting : ∀ (b : ℕ) barrier, s'.barriers[b]? = some barrier → s.barriers[b]? = some barrier ∨
      barrier.waiting.length < barrier.count.toNat ∧
        ∀ t ∈ barrier.waiting, s'.calls t = some (.barrierWait b)) : Invariant s' where
  held := held
  oneQueue := oneQueue
  locking m t waits := by
    rcases locking m t waits with old | new
    · obtain ⟨call, calls, mutex⟩ := inv.locking m t old
      refine ⟨call, ?_, mutex⟩
      rw [same t (by simp [calls]) (stalled_of_queue oneQueue (.mutex m) waits), calls]
    · exact new
  signalled c w waits := by
    rcases signalled c w waits with old | new
    · have calls := inv.signalled c w old
      have still : s'.calls w.threadId ≠ none :=
        stalled_of_queue oneQueue (.cond c) (List.mem_map_of_mem waits)
      rw [same w.threadId (by simp [calls]) still, calls]
    · exact new
  meeting b barrier known := by
    rcases meeting b barrier known with old | new
    · obtain ⟨less, calls⟩ := inv.meeting b barrier old
      refine ⟨less, fun t waits => ?_⟩
      have still : s'.calls t ≠ none :=
        stalled_of_queue oneQueue (.barrier b) (by simpa [Server.queue, known] using waits)
      rw [same t (by simp [calls t waits]) still, calls t waits]
    · exact new

/-- The invariant reads the tables only. -/
theorem Invariant.congr (inv : Invariant s) (mutexes : s'.mutexAt = s.mutexAt)
    (conds : s'.condAt = s.condAt) (barriers : s'.barriers = s.barriers)
    (calls : s'.calls = s.calls) : Invariant s' := by
  refine inv.change ?_ ?_ (fun t _ _ => by rw [calls]) (fun m t waits => .inl ?_)
    (fun c w waits => .inl ?_) (fun b barrier known => .inl ?_)
  · rw [mutexes]
    exact inv.held
  · rw [Server.queue_congr mutexes conds barriers, calls]
    exact inv.oneQueue
  · rwa [mutexes] at waits
  · rwa [conds] at waits
  · rwa [barriers] at known

/-! ## Mutexes -/

/-- What a request does to a mutex: the waiters keep their order, a new owner was the first of
them, and a mutex that nobody waits for becomes free. -/
inductive Passes : SimMutex → SimMutex → Prop
  | keeps (owner : Option ℕ) (waiting added : List ℕ) :
    Passes ⟨owner, waiting⟩ ⟨owner, waiting ++ added⟩
  | takes (next : ℕ) (added : List ℕ) : Passes ⟨none, []⟩ ⟨some next, added⟩
  | handsOver (owner next : ℕ) (rest : List ℕ) :
    Passes ⟨some owner, next :: rest⟩ ⟨some next, rest⟩
  | releases (owner : ℕ) : Passes ⟨some owner, []⟩ ⟨none, []⟩

theorem Passes.refl (mutex : SimMutex) : Passes mutex mutex := by
  have kept := Passes.keeps mutex.owner mutex.waiting []
  rwa [List.append_nil] at kept

/-- A mutex that no request unlocks. -/
def Grows (before after : SimMutex) : Prop :=
  (after.owner = before.owner ∧ ∃ added, after.waiting = before.waiting ++ added) ∨
    before = ⟨none, []⟩ ∧ after.owner ≠ none

theorem Grows.refl (mutex : SimMutex) : Grows mutex mutex :=
  .inl ⟨rfl, [], (List.append_nil _).symm⟩

theorem Grows.trans {x y z : SimMutex} (first : Grows x y) (second : Grows y z) : Grows x z := by
  rcases first with ⟨owner, added, waiting⟩ | ⟨free, taken⟩
  · rcases second with ⟨owner', added', waiting'⟩ | ⟨rfl, taken⟩
    · exact .inl ⟨owner'.trans owner, added ++ added', by rw [waiting', waiting, List.append_assoc]⟩
    · obtain ⟨none, rfl⟩ := List.append_eq_nil_iff.1 waiting.symm
      refine .inr ⟨?_, taken⟩
      cases x
      simp_all
  · refine .inr ⟨free, ?_⟩
    rcases second with ⟨owner', _⟩ | ⟨rfl, _⟩
    · rwa [owner']
    · exact absurd rfl taken

theorem Grows.owner_eq {x y : SimMutex} (grows : Grows x y) {t : ℕ} (owner : x.owner = some t) :
    y.owner = some t := by
  rcases grows with ⟨same, _⟩ | ⟨rfl, _⟩
  · rw [same, owner]
  · cases owner

theorem Grows.passes {x y : SimMutex} (grows : Grows x y) : Passes x y := by
  obtain ⟨owner, waiting⟩ := x
  obtain ⟨owner', waiting'⟩ := y
  rcases grows with ⟨same, added, rfl⟩ | ⟨free, taken⟩
  · obtain rfl : owner' = owner := same
    exact .keeps owner' waiting added
  · cases free
    cases owner' with
    | none => exact absurd rfl taken
    | some next => exact .takes next waiting'

/-- The part of a request that lets other threads run: those that it resumes own their mutex. -/
structure Resumes (s s' : Server) : Prop where
  passes : ∀ m, Passes (s.mutexAt m) (s'.mutexAt m)
  stays : ∀ t, s'.calls t = s.calls t ∨ s'.calls t = none
  owns : ∀ t call, s.calls t = some call → s'.calls t = none →
    ∃ m, call.mutex = some m ∧ (s'.mutexAt m).owner = some t
  barriers : s'.barriers = s.barriers

/-- The same when no mutex is unlocked. -/
structure Wakes (s s' : Server) : Prop where
  grows : ∀ m, Grows (s.mutexAt m) (s'.mutexAt m)
  stays : ∀ t, s'.calls t = s.calls t ∨ s'.calls t = none
  owns : ∀ t call, s.calls t = some call → s'.calls t = none →
    ∃ m, call.mutex = some m ∧ (s'.mutexAt m).owner = some t
  barriers : s'.barriers = s.barriers

theorem Wakes.resumes (wakes : Wakes s s') : Resumes s s' :=
  ⟨fun m => (wakes.grows m).passes, wakes.stays, wakes.owns, wakes.barriers⟩

theorem Wakes.refl (s : Server) : Wakes s s where
  grows _ := Grows.refl _
  stays _ := .inl rfl
  owns t call calls running := by simp [calls] at running
  barriers := rfl

theorem Wakes.trans {s'' : Server} (first : Wakes s s') (second : Wakes s' s'') : Wakes s s'' where
  grows m := (first.grows m).trans (second.grows m)
  stays t := by
    rcases second.stays t with same | running
    · rw [same]
      exact first.stays t
    · exact .inr running
  owns t call calls running := by
    rcases first.stays t with same | ran
    · exact second.owns t call (same.trans calls) running
    · obtain ⟨m, mutex, owner⟩ := first.owns t call calls ran
      exact ⟨m, mutex, (second.grows m).owner_eq owner⟩
  barriers := second.barriers.trans first.barriers

/-- The waiters of a mutex that is changed. -/
theorem mem_update_waiting {mutexes : ℕ → SimMutex} {m n : ℕ} {mutex : SimMutex} {t : ℕ}
    (waits : t ∈ (Function.update mutexes m mutex n).waiting) :
    t ∈ (mutexes n).waiting ∨ n = m ∧ t ∈ mutex.waiting := by
  by_cases same : n = m
  · subst same
    rw [Function.update_self] at waits
    exact .inr ⟨rfl, waits⟩
  · rw [Function.update_of_ne same] at waits
    exact .inl waits

/-- A mutex that is changed so that its waiters have an owner. -/
theorem held_update {mutexes : ℕ → SimMutex} {m : ℕ} {mutex : SimMutex}
    (held : ∀ n, (mutexes n).owner = none → (mutexes n).waiting = [])
    (now : mutex.owner = none → mutex.waiting = []) (n : ℕ)
    (free : (Function.update mutexes m mutex n).owner = none) :
    (Function.update mutexes m mutex n).waiting = [] := by
  by_cases same : n = m
  · subst same
    rw [Function.update_self] at free ⊢
    exact now free
  · rw [Function.update_of_ne same] at free ⊢
    exact held n free

/-- A thread that is given its mutex. -/
theorem owns_update {t m : ℕ} {call : Call} (calls : s.calls t = some call)
    (mutex : call.mutex = some m) {mutexes : ℕ → SimMutex} {next : SimMutex}
    (owner : next.owner = some t) (u : ℕ) (call' : Call) (calls' : s.calls u = some call')
    (running : Function.update s.calls t none u = none) :
    ∃ n, call'.mutex = some n ∧ (Function.update mutexes m next n).owner = some u := by
  have same : u = t := by
    by_contra other
    rw [Function.update_of_ne other, calls'] at running
    cases running
  subst same
  rw [calls] at calls'
  cases calls'
  exact ⟨m, mutex, by rw [Function.update_self, owner]⟩

variable (rescheduleCost time) in
/-- **Waking a waiter.** It owns its mutex and runs, or waits for the mutex from now on. -/
theorem wake_spec (inv : Invariant s) {c : ℕ} {woken : CondWaiter} {rest : List CondWaiter}
    (waiters : s.condAt c = woken :: rest) :
    Invariant (wake rescheduleCost c woken rest time s) ∧
      Wakes s (wake rescheduleCost c woken rest time s) ∧
      (wake rescheduleCost c woken rest time s).condAt c = rest := by
  have calls : s.calls woken.threadId = some (.condWait c woken.mutex) :=
    inv.signalled c woken (by rw [waiters]; exact List.mem_cons_self)
  have queue : s.queue (.cond c) = woken.threadId :: rest.map CondWaiter.threadId := by
    rw [Server.queue, waiters, List.map_cons]
  have conds : ∀ d, ∀ w ∈ Function.update s.condAt c rest d, w ∈ s.condAt d := by
    intro d w waits
    by_cases same : d = c
    · subst same
      rw [Function.update_self] at waits
      rw [waiters]
      exact List.mem_cons_of_mem _ waits
    · rwa [Function.update_of_ne same] at waits
  unfold wake lockAsync
  simp only [Server.mutexAt_setCond]
  cases owner : (s.mutexAt woken.mutex).owner with
  | none =>
    have nobody := inv.held woken.mutex owner
    rw [nobody]
    refine ⟨inv.change ?_ ?_ ?_ ?_ ?_ ?_, ⟨?_, ?_, ?_, ?_⟩, ?_⟩ <;>
      simp only [Server.mutexAt_resumeThread, Server.condAt_resumeThread,
        Server.barriers_resumeThread, Server.calls_resumeThread, Server.queue_resumeThread,
        Server.mutexAt_setMutex, Server.condAt_setMutex, Server.barriers_setMutex,
        Server.calls_setMutex, Server.mutexAt_setCond, Server.condAt_setCond,
        Server.barriers_setCond, Server.calls_setCond]
    · exact held_update inv.held fun _ => rfl
    · refine (inv.oneQueue.pop queue).congr (fun p => ?_)
        fun u => update_none_iff s.calls woken.threadId u
      rw [Server.queue_setMutex, Server.queue_setCond]
      refine congrFun (Function.update_eq_self_iff.2 ?_) p
      rw [Function.update_of_ne (by simp), Server.queue, nobody]
    · exact fun t _ still => update_none_same still
    · intro m t waits
      rcases mem_update_waiting waits with old | ⟨_, new⟩
      · exact .inl old
      · cases new
    · exact fun d w waits => .inl (conds d w waits)
    · exact fun b barrier known => .inl known
    · intro m
      by_cases same : m = woken.mutex
      · subst same
        rw [Function.update_self]
        refine .inr ⟨?_, by simp⟩
        rw [← owner, ← nobody]
      · rw [Function.update_of_ne same]
        exact Grows.refl _
    · exact stays_update s.calls woken.threadId
    · exact owns_update calls rfl rfl
    · rw [Function.update_self]
  | some holder =>
    refine ⟨inv.change ?_ ?_ ?_ ?_ ?_ ?_, ⟨?_, ?_, ?_, ?_⟩, ?_⟩ <;>
      simp only [Server.mutexAt_setMutex, Server.condAt_setMutex, Server.barriers_setMutex,
        Server.calls_setMutex, Server.mutexAt_setCond, Server.condAt_setCond,
        Server.barriers_setCond, Server.calls_setCond]
    · exact held_update inv.held (by rintro ⟨⟩)
    · refine (inv.oneQueue.move queue (q := Place.mutex woken.mutex) (by simp)).congr
        (fun p => ?_) fun u => Iff.rfl
      rw [Server.queue_setMutex, Server.queue_setCond]
      rfl
    · exact fun _ _ _ => trivial
    · intro m t waits
      rcases mem_update_waiting waits with old | ⟨rfl, new⟩
      · exact .inl old
      · rcases List.mem_append.1 new with old | last
        · exact .inl old
        · rw [List.mem_singleton] at last
          subst last
          exact .inr ⟨_, calls, rfl⟩
    · exact fun d w waits => .inl (conds d w waits)
    · exact fun b barrier known => .inl known
    · intro m
      by_cases same : m = woken.mutex
      · subst same
        rw [Function.update_self]
        exact .inl ⟨owner.symm, _, rfl⟩
      · rw [Function.update_of_ne same]
        exact Grows.refl _
    · exact fun t => .inl trivial
    · intro t call here running
      rw [here] at running
      cases running
    · rw [Function.update_self]

variable (rescheduleCost time) in
/-- **Broadcasting.** The loop empties the queue of the condition. -/
theorem broadcast_spec {c : ℕ} (waiters : List CondWaiter) (inv : Invariant s)
    (all : s.condAt c = waiters) :
    Invariant (broadcast rescheduleCost c time waiters s) ∧
      Wakes s (broadcast rescheduleCost c time waiters s) ∧
      (broadcast rescheduleCost c time waiters s).condAt c = [] := by
  induction waiters generalizing s with
  | nil => exact ⟨inv, Wakes.refl s, all⟩
  | cons woken rest ih =>
    obtain ⟨inv', wakes, left⟩ :=
      wake_spec rescheduleCost time inv all
    obtain ⟨inv'', wakes', nobody⟩ := ih inv' left
    exact ⟨inv'', wakes.trans wakes', nobody⟩

/-- **Unlocking.** The owner hands the mutex to its first waiter. -/
theorem unlock_spec (inv : Invariant s) {m : ℕ} {newOwner : Option ℕ}
    (ran : unlock rescheduleCost m caller time s = .ok (s', newOwner)) :
    Invariant s' ∧ Resumes s s' := by
  unfold unlock at ran
  by_cases owner : (s.mutexAt m).owner = some caller
  · simp only [if_pos owner] at ran
    have here : s.mutexAt m = ⟨some caller, (s.mutexAt m).waiting⟩ := by rw [← owner]
    cases waiting : (s.mutexAt m).waiting with
    | nil =>
      simp only [waiting, Except.ok.injEq, Prod.mk.injEq] at ran
      obtain ⟨rfl, -⟩ := ran
      rw [waiting] at here
      refine ⟨inv.change ?_ ?_ (fun _ _ _ => rfl) ?_ (fun c w waits => .inl waits)
        fun b barrier known => .inl known, ?_, fun t => .inl rfl, ?_, rfl⟩
      · rw [Server.mutexAt_setMutex]
        exact held_update inv.held fun _ => rfl
      · refine inv.oneQueue.congr (fun p => ?_) fun u => Iff.rfl
        rw [Server.queue_setMutex]
        exact congrFun (Function.update_eq_self_iff.2 waiting.symm) p
      · intro n t waits
        rw [Server.mutexAt_setMutex] at waits
        rcases mem_update_waiting waits with old | ⟨_, new⟩
        · exact .inl old
        · cases new
      · intro n
        rw [Server.mutexAt_setMutex]
        by_cases same : n = m
        · subst same
          rw [Function.update_self, here]
          exact .releases caller
        · rw [Function.update_of_ne same]
          exact .refl _
      · intro t call calls running
        rw [Server.calls_setMutex, calls] at running
        cases running
    | cons waiter rest =>
      simp only [waiting, Except.ok.injEq, Prod.mk.injEq] at ran
      obtain ⟨rfl, -⟩ := ran
      rw [waiting] at here
      have queue : s.queue (.mutex m) = waiter :: rest := waiting
      obtain ⟨call, calls, mutex⟩ :=
        inv.locking m waiter (by rw [waiting]; exact List.mem_cons_self)
      refine ⟨inv.change ?_ ?_ ?_ ?_ ?_ ?_, ?_, ?_, ?_, ?_⟩ <;>
        simp only [Server.mutexAt_resumeThread, Server.condAt_resumeThread,
          Server.barriers_resumeThread, Server.calls_resumeThread, Server.queue_resumeThread,
          Server.mutexAt_setMutex, Server.condAt_setMutex, Server.barriers_setMutex,
          Server.calls_setMutex]
      · exact held_update inv.held nofun
      · refine (inv.oneQueue.pop queue).congr (fun p => ?_)
          fun u => update_none_iff s.calls waiter u
        rw [Server.queue_setMutex]
      · exact fun t _ still => update_none_same still
      · intro n t waits
        rcases mem_update_waiting waits with old | ⟨rfl, new⟩
        · exact .inl old
        · refine .inl ?_
          rw [waiting]
          exact List.mem_cons_of_mem _ new
      · exact fun d w waits => .inl waits
      · exact fun b barrier known => .inl known
      · intro n
        by_cases same : n = m
        · subst same
          rw [Function.update_self, here]
          exact .handsOver caller waiter rest
        · rw [Function.update_of_ne same]
          exact .refl _
      · exact stays_update s.calls waiter
      · exact owns_update calls mutex rfl
  · simp only [if_neg owner] at ran
    cases ran

theorem lock_of_free {m : ℕ} (owner : (s.mutexAt m).owner = none) :
    lock m caller time s = (s.setMutex m ⟨some caller, (s.mutexAt m).waiting⟩, some time) := by
  simp only [lock, owner]

theorem lock_of_held {m holder : ℕ} (owner : (s.mutexAt m).owner = some holder) :
    lock m caller time s =
      ((s.setMutex m ⟨some holder, (s.mutexAt m).waiting ++ [caller]⟩).stallThread caller
        (.mutexLock m), none) := by
  simp only [lock, owner]

variable (time) in
/-- **Locking.** A free mutex is taken; otherwise the caller waits behind the others. -/
theorem lock_spec (inv : Invariant s) (running : s.calls caller = none) (m : ℕ) :
    Invariant (lock m caller time s).1 ∧
      (∀ n, Grows (s.mutexAt n) ((lock m caller time s).1.mutexAt n)) ∧
      (∀ t, t ≠ caller → (lock m caller time s).1.calls t = s.calls t) ∧
      (lock m caller time s).1.barriers = s.barriers ∧
      ((s.mutexAt m).owner = none → (lock m caller time s).1.calls caller = none) := by
  cases owner : (s.mutexAt m).owner with
  | none =>
    have nobody := inv.held m owner
    rw [lock_of_free owner, nobody]
    refine ⟨inv.change ?_ ?_ (fun _ _ _ => rfl) ?_ (fun c w waits => .inl waits)
      fun b barrier known => .inl known, ?_, fun t _ => rfl, rfl, fun _ => running⟩
    · rw [Server.mutexAt_setMutex]
      exact held_update inv.held fun _ => rfl
    · refine inv.oneQueue.congr (fun p => ?_) fun u => Iff.rfl
      rw [Server.queue_setMutex]
      exact congrFun (Function.update_eq_self_iff.2 nobody.symm) p
    · intro n t waits
      rw [Server.mutexAt_setMutex] at waits
      rcases mem_update_waiting waits with old | ⟨_, new⟩
      · exact .inl old
      · cases new
    · intro n
      rw [Server.mutexAt_setMutex]
      by_cases same : n = m
      · subst same
        rw [Function.update_self]
        refine .inr ⟨?_, by simp⟩
        rw [← owner, ← nobody]
      · rw [Function.update_of_ne same]
        exact Grows.refl _
  | some holder =>
    have off : ∀ t, t ≠ caller →
        Function.update s.calls caller (some (Call.mutexLock m)) t = s.calls t :=
      fun t other => Function.update_of_ne other _ _
    have asleep : ¬ s.calls caller ≠ none := by simp [running]
    rw [lock_of_held owner]
    refine ⟨inv.change ?_ ?_ ?_ ?_ (fun c w waits => .inl waits)
      fun b barrier known => .inl known, ?_, off, rfl, nofun⟩ <;>
      simp only [Server.mutexAt_stallThread, Server.calls_stallThread, Server.queue_stallThread,
        Server.mutexAt_setMutex, Server.calls_setMutex]
    · exact held_update inv.held nofun
    · refine (inv.oneQueue.join asleep (.mutex m)).congr (fun p => ?_)
        fun u => update_some_iff s.calls caller u _
      rw [Server.queue_setMutex]
      rfl
    · intro t stalled _
      refine off t ?_
      rintro rfl
      exact stalled running
    · intro n t waits
      rcases mem_update_waiting waits with old | ⟨rfl, new⟩
      · exact .inl old
      · rcases List.mem_append.1 new with old | last
        · exact .inl old
        · rw [List.mem_singleton] at last
          subst last
          exact .inr ⟨.mutexLock n, Function.update_self .., rfl⟩
    · intro n
      by_cases same : n = m
      · subst same
        rw [Function.update_self]
        exact .inl ⟨owner.symm, _, rfl⟩
      · rw [Function.update_of_ne same]
        exact Grows.refl _

/-- **Waiting for a condition.** The caller is put behind the other waiters. -/
theorem condWait_stalls (inv : Invariant s) (running : s.calls caller = none) (c m : ℕ) :
    Invariant ((s.setCond c (s.condAt c ++ [⟨caller, m⟩])).stallThread caller (.condWait c m)) := by
  have asleep : ¬ s.calls caller ≠ none := by simp [running]
  refine inv.change inv.held ?_ ?_ (fun m t waits => .inl waits) ?_
    (fun b barrier known => .inl known) <;>
    simp only [Server.condAt_stallThread, Server.calls_stallThread, Server.queue_stallThread,
      Server.condAt_setCond, Server.calls_setCond]
  · refine (inv.oneQueue.join asleep (.cond c)).congr (fun p => ?_)
      fun u => update_some_iff s.calls caller u _
    rw [Server.queue_setCond, List.map_append]
    rfl
  · intro t stalled _
    refine Function.update_of_ne ?_ _ _
    rintro rfl
    exact stalled running
  · intro d w waits
    by_cases same : d = c
    · subst same
      rw [Function.update_self] at waits
      rcases List.mem_append.1 waits with old | last
      · exact .inl old
      · rw [List.mem_singleton] at last
        subst last
        exact .inr (Function.update_self ..)
    · rw [Function.update_of_ne same] at waits
      exact .inl waits

/-! ## Barriers -/

section Release

variable {ws : List ℕ}

theorem release_calls (t : ℕ) :
    (release rescheduleCost time ws s).calls t = if t ∈ ws then none else s.calls t := by
  induction ws generalizing s with
  | nil => rfl
  | cons w ws ih =>
    rw [release, ih, Server.calls_resumeThread]
    by_cases first : t = w
    · subst first
      simp
    · simp [first]

theorem release_mutexAt : (release rescheduleCost time ws s).mutexAt = s.mutexAt := by
  induction ws generalizing s with
  | nil => rfl
  | cons w ws ih => rw [release, ih, Server.mutexAt_resumeThread]

theorem release_condAt : (release rescheduleCost time ws s).condAt = s.condAt := by
  induction ws generalizing s with
  | nil => rfl
  | cons w ws ih => rw [release, ih, Server.condAt_resumeThread]

theorem release_barriers : (release rescheduleCost time ws s).barriers = s.barriers := by
  induction ws generalizing s with
  | nil => rfl
  | cons w ws ih => rw [release, ih, Server.barriers_resumeThread]

variable (rescheduleCost time) in
/-- Each thread that is released returns once, in the order of the queue. -/
theorem release_returned (nodup : ws.Nodup) (stalled : ∀ w ∈ ws, s.calls w ≠ none) :
    (release rescheduleCost time ws s).returned.map Prod.fst = s.returned.map Prod.fst ++ ws := by
  induction ws generalizing s with
  | nil => rw [release, List.append_nil]
  | cons w ws ih =>
    obtain ⟨apart, nodup⟩ := List.nodup_cons.1 nodup
    have still : ∀ v ∈ ws, (s.resumeThread rescheduleCost w time).calls v ≠ none := by
      intro v member
      have other : v ≠ w := fun same => apart (same ▸ member)
      rw [Server.calls_resumeThread, Function.update_of_ne other]
      exact stalled v (List.mem_cons_of_mem w member)
    rw [release, ih nodup still,
      Server.returned_resumeThread (stalled w List.mem_cons_self), List.append_assoc]
    rfl

end Release

/-- A thread reaches the barrier before the last one, and waits. -/
structure Joins (caller b : ℕ) (barrier : SimBarrier) (s s' : Server) : Prop where
  early : barrier.waiting.length + 1 < barrier.count.toNat
  barriers : s'.barriers = s.barriers.set b { barrier with waiting := barrier.waiting ++ [caller] }
  calls : s'.calls = Function.update s.calls caller (some (.barrierWait b))

/-- The last thread reaches the barrier: `count - 1` threads are resumed, each once and no others,
and the next generation starts. -/
structure Opens (caller b : ℕ) (barrier : SimBarrier) (s s' : Server) : Prop where
  all : barrier.waiting.length + 1 = barrier.count.toNat
  barriers : s'.barriers = s.barriers.set b { barrier with waiting := [] }
  stalled : ∀ t ∈ barrier.waiting, s.calls t = some (.barrierWait b)
  calls : ∀ t, s'.calls t = if t ∈ barrier.waiting then none else s.calls t
  returned : s'.returned.map Prod.fst =
    s.returned.map Prod.fst ++ barrier.waiting ++ [caller]

/-- A barrier of the table after one of them is set. -/
theorem mem_setBarrier {b c : ℕ} {old new other : SimBarrier} (known : s.barriers[b]? = some old)
    (here : (s.setBarrier b new).barriers[c]? = some other) :
    s.barriers[c]? = some other ∨ c = b ∧ other = new := by
  have inside : b < s.barriers.length := (List.getElem?_eq_some_iff.1 known).1
  rw [Server.setBarrier] at here
  by_cases same : c = b
  · subst same
    rw [List.getElem?_set_self inside] at here
    exact .inr ⟨rfl, (Option.some.inj here).symm⟩
  · rw [List.getElem?_set_ne (Ne.symm same)] at here
    exact .inl here

/-- The caller waits at the barrier. -/
theorem barrierWait_stalls (inv : Invariant s) (running : s.calls caller = none) {b : ℕ}
    {barrier : SimBarrier} (known : s.barriers[b]? = some barrier)
    (early : barrier.waiting.length + 1 < barrier.count.toNat) :
    Invariant ((s.setBarrier b { barrier with waiting := barrier.waiting ++ [caller] }).stallThread
      caller (.barrierWait b)) := by
  have queue : s.queue (.barrier b) = barrier.waiting := by simp [Server.queue, known]
  have asleep : ¬ s.calls caller ≠ none := by simp [running]
  have off : ∀ t, s.calls t ≠ none →
      Function.update s.calls caller (some (.barrierWait b)) t = s.calls t := by
    intro t stalled
    refine Function.update_of_ne ?_ _ _
    rintro rfl
    exact stalled running
  refine inv.change inv.held ?_ (fun t stalled _ => off t stalled) (fun m t waits => .inl waits)
    (fun c w waits => .inl waits) fun c other here => ?_
  · refine (inv.oneQueue.join asleep (.barrier b)).congr (fun p => ?_)
      fun u => update_some_iff s.calls caller u _
    rw [Server.queue_stallThread, Server.queue_setBarrier known, queue]
  · rcases mem_setBarrier known here with old | ⟨rfl, rfl⟩
    · exact .inl old
    · refine .inr ⟨by simp only [List.length_append, List.length_singleton]; exact early, ?_⟩
      intro t member
      rcases List.mem_append.1 member with old | new
      · have waits := (inv.meeting c barrier known).2 t old
        exact (off t (by simp [waits])).trans waits
      · rw [List.mem_singleton] at new
        subst new
        exact Function.update_self ..

/-- The threads at the barrier are resumed. -/
theorem barrierWait_resumes (inv : Invariant s) {b : ℕ} {barrier : SimBarrier}
    (known : s.barriers[b]? = some barrier) :
    Invariant (release rescheduleCost time barrier.waiting
      (s.setBarrier b { barrier with waiting := [] })) := by
  have queue : s.queue (.barrier b) = barrier.waiting := by simp [Server.queue, known]
  have still : ∀ t, (if t ∈ barrier.waiting then none else s.calls t) ≠ none ↔
      s.calls t ≠ none ∧ t ∉ barrier.waiting := by
    intro t
    by_cases member : t ∈ barrier.waiting
    · simp [member]
    · simp [member]
  refine inv.change ?_ ?_ ?_ ?_ ?_ ?_
  · rw [release_mutexAt]
    exact inv.held
  · refine (inv.oneQueue.drain (.barrier b)).congr (fun p => ?_) fun t => ?_
    · rw [Server.queue_congr release_mutexAt release_condAt release_barriers,
        Server.queue_setBarrier known]
    · rw [release_calls, queue]
      exact still t
  · intro t _ here
    rw [release_calls] at here ⊢
    exact if_neg ((still t).1 here).2
  · intro m t waits
    rw [release_mutexAt] at waits
    exact .inl waits
  · intro c w waits
    rw [release_condAt] at waits
    exact .inl waits
  · intro c other here
    rw [release_barriers] at here
    rcases mem_setBarrier known here with old | ⟨rfl, rfl⟩
    · exact .inl old
    · exact .inr ⟨Nat.zero_lt_of_lt (inv.meeting c barrier known).1, fun t member => by cases member⟩

/-- **Reaching a barrier.** -/
theorem barrierWait_spec (inv : Invariant s) (running : s.calls caller = none) {b : ℕ}
    (ran : barrierWait rescheduleCost caller b time s = .ok s') :
    Invariant s' ∧ s'.mutexAt = s.mutexAt ∧ ∃ barrier, s.barriers[b]? = some barrier ∧
        (Joins caller b barrier s s' ∨ Opens caller b barrier s s') := by
  unfold barrierWait at ran
  cases known : s.barriers[b]? with
  | none =>
    rw [known] at ran
    cases ran
  | some barrier =>
    obtain ⟨less, waits⟩ := inv.meeting b barrier known
    have less_one : (barrier.count - 1).toNat = barrier.count.toNat - 1 :=
      UInt32.toNat_sub_of_le barrier.count 1 (UInt32.le_iff_toNat_le.2 (Nat.one_le_of_lt less))
    simp only [known] at ran
    by_cases last : barrier.waiting.length = (barrier.count - 1).toNat
    · rw [if_pos last] at ran
      cases ran
      have nodup : barrier.waiting.Nodup := by
        have once := inv.oneQueue.once (.barrier b)
        rwa [Server.queue, known] at once
      have stalled : ∀ w ∈ barrier.waiting, s.calls w ≠ none := fun w member => by
        simp [waits w member]
      refine ⟨(barrierWait_resumes inv known).congr rfl rfl rfl rfl, release_mutexAt, barrier, rfl,
        .inr ⟨by omega, release_barriers, waits, fun t => release_calls t, ?_⟩⟩
      have returned := release_returned rescheduleCost time
        (s := s.setBarrier b { barrier with waiting := [] }) nodup stalled
      rw [Server.answer, List.map_append, returned]
      rfl
    · rw [if_neg last] at ran
      cases ran
      have early : barrier.waiting.length + 1 < barrier.count.toNat := by omega
      exact ⟨barrierWait_stalls inv running known early, rfl, barrier, rfl,
        .inl ⟨early, rfl, rfl⟩⟩

/-! ## Requests -/

/-- What a request does. -/
structure Discipline (r : Request) (s s' : Server) : Prop where
  passes : ∀ m, Passes (s.mutexAt m) (s'.mutexAt m)
  stays : ∀ t call, s.calls t = some call → s'.calls t = some call ∨ s'.calls t = none
  others : ∀ t, t ≠ r.threadId → s.calls t = none → s'.calls t = none
  owns : ∀ t call m, s.calls t = some call → call.mutex = some m → s'.calls t = none →
    (s'.mutexAt m).owner = some t
  generation : ∀ b, r.op = .barrierWait b → ∃ barrier, s.barriers[b]? = some barrier ∧
    (Joins r.threadId b barrier s.fresh s' ∨ Opens r.threadId b barrier s.fresh s')
  meets : ∀ t b, s.calls t = some (.barrierWait b) → s'.calls t = none → r.op = .barrierWait b
  barriers : ∀ (b : ℕ) barrier, s.barriers[b]? = some barrier → r.op ≠ .barrierWait b →
    s'.barriers[b]? = some barrier
  tryLock : ∀ m, r.op = .mutexLock m true → s'.calls r.threadId = none

/-- The discipline of a request that lets threads run and may stall its caller. -/
theorem Discipline.of_resumes {r : Request} {s₁ : Server} (running : s.calls r.threadId = none)
    (resumes : Resumes s s₁) (mutexes : s'.mutexAt = s₁.mutexAt)
    (calls : ∀ t, t ≠ r.threadId → s'.calls t = s₁.calls t)
    (barriers : ∀ (b : ℕ) barrier, s₁.barriers[b]? = some barrier → s'.barriers[b]? = some barrier)
    (noBarrier : ∀ b, r.op ≠ .barrierWait b)
    (tryLock : ∀ m, r.op = .mutexLock m true → s'.calls r.threadId = none) :
    Discipline r s s' := by
  have other : ∀ t call, s.calls t = some call → t ≠ r.threadId := by
    rintro t call stalled rfl
    rw [running] at stalled
    cases stalled
  refine ⟨fun m => ?_, fun t call stalled => ?_, fun t off idle => ?_,
    fun t call m stalled mutex resumed => ?_, fun b isBarrier => absurd isBarrier (noBarrier b),
    fun t b stalled resumed => ?_, fun b barrier known _ => ?_, tryLock⟩
  · rw [mutexes]
    exact resumes.passes m
  · rw [calls t (other t call stalled), ← stalled]
    exact resumes.stays t
  · rw [calls t off]
    rcases resumes.stays t with same | none
    · rw [same, idle]
    · exact none
  · rw [calls t (other t call stalled)] at resumed
    obtain ⟨n, mutex', owner⟩ := resumes.owns t call stalled resumed
    rw [mutex] at mutex'
    obtain rfl : m = n := Option.some.inj mutex'
    rw [mutexes, owner]
  · rw [calls t (other t _ stalled)] at resumed
    obtain ⟨n, mutex, _⟩ := resumes.owns t _ stalled resumed
    cases mutex
  · exact barriers b barrier (by rw [resumes.barriers, known])

/-- The discipline of a thread that reaches a barrier. -/
theorem Discipline.of_barrier {r : Request} {b : ℕ} {barrier : SimBarrier}
    (inv : Invariant s) (running : s.calls r.threadId = none) (isBarrier : r.op = .barrierWait b)
    (mutexes : s'.mutexAt = s.mutexAt) (known : s.barriers[b]? = some barrier)
    (reaches : Joins r.threadId b barrier s.fresh s' ∨ Opens r.threadId b barrier s.fresh s') :
    Discipline r s s' := by
  have resumed : ∀ t call, s.calls t = some call →
      s'.calls t = some call ∨ s'.calls t = none ∧ call = .barrierWait b := by
    intro t call stalled
    rcases reaches with joins | opens
    · have other : t ≠ r.threadId := by
        rintro rfl
        rw [running] at stalled
        cases stalled
      exact .inl ((congrFun joins.calls t).trans ((Function.update_of_ne other _ _).trans stalled))
    · rw [opens.calls t]
      by_cases member : t ∈ barrier.waiting
      · have waits := (inv.meeting b barrier known).2 t member
        rw [stalled] at waits
        exact .inr ⟨if_pos member, Option.some.inj waits⟩
      · exact .inl ((if_neg member).trans stalled)
  refine ⟨fun m => ?_, fun t call stalled => ?_, fun t off idle => ?_,
    fun t call m stalled mutex here => ?_, fun c isBarrier' => ?_,
    fun t c stalled here => ?_, fun c other here off => ?_, fun m isLock => ?_⟩
  · rw [mutexes]
    exact .refl _
  · exact (resumed t call stalled).imp_right And.left
  · rcases reaches with joins | opens
    · exact (congrFun joins.calls t).trans ((Function.update_of_ne off _ _).trans idle)
    · rw [opens.calls t]
      exact ite_eq_left_iff.2 fun _ => idle
  · rcases resumed t call stalled with still | ⟨_, rfl⟩
    · rw [here] at still
      cases still
    · cases mutex
  · rw [isBarrier] at isBarrier'
    cases isBarrier'
    exact ⟨barrier, known, reaches⟩
  · rcases resumed t _ stalled with still | ⟨_, same⟩
    · rw [here] at still
      cases still
    · cases same
      exact isBarrier
  · have apart : b ≠ c := by
      rintro rfl
      exact off isBarrier
    rcases reaches with joins | opens
    · rw [joins.barriers, List.getElem?_set_ne apart]
      exact here
    · rw [opens.barriers, List.getElem?_set_ne apart]
      exact here
  · rw [isBarrier] at isLock
    cases isLock

/-- What the callers keep to: a stalled thread makes no request, a barrier is made for at least one
thread, and no thread tries to lock the mutex that it owns. -/
structure Proper (s : Server) (r : Request) : Prop where
  running : s.calls r.threadId = none
  positive : ∀ count, r.op = .barrierInit count → 0 < count
  notOwn : ∀ m, r.op = .mutexLock m true → (s.mutexAt m).owner ≠ some r.threadId

/-- **Locking a mutex.** -/
theorem mutexLock_spec {r : Request} (inv : Invariant s) (proper : Proper s r) {m : ℕ}
    {tryLock : Bool} (isLock : r.op = .mutexLock m tryLock) :
    Invariant (mutexLock rescheduleCost r.threadId m tryLock time s) ∧
      Discipline r s (mutexLock rescheduleCost r.threadId m tryLock time s) := by
  have noBarrier : ∀ b, r.op ≠ .barrierWait b := fun b => by rw [isLock]; exact nofun
  have inv' : Invariant (s.getMutex m) := inv.congr Server.mutexAt_getMutex rfl rfl rfl
  simp only [mutexLock, Server.mutexAt_getMutex]
  by_cases fails : (tryLock && (s.mutexAt m).isLocked r.threadId) = true
  · simp only [if_pos fails]
    refine ⟨inv'.congr rfl rfl rfl rfl, .of_resumes proper.running (Wakes.refl s).resumes
      Server.mutexAt_getMutex (fun _ _ => rfl) (fun _ _ known => known) noBarrier
      fun _ _ => proper.running⟩
  · simp only [if_neg fails]
    obtain ⟨inv'', grows, off, barriers, free⟩ :=
      lock_spec time inv' proper.running m
    rw [Server.mutexAt_getMutex] at grows free
    have resumes : Resumes s { (lock m r.threadId time (s.getMutex m)).1 with calls := s.calls } :=
      ⟨fun n => (grows n).passes, fun _ => .inl rfl,
        fun t call stalled running => by simp [stalled] at running, barriers⟩
    have tried : ∀ n, r.op = .mutexLock n true →
        (lock m r.threadId time (s.getMutex m)).1.calls r.threadId = none := by
      intro n isTry
      refine free ?_
      have notOwn := proper.notOwn n isTry
      rw [isLock] at isTry
      cases isTry
      rw [Bool.true_and, SimMutex.isLocked] at fails
      cases owner : (s.mutexAt m).owner with
      | none => rfl
      | some holder =>
        rw [owner] at notOwn
        have other : holder ≠ r.threadId := fun same => notOwn (by rw [same])
        simp [owner, other] at fails
    cases locked : lock m r.threadId time (s.getMutex m) with
    | mk s₁ timeEnd =>
      rw [locked] at inv'' off resumes tried
      cases timeEnd with
      | none =>
        exact ⟨inv'', .of_resumes proper.running resumes rfl off (fun _ _ known => known)
          noBarrier tried⟩
      | some timeEnd =>
        exact ⟨inv''.congr rfl rfl rfl rfl, .of_resumes proper.running resumes rfl off
          (fun _ _ known => known) noBarrier tried⟩

/-- **Unlocking a mutex.** -/
theorem mutexUnlock_spec {r : Request} (inv : Invariant s) (running : s.calls r.threadId = none)
    {m : ℕ} (isUnlock : r.op = .mutexUnlock m)
    (ran : mutexUnlock rescheduleCost r.threadId m time s = .ok s') :
    Invariant s' ∧ Discipline r s s' := by
  unfold mutexUnlock at ran
  cases known : s.mutexes m with
  | none =>
    rw [known] at ran
    cases ran
  | some mutex =>
    simp only [known] at ran
    obtain ⟨⟨s₁, newOwner⟩, unlocked, answered⟩ := bind_ok.1 ran
    cases answered
    obtain ⟨inv', resumes⟩ := unlock_spec inv unlocked
    exact ⟨inv'.congr rfl rfl rfl rfl, .of_resumes running resumes rfl (fun _ _ => rfl)
      (fun _ _ known => known) (fun b => by rw [isUnlock]; exact nofun)
      fun m => by rw [isUnlock]; exact nofun⟩

/-- **Waiting for a condition.** -/
theorem condWait_spec {r : Request} (inv : Invariant s) (running : s.calls r.threadId = none)
    {c m : ℕ} (isWait : r.op = .condWait c m)
    (ran : condWait rescheduleCost r.threadId c m time s = .ok s') :
    Invariant s' ∧ Discipline r s s' := by
  have mutexes : ((s.getMutex m).getCond c).mutexAt = s.mutexAt := Server.mutexAt_getMutex
  have inv₀ : Invariant ((s.getMutex m).getCond c) :=
    inv.congr mutexes Server.condAt_getCond rfl rfl
  obtain ⟨⟨s₁, newOwner⟩, unlocked, stalled⟩ := bind_ok.1 ran
  cases stalled
  obtain ⟨inv', passes, stays, owns, barriers⟩ := unlock_spec inv₀ unlocked
  rw [mutexes] at passes
  have idle : s₁.calls r.threadId = none := by
    rcases stays r.threadId with same | none
    · exact same.trans running
    · exact none
  exact ⟨condWait_stalls inv' idle c m, .of_resumes running ⟨passes, stays, owns, barriers⟩ rfl
    (fun t other => Function.update_of_ne other _ _) (fun _ _ known => known)
    (fun b => by rw [isWait]; exact nofun) fun m => by rw [isWait]; exact nofun⟩

/-- **Signalling a condition.** -/
theorem condSignal_spec {r : Request} (inv : Invariant s) (running : s.calls r.threadId = none)
    {c : ℕ} (isSignal : r.op = .condSignal c) :
    Invariant (condSignal rescheduleCost r.threadId c time s) ∧
      Discipline r s (condSignal rescheduleCost r.threadId c time s) := by
  have inv₀ : Invariant (s.getCond c) := inv.congr rfl Server.condAt_getCond rfl rfl
  have noBarrier : ∀ b, r.op ≠ .barrierWait b := fun b => by rw [isSignal]; exact nofun
  have noLock : ∀ m, r.op ≠ .mutexLock m true := fun m => by rw [isSignal]; exact nofun
  cases waiters : (s.getCond c).condAt c with
  | nil =>
    simp only [condSignal, waiters]
    exact ⟨inv₀.congr rfl rfl rfl rfl, .of_resumes running (Wakes.refl s).resumes rfl
      (fun _ _ => rfl) (fun _ _ known => known) noBarrier fun m isLock => absurd isLock (noLock m)⟩
  | cons woken rest =>
    simp only [condSignal, waiters]
    obtain ⟨inv', wakes, -⟩ :=
      wake_spec rescheduleCost time inv₀ waiters
    have resumes : Resumes s (wake rescheduleCost c woken rest time (s.getCond c)) :=
      ⟨wakes.resumes.passes, wakes.stays, wakes.owns, wakes.barriers⟩
    exact ⟨inv'.congr rfl rfl rfl rfl, .of_resumes running resumes rfl (fun _ _ => rfl)
      (fun _ _ known => known) noBarrier fun m isLock => absurd isLock (noLock m)⟩

/-- **Broadcasting a condition.** -/
theorem condBroadcast_spec {r : Request} (inv : Invariant s) (running : s.calls r.threadId = none)
    {c : ℕ} (isBroadcast : r.op = .condBroadcast c) :
    Invariant (condBroadcast rescheduleCost r.threadId c time s) ∧
      Discipline r s (condBroadcast rescheduleCost r.threadId c time s) := by
  have inv₀ : Invariant (s.getCond c) := inv.congr rfl Server.condAt_getCond rfl rfl
  obtain ⟨inv', wakes, -⟩ :=
    broadcast_spec rescheduleCost time _ inv₀ (c := c) rfl
  have resumes : Resumes s (broadcast rescheduleCost c time ((s.getCond c).condAt c)
      (s.getCond c)) := ⟨wakes.resumes.passes, wakes.stays, wakes.owns, wakes.barriers⟩
  exact ⟨inv'.congr rfl rfl rfl rfl, .of_resumes running resumes rfl (fun _ _ => rfl)
    (fun _ _ known => known) (fun b => by rw [isBroadcast]; exact nofun)
    fun m => by rw [isBroadcast]; exact nofun⟩

/-- A new barrier has no waiters. -/
theorem barrierInit_spec {r : Request} (inv : Invariant s) (proper : Proper s r) {count : UInt32}
    (isInit : r.op = .barrierInit count) :
    Invariant (barrierInit r.threadId count s) ∧
      Discipline r s (barrierInit r.threadId count s) := by
  have known_iff : ∀ (b : ℕ) barrier,
      (s.barriers ++ [(⟨[], count⟩ : SimBarrier)])[b]? = some barrier →
        s.barriers[b]? = some barrier ∨ barrier = ⟨[], count⟩ := by
    intro b barrier known
    rw [List.getElem?_append] at known
    by_cases old : b < s.barriers.length
    · rw [if_pos old] at known
      exact .inl known
    · rw [if_neg old] at known
      exact .inr (List.mem_singleton.1 (List.mem_of_getElem? known))
  refine ⟨inv.change inv.held ?_ (fun _ _ _ => rfl) (fun m t waits => .inl waits)
    (fun c w waits => .inl waits) fun b barrier known => ?_,
    .of_resumes proper.running (Wakes.refl s).resumes rfl (fun _ _ => rfl)
      (fun b barrier known => ?_) (fun b => by rw [isInit]; exact nofun)
      fun m => by rw [isInit]; exact nofun⟩
  · refine inv.oneQueue.congr (fun p => ?_) fun t => Iff.rfl
    cases p with
    | mutex m => rfl
    | cond c => rfl
    | barrier b =>
      change ((s.barriers ++ [(⟨[], count⟩ : SimBarrier)])[b]?.map SimBarrier.waiting).getD [] =
        (s.barriers[b]?.map SimBarrier.waiting).getD []
      rw [List.getElem?_append]
      by_cases old : b < s.barriers.length
      · rw [if_pos old]
      · rw [if_neg old, List.getElem?_eq_none (Nat.le_of_not_lt old)]
        cases b - s.barriers.length <;> rfl
  · rcases known_iff b barrier known with old | rfl
    · exact .inl old
    · exact .inr ⟨UInt32.lt_iff_toNat_lt.1 (proper.positive count isInit), fun t waits => by cases waits⟩
  · have inside : b < s.barriers.length := (List.getElem?_eq_some_iff.1 known).1
    exact (List.getElem?_append_left inside).trans known

/-- **One request.** -/
theorem step_spec {r : Request} (inv : Invariant s) (proper : Proper s r)
    (ran : step rescheduleCost r s = .ok s') : Invariant s' ∧ Discipline r s s' := by
  have inv₀ : Invariant s.fresh := inv.congr rfl rfl rfl rfl
  have proper₀ : Proper s.fresh r := ⟨proper.running, proper.positive, proper.notOwn⟩
  suffices Invariant s' ∧ Discipline r s.fresh s' from
    ⟨this.1, this.2.passes, this.2.stays, this.2.others, this.2.owns, this.2.generation,
      this.2.meets, this.2.barriers, this.2.tryLock⟩
  cases op : r.op with
  | mutexInit mux =>
    simp only [step, op, Except.ok.injEq] at ran
    subst ran
    exact ⟨inv₀.congr Server.mutexAt_getMutex rfl rfl rfl,
      .of_resumes proper.running (Wakes.refl s.fresh).resumes Server.mutexAt_getMutex
        (fun _ _ => rfl) (fun _ _ known => known) (fun b => by rw [op]; exact nofun)
        fun m => by rw [op]; exact nofun⟩
  | mutexLock mux tryLock =>
    simp only [step, op, Except.ok.injEq] at ran
    subst ran
    exact mutexLock_spec inv₀ proper₀ op
  | mutexUnlock mux =>
    simp only [step, op] at ran
    exact mutexUnlock_spec inv₀ proper₀.running op ran
  | condInit cond =>
    simp only [step, op, Except.ok.injEq] at ran
    subst ran
    exact ⟨inv₀.congr rfl Server.condAt_getCond rfl rfl,
      .of_resumes proper.running (Wakes.refl s.fresh).resumes rfl (fun _ _ => rfl)
        (fun _ _ known => known) (fun b => by rw [op]; exact nofun)
        fun m => by rw [op]; exact nofun⟩
  | condWait cond mux =>
    simp only [step, op] at ran
    exact condWait_spec inv₀ proper₀.running op ran
  | condSignal cond =>
    simp only [step, op, Except.ok.injEq] at ran
    subst ran
    exact condSignal_spec inv₀ proper₀.running op
  | condBroadcast cond =>
    simp only [step, op, Except.ok.injEq] at ran
    subst ran
    exact condBroadcast_spec inv₀ proper₀.running op
  | barrierInit count =>
    simp only [step, op, Except.ok.injEq] at ran
    subst ran
    exact barrierInit_spec inv₀ proper₀ op
  | barrierWait barrier =>
    simp only [step, op] at ran
    obtain ⟨inv', mutexes, b, known, reaches⟩ := barrierWait_spec inv₀ proper₀.running ran
    exact ⟨inv', .of_barrier inv₀ proper₀.running op mutexes known reaches⟩

/-- **Runs.** In a run in which no thread tries to lock its own mutex, each state satisfies the
invariant, and each further request keeps the discipline. -/
theorem run_disciplined {rs : List Request} {s : Server}
    (proper : Along Proper (step rescheduleCost) rs Server.start)
    (ran : runEvents (step rescheduleCost) rs Server.start = .ok s) :
    Invariant s ∧ ∀ r s', Proper s r → step rescheduleCost r s = .ok s' → Discipline r s s' := by
  have inv : Invariant s := by
    have kept : Ensures Invariant (fun _ => True)
        (runEvents (step rescheduleCost) rs Server.start) := by
      refine proper.ensures_runEvents ?_ Invariant.start
      intro r t proper inv
      cases moved : step rescheduleCost r t with
      | error stop => trivial
      | ok t' => exact (step_spec inv proper moved).1
    exact kept.of_ok ran
  exact ⟨inv, fun r s' proper moved => (step_spec inv proper moved).2⟩

/-- Two threads lock a mutex, and the second one waits. -/
theorem run_disciplined_two :
    ∃ s, runEvents (step 5) [⟨0, 10, .mutexLock 7 true⟩, ⟨1, 20, .mutexLock 7 false⟩]
        Server.start = .ok s ∧
      Invariant s ∧ ∀ r s', Proper s r → step 5 r s = .ok s' → Discipline r s s' := by
  have proper : Along Proper (step 5)
      [⟨0, 10, .mutexLock 7 true⟩, ⟨1, 20, .mutexLock 7 false⟩] Server.start := by
    refine ⟨⟨rfl, nofun, fun m isLock owner => ?_⟩, fun t moved => ?_⟩
    · cases owner
    · cases moved
      exact ⟨⟨rfl, nofun, nofun⟩, fun _ _ => trivial⟩
  exact ⟨_, rfl, run_disciplined proper rfl⟩

/-- A thread that owns a mutex and tries to lock it is stalled in the queue of the mutex, which no
other thread can unlock. -/
theorem tryLock_stalls_owner :
    ∃ s s', runEvents (step 0) [⟨0, 10, .mutexLock 7 false⟩] Server.start = .ok s ∧
      (s.mutexAt 7).owner = some 0 ∧ s.calls 0 = none ∧
      step 0 ⟨0, 20, .mutexLock 7 true⟩ s = .ok s' ∧
      s'.calls 0 = some (.mutexLock 7) ∧ s'.mutexAt 7 = ⟨some 0, [0]⟩ :=
  ⟨_, _, rfl, rfl, rfl, rfl, rfl, rfl⟩

end Step

end SyncServer

end GpuHotSpot.Common
