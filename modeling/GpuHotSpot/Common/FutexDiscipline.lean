import GpuHotSpot.Common.SyscallServer

/-!
# The queue discipline of futexes

* `Invariant`: each stalled thread waits in one queue, with the timeout of its call.
* `wakeUp_spec`: a wake takes the first waiters that its bitset selects, and no others.
* `requeue_ends`: the waiters of a futex follow those of another one in the same order.
* `Discipline`: what one event does to the queues and to the stalled threads.
* `run_futexDisciplined`: the two hold in each run in which `FUTEX_WAKE_BITSET` finds no waiter that its
  bitset leaves out, and no futex is moved to its own address.
-/

namespace GpuHotSpot.Common.SyscallServer

open Fallible

/-! ## What holds between the events -/

/-- The call that a waiter is in. -/
def Waiter.call (w : Waiter) : Queue → Call
  | .sleeping => .sleep w.timeout
  | .futex _ => .futexWait w.timeout

/-- The time until which a call waits. -/
def Call.timeout : Call → SubsecondTime
  | .futexWait timeout => timeout
  | .sleep wakeTime => wakeTime

theorem Waiter.timeout_call (w : Waiter) (q : Queue) : (w.call q).timeout = w.timeout := by
  cases q <;> rfl

/-- The threads of a queue. -/
def Server.threads (s : Server) (q : Queue) : List ℕ := (s.waiting q).map Waiter.threadId

/-- Each stalled thread is in one queue, because of the call that it is in. -/
structure Invariant (s : Server) : Prop where
  oneQueue : OneQueue s.threads fun t => s.calls t ≠ none
  waits : ∀ q, ∀ w ∈ s.waiting q, s.calls w.threadId = some (w.call q)

theorem Invariant.start : Invariant Server.start where
  oneQueue := OneQueue.empty (fun _ => rfl) fun _ stalled => stalled rfl
  waits q w waits := by cases waits

section Steps

variable {s s' s'' : Server} {q : Queue} {w : Waiter} {t : ℕ} {time : SubsecondTime} {msg : Bool}
  {found : Waiter → Bool}

theorem Invariant.congr (inv : Invariant s) (waiting : s'.waiting = s.waiting)
    (calls : s'.calls = s.calls) : Invariant s' where
  oneQueue := inv.oneQueue.congr (fun q => by rw [Server.threads, Server.threads, waiting])
    fun t => by rw [calls]
  waits q w here := by
    rw [waiting] at here
    rw [calls]
    exact inv.waits q w here

theorem Invariant.nodup (inv : Invariant s) (q : Queue) : (s.waiting q).Nodup :=
  List.Nodup.of_map _ (inv.oneQueue.once q)

theorem threads_setWaiting (ws : List Waiter) :
    (s.setWaiting q ws).threads = Function.update s.threads q (ws.map Waiter.threadId) := by
  funext r
  by_cases same : r = q
  · subst same
    simp [Server.threads, Server.setWaiting]
  · simp [Server.threads, Server.setWaiting, same]

/-! ## Stalling -/

/-- **Waiting.** A running thread is put at the end of a queue. -/
theorem enqueue_spec (inv : Invariant s) (running : s.calls w.threadId = none) (q : Queue) :
    Invariant (enqueue q w (w.call q) s) := by
  have asleep : ¬ s.calls w.threadId ≠ none := by simp [running]
  refine ⟨(inv.oneQueue.join asleep q).congr (fun r => ?_)
    fun u => update_some_iff s.calls w.threadId u _, fun r v here => ?_⟩
  · change (s.setWaiting q (s.waiting q ++ [w])).threads r = _
    rw [threads_setWaiting, List.map_append]
    rfl
  · have old : ∀ r, ∀ v ∈ s.waiting r,
        Function.update s.calls w.threadId (some (w.call q)) v.threadId = some (v.call r) := by
      intro r v member
      have waits := inv.waits r v member
      refine (Function.update_of_ne ?_ _ _).trans waits
      intro same
      rw [same, running] at waits
      cases waits
    change v ∈ Function.update s.waiting q (s.waiting q ++ [w]) r at here
    change Function.update s.calls w.threadId (some (w.call q)) v.threadId = some (v.call r)
    by_cases same : r = q
    · subst same
      rw [Function.update_self] at here
      rcases List.mem_append.1 here with member | last
      · exact old r v member
      · rw [List.mem_singleton] at last
        subst last
        exact Function.update_self ..
    · rw [Function.update_of_ne same] at here
      exact old r v here

/-! ## Resuming -/

/-- Threads that were stalled return from their calls, each of them once. -/
structure Resumes (due : Call → Reply → Prop) (added : List (ℕ × Reply)) (s s' : Server) :
    Prop where
  returned : s'.returned = s.returned ++ added
  calls : ∀ t, s'.calls t = if t ∈ added.map Prod.fst then none else s.calls t
  once : (added.map Prod.fst).Nodup
  due : ∀ x ∈ added, ∃ call, s.calls x.1 = some call ∧ due call x.2

theorem Resumes.refl (due : Call → Reply → Prop) (s : Server) : Resumes due [] s s where
  returned := (List.append_nil _).symm
  calls _ := rfl
  once := List.nodup_nil
  due x here := by cases here

theorem Resumes.trans {due : Call → Reply → Prop} {added more : List (ℕ × Reply)}
    (first : Resumes due added s s') (second : Resumes due more s' s'') :
    Resumes due (added ++ more) s s'' := by
  have earlier : ∀ x ∈ more, x.1 ∉ added.map Prod.fst ∧
      ∃ call, s.calls x.1 = some call ∧ due call x.2 := by
    intro x member
    obtain ⟨call, calls, holds⟩ := second.due x member
    rw [first.calls] at calls
    by_cases gone : x.1 ∈ added.map Prod.fst
    · rw [if_pos gone] at calls
      cases calls
    · rw [if_neg gone] at calls
      exact ⟨gone, call, calls, holds⟩
  refine ⟨?_, fun t => ?_, ?_, fun x member => ?_⟩
  · rw [second.returned, first.returned, List.append_assoc]
  · rw [second.calls, first.calls, List.map_append]
    by_cases late : t ∈ more.map Prod.fst
    · rw [if_pos late, if_pos (List.mem_append_right _ late)]
    · rw [if_neg late]
      by_cases soon : t ∈ added.map Prod.fst
      · rw [if_pos soon, if_pos (List.mem_append_left _ soon)]
      · rw [if_neg soon, if_neg]
        exact fun here => (List.mem_append.1 here).elim soon late
  · rw [List.map_append]
    refine List.nodup_append.2 ⟨first.once, second.once, ?_⟩
    rintro t soon u late rfl
    obtain ⟨x, member, rfl⟩ := List.mem_map.1 late
    exact (earlier x member).1 soon
  · rcases List.mem_append.1 member with soon | late
    · exact first.due x soon
    · exact (earlier x late).2

theorem resumeFirst_none (nobody : (s.waiting q).find? found = none) :
    resumeFirst q found msg time s = (s, none) := by
  simp only [resumeFirst, nobody]

/-- **Resuming the first waiter.** It leaves its queue and returns; the others stay in order. -/
theorem resumeFirst_some (inv : Invariant s) {due : Call → Reply → Prop}
    (first : (s.waiting q).find? found = some w) (holds : due (w.call q) ((w.call q).reply msg time)) :
    ∃ s', resumeFirst q found msg time s = (s', some w.threadId) ∧ Invariant s' ∧
      s'.waiting = Function.update s.waiting q ((s.waiting q).eraseP found) ∧
      s'.stored = s.stored ∧ Resumes due [(w.threadId, (w.call q).reply msg time)] s s' := by
  obtain ⟨before, after, split, erased, -, -⟩ := find?_split first
  have calls : s.calls w.threadId = some (w.call q) :=
    inv.waits q w (by rw [split]; exact List.mem_append_right _ List.mem_cons_self)
  have threads : s.threads q =
      before.map Waiter.threadId ++ w.threadId :: after.map Waiter.threadId := by
    rw [Server.threads, split, List.map_append, List.map_cons]
  let s' : Server := { s with
    waiting := Function.update s.waiting q ((s.waiting q).eraseP found)
    calls := Function.update s.calls w.threadId none
    returned := s.returned ++ [(w.threadId, (w.call q).reply msg time)] }
  have one : OneQueue s'.threads fun t => s'.calls t ≠ none := by
    refine (inv.oneQueue.remove threads).congr (fun r => ?_)
      fun u => update_none_iff s.calls w.threadId u
    rw [← List.map_append, ← erased]
    exact congrFun (threads_setWaiting _) r
  refine ⟨s', ?_, ⟨one, fun r v here => ?_⟩, rfl, rfl, ⟨rfl, fun t => ?_,
    List.nodup_singleton _, fun x member => ?_⟩⟩
  · simp only [resumeFirst, first, Server.resumeThread, Server.setWaiting, calls, Server.answer, s']
  · have still : s'.calls v.threadId ≠ none :=
      (one.stalled_iff v.threadId).2 ⟨r, List.mem_map_of_mem here⟩
    have old : v ∈ s.waiting r := by
      by_cases same : r = q
      · subst same
        have kept : v ∈ Function.update s.waiting r ((s.waiting r).eraseP found) r := here
        rw [Function.update_self] at kept
        exact List.mem_of_mem_eraseP kept
      · have kept : v ∈ Function.update s.waiting q ((s.waiting q).eraseP found) r := here
        rwa [Function.update_of_ne same] at kept
    exact (update_none_same still).trans (inv.waits r v old)
  · by_cases same : t = w.threadId
    · subst same
      simp [s']
    · simp [s', same]
  · rw [List.mem_singleton] at member
    subst member
    exact ⟨w.call q, calls, holds⟩

/-! ## Waking -/

/-- The waiters that a wake takes, and those that it leaves. -/
abbrev taken (mask : BitVec 32) (n : ℕ) (ws : List Waiter) : List Waiter :=
  selected (Waiter.intersects mask) n ws

abbrev left (mask : BitVec 32) (n : ℕ) (ws : List Waiter) : List Waiter :=
  unselected (Waiter.intersects mask) n ws

/-- What a waiter that is woken returns. -/
def woken (time : SubsecondTime) (w : Waiter) : ℕ × Reply := (w.threadId, .futex 0 time)

/-- A wake lets futex calls return with success. -/
def ByWake (call : Call) (reply : Reply) : Prop :=
  (∃ timeout, call = .futexWait timeout) ∧ ∃ endTime, reply = .futex 0 endTime

/-- **Waking.** The first `n` waiters whose bitset intersects are woken. -/
theorem wakeUp_spec (a : ℕ) (mask : BitVec 32) (time : SubsecondTime) (n : ℕ) (inv : Invariant s) :
    Invariant (wakeUp a mask time n s).1 ∧ (wakeUp a mask time n s).1.waiting =
        Function.update s.waiting (.futex a) (left mask n (s.waiting (.futex a))) ∧
      (wakeUp a mask time n s).1.stored = s.stored ∧
      Resumes ByWake ((taken mask n (s.waiting (.futex a))).map (woken time)) s
        (wakeUp a mask time n s).1 ∧
      (wakeUp a mask time n s).2 = (taken mask n (s.waiting (.futex a))).length := by
  induction n generalizing s with
  | zero =>
    refine ⟨inv, ?_, rfl, Resumes.refl ByWake s, rfl⟩
    rw [left, unselected_of_nil (selected_zero _ _), Function.update_eq_self]
    rfl
  | succ n ih =>
    cases first : (s.waiting (.futex a)).find? (Waiter.intersects mask) with
    | none =>
      have nobody : taken mask (n + 1) (s.waiting (.futex a)) = [] := selected_of_none first
      have stays : wakeUp a mask time (n + 1) s = (s, 0) := by
        simp only [wakeUp, dequeueWaiter, resumeFirst_none first]
      rw [stays, nobody, left, unselected_of_nil nobody, Function.update_eq_self]
      exact ⟨inv, rfl, rfl, Resumes.refl ByWake s, rfl⟩
    | some w =>
      have holds : ByWake (w.call (.futex a)) ((w.call (.futex a)).reply true time) :=
        ⟨⟨_, rfl⟩, _, rfl⟩
      obtain ⟨s₁, ran, inv₁, waiting, stored, resumes⟩ := resumeFirst_some inv first holds
      obtain ⟨inv₂, waiting₂, stored₂, resumes₂, count⟩ := ih inv₁
      have here : s₁.waiting (.futex a) =
          (s.waiting (.futex a)).eraseP (Waiter.intersects mask) := by
        rw [waiting, Function.update_self]
      rw [here] at waiting₂ resumes₂ count
      have next : wakeUp a mask time (n + 1) s =
          ((wakeUp a mask time n s₁).1, (wakeUp a mask time n s₁).2 + 1) := by
        simp only [wakeUp, dequeueWaiter, ran]
      rw [next]
      refine ⟨inv₂, ?_, stored₂.trans stored, ?_, ?_⟩
      · rw [waiting₂, waiting, Function.update_idem, left, left,
          unselected_succ (inv.nodup _) first]
      · rw [taken, selected_succ first]
        exact resumes.trans resumes₂
      · rw [taken, selected_succ first, List.length_cons, count]

/-! ## Moving -/

/-- The queues after the waiters of one futex are moved to another one. -/
def moved (waiting : Queue → List Waiter) (source target : ℕ) : Queue → List Waiter :=
  Function.update (Function.update waiting (.futex source) []) (.futex target)
    (Function.update waiting (.futex source) [] (.futex target) ++ waiting (.futex source))

/-- **Moving.** The waiters of a futex follow those of another one, in the same order. -/
theorem requeue_ends {source target : ℕ} (apart : source ≠ target) (ws : List Waiter)
    (inv : Invariant s) (here : s.waiting (.futex source) = ws) :
    ∃ s', requeue source target (ws.length + 1) s = .ok s' ∧ Invariant s' ∧
      s'.waiting = moved s.waiting source target ∧ s'.calls = s.calls ∧
      s'.returned = s.returned ∧ s'.stored = s.stored := by
  have other : Queue.futex target ≠ .futex source := fun same => by
    cases same
    exact apart rfl
  induction ws generalizing s with
  | nil =>
    refine ⟨s, ?_, inv, ?_, rfl, rfl, rfl⟩
    · simp only [requeue, requeueWaiter, here]
    · rw [moved, here, List.append_nil, Function.update_eq_self, ← here,
        Function.update_eq_self]
  | cons w ws ih =>
    let s₁ : Server :=
      (s.setWaiting (.futex source) ws).setWaiting (.futex target)
        (s.waiting (.futex target) ++ [w])
    have first : s.threads (.futex source) = w.threadId :: ws.map Waiter.threadId := by
      rw [Server.threads, here, List.map_cons]
    have inv₁ : Invariant s₁ := by
      refine ⟨(inv.oneQueue.move first other).congr (fun r => ?_) fun _ => Iff.rfl,
        fun r v member => ?_⟩
      · change ((s.setWaiting (.futex source) ws).setWaiting (.futex target)
          (s.waiting (.futex target) ++ [w])).threads r = _
        rw [threads_setWaiting, threads_setWaiting, List.map_append]
        rfl
      · change v ∈ Function.update (Function.update s.waiting (.futex source) ws) (.futex target)
          (s.waiting (.futex target) ++ [w]) r at member
        by_cases isTarget : r = .futex target
        · subst isTarget
          rw [Function.update_self] at member
          rcases List.mem_append.1 member with old | last
          · exact inv.waits _ v old
          · rw [List.mem_singleton] at last
            subst last
            exact inv.waits (.futex source) v (by rw [here]; exact List.mem_cons_self)
        · rw [Function.update_of_ne isTarget] at member
          by_cases isSource : r = .futex source
          · subst isSource
            rw [Function.update_self] at member
            exact inv.waits _ v (by rw [here]; exact List.mem_cons_of_mem w member)
          · rw [Function.update_of_ne isSource] at member
            exact inv.waits r v member
    have here₁ : s₁.waiting (.futex source) = ws := by
      change Function.update (Function.update s.waiting (.futex source) ws) (.futex target) _
        (.futex source) = ws
      rw [Function.update_of_ne other.symm, Function.update_self]
    obtain ⟨s', ran, inv', waiting, calls, returned, stored⟩ := ih inv₁ here₁
    refine ⟨s', ?_, inv', ?_, calls, returned, stored⟩
    · rw [List.length_cons, requeue, requeueWaiter, here]
      simp only [Server.setWaiting, Function.update_of_ne other]
      exact ran
    · rw [waiting]
      funext r
      simp only [moved, here, here₁]
      simp only [s₁, Server.setWaiting]
      by_cases isTarget : r = .futex target
      · subst isTarget
        simp [Function.update_of_ne other]
      · by_cases isSource : r = .futex source
        · subst isSource
          simp [Function.update_of_ne isTarget]
        · simp [Function.update_of_ne isTarget, Function.update_of_ne isSource]

/-- The loop ends at once when the futex has no waiters. -/
theorem requeue_nil {source target : ℕ} (nobody : s.waiting (.futex source) = []) (rounds : ℕ) :
    requeue source target (rounds + 1) s = .ok s := by
  simp only [requeue, requeueWaiter, nobody]

/-- The loop does not end when it moves waiters to the futex that it takes them from. -/
theorem requeue_never_ends (source rounds : ℕ) (someone : s.waiting (.futex source) ≠ []) :
    requeue source source rounds s = .error .neverEnds := by
  induction rounds generalizing s with
  | zero => rfl
  | succ rounds ih =>
    cases here : s.waiting (.futex source) with
    | nil => exact absurd here someone
    | cons w ws =>
      simp only [requeue, requeueWaiter, here]
      refine ih ?_
      simp [Server.setWaiting]

/-- **Termination.** The loop ends exactly if it moves the waiters to another futex, or there are
none. -/
theorem exists_requeue_iff (source target : ℕ) (s : Server) :
    (∃ rounds s', requeue source target rounds s = .ok s') ↔
      source ≠ target ∨ s.waiting (.futex source) = [] := by
  constructor
  · rintro ⟨rounds, s', ends⟩
    by_contra! ⟨same, someone⟩
    subst same
    rw [requeue_never_ends source rounds someone] at ends
    cases ends
  · intro either
    generalize here : s.waiting (.futex source) = ws
    refine ⟨ws.length + 1, ?_⟩
    induction ws generalizing s with
    | nil => exact ⟨s, requeue_nil here 0⟩
    | cons w ws ih =>
      have apart : source ≠ target := either.resolve_right (by simp [here])
      have other : Queue.futex source ≠ .futex target := fun same => apart (Queue.futex.inj same)
      rw [List.length_cons, requeue, requeueWaiter, here]
      refine ih _ (.inl apart) ?_
      simp [Server.setWaiting, Function.update_of_ne other]

/-- A futex without waiters has none to move. -/
theorem moved_nil {waiting : Queue → List Waiter} {source : ℕ}
    (nobody : waiting (.futex source) = []) (target : ℕ) :
    moved waiting source target = waiting := by
  rw [moved, nobody, List.append_nil, Function.update_eq_self, ← nobody, Function.update_eq_self]

/-! ## Timeouts -/

/-- A periodic check lets calls return whose time is over. -/
def ByTimeout (now : SubsecondTime) (call : Call) (reply : Reply) : Prop :=
  call.timeout ≤ now ∧ reply = call.reply false now

variable (time) in
/-- **Timeouts.** At most one waiter of a queue returns, and its time is over. -/
theorem wakeTimedOut_spec (inv : Invariant s) (q : Queue) :
    Invariant (wakeTimedOut q time s) ∧
      (∀ r, ((wakeTimedOut q time s).waiting r).Sublist (s.waiting r)) ∧
      ∃ added, Resumes (ByTimeout time) added s (wakeTimedOut q time s) := by
  unfold wakeTimedOut
  cases first : (s.waiting q).find? (Waiter.timedOut time) with
  | none =>
    rw [resumeFirst_none first]
    exact ⟨inv, fun r => List.Sublist.refl _, [], Resumes.refl _ s⟩
  | some w =>
    have matched : Waiter.timedOut time w = true := List.find?_some first
    have late : w.timeout ≤ time := of_decide_eq_true matched
    have holds : ByTimeout time (w.call q) ((w.call q).reply false time) :=
      ⟨by rw [w.timeout_call]; exact late, rfl⟩
    obtain ⟨s', ran, inv', waiting, -, resumes⟩ := resumeFirst_some inv first holds
    rw [ran]
    refine ⟨inv', fun r => ?_, _, resumes⟩
    rw [waiting]
    by_cases same : r = q
    · subst same
      rw [Function.update_self]
      exact List.eraseP_sublist
    · rw [Function.update_of_ne same]

variable (time) in
/-- **The periodic check.** -/
theorem futexPeriodic_spec (inv : Invariant s) (addresses : List ℕ) :
    Invariant (futexPeriodic time addresses s) ∧
      (∀ r, ((futexPeriodic time addresses s).waiting r).Sublist (s.waiting r)) ∧
      ∃ added, Resumes (ByTimeout time) added s (futexPeriodic time addresses s) := by
  suffices loop : ∀ s₁ added₁, Invariant s₁ → (∀ r, (s₁.waiting r).Sublist (s.waiting r)) →
      Resumes (ByTimeout time) added₁ s s₁ →
      let s₂ := addresses.foldl (fun s a => wakeTimedOut (.futex a) time s) s₁
      Invariant s₂ ∧ (∀ r, (s₂.waiting r).Sublist (s.waiting r)) ∧
        ∃ added, Resumes (ByTimeout time) added s s₂ by
    obtain ⟨inv₁, kept, added, resumes⟩ := wakeTimedOut_spec time inv .sleeping
    exact loop _ added inv₁ kept resumes
  induction addresses with
  | nil => exact fun s₁ added inv₁ kept resumes => ⟨inv₁, kept, added, resumes⟩
  | cons a addresses ih =>
    intro s₁ added inv₁ kept resumes
    obtain ⟨inv₂, kept₂, more, resumes₂⟩ := wakeTimedOut_spec time inv₁ (.futex a)
    exact ih _ _ inv₂ (fun r => (kept₂ r).trans (kept r)) (resumes.trans resumes₂)

/-! ## Events -/

/-- The thread that makes a call. -/
def Event.caller : Event → Option ℕ
  | .futex t _ _ _ => some t
  | .sleep t _ _ => some t
  | .periodic _ _ => none

/-- How the calls of other threads can end: with success by a wake, or when their time is over. -/
def Event.Due : Event → Call → Reply → Prop
  | .futex _ _ _ _ => ByWake
  | .sleep _ _ _ => fun _ _ => False
  | .periodic time _ => ByTimeout time

/-- The bitset of a wake: that of the caller for `FUTEX_WAKE_BITSET`, and all bits otherwise. -/
def FutexArgs.wakeMask (args : FutexArgs) : BitVec 32 :=
  if args.cmd = FUTEX_WAKE_BITSET then args.val3 else FUTEX_BITSET_MATCH_ANY

/-- The bitset of a wait. -/
def FutexArgs.waitMask (args : FutexArgs) : BitVec 32 :=
  if args.cmd = FUTEX_WAIT_BITSET then args.val3 else FUTEX_BITSET_MATCH_ANY

/-- The queues after a wake. -/
def afterWake (waiting : Queue → List Waiter) (a : ℕ) (mask : BitVec 32) (n : ℕ) :
    Queue → List Waiter :=
  Function.update waiting (.futex a) (left mask n (waiting (.futex a)))

variable (osEmuTimeStart : UInt64) in
/-- What a futex call does to the queues, and what it returns. -/
structure CallEffect (t : ℕ) (args : FutexArgs) (env : Environment) (now : SubsecondTime)
    (s s' : Server) : Prop where
  wait : args.cmd = FUTEX_WAIT ∨ args.cmd = FUTEX_WAIT_BITSET → args.val = env.actVal →
    s'.calls t = some (.futexWait (timeoutTime osEmuTimeStart args now)) ∧
    s'.waiting = Function.update s.waiting (.futex (env.va2pa args.uaddr))
      (s.waiting (.futex (env.va2pa args.uaddr)) ++
        [⟨t, args.waitMask, timeoutTime osEmuTimeStart args now⟩])
  wake : args.cmd = FUTEX_WAKE ∨ args.cmd = FUTEX_WAKE_BITSET →
    s'.waiting = afterWake s.waiting (env.va2pa args.uaddr) args.wakeMask (rounds args.val) ∧
    ∃ time endTime, s'.returned =
      (taken args.wakeMask (rounds args.val) (s.waiting (.futex (env.va2pa args.uaddr)))).map
        (woken time) ++
      [(t, .futex (taken args.wakeMask (rounds args.val)
        (s.waiting (.futex (env.va2pa args.uaddr)))).length endTime)]
  wakeOp : args.cmd = FUTEX_WAKE_OP → ∃ newVal ret,
    futexDoOp args.val3 env.oldVal = .ok (newVal, ret) ∧ s'.stored = some newVal ∧
    let first := afterWake s.waiting (env.va2pa args.uaddr) FUTEX_BITSET_MATCH_ANY (rounds args.val)
    let more := if ret then rounds args.val2 else 0
    let one := taken FUTEX_BITSET_MATCH_ANY (rounds args.val)
      (s.waiting (.futex (env.va2pa args.uaddr)))
    let two := taken FUTEX_BITSET_MATCH_ANY more (first (.futex (env.va2pa args.uaddr2)))
    s'.waiting = afterWake first (env.va2pa args.uaddr2) FUTEX_BITSET_MATCH_ANY more ∧
    ∃ time endTime, s'.returned = (one ++ two).map (woken time) ++
      [(t, .futex (one ++ two).length endTime)]
  requeue : args.cmd = FUTEX_CMP_REQUEUE → args.val3 = env.actVal →
    s'.waiting = moved (afterWake s.waiting (env.va2pa args.uaddr) FUTEX_BITSET_MATCH_ANY
      (rounds args.val)) (env.va2pa args.uaddr) (env.va2pa args.uaddr2) ∧
    ∃ time endTime, s'.returned =
      (taken FUTEX_BITSET_MATCH_ANY (rounds args.val)
        (s.waiting (.futex (env.va2pa args.uaddr)))).map (woken time) ++
      [(t, .futex (taken FUTEX_BITSET_MATCH_ANY (rounds args.val)
        (s.waiting (.futex (env.va2pa args.uaddr)))).length endTime)]

variable (osEmuTimeStart : UInt64) in
/-- What an event does to the queues. -/
def Effect (s s' : Server) : Event → Prop
  | .futex t args env now => CallEffect osEmuTimeStart t args env now s s'
  | .sleep t wakeTime _ => s'.calls t = some (.sleep wakeTime) ∧
      s'.waiting = Function.update s.waiting .sleeping (s.waiting .sleeping ++ [⟨t, 0, wakeTime⟩])
  | .periodic _ _ => ∀ q, (s'.waiting q).Sublist (s.waiting q)

variable (osEmuTimeStart : UInt64) in
/-- What an event does: a thread that is resumed returns once from the call that it was in, for a
reason that the event gives. -/
structure Discipline (e : Event) (s s' : Server) : Prop where
  stays : ∀ t call, s.calls t = some call → s'.calls t = some call ∨ s'.calls t = none
  returns : ∀ t call, s.calls t = some call → s'.calls t = none →
    ∃ reply, (t, reply) ∈ s'.returned
  once : (s'.returned.map Prod.fst).Nodup
  answers : ∀ t reply, (t, reply) ∈ s'.returned → e.caller = some t ∨
    ∃ call, s.calls t = some call ∧ s'.calls t = none ∧ e.Due call reply
  effect : Effect osEmuTimeStart s s' e

variable {osEmuTimeStart : UInt64} in
/-- The discipline of an event that resumes threads and then stalls or answers its caller. -/
theorem Discipline.of_resumes {e : Event} {s₁ : Server} {added own : List (ℕ × Reply)}
    (running : ∀ t, e.caller = some t → s.calls t = none) (resumes : Resumes e.Due added s.fresh s₁)
    (calls : ∀ t, e.caller ≠ some t → s'.calls t = s₁.calls t)
    (returned : s'.returned = s₁.returned ++ own)
    (answer : own = [] ∨ ∃ t reply, e.caller = some t ∧ own = [(t, reply)])
    (effect : Effect osEmuTimeStart s s' e) : Discipline osEmuTimeStart e s s' := by
  have other : ∀ t call, s.calls t = some call → e.caller ≠ some t := by
    intro t call stalled same
    rw [running t same] at stalled
    cases stalled
  have all : s'.returned = added ++ own := by
    rw [returned, resumes.returned]
    rfl
  have gone : ∀ t call, s.calls t = some call →
      s'.calls t = if t ∈ added.map Prod.fst then none else some call := by
    intro t call stalled
    rw [calls t (other t call stalled), resumes.calls, ← stalled]
    rfl
  have stalledBefore : ∀ t ∈ added.map Prod.fst, ∃ call, s.calls t = some call := by
    intro t member
    obtain ⟨x, here, rfl⟩ := List.mem_map.1 member
    obtain ⟨call, stalled, _⟩ := resumes.due x here
    exact ⟨call, stalled⟩
  refine ⟨fun t call stalled => ?_, fun t call stalled resumed => ?_, ?_, fun t reply member => ?_,
    effect⟩
  · rw [gone t call stalled]
    by_cases member : t ∈ added.map Prod.fst
    · exact .inr (if_pos member)
    · exact .inl (if_neg member)
  · rw [gone t call stalled] at resumed
    by_cases member : t ∈ added.map Prod.fst
    · obtain ⟨⟨u, reply⟩, here, rfl⟩ := List.mem_map.1 member
      exact ⟨reply, by rw [all]; exact List.mem_append_left _ here⟩
    · rw [if_neg member] at resumed
      cases resumed
  · rw [all, List.map_append]
    rcases answer with rfl | ⟨t, reply, isCaller, rfl⟩
    · rw [List.map_nil, List.append_nil]
      exact resumes.once
    · refine List.nodup_append.2 ⟨resumes.once, List.nodup_singleton _, ?_⟩
      rintro u member v last rfl
      obtain ⟨call, stalled⟩ := stalledBefore u member
      obtain rfl : u = t := List.mem_singleton.1 last
      exact other u call stalled isCaller
  · rw [all] at member
    rcases List.mem_append.1 member with here | last
    · obtain ⟨call, stalled, due⟩ := resumes.due _ here
      refine .inr ⟨call, stalled, ?_, due⟩
      rw [gone t call stalled, if_pos (List.mem_map_of_mem here)]
    · rcases answer with rfl | ⟨u, own, isCaller, rfl⟩
      · cases last
      · rw [List.mem_singleton] at last
        cases last
        exact .inl isCaller

/-- What the callers keep to, and the calls whose waiters the server takes as it should: a stalled
thread makes no call, a `FUTEX_WAKE_BITSET` would wake the same waiters with all bits, and a futex is
not moved to its own address while it has waiters. -/
structure ProperCall (s : Server) (t : ℕ) (args : FutexArgs) (env : Environment) : Prop where
  running : s.calls t = none
  bitset : args.cmd = FUTEX_WAKE_BITSET →
    taken FUTEX_BITSET_MATCH_ANY (rounds args.val) (s.waiting (.futex (env.va2pa args.uaddr))) =
      taken args.val3 (rounds args.val) (s.waiting (.futex (env.va2pa args.uaddr)))
  apart : args.cmd = FUTEX_CMP_REQUEUE → args.val3 = env.actVal →
    env.va2pa args.uaddr = env.va2pa args.uaddr2 →
      left FUTEX_BITSET_MATCH_ANY (rounds args.val)
        (s.waiting (.futex (env.va2pa args.uaddr))) = []

def Proper (s : Server) : Event → Prop
  | .futex t args env _ => ProperCall s t args env
  | .sleep t _ _ => s.calls t = none
  | .periodic _ _ => True

/-- The calls that the assertions of the server let pass. -/
structure Supported (args : FutexArgs) (env : Environment) : Prop where
  cmd : args.cmd = FUTEX_WAIT ∨ args.cmd = FUTEX_WAIT_BITSET ∨ args.cmd = FUTEX_WAKE ∨
    args.cmd = FUTEX_WAKE_BITSET ∨ args.cmd = FUTEX_WAKE_OP ∨ args.cmd = FUTEX_CMP_REQUEUE
  wakeOp : args.cmd = FUTEX_WAKE_OP → ∃ u, futexDoOp args.val3 env.oldVal = .ok u
  requeue : args.cmd = FUTEX_CMP_REQUEUE → args.uaddr ≠ args.uaddr2

variable {rescheduleCost : SubsecondTime} {osEmuTimeStart : UInt64} {args : FutexArgs}
  {env : Environment} {now : SubsecondTime}

/-- **`FUTEX_WAIT`, `FUTEX_WAIT_BITSET`.** -/
theorem futexWait_spec (inv : Invariant s) (running : s.calls t = none)
    (isWait : args.cmd = FUTEX_WAIT ∨ args.cmd = FUTEX_WAIT_BITSET) :
    let s' := futexWait osEmuTimeStart t args env args.waitMask now s.fresh
    Invariant s' ∧ Discipline osEmuTimeStart (.futex t args env now) s s' := by
  have noWake : ¬ (args.cmd = FUTEX_WAKE ∨ args.cmd = FUTEX_WAKE_BITSET) := by
    rcases isWait with same | same <;> rw [same] <;> decide
  have noWakeOp : args.cmd ≠ FUTEX_WAKE_OP := by
    rcases isWait with same | same <;> rw [same] <;> decide
  have noRequeue : args.cmd ≠ FUTEX_CMP_REQUEUE := by
    rcases isWait with same | same <;> rw [same] <;> decide
  have callers : ∀ u, (Event.futex t args env now).caller = some u → s.calls u = none := by
    rintro u ⟨⟩
    exact running
  unfold futexWait
  by_cases changed : args.val ≠ env.actVal
  · rw [if_pos changed]
    exact ⟨inv.congr rfl rfl, .of_resumes callers (Resumes.refl _ s.fresh) (fun _ _ => rfl) rfl
      (.inr ⟨t, _, rfl, rfl⟩) ⟨fun _ same => absurd same changed, fun h => absurd h noWake,
        fun h => absurd h noWakeOp, fun h => absurd h noRequeue⟩⟩
  · rw [if_neg changed]
    have inv₀ : Invariant s.fresh := inv.congr rfl rfl
    refine ⟨enqueue_spec inv₀ (w := ⟨t, args.waitMask, timeoutTime osEmuTimeStart args now⟩)
      running (.futex (env.va2pa args.uaddr)), .of_resumes callers (Resumes.refl _ s.fresh)
      (fun u other => Function.update_of_ne ?_ _ _) (List.append_nil _).symm (.inl rfl)
      ⟨fun _ _ => ⟨Function.update_self .., rfl⟩, fun h => absurd h noWake,
        fun h => absurd h noWakeOp, fun h => absurd h noRequeue⟩⟩
    rintro rfl
    exact other rfl

/-- **`FUTEX_WAKE`, `FUTEX_WAKE_BITSET`.** -/
theorem futexWake_spec (inv : Invariant s) (proper : ProperCall s t args env)
    (isWake : args.cmd = FUTEX_WAKE ∨ args.cmd = FUTEX_WAKE_BITSET) :
    let s' := futexWake rescheduleCost t args env FUTEX_BITSET_MATCH_ANY now s.fresh
    Invariant s' ∧ Discipline osEmuTimeStart (.futex t args env now) s s' := by
  have noWait : ¬ (args.cmd = FUTEX_WAIT ∨ args.cmd = FUTEX_WAIT_BITSET) := by
    rcases isWake with same | same <;> rw [same] <;> decide
  have noWakeOp : args.cmd ≠ FUTEX_WAKE_OP := by
    rcases isWake with same | same <;> rw [same] <;> decide
  have noRequeue : args.cmd ≠ FUTEX_CMP_REQUEUE := by
    rcases isWake with same | same <;> rw [same] <;> decide
  have callers : ∀ u, (Event.futex t args env now).caller = some u → s.calls u = none := by
    rintro u ⟨⟩
    exact proper.running
  have same : taken FUTEX_BITSET_MATCH_ANY (rounds args.val)
      (s.waiting (.futex (env.va2pa args.uaddr))) =
      taken args.wakeMask (rounds args.val) (s.waiting (.futex (env.va2pa args.uaddr))) := by
    by_cases isBitset : args.cmd = FUTEX_WAKE_BITSET
    · rw [FutexArgs.wakeMask, if_pos isBitset]
      exact proper.bitset isBitset
    · rw [FutexArgs.wakeMask, if_neg isBitset]
  have sameLeft : left FUTEX_BITSET_MATCH_ANY (rounds args.val)
      (s.waiting (.futex (env.va2pa args.uaddr))) =
      left args.wakeMask (rounds args.val) (s.waiting (.futex (env.va2pa args.uaddr))) :=
    unselected_congr same
  have inv₀ : Invariant s.fresh := inv.congr rfl rfl
  obtain ⟨inv', waiting, -, resumes, count⟩ := wakeUp_spec (env.va2pa args.uaddr)
    FUTEX_BITSET_MATCH_ANY (now + applyRescheduleCost rescheduleCost env true) (rounds args.val)
    inv₀
  cases ran : wakeUp (env.va2pa args.uaddr) FUTEX_BITSET_MATCH_ANY
      (now + applyRescheduleCost rescheduleCost env true) (rounds args.val) s.fresh with
  | mk s₁ k =>
    rw [ran] at inv' waiting resumes count
    simp only [futexWake, ran]
    refine ⟨inv'.congr rfl rfl, .of_resumes callers resumes (fun _ _ => rfl) rfl
      (.inr ⟨t, _, rfl, rfl⟩) ⟨fun h => absurd h noWait, fun _ => ⟨?_,
        now + applyRescheduleCost rescheduleCost env true,
        now + applyRescheduleCost rescheduleCost env (decide (k > 0)), ?_⟩,
        fun h => absurd h noWakeOp, fun h => absurd h noRequeue⟩⟩
    · exact waiting.trans (by rw [afterWake, ← sameLeft]; rfl)
    · rw [Server.answer, resumes.returned, ← same]
      exact congrArg (fun n : ℕ => _ ++ [(t, Reply.futex (n : ℤ) _)]) count

/-- **`FUTEX_WAKE_OP`.** -/
theorem futexWakeOp_spec (inv : Invariant s) (running : s.calls t = none)
    (isWakeOp : args.cmd = FUTEX_WAKE_OP)
    (ran : futexWakeOp rescheduleCost t args env now s.fresh = .ok s') :
    Invariant s' ∧ Discipline osEmuTimeStart (.futex t args env now) s s' := by
  have noWait : ¬ (args.cmd = FUTEX_WAIT ∨ args.cmd = FUTEX_WAIT_BITSET) := by
    rw [isWakeOp]
    decide
  have noWake : ¬ (args.cmd = FUTEX_WAKE ∨ args.cmd = FUTEX_WAKE_BITSET) := by
    rw [isWakeOp]
    decide
  have noRequeue : args.cmd ≠ FUTEX_CMP_REQUEUE := by
    rw [isWakeOp]
    decide
  have callers : ∀ u, (Event.futex t args env now).caller = some u → s.calls u = none := by
    rintro u ⟨⟩
    exact running
  obtain ⟨⟨newVal, ret⟩, op, rest⟩ := bind_ok.1 ran
  let s₀ : Server := { s.fresh with stored := some newVal }
  have inv₀ : Invariant s₀ := inv.congr rfl rfl
  obtain ⟨inv₁, waiting₁, stored₁, resumes₁, count₁⟩ := wakeUp_spec (env.va2pa args.uaddr)
    FUTEX_BITSET_MATCH_ANY (now + applyRescheduleCost rescheduleCost env true) (rounds args.val)
    inv₀
  cases first : wakeUp (env.va2pa args.uaddr) FUTEX_BITSET_MATCH_ANY
      (now + applyRescheduleCost rescheduleCost env true) (rounds args.val) s₀ with
  | mk s₁ one =>
    rw [first] at inv₁ waiting₁ stored₁ resumes₁ count₁
    obtain ⟨inv₂, waiting₂, stored₂, resumes₂, count₂⟩ := wakeUp_spec (env.va2pa args.uaddr2)
      FUTEX_BITSET_MATCH_ANY (now + applyRescheduleCost rescheduleCost env true)
      (if ret then rounds args.val2 else 0) inv₁
    cases second : wakeUp (env.va2pa args.uaddr2) FUTEX_BITSET_MATCH_ANY
        (now + applyRescheduleCost rescheduleCost env true)
        (if ret then rounds args.val2 else 0) s₁ with
    | mk s₂ two =>
      rw [second] at inv₂ waiting₂ stored₂ resumes₂ count₂
      simp only [s₀] at first
      simp only [first, second] at rest
      cases rest
      have between : s₁.waiting = afterWake s.waiting (env.va2pa args.uaddr)
          FUTEX_BITSET_MATCH_ANY (rounds args.val) := waiting₁
      rw [between] at waiting₂ resumes₂ count₂
      have resumes : Resumes ByWake _ s.fresh s₂ := Resumes.trans
        ⟨resumes₁.returned, resumes₁.calls, resumes₁.once, resumes₁.due⟩ resumes₂
      refine ⟨inv₂.congr rfl rfl, .of_resumes callers resumes (fun _ _ => rfl) rfl
        (.inr ⟨t, _, rfl, rfl⟩) ⟨fun h => absurd h noWait, fun h => absurd h noWake, fun _ =>
          ⟨newVal, ret, op, stored₂.trans stored₁, waiting₂,
            now + applyRescheduleCost rescheduleCost env true,
            now + applyRescheduleCost rescheduleCost env (decide (one + two > 0)), ?_⟩,
          fun h => absurd h noRequeue⟩⟩
      have counted : one + two = _ := congrArg₂ (· + ·) count₁ count₂
      rw [Server.answer, resumes.returned, List.map_append, List.length_append]
      exact congrArg (fun n : ℕ => _ ++ [(t, Reply.futex (n : ℤ) _)]) counted

variable (osEmuTimeStart now) in
/-- **`FUTEX_CMP_REQUEUE`.** -/
theorem futexCmpRequeue_spec (inv : Invariant s) (proper : ProperCall s t args env)
    (isRequeue : args.cmd = FUTEX_CMP_REQUEUE) :
    ∃ s', futexCmpRequeue t args env now s.fresh = .ok s' ∧
      Invariant s' ∧ Discipline osEmuTimeStart (.futex t args env now) s s' := by
  have noWait : ¬ (args.cmd = FUTEX_WAIT ∨ args.cmd = FUTEX_WAIT_BITSET) := by
    rw [isRequeue]
    decide
  have noWake : ¬ (args.cmd = FUTEX_WAKE ∨ args.cmd = FUTEX_WAKE_BITSET) := by
    rw [isRequeue]
    decide
  have noWakeOp : args.cmd ≠ FUTEX_WAKE_OP := by
    rw [isRequeue]
    decide
  have callers : ∀ u, (Event.futex t args env now).caller = some u → s.calls u = none := by
    rintro u ⟨⟩
    exact proper.running
  have inv₀ : Invariant s.fresh := inv.congr rfl rfl
  unfold futexCmpRequeue
  by_cases changed : args.val3 ≠ env.actVal
  · rw [if_pos changed]
    exact ⟨_, rfl, inv.congr rfl rfl, .of_resumes callers (Resumes.refl _ s.fresh)
      (fun _ _ => rfl) rfl (.inr ⟨t, _, rfl, rfl⟩) ⟨fun h => absurd h noWait,
        fun h => absurd h noWake, fun h => absurd h noWakeOp, fun _ same => absurd same changed⟩⟩
  · rw [if_neg changed]
    obtain ⟨inv₁, waiting₁, -, resumes₁, count₁⟩ := wakeUp_spec (env.va2pa args.uaddr)
      FUTEX_BITSET_MATCH_ANY now (rounds args.val) inv₀
    cases first : wakeUp (env.va2pa args.uaddr) FUTEX_BITSET_MATCH_ANY now (rounds args.val)
        s.fresh with
    | mk s₁ one =>
      rw [first] at inv₁ waiting₁ resumes₁ count₁
      have between : s₁.waiting = afterWake s.waiting (env.va2pa args.uaddr)
          FUTEX_BITSET_MATCH_ANY (rounds args.val) := waiting₁
      have moves : ∃ s₂, requeue (env.va2pa args.uaddr) (env.va2pa args.uaddr2)
          ((s₁.waiting (.futex (env.va2pa args.uaddr))).length + 1) s₁ = .ok s₂ ∧
          Invariant s₂ ∧
          s₂.waiting = moved s₁.waiting (env.va2pa args.uaddr) (env.va2pa args.uaddr2) ∧
          s₂.calls = s₁.calls ∧ s₂.returned = s₁.returned := by
        by_cases same : env.va2pa args.uaddr = env.va2pa args.uaddr2
        · have nobody : s₁.waiting (.futex (env.va2pa args.uaddr)) = [] := by
            rw [between, afterWake, Function.update_self]
            exact proper.apart isRequeue (not_not.1 changed) same
          exact ⟨s₁, requeue_nil nobody _, inv₁, (moved_nil nobody _).symm, rfl, rfl⟩
        · obtain ⟨s₂, ran, inv₂, waiting₂, calls₂, returned₂, -⟩ :=
            requeue_ends same _ inv₁ rfl
          exact ⟨s₂, ran, inv₂, waiting₂, calls₂, returned₂⟩
      obtain ⟨s₂, ran, inv₂, waiting₂, calls₂, returned₂⟩ := moves
      simp only [first, ran, ok_bind]
      refine ⟨_, rfl, inv₂.congr rfl rfl, .of_resumes callers resumes₁
        (fun u _ => congrFun calls₂ u) (by rw [Server.answer, returned₂])
        (.inr ⟨t, _, rfl, rfl⟩) ⟨fun h => absurd h noWait, fun h => absurd h noWake,
          fun h => absurd h noWakeOp, fun _ _ => ⟨?_, now, now, ?_⟩⟩⟩
      · rw [← between]
        exact waiting₂
      · rw [Server.answer, returned₂, resumes₁.returned]
        exact congrArg (fun n : ℕ => _ ++ [(t, Reply.futex (n : ℤ) now)]) count₁

/-- **A futex call.** It fails only by the assertions of the server. -/
theorem handleFutexCall_spec (inv : Invariant s) (proper : ProperCall s t args env) :
    (Supported args env → ∃ s',
      handleFutexCall rescheduleCost osEmuTimeStart t args env now s.fresh = .ok s') ∧
    ∀ s', handleFutexCall rescheduleCost osEmuTimeStart t args env now s.fresh = .ok s' →
      Invariant s' ∧ Discipline osEmuTimeStart (.futex t args env now) s s' := by
  unfold handleFutexCall
  by_cases isWait : args.cmd = FUTEX_WAIT ∨ args.cmd = FUTEX_WAIT_BITSET
  · simp only [if_pos isWait]
    refine ⟨fun _ => ⟨_, rfl⟩, fun s' ran => ?_⟩
    cases ran
    exact futexWait_spec inv proper.running isWait
  simp only [if_neg isWait]
  by_cases isWake : args.cmd = FUTEX_WAKE ∨ args.cmd = FUTEX_WAKE_BITSET
  · have noBitset : args.cmd ≠ FUTEX_WAIT_BITSET := fun same => isWait (.inr same)
    simp only [if_pos isWake, if_neg noBitset]
    refine ⟨fun _ => ⟨_, rfl⟩, fun s' ran => ?_⟩
    cases ran
    exact futexWake_spec inv proper isWake
  simp only [if_neg isWake]
  by_cases isWakeOp : args.cmd = FUTEX_WAKE_OP
  · simp only [if_pos isWakeOp]
    refine ⟨fun supported => ?_, fun s' ran => futexWakeOp_spec inv proper.running isWakeOp ran⟩
    obtain ⟨u, op⟩ := supported.wakeOp isWakeOp
    exact ⟨_, bind_ok.2 ⟨u, op, rfl⟩⟩
  simp only [if_neg isWakeOp]
  by_cases isRequeue : args.cmd = FUTEX_CMP_REQUEUE
  · simp only [if_pos isRequeue]
    obtain ⟨s₁, ran₁, spec⟩ :=
      futexCmpRequeue_spec osEmuTimeStart now inv proper isRequeue
    refine ⟨fun supported => ⟨s₁, ?_⟩, fun s' ran => ?_⟩
    · rw [if_neg (supported.requeue isRequeue)]
      exact ran₁
    · by_cases same : args.uaddr = args.uaddr2
      · rw [if_pos same] at ran
        cases ran
      · rw [if_neg same, ran₁] at ran
        cases ran
        exact spec
  simp only [if_neg isRequeue]
  refine ⟨fun supported => ?_, fun s' ran => by cases ran⟩
  have cmd := supported.cmd
  tauto

/-- **One event.** -/
theorem step_spec {e : Event} (inv : Invariant s) (proper : Proper s e)
    (ran : step rescheduleCost osEmuTimeStart e s = .ok s') :
    Invariant s' ∧ Discipline osEmuTimeStart e s s' := by
  have inv₀ : Invariant s.fresh := inv.congr rfl rfl
  cases e with
  | futex t args env now => exact (handleFutexCall_spec inv proper).2 s' ran
  | sleep t wakeTime now =>
    cases ran
    refine ⟨enqueue_spec inv₀ (w := ⟨t, 0, wakeTime⟩) proper .sleeping, .of_resumes ?_
      (Resumes.refl _ s.fresh) (fun u other => Function.update_of_ne ?_ _ _)
      (List.append_nil _).symm (.inl rfl) ⟨Function.update_self .., rfl⟩⟩
    · rintro u ⟨⟩
      exact proper
    · rintro rfl
      exact other rfl
  | periodic time addresses =>
    cases ran
    obtain ⟨inv', kept, added, resumes⟩ := futexPeriodic_spec time inv₀ addresses
    exact ⟨inv', .of_resumes nofun resumes (fun _ _ => rfl) (List.append_nil _).symm (.inl rfl)
      kept⟩

/-- **Runs.** In a run in which each `FUTEX_WAKE_BITSET` would wake the same waiters with all bits,
and no futex is moved to its own address while it has waiters, each state satisfies the invariant,
each further call returns that the assertions let pass, and each further event keeps the
discipline. -/
theorem run_futexDisciplined {es : List Event}
    (proper : Along Proper (step rescheduleCost osEmuTimeStart) es Server.start)
    (ran : runEvents (step rescheduleCost osEmuTimeStart) es Server.start = .ok s) :
    Invariant s ∧ (∀ e s', Proper s e → step rescheduleCost osEmuTimeStart e s = .ok s' →
        Discipline osEmuTimeStart e s s') ∧
      ∀ t args env now, Proper s (.futex t args env now) → Supported args env →
        ∃ s', step rescheduleCost osEmuTimeStart (.futex t args env now) s = .ok s' := by
  have inv : Invariant s := by
    have kept : Ensures Invariant (fun _ => True)
        (runEvents (step rescheduleCost osEmuTimeStart) es Server.start) := by
      refine proper.ensures_runEvents ?_ Invariant.start
      intro e s₁ proper inv
      cases moved : step rescheduleCost osEmuTimeStart e s₁ with
      | error stop => trivial
      | ok s₂ => exact (step_spec inv proper moved).1
    exact kept.of_ok ran
  exact ⟨inv, fun e s' proper moved => (step_spec inv proper moved).2,
    fun t args env now proper supported => (handleFutexCall_spec inv proper).1 supported⟩

end Steps

/-! ## A wait and a wake -/

/-- A call with `FUTEX_WAIT_BITSET` and one with `FUTEX_WAKE_BITSET`, at the same address. -/
def waitBitset (mask : BitVec 32) : FutexArgs := ⟨4096, FUTEX_WAIT_BITSET, 0, none, 0, 0, mask⟩

def wakeBitset (mask : BitVec 32) : FutexArgs := ⟨4096, FUTEX_WAKE_BITSET, 1, none, 0, 0, mask⟩

def calm : Environment := ⟨id, 0, 0, true⟩

/-- A thread waits with a bitset that intersects that of the waker. -/
theorem run_futexDisciplined_two :
    ∃ s, runEvents (step 5 0) [.futex 0 (waitBitset 3) calm 10, .futex 1 (wakeBitset 2) calm 20]
        Server.start = .ok s ∧ Invariant s ∧
        (∀ e s', Proper s e → step 5 0 e s = .ok s' → Discipline 0 e s s') ∧
        ∀ t args env now, Proper s (.futex t args env now) → Supported args env →
          ∃ s', step 5 0 (.futex t args env now) s = .ok s' := by
  have proper : Along Proper (step 5 0)
      [.futex 0 (waitBitset 3) calm 10, .futex 1 (wakeBitset 2) calm 20] Server.start := by
    refine ⟨⟨rfl, nofun, nofun⟩, fun s₁ moved => ?_⟩
    cases moved
    exact ⟨⟨rfl, fun _ => by decide, nofun⟩, fun _ _ => trivial⟩
  exact ⟨_, rfl, run_futexDisciplined proper rfl⟩

/-- A waiter with bit 0 is woken by a caller that asks for bit 1. -/
theorem wakeBitset_ignores_mask :
    ∃ s s', runEvents (step 5 0) [.futex 0 (waitBitset 1) calm 10] Server.start = .ok s ∧
      s.waiting (.futex 4096) = [⟨0, 1, maxTime⟩] ∧
      step 5 0 (.futex 1 (wakeBitset 2) calm 20) s = .ok s' ∧
      taken 2 1 (s.waiting (.futex 4096)) = [] ∧ s'.waiting (.futex 4096) = [] ∧
      s'.returned = [(0, .futex 0 25), (1, .futex 1 25)] :=
  ⟨_, _, rfl, rfl, rfl, rfl, rfl, rfl⟩

end GpuHotSpot.Common.SyscallServer
