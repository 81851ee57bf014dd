import GpuHotSpot.Common.DramDirectoryCntlr
import GpuHotSpot.Lib.Service

/-!
# Requests are answered once and in order

The log of the directory controller as that of a server with one queue for each address.

* `view`: what the server sees: requests that are enqueued, replies, and requests that are dequeued.
* `Serving`, `Ready`: the server accepts the log; its queues are those of the controller, but for
  the front request of an address whose reply has been sent.
* `processReq_serves`, `processNextReq_serves`: the handlers keep them.
* `run_serves`: each run of the controller is accepted.
-/

namespace GpuHotSpot.Common.DramDirectory

open Fallible Service

variable {D N : Type} {config : Config D N} {s s' : Cntlr D N} {address requester : ℕ}
  {req : ShmemReq D} {cached : Option D}

/-! ## The server -/

/-- A request: its type and its requester. -/
abbrev Request := MsgType × ℕ

/-- What a request looks like to the server. -/
def requestOf (msg : ShmemMsg D) : Request := (msg.msgType, msg.requester)

/-- The replies to requests. -/
def isReply (msgType : MsgType) : Bool :=
  match msgType with
  | .exRep | .shRep | .upgradeRep => true
  | _ => false

/-- What waits in the queues. -/
def isRequest (msgType : MsgType) : Bool :=
  match msgType with
  | .exReq | .shReq | .upgradeReq | .nullifyReq => true
  | _ => false

/-- What the server sees of the log. -/
def view : DramDirectory.Action D → Option (Service.Action ℕ Request (Receiver × MsgType × ℕ))
  | .enqueued msg => some (.arrived msg.address (requestOf msg))
  | .sent receiver msg =>
    if isReply msg.msgType then
      some (.answered msg.address (receiver, msg.msgType, msg.requester))
    else none
  | .dequeued address => some (.left address)

/-- The replies that a type of request may get. -/
def fits (request reply : MsgType) : Bool :=
  match request, reply with
  | .exReq, .exRep | .shReq, .shRep | .shReq, .exRep | .upgradeReq, .upgradeRep
  | .upgradeReq, .exRep => true
  | _, _ => false

/-- A reply answers a request if it fits, and goes to the requester and names it. -/
def answersRequest (request : Request) (reply : Receiver × MsgType × ℕ) : Bool :=
  decide (reply.1 = .lastLevelCache (some request.2)) && fits request.1 reply.2.1 &&
    decide (reply.2.2 = request.2)

/-- A `NULLIFY_REQ` needs no reply. -/
def isNullify (request : Request) : Bool := decide (request.1 = .nullifyReq)

/-- What a message asks for, with its address. -/
def asks (msg : ShmemMsg D) : Option (ℕ × Request) :=
  match msg.msgType with
  | .exReq | .shReq | .upgradeReq => some (msg.address, requestOf msg)
  | _ => none

/-- The requests of the caches among the messages. -/
def requestsOf (es : List (Event D)) : List (ℕ × Request) :=
  es.filterMap fun
    | .fromL2Cache _ _ msg => asks msg
    | .fromDRAM _ _ => none

/-- The requests of the caches for an address, in order. -/
def requestsTo (address : ℕ) (es : List (Event D)) : List Request :=
  ((requestsOf es).filter fun asked => decide (asked.1 = address)).map Prod.snd

/-- What an enqueued message asks for, unless it is a `NULLIFY_REQ`. -/
def queuedRequest (msg : ShmemMsg D) : Option (ℕ × Request) :=
  if msg.msgType = .nullifyReq then none else some (msg.address, requestOf msg)

/-- The requests that were enqueued, but for `NULLIFY_REQ`. -/
def enqueuedRequests (log : List (DramDirectory.Action D)) : List (ℕ × Request) :=
  log.filterMap fun
    | .enqueued msg => queuedRequest msg
    | _ => none

/-- The queues of the server after a log. -/
def served (log : List (DramDirectory.Action D)) : Option (Queues ℕ Request) :=
  serve answersRequest isNullify (log.filterMap view) fun _ => []

variable {heard : List (ℕ × Request)}

/-- The queues of the controller as the server sees them: nothing has been answered. -/
def Cntlr.queuesOf (s : Cntlr D N) : Queues ℕ Request :=
  fun address => (s.queues address).map fun req => (requestOf req.msg, false)

theorem queuesOf_congr (queues : s'.queues = s.queues) : s'.queuesOf = s.queuesOf := by
  funext address
  unfold Cntlr.queuesOf
  rw [queues]

theorem queuesOf_front {rest : List (ShmemReq D)} (front : s.queues address = req :: rest) :
    s.queuesOf address =
      (requestOf req.msg, false) :: rest.map fun req => (requestOf req.msg, false) := by
  unfold Cntlr.queuesOf
  rw [front, List.map_cons]

/-- A reply that fits a request is one, and a request that it fits needs one. -/
theorem fits_reply {request reply : MsgType} (fitting : fits request reply = true) :
    isReply reply = true ∧ request ≠ .nullifyReq := by
  revert fitting
  cases request <;> cases reply <;> decide

/-! ## Between the messages -/

/-- The server accepts the log, and its queues are those of the controller; the requests of the
caches that were enqueued are those that came. -/
structure Serving (heard : List (ℕ × Request)) (s : Cntlr D N) : Prop where
  served_eq : served s.log = some s.queuesOf
  heard_eq : enqueuedRequests s.log = heard
  queued : ∀ address, ∀ req ∈ s.queues address,
    req.msg.address = address ∧ isRequest req.msg.msgType = true

/-- The front request of an address may be dequeued: its reply has been sent, or it needs none. -/
structure Ready (heard : List (ℕ × Request)) (address : ℕ) (s : Cntlr D N) : Prop where
  front : ∃ req rest, s.queues address = req :: rest ∧
    (served s.log = some (Function.update s.queuesOf address
        ((requestOf req.msg, true) :: (s.queuesOf address).tail)) ∨
      req.msg.msgType = .nullifyReq ∧ served s.log = some s.queuesOf)
  heard_eq : enqueuedRequests s.log = heard
  queued : ∀ address, ∀ req ∈ s.queues address,
    req.msg.address = address ∧ isRequest req.msg.msgType = true

/-- One more action of the log. -/
theorem served_concat {log : List (DramDirectory.Action D)} {queues queues' : Queues ℕ Request}
    {action : DramDirectory.Action D} (seen : Service.Action ℕ Request (Receiver × MsgType × ℕ))
    (before : served log = some queues) (sees : view action = some seen)
    (acted : act answersRequest isNullify queues seen = some queues') :
    served (log ++ [action]) = some queues' := by
  unfold served at before ⊢
  rw [List.filterMap_append, List.filterMap_cons_some sees, List.filterMap_nil]
  exact serve_concat before acted

/-- An action that the server does not see. -/
theorem served_unseen {log : List (DramDirectory.Action D)} {action : DramDirectory.Action D}
    (unseen : view action = none) : served (log ++ [action]) = served log := by
  unfold served
  rw [List.filterMap_append, List.filterMap_cons_none unseen, List.filterMap_nil, List.append_nil]

/-- An action that enqueues nothing. -/
theorem enqueuedRequests_concat {log : List (DramDirectory.Action D)}
    {action : DramDirectory.Action D} (none : enqueuedRequests [action] = []) :
    enqueuedRequests (log ++ [action]) = enqueuedRequests log := by
  have split : enqueuedRequests (log ++ [action]) =
      enqueuedRequests log ++ enqueuedRequests [action] := List.filterMap_append ..
  rw [split, none, List.append_nil]

theorem Serving.start (replacementPtrs : ℕ → ℕ) (nuca : N) :
    Serving [] (Cntlr.start replacementPtrs nuca : Cntlr D N) := ⟨rfl, rfl, nofun⟩

/-- Nothing but the queues and the log matters. -/
theorem Serving.congr (serving : Serving heard s) (queues : s'.queues = s.queues)
    (log : s'.log = s.log) : Serving heard s' := by
  refine ⟨?_, ?_, ?_⟩
  · rw [log, queuesOf_congr queues]
    exact serving.served_eq
  · rw [log]
    exact serving.heard_eq
  · rw [queues]
    exact serving.queued

theorem Ready.congr (ready : Ready heard address s) (queues : s'.queues = s.queues)
    (log : s'.log = s.log) : Ready heard address s' := by
  refine ⟨?_, ?_, ?_⟩
  · rw [log, queuesOf_congr queues, queues]
    exact ready.front
  · rw [log]
    exact ready.heard_eq
  · rw [queues]
    exact ready.queued

/-- A message that is no reply. -/
theorem Serving.send (serving : Serving heard s) {receiver : Receiver} {msgType : MsgType}
    {data : Option D} (noReply : isReply msgType = false) :
    Serving heard (s.send receiver msgType requester address data) := by
  refine ⟨?_, (enqueuedRequests_concat rfl).trans serving.heard_eq, serving.queued⟩
  change served (s.log ++ [_]) = some s.queuesOf
  rw [served_unseen (by simp [view, noReply])]
  exact serving.served_eq

theorem Ready.send {front : ℕ} (ready : Ready heard front s) {receiver : Receiver}
    {msgType : MsgType} {data : Option D} (noReply : isReply msgType = false) :
    Ready heard front (s.send receiver msgType requester address data) := by
  refine ⟨?_, (enqueuedRequests_concat rfl).trans ready.heard_eq, ready.queued⟩
  change ∃ req rest, s.queues front = req :: rest ∧ (served (s.log ++ [_]) = _ ∨
    _ ∧ served (s.log ++ [_]) = some s.queuesOf)
  rw [served_unseen (by simp [view, noReply])]
  exact ready.front

/-- **A reply** to the front request. -/
theorem Serving.reply (serving : Serving heard s) {rest : List (ShmemReq D)} {reply : MsgType}
    {data : Option D} (front : s.queues address = req :: rest)
    (fitting : fits req.msg.msgType reply = true) :
    Ready heard address
      (s.sendToCache (some req.msg.requester) reply req.msg.requester address data) := by
  obtain ⟨replies, loud⟩ := fits_reply fitting
  refine ⟨⟨req, rest, front, .inl ?_⟩, (enqueuedRequests_concat rfl).trans serving.heard_eq,
    serving.queued⟩
  refine served_concat (.answered address
    (.lastLevelCache (some req.msg.requester), reply, req.msg.requester)) serving.served_eq ?_ ?_
  · simp [view, replies]
  · have queue := queuesOf_front front
    have answered : answersRequest (requestOf req.msg)
        (.lastLevelCache (some req.msg.requester), reply, req.msg.requester) = true := by
      simp [answersRequest, requestOf, fitting]
    have notNullify : isNullify (requestOf req.msg) = false := decide_eq_false loud
    change act answersRequest isNullify s.queuesOf _ =
      some (Function.update s.queuesOf address
        ((requestOf req.msg, true) :: (s.queuesOf address).tail))
    simp only [act, queue, answered, notNullify, List.tail_cons]
    rfl

/-- **`dequeue`** of a request that is done. -/
theorem Ready.dequeue (ready : Ready heard address s) : Serving heard (s.dequeue address) := by
  obtain ⟨⟨req, rest, front, accepted⟩, heard_eq, queued⟩ := ready
  have queue := queuesOf_front front
  have after : (s.dequeue address).queuesOf = Function.update s.queuesOf address
      (rest.map fun req => (requestOf req.msg, false)) := by
    funext other
    change (Function.update s.queues address (s.queues address).tail other).map _ = _
    by_cases same : other = address
    · rw [same, Function.update_self, Function.update_self, front, List.tail_cons]
    · rw [Function.update_of_ne same, Function.update_of_ne same]
      rfl
  refine ⟨?_, (enqueuedRequests_concat rfl).trans heard_eq, fun other req member => ?_⟩
  · rw [after]
    rcases accepted with accepted | ⟨isNull, accepted⟩
    · refine served_concat (.left address) accepted rfl ?_
      simp [act, queue]
    · refine served_concat (.left address) accepted rfl ?_
      simp [act, queue, isNullify, requestOf, isNull]
  · change req ∈ Function.update s.queues address (s.queues address).tail other at member
    by_cases same : other = address
    · rw [same, Function.update_self] at member
      rw [same]
      exact queued address req (List.mem_of_mem_tail member)
    · rw [Function.update_of_ne same] at member
      exact queued other req member

/-- **`enqueue`.** -/
theorem Serving.enqueue (serving : Serving heard s) (req : ShmemReq D)
    (isReq : isRequest req.msg.msgType = true) :
    Serving (heard ++ (queuedRequest req.msg).toList) (s.enqueue req) := by
  have after : (s.enqueue req).queuesOf = Function.update s.queuesOf req.msg.address
      (s.queuesOf req.msg.address ++ [(requestOf req.msg, false)]) := by
    funext other
    change (Function.update s.queues req.msg.address (s.queues req.msg.address ++ [req]) other).map _ =
      _
    by_cases same : other = req.msg.address
    · rw [same, Function.update_self, Function.update_self, List.map_append]
      rfl
    · rw [Function.update_of_ne same, Function.update_of_ne same]
      rfl
  refine ⟨?_, ?_, fun other queued member => ?_⟩
  · rw [after]
    exact served_concat (.arrived req.msg.address (requestOf req.msg)) serving.served_eq
      rfl rfl
  · have split : enqueuedRequests (s.log ++ [.enqueued req.msg]) =
        enqueuedRequests s.log ++ (queuedRequest req.msg).toList := by
      rw [enqueuedRequests, List.filterMap_append, List.filterMap_cons, List.filterMap_nil]
      dsimp only
      cases queuedRequest req.msg <;> rfl
    exact split.trans (congrArg (· ++ _) serving.heard_eq)
  · change queued ∈ Function.update s.queues req.msg.address (s.queues req.msg.address ++ [req])
      other at member
    by_cases same : other = req.msg.address
    · rw [same, Function.update_self] at member
      rw [same]
      rcases List.mem_append.1 member with old | new
      · exact serving.queued _ queued old
      · rw [List.mem_singleton.1 new]
        exact ⟨rfl, isReq⟩
    · rw [Function.update_of_ne same] at member
      exact serving.queued other queued member

/-- The front request is changed, but not what it asks for. -/
theorem Serving.setFront (serving : Serving heard s) {rest : List (ShmemReq D)}
    (changed : ShmemReq D) (front : s.queues address = req :: rest)
    (sameRequest : requestOf changed.msg = requestOf req.msg)
    (sameAddress : changed.msg.address = req.msg.address) :
    Serving heard (s.setFront address changed) := by
  have after : (s.setFront address changed).queuesOf = s.queuesOf := by
    funext other
    change (Function.update s.queues address (changed :: (s.queues address).tail) other).map _ = _
    by_cases same : other = address
    · rw [same, Function.update_self, queuesOf_front front, front, List.tail_cons, List.map_cons,
        sameRequest]
    · rw [Function.update_of_ne same]
      rfl
  refine ⟨?_, serving.heard_eq, fun other queued member => ?_⟩
  · rw [after]
    exact serving.served_eq
  · change queued ∈ Function.update s.queues address (changed :: (s.queues address).tail) other at member
    by_cases same : other = address
    · rw [same, Function.update_self, front, List.tail_cons] at member
      rw [same]
      rcases List.mem_cons.1 member with new | old
      · rw [new, sameAddress, (Prod.mk.inj sameRequest).1]
        exact serving.queued address req (front ▸ List.mem_cons_self)
      · exact serving.queued address queued (front ▸ List.mem_cons_of_mem req old)
    · rw [Function.update_of_ne same] at member
      exact serving.queued other queued member

theorem setFront_length {rest : List (ShmemReq D)} {changed : ShmemReq D}
    (front : s.queues address = req :: rest) :
    ((s.setFront address changed).queues address).length = rest.length + 1 := by
  change (Function.update s.queues address (changed :: (s.queues address).tail) address).length = _
  rw [Function.update_self, front, List.tail_cons, List.length_cons]

/-! ## Entries and data -/

/-- The number of rounds is not to blame. -/
def InTime (stop : Stop) : Prop := stop ≠ .outOfRounds

/-- The handler has replied to the front request, or it waits for a message. -/
structure Handled (heard : List (ℕ × Request)) (address : ℕ) (s : Cntlr D N)
    (r : Bool × Cntlr D N) : Prop where
  ready : r.1 = true → Ready heard address r.2
  waits : r.1 = false → Serving heard r.2
  length_eq : (r.2.queues address).length = (s.queues address).length

theorem Handled.of_waits (serving : Serving heard s') (queues : s'.queues = s.queues) :
    Handled heard address s (false, s') :=
  ⟨nofun, fun _ => serving, congrArg (fun queues => (queues address).length) queues⟩

theorem Handled.of_ready (ready : Ready heard address s') (queues : s'.queues = s.queues) :
    Handled heard address s (true, s') :=
  ⟨fun _ => ready, nofun, congrArg (fun queues => (queues address).length) queues⟩

/-- The same queue before. -/
theorem Handled.of_queue {s₀ : Cntlr D N} {r : Bool × Cntlr D N}
    (handled : Handled heard address s r) (queue : s.queues address = s₀.queues address) :
    Handled heard address s₀ r :=
  ⟨handled.ready, handled.waits, handled.length_eq.trans (congrArg List.length queue)⟩

/-- What does not concern the queues. -/
structure Aside (heard : List (ℕ × Request)) (s s' : Cntlr D N) : Prop where
  serving : Serving heard s'
  queues : s'.queues = s.queues

variable (config) in
theorem find_aside (serving : Serving heard s) (address : ℕ) :
    Aside heard s (find config address s).2 :=
  ⟨serving.congr rfl rfl, rfl⟩

theorem entryOf_serves (serving : Serving heard s) (address : ℕ) :
    Ensures (fun r => Aside heard s r.2) InTime (entryOf config address s) := by
  have aside := find_aside config serving address
  unfold entryOf
  rcases found : find config address s with ⟨none | pointer, s'⟩
  · exact nofun
  · rw [found] at aside
    exact aside

theorem write_aside (serving : Serving heard s) (pointer : ℕ) (e : Entry) :
    Aside heard s (s.write pointer e) :=
  ⟨serving.congr rfl rfl, rfl⟩

theorem Aside.trans {s₁ s₂ : Cntlr D N} (first : Aside heard s s₁)
    (second : Aside heard s₁ s₂) : Aside heard s s₂ :=
  ⟨second.serving, second.queues.trans first.queues⟩

variable (config address) in
theorem readNuca_aside (serving : Serving heard s) : Aside heard s (readNuca config address s).2 := by
  unfold readNuca
  split
  · exact ⟨serving, rfl⟩
  · exact ⟨serving.congr rfl rfl, rfl⟩

theorem sendDataToNUCA_queues (data : D) :
    (sendDataToNUCA config address data s).queues = s.queues := by
  unfold sendDataToNUCA
  split
  · rfl
  · dsimp only
    split <;> rfl

theorem Serving.sendDataToNUCA (serving : Serving heard s) (data : D) :
    Serving heard (sendDataToNUCA config address data s) := by
  unfold DramDirectory.sendDataToNUCA
  split
  · exact serving
  · dsimp only
    split
    · exact serving.congr rfl rfl
    · refine Serving.send (serving.congr ?_ ?_) rfl <;> rfl

theorem Ready.sendDataToNUCA {front : ℕ} (ready : Ready heard front s) (data : D) :
    Ready heard front (sendDataToNUCA config address data s) := by
  unfold DramDirectory.sendDataToNUCA
  split
  · exact ready
  · dsimp only
    split
    · exact ready.congr rfl rfl
    · refine Ready.send (ready.congr ?_ ?_) rfl <;> rfl

theorem sendDataToDram_serves (serving : Serving heard s) (data : Option D) :
    Ensures (Aside heard s) InTime (sendDataToDram config address requester data s) := by
  unfold sendDataToDram
  split
  · exact nofun
  · split
    · exact ⟨serving.sendDataToNUCA _, sendDataToNUCA_queues _⟩
    · exact ⟨serving.send rfl, rfl⟩

/-- A loop that sends messages. -/
theorem foldl_aside {A : Type} {send : Cntlr D N → A → Cntlr D N}
    (each : ∀ s a, Serving heard s → Aside heard s (send s a)) (l : List A)
    (serving : Serving heard s) :
    Aside heard s (l.foldl send s) := by
  induction l generalizing s with
  | nil => exact ⟨serving, rfl⟩
  | cons a l ih =>
    have first := each s a serving
    exact first.trans (ih first.serving)

variable (requester address) in
theorem sendToEach_aside (serving : Serving heard s) (cores : List ℕ) (msgType : MsgType)
    (noReply : isReply msgType = false) :
    Aside heard s (sendToEach cores msgType requester address s) :=
  foldl_aside (fun _ _ serving => ⟨serving.send noReply, rfl⟩) cores serving

variable (requester address) in
theorem sendForUpgrade_aside (serving : Serving heard s) (sharers : List ℕ) (hasCopy : Bool) :
    Aside heard s (sendForUpgrade sharers hasCopy requester address s) := by
  refine foldl_aside (fun s sharer serving => ?_) sharers.zipIdx serving
  dsimp only
  split_ifs
  · exact ⟨serving.send rfl, rfl⟩
  · exact ⟨serving.send rfl, rfl⟩
  · exact ⟨serving, rfl⟩

/-- **The data** are a reply, or a message that asks for them. -/
theorem retrieveDataAndSendToL2Cache_serves (serving : Serving heard s) {rest : List (ShmemReq D)}
    {reply : MsgType} (front : s.queues address = req :: rest)
    (fitting : fits req.msg.msgType reply = true) :
    Ensures (Handled heard address s) InTime
      (retrieveDataAndSendToL2Cache config reply req.msg.requester address cached s) := by
  unfold retrieveDataAndSendToL2Cache
  refine (entryOf_serves serving address).bind fun r aside => ?_
  obtain ⟨pointer, s₁⟩ := r
  obtain ⟨serving₁, queues₁⟩ : Aside heard s s₁ := aside
  have front₁ : s₁.queues address = req :: rest := by rw [queues₁]; exact front
  cases cached with
  | some data =>
    have written : Serving heard (s₁.write pointer
        { s₁.entry pointer with forwarder := some req.msg.requester }) := serving₁.congr rfl rfl
    exact .of_ready (written.reply front₁ fitting) queues₁
  | none =>
    have aside := readNuca_aside config address serving₁
    dsimp only
    rcases read : readNuca config address s₁ with ⟨hit, s₂⟩
    rw [read] at aside
    obtain ⟨serving₂, queues₂⟩ : Aside heard s₁ s₂ := aside
    have front₂ : s₂.queues address = req :: rest := by rw [queues₂]; exact front₁
    cases hit with
    | some data => exact .of_ready (serving₂.reply front₂ fitting) (queues₂.trans queues₁)
    | none =>
      dsimp only
      rw [front₂]
      dsimp only
      have length : (rest.length + 1) = (s.queues address).length := by
        rw [front, List.length_cons]
      split_ifs
      · have changed := serving₂.setFront
          { req with forwardingFrom := (s₂.entry pointer).forwarder } front₂ rfl rfl
        refine ⟨nofun, fun _ => changed.send rfl, ?_⟩
        rw [← length, ← setFront_length front₂]
        rfl
      · have changed := serving₂.setFront { req with waitForData := true }
          front₂ rfl rfl
        refine ⟨nofun, fun _ => changed.send rfl, ?_⟩
        rw [← length, ← setFront_length front₂]
        rfl

/-! ## Assertions -/

section Assertions

variable {directory : DirectoryConfig} {e : Entry} {core : ℕ}

theorem addSharer_inTime : Ensures (fun _ => True) InTime (e.addSharer directory core) := by
  unfold Entry.addSharer
  split_ifs
  · exact nofun
  · trivial
  · trivial

theorem setOwner_inTime : Ensures (fun _ => True) InTime (e.setOwner core) := by
  unfold Entry.setOwner
  split_ifs
  · trivial
  · exact nofun

theorem removeSharer_inTime : Ensures (fun _ => True) InTime (e.removeSharer core) := by
  unfold Entry.removeSharer
  split_ifs
  · trivial
  · exact nofun

theorem getOneSharer_inTime (random : ℕ) :
    Ensures (fun _ => True) InTime (e.getOneSharer directory random) := by
  unfold Entry.getOneSharer
  dsimp only
  split
  · trivial
  · rintro ⟨⟩

theorem own_inTime (dstate : DState) : Ensures (fun _ => True) InTime (own config core dstate e) := by
  refine addSharer_inTime.bind fun r _ => ?_
  obtain ⟨added, e⟩ := r
  dsimp only
  split_ifs
  · exact setOwner_inTime.bind fun _ _ => trivial
  · exact nofun

theorem invalidate_inTime : Ensures (fun _ => True) InTime (invalidate core e) :=
  removeSharer_inTime.bind fun _ _ => trivial

theorem flush_inTime : Ensures (fun _ => True) InTime (flush core e) := by
  refine removeSharer_inTime.bind fun e _ => ?_
  dsimp only
  split_ifs
  · trivial
  · trivial
  · exact nofun

theorem replaceDirectoryEntry_inTime (replacedAddress address : ℕ) (c : DirectoryCache) :
    Ensures (fun _ => True) InTime (replaceDirectoryEntry directory replacedAddress address c) := by
  unfold replaceDirectoryEntry
  dsimp only
  split
  · trivial
  · rintro ⟨⟩

theorem invalidateDirectoryEntry_inTime (address : ℕ) (c : DirectoryCache) :
    Ensures (fun _ => True) InTime (invalidateDirectoryEntry address c) := by
  unfold invalidateDirectoryEntry
  split
  · trivial
  · rintro ⟨⟩

end Assertions

/-! ## Requests -/

/-- The request at the front of its queue. -/
def Front (req : ShmemReq D) (s : Cntlr D N) : Prop :=
  ∃ rest, s.queues req.msg.address = req :: rest

theorem Aside.front (aside : Aside heard s s') (front : Front req s) : Front req s' := by
  obtain ⟨rest, queue⟩ := front
  exact ⟨rest, by rw [aside.queues]; exact queue⟩

/-- A request for an entry that is replaced. -/
theorem processNullifyReq_serves (serving : Serving heard s) (front : Front req s)
    (isNull : req.msg.msgType = .nullifyReq) :
    Ensures (fun r => (r.1 = true → Ready heard req.msg.address r.2) ∧ Aside heard s r.2) InTime
      (processNullifyReq config req s) := by
  unfold processNullifyReq
  refine (entryOf_serves serving req.msg.address).bind fun r aside => ?_
  obtain ⟨pointer, s₁⟩ := r
  obtain ⟨serving₁, queues₁⟩ : Aside heard s s₁ := aside
  dsimp only
  split
  · exact ⟨nofun, serving₁.send rfl, queues₁⟩
  · exact ⟨nofun, serving₁.send rfl, queues₁⟩
  · have sent := sendToEach_aside req.msg.address req.msg.requester serving₁
      (s₁.entry pointer).getSharersList .invReq rfl
    exact ⟨nofun, sent.serving, sent.queues.trans queues₁⟩
  · refine (invalidateDirectoryEntry_inTime _ _).bind fun cache _ => ?_
    refine ⟨fun _ => ?_, serving₁.congr rfl rfl, queues₁⟩
    obtain ⟨rest, queue⟩ := front
    refine ⟨⟨req, rest, ?_, .inr ⟨isNull, serving₁.served_eq⟩⟩, serving₁.heard_eq,
      serving₁.queued⟩
    change s₁.queues req.msg.address = req :: rest
    rw [queues₁]
    exact queue
  · exact nofun

/-- **Allocation** leaves the queue of the request as it is. -/
theorem replaceCandidate_serves (serving : Serving heard s) (front : Front req s) (replaced : ℕ) :
    Ensures (fun r => Serving heard r.2 ∧
      r.2.queues req.msg.address = s.queues req.msg.address) InTime
      (replaceCandidate config req replaced s) := by
  unfold replaceCandidate
  refine (replaceDirectoryEntry_inTime _ _ _).bind fun r _ => ?_
  obtain ⟨pointer, cache⟩ := r
  dsimp only
  let replacedAddress := (s.entry replaced).address
  let nullifyReq : ShmemReq D := ShmemReq.of ⟨.nullifyReq, req.msg.requester, replacedAddress, none⟩
  let s₁ : Cntlr D N := { s with cache := cache }
  have serving₁ : Serving heard s₁ := serving.congr rfl rfl
  have serving₂ : Serving heard (s₁.enqueue nullifyReq) := by
    have enqueued := serving₁.enqueue nullifyReq rfl
    rwa [show queuedRequest nullifyReq.msg = none from rfl, Option.toList_none,
      List.append_nil] at enqueued
  have queue₂ : (s₁.enqueue nullifyReq).queues replacedAddress =
      s.queues replacedAddress ++ [nullifyReq] := Function.update_self ..
  split_ifs with one
  · exact nofun
  -- The other queue was empty, so it is not that of the request.
  have empty : s.queues replacedAddress = [] := by
    have length : ((s₁.enqueue nullifyReq).queues replacedAddress).length = 1 := not_not.1 one
    rw [queue₂, List.length_append] at length
    exact List.length_eq_zero_iff.1 (by simpa using length)
  have other : req.msg.address ≠ replacedAddress := by
    intro same
    obtain ⟨rest, queue⟩ := front
    rw [same, empty] at queue
    cases queue
  have still : (s₁.enqueue nullifyReq).queues req.msg.address = s.queues req.msg.address :=
    Function.update_of_ne other _ _
  have frontNullify : Front nullifyReq (s₁.enqueue nullifyReq) := by
    refine ⟨[], ?_⟩
    change (s₁.enqueue nullifyReq).queues replacedAddress = [nullifyReq]
    rw [queue₂, empty, List.nil_append]
  refine (processNullifyReq_serves serving₂ frontNullify rfl).bind fun r spec => ?_
  obtain ⟨done, s₃⟩ := r
  obtain ⟨ready, aside⟩ : (done = true → Ready heard replacedAddress s₃) ∧
    Aside heard (s₁.enqueue nullifyReq) s₃ := spec
  have queue₃ : s₃.queues req.msg.address = s.queues req.msg.address := by
    rw [aside.queues]
    exact still
  cases done with
  | true =>
    refine ⟨(ready rfl).dequeue, ?_⟩
    change Function.update s₃.queues replacedAddress _ req.msg.address = _
    rw [Function.update_of_ne other]
    exact queue₃
  | false => exact ⟨aside.serving, queue₃⟩

theorem entryFor_serves (serving : Serving heard s) (front : Front req s) :
    Ensures (fun r => Serving heard r.2 ∧
      r.2.queues req.msg.address = s.queues req.msg.address) InTime (entryFor config req s) := by
  have aside := find_aside config serving req.msg.address
  unfold entryFor
  rcases found : find config req.msg.address s with ⟨none | pointer, s₁⟩
  · rw [found] at aside
    dsimp only
    unfold processDirectoryEntryAllocationReq
    dsimp only
    split
    · rintro ⟨⟩
    next replaced _ =>
      let s₂ : Cntlr D N := { s₁ with
        cache := (getReplacementCandidates config.directory req.msg.address s₁.cache).2 }
      have aside₂ : Aside heard s s₂ := ⟨Serving.congr aside.serving rfl rfl, aside.queues⟩
      refine (replaceCandidate_serves aside₂.serving (aside₂.front front) replaced).mono ?_
      exact fun r spec => ⟨spec.1, spec.2.trans (congrFun aside₂.queues _)⟩
  · rw [found] at aside
    exact ⟨aside.serving, congrFun aside.queues _⟩

/-- The data for the front request, after a change of its entry. -/
theorem write_retrieve_serves (serving : Serving heard s) (front : Front req s) {reply : MsgType}
    (fitting : fits req.msg.msgType reply = true) (pointer : ℕ) (e : Entry) :
    Ensures (Handled heard req.msg.address s) InTime
      (retrieveDataAndSendToL2Cache config reply req.msg.requester req.msg.address cached
        (s.write pointer e)) := by
  obtain ⟨rest, queue⟩ := front
  have written := write_aside serving pointer e
  have queue' : (s.write pointer e).queues req.msg.address = req :: rest := queue
  exact (retrieveDataAndSendToL2Cache_serves written.serving queue' fitting).mono fun r handled =>
    handled.of_queue rfl

/-- The requester owns the entry, and gets the data. -/
theorem own_retrieve_serves (serving : Serving heard s) (front : Front req s) {reply : MsgType}
    (fitting : fits req.msg.msgType reply = true) (dstate : DState) (pointer : ℕ) :
    Ensures (Handled heard req.msg.address s) InTime (do
      let e ← own config req.msg.requester dstate (s.entry pointer)
      retrieveDataAndSendToL2Cache config reply req.msg.requester req.msg.address cached
        (s.write pointer e)) :=
  (own_inTime dstate).bind fun e _ => write_retrieve_serves serving front fitting pointer e

/-- What follows `entryFor`. -/
theorem entryFor_bind {f : ℕ × Cntlr D N → Except Stop (Bool × Cntlr D N)}
    (serving : Serving heard s) (front : Front req s)
    (rest : ∀ pointer s₁, Serving heard s₁ → Front req s₁ →
      Ensures (Handled heard req.msg.address s₁) InTime (f (pointer, s₁))) :
    Ensures (Handled heard req.msg.address s) InTime (entryFor config req s >>= f) := by
  refine (entryFor_serves serving front).bind fun r spec => ?_
  obtain ⟨pointer, s₁⟩ := r
  obtain ⟨serving₁, queue₁⟩ :
    Serving heard s₁ ∧ s₁.queues req.msg.address = s.queues req.msg.address := spec
  have front₁ : Front req s₁ := by
    obtain ⟨others, queue⟩ := front
    exact ⟨others, queue₁.trans queue⟩
  exact (rest pointer s₁ serving₁ front₁).mono fun r handled => handled.of_queue queue₁

theorem processExReqFromL2Cache_serves (serving : Serving heard s) (front : Front req s)
    (isEx : req.msg.msgType = .exReq) :
    Ensures (Handled heard req.msg.address s) InTime
      (processExReqFromL2Cache config req cached s) := by
  unfold processExReqFromL2Cache
  refine entryFor_bind serving front fun pointer s₁ serving₁ front₁ => ?_
  dsimp only
  split
  · split_ifs
    · exact nofun
    · exact .of_waits (serving₁.send rfl) rfl
  · split_ifs
    · exact nofun
    · exact .of_waits (serving₁.send rfl) rfl
  · split_ifs
    · exact nofun
    · have sent := sendToEach_aside req.msg.address req.msg.requester serving₁
        (s₁.entry pointer).getSharersList .invReq rfl
      exact .of_waits sent.serving sent.queues
  · exact own_retrieve_serves serving₁ front₁ (by rw [isEx]; rfl) _ pointer
  · exact nofun

theorem processShReqFromL2Cache_serves (serving : Serving heard s) (front : Front req s)
    (random : ℕ) (isSh : req.msg.msgType = .shReq) :
    Ensures (Handled heard req.msg.address s) InTime
      (processShReqFromL2Cache config random req cached s) := by
  unfold processShReqFromL2Cache
  refine entryFor_bind serving front fun pointer s₁ serving₁ front₁ => ?_
  dsimp only
  split
  · split_ifs
    · exact nofun
    · exact nofun
    · exact .of_waits (serving₁.send rfl) rfl
  · split_ifs
    · exact nofun
    · exact .of_waits (serving₁.send rfl) rfl
  · split_ifs
    · obtain ⟨rest, queue⟩ := front₁
      exact retrieveDataAndSendToL2Cache_serves serving₁ queue (by rw [isSh]; rfl)
    · refine addSharer_inTime.bind fun r _ => ?_
      obtain ⟨added, e⟩ := r
      dsimp only
      split_ifs
      · exact write_retrieve_serves serving₁ front₁ (by rw [isSh]; rfl) pointer e
      · exact (getOneSharer_inTime random).bind fun sharer _ => .of_waits (serving₁.send rfl) rfl
  · split_ifs
    · exact own_retrieve_serves serving₁ front₁ (by rw [isSh]; rfl) _ pointer
    · exact own_retrieve_serves serving₁ front₁ (by rw [isSh]; rfl) _ pointer
  · exact nofun

theorem processUpgradeReqFromL2Cache_serves (serving : Serving heard s) (front : Front req s)
    (isUpgrade : req.msg.msgType = .upgradeReq) :
    Ensures (Handled heard req.msg.address s) InTime
      (processUpgradeReqFromL2Cache config req cached s) := by
  unfold processUpgradeReqFromL2Cache
  refine entryFor_bind serving front fun pointer s₁ serving₁ front₁ => ?_
  have fitting : fits req.msg.msgType .upgradeRep = true := by rw [isUpgrade]; rfl
  obtain ⟨rest, queue⟩ := front₁
  have replied : Ready heard req.msg.address
      (s₁.sendToCache (some req.msg.requester) .upgradeRep req.msg.requester req.msg.address none) :=
    serving₁.reply queue fitting
  dsimp only
  split
  · split
    · exact nofun
    · split_ifs
      · exact nofun
      · exact .of_ready (replied.congr rfl rfl) rfl
      · exact .of_waits (serving₁.send rfl) rfl
  · split
    · exact nofun
    · split_ifs
      · exact nofun
      · exact .of_ready (replied.congr rfl rfl) rfl
      · exact .of_waits (serving₁.send rfl) rfl
  · split_ifs
    · exact setOwner_inTime.bind fun e _ => .of_ready (replied.congr rfl rfl) rfl
    · have sent := sendForUpgrade_aside req.msg.address req.msg.requester serving₁
        (s₁.entry pointer).getSharersList
        (decide (req.msg.requester ∈ (s₁.entry pointer).sharers))
      exact .of_waits sent.serving sent.queues
  · split_ifs
    · exact nofun
    · exact own_retrieve_serves serving₁ ⟨rest, queue⟩ (by rw [isUpgrade]; rfl) _ pointer
  · exact nofun

theorem processReq_serves (serving : Serving heard s) (front : Front req s) (random : ℕ) :
    Ensures (Handled heard req.msg.address s) InTime (processReq config random req s) := by
  unfold processReq
  split
  next isEx => exact processExReqFromL2Cache_serves serving front isEx
  next isSh => exact processShReqFromL2Cache_serves serving front random isSh
  next isUpgrade => exact processUpgradeReqFromL2Cache_serves serving front isUpgrade
  · exact nofun

/-- **`processNextReqFromL2Cache`** has rounds enough: each one dequeues a request. -/
theorem processNextReqFromL2Cache_serves {rounds : ℕ} (random : ℕ)
    (ready : Ready heard address s) (enough : (s.queues address).length = rounds) :
    Ensures (Serving heard) InTime (processNextReqFromL2Cache config random address rounds s) := by
  induction rounds generalizing s with
  | zero =>
    obtain ⟨req, rest, front, -⟩ := ready.front
    rw [front] at enough
    cases enough
  | succ rounds ih =>
    obtain ⟨req, rest, front, -⟩ := ready.front
    have dequeued := ready.dequeue
    have queue : (s.dequeue address).queues address = rest := by
      change Function.update s.queues address (s.queues address).tail address = rest
      rw [Function.update_self, front, List.tail_cons]
    have length : rest.length = rounds := by
      rw [front, List.length_cons] at enough
      exact Nat.succ.inj enough
    unfold processNextReqFromL2Cache
    rw [front]
    dsimp only
    cases rest with
    | nil => exact dequeued
    | cons next rest =>
      have isNext : next.msg.address = address :=
        (ready.queued address next (by rw [front]; simp)).1
      have frontNext : Front next (s.dequeue address) := by
        refine ⟨rest, ?_⟩
        rw [isNext]
        exact queue
      dsimp only
      refine (processReq_serves dequeued frontNext random).bind fun r handled => ?_
      obtain ⟨done, s₁⟩ := r
      rw [isNext] at handled
      cases done with
      | true =>
        refine ih (handled.ready rfl) (handled.length_eq.trans ?_)
        rw [queue]
        exact length
      | false => exact handled.waits rfl

theorem next_serves {r : Bool × Cntlr D N} (random : ℕ)
    (ready : r.1 = true → Ready heard address r.2) (waits : r.1 = false → Serving heard r.2) :
    Ensures (Serving heard) InTime (next config random address r) := by
  unfold next
  split_ifs with done
  · exact processNextReqFromL2Cache_serves random (ready done) rfl
  · exact waits (Bool.eq_false_iff.2 done)

/-! ## Replies -/

/-- The front request of an address is done, or it waits. -/
structure Settled (heard : List (ℕ × Request)) (address : ℕ) (r : Bool × Cntlr D N) :
    Prop where
  ready : r.1 = true → Ready heard address r.2
  waits : r.1 = false → Serving heard r.2

theorem Handled.settled {r : Bool × Cntlr D N} (handled : Handled heard address s r) :
    Settled heard address r :=
  ⟨handled.ready, handled.waits⟩

theorem Settled.of_waits (serving : Serving heard s) : Settled heard address (false, s) :=
  ⟨nofun, fun _ => serving⟩

/-- The last type of request. -/
theorem isNullify_of {msgType : MsgType} (isReq : isRequest msgType = true) (notEx : msgType ≠ .exReq)
    (notSh : msgType ≠ .shReq) (notUpgrade : msgType ≠ .upgradeReq) : msgType = .nullifyReq := by
  cases msgType <;> simp_all [isRequest]

/-- The request at the front of a queue. -/
theorem Serving.front (serving : Serving heard s) {rest : List (ShmemReq D)}
    (queue : s.queues address = req :: rest) : req.msg.address = address ∧ Front req s := by
  have isAddress : req.msg.address = address :=
    (serving.queued address req (queue ▸ List.mem_cons_self)).1
  exact ⟨isAddress, rest, by rw [isAddress]; exact queue⟩

theorem replyType_fits (msgType : MsgType) (dstate : DState) :
    Ensures (fun reply => fits msgType reply = true) InTime (replyType msgType dstate) := by
  unfold replyType
  split
  · split_ifs
    · exact rfl
    · exact rfl
    · exact nofun
  · split_ifs
    · exact rfl
    · exact nofun
  · exact rfl
  · exact nofun

theorem processDRAMReply_serves (serving : Serving heard s) (msg : ShmemMsg D) :
    Ensures (Settled heard msg.address) InTime (processDRAMReply config msg s) := by
  unfold processDRAMReply
  dsimp only
  split
  · exact nofun
  next req rest queue =>
    refine (entryOf_serves serving msg.address).bind fun r aside => ?_
    obtain ⟨pointer, s₁⟩ := r
    obtain ⟨serving₁, queues₁⟩ : Aside heard s s₁ := aside
    refine (replyType_fits _ _).bind fun reply fitting => ?_
    dsimp only
    split
    · exact nofun
    · have queue₁ : s₁.queues msg.address = req :: rest := by rw [queues₁]; exact queue
      exact ⟨fun _ => (serving₁.reply queue₁ fitting).sendDataToNUCA _, nofun⟩

theorem processInvRepFromL2Cache_serves (serving : Serving heard s) (sender random : ℕ)
    (msg : ShmemMsg D) :
    Ensures (Settled heard msg.address) InTime
      (processInvRepFromL2Cache config sender random msg s) := by
  unfold processInvRepFromL2Cache
  refine (entryOf_serves serving msg.address).bind fun r aside => ?_
  obtain ⟨pointer, s₁⟩ := r
  obtain ⟨serving₁, -⟩ : Aside heard s s₁ := aside
  dsimp only
  split_ifs
  · exact nofun
  refine invalidate_inTime.bind fun e _ => ?_
  have serving₂ := (write_aside serving₁ pointer e).serving
  split
  · exact .of_waits serving₂
  next req rest queue =>
    obtain ⟨isAddress, front⟩ := serving₂.front queue
    rw [← isAddress]
    split
    next isEx =>
      split_ifs
      · exact (processExReqFromL2Cache_serves serving₂ front isEx).mono fun _ h => h.settled
      · exact .of_waits serving₂
    next isUpgrade =>
      have again := write_aside serving₂ pointer { e with dstate := .uncached }
      split_ifs
      · exact (processUpgradeReqFromL2Cache_serves serving₂ front isUpgrade).mono
          fun _ h => h.settled
      · exact .of_waits serving₂
      · exact (processUpgradeReqFromL2Cache_serves again.serving (again.front front) isUpgrade).mono
          fun _ h => h.settled
      · exact .of_waits serving₂
    next isSh =>
      split_ifs
      · exact .of_waits serving₂
      · exact .of_waits serving₂
      · exact (processShReqFromL2Cache_serves serving₂ front random isSh).mono fun _ h => h.settled
    next notEx notUpgrade notSh =>
      have isNull := isNullify_of (serving₂.queued msg.address req (queue ▸ List.mem_cons_self)).2
        notEx notSh notUpgrade
      split_ifs
      · exact (processNullifyReq_serves serving₂ front isNull).mono fun r spec =>
          ⟨spec.1, fun _ => spec.2.serving⟩
      · exact .of_waits serving₂

theorem processFlushRepFromL2Cache_serves (serving : Serving heard s) (sender random : ℕ)
    (msg : ShmemMsg D) :
    Ensures (Settled heard msg.address) InTime
      (processFlushRepFromL2Cache config sender random msg s) := by
  unfold processFlushRepFromL2Cache
  refine (entryOf_serves serving msg.address).bind fun r aside => ?_
  obtain ⟨pointer, s₁⟩ := r
  obtain ⟨serving₁, -⟩ : Aside heard s s₁ := aside
  dsimp only
  refine flush_inTime.bind fun e _ => ?_
  have serving₂ := (write_aside serving₁ pointer e).serving
  split
  · exact (sendDataToDram_serves serving₂ _).bind fun s₃ aside => .of_waits aside.serving
  next req rest queue =>
    obtain ⟨isAddress, front⟩ := serving₂.front queue
    have isReq := (serving₂.queued msg.address req (queue ▸ List.mem_cons_self)).2
    rw [← isAddress]
    rw [← isAddress] at queue
    split
    next isEx =>
      exact (processExReqFromL2Cache_serves serving₂ front isEx).mono fun _ h => h.settled
    next isSh =>
      refine (sendDataToDram_serves serving₂ _).bind fun s₃ aside => ?_
      exact (processShReqFromL2Cache_serves aside.serving (aside.front front) random isSh).mono
        fun _ h => h.settled
    next isUpgrade =>
      split_ifs
      · exact (processUpgradeReqFromL2Cache_serves serving₂ front isUpgrade).mono
          fun _ h => h.settled
      · exact .of_waits (serving₂.setFront _ queue rfl rfl)
    next notEx notSh notUpgrade =>
      have isNull := isNullify_of isReq notEx notSh notUpgrade
      refine (sendDataToDram_serves serving₂ _).bind fun s₃ aside => ?_
      exact (processNullifyReq_serves aside.serving (aside.front front) isNull).mono fun r spec =>
        ⟨spec.1, fun _ => spec.2.serving⟩

theorem processWbRepFromL2Cache_serves (serving : Serving heard s) (sender random : ℕ)
    (msg : ShmemMsg D) :
    Ensures (Settled heard msg.address) InTime
      (processWbRepFromL2Cache config sender random msg s) := by
  unfold processWbRepFromL2Cache
  refine (entryOf_serves serving msg.address).bind fun r aside => ?_
  obtain ⟨pointer, s₁⟩ := r
  obtain ⟨serving₁, -⟩ : Aside heard s s₁ := aside
  have serving₂ := (write_aside serving₁ pointer
    { s₁.entry pointer with owner := none, dstate := .shared }).serving
  dsimp only
  split_ifs
  · split
    · exact nofun
    next req rest queue =>
      obtain ⟨isAddress, front⟩ := serving₂.front queue
      rw [← isAddress]
      split_ifs with isSh
      · exact nofun
      · exact (processShReqFromL2Cache_serves serving₂ front random (not_not.1 isSh)).mono
          fun _ h => h.settled
  · exact nofun

/-! ## Runs -/

theorem handleReq_serves (serving : Serving heard s) (random : ℕ) {msg : ShmemMsg D}
    (isReq : isRequest msg.msgType = true) :
    Ensures (Settled (heard ++ (queuedRequest msg).toList) msg.address) InTime
      (handleReq config random msg s) := by
  unfold handleReq
  split_ifs
  · exact nofun
  · have enqueued : Serving (heard ++ (queuedRequest msg).toList) (s.enqueue (ShmemReq.of msg)) :=
      serving.enqueue (ShmemReq.of msg) isReq
    have queue : (s.enqueue (ShmemReq.of msg)).queues msg.address =
        s.queues msg.address ++ [ShmemReq.of msg] := Function.update_self ..
    dsimp only
    split_ifs with one
    · have empty : s.queues msg.address = [] := by
        rw [queue, List.length_append] at one
        exact List.length_eq_zero_iff.1 (by simpa using one)
      have front : Front (ShmemReq.of msg) (s.enqueue (ShmemReq.of msg)) := by
        refine ⟨[], ?_⟩
        change (s.enqueue (ShmemReq.of msg)).queues msg.address = [ShmemReq.of msg]
        rw [queue, empty, List.nil_append]
      exact (processReq_serves enqueued front random).mono fun _ h => h.settled
    · exact .of_waits enqueued

theorem processMsg_serves (serving : Serving heard s) (sender random : ℕ) (msg : ShmemMsg D) :
    Ensures (Settled (heard ++ (asks msg).toList) msg.address) InTime
      (processMsg config sender random msg s) := by
  -- A message that is no request adds none.
  have silent : asks msg = none → Serving (heard ++ (asks msg).toList) s := by
    intro none
    rw [none, Option.toList_none, List.append_nil]
    exact serving
  unfold processMsg
  split
  next isEx =>
    rw [show asks msg = queuedRequest msg by simp only [asks, queuedRequest, isEx]; rfl]
    exact handleReq_serves serving random (by rw [isEx]; rfl)
  next isSh =>
    rw [show asks msg = queuedRequest msg by simp only [asks, queuedRequest, isSh]; rfl]
    exact handleReq_serves serving random (by rw [isSh]; rfl)
  next isUpgrade =>
    rw [show asks msg = queuedRequest msg by simp only [asks, queuedRequest, isUpgrade]; rfl]
    exact handleReq_serves serving random (by rw [isUpgrade]; rfl)
  next isInv =>
    exact processInvRepFromL2Cache_serves (silent (by rw [asks, isInv])) sender random msg
  next isFlush =>
    exact processFlushRepFromL2Cache_serves (silent (by rw [asks, isFlush])) sender random msg
  next isWb =>
    exact processWbRepFromL2Cache_serves (silent (by rw [asks, isWb])) sender random msg
  · exact nofun

/-- **One message.** The server accepts what the controller does, and a request is enqueued. -/
theorem step_serves (serving : Serving heard s) (e : Event D) :
    Ensures (Serving (heard ++ requestsOf [e])) InTime (step config e s) := by
  cases e with
  | fromL2Cache sender random msg =>
    have found := (find_aside config serving msg.address).serving
    have asked : requestsOf [Event.fromL2Cache sender random msg] = (asks msg).toList := by
      rw [requestsOf, List.filterMap_cons, List.filterMap_nil]
      dsimp only
      cases asks msg <;> rfl
    rw [asked]
    exact (processMsg_serves found sender random msg).bind fun r settled =>
      next_serves random settled.ready settled.waits
  | fromDRAM random msg =>
    have asked : heard ++ requestsOf [Event.fromDRAM random msg] = heard := List.append_nil heard
    rw [asked]
    change Ensures _ _ (handleMsgFromDRAM config random msg s)
    unfold handleMsgFromDRAM
    split_ifs
    · exact (processDRAMReply_serves serving msg).bind fun r settled =>
        next_serves random settled.ready settled.waits
    · exact nofun

theorem runEvents_serves (serving : Serving heard s) (es : List (Event D)) :
    Ensures (Serving (heard ++ requestsOf es)) InTime (runEvents (step config) es s) := by
  induction es generalizing heard s with
  | nil =>
    rw [show heard ++ requestsOf ([] : List (Event D)) = heard from List.append_nil heard]
    exact serving
  | cons e es ih =>
    have split : heard ++ requestsOf (e :: es) = (heard ++ requestsOf [e]) ++ requestsOf es := by
      rw [List.append_assoc, requestsOf, requestsOf, requestsOf, ← List.filterMap_append]
      rfl
    rw [split]
    exact (step_serves serving e).bind fun t now => ih now

/-- The arrivals that the server sees of an address, but for `NULLIFY_REQ`. -/
theorem arrivals_view (address : ℕ) (log : List (DramDirectory.Action D)) :
    ((arrivals address (log.filterMap view)).filter fun r => !isNullify r) =
      ((enqueuedRequests log).filter fun asked => decide (asked.1 = address)).map Prod.snd := by
  induction log with
  | nil => rfl
  | cons action log ih =>
    have first : ((arrivals address ([action].filterMap view)).filter fun r => !isNullify r) =
        ((enqueuedRequests [action]).filter fun asked => decide (asked.1 = address)).map
          Prod.snd := by
      cases action with
      | enqueued msg =>
        by_cases null : msg.msgType = .nullifyReq <;> by_cases same : msg.address = address <;>
          simp [arrivals, enqueuedRequests, view, queuedRequest, isNullify, requestOf, null, same]
      | sent receiver msg =>
        by_cases reply : isReply msg.msgType = true <;>
          simp [arrivals, enqueuedRequests, view, reply]
      | dequeued k => simp [arrivals, enqueuedRequests, view]
    rw [← List.singleton_append, arrivals, enqueuedRequests, List.filterMap_append,
      List.filterMap_append, List.filterMap_append, List.filter_append, List.filter_append,
      List.map_append]
    exact congrArg₂ (· ++ ·) first ih

/-- **Runs.** Whatever messages reach the controller, the server accepts its log and has its queues
after it, with nothing answered that still waits.  The requests of an address that were enqueued are
those that the caches sent, in order, and the controller's own `NULLIFY_REQ`; they get their replies
in order, one each, before they are dequeued.  No handler runs out of rounds. -/
theorem run_serves {replacementPtrs : ℕ → ℕ} {nuca : N} (es : List (Event D)) :
    Ensures (fun s => served s.log = some s.queuesOf ∧ ∀ address,
        ((arrivals address (s.log.filterMap view)).filter fun r => !isNullify r) =
          requestsTo address es ∧
        ∃ gone, InOrder answersRequest isNullify address (s.log.filterMap view)
          (s.queuesOf address) gone)
      InTime (runEvents (step config) es (Cntlr.start replacementPtrs nuca)) := by
  have kept : Ensures (Serving (requestsOf es)) InTime
      (runEvents (step config) es (Cntlr.start replacementPtrs nuca)) :=
    runEvents_serves (Serving.start _ _) es
  refine kept.mono fun s serving => ⟨serving.served_eq, fun address => ⟨?_, ?_⟩⟩
  · rw [arrivals_view, serving.heard_eq]
    rfl
  · exact serve_inOrder serving.served_eq address

/-- A directory with one entry; no cache has a line. -/
def emptyDirectory : Config ℕ Unit where
  directory := ⟨.fullMap, 4, 4, 1, 1, 6, fun _ => none⟩
  protocol := .mesi
  nuca := none
  getHome _ := 0
  coreId := 0

/-- The data for the first of two requests: it is answered and leaves, and the second one waits for
the owner. -/
example : (runEvents (step emptyDirectory)
      [.fromL2Cache 1 0 ⟨.exReq, 1, 64, none⟩, .fromL2Cache 2 0 ⟨.shReq, 2, 64, none⟩,
        .fromDRAM 0 ⟨.dramReadRep, 1, 64, some 7⟩]
      (Cntlr.start (fun _ => 0) ())).map (fun s => s.log.filterMap view) =
    .ok [.arrived 64 (.exReq, 1), .arrived 64 (.shReq, 2),
      .answered 64 (.lastLevelCache (some 1), .exRep, 1), .left 64] := rfl

end GpuHotSpot.Common.DramDirectory
