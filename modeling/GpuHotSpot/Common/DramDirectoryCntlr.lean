import GpuHotSpot.Common.DramDirectoryCache

/-!
# The directory controller

`common/core/memory_subsystem/pr_l1_pr_l2_dram_directory_msi/dram_directory_cntlr.cc`: the requests
of each address wait in a queue, and the front one is worked on until a reply is sent.

* `step`: one message.
-/

namespace GpuHotSpot.Common.DramDirectory

/-! ## Messages -/

/-- `ShmemMsg::msg_t`. -/
inductive MsgType
  | exReq
  | shReq
  | upgradeReq
  | invReq
  | flushReq
  | wbReq
  | exRep
  | shRep
  | upgradeRep
  | invRep
  | flushRep
  | wbRep
  | nullifyReq
  | dramReadReq
  | dramWriteReq
  | dramReadRep
  deriving DecidableEq, Repr

/-- `ShmemMsg`. -/
structure ShmemMsg (D : Type) where
  msgType : MsgType
  requester : ℕ
  address : ℕ
  dataBuf : Option D

/-- `ShmemReq`. -/
structure ShmemReq (D : Type) where
  msg : ShmemMsg D
  waitForData : Bool
  forwardingFrom : Option ℕ

/-- The constructor of `ShmemReq`. -/
def ShmemReq.of {D : Type} (msg : ShmemMsg D) : ShmemReq D := ⟨msg, false, none⟩

/-- Where a message goes. -/
inductive Receiver
  | lastLevelCache (core : Option ℕ)
  | dram (node : ℕ)
  deriving DecidableEq, Repr

/-- What the controller does: a request joins its queue, a message is sent, and the front request of
an address is dequeued by `processNextReqFromL2Cache`. -/
inductive Action (D : Type)
  | enqueued (msg : ShmemMsg D)
  | sent (receiver : Receiver) (msg : ShmemMsg D)
  | dequeued (address : ℕ)

/-! ## The state -/

/-- `CoherencyProtocol::type_t`. -/
inductive Protocol
  | msi
  | mesi
  | mesif
  deriving DecidableEq, Repr

/-- A NUCA cache: `read` and `write`, which may evict dirty data. -/
structure Nuca (D N : Type) where
  read : ℕ → N → Option D × N
  write : ℕ → D → N → Option (ℕ × D) × N

/-- The configuration. -/
structure Config (D N : Type) where
  directory : DirectoryConfig
  protocol : Protocol
  nuca : Option (Nuca D N)
  getHome : ℕ → ℕ
  coreId : ℕ

/-- The controller, and the log of what it did. -/
structure Cntlr (D N : Type) where
  cache : DirectoryCache
  queues : ℕ → List (ShmemReq D)
  nuca : N
  log : List (Action D)

variable {D N : Type}

/-- The controller at the start; the replacement pointers are not initialised. -/
def Cntlr.start (replacementPtrs : ℕ → ℕ) (nuca : N) : Cntlr D N :=
  ⟨⟨fun _ => ⟨0, .uncached, none, none, ∅⟩, 0, fun _ => [], replacementPtrs, []⟩, fun _ => [], nuca,
    []⟩

namespace Cntlr

/-- The entry at a pointer. -/
def entry (pointer : ℕ) (s : Cntlr D N) : Entry := s.cache.heap pointer

/-- The entry at a pointer is changed. -/
def write (pointer : ℕ) (e : Entry) (s : Cntlr D N) : Cntlr D N :=
  { s with cache := s.cache.write pointer e }

/-- `sendMsg`. -/
def send (receiver : Receiver) (msgType : MsgType) (requester address : ℕ) (data : Option D)
    (s : Cntlr D N) : Cntlr D N :=
  { s with log := s.log ++ [.sent receiver ⟨msgType, requester, address, data⟩] }

/-- A message to a cache. -/
def sendToCache (receiver : Option ℕ) (msgType : MsgType) (requester address : ℕ)
    (data : Option D) (s : Cntlr D N) : Cntlr D N :=
  s.send (.lastLevelCache receiver) msgType requester address data

/-- `ReqQueueList::enqueue`. -/
def enqueue (req : ShmemReq D) (s : Cntlr D N) : Cntlr D N :=
  let address := req.msg.address
  { s with
    queues := Function.update s.queues address (s.queues address ++ [req])
    log := s.log ++ [.enqueued req.msg] }

/-- `ReqQueueList::dequeue`. -/
def dequeue (address : ℕ) (s : Cntlr D N) : Cntlr D N :=
  { s with
    queues := Function.update s.queues address (s.queues address).tail
    log := s.log ++ [.dequeued address] }

/-- The front request is changed. -/
def setFront (address : ℕ) (req : ShmemReq D) (s : Cntlr D N) : Cntlr D N :=
  { s with queues := Function.update s.queues address (req :: (s.queues address).tail) }

end Cntlr

section Code

variable (config : Config D N)

/-! ## Entries and data -/

/-- `getDirectoryEntry`. -/
def find (address : ℕ) (s : Cntlr D N) : Option ℕ × Cntlr D N :=
  let (pointer, cache) := getDirectoryEntry config.directory address s.cache
  (pointer, { s with cache := cache })

/-- `getDirectoryEntry`, with the assertion that there is one. -/
def entryOf (address : ℕ) (s : Cntlr D N) : Except Stop (ℕ × Cntlr D N) :=
  match find config address s with
  | (some pointer, s) => .ok (pointer, s)
  | (none, _) => .error .noEntry

/-- The NUCA cache is read, if there is one. -/
def readNuca (address : ℕ) (s : Cntlr D N) : Option D × Cntlr D N :=
  match config.nuca with
  | none => (none, s)
  | some cache =>
    let (data, nuca) := cache.read address s.nuca
    (data, { s with nuca := nuca })

/-- `sendDataToNUCA`. -/
def sendDataToNUCA (address : ℕ) (data : D) (s : Cntlr D N) : Cntlr D N :=
  match config.nuca with
  | none => s
  | some cache =>
    let (evicted, nuca) := cache.write address data s.nuca
    let s := { s with nuca := nuca }
    match evicted with
    | none => s
    | some (evictAddress, evictBuf) =>
      s.send (.dram (config.getHome evictAddress)) .dramWriteReq config.coreId evictAddress
        (some evictBuf)

/-- `sendDataToDram`. -/
def sendDataToDram (address requester : ℕ) (data : Option D) (s : Cntlr D N) :
    Except Stop (Cntlr D N) :=
  match data with
  | none => .error .noData
  | some data =>
    match config.nuca with
    | some _ => .ok (sendDataToNUCA config address data s)
    | none => .ok (s.send (.dram (config.getHome address)) .dramWriteReq requester address
        (some data))

/-- `retrieveDataAndSendToL2Cache`. -/
def retrieveDataAndSendToL2Cache (reply : MsgType) (receiver address : ℕ) (cached : Option D)
    (s : Cntlr D N) : Except Stop (Bool × Cntlr D N) := do
  let (pointer, s) ← entryOf config address s
  match cached with
  | some data =>
    let s := s.write pointer { s.entry pointer with forwarder := some receiver }
    .ok (true, s.sendToCache (some receiver) reply receiver address (some data))
  | none =>
    match readNuca config address s with
    | (some data, s) =>
      .ok (true, s.sendToCache (some receiver) reply receiver address (some data))
    | (none, s) =>
      let e := s.entry pointer
      match s.queues address with
      | [] => .error .noRequest
      | req :: _ =>
        -- Once forwarding has failed, it is not tried again.
        if config.protocol = .mesif ∧ req.forwardingFrom = none ∧ e.dstate = .shared ∧
            e.forwarder ≠ none then
          let s := s.setFront address { req with forwardingFrom := e.forwarder }
          .ok (false, s.sendToCache e.forwarder .wbReq receiver address none)
        else
          let s := s.setFront address { req with waitForData := true }
          .ok (false, s.send (.dram (config.getHome address)) .dramReadReq receiver address
            none)

/-- A message to each core of a list. -/
def sendToEach (cores : List ℕ) (msgType : MsgType) (requester address : ℕ) (s : Cntlr D N) :
    Cntlr D N :=
  cores.foldl (fun s core => s.sendToCache (some core) msgType requester address none) s

/-! ## Allocation -/

/-- `processNullifyReq`. -/
def processNullifyReq (req : ShmemReq D) (s : Cntlr D N) : Except Stop (Bool × Cntlr D N) := do
  let address := req.msg.address
  let requester := req.msg.requester
  let (pointer, s) ← entryOf config address s
  let e := s.entry pointer
  match e.dstate with
  | .exclusive | .modified => .ok (false, s.sendToCache e.owner .flushReq requester address none)
  | .shared => .ok (false, sendToEach e.getSharersList .invReq requester address s)
  | .uncached =>
    let cache ← invalidateDirectoryEntry address s.cache
    .ok (true, { s with cache := cache })
  | .owned => .error .unsupportedState

/-- One candidate of the loop that looks for the entry with the fewest sharers. -/
def candidate (s : Cntlr D N) (best : Option ℕ) (it : ℕ) : Option ℕ :=
  if best.all (fun b => (s.entry it).getNumSharers < (s.entry b).getNumSharers) ∧
      (s.queues (s.entry it).address).length = 0 then some it
  else best

/-- The rest of `processDirectoryEntryAllocationReq`: an entry is replaced, and its address gets a
request of its own. -/
def replaceCandidate (req : ShmemReq D) (replaced : ℕ) (s : Cntlr D N) :
    Except Stop (ℕ × Cntlr D N) := do
  let replacedAddress := (s.entry replaced).address
  let (pointer, cache) ←
    replaceDirectoryEntry config.directory replacedAddress req.msg.address s.cache
  let nullifyReq := ShmemReq.of ⟨.nullifyReq, req.msg.requester, replacedAddress, none⟩
  let s := Cntlr.enqueue nullifyReq { s with cache := cache }
  if (s.queues replacedAddress).length ≠ 1 then .error .requestsOutstanding
  else do
    let (done, s) ← processNullifyReq config nullifyReq s
    -- `processNextReqFromL2Cache` finds no further request in this queue.
    .ok (pointer, if done then s.dequeue replacedAddress else s)

/-- `processDirectoryEntryAllocationReq`. -/
def processDirectoryEntryAllocationReq (req : ShmemReq D) (s : Cntlr D N) :
    Except Stop (ℕ × Cntlr D N) :=
  let candidates := getReplacementCandidates config.directory req.msg.address s.cache
  let s := { s with cache := candidates.2 }
  match candidates.1.foldl (candidate s) none with
  | none => .error .noReplacement
  | some replaced => replaceCandidate config req replaced s

/-- The entry of a request, which is allocated if there is none. -/
def entryFor (req : ShmemReq D) (s : Cntlr D N) : Except Stop (ℕ × Cntlr D N) :=
  match find config req.msg.address s with
  | (some pointer, s) => .ok (pointer, s)
  | (none, s) => processDirectoryEntryAllocationReq config req s

/-! ## Requests -/

/-- The requester becomes a sharer and the owner. -/
def own (requester : ℕ) (dstate : DState) (e : Entry) : Except Stop Entry := do
  let (added, e) ← e.addSharer config.directory requester
  if added then do
    let e ← e.setOwner requester
    .ok { e with dstate := dstate }
  else .error .addFailed

/-- `processExReqFromL2Cache`. -/
def processExReqFromL2Cache (req : ShmemReq D) (cached : Option D) (s : Cntlr D N) :
    Except Stop (Bool × Cntlr D N) := do
  let address := req.msg.address
  let requester := req.msg.requester
  let (pointer, s) ← entryFor config req s
  let e := s.entry pointer
  match e.dstate with
  | .exclusive | .modified =>
    if cached.isSome then .error .cachedData
    else .ok (false, s.sendToCache e.owner .flushReq requester address none)
  | .shared =>
    if cached.isSome then .error .cachedData
    else .ok (false, sendToEach e.getSharersList .invReq requester address s)
  | .uncached =>
    let e ← own config requester .modified e
    retrieveDataAndSendToL2Cache config .exRep requester address cached (s.write pointer e)
  | .owned => .error .unsupportedState

/-- `processShReqFromL2Cache`; `random` is for `getOneSharer`. -/
def processShReqFromL2Cache (random : ℕ) (req : ShmemReq D) (cached : Option D) (s : Cntlr D N) :
    Except Stop (Bool × Cntlr D N) := do
  let address := req.msg.address
  let requester := req.msg.requester
  let (pointer, s) ← entryFor config req s
  let e := s.entry pointer
  match e.dstate with
  | .exclusive =>
    if e.owner = some requester then .error .requesterIsOwner
    else if cached.isSome then .error .cachedData
    else .ok (false, s.sendToCache e.owner .wbReq requester address none)
  | .modified =>
    if cached.isSome then .error .cachedData
    else .ok (false, s.sendToCache e.owner .wbReq requester address none)
  | .shared =>
    if requester ∈ e.sharers then
      retrieveDataAndSendToL2Cache config .shRep requester address cached s
    else do
      let (added, e) ← e.addSharer config.directory requester
      if added then
        retrieveDataAndSendToL2Cache config .shRep requester address cached (s.write pointer e)
      else do
        let sharer ← e.getOneSharer config.directory random
        .ok (false, s.sendToCache (some sharer) .invReq requester address none)
  | .uncached =>
    if config.protocol = .msi then do
      let e ← own config requester .shared e
      retrieveDataAndSendToL2Cache config .shRep requester address cached (s.write pointer e)
    else do
      let e ← own config requester .exclusive e
      retrieveDataAndSendToL2Cache config .exRep requester address cached (s.write pointer e)
  | .owned => .error .unsupportedState

/-- The messages of an upgrade to the sharers: if the requester has no copy, the first sharer is
asked for the data. -/
def sendForUpgrade (sharers : List ℕ) (requesterHasCopy : Bool) (requester address : ℕ)
    (s : Cntlr D N) : Cntlr D N :=
  sharers.zipIdx.foldl (fun s (sharer, i) =>
    if sharer ≠ requester then
      let msgType := if !requesterHasCopy && i == 0 then MsgType.flushReq else .invReq
      s.sendToCache (some sharer) msgType requester address none
    else s) s

/-- `processUpgradeReqFromL2Cache`. -/
def processUpgradeReqFromL2Cache (req : ShmemReq D) (cached : Option D) (s : Cntlr D N) :
    Except Stop (Bool × Cntlr D N) := do
  let address := req.msg.address
  let requester := req.msg.requester
  let (pointer, s) ← entryFor config req s
  let e := s.entry pointer
  match e.dstate with
  | .exclusive | .modified =>
    match e.getSharersList with
    | [] => .error .noSharers
    | sharer :: _ =>
      if sharer = requester then
        if e.owner ≠ some requester then .error .ownerNotSharer
        else
          let s := s.sendToCache (some requester) .upgradeRep requester address none
          .ok (true, s.write pointer { e with dstate := .modified })
      else .ok (false, s.sendToCache e.owner .flushReq requester address none)
  | .shared =>
    if e.getSharersList = [requester] then do
      let e ← e.setOwner requester
      let s := s.write pointer { e with dstate := .modified }
      .ok (true, s.sendToCache (some requester) .upgradeRep requester address none)
    else
      .ok (false, sendForUpgrade e.getSharersList (decide (requester ∈ e.sharers)) requester
        address s)
  | .uncached =>
    if e.getSharersList.length ≠ 0 then .error .sharersLeft
    else do
      let e ← own config requester .modified e
      retrieveDataAndSendToL2Cache config .exRep requester address (cached <|> req.msg.dataBuf)
        (s.write pointer e)
  | .owned => .error .unsupportedState

/-- The call for the type of a request in `processNextReqFromL2Cache`. -/
def processReq (random : ℕ) (req : ShmemReq D) (s : Cntlr D N) : Except Stop (Bool × Cntlr D N) :=
  match req.msg.msgType with
  | .exReq => processExReqFromL2Cache config req none s
  | .shReq => processShReqFromL2Cache config random req none s
  | .upgradeReq => processUpgradeReqFromL2Cache config req none s
  | _ => .error .unsupportedType

/-- `processNextReqFromL2Cache`, for a number of requests; each call is the last one of the handler
that makes it. -/
def processNextReqFromL2Cache (random address : ℕ) : ℕ → Cntlr D N → Except Stop (Cntlr D N)
  | 0, _ => .error .outOfRounds
  | rounds + 1, s =>
    match s.queues address with
    | [] => .error .noRequest
    | _ :: rest =>
      let s := s.dequeue address
      match rest with
      | [] => .ok s
      | req :: _ => do
          let (done, s) ← processReq config random req s
          if done then processNextReqFromL2Cache random address rounds s else .ok s

/-! ## Replies -/

/-- The reply of `processDRAMReply` to a request. -/
def replyType (msgType : MsgType) (dstate : DState) : Except Stop MsgType :=
  match msgType with
  | .shReq =>
    if dstate = .exclusive then .ok .exRep
    else if dstate = .shared then .ok .shRep
    else .error .unsupportedState
  | .exReq => if dstate = .modified then .ok .exRep else .error .unsupportedState
  | .upgradeReq => .ok .exRep
  | _ => .error .unsupportedType

/-- `processDRAMReply`. -/
def processDRAMReply (msg : ShmemMsg D) (s : Cntlr D N) : Except Stop (Bool × Cntlr D N) :=
  let address := msg.address
  match s.queues address with
  | [] => .error .noRequest
  | req :: _ => do
      let (pointer, s) ← entryOf config address s
      let e := s.entry pointer
      let reply ← replyType req.msg.msgType e.dstate
      let requester := req.msg.requester
      match msg.dataBuf with
      | none => .error .noData
      | some data =>
        let s := s.sendToCache (some requester) reply requester address (some data)
        .ok (true, sendDataToNUCA config address data s)

/-- The entry in `processInvRepFromL2Cache`. -/
def invalidate (sender : ℕ) (e : Entry) : Except Stop Entry := do
  let e ← e.removeSharer sender
  let e := if e.forwarder = some sender then { e with forwarder := none } else e
  .ok (if e.getNumSharers = 0 then { e with dstate := .uncached } else e)

/-- The entry in `processFlushRepFromL2Cache`. -/
def flush (sender : ℕ) (e : Entry) : Except Stop Entry := do
  let e ← e.removeSharer sender
  let e := { e with forwarder := none, owner := none }
  if e.getNumSharers = 0 then .ok { e with dstate := .uncached }
  else if e.dstate = .shared then .ok e
  else .error .sharersLeft

/-- `processInvRepFromL2Cache`. -/
def processInvRepFromL2Cache (sender random : ℕ) (msg : ShmemMsg D) (s : Cntlr D N) :
    Except Stop (Bool × Cntlr D N) := do
  let address := msg.address
  let (pointer, s) ← entryOf config address s
  let e := s.entry pointer
  if e.dstate ≠ .shared ∧ e.dstate ≠ .exclusive then .error .unsupportedState
  else do
    let e ← invalidate sender e
    let s := s.write pointer e
    match s.queues address with
    | [] => .ok (false, s)
    | req :: _ =>
      match req.msg.msgType with
      | .exReq =>
        if e.dstate = .uncached then processExReqFromL2Cache config req none s
        else .ok (false, s)
      | .upgradeReq =>
        if e.getNumSharers = 1 then
          if req.msg.requester ∈ e.sharers then processUpgradeReqFromL2Cache config req none s
          else .ok (false, s)
        else if e.getNumSharers = 0 then
          processUpgradeReqFromL2Cache config req none
            (s.write pointer { e with dstate := .uncached })
        else .ok (false, s)
      | .shReq =>
        -- A voluntary invalidate: the request waits for its data.
        if req.waitForData then .ok (false, s)
        else if req.forwardingFrom ≠ none ∧ req.forwardingFrom ≠ some sender then .ok (false, s)
        else processShReqFromL2Cache config random req none s
      | _ =>
        if e.dstate = .uncached then processNullifyReq config req s else .ok (false, s)

/-- `processFlushRepFromL2Cache`. -/
def processFlushRepFromL2Cache (sender random : ℕ) (msg : ShmemMsg D) (s : Cntlr D N) :
    Except Stop (Bool × Cntlr D N) := do
  let address := msg.address
  let (pointer, s) ← entryOf config address s
  let e ← flush sender (s.entry pointer)
  let s := s.write pointer e
  match s.queues address with
  | [] => do
      let s ← sendDataToDram config address msg.requester msg.dataBuf s
      .ok (false, s)
  | req :: _ =>
    match req.msg.msgType with
    | .exReq => processExReqFromL2Cache config req msg.dataBuf s
    | .shReq => do
        let s ← sendDataToDram config address msg.requester msg.dataBuf s
        processShReqFromL2Cache config random req msg.dataBuf s
    | .upgradeReq =>
      if e.getNumSharers = 0 then processUpgradeReqFromL2Cache config req msg.dataBuf s
      else
        -- The buffer stays that of the message, which is deleted after the call.
        .ok (false, s.setFront address { req with
          msg := { req.msg with dataBuf := msg.dataBuf } })
    | _ => do
        let s ← sendDataToDram config address msg.requester msg.dataBuf s
        processNullifyReq config req s

/-- `processWbRepFromL2Cache`. -/
def processWbRepFromL2Cache (sender random : ℕ) (msg : ShmemMsg D) (s : Cntlr D N) :
    Except Stop (Bool × Cntlr D N) := do
  let address := msg.address
  let (pointer, s) ← entryOf config address s
  let e := s.entry pointer
  if sender ∉ e.sharers then .error .notSharer
  else
    let s := s.write pointer { e with owner := none, dstate := .shared }
    match s.queues address with
    | [] => .error .unexpectedWriteBack
    | req :: _ =>
      if req.msg.msgType ≠ .shReq then .error .unexpectedWriteBack
      else processShReqFromL2Cache config random req msg.dataBuf s

/-! ## Messages to the controller -/

/-- `processNextReqFromL2Cache`, if it is due. -/
def next (random address : ℕ) (r : Bool × Cntlr D N) : Except Stop (Cntlr D N) :=
  if r.1 then processNextReqFromL2Cache config random address (r.2.queues address).length r.2
  else .ok r.2

/-- A request joins its queue, and is worked on if it is alone in it. -/
def handleReq (random : ℕ) (msg : ShmemMsg D) (s : Cntlr D N) : Except Stop (Bool × Cntlr D N) :=
  if msg.dataBuf.isSome then .error .dataPayload
  else
    let req := ShmemReq.of msg
    let s := s.enqueue req
    if (s.queues msg.address).length = 1 then processReq config random req s else .ok (false, s)

/-- The calls of `handleMsgFromL2Cache`. -/
def processMsg (sender random : ℕ) (msg : ShmemMsg D) (s : Cntlr D N) :
    Except Stop (Bool × Cntlr D N) :=
  match msg.msgType with
  | .exReq | .shReq | .upgradeReq => handleReq config random msg s
  | .invRep => processInvRepFromL2Cache config sender random msg s
  | .flushRep => processFlushRepFromL2Cache config sender random msg s
  | .wbRep => processWbRepFromL2Cache config sender random msg s
  | _ => .error .unsupportedType

/-- `handleMsgFromL2Cache`; the look-up that is modelled in time comes first. -/
def handleMsgFromL2Cache (sender random : ℕ) (msg : ShmemMsg D) (s : Cntlr D N) :
    Except Stop (Cntlr D N) := do
  let r ← processMsg config sender random msg (find config msg.address s).2
  next config random msg.address r

/-- `handleMsgFromDRAM`. -/
def handleMsgFromDRAM (random : ℕ) (msg : ShmemMsg D) (s : Cntlr D N) : Except Stop (Cntlr D N) :=
  if msg.msgType = .dramReadRep then do
    let r ← processDRAMReply config msg s
    next config random msg.address r
  else .error .unsupportedType

/-- A message that reaches the controller. -/
inductive Event (D : Type)
  | fromL2Cache (sender random : ℕ) (msg : ShmemMsg D)
  | fromDRAM (random : ℕ) (msg : ShmemMsg D)

/-- One message. -/
def step (e : Event D) (s : Cntlr D N) : Except Stop (Cntlr D N) :=
  match e with
  | .fromL2Cache sender random msg => handleMsgFromL2Cache config sender random msg s
  | .fromDRAM random msg => handleMsgFromDRAM config random msg s

end Code

end GpuHotSpot.Common.DramDirectory
