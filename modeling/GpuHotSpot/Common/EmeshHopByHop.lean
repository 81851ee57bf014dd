import GpuHotSpot.Lib.GridDistance

/-!
# The hop-by-hop mesh

`common/network/network_model_emesh_hop_by_hop.cc` and the parts of `common/network/network.cc`
that send and receive through it. Cores sit on the stops of a mesh or torus, `concentration` of them
on each; the first core of a stop is its master, the others are fake nodes. A packet is routed stop
by stop; each link, and the ports where packets enter and leave, have a queue model.

What the queue models answer is the environment's choice: `answers n` is the delay they give to the
`n`th question, and the questions asked so far are the state of the functions that ask. A `LOG_ASSERT`
that fails is `none`, as is a loop that is given too little fuel.
-/

namespace GpuHotSpot.Common.EmeshHopByHop

open Grid

/-- `subsecond_time_t`. -/
abbrev SubsecondTime := ℕ

/-- `OutputDirection`; the last three have no queue. -/
inductive OutputDirection
  | up | down | left | right | self | peer | destination
  deriving DecidableEq

/-- `direction < NUM_OUTPUT_DIRECTIONS`. -/
def OutputDirection.isLink : OutputDirection → Bool
  | up | down | left | right => true
  | self | peer | destination => false

/-- The queue models of a core. -/
inductive Port
  | link (direction : OutputDirection)
  | injection
  | ejection
  deriving DecidableEq

/-- The questions asked so far: of which core's port. -/
abbrev Asked := List (ℕ × Port)

/-- The mesh and what its network models read from the configuration: `hop_latency` counts cycles, and
the period of a core is that of its DVFS domain. -/
structure Mesh where
  width : ℕ
  height : ℕ
  concentration : ℕ
  width_pos : 0 < width
  height_pos : 0 < height
  concentration_pos : 0 < concentration
  wrapAround : Bool
  broadcastTreeEnabled : Bool
  queueModelEnabled : Bool
  enabled : Bool
  hopCycles : ℕ
  period : ℕ → SubsecondTime
  linkBandwidth : ℕ
  linkBandwidth_pos : 0 < linkBandwidth
  totalCores : ℕ
  fits : concentration * (width * height) ≤ totalCores

/-- `getApplicationCores`; `computeMeshDimensions` asserts that the mesh has room for just these. -/
def Mesh.applicationCores (m : Mesh) : ℕ := m.concentration * (m.width * m.height)

/-- `m_hop_latency.getLatency()` of the model at a core. -/
def Mesh.hopLatency (m : Mesh) (core : ℕ) : SubsecondTime := m.hopCycles * m.period core

/-- `NetPacket::receiver`: a core, or `BROADCAST`. -/
inductive Receiver
  | core (id : ℕ)
  | broadcast
  deriving DecidableEq

/-- `NetPacket`: `requester` is the one that the data of a `SHARED_MEM_1` packet names, and the sender
of another; `length` is `getModeledLength`. Both are cores, as the assertions of `routePacket` and
`netPullFromTransport` check. -/
structure NetPacket (m : Mesh) where
  startTime : SubsecondTime
  time : SubsecondTime
  queueDelay : SubsecondTime
  sender : Fin m.totalCores
  receiver : Receiver
  length : ℕ
  requester : Fin m.totalCores

/-- The constructor of `NetPacket`. -/
def NetPacket.new {m : Mesh} (time : SubsecondTime) (sender : Fin m.totalCores)
    (receiver : Receiver) (length : ℕ) (requester : Fin m.totalCores) : NetPacket m where
  startTime := 0
  time := time
  queueDelay := 0
  sender := sender
  receiver := receiver
  length := length
  requester := requester

/-- `NetworkModel::Hop`. -/
structure Hop where
  finalDest : Receiver
  nextDest : ℕ
  time : SubsecondTime

section Model

variable (m : Mesh) (answers : ℕ → SubsecondTime)

/-! ## Positions -/

/-- `m_fake_node`: not the master of a stop. -/
def fakeNode (core : ℕ) : Bool := core % m.concentration ≠ 0 ∨ m.applicationCores ≤ core

def computePosition (core : ℕ) : ℤ × ℤ :=
  (((core / m.concentration % m.width : ℕ) : ℤ), ((core / m.concentration / m.width : ℕ) : ℤ))

def computeCoreId (x y : ℤ) : ℕ :=
  (((y + m.height) % m.height * m.width + (x + m.width) % m.width) * m.concentration).toNat

def computeDistance (sender receiver : ℕ) : ℤ :=
  let s := computePosition m sender
  let d := computePosition m receiver
  if m.wrapAround then
    min |s.1 - d.1| (m.width - |s.1 - d.1|) + min |s.2 - d.2| (m.height - |s.2 - d.2|)
  else |s.1 - d.1| + |s.2 - d.2|

/-- `getNextDest` of the model at `core`. -/
def getNextDest (core finalDest : ℕ) : OutputDirection × ℕ :=
  if m.applicationCores ≤ finalDest then (.destination, finalDest)
  else if core / m.concentration = finalDest / m.concentration then (.destination, finalDest)
  else if fakeNode m core then (.peer, core - core % m.concentration)
  else
    let s := computePosition m core
    let d := computePosition m finalDest
    if xor (s.1 > d.1) (m.wrapAround && |s.1 - d.1| > (m.width + 1) / 2) then
      (.left, computeCoreId m (s.1 - 1) s.2)
    else if s.1 ≠ d.1 then (.right, computeCoreId m (s.1 + 1) s.2)
    else if xor (s.2 > d.2) (m.wrapAround && |s.2 - d.2| > (m.height + 1) / 2) then
      (.down, computeCoreId m s.1 (s.2 - 1))
    else if s.2 ≠ d.2 then (.up, computeCoreId m s.1 (s.2 + 1))
    else (.self, core)

/-! ## Delays -/

/-- `getRoundedLatency` of the bits of a packet, at a core. -/
def computeProcessingTime (core length : ℕ) : SubsecondTime :=
  (length * 8 * m.period core + m.period core / 2) / m.linkBandwidth

/-- `computeQueueDelay` of the queue model of a port, when there are queue models: the next answer. -/
def queueDelay (core : ℕ) (port : Port) (asked : Asked) : SubsecondTime × Asked :=
  if m.queueModelEnabled then (answers asked.length, asked ++ [(core, port)]) else (0, asked)

/-- `computeLatency`: the latency of a link and its part that is queueing delay. -/
def computeLatency (core : ℕ) (direction : OutputDirection) (requester : ℕ) (asked : Asked) :
    (SubsecondTime × SubsecondTime) × Asked :=
  if !m.enabled || m.applicationCores ≤ requester then ((0, 0), asked)
  else
    let queued := queueDelay m answers core (.link direction) asked
    ((m.hopLatency core + queued.1, queued.1), queued.2)

def computeInjectionPortQueueDelay (core : ℕ) (receiver : Receiver) (asked : Asked) :
    SubsecondTime × Asked :=
  if receiver = .core core then (0, asked) else queueDelay m answers core .injection asked

/-- `addHop`: the hop and its queueing delay. -/
def addHop (core : ℕ) (direction : OutputDirection) (finalDest : Receiver) (nextDest : ℕ)
    (time : SubsecondTime) (requester : ℕ) (asked : Asked) : (Hop × SubsecondTime) × Asked :=
  if direction.isLink then
    let latency := computeLatency m answers core direction requester asked
    ((⟨finalDest, nextDest, time + latency.1.1⟩, latency.1.2), latency.2)
  else ((⟨finalDest, nextDest, time⟩, 0), asked)

/-! ## Routing -/

/-- The hops of `routePacket` for a broadcast in a tree, in order. -/
def treeHops (core sender : ℕ) : List (OutputDirection × Receiver × ℕ) :=
  let s := computePosition m sender
  let c := computePosition m core
  (if c.2 ≥ s.2 then [(.up, .broadcast, computeCoreId m c.1 (c.2 + 1))] else []) ++
  (if c.2 ≤ s.2 then [(.down, .broadcast, computeCoreId m c.1 (c.2 - 1))] else []) ++
  (if c.2 = s.2 then
    (if c.1 ≥ s.1 then [(.right, .broadcast, computeCoreId m (c.1 + 1) c.2)] else []) ++
    (if c.1 ≤ s.1 then [(.left, .broadcast, computeCoreId m (c.1 - 1) c.2)] else []) ++
    (if c.1 = s.1 then [(.self, .core core, core)] else [])
  else [])

/-- Several `addHop` at one time. -/
def addHops (core : ℕ) (time : SubsecondTime) (requester : ℕ) :
    List (OutputDirection × Receiver × ℕ) → Asked → List Hop × Asked
  | [], asked => ([], asked)
  | (direction, finalDest, nextDest) :: hops, asked =>
    let added := addHop m answers core direction finalDest nextDest time requester asked
    let rest := addHops core time requester hops added.2
    (added.1.1 :: rest.1, rest.2)

/-- A broadcast without a tree: a unicast hop to each receiver. -/
def unicastHops (core : ℕ) (time : SubsecondTime) (requester : ℕ) :
    List ℕ → Asked → List Hop × Asked
  | [], asked => ([], asked)
  | i :: receivers, asked =>
    let injection := computeInjectionPortQueueDelay m answers core (.core i) asked
    let next := getNextDest m core i
    let added := addHop m answers core next.1 (.core i) next.2 (time + injection.1) requester
      injection.2
    let rest := unicastHops core time requester receivers added.2
    (added.1.1 :: rest.1, rest.2)

variable {m}

/-- The part of `routePacket` for `BROADCAST`. -/
def routeBroadcast (core : ℕ) (pkt : NetPacket m) (asked : Asked) : Option (List Hop × Asked) :=
  if fakeNode m core then
    some ((List.range m.totalCores).map fun i => ⟨.core i, i, pkt.time⟩, asked)
  else if m.broadcastTreeEnabled then
    let injection := if pkt.sender = core then
        computeInjectionPortQueueDelay m answers core .broadcast asked
      else (0, asked)
    some (addHops m answers core (pkt.time + injection.1) pkt.requester
      (treeHops m core pkt.sender) injection.2)
  else if pkt.sender = core then
    some (unicastHops m answers core pkt.time pkt.requester (List.range m.totalCores) asked)
  else none

/-- The part of `routePacket` for one receiver: the hop, and the packet with its queueing delay. -/
def routeUnicast (core : ℕ) (receiver : ℕ) (pkt : NetPacket m) (asked : Asked) :
    (Hop × NetPacket m) × Asked :=
  if fakeNode m core then ((⟨.core receiver, receiver, pkt.time⟩, pkt), asked)
  else
    let injection := if pkt.sender = core then
        computeInjectionPortQueueDelay m answers core (.core receiver) asked
      else (0, asked)
    let next := getNextDest m core receiver
    let added := addHop m answers core next.1 (.core receiver) next.2 (pkt.time + injection.1)
      pkt.requester injection.2
    ((added.1.1, { pkt with queueDelay := pkt.queueDelay + injection.1 + added.1.2 }), added.2)

/-- `routePacket` of the model at `core`: the hops, and the packet as it leaves it. -/
def routePacket (core : ℕ) (pkt : NetPacket m) (asked : Asked) :
    Option ((List Hop × NetPacket m) × Asked) :=
  match pkt.receiver with
  | .broadcast => (routeBroadcast answers core pkt asked).map fun r => ((r.1, pkt), r.2)
  | .core receiver =>
    let routed := routeUnicast answers core receiver pkt asked
    some (([routed.1.1], routed.1.2), routed.2)

/-! ## Sending and receiving -/

/-- The shortcut of `netSend`: while the next destination is not the final one, the packet is routed
there. -/
def shortcut : ℕ → Hop → NetPacket m → Asked → Option ((Hop × NetPacket m) × Asked)
  | 0, _, _, _ => none
  | fuel + 1, hop, pkt, asked =>
    if hop.finalDest = .broadcast ∨ hop.finalDest = .core hop.nextDest then
      some ((hop, pkt), asked)
    else
      match routePacket answers hop.nextDest
          { pkt with time := hop.time, receiver := hop.finalDest } asked with
      | some (([next], routed), asked) => shortcut fuel next routed asked
      | _ => none

/-- The loop of `netSend` over its hops: what is put on the transport, and for whom. The buffer is a
copy of the packet. -/
def sendHops (fuel core : ℕ) (startTime : SubsecondTime) :
    List Hop → NetPacket m → NetPacket m → Asked → Option (List (ℕ × NetPacket m) × Asked)
  | [], _, _, asked => some ([], asked)
  | hop :: hops, buffer, pkt, asked => do
      let reached ← shortcut answers fuel hop pkt asked
      let started : NetPacket m :=
        if core = buffer.sender then { buffer with startTime := startTime } else buffer
      let filled : NetPacket m :=
        { started with time := reached.1.1.time, receiver := reached.1.1.finalDest }
      let rest ← sendHops fuel core startTime hops filled reached.1.2 reached.2
      some ((reached.1.1.nextDest, filled) :: rest.1, rest.2)

/-- `netSend` of a core: the buffer is made after the packet is routed for the first time. -/
def netSend (fuel core : ℕ) (pkt : NetPacket m) (asked : Asked) :
    Option (List (ℕ × NetPacket m) × Asked) := do
  let routed ← routePacket answers core pkt asked
  sendHops answers fuel core pkt.time routed.1.1 routed.1.2 routed.1.2 routed.2

/-- `processReceivedPacket`: the packet, and the contention delay, if the models are on. The code
computes it with unsigned numbers: a negative one is an underflow. -/
def processReceivedPacket (core : ℕ) (pkt : NetPacket m) (asked : Asked) :
    (NetPacket m × Option ℤ) × Asked :=
  if !m.enabled || m.applicationCores ≤ pkt.requester || m.applicationCores ≤ core then
    ((pkt, none), asked)
  else
    let packetLatency : ℤ := pkt.time - pkt.startTime
    let contentionDelay := packetLatency - computeDistance m pkt.sender core * m.hopLatency core
    if pkt.sender ≠ core ∧ !fakeNode m core then
      let ejection := queueDelay m answers core .ejection asked
      (({ pkt with
          time := pkt.time + (ejection.1 + computeProcessingTime m core pkt.length)
          queueDelay := pkt.queueDelay + ejection.1 },
        some (contentionDelay + ejection.1)), ejection.2)
    else ((pkt, some contentionDelay), asked)

end Model

end GpuHotSpot.Common.EmeshHopByHop
