import Mathlib.Algebra.BigOperators.Intervals
import Mathlib.Algebra.BigOperators.Ring.List
import GpuHotSpot.Common.MeshRouting

/-!
# A unicast packet in the mesh

What becomes of a packet from `netSend` at its sender to `processReceivedPacket` at its receiver, when
the models are on for it.

* `netSend_unicast`: one copy is put on the transport, with the latency of all its links, but with
  only the queueing delay that the packet had met when it was copied: that of its first link.
* `routing_law`: the links of a route are as many as the distance exactly off half way round a ring
  of odd length; the contention delay is none but queueing delay exactly if, besides, the links take
  as long as the receiver counts for them.
* `queueing_travels`: the whole queueing delay arrives exactly when the later links have none.
-/

namespace GpuHotSpot.Common.EmeshHopByHop

open Grid

variable {m : Mesh} {answers : ℕ → SubsecondTime} {core receiver requester : ℕ}
  {pkt : NetPacket m} {asked : Asked}

/-! ## Answers -/

/-- The delays answered to these questions, of which the first is the `k`th. -/
def total (answers : ℕ → SubsecondTime) (k : ℕ) (ports : Asked) : SubsecondTime :=
  ∑ i ∈ Finset.range ports.length, answers (k + i)

@[simp] theorem total_nil (answers : ℕ → SubsecondTime) (k : ℕ) : total answers k [] = 0 := rfl

theorem total_append (answers : ℕ → SubsecondTime) (k : ℕ) (ports ports' : Asked) :
    total answers k (ports ++ ports') =
      total answers k ports + total answers (k + ports.length) ports' := by
  rw [total, List.length_append, Finset.sum_range_add]
  simp only [total, Nat.add_assoc]

/-- The questions that are asked when ports are passed. -/
def charged (m : Mesh) (ports : Asked) : Asked := if m.queueModelEnabled then ports else []

theorem charged_append (m : Mesh) (ports ports' : Asked) :
    charged m (ports ++ ports') = charged m ports ++ charged m ports' := by
  rw [charged, charged, charged]
  split_ifs <;> rfl

theorem queueDelay_eq (m : Mesh) (answers : ℕ → SubsecondTime) (core : ℕ) (port : Port)
    (asked : Asked) :
    queueDelay m answers core port asked = (total answers asked.length (charged m [(core, port)]),
        asked ++ charged m [(core, port)]) := by
  rw [queueDelay, charged]
  split_ifs
  · simp [total]
  · simp

/-! ## Hops -/

/-- The models are on for a packet of this requester. -/
def On (m : Mesh) (requester : ℕ) : Prop := m.enabled = true ∧ requester < m.applicationCores

/-- A link takes the hop latency of its core and the answer of its queue model. -/
theorem addHop_link {direction : OutputDirection} (on : On m requester)
    (isLink : direction.isLink = true) (finalDest : Receiver) (nextDest : ℕ)
    (time : SubsecondTime) :
    addHop m answers core direction finalDest nextDest time requester asked =
      ((⟨finalDest, nextDest, time +
          (m.hopLatency core + total answers asked.length (charged m [(core, .link direction)]))⟩,
        total answers asked.length (charged m [(core, .link direction)])),
        asked ++ charged m [(core, .link direction)]) := by
  have counted : (!m.enabled || decide (m.applicationCores ≤ requester)) = false := by
    rw [on.1, decide_eq_false (not_le.mpr on.2)]
    rfl
  simp only [addHop, isLink, if_true, computeLatency, counted, Bool.false_eq_true, if_false,
    queueDelay_eq]

/-- Other hops take no time. -/
theorem addHop_direct {direction : OutputDirection} (noLink : direction.isLink = false)
    (finalDest : Receiver) (nextDest : ℕ) (time : SubsecondTime) :
    addHop m answers core direction finalDest nextDest time requester asked =
      ((⟨finalDest, nextDest, time⟩, 0), asked) := by
  simp only [addHop, noLink, Bool.false_eq_true, if_false]

/-- The ports of a route: those of its links. -/
def linkPorts (m : Mesh) (receiver : ℕ) : ℕ → ℕ → Asked
  | 0, _ => []
  | links + 1, core =>
    (core, .link (getNextDest m core receiver).1) ::
      linkPorts m receiver links (getNextDest m core receiver).2

theorem length_linkPorts (m : Mesh) (receiver links core : ℕ) :
    (linkPorts m receiver links core).length = links := by
  induction links generalizing core with
  | zero => rfl
  | succ links ih => rw [linkPorts, List.length_cons, ih]

/-- The hop latencies of the cores that ports belong to. -/
def linkTime (m : Mesh) (ports : Asked) : SubsecondTime :=
  (ports.map fun port => m.hopLatency port.1).sum

@[simp] theorem linkTime_nil (m : Mesh) : linkTime m [] = 0 := rfl

theorem linkTime_cons (m : Mesh) (port : ℕ × Port) (ports : Asked) :
    linkTime m (port :: ports) = m.hopLatency port.1 + linkTime m ports := rfl

/-- What `routePacket` adds for a packet on its way, which is at a master. -/
def nextHop (answers : ℕ → SubsecondTime) (core receiver : ℕ) (pkt : NetPacket m) (asked : Asked) :
    (Hop × SubsecondTime) × Asked :=
  addHop m answers core (getNextDest m core receiver).1 (.core receiver)
    (getNextDest m core receiver).2 pkt.time pkt.requester asked

theorem shortcut_arrived {hop : Hop} (arrived : hop.finalDest = .core hop.nextDest) (fuel : ℕ) :
    shortcut answers (fuel + 1) hop pkt asked = some ((hop, pkt), asked) := by
  rw [shortcut, if_pos (.inr arrived)]

variable (answers asked) in
/-- One round of the loop. -/
theorem shortcut_onTheWay {hop : Hop} (unicast : hop.finalDest = .core receiver)
    (away : hop.nextDest ≠ receiver) (real : fakeNode m hop.nextDest = false)
    (other : (pkt.sender : ℕ) ≠ hop.nextDest) (fuel : ℕ) :
    ∃ pkt' : NetPacket m, pkt'.sender = pkt.sender ∧ pkt'.requester = pkt.requester ∧
      shortcut answers (fuel + 1) hop pkt asked = shortcut answers fuel
          (nextHop answers hop.nextDest receiver { pkt with time := hop.time } asked).1.1 pkt'
          (nextHop answers hop.nextDest receiver { pkt with time := hop.time } asked).2 := by
  have further : ¬ (hop.finalDest = .broadcast ∨ hop.finalDest = .core hop.nextDest) := by
    rw [unicast]
    rintro (isBroadcast | arrived)
    · cases isBroadcast
    · exact away (Receiver.core.inj arrived).symm
  refine ⟨{ pkt with
    time := hop.time
    receiver := .core receiver
    queueDelay := pkt.queueDelay + 0 +
      (nextHop answers hop.nextDest receiver { pkt with time := hop.time } asked).1.2 },
    rfl, rfl, ?_⟩
  rw [shortcut, if_neg further]
  simp only [routePacket, unicast, routeUnicast, real, Bool.false_eq_true, if_false, other]
  rfl

variable (answers) in
/-- **The shortcut.** From a master with `links` links to go, the packet gets to the receiver; each
link takes the hop latency of its core and the answer of its queue model. -/
theorem shortcut_reaches (inMesh : receiver < m.applicationCores) (links : ℕ) (hop : Hop)
    (pkt : NetPacket m) (asked : Asked) (on : On m pkt.requester)
    (unicast : hop.finalDest = .core receiver) (real : fakeNode m hop.nextDest = false)
    (toGo : linkHops m hop.nextDest receiver = links)
    (left : links < linkHops m pkt.sender receiver) :
    ∃ pkt' : NetPacket m, shortcut answers (links + 2) hop pkt asked =
      some ((⟨.core receiver, receiver, hop.time +
          (linkTime m (linkPorts m receiver links hop.nextDest) +
            total answers asked.length (charged m (linkPorts m receiver links hop.nextDest)))⟩, pkt'),
        asked ++ charged m (linkPorts m receiver links hop.nextDest)) := by
  have notBack (hop : Hop) (pkt : NetPacket m)
      (left : linkHops m hop.nextDest receiver < linkHops m pkt.sender receiver) :
      (pkt.sender : ℕ) ≠ hop.nextDest := fun same => by
    rw [same] at left
    exact lt_irrefl _ left
  induction links generalizing hop pkt asked with
  | zero =>
    have inMesh' := (fakeNode_eq_false_iff.1 real).2
    have same := (linkHops_eq_zero inMesh' inMesh).mp toGo
    have noPorts : charged m (linkPorts m receiver 0 hop.nextDest) = [] := by
      rw [linkPorts, charged, ite_self]
    rw [noPorts, total_nil, List.append_nil, linkPorts, linkTime_nil, Nat.add_zero]
    by_cases arrived : hop.nextDest = receiver
    · refine ⟨pkt, ?_⟩
      rw [shortcut_arrived (by rw [unicast, arrived]), ← unicast, ← arrived]
      rfl
    · obtain ⟨pkt', -, -, round⟩ := shortcut_onTheWay answers asked
        unicast arrived real (notBack hop pkt (toGo ▸ left)) 1
      refine ⟨pkt', ?_⟩
      rw [round, nextHop, getNextDest_sameStop same, addHop_direct rfl, shortcut_arrived rfl]
      rfl
  | succ links ih =>
    have inMesh' := (fakeNode_eq_false_iff.1 real).2
    have apart : hop.nextDest / m.concentration ≠ receiver / m.concentration := fun same => by
      have none := (linkHops_eq_zero inMesh' inMesh).mpr same
      omega
    have away : hop.nextDest ≠ receiver := fun same => apart (by rw [same])
    obtain ⟨isLink, real', less⟩ := getNextDest_link real inMesh apart
    obtain ⟨pkt', sender, asker, round⟩ := shortcut_onTheWay answers asked
      unicast away real (notBack hop pkt (toGo ▸ left)) (links + 2)
    rw [nextHop, addHop_link on isLink] at round
    dsimp only at round
    obtain ⟨pkt'', reached⟩ := ih ⟨.core receiver, (getNextDest m hop.nextDest receiver).2, _⟩ pkt'
      _ (asker ▸ on) rfl real' (Nat.succ_injective (less.trans toGo))
      (by rw [sender]; exact Nat.lt_of_succ_lt left)
    have ports : charged m (linkPorts m receiver (links + 1) hop.nextDest) =
        charged m [(hop.nextDest, .link (getNextDest m hop.nextDest receiver).1)] ++
          charged m (linkPorts m receiver links (getNextDest m hop.nextDest receiver).2) :=
      charged_append m [_] _
    have time (t h a n b : ℕ) : t + (h + a) + (n + b) = t + (h + n + (a + b)) := by omega
    refine ⟨pkt'', ?_⟩
    rw [round, reached, ports, total_append, List.length_append, List.append_assoc, linkPorts,
      linkTime_cons, time]

/-! ## Fuel -/

/-- More fuel makes no difference. -/
theorem shortcut_unique {fuel fuel' : ℕ} {hop : Hop} {r r' : (Hop × NetPacket m) × Asked}
    (reached : shortcut answers fuel hop pkt asked = some r)
    (reached' : shortcut answers fuel' hop pkt asked = some r') : r = r' := by
  induction fuel generalizing fuel' hop pkt asked with
  | zero => cases reached
  | succ fuel ih =>
    cases fuel' with
    | zero => cases reached'
    | succ fuel' =>
      rw [shortcut] at reached reached'
      split_ifs at reached reached' with arrived
      · exact Option.some_inj.mp (reached.symm.trans reached')
      · split at reached
        · exact ih reached (by simpa only [*] using reached')
        · cases reached

theorem sendHops_unique {fuel fuel' : ℕ} {startTime : SubsecondTime} {hops : List Hop}
    {buffer : NetPacket m} {r r' : List (ℕ × NetPacket m) × Asked}
    (sent : sendHops answers fuel core startTime hops buffer pkt asked = some r)
    (sent' : sendHops answers fuel' core startTime hops buffer pkt asked = some r') : r = r' := by
  induction hops generalizing buffer pkt asked r r' with
  | nil => exact Option.some_inj.mp (sent.symm.trans sent')
  | cons hop hops ih =>
    simp only [sendHops, Option.bind_eq_bind, Option.bind_eq_some_iff, Option.some_inj]
      at sent sent'
    obtain ⟨reached, found, rest, more, rfl⟩ := sent
    obtain ⟨reached', found', rest', more', rfl⟩ := sent'
    obtain rfl := shortcut_unique found found'
    rw [ih more more']

theorem netSend_unique {fuel fuel' : ℕ} {r r' : List (ℕ × NetPacket m) × Asked}
    (sent : netSend answers fuel core pkt asked = some r)
    (sent' : netSend answers fuel' core pkt asked = some r') : r = r' := by
  simp only [netSend, Option.bind_eq_bind, Option.bind_eq_some_iff] at sent sent'
  obtain ⟨routed, found, more⟩ := sent
  obtain ⟨routed', found', more'⟩ := sent'
  obtain rfl := Option.some_inj.mp (found.symm.trans found')
  exact sendHops_unique more more'

/-! ## Sending -/

/-- The links a packet passes: a fake node sends straight to the receiver, and so does a master to a
core that is not on the mesh. -/
def routeLinks (m : Mesh) (sender receiver : ℕ) : ℕ :=
  if fakeNode m sender = true ∨ m.applicationCores ≤ receiver then 0
  else linkHops m sender receiver

/-- Where it enters: fake nodes have no ports, and a packet to its sender passes none. -/
def injectionPorts (m : Mesh) (sender receiver : ℕ) : Asked :=
  if fakeNode m sender = true ∨ sender = receiver then [] else [(sender, .injection)]

/-- Where it leaves. -/
def ejectionPorts (m : Mesh) (sender receiver : ℕ) : Asked :=
  if sender = receiver ∨ fakeNode m receiver = true then [] else [(receiver, .ejection)]

theorem injection_eq (real : fakeNode m core = false) (asked : Asked) :
    computeInjectionPortQueueDelay m answers core (.core receiver) asked =
      (total answers asked.length (charged m (injectionPorts m core receiver)),
        asked ++ charged m (injectionPorts m core receiver)) := by
  by_cases same : core = receiver
  · simp [computeInjectionPortQueueDelay, injectionPorts, same, charged]
  · have other : ¬ Receiver.core receiver = .core core := fun h => same (Receiver.core.inj h).symm
    rw [computeInjectionPortQueueDelay, if_neg other, queueDelay_eq, injectionPorts,
      if_neg (by simp [real, same])]

/-- A packet with one hop is sent once. -/
theorem sendHops_single {fuel : ℕ} {startTime : SubsecondTime} {hop hop' : Hop}
    {buffer pkt' : NetPacket m} {asked' : Asked} (own : core = buffer.sender)
    (reached : shortcut answers fuel hop pkt asked = some ((hop', pkt'), asked')) :
    sendHops answers fuel core startTime [hop] buffer pkt asked =
      some ([(hop'.nextDest, { buffer with
        startTime := startTime, time := hop'.time, receiver := hop'.finalDest })], asked') := by
  simp only [sendHops, reached, Option.bind_eq_bind, Option.bind_some, if_pos own]

/-- The packet as it is put on the transport. -/
def sentPacket (answers : ℕ → SubsecondTime) (receiver : ℕ) (pkt : NetPacket m) : NetPacket m :=
  let injection := injectionPorts m pkt.sender receiver
  let links := linkPorts m receiver (routeLinks m pkt.sender receiver) pkt.sender
  { pkt with
    startTime := pkt.time
    time := pkt.time + (linkTime m links + total answers 0 (charged m (injection ++ links)))
    queueDelay := pkt.queueDelay + total answers 0 (charged m (injection ++ links.take 1))
    receiver := .core receiver }

variable (answers) in
/-- **Sending.** The copy that is put on the transport has the delays of the whole route in its time,
but in its queueing delay none after the first link. -/
theorem netSend_unicast (on : On m pkt.requester) (unicast : pkt.receiver = .core receiver) :
    ∃ fuel, netSend answers fuel pkt.sender pkt [] =
      some ([(receiver, sentPacket answers receiver pkt)],
        charged m (injectionPorts m pkt.sender receiver ++
          linkPorts m receiver (routeLinks m pkt.sender receiver) pkt.sender)) := by
  cases real : fakeNode m pkt.sender with
  | true =>
    refine ⟨1, ?_⟩
    have noLinks : routeLinks m pkt.sender receiver = 0 := if_pos (.inl real)
    have noPort : injectionPorts m pkt.sender receiver = [] := if_pos (.inl real)
    have none : charged m [] = [] := ite_self _
    simp only [netSend, routePacket, unicast, routeUnicast, real, if_true, Option.bind_eq_bind,
      Option.bind_some]
    rw [sendHops_single rfl (shortcut_arrived rfl 0)]
    simp only [sentPacket, noLinks, noPort, linkPorts, List.append_nil, List.take_nil, none,
      total_nil, linkTime_nil, Nat.add_zero]
  | false =>
    have inMesh := (fakeNode_eq_false_iff.1 real).2
    set injection := charged m (injectionPorts m pkt.sender receiver) with injectionEq
    simp only [netSend, routePacket, unicast, routeUnicast, real, Bool.false_eq_true, if_false,
      if_true, injection_eq real, Option.bind_eq_bind, Option.bind_some, List.length_nil,
      List.nil_append, ← injectionEq]
    by_cases direct : m.applicationCores ≤ receiver ∨
        (pkt.sender : ℕ) / m.concentration = receiver / m.concentration
    · have next : getNextDest m pkt.sender receiver = (.destination, receiver) := by
        rcases direct with outside | same
        · rw [getNextDest, if_pos outside]
        · exact getNextDest_sameStop same
      have noLinks : routeLinks m pkt.sender receiver = 0 := by
        rw [routeLinks, ite_eq_left_iff]
        intro inside
        rw [not_or, not_le] at inside
        exact (linkHops_eq_zero inMesh inside.2).mpr
          (direct.resolve_left (not_le.mpr inside.2))
      refine ⟨1, ?_⟩
      rw [next, addHop_direct rfl]
      refine (sendHops_single ?_ (shortcut_arrived ?_ 0)).trans ?_
      · rfl
      · rfl
      simp only [sentPacket, noLinks, linkPorts, List.append_nil, List.take_nil, linkTime_nil,
        Nat.zero_add, Nat.add_zero, ← injectionEq]
    · rw [not_or, not_le] at direct
      obtain ⟨inMesh', apart⟩ := direct
      obtain ⟨isLink, real', less⟩ := getNextDest_link real inMesh' apart
      have links : routeLinks m pkt.sender receiver =
          linkHops m (getNextDest m pkt.sender receiver).2 receiver + 1 := by
        rw [routeLinks, if_neg (by simp [real, inMesh']), less]
      rw [addHop_link on isLink]
      dsimp only
      obtain ⟨pkt', reached⟩ := shortcut_reaches answers inMesh' _
        ⟨.core receiver, (getNextDest m pkt.sender receiver).2, pkt.time + total answers 0 injection +
          (m.hopLatency pkt.sender + total answers injection.length
            (charged m [((pkt.sender : ℕ), .link (getNextDest m pkt.sender receiver).1)]))⟩
        { pkt with
          queueDelay := pkt.queueDelay + total answers 0 injection + total answers injection.length
            (charged m [((pkt.sender : ℕ), .link (getNextDest m pkt.sender receiver).1)])
          receiver := .core receiver }
        (injection ++ charged m [((pkt.sender : ℕ), .link (getNextDest m pkt.sender receiver).1)])
        on rfl real' rfl (by rw [← less]; exact Nat.lt_succ_self _)
      refine ⟨_, (sendHops_single ?_ reached).trans ?_⟩
      · rfl
      have ports : charged m (injectionPorts m pkt.sender receiver ++
          linkPorts m receiver (routeLinks m pkt.sender receiver) pkt.sender) =
          injection ++
            (charged m [((pkt.sender : ℕ), .link (getNextDest m pkt.sender receiver).1)] ++
              charged m (linkPorts m receiver
                (linkHops m (getNextDest m pkt.sender receiver).2 receiver)
                (getNextDest m pkt.sender receiver).2)) := by
        rw [charged_append, ← injectionEq, links, linkPorts]
        exact congrArg _ (charged_append m [_] _)
      have firstPorts : charged m (injectionPorts m pkt.sender receiver ++
          (linkPorts m receiver (routeLinks m pkt.sender receiver) pkt.sender).take 1) =
          injection ++
            charged m [((pkt.sender : ℕ), .link (getNextDest m pkt.sender receiver).1)] := by
        rw [charged_append, ← injectionEq, links, linkPorts]
        rfl
      have time (t i h a n b : ℕ) : t + i + (h + a) + (n + b) = t + (h + n + (i + (a + b))) := by
        omega
      simp only [sentPacket, ports, firstPorts, total_append, Nat.zero_add, List.append_assoc,
        List.length_append]
      rw [links, linkPorts, linkTime_cons, time, Nat.add_assoc pkt.queueDelay]

/-! ## Receiving -/

/-- The time a packet takes to leave. -/
def ejectionTime (m : Mesh) (sender receiver length : ℕ) : SubsecondTime :=
  if sender = receiver ∨ fakeNode m receiver = true then 0
  else computeProcessingTime m receiver length

/-- **Receiving.** The ejection port adds its delay, and the contention delay is what the packet took
beyond the distance. -/
theorem processReceivedPacket_eq (on : On m pkt.requester) :
    processReceivedPacket answers receiver pkt asked =
      (({ pkt with
          time := pkt.time + (total answers asked.length
            (charged m (ejectionPorts m pkt.sender receiver)) +
              ejectionTime m pkt.sender receiver pkt.length)
          queueDelay := pkt.queueDelay +
            total answers asked.length (charged m (ejectionPorts m pkt.sender receiver)) },
        if receiver < m.applicationCores then
          some ((pkt.time : ℤ) - pkt.startTime -
            computeDistance m pkt.sender receiver * m.hopLatency receiver +
            total answers asked.length (charged m (ejectionPorts m pkt.sender receiver)))
        else none),
        asked ++ charged m (ejectionPorts m pkt.sender receiver)) := by
  have none : charged m [] = [] := ite_self _
  have counted : (!m.enabled || decide (m.applicationCores ≤ pkt.requester) ||
      decide (m.applicationCores ≤ receiver)) = decide (m.applicationCores ≤ receiver) := by
    rw [on.1, decide_eq_false (not_le.mpr on.2)]
    rfl
  rw [processReceivedPacket, counted]
  by_cases inMesh : receiver < m.applicationCores
  · simp only [decide_eq_true_eq, if_neg (not_le.mpr inMesh), if_pos inMesh, queueDelay_eq]
    by_cases leaves : (pkt.sender : ℕ) = receiver ∨ fakeNode m receiver = true
    · have stays : ¬ ((pkt.sender : ℕ) ≠ receiver ∧ (!fakeNode m receiver) = true) := by
        rintro ⟨apart, real⟩
        rcases leaves with same | fake
        · exact apart same
        · rw [fake] at real
          cases real
      simp only [if_neg stays, ejectionPorts, ejectionTime, if_pos leaves, none, total_nil,
        List.append_nil, Nat.cast_zero, add_zero]
    · have passes : (pkt.sender : ℕ) ≠ receiver ∧ (!fakeNode m receiver) = true := by
        rw [not_or, Bool.not_eq_true] at leaves
        exact ⟨leaves.1, by rw [leaves.2]; rfl⟩
      simp only [if_pos passes, ejectionPorts, ejectionTime, if_neg leaves]
  · have fake : fakeNode m receiver = true := by simp [fakeNode, not_lt.mp inMesh]
    simp only [decide_eq_true_eq, if_pos (not_lt.mp inMesh), if_neg inMesh, ejectionPorts,
      ejectionTime, fake, or_true, if_true, none, total_nil, Nat.add_zero, List.append_nil]

/-- Off the models there is no contention delay. -/
theorem on_of_contention {contention : ℤ} {r : (NetPacket m × Option ℤ) × Asked}
    (received : processReceivedPacket answers receiver pkt asked = r)
    (counted : r.1.2 = some contention) : On m pkt.requester := by
  rw [← received, processReceivedPacket] at counted
  by_cases off : (!m.enabled || decide (m.applicationCores ≤ pkt.requester) ||
      decide (m.applicationCores ≤ receiver)) = true
  · rw [if_pos off] at counted
    cases counted
  · simp only [Bool.or_eq_true, Bool.not_eq_true', decide_eq_true_eq, not_or, not_le,
      Bool.not_eq_false] at off
    exact off.1

theorem requester_of_sendHops {fuel : ℕ} {startTime : SubsecondTime} {hops : List Hop}
    {buffer : NetPacket m} {r : List (ℕ × NetPacket m) × Asked}
    (sent : sendHops answers fuel core startTime hops buffer pkt asked = some r) :
    ∀ p ∈ r.1, p.2.requester = buffer.requester := by
  induction hops generalizing buffer pkt asked r with
  | nil =>
    cases sent
    exact nofun
  | cons hop hops ih =>
    simp only [sendHops, Option.bind_eq_bind, Option.bind_eq_some_iff, Option.some_inj] at sent
    obtain ⟨reached, -, rest, more, rfl⟩ := sent
    have started : (if core = buffer.sender then { buffer with startTime := startTime }
        else buffer).requester = buffer.requester := by
      split_ifs <;> rfl
    intro p member
    rcases List.mem_cons.mp member with rfl | later
    · exact started
    · exact (ih more p later).trans started

/-- Copies of a packet are of its requester. -/
theorem requester_of_netSend {fuel : ℕ} {r : List (ℕ × NetPacket m) × Asked}
    (sent : netSend answers fuel core pkt asked = some r) :
    ∀ p ∈ r.1, p.2.requester = pkt.requester := by
  simp only [netSend, Option.bind_eq_bind, Option.bind_eq_some_iff] at sent
  obtain ⟨routed, found, more⟩ := sent
  have same : routed.1.2.requester = pkt.requester := by
    rw [routePacket] at found
    split at found
    · obtain ⟨hops, -, rfl⟩ := Option.map_eq_some_iff.mp found
      rfl
    · cases found
      rw [routeUnicast]
      split_ifs <;> rfl
  exact fun p member => (requester_of_sendHops more p member).trans same

/-! ## From sender to receiver -/

/-- What `netSend` puts on the transport for `receiver` becomes `final` there. -/
def HandedOver (answers : ℕ → SubsecondTime) (pkt : NetPacket m) (receiver : ℕ)
    (final : NetPacket m) (contention : Option ℤ) (asked : Asked) : Prop :=
  ∃ fuel buffer asked', netSend answers fuel pkt.sender pkt [] = some ([(receiver, buffer)], asked') ∧
    processReceivedPacket answers receiver buffer asked' = ((final, contention), asked)

/-- The ports of a packet, from sender to receiver. -/
def passedPorts (m : Mesh) (sender receiver : ℕ) : Asked :=
  injectionPorts m sender receiver ++
    linkPorts m receiver (routeLinks m sender receiver) sender ++ ejectionPorts m sender receiver

/-- The packet as its receiver gets it: of the links, only the first has added to its queueing
delay. -/
def receivedPacket (answers : ℕ → SubsecondTime) (receiver : ℕ) (pkt : NetPacket m) : NetPacket m :=
  { pkt with
    startTime := pkt.time
    time := pkt.time +
      (linkTime m (linkPorts m receiver (routeLinks m pkt.sender receiver) pkt.sender) +
      total answers 0 (charged m (passedPorts m pkt.sender receiver)) +
        ejectionTime m pkt.sender receiver pkt.length)
    queueDelay := (sentPacket answers receiver pkt).queueDelay +
      total answers (charged m (injectionPorts m pkt.sender receiver ++
        linkPorts m receiver (routeLinks m pkt.sender receiver) pkt.sender)).length
          (charged m (ejectionPorts m pkt.sender receiver))
    receiver := .core receiver }

/-- The contention delay that is counted for it: that of its ports, and what the links take longer than
the receiver counts for the distance. -/
def contentionDelay (answers : ℕ → SubsecondTime) (receiver : ℕ) (pkt : NetPacket m) : ℤ :=
  (linkTime m (linkPorts m receiver (routeLinks m pkt.sender receiver) pkt.sender) : ℤ) -
      computeDistance m pkt.sender receiver * m.hopLatency receiver +
    total answers 0 (charged m (passedPorts m pkt.sender receiver))

/-- **From sender to receiver.** What becomes of a packet. -/
theorem handedOver_iff (on : On m pkt.requester) (unicast : pkt.receiver = .core receiver)
    {final : NetPacket m} {contention : Option ℤ} :
    HandedOver answers pkt receiver final contention asked ↔
      final = receivedPacket answers receiver pkt ∧
      contention = (if receiver < m.applicationCores then
        some (contentionDelay answers receiver pkt) else none) ∧
      asked = charged m (passedPorts m pkt.sender receiver) := by
  obtain ⟨fuel, sent⟩ := netSend_unicast answers on unicast
  have received : processReceivedPacket answers receiver (sentPacket answers receiver pkt)
      (charged m (injectionPorts m pkt.sender receiver ++
        linkPorts m receiver (routeLinks m pkt.sender receiver) pkt.sender)) =
      ((receivedPacket answers receiver pkt, if receiver < m.applicationCores then
        some (contentionDelay answers receiver pkt) else none),
        charged m (passedPorts m pkt.sender receiver)) := by
    have on' : On m (sentPacket answers receiver pkt).requester := on
    rw [processReceivedPacket_eq on']
    have whole : total answers 0 (charged m (passedPorts m pkt.sender receiver)) =
        total answers 0 (charged m (injectionPorts m pkt.sender receiver ++
          linkPorts m receiver (routeLinks m pkt.sender receiver) pkt.sender)) +
        total answers (charged m (injectionPorts m pkt.sender receiver ++
          linkPorts m receiver (routeLinks m pkt.sender receiver) pkt.sender)).length
            (charged m (ejectionPorts m pkt.sender receiver)) := by
      rw [passedPorts, charged_append, total_append, Nat.zero_add]
    have ports := charged_append m (injectionPorts m pkt.sender receiver ++
      linkPorts m receiver (routeLinks m pkt.sender receiver) pkt.sender)
      (ejectionPorts m pkt.sender receiver)
    have time (t r a e p : ℕ) : t + (r + a) + (e + p) = t + (r + (a + e) + p) := by omega
    have latency (t r a e d : ℤ) : t + (r + a) - t - d + e = r - d + (a + e) := by omega
    rw [receivedPacket, contentionDelay, whole, passedPorts, ports]
    simp only [sentPacket, time, Nat.cast_add, latency]
  constructor
  · rintro ⟨fuel', buffer, asked', sent', received'⟩
    have same := netSend_unique sent' sent
    simp only [Prod.mk.injEq, List.cons.injEq, and_true, true_and] at same
    rw [same.1, same.2, received] at received'
    simp only [Prod.mk.injEq] at received'
    exact ⟨received'.1.1.symm, received'.1.2.symm, received'.2.symm⟩
  · rintro ⟨rfl, rfl, rfl⟩
    exact ⟨fuel, _, _, sent, received⟩

/-! ## Contention -/

/-- A packet of a fake node to another stop is charged no hops, though the stops are apart. -/
theorem routeLinks_eq (inMesh : receiver < m.applicationCores) {sender : ℕ} :
    routeLinks m sender receiver =
      if fakeNode m sender = true then 0 else linkHops m sender receiver := by
  simp only [routeLinks, not_le.mpr inMesh, or_false]

/-- Routing is minimal, agrees with the distance, and what is counted as contention is: never less
than nothing, and nothing for a packet that did not queue. -/
structure RoutingLaw (m : Mesh) (sender receiver : Fin m.applicationCores) : Prop where
  reaches : ∃ fuel dirs, follow m receiver fuel sender = some dirs ∧
    (dirs.countP OutputDirection.isLink : ℤ) = computeDistance m sender receiver
  shortest : computeDistance m sender receiver =
    (grid m.wrapAround m.width m.height).dist (position sender sender.isLt)
      (position receiver receiver.isLt)
  contention : ∀ answers (pkt final : NetPacket m) c asked, (pkt.sender : ℕ) = sender →
    pkt.receiver = .core receiver → HandedOver answers pkt receiver final (some c) asked →
    0 ≤ c ∧ (total answers 0 asked = 0 → c = 0)

/-- The route that is followed is as long as the distance exactly off half way. -/
theorem reaches_iff (sender receiver : Fin m.applicationCores) :
    (∃ fuel dirs, follow m receiver fuel sender = some dirs ∧
      (dirs.countP OutputDirection.isLink : ℤ) = computeDistance m sender receiver) ↔
      NotHalfWay m sender receiver := by
  obtain ⟨fuel, dirs, followed, count⟩ := exists_follow sender.isLt receiver.isLt
  rw [← linkHops_eq_computeDistance_iff sender.isLt receiver.isLt]
  constructor
  · rintro ⟨fuel', dirs', followed', count'⟩
    rw [← count', follow_unique followed' followed, count]
  · intro asLong
    exact ⟨fuel, dirs, followed, by rw [count, asLong]⟩

/-- The cycles of the links of a route are as long, at the cores that the packet passes, as those that
the receiver counts; a fake node, whose packets are charged no link, sends to a core of its stop. -/
def OnePace (m : Mesh) (sender receiver : ℕ) : Prop :=
  m.hopCycles = 0 ∨
    if fakeNode m sender = true then
      m.period receiver = 0 ∨ sender / m.concentration = receiver / m.concentration
    else
      ((linkPorts m receiver (linkHops m sender receiver) sender).map fun port =>
        m.period port.1).sum = linkHops m sender receiver * m.period receiver

theorem linkTime_eq (m : Mesh) (ports : Asked) :
    linkTime m ports = m.hopCycles * (ports.map fun port => m.period port.1).sum :=
  List.sum_map_mul_left ..

/-- The links take as long as the receiver counts for them exactly at one pace. -/
theorem linkTime_iff {sender : ℕ} (inMesh : sender < m.applicationCores)
    (inMesh' : receiver < m.applicationCores) :
    linkTime m (linkPorts m receiver (routeLinks m sender receiver) sender) =
      linkHops m sender receiver * m.hopLatency receiver ↔ OnePace m sender receiver := by
  have counted : linkHops m sender receiver * m.hopLatency receiver =
      m.hopCycles * (linkHops m sender receiver * m.period receiver) := Nat.mul_left_comm ..
  rw [linkTime_eq, counted, mul_eq_mul_left_iff, or_comm, OnePace, routeLinks_eq inMesh']
  refine or_congr_right ?_
  split_ifs with fake
  · rw [linkPorts, List.map_nil, List.sum_nil, eq_comm, Nat.mul_eq_zero, or_comm,
      linkHops_eq_zero inMesh inMesh']
  · exact Iff.rfl

/-- The contention delay, off half way. -/
theorem contentionDelay_eq (inMesh : receiver < m.applicationCores)
    (inMesh' : (pkt.sender : ℕ) < m.applicationCores)
    (notHalfWay : NotHalfWay m pkt.sender receiver) :
    contentionDelay answers receiver pkt =
      (linkTime m (linkPorts m receiver (routeLinks m pkt.sender receiver) pkt.sender) : ℤ) -
        (linkHops m pkt.sender receiver * m.hopLatency receiver : ℕ) +
      total answers 0 (charged m (passedPorts m pkt.sender receiver)) := by
  have asLong := (linkHops_eq_computeDistance_iff inMesh' inMesh).mpr notHalfWay
  rw [contentionDelay, ← asLong, Nat.cast_mul]

/-- **The routing law.** It holds exactly of senders and receivers that are not half way round a ring
of odd length, and, while packets are timed, that go at one pace. -/
theorem routing_law (m : Mesh) (sender receiver : Fin m.applicationCores) :
    RoutingLaw m sender receiver ↔
      NotHalfWay m sender receiver ∧ (m.enabled = true → OnePace m sender receiver) := by
  have inMesh := sender.isLt
  have inMesh' := receiver.isLt
  have total_zero (ports : Asked) : total (fun _ => 0) 0 ports = 0 := Finset.sum_const_zero
  constructor
  · intro law
    have notHalfWay := (reaches_iff sender receiver).mp law.reaches
    refine ⟨notHalfWay, fun enabled => ?_⟩
    -- A packet that no queue delays.
    have inCores : (sender : ℕ) < m.totalCores := inMesh.trans_le m.fits
    let pkt : NetPacket m := .new 0 ⟨sender, inCores⟩ (.core receiver) 0 ⟨sender, inCores⟩
    have handedOver : HandedOver (fun _ => 0) pkt receiver (receivedPacket (fun _ => 0) receiver pkt)
        (some (contentionDelay (fun _ => 0) receiver pkt))
        (charged m (passedPorts m pkt.sender receiver)) :=
      (handedOver_iff ⟨enabled, inMesh⟩ rfl).mpr ⟨rfl, (if_pos inMesh').symm, rfl⟩
    have none := (law.contention _ pkt _ _ _ rfl rfl handedOver).2 (total_zero _)
    rw [contentionDelay_eq inMesh' inMesh notHalfWay, total_zero, Nat.cast_zero, add_zero,
      sub_eq_zero, Nat.cast_inj] at none
    exact (linkTime_iff inMesh inMesh').mp none
  · rintro ⟨notHalfWay, pace⟩
    refine ⟨(reaches_iff sender receiver).mpr notHalfWay, computeDistance_eq_dist inMesh inMesh', ?_⟩
    intro answers pkt final c asked isSender unicast handedOver
    have on : On m pkt.requester := by
      obtain ⟨fuel, buffer, asked', sent, received⟩ := handedOver
      have same := requester_of_netSend sent (receiver, buffer) (List.mem_singleton_self _)
      exact same ▸ on_of_contention received rfl
    obtain ⟨-, counted, rfl⟩ := (handedOver_iff on unicast).mp handedOver
    have inMesh : (pkt.sender : ℕ) < m.applicationCores := isSender ▸ inMesh
    have pace := (linkTime_iff inMesh inMesh').mpr (isSender ▸ pace on.1)
    rw [if_pos inMesh', contentionDelay_eq inMesh' inMesh (isSender ▸ notHalfWay), pace, sub_self,
      zero_add, Option.some_inj] at counted
    rw [counted]
    exact ⟨Int.natCast_nonneg _, fun none => by rw [none, Nat.cast_zero]⟩

/-- Three cores in a row, or a ring. -/
def threeCores (wrapAround : Bool) : Mesh where
  width := 3
  height := 1
  concentration := 1
  width_pos := by decide
  height_pos := by decide
  concentration_pos := by decide
  wrapAround := wrapAround
  broadcastTreeEnabled := true
  queueModelEnabled := true
  enabled := true
  hopCycles := 10
  period _ := 1
  linkBandwidth := 64
  linkBandwidth_pos := by decide
  totalCores := 3
  fits := by decide

/-- In a ring of three, a packet for the core before the first goes the other way round. -/
theorem follow_halfWay :
    follow (threeCores true) 2 2 0 = some [.right, .right] ∧
      computeDistance (threeCores true) 0 2 = 1 := by
  decide

/-! ## Queueing delay -/

/-- The whole queueing delay arrives with a packet, and its time is made up of it, of its links and
of its ejection. -/
structure QueueingTravels (answers : ℕ → SubsecondTime) (pkt : NetPacket m) (receiver : ℕ)
    (final : NetPacket m) (asked : Asked) : Prop where
  ports : asked = charged m (passedPorts m pkt.sender receiver)
  queueDelay : final.queueDelay = total answers 0 asked
  arrival : final.time = final.startTime + (total answers 0 asked +
    linkTime m (linkPorts m receiver (routeLinks m pkt.sender receiver) pkt.sender) +
      ejectionTime m pkt.sender receiver pkt.length)

/-- A packet that passes links enters at the port of its sender. -/
theorem injectionPorts_of_links (passes : routeLinks m core receiver ≠ 0) :
    injectionPorts m core receiver = [(core, .injection)] := by
  rw [routeLinks] at passes
  split_ifs at passes with direct
  · exact absurd rfl passes
  · rw [not_or, not_le] at direct
    refine if_neg (not_or.mpr ⟨direct.1, fun same => passes ?_⟩)
    rw [same]
    exact (linkHops_eq_zero direct.2 direct.2).mpr rfl

/-- The delays of the links that the copy misses. -/
theorem total_missed (answers : ℕ → SubsecondTime) (sender : ℕ) :
    total answers (charged m (injectionPorts m sender receiver ++
        (linkPorts m receiver (routeLinks m sender receiver) sender).take 1)).length
      (charged m ((linkPorts m receiver (routeLinks m sender receiver) sender).drop 1)) = 0 ↔
    (m.queueModelEnabled = true → ∀ i, 2 ≤ i → i ≤ routeLinks m sender receiver →
      answers i = 0) := by
  by_cases models : m.queueModelEnabled = true
  · simp only [charged, models, if_true, true_implies]
    by_cases passes : routeLinks m sender receiver = 0
    · rw [passes, linkPorts]
      exact iff_of_true rfl fun i some le => by omega
    · have first : (injectionPorts m sender receiver ++
          (linkPorts m receiver (routeLinks m sender receiver) sender).take 1).length = 2 := by
        rw [injectionPorts_of_links passes, List.length_append, List.length_take, length_linkPorts,
          min_eq_left (Nat.one_le_iff_ne_zero.mpr passes)]
        rfl
      rw [first, total, Finset.sum_eq_zero_iff, List.length_drop, length_linkPorts]
      constructor
      · intro none i after within
        have here := none (i - 2) (Finset.mem_range.mpr (by omega))
        rwa [show 2 + (i - 2) = i by omega] at here
      · intro none i within
        exact none (2 + i) (by omega) (by have := Finset.mem_range.mp within; omega)
  · simp [charged, models]

/-- **Queueing delay travels** exactly when the queue models of all links but the first answer nothing
to the packet. -/
theorem queueing_travels (answers : ℕ → SubsecondTime) {time : SubsecondTime}
    {sender asker : Fin m.totalCores} {length : ℕ} (on : On m asker) :
    (∃ final contention asked,
      HandedOver answers (.new time sender (.core receiver) length asker) receiver final contention
        asked ∧
      QueueingTravels answers (.new time sender (.core receiver) length asker) receiver final
        asked) ↔ (m.queueModelEnabled = true → ∀ i, 2 ≤ i → i ≤ routeLinks m sender receiver →
      answers i = 0) := by
  let pkt : NetPacket m := .new time sender (.core receiver) length asker
  let links := linkPorts m receiver (routeLinks m sender receiver) sender
  let missed := total answers (charged m (injectionPorts m sender receiver ++ links.take 1)).length
    (charged m (links.drop 1))
  have whole : total answers 0 (charged m (passedPorts m sender receiver)) =
      (receivedPacket answers receiver pkt).queueDelay + missed := by
    have split : injectionPorts m sender receiver ++ links =
        injectionPorts m sender receiver ++ links.take 1 ++ links.drop 1 := by
      rw [List.append_assoc, List.take_append_drop]
    have sum : total answers 0 (charged m (injectionPorts m sender receiver ++ links)) =
        total answers 0 (charged m (injectionPorts m sender receiver ++ links.take 1)) + missed := by
      rw [split, charged_append, total_append, Nat.zero_add]
    have start : (receivedPacket answers receiver pkt).queueDelay =
        0 + total answers 0 (charged m (injectionPorts m sender receiver ++ links.take 1)) +
          total answers (charged m (injectionPorts m sender receiver ++ links)).length
            (charged m (ejectionPorts m sender receiver)) := rfl
    have order (a b c : ℕ) : a + b + c = 0 + a + c + b := by omega
    rw [start, passedPorts, charged_append, total_append, Nat.zero_add, sum]
    exact order _ _ _
  rw [← total_missed answers sender]
  constructor
  · rintro ⟨final, contention, asked, handedOver, travels⟩
    obtain ⟨rfl, -, -⟩ := (handedOver_iff on rfl).mp handedOver
    have arrived := travels.queueDelay
    rw [travels.ports] at arrived
    exact Nat.left_eq_add.mp (arrived.trans whole)
  · intro none
    refine ⟨_, _, _, (handedOver_iff on rfl).mpr ⟨rfl, rfl, rfl⟩, rfl, ?_, ?_⟩
    · exact (whole.trans (Nat.add_eq_left.mpr none)).symm
    · change time + _ = time + _
      rw [Nat.add_comm (linkTime _ _)]

/-- A packet of the first of three cores. -/
def fromFirst (receiver : ℕ) : NetPacket (threeCores false) :=
  .new 100 ⟨0, by decide⟩ (.core receiver) 8 ⟨0, by decide⟩

/-- One link, whose queue model delays the packet. -/
theorem queueing_travels_one :
    ∃ final contention asked,
      HandedOver (fun _ => 5) (fromFirst 1) 1 final contention asked ∧
        QueueingTravels (fun _ => 5) (fromFirst 1) 1 final asked :=
  (queueing_travels _ ⟨rfl, by decide⟩).mpr fun _ i after within =>
    absurd (after.trans within) (by decide)

/-- Two links: the packet waits for the second one, and nothing of it arrives. -/
theorem second_link_missed :
    ∃ final contention asked,
      HandedOver (fun i => if i = 2 then 5 else 0) (fromFirst 2) 2 final contention asked ∧
        total (fun i => if i = 2 then 5 else 0) 0 asked = 5 ∧ final.queueDelay = 0 :=
  ⟨_, _, _, (handedOver_iff ⟨rfl, by decide⟩ rfl).mpr ⟨rfl, rfl, rfl⟩, by decide, by decide⟩

end GpuHotSpot.Common.EmeshHopByHop
