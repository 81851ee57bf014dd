import Mathlib.Data.List.Range
import Mathlib.Logic.Relation
import GpuHotSpot.Common.MeshDelivery

/-!
# A broadcast in the mesh

The packets in flight and those delivered, from the `netSend` of a `BROADCAST` packet on. Each step is
one round of `netPullFromTransport` at some core, in any order.

* `broadcastOnce_of_fake`: a fake node sends to each core itself; each gets the packet once.
* `not_broadcastOnce_of_real`: from the master of a stop, the packet goes round the mesh for ever:
  the coordinates are wrapped and no core at the edge keeps it back.
* `broadcast_law`: the two together.
-/

namespace GpuHotSpot.Common.EmeshHopByHop

open Relation

variable {m : Mesh}

/-! ## The transport -/

/-- One round of `netPullFromTransport`: what is sent on, and whether the packet is processed here;
a broadcast is both. -/
def netPullFromTransport (answers : ℕ → SubsecondTime) (fuel core : ℕ) (pkt : NetPacket m)
    (asked : Asked) : Option ((List (ℕ × NetPacket m) × List (ℕ × NetPacket m)) × Asked) :=
  if pkt.receiver = .core core then
    let received := processReceivedPacket answers core pkt asked
    some (([], [(core, received.1.1)]), received.2)
  else do
    let sent ← netSend answers fuel core pkt asked
    if pkt.receiver = .broadcast then
      let received := processReceivedPacket answers core pkt sent.2
      some ((sent.1, [(core, received.1.1)]), received.2)
    else some ((sent.1, []), sent.2)

/-- The packets on the transport, each with the core it is for, and those handed to a core. -/
structure Network (m : Mesh) where
  inFlight : List (ℕ × NetPacket m)
  delivered : List (ℕ × NetPacket m)
  asked : Asked

/-- A core pulls one of the packets for it. -/
inductive Pulls (answers : ℕ → SubsecondTime) : Network m → Network m → Prop
  | pull {core : ℕ} {pkt : NetPacket m} {asked : Asked} {before after : List (ℕ × NetPacket m)}
      {fuel : ℕ} {delivered : List (ℕ × NetPacket m)}
      {r : (List (ℕ × NetPacket m) × List (ℕ × NetPacket m)) × Asked}
      (pulled : netPullFromTransport answers fuel core pkt asked = some r) :
      Pulls answers ⟨before ++ (core, pkt) :: after, delivered, asked⟩
        ⟨before ++ after ++ r.1.1, delivered ++ r.1.2, r.2⟩

/-- A broadcast of `sender` comes to an end, without a core that cannot go on, and then each core has
been handed the packet once. -/
def BroadcastOnce (m : Mesh) (sender : Fin m.totalCores) : Prop :=
  ∀ (answers : ℕ → SubsecondTime) time length requester,
    ∃ fuel sent asked, netSend answers fuel sender
        (.new time sender .broadcast length requester : NetPacket m) [] = some (sent, asked) ∧
      Acc (fun s' s => Pulls answers s s') ⟨sent, [], asked⟩ ∧
      ∀ s, ReflTransGen (Pulls answers) ⟨sent, [], asked⟩ s →
        (s.inFlight ≠ [] → ∃ s', Pulls answers s s') ∧
        (s.inFlight = [] → ∀ c < m.totalCores, s.delivered.countP (·.1 = c) = 1)

/-! ## What is sent -/

variable {answers : ℕ → SubsecondTime} {core : ℕ} {pkt : NetPacket m} {asked : Asked}

variable (answers core pkt asked) in
/-- Hops that need no shortcut are sent as they are. -/
theorem sendHops_direct (startTime : SubsecondTime) (hops : List Hop) (buffer : NetPacket m)
    (direct : ∀ hop ∈ hops, hop.finalDest = .broadcast ∨ hop.finalDest = .core hop.nextDest) :
    ∃ sent, sendHops answers 1 core startTime hops buffer pkt asked = some (sent, asked) ∧
      sent.map (fun p => (p.1, p.2.receiver)) = hops.map fun hop => (hop.nextDest, hop.finalDest) := by
  induction hops generalizing buffer with
  | nil => exact ⟨[], rfl, rfl⟩
  | cons hop hops ih =>
    have reached : shortcut answers 1 hop pkt asked = some ((hop, pkt), asked) := by
      rw [shortcut, if_pos (direct hop List.mem_cons_self)]
    let started : NetPacket m :=
      if core = buffer.sender then { buffer with startTime := startTime } else buffer
    let filled : NetPacket m := { started with time := hop.time, receiver := hop.finalDest }
    obtain ⟨rest, more, same⟩ := ih filled fun hop' later =>
      direct hop' (List.mem_cons_of_mem _ later)
    refine ⟨(hop.nextDest, filled) :: rest, ?_, ?_⟩
    · rw [sendHops, reached]
      change (sendHops answers 1 core startTime hops filled pkt asked).bind
        (fun rest => some ((hop.nextDest, filled) :: rest.1, rest.2)) = _
      rw [more, Option.bind_some]
    · rw [List.map_cons, List.map_cons, same]

variable (m core) in
/-- The hops that are added are those asked for. -/
theorem addHops_dests (answers : ℕ → SubsecondTime) (time : SubsecondTime) (requester : ℕ)
    (hops : List (OutputDirection × Receiver × ℕ)) (asked : Asked) :
    (addHops m answers core time requester hops asked).1.map
        (fun hop => (hop.nextDest, hop.finalDest)) =
      hops.map fun hop => (hop.2.2, hop.2.1) := by
  induction hops generalizing asked with
  | nil => rfl
  | cons hop hops ih =>
    have same (hop : OutputDirection × Receiver × ℕ) (asked : Asked) :
        (addHop m answers core hop.1 hop.2.1 hop.2.2 time requester asked).1.1.nextDest =
            hop.2.2 ∧
          (addHop m answers core hop.1 hop.2.1 hop.2.2 time requester asked).1.1.finalDest =
            hop.2.1 := by
      rw [addHop]
      split_ifs <;> exact ⟨rfl, rfl⟩
    rw [addHops, List.map_cons, List.map_cons, ih, (same hop asked).1, (same hop asked).2]

/-! ## A fake node -/

/-- Each core is either handed the packet or has it in flight, addressed to it alone. -/
structure EachOnce (s : Network m) : Prop where
  cores : (s.inFlight.map Prod.fst ++ s.delivered.map Prod.fst).Perm (List.range m.totalCores)
  addressed : ∀ p ∈ s.inFlight, p.2.receiver = .core p.1

variable (answers asked) in
theorem netSend_of_fake (fake : fakeNode m core = true) (isBroadcast : pkt.receiver = .broadcast) :
    ∃ sent, netSend answers 1 core pkt asked = some (sent, asked) ∧
      EachOnce (⟨sent, [], asked⟩ : Network m) := by
  obtain ⟨sent, ran, same⟩ := sendHops_direct answers core pkt asked pkt.time
    ((List.range m.totalCores).map fun i => ⟨.core i, i, pkt.time⟩) pkt (by simp)
  refine ⟨sent, ?_, ?_, ?_⟩
  · simp only [netSend, routePacket, isBroadcast, routeBroadcast, fake, if_true, Option.map_some,
      Option.bind_eq_bind, Option.bind_some, ran]
  · have cores := congrArg (List.map Prod.fst) same
    simp only [List.map_map, Function.comp_def, List.map_id'] at cores
    rw [List.map_nil, List.append_nil, cores]
  · intro p member
    have found := List.mem_map_of_mem (f := fun p => (p.1, p.2.receiver)) member
    rw [same, List.map_map, List.mem_map] at found
    obtain ⟨i, -, eq⟩ := found
    simp only [Function.comp_apply, Prod.mk.injEq] at eq
    rw [← eq.1, ← eq.2]

/-- A step hands over one packet. -/
theorem EachOnce.pulls {s s' : Network m} (once : EachOnce s) (pulls : Pulls answers s s') :
    EachOnce s' ∧ s'.inFlight.length < s.inFlight.length := by
  cases pulls with
  | @pull core pkt asked before after fuel delivered r pulled =>
    have own := once.addressed (core, pkt) (by simp)
    rw [netPullFromTransport, if_pos own] at pulled
    cases pulled
    refine ⟨⟨?_, ?_⟩, ?_⟩
    · refine List.Perm.trans ?_ once.cores
      simp only [List.map_append, List.map_cons, List.append_nil, List.map_nil,
        List.append_assoc]
      refine List.Perm.append_left _ ?_
      rw [← List.append_assoc]
      exact List.perm_append_singleton _ _
    · intro p member
      refine once.addressed p ?_
      simp only [List.append_nil, List.mem_append, List.mem_cons] at member ⊢
      exact member.imp_right .inr
    · simp

theorem EachOnce.acc {s : Network m} (once : EachOnce s) :
    Acc (fun s' s => Pulls answers s s') s := by
  induction left : s.inFlight.length using Nat.strong_induction_on generalizing s with
  | _ n ih =>
    refine ⟨_, fun s' pulls => ?_⟩
    obtain ⟨once', less⟩ := once.pulls pulls
    exact ih _ (left ▸ less) once' rfl

theorem broadcastOnce_of_fake {sender : Fin m.totalCores} (fake : fakeNode m sender = true) :
    BroadcastOnce m sender := by
  intro answers time length requester
  obtain ⟨sent, ran, once⟩ := netSend_of_fake answers [] fake
    (rfl : (NetPacket.new time sender .broadcast length requester : NetPacket m).receiver =
      .broadcast)
  refine ⟨1, sent, [], ran, once.acc, fun s run => ?_⟩
  have once' : EachOnce s := by
    induction run with
    | refl => exact once
    | tail _ pulls ih => exact (ih.pulls pulls).1
  constructor
  · intro more
    obtain ⟨⟨core, pkt⟩, rest, split⟩ := List.exists_cons_of_ne_nil more
    have own := once'.addressed (core, pkt) (split ▸ List.mem_cons_self)
    obtain ⟨inFlight, delivered, asked⟩ := s
    obtain rfl : inFlight = [] ++ (core, pkt) :: rest := split
    exact ⟨_, .pull (show netPullFromTransport answers 0 core pkt asked = _ from if_pos own)⟩
  · intro none c isCore
    have cores := once'.cores
    rw [none, List.map_nil, List.nil_append] at cores
    have count : (s.delivered.map Prod.fst).count c = 1 := by
      rw [cores.count_eq]
      exact List.count_eq_one_of_mem List.nodup_range (List.mem_range.mpr isCore)
    rw [← count, List.count, List.countP_map]
    exact List.countP_congr fun p _ => by simp

/-! ## The master of a stop -/

/-- Some packet in flight is a broadcast that has come to a master. -/
def GoesRound (s : Network m) : Prop :=
  ∃ p ∈ s.inFlight, p.2.receiver = .broadcast ∧ fakeNode m p.1 = false

/-- A master sends the packet on to the stop above it or to the one below. -/
theorem exists_treeHop (core sender : ℕ) :
    ∃ hop ∈ treeHops m core sender, hop.2.1 = .broadcast ∧ fakeNode m hop.2.2 = false := by
  have inRow := column_lt m core
  obtain ⟨down, up⟩ := computeCoreId_row (y := m.row core) inRow
  rcases le_total (m.row sender) (m.row core) with above | below
  · have above' : (computePosition m core).2 ≥ (computePosition m sender).2 := Nat.cast_le.mpr above
    refine ⟨_, List.mem_append_left _ (List.mem_append_left _ (by
      rw [if_pos above']; exact List.mem_singleton_self _)), rfl, ?_⟩
    change fakeNode m (computeCoreId m (m.column core) ((m.row core : ℤ) + 1)) = false
    rw [up]
    exact fakeNode_master inRow (Nat.mod_lt _ m.height_pos)
  · have below' : (computePosition m core).2 ≤ (computePosition m sender).2 := Nat.cast_le.mpr below
    refine ⟨_, List.mem_append_left _ (List.mem_append_right _ (by
      rw [if_pos below']; exact List.mem_singleton_self _)), rfl, ?_⟩
    change fakeNode m (computeCoreId m (m.column core) ((m.row core : ℤ) - 1)) = false
    rw [down]
    exact fakeNode_master inRow (Nat.mod_lt _ m.height_pos)

/-- The hops of the tree are direct. -/
theorem direct_treeHops {sender : ℕ} :
    ∀ hop ∈ treeHops m core sender, hop.2.1 = .broadcast ∨ hop.2.1 = .core hop.2.2 := by
  intro hop member
  have single (c : Prop) [Decidable c] (x : OutputDirection × Receiver × ℕ)
      (found : hop ∈ if c then [x] else []) : hop = x := by
    split_ifs at found
    · exact List.mem_singleton.mp found
    · cases found
  rw [treeHops, List.mem_append, List.mem_append] at member
  rcases member with (up | down) | row
  · rw [single _ _ up]
    exact .inl rfl
  · rw [single _ _ down]
    exact .inl rfl
  · by_cases sameRow : (computePosition m core).2 = (computePosition m sender).2
    · rw [if_pos sameRow, List.mem_append, List.mem_append] at row
      rcases row with (right | left) | self
      · rw [single _ _ right]
        exact .inl rfl
      · rw [single _ _ left]
        exact .inl rfl
      · rw [single _ _ self]
        exact .inr rfl
    · rw [if_neg sameRow] at row
      cases row

variable (answers asked) in
/-- What a master sends on goes round. -/
theorem netSend_of_real (tree : m.broadcastTreeEnabled = true) (real : fakeNode m core = false)
    (isBroadcast : pkt.receiver = .broadcast) :
    ∃ sent asked', netSend answers 1 core pkt asked = some (sent, asked') ∧
      ∃ p ∈ sent, p.2.receiver = .broadcast ∧ fakeNode m p.1 = false := by
  obtain ⟨injection, routed⟩ : ∃ injection : SubsecondTime × Asked,
      routePacket answers core pkt asked = some (((addHops m answers core
        (pkt.time + injection.1) pkt.requester (treeHops m core pkt.sender) injection.2).1, pkt),
        (addHops m answers core (pkt.time + injection.1) pkt.requester
          (treeHops m core pkt.sender) injection.2).2) := by
    refine ⟨if pkt.sender = core then
        computeInjectionPortQueueDelay m answers core .broadcast asked else (0, asked), ?_⟩
    simp only [routePacket, isBroadcast, routeBroadcast, real, tree, Bool.false_eq_true, if_false,
      if_true, Option.map_some]
  have dests := addHops_dests m core answers (pkt.time + injection.1) pkt.requester
    (treeHops m core pkt.sender) injection.2
  generalize addHops m answers core (pkt.time + injection.1) pkt.requester
    (treeHops m core pkt.sender) injection.2 = added at routed dests
  have direct : ∀ hop ∈ added.1, hop.finalDest = .broadcast ∨ hop.finalDest = .core hop.nextDest := by
    intro hop member
    have found := List.mem_map_of_mem (f := fun hop : Hop => (hop.nextDest, hop.finalDest)) member
    rw [dests, List.mem_map] at found
    obtain ⟨treeHop, inTree, same⟩ := found
    rw [Prod.mk.injEq] at same
    rw [← same.1, ← same.2]
    exact direct_treeHops treeHop inTree
  obtain ⟨sent, ran, same⟩ := sendHops_direct answers core pkt added.2 pkt.time added.1 pkt direct
  refine ⟨sent, added.2, ?_, ?_⟩
  · simp only [netSend, routed, Option.bind_eq_bind, Option.bind_some, ran]
  · obtain ⟨treeHop, inTree, isBroadcast', real'⟩ := exists_treeHop (m := m) core pkt.sender
    have found : (treeHop.2.2, treeHop.2.1) ∈ sent.map fun p => (p.1, p.2.receiver) := by
      rw [same, dests]
      exact List.mem_map_of_mem (f := fun hop : OutputDirection × Receiver × ℕ => (hop.2.2, hop.2.1))
        inTree
    obtain ⟨p, member, eq⟩ := List.mem_map.mp found
    rw [Prod.mk.injEq] at eq
    exact ⟨p, member, eq.2.trans isBroadcast', eq.1 ▸ real'⟩

variable (answers) in
/-- **Round the mesh.** There is always a next step after which the packet still goes round. -/
theorem GoesRound.pulls (tree : m.broadcastTreeEnabled = true) {s : Network m} (round : GoesRound s) :
    ∃ s', Pulls answers s s' ∧ GoesRound s' := by
  obtain ⟨inFlight, delivered, asked⟩ := s
  obtain ⟨⟨core, pkt⟩, member, isBroadcast, real⟩ := round
  obtain ⟨before, after, rfl⟩ := List.append_of_mem member
  obtain ⟨sent, asked', ran, p, inSent, isBroadcast', real'⟩ :=
    netSend_of_real answers asked tree real isBroadcast
  have other : pkt.receiver ≠ .core core := fun own => by
    rw [own] at isBroadcast
    cases isBroadcast
  have pulled : netPullFromTransport answers 1 core pkt asked =
      some ((sent, [(core, (processReceivedPacket answers core pkt asked').1.1)]),
        (processReceivedPacket answers core pkt asked').2) := by
    rw [netPullFromTransport, if_neg other, ran]
    exact if_pos isBroadcast
  exact ⟨_, .pull pulled, p, List.mem_append_right _ inSent, isBroadcast', real'⟩

theorem GoesRound.not_acc (tree : m.broadcastTreeEnabled = true) {s : Network m}
    (round : GoesRound s) : ¬ Acc (fun s' s => Pulls answers s s') s := by
  intro ends
  induction ends with
  | intro s _ ih =>
    obtain ⟨s', pulls, round'⟩ := round.pulls answers tree
    exact ih s' pulls round'

theorem not_broadcastOnce_of_real (tree : m.broadcastTreeEnabled = true) {sender : Fin m.totalCores}
    (real : fakeNode m sender = false) : ¬ BroadcastOnce m sender := by
  intro once
  obtain ⟨fuel, sent, asked, ran, ends, -⟩ := once (fun _ => 0) 0 0 sender
  obtain ⟨sent', asked', ran', round⟩ := netSend_of_real (fun _ => 0) []
    tree real (rfl : (NetPacket.new 0 sender .broadcast 0 sender : NetPacket m).receiver = _)
  obtain ⟨rfl, rfl⟩ := Prod.mk.inj (netSend_unique ran ran')
  exact GoesRound.not_acc (s := ⟨sent, [], asked⟩) tree round ends

/-- **Broadcasts.** With the tree, a broadcast reaches each core once exactly when its sender is not
the master of a stop. -/
theorem broadcast_law (m : Mesh) (tree : m.broadcastTreeEnabled = true)
    (sender : Fin m.totalCores) : BroadcastOnce m sender ↔ fakeNode m sender = true := by
  constructor
  · intro once
    by_contra notFake
    exact not_broadcastOnce_of_real tree (Bool.not_eq_true _ ▸ notFake) once
  · exact broadcastOnce_of_fake

/-- A row of three stops with two cores on each. -/
def twoOnEach : Mesh :=
  { threeCores false with
    concentration := 2
    concentration_pos := by decide
    totalCores := 6
    fits := by decide }

/-- The second core of a stop reaches each core. -/
theorem broadcast_law_second : BroadcastOnce twoOnEach ⟨1, by decide⟩ :=
  (broadcast_law twoOnEach rfl ⟨1, by decide⟩).mpr (by decide)

/-- The first of three cores reaches none for good. -/
theorem broadcast_goes_round : ¬ BroadcastOnce (threeCores false) ⟨0, by decide⟩ :=
  not_broadcastOnce_of_real rfl (by decide)

end GpuHotSpot.Common.EmeshHopByHop
