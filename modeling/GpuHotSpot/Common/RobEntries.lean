import GpuHotSpot.Common.RobTimer
import GpuHotSpot.Common.DependencyLists
import Mathlib.Data.List.Count

/-!
# Entries of the reorder buffer

What `simulate` and `issueInstruction` do to the entries of the queue.

* `Rob.findEntry_ok`: an entry is found by its sequence number.
* `link_spec`: a new entry waits for the dependencies that are not issued, and they know it.
* `wakeAll_spec`: the dependants of an issued entry lose a dependency.
* `enter_spec`, `issueInstruction_spec`: the two together with the rest of the state.
-/

namespace GpuHotSpot.Common.RobTimer

open Fallible

/-! ## The queue -/

namespace Rob

variable {q : Rob} {p r x : ℕ}

/-- The sequence number of an entry is the number of its slot. -/
def Numbered (q : Rob) : Prop :=
  ∀ p < q.entries.length, (q.slot p).uop.sequenceNumber = p

/-- The entry has been issued. -/
def Issued (q : Rob) (p : ℕ) : Prop := (q.slot p).done ≠ ⊤

instance : Decidable (q.Issued p) := inferInstanceAs (Decidable (_ ≠ _))

@[simp] theorem length_modify (f : RobEntry → RobEntry) :
    (q.modify p f).entries.length = q.entries.length := List.length_modify ..

@[simp] theorem length_push (e : RobEntry) :
    (q.push e).entries.length = q.entries.length + 1 := by simp [push]

theorem slot_of_length_le (outside : q.entries.length ≤ p) : q.slot p = RobEntry.unused := by
  rw [slot, List.getD_eq_getElem?_getD, List.getElem?_eq_none outside, Option.getD_none]

theorem slot_modify (f : RobEntry → RobEntry) :
    (q.modify p f).slot r = if r = p ∧ p < q.entries.length then f (q.slot p) else q.slot r := by
  simp only [slot, modify, List.getD_eq_getElem?_getD, List.getElem?_modify]
  by_cases same : p = r
  · subst same
    by_cases inside : p < q.entries.length
    · simp [inside]
    · simp [inside]
  · simp [same, Ne.symm same]

theorem slot_modify_self (inside : p < q.entries.length) (f : RobEntry → RobEntry) :
    (q.modify p f).slot p = f (q.slot p) := by
  rw [slot_modify, if_pos ⟨rfl, inside⟩]

theorem slot_modify_of_ne (other : r ≠ p) (f : RobEntry → RobEntry) :
    (q.modify p f).slot r = q.slot r := by
  rw [slot_modify, if_neg fun both => other both.1]

theorem slot_push (e : RobEntry) :
    (q.push e).slot p = if p = q.entries.length then e else q.slot p := by
  simp only [slot, push, List.getD_eq_getElem?_getD]
  rcases lt_trichotomy p q.entries.length with inside | rfl | outside
  · rw [List.getElem?_append_left inside, if_neg (by omega)]
  · simp
  · rw [List.getElem?_eq_none (by simp; omega), List.getElem?_eq_none (by omega), if_neg (by omega)]

theorem frontSequenceNumber_eq (numbered : q.Numbered) (some : q.first < q.entries.length) :
    q.frontSequenceNumber = q.first := numbered q.first some

/-- **Finding an entry.** -/
theorem findEntry_ok (numbered : q.Numbered) :
    q.findEntryBySequenceNumber x = .ok p ↔ p = x ∧ q.first ≤ x ∧ x < q.entries.length := by
  rw [findEntryBySequenceNumber]
  by_cases some : q.first < q.entries.length
  · rw [frontSequenceNumber_eq numbered some]
    have size : q.size = q.entries.length - q.first := rfl
    by_cases inside : q.first ≤ x ∧ x < q.entries.length
    · have back : q.first + (x - q.first) = x := by omega
      rw [if_pos ⟨inside.1, by omega⟩, back, if_pos (numbered x inside.2)]
      simp [inside, eq_comm]
    · rw [if_neg fun both => inside ⟨both.1, by omega⟩]
      simp only [reduceCtorEq, false_iff]
      exact fun found => inside found.2
  · have empty : q.size = 0 := by
      rw [size]
      omega
    rw [if_neg fun both => absurd both.2 (by omega)]
    simp only [reduceCtorEq, false_iff]
    rintro ⟨-, low, high⟩
    omega

theorem pointerAt_ok {i : ℕ} : q.pointerAt i = .ok p ↔ i < q.size ∧ p = q.first + i := by
  rw [pointerAt]
  split_ifs with inside
  · simp [inside, eq_comm]
  · simp [inside]

end Rob

/-! ## Dependencies of a new entry -/

variable {q q' : Rob}

theorem mem_of_getDependencies {u : DynamicMicroOp} {dependencies : List ℕ}
    (got : u.getDependencies = .ok dependencies) : dependencies = u.allDependencies := by
  rw [DynamicMicroOp.getDependencies] at got
  split_ifs at got
  cases got
  rfl

/-- The dependencies on the entries that are issued, or on the others. -/
def issuedOf (q : Rob) (dependencies : List ℕ) : List ℕ :=
  dependencies.filter fun x => q.Issued x

def waitingOf (q : Rob) (dependencies : List ℕ) : List ℕ :=
  dependencies.filter fun x => ¬ q.Issued x

/-- `own` has become a dependant of some entries. -/
structure Registered (own : ℕ) (dependencies : List ℕ) (q q' : Rob) : Prop where
  first : q'.first = q.first
  length : q'.entries.length = q.entries.length
  slot : ∀ p, q'.slot p = { q.slot p with
    dependants := (q.slot p).dependants ++
      List.replicate ((waitingOf q dependencies).count p) own }

theorem Registered.issued {own : ℕ} {dependencies : List ℕ}
    (reg : Registered own dependencies q q') (p : ℕ) : q'.Issued p ↔ q.Issued p := by
  rw [Rob.Issued, Rob.Issued, reg.slot]

theorem Registered.numbered {own : ℕ} {dependencies : List ℕ}
    (reg : Registered own dependencies q q') (numbered : q.Numbered) : q'.Numbered := by
  intro p inside
  rw [reg.slot]
  exact numbered p (reg.length ▸ inside)

/-- **The loop over the dependencies.** -/
theorem registerAll_spec (numbered : q.Numbered) {own : ℕ} {dependencies : List ℕ}
    {readyMax : Time} {before : List ℕ} {r : Registering}
    (ran : dependencies.foldlM (register own) ⟨q, readyMax, before⟩ = .ok r) :
    Registered own dependencies q r.rob ∧ (∀ t, r.readyMax ≤ t ↔ readyMax ≤ t ∧
        ∀ x ∈ dependencies, q.Issued x → (q.slot x).done ≤ t) ∧
      r.depsToRemove = before ++ issuedOf q dependencies ∧
      ∀ x ∈ dependencies, q.first ≤ x ∧ x < q.entries.length := by
  induction dependencies generalizing q readyMax before with
  | nil =>
    cases ran
    exact ⟨⟨rfl, rfl, fun p => by simp [waitingOf]⟩, by simp, by simp [issuedOf], by simp⟩
  | cons x xs ih =>
    rw [List.foldlM_cons] at ran
    obtain ⟨r₁, first, rest⟩ := bind_ok.1 ran
    obtain ⟨p, found, body⟩ := bind_ok.1 first
    obtain ⟨rfl, low, high⟩ := (Rob.findEntry_ok numbered).mp found
    dsimp only at body
    by_cases issued : q.Issued p
    · rw [if_pos (show (q.slot p).done ≠ ⊤ from issued)] at body
      split_ifs at body
      cases body
      obtain ⟨reg, max, removed, inside⟩ := ih numbered rest
      have skip : waitingOf q (p :: xs) = waitingOf q xs :=
        List.filter_cons_of_neg (by simp [issued])
      refine ⟨⟨reg.first, reg.length, skip ▸ reg.slot⟩, fun t => ?_, ?_, ?_⟩
      · rw [max]
        simp only [max_le_iff, List.mem_cons, forall_eq_or_imp, issued, forall_true_left, and_assoc]
      · rw [removed, issuedOf, issuedOf, List.filter_cons_of_pos (by simp [issued]),
          List.append_assoc, List.singleton_append]
      · simp only [List.mem_cons, forall_eq_or_imp]
        exact ⟨⟨low, high⟩, inside⟩
    · rw [if_neg (show ¬ (q.slot p).done ≠ ⊤ from issued)] at body
      cases body
      have one : Registered own [p] q
          (q.modify p fun e => { e with dependants := e.dependants ++ [own] }) := by
        refine ⟨rfl, q.length_modify _, fun r => ?_⟩
        have only : waitingOf q [p] = [p] := List.filter_cons_of_pos (by simp [issued])
        by_cases same : r = p
        · subst same
          rw [Rob.slot_modify_self high, only]
          simp
        · rw [Rob.slot_modify_of_ne same, only]
          simp [Ne.symm same]
      obtain ⟨reg, max, removed, inside⟩ := ih (one.numbered numbered) rest
      have issuedSame : issuedOf (q.modify p fun e =>
          { e with dependants := e.dependants ++ [own] }) xs = issuedOf q xs :=
        List.filter_congr fun y _ => by simp only [one.issued]
      have waitingSame : waitingOf (q.modify p fun e =>
          { e with dependants := e.dependants ++ [own] }) xs = waitingOf q xs :=
        List.filter_congr fun y _ => by simp only [one.issued]
      have keep : waitingOf q (p :: xs) = p :: waitingOf q xs :=
        List.filter_cons_of_pos (by simp [issued])
      have only : waitingOf q [p] = [p] := List.filter_cons_of_pos (by simp [issued])
      refine ⟨⟨reg.first, reg.length.trans one.length, fun r => ?_⟩, fun t => ?_, ?_, ?_⟩
      · rw [reg.slot, one.slot, waitingSame, keep, only]
        simp only [List.append_assoc, List.replicate_append_replicate, List.count_cons,
          List.count_nil]
        rw [Nat.zero_add, Nat.add_comm]
      · rw [max]
        simp only [one.issued, List.mem_cons, forall_eq_or_imp, issued, false_implies, true_and]
        simp only [one.slot]
      · rw [removed, issuedSame, issuedOf, issuedOf, List.filter_cons_of_neg (by simp [issued])]
      · simp only [List.mem_cons, forall_eq_or_imp]
        exact ⟨⟨low, high⟩, fun y member => one.length ▸ inside y member⟩

theorem foldlM_removeDependency_spec {u u' : DynamicMicroOp} {xs : List ℕ}
    (removed : xs.foldlM (fun u x => u.removeDependency x) u = .ok u') :
    u'.bare = u.bare ∧ u.allDependencies.Perm (xs ++ u'.allDependencies) := by
  induction xs generalizing u with
  | nil =>
    cases removed
    exact ⟨rfl, .refl _⟩
  | cons x xs ih =>
    rw [List.foldlM_cons] at removed
    obtain ⟨v, first, rest⟩ := bind_ok.1 removed
    obtain ⟨bare₁, perm₁⟩ := DynamicMicroOp.removeDependency_spec first
    obtain ⟨bare, perm⟩ := ih rest
    exact ⟨bare.trans bare₁, perm₁.trans (perm.cons x)⟩

theorem issued_append_waiting (q : Rob) (dependencies : List ℕ) :
    (issuedOf q dependencies ++ waitingOf q dependencies).Perm dependencies := by
  have perm := List.filter_append_perm (fun x => decide (q.Issued x)) dependencies
  simpa only [issuedOf, waitingOf, decide_not] using perm

/-- **A new entry**: it depends on the entries that are not issued, and knows when the results of the
others are there. -/
theorem link_spec (numbered : q.Numbered) {e e' : RobEntry} (linked : link q e = .ok (q', e')) :
    Registered q.entries.length e.uop.allDependencies q q' ∧ e'.uop.bare = e.uop.bare ∧
      e'.uop.allDependencies.Perm (waitingOf q e.uop.allDependencies) ∧
      (∀ t, e'.readyMax ≤ t ↔ e.readyMax ≤ t ∧
        ∀ x ∈ e.uop.allDependencies, q.Issued x → (q.slot x).done ≤ t) ∧
      e' = { e with
        uop := e'.uop
        readyMax := e'.readyMax
        ready := if e'.uop.allDependencies = [] then e'.readyMax else e.ready } ∧
      ∀ x ∈ e.uop.allDependencies, q.first ≤ x ∧ x < q.entries.length := by
  rw [link] at linked
  obtain ⟨dependencies, got, linked⟩ := bind_ok.1 linked
  obtain rfl := mem_of_getDependencies got
  obtain ⟨r, registered, linked⟩ := bind_ok.1 linked
  obtain ⟨reg, max, removed, inside⟩ := registerAll_spec numbered registered
  split_ifs at linked
  obtain ⟨u, removal, linked⟩ := bind_ok.1 linked
  obtain ⟨bare, perm⟩ := foldlM_removeDependency_spec removal
  rw [removed, List.nil_append] at perm
  have rest : u.allDependencies.Perm (waitingOf q e.uop.allDependencies) :=
    (List.perm_append_left_iff _).mp
      (perm.symm.trans (issued_append_waiting q e.uop.allDependencies).symm)
  dsimp only at linked
  split_ifs at linked with empty
  · rw [DynamicMicroOp.getDependenciesLength_eq_zero] at empty
    cases linked
    exact ⟨reg, bare, rest, max, by rw [if_pos empty], inside⟩
  · rw [DynamicMicroOp.getDependenciesLength_eq_zero] at empty
    cases linked
    exact ⟨reg, bare, rest, max, by rw [if_neg empty], inside⟩

/-! ## The address of a store -/

/-- **The address of a new store.** -/
theorem addAddressRegisters_spec (numbered : q.Numbered) {producers : RegisterDependencies}
    {low : ℕ} {registers : List ℕ} {e e' : RobEntry}
    (ran : registers.foldlM (addAddressRegister q producers low) e = .ok e') :
    (∀ t, e'.addressReadyMax ≤ t ↔ e.addressReadyMax ≤ t ∧ ∀ r ∈ registers, ∀ p,
        producers r = some p → low ≤ p → q.Issued p → (q.slot p).done ≤ t) ∧
      (∀ p, p ∈ e'.addressProducers ↔ p ∈ e.addressProducers ∨ ∃ r ∈ registers,
        producers r = some p ∧ low ≤ p ∧ ¬ q.Issued p) ∧
      e' = { e with
        addressProducers := e'.addressProducers
        addressReadyMax := e'.addressReadyMax } := by
  induction registers generalizing e with
  | nil =>
    cases ran
    exact ⟨by simp, by simp, rfl⟩
  | cons r rs ih =>
    rw [List.foldlM_cons] at ran
    obtain ⟨e₁, first, rest⟩ := bind_ok.1 ran
    obtain ⟨max, members, same⟩ := ih rest
    have one : (∀ t, e₁.addressReadyMax ≤ t ↔ e.addressReadyMax ≤ t ∧ ∀ p,
          producers r = some p → low ≤ p → q.Issued p → (q.slot p).done ≤ t) ∧
        (∀ p, p ∈ e₁.addressProducers ↔ p ∈ e.addressProducers ∨
          producers r = some p ∧ low ≤ p ∧ ¬ q.Issued p) ∧
        e₁ = { e with
          addressProducers := e₁.addressProducers
          addressReadyMax := e₁.addressReadyMax } := by
      rw [addAddressRegister, RegisterDependencies.peekProducer] at first
      split at first
      · rename_i none
        cases first
        have unknown (p : ℕ) (known : producers r = some p) : ¬ low ≤ p := by
          rw [known] at none
          simpa using none
        refine ⟨fun t => ⟨fun le => ⟨le, fun p known valid => absurd valid (unknown p known)⟩,
          fun both => both.1⟩, fun p => ⟨.inl, ?_⟩, rfl⟩
        rintro (there | ⟨known, valid, -⟩)
        · exact there
        · exact absurd valid (unknown p known)
      · rename_i producer found
        obtain ⟨known, valid⟩ := Option.filter_eq_some_iff.mp found
        have valid := of_decide_eq_true valid
        obtain ⟨p, entry, body⟩ := bind_ok.1 first
        obtain ⟨rfl, -, -⟩ := (Rob.findEntry_ok numbered).mp entry
        simp only [known, Option.some.injEq, forall_eq']
        by_cases issued : q.Issued p
        · rw [if_pos (show (q.slot p).done ≠ ⊤ from issued)] at body
          cases body
          refine ⟨fun t => ?_, fun x => ⟨.inl, ?_⟩, rfl⟩
          · simp [valid, issued]
          · rintro (there | ⟨rfl, -, waiting⟩)
            · exact there
            · exact absurd issued waiting
        · rw [if_neg (show ¬ (q.slot p).done ≠ ⊤ from issued)] at body
          cases body
          refine ⟨fun t => by simp [issued], fun x => ?_, rfl⟩
          rw [List.mem_append, List.mem_singleton]
          refine or_congr_right ⟨?_, fun both => both.1.symm⟩
          rintro rfl
          exact ⟨rfl, valid, issued⟩
    refine ⟨fun t => ?_, fun p => ?_, ?_⟩
    · rw [max, one.1]
      simp only [List.mem_cons, forall_eq_or_imp, and_assoc]
    · rw [members, one.2.1]
      simp only [List.mem_cons, exists_eq_or_imp, or_assoc]
    · rw [same, one.2.2]

/-- Whether the result of an address producer is known. -/
def known (q : Rob) (p : ℕ) : Bool := q.first ≤ p → q.Issued p

/-- A store when the entry at `p` has been issued. -/
def addressAfter (known : ℕ → Bool) (p cycleDepend : ℕ) (e : RobEntry) : RobEntry :=
  if e.uop.isStore ∧ e.addressReady = ⊤ then
    let addressReadyMax :=
      if p ∈ e.addressProducers then max e.addressReadyMax (cycleDepend : ℕ) else e.addressReadyMax
    { e with
      addressReadyMax := addressReadyMax
      addressReady := if e.addressProducers.all known then addressReadyMax else ⊤ }
  else e

theorem produceAddress_spec (numbered : q.Numbered) {p cycleDepend : ℕ} (low : q.first ≤ p)
    (high : p < q.entries.length) {producers : List ℕ} {r r' : Time × Bool}
    (ran : producers.foldlM (produceAddress q p cycleDepend) r = .ok r') :
    r' = (if p ∈ producers then max r.1 (cycleDepend : ℕ) else r.1,
      r.2 && producers.all (known q)) := by
  induction producers generalizing r with
  | nil =>
    cases ran
    simp
  | cons a producers ih =>
    rw [List.foldlM_cons] at ran
    obtain ⟨r₁, first, rest⟩ := bind_ok.1 ran
    rw [ih rest]
    rw [produceAddress, Rob.frontSequenceNumber_eq numbered (by omega)] at first
    split_ifs at first with valid
    · obtain ⟨b, found, body⟩ := bind_ok.1 first
      obtain ⟨rfl, -, -⟩ := (Rob.findEntry_ok numbered).mp found
      cases body
      have knownHere : known q b = decide (q.Issued b) := by simp [known, valid]
      rw [List.all_cons, knownHere]
      refine Prod.ext ?_ ?_
      · by_cases same : b = p
        · subst same
          by_cases again : b ∈ producers <;> simp [again]
        · simp [same, Ne.symm same]
      · by_cases issued : (q.slot b).done = ⊤
        · simp [issued, Rob.Issued]
        · simp [issued, Rob.Issued]
    · cases first
      have other : a ≠ p := by
        rintro rfl
        exact valid low
      have knownHere : known q a = true := by simp [known, valid]
      simp [knownHere, Ne.symm other]

theorem resolveAddress_spec (numbered : q.Numbered) {p cycleDepend : ℕ} (low : q.first ≤ p)
    (high : p < q.entries.length) {e e' : RobEntry}
    (ran : resolveAddress q p cycleDepend e = .ok e') :
    e' = addressAfter (known q) p cycleDepend e := by
  rw [resolveAddress] at ran
  rw [addressAfter]
  by_cases store : e.uop.isStore ∧ e.addressReady = ⊤
  · rw [if_pos store] at ran ⊢
    obtain ⟨r, produced, body⟩ := bind_ok.1 ran
    rw [produceAddress_spec numbered low high produced] at body
    dsimp only at body ⊢
    by_cases all : e.addressProducers.all (known q) = true
    · rw [if_pos (show (true && e.addressProducers.all (known q)) = true from all)] at body
      cases body
      rw [if_pos all]
    · rw [if_neg (show ¬ (true && e.addressProducers.all (known q)) = true from all)] at body
      cases body
      rw [if_neg all, store.2]
  · rw [if_neg store] at ran ⊢
    cases ran
    rfl

theorem addressAfter_uop (known : ℕ → Bool) (p cycleDepend : ℕ) (e : RobEntry) :
    (addressAfter known p cycleDepend e).uop = e.uop := by
  rw [addressAfter]
  split
  · rfl
  · rfl

/-- The second time there is nothing left to do. -/
theorem addressAfter_again {known : ℕ → Bool} {p cycleDepend : ℕ} {e e' : RobEntry}
    (store : e'.uop.isStore = e.uop.isStore) (producers : e'.addressProducers = e.addressProducers)
    (max : e'.addressReadyMax = (addressAfter known p cycleDepend e).addressReadyMax)
    (ready : e'.addressReady = (addressAfter known p cycleDepend e).addressReady) :
    (addressAfter known p cycleDepend e').addressReadyMax = e'.addressReadyMax ∧
      (addressAfter known p cycleDepend e').addressReady = e'.addressReady := by
  by_cases waiting : e.uop.isStore ∧ e.addressReady = ⊤
  · rw [addressAfter, if_pos waiting] at max ready
    dsimp only at max ready
    have twice : (if p ∈ e'.addressProducers then
        Max.max e'.addressReadyMax ((cycleDepend : ℕ) : Time) else e'.addressReadyMax) =
          e'.addressReadyMax := by
      rw [producers, max]
      split_ifs
      · rw [max_assoc, max_self]
      · rfl
    rw [addressAfter, producers]
    by_cases still : e'.uop.isStore ∧ e'.addressReady = ⊤
    · rw [if_pos still]
      refine ⟨producers ▸ twice, ?_⟩
      dsimp only
      rw [← producers, twice, producers, ready, max]
    · rw [if_neg still]
      exact ⟨rfl, rfl⟩
  · rw [addressAfter, if_neg waiting] at ready
    rw [addressAfter, if_neg (by rw [store, ready]; exact waiting)]
    exact ⟨rfl, rfl⟩

/-! ## Dependants -/

/-- What waking an entry `n` times does. -/
structure Woken (known : ℕ → Bool) (p : ℕ) (issue : Issue) (n : ℕ) (e e' : RobEntry) : Prop where
  unchanged : n = 0 → e' = e
  bare : e'.uop.bare = e.uop.bare
  dependencies : e.uop.allDependencies.Perm
    (List.replicate n issue.sequenceNumber ++ e'.uop.allDependencies)
  dependants : e'.dependants = e.dependants
  addressProducers : e'.addressProducers = e.addressProducers
  dispatched : e'.dispatched = e.dispatched
  issued : e'.issued = e.issued
  done : e'.done = e.done
  readyMax : n ≠ 0 → e'.readyMax = max e.readyMax (issue.cycleDepend : ℕ)
  ready : n ≠ 0 → e'.ready = if e'.uop.allDependencies = [] then e'.readyMax else e.ready
  addressReadyMax : n ≠ 0 →
    e'.addressReadyMax = (addressAfter known p issue.cycleDepend e).addressReadyMax
  addressReady : n ≠ 0 →
    e'.addressReady = (addressAfter known p issue.cycleDepend e).addressReady

namespace Woken

variable {f : ℕ → Bool} {p n m : ℕ} {issue : Issue} {e e' e'' : RobEntry}

theorem refl (e : RobEntry) : Woken f p issue 0 e e :=
  ⟨fun _ => rfl, rfl, .refl _, rfl, rfl, rfl, rfl, rfl, fun some => absurd rfl some,
    fun some => absurd rfl some, fun some => absurd rfl some, fun some => absurd rfl some⟩

theorem trans (first : Woken f p issue m e e') (second : Woken f p issue n e' e'') :
    Woken f p issue (m + n) e e'' := by
  by_cases none : n = 0
  · rw [second.unchanged none, none]
    exact first
  by_cases noneBefore : m = 0
  · rw [first.unchanged noneBefore] at second
    rw [noneBefore, Nat.zero_add]
    exact second
  have again := addressAfter_again (DynamicMicroOp.isStore_of_bare first.bare)
    first.addressProducers (first.addressReadyMax noneBefore) (first.addressReady noneBefore)
  have waiting : e'.uop.allDependencies ≠ [] := by
    intro empty
    have length := second.dependencies.length_eq
    simp [empty] at length
    omega
  exact {
    unchanged := fun both => absurd both (by omega)
    bare := second.bare.trans first.bare
    dependencies := by
      have perm := first.dependencies.trans (second.dependencies.append_left _)
      rwa [← List.append_assoc, List.replicate_append_replicate] at perm
    dependants := second.dependants.trans first.dependants
    addressProducers := second.addressProducers.trans first.addressProducers
    dispatched := second.dispatched.trans first.dispatched
    issued := second.issued.trans first.issued
    done := second.done.trans first.done
    readyMax := fun _ => by
      rw [second.readyMax none, first.readyMax noneBefore, max_assoc, max_self]
    ready := fun _ => by
      rw [second.ready none, first.ready noneBefore, if_neg waiting]
    addressReadyMax := fun _ =>
      (second.addressReadyMax none).trans (again.1.trans (first.addressReadyMax noneBefore))
    addressReady := fun _ =>
      (second.addressReady none).trans (again.2.trans (first.addressReady noneBefore)) }

end Woken

theorem wake_spec (numbered : q.Numbered) {p c : ℕ} {issue : Issue} (low : q.first ≤ p)
    (high : p < q.entries.length) (woke : wake p issue q c = .ok q') :
    q.first ≤ c ∧ c < q.entries.length ∧ q'.first = q.first ∧ q'.entries.length = q.entries.length ∧
      Woken (known q) p issue 1 (q.slot c) (q'.slot c) ∧ ∀ r ≠ c, q'.slot r = q.slot r := by
  rw [wake] at woke
  split_ifs at woke with inside
  dsimp only at woke
  split_ifs at woke with some
  obtain ⟨u, removed, woke⟩ := bind_ok.1 woke
  obtain ⟨e, resolved, woke⟩ := bind_ok.1 woke
  cases woke
  have eq := resolveAddress_spec numbered low high resolved
  obtain ⟨bare, perm⟩ := DynamicMicroOp.removeDependency_spec removed
  refine ⟨inside.1, inside.2, rfl, q.length_modify _, ?_,
    fun r other => Rob.slot_modify_of_ne other _⟩
  rw [Rob.slot_modify_self inside.2]
  have store : u.isStore = (q.slot c).uop.isStore := DynamicMicroOp.isStore_of_bare bare
  have uop : e.uop = u := by rw [eq, addressAfter_uop]
  have ready (deps : DynamicMicroOp.allDependencies u = []) : u.getDependenciesLength = 0 :=
    DynamicMicroOp.getDependenciesLength_eq_zero.2 deps
  refine ⟨fun none => absurd none (by simp), uop ▸ bare, ?_, ?_, ?_, ?_, ?_, ?_, fun _ => ?_,
    fun _ => ?_, fun _ => ?_, fun _ => ?_⟩
  · rw [uop]
    exact perm
  all_goals
    rw [eq]
    unfold addressAfter
    simp only [store, DynamicMicroOp.getDependenciesLength_eq_zero]
    first | rfl | (split_ifs <;> rfl)

/-- **The loop over the dependants.** -/
theorem wakeAll_spec (numbered : q.Numbered) {p : ℕ} {issue : Issue} (low : q.first ≤ p)
    (high : p < q.entries.length) {dependants : List ℕ}
    (woke : dependants.foldlM (wake p issue) q = .ok q') :
    q'.first = q.first ∧ q'.entries.length = q.entries.length ∧
      (∀ c, Woken (known q) p issue (dependants.count c) (q.slot c) (q'.slot c)) ∧
      ∀ c ∈ dependants, q.first ≤ c ∧ c < q.entries.length := by
  induction dependants generalizing q with
  | nil =>
    cases woke
    exact ⟨rfl, rfl, fun c => Woken.refl _, by simp⟩
  | cons c cs ih =>
    rw [List.foldlM_cons] at woke
    obtain ⟨q₁, one, rest⟩ := bind_ok.1 woke
    obtain ⟨lowC, highC, first₁, length₁, woken, others⟩ := wake_spec numbered low high one
    have slots (r : ℕ) : (q₁.slot r).done = (q.slot r).done ∧
        (q₁.slot r).uop.sequenceNumber = (q.slot r).uop.sequenceNumber := by
      by_cases same : r = c
      · subst same
        exact ⟨woken.done, DynamicMicroOp.sequenceNumber_of_bare woken.bare⟩
      · rw [others r same]
        exact ⟨rfl, rfl⟩
    have numbered₁ : q₁.Numbered := fun r inside =>
      (slots r).2.trans (numbered r (length₁ ▸ inside))
    have known₁ : known q₁ = known q := by
      funext r
      rw [known, known, decide_eq_decide, Rob.Issued, Rob.Issued, first₁, (slots r).1]
    obtain ⟨first, length, all, inside⟩ := ih numbered₁ (by omega) (by omega) rest
    rw [known₁] at all
    rw [first₁, length₁] at inside
    refine ⟨first.trans first₁, length.trans length₁, fun r => ?_, ?_⟩
    · by_cases same : r = c
      · subst same
        rw [List.count_cons_self, Nat.add_comm]
        exact woken.trans (all r)
      · rw [List.count_cons_of_ne (Ne.symm same), ← others r same]
        exact all r
    · simp only [List.mem_cons, forall_eq_or_imp]
      exact ⟨⟨lowC, highC⟩, inside⟩

/-! ## Forwarding -/

/-- The first store among the dependencies. -/
def FirstStore (q : Rob) (dependencies : List ℕ) (x : ℕ) : Prop :=
  (q.first ≤ x ∧ x < q.entries.length) ∧ ∃ before after, dependencies = before ++ x :: after ∧ (q.slot x).uop.isStore = true ∧
    ∀ y ∈ before, (q.slot y).uop.isStore = false

theorem findStore_spec (numbered : q.Numbered) {dependencies : List ℕ} {r : Option (ℕ × ℕ)}
    (found : findStore q dependencies = .ok r) :
    match r with
    | none => ∀ x ∈ dependencies, (q.slot x).uop.isStore = false
    | some (x, p) => p = x ∧ FirstStore q dependencies x := by
  induction dependencies with
  | nil =>
    cases found
    simp
  | cons x xs ih =>
    rw [findStore] at found
    obtain ⟨p, entry, body⟩ := bind_ok.1 found
    obtain ⟨rfl, low, high⟩ := (Rob.findEntry_ok numbered).mp entry
    split_ifs at body with store
    · cases body
      exact ⟨rfl, ⟨low, high⟩, [], xs, rfl, store, by simp⟩
    · have store := Bool.not_eq_true _ ▸ store
      have later := ih body
      cases r with
      | none =>
        simp only [List.mem_cons, forall_eq_or_imp]
        exact ⟨store, later⟩
      | some found =>
        obtain ⟨same, bounds, before, after, split, isStore, none⟩ := later
        refine ⟨same, bounds, p :: before, after, by rw [split, List.cons_append], isStore, ?_⟩
        simp only [List.mem_cons, forall_eq_or_imp]
        exact ⟨store, none⟩

/-- What store-to-load forwarding makes of the dependencies. -/
inductive Forwarded (forwarding : Bool) (q : Rob) (u : DynamicMicroOp) : DynamicMicroOp → Prop
  | off (none : (forwarding && u.isLoad) = false) : Forwarded forwarding q u u
  | noStore (on : (forwarding && u.isLoad) = true)
      (none : ∀ x ∈ u.allDependencies, (q.slot x).uop.isStore = false) : Forwarded forwarding q u u
  | store {u' : DynamicMicroOp} {x : ℕ} {rest : List ℕ} (on : (forwarding && u.isLoad) = true)
      (first : FirstStore q u.allDependencies x) (bare : u'.bare = u.bare)
      (without : u.allDependencies.Perm (x :: rest))
      (members : ∀ y, y ∈ u'.allDependencies ↔
        y ∈ rest ∨ y ∈ (q.slot x).uop.allDependencies) : Forwarded forwarding q u u'

theorem Forwarded.bare {forwarding : Bool} {u u' : DynamicMicroOp}
    (forwarded : Forwarded forwarding q u u') : u'.bare = u.bare := by
  cases forwarded with
  | off none => rfl
  | noStore on none => rfl
  | store on first bare without members => exact bare

theorem forward_spec (numbered : q.Numbered) {u u' : DynamicMicroOp} {forwarding : Bool}
    (ran : (if forwarding && u.isLoad then forward q u else .ok u) = .ok u') :
    Forwarded forwarding q u u' := by
  by_cases on : (forwarding && u.isLoad) = true
  · rw [if_pos on, forward] at ran
    obtain ⟨dependencies, got, ran⟩ := bind_ok.1 ran
    obtain rfl := mem_of_getDependencies got
    obtain ⟨r, found, ran⟩ := bind_ok.1 ran
    have spec := findStore_spec numbered found
    cases r with
    | none =>
      cases ran
      exact .noStore on spec
    | some xp =>
      obtain ⟨x, p⟩ := xp
      obtain ⟨rfl, first⟩ := spec
      obtain ⟨v, removed, ran⟩ := bind_ok.1 ran
      obtain ⟨operands, gotOperands, added⟩ := bind_ok.1 ran
      obtain rfl := mem_of_getDependencies gotOperands
      obtain ⟨bare₁, perm⟩ := DynamicMicroOp.removeDependency_spec removed
      obtain ⟨bare, -, members⟩ := DynamicMicroOp.foldlM_addDependency_spec added
      exact .store on first (bare.trans bare₁) perm members
  · rw [if_neg on] at ran
    cases ran
    exact .off (Bool.not_eq_true _ ▸ on)

/-! ## A micro-op enters -/

variable {κ : Type} {config : Config κ} {s s' : Timer κ}

theorem lowestValid_eq (numbered : s.rob.Numbered) (low : s.rob.first ≤ s.rob.entries.length)
    (next : s.nextSequenceNumber = s.rob.entries.length) : lowestValid s = s.rob.first := by
  have size : s.rob.size = s.rob.entries.length - s.rob.first := rfl
  rw [lowestValid]
  split_ifs with empty
  · omega
  · exact Rob.frontSequenceNumber_eq numbered (by omega)

/-- The new micro-op with its sequence number. -/
def Timer.own (s : Timer κ) (op : DynamicMicroOp) : DynamicMicroOp :=
  { op with sequenceNumber := s.rob.entries.length }

/-- A micro-op enters: `u` is the micro-op with its producers as dependencies, `v` the same after
forwarding, `q` the queue whose entries know the new one, and `e` is the new entry. -/
structure Entering (config : Config κ) (op : DynamicMicroOp) (s s' : Timer κ)
    (u v : DynamicMicroOp) (q : Rob) (e : RobEntry) : Prop where
  room : s.rob.size ≠ config.windowSize + 255
  timer : s' = { s with
    rob := q.push e
    nextSequenceNumber := s.nextSequenceNumber + 1
    registerDependencies := s'.registerDependencies
    memoryDependencies := s'.memoryDependencies
    entered := s.entered ++ [op] }
  bareOwn : u.bare = (s.own op).bare
  producers : ∀ y, y ∈ u.allDependencies ↔ y ∈ (s.own op).allDependencies ∨
    (∃ source ∈ op.microOp.sourceRegisters,
      s.registerDependencies source = some y ∧ s.rob.first ≤ y) ∨
    (op.isLoad = true ∧ (s.memoryDependencies.clean s.rob.first).find op.address = some y) ∨
    ((op.isLoad || op.isStore || op.microOp.membar) = true ∧
      s.memoryDependencies.membar = some y ∧ s.rob.first < y)
  registers : ∃ kept, RegisterDependencies.Forgets s.rob.first s.registerDependencies kept ∧
    ∀ r, s'.registerDependencies r =
      if r ∈ op.microOp.destinationRegisters then some s.rob.entries.length else kept r
  stores : s'.memoryDependencies.producers =
    (s.memoryDependencies.clean s.rob.first).producers ++
      (if op.isStore then [(s.rob.entries.length, op.address)] else [])
  membar : s'.memoryDependencies.membar =
    MemoryDependencies.membarAfter (s.own op) s.memoryDependencies.membar
  forwarded : Forwarded config.storeToLoadForwarding s.rob u v
  registered : Registered s.rob.entries.length v.allDependencies s.rob q
  bare : e.uop.bare = (s.own op).bare
  dependencies : e.uop.allDependencies.Perm (waitingOf s.rob v.allDependencies)
  inside : ∀ x ∈ v.allDependencies, s.rob.first ≤ x ∧ x < s.rob.entries.length
  readyMax : ∀ t, e.readyMax ≤ t ↔
    ∀ x ∈ v.allDependencies, s.rob.Issued x → (s.rob.slot x).done ≤ t
  ready : e.ready = if e.uop.allDependencies = [] then e.readyMax else ⊤
  addressReadyMax : ∀ t, e.addressReadyMax ≤ t ↔ (op.isStore = true →
    ∀ r ∈ op.microOp.addressRegisters, ∀ p, s.registerDependencies r = some p →
      s.rob.first ≤ p → s.rob.Issued p → (s.rob.slot p).done ≤ t)
  addressProducers : ∀ p, p ∈ e.addressProducers ↔ op.isStore = true ∧
    ∃ r ∈ op.microOp.addressRegisters, s.registerDependencies r = some p ∧
      s.rob.first ≤ p ∧ ¬ s.rob.Issued p
  addressReady : e.addressReady =
    if op.isStore = true ∧ e.addressProducers = [] then e.addressReadyMax else ⊤
  dependants : e.dependants = []
  dispatched : e.dispatched = ⊤
  issued : e.issued = ⊤
  done : e.done = ⊤

/-- The address of a new store, and what is left of the other entries. -/
theorem setAddressProducers_spec (numbered : q.Numbered) {producers : RegisterDependencies} {low n : ℕ}
    {op : DynamicMicroOp} {e : RobEntry}
    (ran : setAddressProducers q producers low (RobEntry.init op n) = .ok e) :
    (∀ t, e.addressReadyMax ≤ t ↔ (op.isStore = true →
      ∀ r ∈ op.microOp.addressRegisters, ∀ p, producers r = some p →
        low ≤ p → q.Issued p → (q.slot p).done ≤ t)) ∧
    (∀ p, p ∈ e.addressProducers ↔ op.isStore = true ∧
      ∃ r ∈ op.microOp.addressRegisters, producers r = some p ∧ low ≤ p ∧ ¬ q.Issued p) ∧
    e.addressReady = (if op.isStore = true ∧ e.addressProducers = [] then e.addressReadyMax else ⊤) ∧
    e = { RobEntry.init op n with
      addressProducers := e.addressProducers
      addressReadyMax := e.addressReadyMax
      addressReady := e.addressReady } := by
  have bottom (t : Time) : (RobEntry.init op n).addressReadyMax ≤ t := bot_le
  rw [setAddressProducers] at ran
  by_cases store : op.isStore = true
  · rw [if_pos (show (RobEntry.init op n).uop.isStore = true from store)] at ran
    obtain ⟨e₁, folded, ran⟩ := bind_ok.1 ran
    obtain ⟨max, members, same⟩ := addAddressRegisters_spec numbered folded
    have none : (RobEntry.init op n).addressProducers = [] := rfl
    have registers : (RobEntry.init op n).uop.microOp.addressRegisters =
      op.microOp.addressRegisters := rfl
    simp only [bottom, true_and, registers, none, List.not_mem_nil, false_or] at max members
    have late : e₁.addressReady = ⊤ := by
      rw [same]
      rfl
    by_cases empty : e₁.addressProducers = []
    · rw [if_pos (by rw [empty]; rfl)] at ran
      cases ran
      refine ⟨fun t => ?_, fun p => ?_, ?_, ?_⟩
      · rw [max]
        simp [store]
      · rw [members]
        simp [store]
      · simp [store, empty]
      · conv_lhs => rw [same]
    · rw [if_neg (by rwa [List.length_eq_zero_iff])] at ran
      cases ran
      refine ⟨fun t => ?_, fun p => ?_, ?_, ?_⟩
      · rw [max]
        simp [store]
      · rw [members]
        simp [store]
      · simp [store, empty, late]
      · conv_lhs => rw [same]
        rw [late]
        rfl
  · rw [if_neg (show ¬ (RobEntry.init op n).uop.isStore = true from store)] at ran
    cases ran
    refine ⟨fun t => ?_, fun p => ?_, ?_, rfl⟩
    · simp [store, bottom]
    · simp [store, RobEntry.init]
    · simp [store, RobEntry.init]

/-- **The first loop of `simulate`.** -/
theorem enter_spec {op : DynamicMicroOp} (numbered : s.rob.Numbered)
    (low : s.rob.first ≤ s.rob.entries.length) (next : s.nextSequenceNumber = s.rob.entries.length)
    (entered : enter config s op = .ok s') : ∃ u v q e, Entering config op s s' u v q e := by
  rw [enter] at entered
  split_ifs at entered with full
  dsimp only at entered
  rw [lowestValid_eq numbered low next, next] at entered
  obtain ⟨e₁, address, entered⟩ := bind_ok.1 entered
  obtain ⟨addressReadyMax, addressProducers, addressReady, same⟩ :=
    setAddressProducers_spec numbered address
  have own : e₁.uop = s.own op := by rw [same]; rfl
  obtain ⟨⟨registers, u₁⟩, setRegisters, entered⟩ := bind_ok.1 entered
  obtain ⟨⟨memory, u₂⟩, setMemory, entered⟩ := bind_ok.1 entered
  have both : ∃ v q e,
      (if config.storeToLoadForwarding && u₂.isLoad then forward s.rob u₂ else .ok u₂) = .ok v ∧
        link s.rob { e₁ with uop := v } = .ok (q, e) ∧
        s' = { s with
          rob := q.push e
          nextSequenceNumber := s.rob.entries.length + 1
          registerDependencies := registers
          memoryDependencies := memory
          entered := s.entered ++ [op] } := by
    dsimp only at entered
    split_ifs at entered with on
    · obtain ⟨v, forwarded, entered⟩ := bind_ok.1 entered
      obtain ⟨⟨q, e⟩, linked, entered⟩ := bind_ok.1 entered
      cases entered
      exact ⟨v, q, e, by rw [if_pos on, forwarded], linked, rfl⟩
    · rw [ok_bind] at entered
      obtain ⟨⟨q, e⟩, linked, entered⟩ := bind_ok.1 entered
      cases entered
      exact ⟨u₂, q, e, if_neg on, linked, rfl⟩
  obtain ⟨v, q, e, forwarded, linked, rfl⟩ := both
  rw [own] at setRegisters
  obtain ⟨bare₁, -, members₁, kept, forgets, known⟩ :=
    RegisterDependencies.setDependencies_spec setRegisters
  obtain ⟨bare₂, -, members₂, stores, membar⟩ := MemoryDependencies.setDependencies_spec setMemory
  have forwarding := forward_spec numbered forwarded
  obtain ⟨registered, bare, dependencies, readyMax, rest, inside⟩ := link_spec numbered linked
  have microOp := DynamicMicroOp.microOp_of_bare bare₁
  have isLoad : u₁.isLoad = op.isLoad :=
    DynamicMicroOp.isLoad_of_bare (u := s.own op) bare₁
  have isStore : u₁.isStore = op.isStore :=
    DynamicMicroOp.isStore_of_bare (u := s.own op) bare₁
  have place : u₁.address = op.address :=
    DynamicMicroOp.address_of_bare (u := s.own op) bare₁
  have number : u₁.sequenceNumber = s.rob.entries.length :=
    DynamicMicroOp.sequenceNumber_of_bare (u := s.own op) bare₁
  refine ⟨u₂, v, q, e, {
    room := full
    timer := by rw [next]
    bareOwn := bare₂.trans bare₁
    producers := fun y => ?_
    registers := ⟨kept, forgets, known⟩
    stores := ?_
    membar := ?_
    forwarded := forwarding
    registered := registered
    bare := bare.trans (forwarding.bare.trans (bare₂.trans bare₁))
    dependencies := dependencies
    inside := inside
    readyMax := fun t => ?_
    ready := ?_
    addressReadyMax := ?_
    addressProducers := ?_
    addressReady := ?_
    dependants := ?_
    dispatched := ?_
    issued := ?_
    done := ?_ }⟩
  · rw [members₂, members₁, microOp, isLoad, isStore, place, or_assoc]
    rfl
  · rw [stores, isStore, number, place]
  · rw [membar, MemoryDependencies.membarAfter, MemoryDependencies.membarAfter, isLoad, isStore,
      microOp, number]
    rfl
  · rw [readyMax]
    have bottom : e₁.readyMax ≤ t := by
      rw [same]
      exact bot_le
    simp only [bottom, true_and]
  · rw [rest]
    dsimp only
    rw [show e₁.ready = ⊤ by rw [same]; rfl]
  · rw [rest]
    exact addressReadyMax
  · rw [rest]
    exact addressProducers
  · rw [rest]
    exact addressReady
  all_goals
    rw [rest, same]
    rfl

/-! ## A micro-op is issued -/

/-- The micro-op without what the memory access changes, and without its dependencies. -/
def DynamicMicroOp.kind (u : DynamicMicroOp) : DynamicMicroOp :=
  { u.bare with execLatency := 0, dCacheHitWhere := .unknown }

theorem DynamicMicroOp.kind_of_bare {u u' : DynamicMicroOp} (same : u'.bare = u.bare) :
    u'.kind = u.kind := by
  rw [kind, kind, same]

theorem DynamicMicroOp.microOp_of_kind {u u' : DynamicMicroOp} (same : u'.kind = u.kind) :
    u'.microOp = u.microOp :=
  show u'.kind.microOp = u.kind.microOp from same ▸ rfl

theorem DynamicMicroOp.sequenceNumber_of_kind {u u' : DynamicMicroOp} (same : u'.kind = u.kind) :
    u'.sequenceNumber = u.sequenceNumber :=
  show u'.kind.sequenceNumber = u.kind.sequenceNumber from same ▸ rfl

theorem DynamicMicroOp.isLoad_of_kind {u u' : DynamicMicroOp} (same : u'.kind = u.kind) :
    u'.isLoad = u.isLoad := by
  rw [isLoad, isLoad, microOp_of_kind same]

theorem DynamicMicroOp.isStore_of_kind {u u' : DynamicMicroOp} (same : u'.kind = u.kind) :
    u'.isStore = u.isStore := by
  rw [isStore, isStore, microOp_of_kind same]

theorem accessMemory_kind (u : DynamicMicroOp) : (accessMemory config u s).1.kind = u.kind := by
  rw [accessMemory]
  split_ifs <;> rfl

theorem accessMemory_allDependencies (u : DynamicMicroOp) :
    (accessMemory config u s).1.allDependencies = u.allDependencies := by
  rw [accessMemory]
  split_ifs <;> rfl

variable (config) in
theorem accessMemory_timer (u : DynamicMicroOp) :
    (accessMemory config u s).2 = { s with accesses := (accessMemory config u s).2.accesses } := by
  rw [accessMemory]
  split_ifs <;> rfl

theorem occupyQueue_timer (u : DynamicMicroOp) : occupyQueue u s =
    { s with
      loadQueue := (occupyQueue u s).loadQueue
      storeQueue := (occupyQueue u s).storeQueue } := by
  rw [occupyQueue]
  split_ifs <;> rfl

/-- The queue when the entry at `p` has been issued and nobody knows it. -/
def Timer.issuedRob (p : ℕ) (u : DynamicMicroOp) (s : Timer κ) : Rob :=
  s.rob.modify p fun e => { e with uop := u, issued := s.now, done := doneTime u s }

/-- The entry at `p` is issued: `u` is its micro-op after the memory access, and `i` the line of the
issue stage. -/
structure Issuing (config : Config κ) (p : ℕ) (s s' : Timer κ) (u : DynamicMicroOp) (i : Issue) :
    Prop where
  access : u = (accessMemory config (s.rob.slot p).uop s).1
  issue : i = issueTimes u s
  first : s'.rob.first = s.rob.first
  length : s'.rob.entries.length = s.rob.entries.length
  woken : ∀ c, Woken (known (s.issuedRob p u)) p i ((s.rob.slot p).dependants.count c)
    ((s.issuedRob p u).slot c) (s'.rob.slot c)
  inside : ∀ c ∈ (s.rob.slot p).dependants, s.rob.first ≤ c ∧ c < s.rob.entries.length
  address : u.isStore = true → (s.rob.slot p).addressReady ≤ (s.rob.slot p).ready
  timer : s' = { s with
    rob := s'.rob
    rsEntriesUsed := s.rsEntriesUsed - 1
    lastStoreDone := if u.isStore then max s.lastStoreDone i.cycleDone else s.lastStoreDone
    contention := s'.contention
    loadQueue := s'.loadQueue
    storeQueue := s'.storeQueue
    accesses := s'.accesses
    issues := s.issues ++ [i]
    frontendStalledUntil :=
      if u.microOp.branch && u.branchMispredicted then (resumeTime config s.now s.period : ℕ)
      else s.frontendStalledUntil }

/-- **Issuing an entry.** -/
theorem issueInstruction_spec (numbered : s.rob.Numbered) {p : ℕ} {nextEvent nextEvent' : Time}
    (low : s.rob.first ≤ p) (high : p < s.rob.entries.length)
    (ran : issueInstruction config p nextEvent s = .ok (s', nextEvent')) :
    ∃ u i, Issuing config p s s' u i ∧ nextEvent' = min nextEvent (doneTime u s : ℕ) := by
  rw [issueInstruction] at ran
  obtain ⟨⟨u, a⟩, access⟩ : ∃ r, accessMemory config (s.rob.slot p).uop s = r := ⟨_, rfl⟩
  obtain ⟨t, same⟩ : ∃ t, occupyQueue u a = t := ⟨_, rfl⟩
  rw [access] at ran
  dsimp only at ran
  rw [same] at ran
  have frame : t = { s with
      accesses := t.accesses, loadQueue := t.loadQueue, storeQueue := t.storeQueue } := by
    have accessed := accessMemory_timer config (s := s) (s.rob.slot p).uop
    have occupied := occupyQueue_timer (s := a) u
    rw [access] at accessed
    rw [same] at occupied
    have kept : t.accesses = a.accesses := by rw [occupied]
    rw [kept]
    calc t
      _ = { a with loadQueue := t.loadQueue, storeQueue := t.storeQueue } := occupied
      _ = _ := by rw [show a = _ from accessed]
  have ready : ¬ (u.isStore = true ∧ ¬ (s.rob.slot p).addressReady ≤ (s.rob.slot p).ready) := by
    intro unready
    rw [if_pos unready] at ran
    cases ran
  rw [if_neg ready] at ran
  obtain ⟨rob, woke, ran⟩ := bind_ok.1 ran
  have access : u = (accessMemory config (s.rob.slot p).uop s).1 := by rw [access]
  have kind : u.kind = (s.rob.slot p).uop.kind := access ▸ accessMemory_kind _
  have start : (t.issue config p u).rob = s.issuedRob p u := by
    rw [frame]
    rfl
  have times : issueTimes u t = issueTimes u s := by
    rw [frame]
    rfl
  have doneSame : doneTime u t = doneTime u s := by
    rw [frame]
    rfl
  have list : ((t.issue config p u).rob.slot p).dependants = (s.rob.slot p).dependants := by
    rw [start, Timer.issuedRob, Rob.slot_modify_self high]
  rw [list, times, start] at woke
  have numbered' : (s.issuedRob p u).Numbered := by
    intro r inside
    rw [Timer.issuedRob, Rob.slot_modify]
    rw [Timer.issuedRob, Rob.length_modify] at inside
    split_ifs with here
    · dsimp only
      rw [DynamicMicroOp.sequenceNumber_of_kind kind, here.1]
      exact numbered p high
    · exact numbered r inside
  have length : (s.issuedRob p u).entries.length = s.rob.entries.length := Rob.length_modify _
  obtain ⟨first, lengthAfter, woken, inside⟩ :=
    wakeAll_spec numbered' (show (s.issuedRob p u).first ≤ p from low) (length.symm ▸ high) woke
  have result : s' = { t.issue config p u with
        rob := rob
        frontendStalledUntil :=
          if u.microOp.branch && u.branchMispredicted then (resumeTime config t.now t.period : ℕ)
          else t.frontendStalledUntil } ∧ nextEvent' = min nextEvent (doneTime u t : ℕ) := by
    by_cases mispredicted : (u.microOp.branch && u.branchMispredicted) = true
    · rw [if_pos mispredicted] at ran
      cases ran
      rw [if_pos mispredicted]
      exact ⟨rfl, rfl⟩
    · rw [if_neg mispredicted] at ran
      cases ran
      rw [if_neg mispredicted]
      exact ⟨rfl, rfl⟩
  obtain ⟨rfl, rfl⟩ := result
  refine ⟨u, issueTimes u s, {
    access := access
    issue := rfl
    first := first
    length := lengthAfter.trans length
    woken := woken
    inside := fun c member => length ▸ inside c member
    address := fun store => not_not.mp fun late => ready ⟨store, late⟩
    timer := ?_ }, by rw [doneSame]⟩
  rw [Timer.issue, times, frame]

end GpuHotSpot.Common.RobTimer
