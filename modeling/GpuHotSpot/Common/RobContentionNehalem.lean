import GpuHotSpot.Lib.Assignment
import GpuHotSpot.Lib.Splits
import Mathlib.Algebra.BigOperators.Group.Finset.Piecewise

/-!
# The issue ports of Nehalem

`common/performance_model/performance_models/rob_performance_model/rob_contention_nehalem.cc`, with the
ports and units of `core_model/dynamic_micro_op_nehalem.h`. A micro-op that is issued takes one of the
ports 0, 1, 5, 2 and 34 that its class allows. Instead of an assignment two counters are kept, which the
classes that may take several ports share with those that take one of these.

* `tryIssue`, `doIssue`: the calls in a cycle.
* `PortsExact`: the micro-ops issued have ports of their own, and others are rejected for a reason.
* `portsExact_iff`: when this is so.
-/

namespace GpuHotSpot.Common.RobContentionNehalem

/-! ## The code -/

/-- `uop_port_t`. -/
inductive UopPort
  | port0 | port1 | port2 | port34 | port5 | port05 | port015
  deriving DecidableEq

/-- `uop_alu_t`. -/
inductive UopAlu
  | none | trig
  deriving DecidableEq

/-- What is asked of a micro-op: its port, its unit, and `getAluLatency`. -/
structure Uop where
  port : UopPort
  alu : UopAlu
  aluLatency : ℕ

/-- The fields; the time has the period of the clock with it. -/
structure RobContention where
  now : ℕ
  period : ℕ
  ports : UopPort → Bool
  portsGeneric : ℕ
  portsGeneric05 : ℕ
  aluUsedUntil : UopAlu → ℕ

namespace RobContention

variable (uop : Uop) (c : RobContention)

/-- `initCycle`. -/
def initCycle (now period : ℕ) : RobContention :=
  { c with
    now := now
    period := period
    ports := fun _ => false
    portsGeneric := 0
    portsGeneric05 := 0 }

def setPort (port : UopPort) : RobContention :=
  { c with ports := Function.update c.ports port true }

/-- The first part of `tryIssue`: the port contention. -/
def tryPort (port : UopPort) : Option RobContention :=
  match port with
  | .port015 =>
    if 3 ≤ c.portsGeneric then none else some { c with portsGeneric := c.portsGeneric + 1 }
  | .port05 =>
    if 2 ≤ c.portsGeneric05 then none else some { c with portsGeneric05 := c.portsGeneric05 + 1 }
  | .port2 => if c.ports .port2 then none else some (c.setPort .port2)
  | .port34 => if c.ports .port34 then none else some (c.setPort .port34)
  | port =>
    if c.ports port then none
    else if 3 ≤ c.portsGeneric then none
    else if port ≠ .port1 ∧ 2 ≤ c.portsGeneric05 then none
    else
      some { c.setPort port with
        portsGeneric := c.portsGeneric + 1
        portsGeneric05 :=
          if port ≠ .port1 then c.portsGeneric05 + 1 else c.portsGeneric05 }

/-- The ALU contention: the unit of the micro-op is still used. -/
def aluBusy : Bool := uop.alu ≠ .none ∧ c.now < c.aluUsedUntil uop.alu

/-- `tryIssue`. -/
def tryIssue : Bool × RobContention :=
  match c.tryPort uop.port with
  | none => (false, c)
  | some c => (!c.aluBusy uop, c)

/-- `doIssue`. -/
def doIssue : RobContention :=
  if uop.alu ≠ .none then
    { c with aluUsedUntil :=
        Function.update c.aluUsedUntil uop.alu (c.now + uop.aluLatency * c.period) }
  else c

/-- A call of `tryIssue`, and of `doIssue` if it succeeds. -/
def call : RobContention :=
  let r := c.tryIssue uop
  if r.1 then r.2.doIssue uop else r.2

end RobContention

/-! ## What ports there are -/

/-- The ports of the core. -/
inductive Port
  | p0 | p1 | p5 | p2 | p34
  deriving DecidableEq

instance : Fintype Port where
  elems := {.p0, .p1, .p5, .p2, .p34}
  complete := fun p => by cases p <;> decide

/-- The ports that a class allows. -/
def UopPort.allows : UopPort → Finset Port
  | .port0 => {.p0}
  | .port1 => {.p1}
  | .port2 => {.p2}
  | .port34 => {.p34}
  | .port5 => {.p5}
  | .port05 => {.p0, .p5}
  | .port015 => {.p0, .p1, .p5}

/-- The micro-ops of these classes can be issued in one cycle. -/
abbrev Fits (issued : List UopPort) : Prop := Assignable UopPort.allows issued

/-- **Exact ports**: the micro-ops issued fit, those before and those of the calls; one that is rejected
does not fit any more, or its unit is used; and it leaves everything as it was. -/
def PortsExact : List Uop → RobContention → List UopPort → Prop
  | [], _, issued => Fits issued
  | uop :: uops, c, issued =>
    if (c.tryIssue uop).1 then PortsExact uops (c.call uop) (issued ++ [uop.port])
    else (¬ Fits (issued ++ [uop.port]) ∨ c.aluBusy uop) ∧ (c.tryIssue uop).2 = c ∧
      PortsExact uops c issued

/-! ## Counting ports -/

section Counting

variable {l : List UopPort}

/-- How many there are of a class, if it is among those counted. -/
def countOf (q : UopPort → Prop) [DecidablePred q] (l : List UopPort) (c : UopPort) : ℕ :=
  if q c then l.count c else 0

theorem countOf_cons (q : UopPort → Prop) [DecidablePred q] (d : UopPort) (l : List UopPort)
    (c : UopPort) : countOf q (d :: l) c = countOf q l c + if d = c then (if q d then 1 else 0) else 0 := by
  rw [countOf, countOf, List.count_cons]
  by_cases counted : q c
  · by_cases same : d = c
    · simp [same, counted]
    · simp [same, counted]
  · by_cases same : d = c
    · simp [same, counted]
    · simp [same, counted]

theorem countP_eq (q : UopPort → Prop) [DecidablePred q] (l : List UopPort) :
    l.countP (fun c => q c) = countOf q l .port0 + countOf q l .port1 + countOf q l .port5 +
      countOf q l .port2 + countOf q l .port34 + countOf q l .port05 + countOf q l .port015 := by
  induction l with
  | nil => simp [countOf]
  | cons c l ih =>
    simp only [List.countP_cons, ih, countOf_cons, decide_eq_true_eq]
    generalize (if q c then 1 else 0) = one
    cases c <;> simp only [reduceCtorEq, if_true, if_false] <;> omega

theorem countP_allows (U : Finset Port) (l : List UopPort) :
    l.countP (fun c => c.allows ⊆ U) =
      (if .p0 ∈ U then l.count .port0 else 0) + (if .p1 ∈ U then l.count .port1 else 0) +
      (if .p5 ∈ U then l.count .port5 else 0) + (if .p2 ∈ U then l.count .port2 else 0) +
      (if .p34 ∈ U then l.count .port34 else 0) +
      (if .p0 ∈ U ∧ .p5 ∈ U then l.count .port05 else 0) +
      (if .p0 ∈ U ∧ .p1 ∈ U ∧ .p5 ∈ U then l.count .port015 else 0) := by
  rw [countP_eq fun c => c.allows ⊆ U]
  simp only [countOf, UopPort.allows, Finset.singleton_subset_iff, Finset.insert_subset_iff]

theorem card_eq (U : Finset Port) : U.card =
    (if .p0 ∈ U then 1 else 0) + (if .p1 ∈ U then 1 else 0) + (if .p5 ∈ U then 1 else 0) +
      (if .p2 ∈ U then 1 else 0) + (if .p34 ∈ U then 1 else 0) := by
  have members : U = Finset.univ.filter (· ∈ U) := by simp
  calc U.card
    _ = Finset.univ.sum fun p : Port => if p ∈ U then 1 else 0 := by
        rw [← Finset.card_filter]
        exact congrArg _ members
    _ = _ := by
        show (if Port.p0 ∈ U then 1 else 0) + ((if Port.p1 ∈ U then 1 else 0) +
          ((if Port.p5 ∈ U then 1 else 0) + ((if Port.p2 ∈ U then 1 else 0) +
            ((if Port.p34 ∈ U then 1 else 0) + 0)))) = _
        omega

/-- **Which micro-ops fit.** -/
theorem fits_iff : Fits l ↔
    l.count .port0 ≤ 1 ∧ l.count .port1 ≤ 1 ∧ l.count .port5 ≤ 1 ∧ l.count .port2 ≤ 1 ∧
      l.count .port34 ≤ 1 ∧ l.count .port0 + l.count .port5 + l.count .port05 ≤ 2 ∧
      l.count .port0 + l.count .port1 + l.count .port5 + l.count .port05 + l.count .port015 ≤ 3 := by
  rw [Fits, assignable_iff]
  constructor
  · intro hall
    have bound (U : Finset Port) := (countP_allows U l).symm.le.trans (hall U)
    refine ⟨?_, ?_, ?_, ?_, ?_, ?_, ?_⟩
    · simpa using bound {.p0}
    · simpa using bound {.p1}
    · simpa using bound {.p5}
    · simpa using bound {.p2}
    · simpa using bound {.p34}
    · simpa using bound {.p0, .p5}
    · simpa using bound {.p0, .p1, .p5}
  · rintro ⟨zero, one, five, two, three, middle, all⟩ U
    have own {p : Port} {n : ℕ} (bound : n ≤ 1) :
        (if p ∈ U then n else 0) ≤ if p ∈ U then 1 else 0 := by
      split_ifs
      · exact bound
      · exact le_rfl
    have second : (if Port.p2 ∈ U then l.count .port2 else 0) ≤ _ := own two
    have third : (if Port.p34 ∈ U then l.count .port34 else 0) ≤ _ := own three
    rw [countP_allows, card_eq]
    by_cases h0 : Port.p0 ∈ U <;> by_cases h1 : Port.p1 ∈ U <;> by_cases h5 : Port.p5 ∈ U <;>
      simp only [h0, h1, h5, and_true, and_false, if_true, if_false] <;> omega

end Counting

/-! ## The counters -/

/-- The tests of the port contention. -/
def PortFree (c : RobContention) : UopPort → Prop
  | .port015 => c.portsGeneric < 3
  | .port05 => c.portsGeneric05 < 2
  | .port2 => c.ports .port2 = false
  | .port34 => c.ports .port34 = false
  | .port1 => c.ports .port1 = false ∧ c.portsGeneric < 3
  | port => c.ports port = false ∧ c.portsGeneric < 3 ∧ c.portsGeneric05 < 2

/-- How many of the ports 0, 1 and 5 are taken: the classes 0 and 5 are in both counters. -/
def RobContention.taken (c : RobContention) : ℕ :=
  c.portsGeneric + c.portsGeneric05 - (c.ports .port0).toNat - (c.ports .port5).toNat

/-- **What a call has to meet**: if the tests pass then the unit is free, and one of the ports 0, 1 and 5
is, if it is one of these that the micro-op takes. -/
def Within (c : RobContention) (uop : Uop) : Prop :=
  PortFree c uop.port →
    c.aluBusy uop = false ∧ (uop.port = .port2 ∨ uop.port = .port34 ∨ c.taken < 3)

/-- What the counters and the flags say of the micro-ops issued. -/
structure Books (c : RobContention) (issued : List UopPort) : Prop where
  generic : c.portsGeneric =
    issued.count .port0 + issued.count .port1 + issued.count .port5 + issued.count .port015
  generic05 : c.portsGeneric05 =
    issued.count .port0 + issued.count .port5 + issued.count .port05
  ports : ∀ port, port ≠ .port05 → port ≠ .port015 → c.ports port = decide (0 < issued.count port)

theorem count_concat (l : List UopPort) (p q : UopPort) :
    (l ++ [q]).count p = l.count p + if q = p then 1 else 0 := by
  rw [List.count_append, List.count_singleton]
  simp

section Calls

variable {c c' : RobContention} {issued : List UopPort} {port : UopPort}

theorem Books.taken (books : Books c issued) (fits : Fits issued) : c.taken =
    issued.count .port0 + issued.count .port1 + issued.count .port5 + issued.count .port05 +
      issued.count .port015 := by
  obtain ⟨zero, -, five, -⟩ := fits_iff.1 fits
  have first : (c.ports .port0).toNat = issued.count .port0 := by
    rw [books.ports .port0 (by decide) (by decide)]
    by_cases some : 0 < issued.count .port0
    · rw [decide_eq_true some, Bool.toNat_true]
      omega
    · rw [decide_eq_false some, Bool.toNat_false]
      omega
  have second : (c.ports .port5).toNat = issued.count .port5 := by
    rw [books.ports .port5 (by decide) (by decide)]
    by_cases some : 0 < issued.count .port5
    · rw [decide_eq_true some, Bool.toNat_true]
      omega
    · rw [decide_eq_false some, Bool.toNat_false]
      omega
  have generic := books.generic
  have generic05 := books.generic05
  rw [RobContention.taken, first, second]
  omega

theorem Books.unused (books : Books c issued) (port : UopPort) (single : port ≠ .port05)
    (single' : port ≠ .port015) : c.ports port = false ↔ issued.count port = 0 := by
  rw [books.ports port single single', decide_eq_false_iff_not, Nat.pos_iff_ne_zero, not_not]

/-- What the tests say of the micro-ops issued. -/
theorem Books.portFree_iff (books : Books c issued) : PortFree c port ↔ match port with
    | .port015 => issued.count .port0 + issued.count .port1 + issued.count .port5 +
        issued.count .port015 < 3
    | .port05 => issued.count .port0 + issued.count .port5 + issued.count .port05 < 2
    | .port2 => issued.count .port2 = 0
    | .port34 => issued.count .port34 = 0
    | .port1 => issued.count .port1 = 0 ∧ issued.count .port0 + issued.count .port1 +
        issued.count .port5 + issued.count .port015 < 3
    | port => issued.count port = 0 ∧ issued.count .port0 + issued.count .port1 +
        issued.count .port5 + issued.count .port015 < 3 ∧
        issued.count .port0 + issued.count .port5 + issued.count .port05 < 2 := by
  cases port <;> simp only [PortFree, books.generic, books.generic05] <;>
    rw [books.unused _ (by decide) (by decide)]

/-- Micro-ops that do not pass the tests do not fit. -/
theorem Books.not_fits (books : Books c issued) (taken : ¬ PortFree c port) :
    ¬ Fits (issued ++ [port]) := by
  rw [books.portFree_iff] at taken
  rw [fits_iff]
  simp only [count_concat]
  cases port <;> simp only [reduceCtorEq, if_true, if_false] at taken ⊢ <;> omega

/-- **Of those that pass them** the ones fit for which a port is left. -/
theorem Books.fits_concat (books : Books c issued) (fits : Fits issued) (free : PortFree c port) :
    Fits (issued ++ [port]) ↔ port = .port2 ∨ port = .port34 ∨ c.taken < 3 := by
  rw [books.taken fits]
  rw [books.portFree_iff] at free
  rw [fits_iff] at fits ⊢
  simp only [count_concat]
  cases port <;> simp only [reduceCtorEq, if_true, if_false, true_or, or_true, false_or, iff_true]
    at free ⊢ <;> omega

/-- A port is taken, of those that the class allows. -/
def RobContention.take (c : RobContention) (port : UopPort) : RobContention :=
  { c with
    ports :=
      if port = .port05 ∨ port = .port015 then c.ports else Function.update c.ports port true
    portsGeneric :=
      if port = .port2 ∨ port = .port34 ∨ port = .port05 then c.portsGeneric
      else c.portsGeneric + 1
    portsGeneric05 :=
      if port = .port0 ∨ port = .port5 ∨ port = .port05 then c.portsGeneric05 + 1
      else c.portsGeneric05 }

theorem tryPort_of_free (free : PortFree c port) : c.tryPort port = some (c.take port) := by
  cases port <;> simp only [PortFree] at free <;>
    simp [RobContention.tryPort, RobContention.take, RobContention.setPort, free]

theorem tryPort_of_not_free (taken : ¬ PortFree c port) : c.tryPort port = none := by
  cases port <;> simp only [PortFree] at taken <;> simp [RobContention.tryPort] <;>
    grind

theorem Books.take (books : Books c issued) : Books (c.take port) (issued ++ [port]) where
  generic := by
    have generic := books.generic
    simp only [count_concat, RobContention.take]
    cases port <;> simp only [reduceCtorEq, if_true, if_false, or_true, true_or, or_self] <;> omega
  generic05 := by
    have generic05 := books.generic05
    simp only [count_concat, RobContention.take]
    cases port <;> simp only [reduceCtorEq, if_true, if_false, or_true, true_or, or_self] <;> omega
  ports := fun p single single' => by
    rw [count_concat, RobContention.take]
    dsimp only
    by_cases same : port = p
    · subst same
      rw [if_neg (by simp [single, single']), Function.update_self, if_pos rfl]
      simp
    · rw [if_neg same, Nat.add_zero, ← books.ports p single single']
      split_ifs
      · rfl
      · rw [Function.update_of_ne (Ne.symm same)]

theorem take_ne (free : PortFree c port) : c.take port ≠ c := by
  intro same
  have ports := congrArg (fun c => c.ports port) same
  have generic := congrArg RobContention.portsGeneric same
  have generic05 := congrArg RobContention.portsGeneric05 same
  simp only [RobContention.take] at ports generic generic05
  cases port <;> simp_all [PortFree]

theorem Books.doIssue (books : Books c issued) (uop : Uop) : Books (c.doIssue uop) issued := by
  rw [RobContention.doIssue]
  split_ifs
  · exact ⟨books.generic, books.generic05, books.ports⟩
  · exact books

theorem books_initCycle (c : RobContention) (now period : ℕ) : Books (c.initCycle now period) [] :=
  ⟨rfl, rfl, fun _ _ _ => rfl⟩

end Calls

/-! ## A cycle -/

section Cycle

variable {c : RobContention} {issued : List UopPort} {uop : Uop} {uops : List Uop}

theorem PortsExact.fits (exact : PortsExact uops c issued) : Fits issued := by
  induction uops generalizing c issued with
  | nil => exact exact
  | cons uop uops ih =>
    rw [PortsExact] at exact
    split_ifs at exact
    · exact (ih exact).of_sublist (List.sublist_append_left _ _)
    · exact ih exact.2.2

/-- A call for which the tests pass takes a port; so its unit has to be free. -/
theorem portsExact_of_free (free : PortFree c uop.port) : PortsExact (uop :: uops) c issued ↔
    c.aluBusy uop = false ∧ PortsExact uops (c.call uop) (issued ++ [uop.port]) := by
  have call : c.tryIssue uop = (!c.aluBusy uop, c.take uop.port) := by
    rw [RobContention.tryIssue, tryPort_of_free free]
    rfl
  rw [PortsExact, call]
  cases busy : c.aluBusy uop with
  | true =>
    refine iff_of_false (fun exact => ?_) fun exact => by cases exact.1
    exact take_ne free exact.2.1
  | false => exact ⟨fun exact => ⟨rfl, exact⟩, fun exact => exact.2⟩

theorem call_of_not_free (taken : ¬ PortFree c uop.port) : c.call uop = c := by
  rw [RobContention.call, RobContention.tryIssue, tryPort_of_not_free taken]
  rfl

theorem portsExact_of_not_free (books : Books c issued) (taken : ¬ PortFree c uop.port) :
    PortsExact (uop :: uops) c issued ↔ PortsExact uops (c.call uop) issued := by
  rw [call_of_not_free taken, PortsExact, RobContention.tryIssue, tryPort_of_not_free taken]
  exact ⟨fun exact => exact.2.2, fun exact => ⟨.inl (books.not_fits taken), rfl, exact⟩⟩

theorem Books.call (books : Books c issued) (free : PortFree c uop.port) :
    Books (c.call uop) (issued ++ [uop.port]) := by
  rw [RobContention.call, RobContention.tryIssue, tryPort_of_free free]
  dsimp only
  split_ifs
  · exact books.take.doIssue uop
  · exact books.take

theorem portsExact_iff_within (books : Books c issued) (fits : Fits issued) :
    PortsExact uops c issued ↔ ∀ before uop after, uops = before ++ uop :: after →
      Within (before.foldl (fun c uop => c.call uop) c) uop := by
  induction uops generalizing c issued with
  | nil =>
    refine iff_of_true fits fun before uop after same => absurd same (by simp)
  | cons uop uops ih =>
    rw [forall_split_cons]
    by_cases free : PortFree c uop.port
    · rw [portsExact_of_free free]
      constructor
      · intro exact
        have room := (books.fits_concat fits free).1 exact.2.fits
        exact ⟨fun _ => ⟨exact.1, room⟩, (ih (books.call free) exact.2.fits).1 exact.2⟩
      · intro within
        have now := within.1 free
        have fits' := (books.fits_concat fits free).2 now.2
        exact ⟨now.1, (ih (books.call free) fits').2 within.2⟩
    · have same : Books (c.call uop) issued := by
        rw [call_of_not_free free]
        exact books
      rw [portsExact_of_not_free books free, ih same fits]
      exact ⟨fun rest => ⟨fun free' => absurd free' free, rest⟩, fun within => within.2⟩

/-- **Issue ports**: in every cycle and for every sequence of calls, the ports are exact if and only if
each call for which the tests pass finds its unit free, and one of the ports 0, 1 and 5 if it needs
one. -/
theorem portsExact_iff (c : RobContention) (now period : ℕ) (uops : List Uop) :
    PortsExact uops (c.initCycle now period) [] ↔
      ∀ before uop after, uops = before ++ uop :: after →
        Within (before.foldl (fun c uop => c.call uop) (c.initCycle now period)) uop :=
  portsExact_iff_within (books_initCycle c now period) (fits_iff.2 (by simp))

end Cycle

/-! ## Too many micro-ops, and too few -/

/-- A core whose unit is used until a time. -/
def usedUntil (time : ℕ) : RobContention :=
  ⟨0, 1, fun _ => false, 0, 0, fun _ => time⟩

/-- Four micro-ops are issued to the ports 0, 1 and 5; and a division that has to wait keeps the next
micro-op from port 0. -/
theorem not_portsExact :
    ¬ PortsExact [⟨.port015, .none, 1⟩, ⟨.port015, .none, 1⟩, ⟨.port015, .none, 1⟩,
        ⟨.port05, .none, 1⟩] ((usedUntil 0).initCycle 1 1) [] ∧
      ¬ PortsExact [⟨.port0, .trig, 9⟩, ⟨.port0, .none, 1⟩] ((usedUntil 9).initCycle 1 1) [] := by
  constructor
  · intro exact
    have fits : Fits [.port015, .port015, .port015, .port05] := exact
    exact absurd (fits_iff.1 fits) (by decide)
  · intro exact
    refine absurd ((portsExact_of_free ?_).1 exact).1 (by decide)
    exact ⟨rfl, by decide, by decide⟩

end GpuHotSpot.Common.RobContentionNehalem
