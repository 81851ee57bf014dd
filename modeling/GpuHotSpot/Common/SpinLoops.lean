import GpuHotSpot.Lib.Machine
import Mathlib.Data.List.Find
import Mathlib.Data.List.Nodup
import Mathlib.Data.Nat.ModEq
import Mathlib.Logic.Function.Basic

/-!
# The spin loop detector

`common/misc/spin_loop_detector.cc`: a backward transfer of control to the same target, with every
register as it was the last time, counts as a spin.

* `History`: a detector beside the values of the registers, now and at the last transfer to each
  target.
* `Marked`: the update buffer marks the registers that have changed, for each target of the table.
* `marked_iff`: exactly when that stays so; `spins_iff`: then the spins are counted exactly.

The buffer has one old value for each register, from before its first change; the targets of the
table have last been come to at different times, and may have seen other values.
-/

namespace GpuHotSpot.Common.SpinLoops

open Fallible

/-! ## The detector -/

/-- `SdtEntry`. -/
structure SdtEntry where
  eip : ℕ
  id : ℕ
  icount : ℕ
  tcount : ℕ
  deriving DecidableEq, Repr

/-- An entry of the register update buffer. -/
structure RubEntry where
  reg : ℕ
  value : ℕ
  mask : BitVec 16
  deriving DecidableEq, Repr

/-- `SDT_MAX_SIZE`. -/
def sdtMaxSize : ℕ := 16

structure SpinLoopDetector where
  rub : List RubEntry
  sdt : List SdtEntry
  sdtBitmask : BitVec 16
  sdtNextid : ℕ
  deriving DecidableEq, Repr

/-- `1 << id`. -/
def bit (id : ℕ) : BitVec 16 := BitVec.twoPow 16 id

/-- An entry at the back; if there are more than `SDT_MAX_SIZE`, the front leaves. -/
def push {A : Type} (new : A) (l : List A) : List A :=
  if sdtMaxSize < (l ++ [new]).length then (l ++ [new]).tail else l ++ [new]

/-- The counts of an entry become those of now. -/
def recount (eip icount tcount : ℕ) : List SdtEntry → List SdtEntry
  | [] => []
  | e :: es =>
    if e.eip = eip then { e with icount := icount, tcount := tcount } :: es
    else e :: recount eip icount tcount es

namespace SpinLoopDetector

def create : SpinLoopDetector := ⟨[], [], 0, 0⟩

/-- The mask of the ids of a table. -/
def bitmask (sdt : List SdtEntry) : BitVec 16 := sdt.foldl (fun mask e => mask ||| bit e.id) 0

/-- `commitBCT`, at an instruction count and a time. If the thread spins, it gives the arguments of
`updateSpinCount`. -/
def commitBCT (eip icount tcount : ℕ) (s : SpinLoopDetector) :
    Option (ℕ × ℕ) × SpinLoopDetector :=
  match s.sdt.find? (·.eip = eip) with
  | none =>
    (none, { s with
      sdt := push ⟨eip, s.sdtNextid, icount, tcount⟩ s.sdt
      sdtNextid := (s.sdtNextid + 1) % sdtMaxSize
      sdtBitmask := bitmask (push ⟨eip, s.sdtNextid, icount, tcount⟩ s.sdt) })
  | some entry =>
    let spinning := s.rub.all fun r => r.mask &&& bit entry.id = 0
    (if spinning then some (icount - entry.icount, tcount - entry.tcount) else none, { s with
      rub := s.rub.map fun r => { r with mask := r.mask &&& ~~~ bit entry.id }
      sdt := recount eip icount tcount s.sdt })

/-- `commitNonSilentStore`. -/
def commitNonSilentStore (s : SpinLoopDetector) : SpinLoopDetector :=
  { s with sdt := [], rub := [] }

/-- `commitRegisterWrite`. -/
def commitRegisterWrite (reg oldValue value : ℕ) (s : SpinLoopDetector) : SpinLoopDetector :=
  match s.rub.find? (·.reg = reg) with
  | none =>
    if value ≠ oldValue then { s with rub := s.rub ++ [⟨reg, oldValue, s.sdtBitmask⟩] } else s
  | some r =>
    if value = r.value then { s with rub := s.rub.filter (·.reg ≠ reg) }
    else if value ≠ oldValue then { s with
      rub := s.rub.map fun r =>
        if r.reg = reg then { r with mask := r.mask ||| s.sdtBitmask } else r }
    else s

end SpinLoopDetector

/-! ## What should happen -/

/-- What a thread commits. -/
inductive Commit
  | bct (eip icount tcount : ℕ)
  | nonSilentStore
  | registerWrite (reg value : ℕ)
  deriving DecidableEq, Repr

/-- A detector, and what has happened: the values of the registers, now and at the last transfer to
each target, and the targets that entered the table since the last store that was not silent. -/
structure History where
  detector : SpinLoopDetector
  registers : ℕ → ℕ
  previous : ℕ → ℕ → ℕ
  entered : List ℕ

namespace History

/-- The targets that 16 newer ones have not pushed out. -/
def table (h : History) : List ℕ := h.entered.drop (h.entered.length - sdtMaxSize)

def start (registers : ℕ → ℕ) : History := ⟨.create, registers, fun _ => registers, []⟩

def step : Commit → History → Except Empty History
  | .bct eip icount tcount, h => .ok {
      detector := (h.detector.commitBCT eip icount tcount).2
      registers := h.registers
      previous := Function.update h.previous eip h.registers
      entered := if eip ∈ h.table then h.entered else h.entered ++ [eip] }
  | .nonSilentStore, h => .ok { h with
      detector := h.detector.commitNonSilentStore
      entered := [] }
  | .registerWrite reg value, h => .ok { h with
      detector := h.detector.commitRegisterWrite reg (h.registers reg) value
      registers := Function.update h.registers reg value }

/-- A transfer to the target counts as a spin. -/
def Spins (h : History) (eip : ℕ) : Prop :=
  eip ∈ h.table ∧ ∀ reg, h.registers reg = h.previous eip reg

/-- The registers that are marked for an id. -/
def Marks (h : History) (id reg : ℕ) : Prop :=
  ∃ r ∈ h.detector.rub, r.reg = reg ∧ r.mask.getLsbD id = true

/-- The buffer marks the registers that have changed since the last transfer to each target. -/
def Marked (h : History) : Prop :=
  ∀ entry ∈ h.detector.sdt, ∀ reg,
    h.Marks entry.id reg ↔ h.registers reg ≠ h.previous entry.eip reg

/-- A new target gets an id that no register is marked for; and where the buffer has an old value of
a register, a write of that value, or another change, is to the value that each target of the table
last saw, or not, as it is to the old one. -/
def Tells (h : History) : Commit → Prop
  | .bct eip _ _ => eip ∉ h.table → ∀ reg, ¬ h.Marks h.detector.sdtNextid reg
  | .nonSilentStore => True
  | .registerWrite reg value => ∀ r ∈ h.detector.rub, r.reg = reg →
      value = r.value ∨ value ≠ h.registers reg →
      ∀ eip ∈ h.table, value = h.previous eip reg ↔ value = r.value

/-! ## The table -/

/-- What holds of the table and the buffer after any calls. The ids of the table follow each
other. -/
structure Formed (h : History) : Prop where
  eips : h.detector.sdt.map (·.eip) = h.table
  once : h.table.Nodup
  ids : ∃ first,
    h.detector.sdt.map (·.id) = (List.range' first h.detector.sdt.length).map (· % 16) ∧
      h.detector.sdtNextid = (first + h.detector.sdt.length) % 16
  regs : (h.detector.rub.map (·.reg)).Nodup
  valid : ∀ entry ∈ h.detector.sdt, h.detector.sdtBitmask.getLsbD entry.id = true

variable {h t : History} {eip icount tcount reg value : ℕ}

theorem length_table (h : History) : h.table.length ≤ 16 := by
  rw [table, List.length_drop, sdtMaxSize]
  omega

/-- A newer target pushes the oldest out. -/
theorem table_push (h : History) (eip : ℕ) :
    (h.entered ++ [eip]).drop ((h.entered ++ [eip]).length - sdtMaxSize) = push eip h.table := by
  have size : h.table.length = h.entered.length - (h.entered.length - 16) := List.length_drop
  rw [push, List.length_append, List.length_append, List.length_singleton, sdtMaxSize, size]
  by_cases full : 16 ≤ h.entered.length
  · have nonempty : h.table ≠ [] := by
      intro none
      rw [none, List.length_nil] at size
      omega
    rw [if_pos (by omega), List.tail_append_of_ne_nil nonempty, table, sdtMaxSize, List.tail_drop,
      List.drop_append_of_le_length (by omega),
      show h.entered.length + 1 - 16 = h.entered.length - 16 + 1 by omega]
  · rw [if_neg (by omega), table, sdtMaxSize, show h.entered.length + 1 - 16 = 0 by omega,
      show h.entered.length - 16 = 0 by omega, List.drop_zero, List.drop_zero]

end History

@[simp] theorem map_eip_recount (sdt : List SdtEntry) :
    (recount eip icount tcount sdt).map (·.eip) = sdt.map (·.eip) := by
  induction sdt with
  | nil => rfl
  | cons e es ih =>
    rw [recount]
    split_ifs
    · rfl
    · rw [List.map_cons, List.map_cons, ih]

@[simp] theorem map_id_recount (sdt : List SdtEntry) :
    (recount eip icount tcount sdt).map (·.id) = sdt.map (·.id) := by
  induction sdt with
  | nil => rfl
  | cons e es ih =>
    rw [recount]
    split_ifs
    · rfl
    · rw [List.map_cons, List.map_cons, ih]

/-- An entry keeps its target and its id. -/
theorem mem_recount {sdt : List SdtEntry} {entry : SdtEntry}
    (member : entry ∈ recount eip icount tcount sdt) :
    ∃ e ∈ sdt, e.eip = entry.eip ∧ e.id = entry.id := by
  induction sdt with
  | nil => exact absurd member List.not_mem_nil
  | cons e es ih =>
    rw [recount] at member
    split_ifs at member
    · rcases List.mem_cons.1 member with rfl | later
      · exact ⟨e, List.mem_cons_self, rfl, rfl⟩
      · exact ⟨entry, List.mem_cons_of_mem _ later, rfl, rfl⟩
    · rcases List.mem_cons.1 member with rfl | later
      · exact ⟨entry, List.mem_cons_self, rfl, rfl⟩
      · obtain ⟨e', old, same⟩ := ih later
        exact ⟨e', List.mem_cons_of_mem _ old, same⟩

/-! ### A new entry -/

section Push

variable {A B : Type} {new entry : A} {l : List A}

theorem map_push (f : A → B) : (push new l).map f = push (f new) (l.map f) := by
  rw [push, push, List.length_append, List.length_append, List.length_map, List.length_singleton,
    List.length_singleton]
  split_ifs
  · rw [List.map_tail, List.map_append, List.map_singleton]
  · rw [List.map_append, List.map_singleton]

theorem mem_push (member : entry ∈ push new l) : entry ∈ l ∨ entry = new := by
  rw [← List.mem_singleton, ← List.mem_append]
  rw [push] at member
  split_ifs at member
  · exact List.mem_of_mem_tail member
  · exact member

theorem new_mem_push (new : A) (l : List A) : new ∈ push new l := by
  have last : new ∈ l ++ [new] := List.mem_append_right _ (List.mem_singleton_self new)
  rw [push]
  split_ifs with full
  · have nonempty : l ≠ [] := by
      intro none
      simp [none, sdtMaxSize] at full
    rw [List.tail_append_of_ne_nil nonempty]
    exact List.mem_append_right _ (List.mem_singleton_self new)
  · exact last

theorem nodup_push (once : l.Nodup) (absent : new ∉ l) : (push new l).Nodup := by
  have all : (l ++ [new]).Nodup := by
    refine List.nodup_append.2 ⟨once, List.nodup_singleton new, fun a member b last same => ?_⟩
    rw [List.mem_singleton.1 last] at same
    exact absent (same ▸ member)
  rw [push]
  split_ifs
  · exact all.tail
  · exact all

/-- The ids go on, modulo 16. -/
theorem push_ids (first n : ℕ) : ∃ first',
    push ((first + n) % 16) ((List.range' first n).map (· % 16)) =
      (List.range' first' (push ((first + n) % 16) ((List.range' first n).map (· % 16))).length).map
        (· % 16) ∧ ((first + n) % 16 + 1) % 16 = (first' +
      (push ((first + n) % 16) ((List.range' first n).map (· % 16))).length) % 16 := by
  have pushed : (List.range' first n).map (· % 16) ++ [(first + n) % 16] =
      (List.range' first (n + 1)).map (· % 16) := by
    rw [List.range'_concat, List.map_append, List.map_singleton, Nat.one_mul]
  rw [push, pushed, List.length_map, List.length_range']
  split_ifs with full
  · refine ⟨first + 1, ?_, ?_⟩
    · rw [List.length_tail, List.length_map, List.length_range', List.range'_succ, List.map_cons,
        List.tail_cons, Nat.add_sub_cancel]
    · rw [List.length_tail, List.length_map, List.length_range']
      omega
  · refine ⟨first, ?_, ?_⟩
    · rw [List.length_map, List.length_range']
    · rw [List.length_map, List.length_range']
      omega

end Push

theorem bit_getLsbD {id j : ℕ} (small : id < 16) : (bit id).getLsbD j = decide (id = j) := by
  rw [bit, BitVec.getLsbD_twoPow, decide_eq_true small, Bool.true_and]

theorem and_bit_eq_zero {id : ℕ} (small : id < 16) (mask : BitVec 16) :
    mask &&& bit id = 0 ↔ mask.getLsbD id = false := by
  rw [bit, BitVec.and_twoPow]
  cases marked : mask.getLsbD id with
  | false => simp
  | true =>
    rw [if_pos rfl]
    refine ⟨fun zero => ?_, fun impossible => nomatch impossible⟩
    have same : (bit id).getLsbD id = (0 : BitVec 16).getLsbD id := congrArg (·.getLsbD id) zero
    rw [bit_getLsbD small] at same
    simp at same

/-- The mask of a table has the bit of each entry. -/
theorem getLsbD_bitmask {sdt : List SdtEntry} (small : ∀ entry ∈ sdt, entry.id < 16) (j : ℕ) :
    (SpinLoopDetector.bitmask sdt).getLsbD j = true ↔ ∃ entry ∈ sdt, entry.id = j := by
  have from_any : ∀ mask : BitVec 16,
      (sdt.foldl (fun mask e => mask ||| bit e.id) mask).getLsbD j = true ↔
        mask.getLsbD j = true ∨ ∃ entry ∈ sdt, entry.id = j := by
    induction sdt with
    | nil => simp
    | cons e es ih =>
      intro mask
      rw [List.foldl_cons, ih fun entry member => small entry (List.mem_cons_of_mem _ member),
        BitVec.getLsbD_or, bit_getLsbD (small e List.mem_cons_self)]
      simp [or_assoc]
  rw [SpinLoopDetector.bitmask, from_any]
  simp

namespace History

variable {h t : History} {eip icount tcount reg value : ℕ}

section Table

variable (formed : h.Formed)
include formed

theorem Formed.length : h.detector.sdt.length = h.table.length := by
  rw [← formed.eips, List.length_map]

theorem Formed.id_lt {entry : SdtEntry} (member : entry ∈ h.detector.sdt) : entry.id < 16 := by
  obtain ⟨first, ids, -⟩ := formed.ids
  have listed := List.mem_map_of_mem (f := (·.id)) member
  rw [ids] at listed
  obtain ⟨i, -, same⟩ := List.mem_map.1 listed
  rw [← same]
  exact Nat.mod_lt _ (by decide)

/-- Two entries have two ids. -/
theorem Formed.nodup_id : (h.detector.sdt.map (·.id)).Nodup := by
  obtain ⟨first, ids, -⟩ := formed.ids
  have short := h.length_table
  rw [← formed.length] at short
  rw [ids]
  refine List.Nodup.map_on (fun i left j right same => ?_) List.nodup_range'
  rw [List.mem_range'_1] at left right
  omega

theorem Formed.mem_table (eip : ℕ) : eip ∈ h.table ↔ ∃ entry ∈ h.detector.sdt, entry.eip = eip := by
  rw [← formed.eips, List.mem_map]

end Table

theorem formed_start (registers : ℕ → ℕ) : (start registers).Formed where
  eips := rfl
  once := List.nodup_nil
  ids := ⟨0, rfl, rfl⟩
  regs := List.nodup_nil
  valid := fun _ member => absurd member List.not_mem_nil

/-! ### What each call does -/

/-- A target that is not in the table. -/
theorem commitBCT_new (formed : h.Formed) (absent : eip ∉ h.table) :
    h.detector.commitBCT eip icount tcount =
      (none, { h.detector with
        sdt := push ⟨eip, h.detector.sdtNextid, icount, tcount⟩ h.detector.sdt
        sdtNextid := (h.detector.sdtNextid + 1) % sdtMaxSize
        sdtBitmask := SpinLoopDetector.bitmask
          (push ⟨eip, h.detector.sdtNextid, icount, tcount⟩ h.detector.sdt) }) := by
  have missing : h.detector.sdt.find? (·.eip = eip) = none := by
    refine List.find?_eq_none.2 fun entry member same => absent ?_
    exact (formed.mem_table eip).2 ⟨entry, member, of_decide_eq_true same⟩
  rw [SpinLoopDetector.commitBCT, missing]

/-- A target of the table, with its entry. -/
theorem commitBCT_known (formed : h.Formed) (present : eip ∈ h.table) (icount tcount : ℕ) :
    ∃ entry ∈ h.detector.sdt, entry.eip = eip ∧ h.detector.commitBCT eip icount tcount =
      (if h.detector.rub.all (fun r => r.mask &&& bit entry.id = 0)
        then some (icount - entry.icount, tcount - entry.tcount) else none,
      { h.detector with
        rub := h.detector.rub.map fun r => { r with mask := r.mask &&& ~~~ bit entry.id }
        sdt := recount eip icount tcount h.detector.sdt }) := by
  obtain ⟨other, member, same⟩ := (formed.mem_table eip).1 present
  cases found : h.detector.sdt.find? (·.eip = eip) with
  | none => exact absurd (decide_eq_true same) (List.find?_eq_none.1 found other member)
  | some entry =>
    have found_eip := List.find?_some found
    refine ⟨entry, List.mem_of_find?_eq_some found, of_decide_eq_true found_eip, ?_⟩
    rw [SpinLoopDetector.commitBCT, found]

theorem formed_bct (formed : h.Formed) (eip icount tcount : ℕ) :
    Ensures Formed (fun _ => False) (step (.bct eip icount tcount) h) := by
  obtain ⟨first, ids, next⟩ := formed.ids
  by_cases present : eip ∈ h.table
  · obtain ⟨entry, -, -, known⟩ := commitBCT_known formed present icount tcount
    have same : (recount eip icount tcount h.detector.sdt).length = h.detector.sdt.length := by
      rw [← List.length_map (·.eip), map_eip_recount, List.length_map]
    rw [step, known, if_pos present]
    refine ⟨(map_eip_recount _).trans formed.eips, formed.once, ⟨first, ?_, ?_⟩, ?_,
      fun entry member => ?_⟩
    · rw [map_id_recount, same]
      exact ids
    · rw [same]
      exact next
    · rw [List.map_map]
      exact formed.regs
    · obtain ⟨old, before, -, id⟩ := mem_recount member
      rw [← id]
      exact formed.valid old before
  · have pushed : (push ⟨eip, h.detector.sdtNextid, icount, tcount⟩ h.detector.sdt).map (·.id) =
        push ((first + h.detector.sdt.length) % 16)
          ((List.range' first h.detector.sdt.length).map (· % 16)) := by
      rw [map_push, ids, next]
    have table : (h.entered ++ [eip]).drop ((h.entered ++ [eip]).length - sdtMaxSize) =
        push eip h.table := table_push h eip
    obtain ⟨first', ids', next'⟩ := push_ids first h.detector.sdt.length
    rw [← pushed, List.length_map] at ids' next'
    rw [← next] at next'
    rw [step, commitBCT_new formed present, if_neg present]
    refine ⟨?_, ?_, ⟨first', ids', next'⟩, formed.regs, fun entry member => ?_⟩
    · exact (map_push _).trans (formed.eips ▸ table.symm)
    · exact (congrArg List.Nodup table).mpr (nodup_push formed.once present)
    · refine (getLsbD_bitmask (fun other among => ?_) entry.id).2 ⟨entry, member, rfl⟩
      rcases mem_push among with old | rfl
      · exact formed.id_lt old
      · rw [next]
        exact Nat.mod_lt _ (by decide)

theorem formed_registerWrite (formed : h.Formed) (reg value : ℕ) :
    Ensures Formed (fun _ => False) (step (.registerWrite reg value) h) := by
  obtain ⟨eips, once, ids, regs, valid⟩ := formed
  rw [step, SpinLoopDetector.commitRegisterWrite]
  cases found : h.detector.rub.find? (·.reg = reg) with
  | none =>
    dsimp only
    split_ifs
    · refine ⟨eips, once, ids, ?_, valid⟩
      rw [List.map_append]
      refine List.nodup_append.2 ⟨regs, List.nodup_singleton _, fun a member b last => ?_⟩
      obtain ⟨r, listed, rfl⟩ := List.mem_map.1 member
      rintro rfl
      exact List.find?_eq_none.1 found r listed (decide_eq_true (List.mem_singleton.1 last))
    · exact ⟨eips, once, ids, regs, valid⟩
  | some r =>
    dsimp only
    split_ifs
    · exact ⟨eips, once, ids, regs.sublist (List.filter_sublist.map _), valid⟩
    · refine ⟨eips, once, ids, ?_, valid⟩
      have same : (fun r : RubEntry => r.reg) ∘ (fun r : RubEntry => if r.reg = reg then
          { r with mask := r.mask ||| h.detector.sdtBitmask } else r) = fun r => r.reg := by
        funext r
        rw [Function.comp_apply]
        split_ifs <;> rfl
      rw [List.map_map, same]
      exact regs
    · exact ⟨eips, once, ids, regs, valid⟩

/-- **The table is the last 16 targets, whatever is committed.** -/
theorem formed_step (c : Commit) (formed : h.Formed) :
    Ensures Formed (fun _ => False) (step c h) := by
  cases c with
  | bct eip icount tcount => exact formed_bct formed eip icount tcount
  | nonSilentStore =>
    exact ⟨rfl, List.nodup_nil, ⟨h.detector.sdtNextid, rfl, by
      obtain ⟨first, -, next⟩ := formed.ids
      show h.detector.sdtNextid = (h.detector.sdtNextid + 0) % 16
      omega⟩, List.nodup_nil, fun entry member => absurd member List.not_mem_nil⟩
  | registerWrite reg value => exact formed_registerWrite formed reg value

/-- No call fails. -/
theorem step_ok (c : Commit) (formed : h.Formed) : ∃ t, step c h = .ok t ∧ t.Formed := by
  have kept := formed_step c formed
  cases ran : step c h with
  | error e => exact e.elim
  | ok t =>
    rw [ran] at kept
    exact ⟨t, rfl, kept⟩

/-! ## What is counted -/

/-- **While the buffer marks what has changed, the spins are counted.** -/
theorem counts_iff (formed : h.Formed) (marked : h.Marked) (eip icount tcount : ℕ) :
    (h.detector.commitBCT eip icount tcount).1.isSome ↔ h.Spins eip := by
  by_cases present : eip ∈ h.table
  · obtain ⟨entry, member, same, known⟩ := commitBCT_known formed present icount tcount
    have clear : h.detector.rub.all (fun r => r.mask &&& bit entry.id = 0) = true ↔
        ∀ reg, ¬ h.Marks entry.id reg := by
      rw [List.all_eq_true]
      refine ⟨fun all reg => ?_, fun none r listed => ?_⟩
      · rintro ⟨r, listed, -, isMarked⟩
        have unmarked := (and_bit_eq_zero (formed.id_lt member) r.mask).1
          (of_decide_eq_true (all r listed))
        rw [unmarked] at isMarked
        exact absurd isMarked Bool.false_ne_true
      · refine decide_eq_true ((and_bit_eq_zero (formed.id_lt member) r.mask).2 ?_)
        exact Bool.eq_false_iff.2 fun isMarked => none r.reg ⟨r, listed, rfl, isMarked⟩
    have counted : (h.detector.commitBCT eip icount tcount).1.isSome ↔
        h.detector.rub.all (fun r => r.mask &&& bit entry.id = 0) = true := by
      rw [known]
      split_ifs with all
      · exact ⟨fun _ => all, fun _ => rfl⟩
      · exact ⟨fun impossible => absurd impossible Bool.false_ne_true,
          fun holds => absurd holds all⟩
    rw [counted, clear, Spins, and_iff_right present]
    refine forall_congr' fun reg => ?_
    rw [marked entry member reg, same, not_not]
  · rw [commitBCT_new formed present]
    exact ⟨fun impossible => absurd impossible Bool.false_ne_true,
      fun spins => absurd spins.1 present⟩

/-! ## What is marked -/

/-- The other targets of the table keep their marks. -/
theorem marked_bct (formed : h.Formed) (marked : h.Marked)
    (moved : step (.bct eip icount tcount) h = .ok t) :
    t.Marked ↔ h.Tells (.bct eip icount tcount) := by
  by_cases present : eip ∈ h.table
  · obtain ⟨entry, member, same, known⟩ := commitBCT_known formed present icount tcount
    rw [step, known] at moved
    cases moved
    refine ⟨fun _ absent => absurd present absent, fun _ other kept reg => ?_⟩
    obtain ⟨old, before, eip_old, id_old⟩ := mem_recount kept
    rw [← id_old, ← eip_old]
    by_cases this : old.eip = eip
    · have same_entry : old = entry :=
        List.inj_on_of_nodup_map (formed.eips ▸ formed.once) before member (this.trans same.symm)
      refine iff_of_false ?_ ?_
      · rintro ⟨r, listed, -, isMarked⟩
        obtain ⟨r', -, rfl⟩ := List.mem_map.1 listed
        rw [same_entry, BitVec.getLsbD_and, BitVec.getLsbD_not, bit_getLsbD (formed.id_lt member)]
          at isMarked
        simp at isMarked
      · rw [this]
        show ¬ h.registers reg ≠ Function.update h.previous eip h.registers eip reg
        rw [Function.update_self, not_not]
    · have other_id : entry.id ≠ old.id := fun equal => this <| by
        rw [← List.inj_on_of_nodup_map formed.nodup_id member before equal, same]
      have small := formed.id_lt before
      show _ ↔ h.registers reg ≠ Function.update h.previous eip h.registers old.eip reg
      rw [Function.update_of_ne this, ← marked old before reg]
      refine ⟨?_, ?_⟩
      · rintro ⟨r, listed, rfl, isMarked⟩
        obtain ⟨r', listed', rfl⟩ := List.mem_map.1 listed
        rw [BitVec.getLsbD_and] at isMarked
        exact ⟨r', listed', rfl, (Bool.and_eq_true_iff.1 isMarked).1⟩
      · rintro ⟨r, listed, rfl, isMarked⟩
        refine ⟨_, List.mem_map_of_mem listed, rfl, ?_⟩
        rw [BitVec.getLsbD_and, BitVec.getLsbD_not, bit_getLsbD (formed.id_lt member), isMarked,
          decide_eq_true small, decide_eq_false other_id]
        rfl
  · rw [step, commitBCT_new formed present] at moved
    cases moved
    refine ⟨fun after _ reg isMarked => ?_, fun tells entry among reg => ?_⟩
    · have now := (after _ (new_mem_push _ _) reg).1 isMarked
      refine now ?_
      show h.registers reg = Function.update h.previous eip h.registers eip reg
      rw [Function.update_self]
    · show h.Marks entry.id reg ↔
        h.registers reg ≠ Function.update h.previous eip h.registers entry.eip reg
      rcases mem_push among with old | rfl
      · have other : entry.eip ≠ eip := fun same =>
          present ((formed.mem_table eip).2 ⟨entry, old, same⟩)
        rw [Function.update_of_ne other]
        exact marked entry old reg
      · rw [Function.update_self]
        exact iff_of_false (tells present reg) fun differs => differs rfl

@[simp] theorem sdt_commitRegisterWrite (s : SpinLoopDetector) (reg oldValue value : ℕ) :
    (s.commitRegisterWrite reg oldValue value).sdt = s.sdt := by
  rw [SpinLoopDetector.commitRegisterWrite]
  cases s.rub.find? (·.reg = reg) with
  | none =>
    dsimp only
    split_ifs <;> rfl
  | some r =>
    dsimp only
    split_ifs <;> rfl

/-- A write to a register that changes the marks of that register only. -/
theorem marked_iff_written (marked : h.Marked) (moved : step (.registerWrite reg value) h = .ok t)
    (others : ∀ id other, other ≠ reg → (t.Marks id other ↔ h.Marks id other)) :
    t.Marked ↔ ∀ entry ∈ h.detector.sdt,
      (t.Marks entry.id reg ↔ value ≠ h.previous entry.eip reg) := by
  have sdt : t.detector.sdt = h.detector.sdt := by
    cases moved
    exact sdt_commitRegisterWrite _ _ _ _
  have previous : t.previous = h.previous := by
    cases moved
    rfl
  have registers : t.registers = Function.update h.registers reg value := by
    cases moved
    rfl
  rw [Marked, sdt, previous, registers]
  refine forall₂_congr fun entry member => ⟨fun all => ?_, fun written other => ?_⟩
  · have now := all reg
    rwa [Function.update_self] at now
  · by_cases this : other = reg
    · rw [this, Function.update_self]
      exact written
    · rw [Function.update_of_ne this, others entry.id other this]
      exact marked entry member other

/-- The first change of a register: its old value is that of the last transfer to each target. -/
theorem marked_first (formed : h.Formed) (marked : h.Marked)
    (absent : h.detector.rub.find? (·.reg = reg) = none)
    (moved : step (.registerWrite reg value) h = .ok t) : t.Marked := by
  have unmarked : ∀ id, ¬ h.Marks id reg := by
    rintro id ⟨r, listed, same, -⟩
    exact List.find?_eq_none.1 absent r listed (decide_eq_true same)
  have unchanged : ∀ entry ∈ h.detector.sdt, h.registers reg = h.previous entry.eip reg :=
    fun entry member => not_not.1 ((marked entry member reg).not.1 (unmarked entry.id))
  have rub : t.detector.rub = if value ≠ h.registers reg then
      h.detector.rub ++ [⟨reg, h.registers reg, h.detector.sdtBitmask⟩] else h.detector.rub := by
    cases moved
    rw [SpinLoopDetector.commitRegisterWrite, absent]
    dsimp only
    split_ifs <;> rfl
  by_cases changed : value ≠ h.registers reg
  · rw [if_pos changed] at rub
    have marks : ∀ id other, t.Marks id other ↔
        h.Marks id other ∨ reg = other ∧ h.detector.sdtBitmask.getLsbD id = true := by
      intro id other
      simp [Marks, rub, or_and_right, exists_or]
    refine (marked_iff_written marked moved fun id other this => ?_).2 fun entry member => ?_
    · rw [marks, or_iff_left fun both => this both.1.symm]
    · rw [marks]
      refine iff_of_true (.inr ⟨rfl, formed.valid entry member⟩) ?_
      rw [← unchanged entry member]
      exact changed
  · rw [if_neg changed] at rub
    have marks : ∀ id other, t.Marks id other ↔ h.Marks id other := by
      intro id other
      rw [Marks, rub, Marks]
    refine (marked_iff_written marked moved fun id other _ => marks id other).2
      fun entry member => ?_
    rw [marks]
    refine iff_of_false (unmarked entry.id) fun differs => differs ?_
    rw [not_not.1 changed]
    exact unchanged entry member

/-- A register that has its old value in the buffer. -/
theorem marked_again (formed : h.Formed) (marked : h.Marked) {r : RubEntry}
    (present : h.detector.rub.find? (·.reg = reg) = some r)
    (moved : step (.registerWrite reg value) h = .ok t) :
    t.Marked ↔ h.Tells (.registerWrite reg value) := by
  have listed : r ∈ h.detector.rub := List.mem_of_find?_eq_some present
  have same : r.reg = reg := by
    have found := List.find?_some present
    exact of_decide_eq_true found
  have only : ∀ r' ∈ h.detector.rub, r'.reg = reg → r' = r := fun r' member equal =>
    List.inj_on_of_nodup_map formed.regs member listed (equal.trans same.symm)
  have tells : h.Tells (.registerWrite reg value) ↔ (value = r.value ∨ value ≠ h.registers reg →
      ∀ entry ∈ h.detector.sdt, value = h.previous entry.eip reg ↔ value = r.value) := by
    have entries : (∀ eip ∈ h.table, value = h.previous eip reg ↔ value = r.value) ↔
        ∀ entry ∈ h.detector.sdt, value = h.previous entry.eip reg ↔ value = r.value := by
      rw [← formed.eips, List.forall_mem_map]
    rw [← entries]
    refine ⟨fun all => all r listed same, fun this r' member equal => ?_⟩
    rw [only r' member equal]
    exact this
  have rub : t.detector.rub = if value = r.value then h.detector.rub.filter (·.reg ≠ reg)
      else if value ≠ h.registers reg then h.detector.rub.map fun r =>
        if r.reg = reg then { r with mask := r.mask ||| h.detector.sdtBitmask } else r
      else h.detector.rub := by
    cases moved
    rw [SpinLoopDetector.commitRegisterWrite, present]
    dsimp only
    split_ifs <;> rfl
  rw [tells]
  by_cases back : value = r.value
  · rw [if_pos back] at rub
    have marks : ∀ id other, t.Marks id other ↔ other ≠ reg ∧ h.Marks id other := by
      intro id other
      rw [Marks, rub, Marks]
      refine ⟨?_, ?_⟩
      · rintro ⟨r', kept, rfl, isMarked⟩
        obtain ⟨member, differs⟩ := List.mem_filter.1 kept
        exact ⟨of_decide_eq_true differs, r', member, rfl, isMarked⟩
      · rintro ⟨differs, r', member, rfl, isMarked⟩
        exact ⟨r', List.mem_filter.2 ⟨member, decide_eq_true differs⟩, rfl, isMarked⟩
    rw [marked_iff_written marked moved fun id other this =>
      (marks id other).trans (and_iff_right this), forall_prop_of_true (.inl back)]
    refine forall₂_congr fun entry member => ?_
    rw [marks, iff_true_intro back]
    simp
  · rw [if_neg back] at rub
    by_cases changed : value ≠ h.registers reg
    · rw [if_pos changed] at rub
      have marks : ∀ id other, t.Marks id other ↔
          h.Marks id other ∨ other = reg ∧ h.detector.sdtBitmask.getLsbD id = true := by
        intro id other
        rw [Marks, rub, Marks]
        refine ⟨?_, ?_⟩
        · rintro ⟨r', kept, rfl, isMarked⟩
          obtain ⟨old, member, rfl⟩ := List.mem_map.1 kept
          by_cases this : old.reg = reg
          · rw [if_pos this, BitVec.getLsbD_or, Bool.or_eq_true] at isMarked
            rw [if_pos this]
            exact isMarked.imp (fun before => ⟨old, member, rfl, before⟩) fun now => ⟨this, now⟩
          · rw [if_neg this] at isMarked ⊢
            exact .inl ⟨old, member, rfl, isMarked⟩
        · rintro (⟨old, member, rfl, isMarked⟩ | ⟨rfl, isMarked⟩)
          · refine ⟨_, List.mem_map_of_mem member, ?_, ?_⟩
            · split_ifs <;> rfl
            · split_ifs
              · rw [BitVec.getLsbD_or, isMarked, Bool.true_or]
              · exact isMarked
          · refine ⟨_, List.mem_map_of_mem listed, ?_, ?_⟩
            · rw [if_pos same]
              exact same
            · rw [if_pos same, BitVec.getLsbD_or, isMarked, Bool.or_true]
      rw [marked_iff_written marked moved fun id other this =>
        (marks id other).trans (or_iff_left fun both => this both.1),
        forall_prop_of_true (.inr changed)]
      refine forall₂_congr fun entry member => ?_
      rw [marks, iff_false_intro back, iff_true_intro (formed.valid entry member)]
      simp
    · rw [if_neg changed] at rub
      have marks : ∀ id other, t.Marks id other ↔ h.Marks id other := by
        intro id other
        rw [Marks, rub, Marks]
      refine iff_of_true ?_ fun either => absurd either (not_or.2 ⟨back, changed⟩)
      refine (marked_iff_written marked moved fun id other _ => marks id other).2
        fun entry member => ?_
      rw [marks, not_not.1 changed]
      exact marked entry member reg

/-- **The buffer marks what has changed, after a call, exactly if it can tell.** -/
theorem marked_step (c : Commit) (formed : h.Formed) (marked : h.Marked)
    (moved : step c h = .ok t) : t.Marked ↔ h.Tells c := by
  cases c with
  | bct eip icount tcount => exact marked_bct formed marked moved
  | nonSilentStore =>
    cases moved
    exact iff_of_true (fun entry member => absurd member List.not_mem_nil) trivial
  | registerWrite reg value =>
    cases found : h.detector.rub.find? (·.reg = reg) with
    | none =>
      refine iff_of_true (marked_first formed marked found moved) fun r listed same => ?_
      exact absurd (decide_eq_true same) (List.find?_eq_none.1 found r listed)
    | some r => exact marked_again formed marked found moved

theorem marked_start (registers : ℕ → ℕ) : (start registers).Marked :=
  fun _ member => absurd member List.not_mem_nil

variable {registers : ℕ → ℕ} {commits : List Commit}

/-- **The buffer marks what has changed, in all of a run, exactly if it can tell at each call.** -/
theorem marked_iff (registers : ℕ → ℕ) (commits : List Commit) :
    (∀ pre, pre <+: commits → ∀ h, runEvents step pre (start registers) = .ok h → h.Marked) ↔
      Along Tells step commits (start registers) :=
  along_iff_prefixes (fun c _ formed => step_ok c formed)
    (fun c _ _ formed marked moved => marked_step c formed marked moved)
    (formed_start registers) (marked_start registers)

/-- **Spins are counted exactly, in every run in which the buffer can tell.** -/
theorem spins_iff (registers : ℕ → ℕ) (commits : List Commit)
    (tells : Along Tells step commits (start registers)) :
    ∀ pre, pre <+: commits → ∀ h, runEvents step pre (start registers) = .ok h →
      ∀ eip icount tcount, (h.detector.commitBCT eip icount tcount).1.isSome ↔ h.Spins eip := by
  intro pre before h reached eip icount tcount
  have formed : h.Formed :=
    (ensures_runEvents (fun c s formed => formed_step c formed) (formed_start registers)).of_ok
      reached
  have marked : h.Marked :=
    (along_iff_prefixes (fun c _ formed => step_ok c formed)
      (fun c _ _ formed marked moved => marked_step c formed marked moved)
      (formed_start registers) (marked_start registers)).2 tells pre before h reached
  exact counts_iff formed marked eip icount tcount

/-- A loop that changes a register and changes it back. -/
def flips : List Commit := [.bct 1 0 0, .registerWrite 0 1, .registerWrite 0 0, .bct 1 3 3]

/-- The old value in the buffer is the one that the target last saw. -/
theorem spins_iff_flips : ∃ h, runEvents step (flips.take 3) (start fun _ => 0) = .ok h ∧
    ((h.detector.commitBCT 1 3 3).1.isSome ↔ h.Spins 1) := by
  have tells : Along Tells step flips (start fun _ => 0) := by
    refine ⟨fun _ reg none => ?_, fun t moved => ?_⟩
    · exact none.elim fun r listed => absurd listed.1 List.not_mem_nil
    cases moved
    refine ⟨fun r listed => absurd listed List.not_mem_nil, fun t moved => ?_⟩
    cases moved
    refine ⟨fun r listed same _ eip among => ?_, fun t moved => ?_⟩
    · obtain rfl := List.mem_singleton.1 listed
      obtain rfl := List.mem_singleton.1 among
      exact Iff.rfl
    cases moved
    exact ⟨fun absent => absurd (List.mem_singleton_self 1) absent, fun _ _ => trivial⟩
  exact ⟨_, rfl, spins_iff _ _ tells (flips.take 3) (List.take_prefix 3 flips) _ rfl 1 3 3⟩

/-- Two transfers to a target, and a register that is not what it was at the second but has come
back to what it was at the first. -/
theorem not_spins_back : ¬ ∀ (registers : ℕ → ℕ) (commits : List Commit) (h : History),
    runEvents step commits (start registers) = .ok h → ∀ eip icount tcount,
      (h.detector.commitBCT eip icount tcount).1.isSome ↔ h.Spins eip := by
  intro all
  have spins := (all (fun _ => 0)
    [.bct 1 0 0, .registerWrite 0 1, .bct 1 2 2, .registerWrite 0 0] _ rfl 1 4 4).1 (by decide)
  exact absurd (spins.2 0) (by decide)

end History

end GpuHotSpot.Common.SpinLoops
