import GpuHotSpot.Common.MicroOp
import Mathlib.Data.List.Perm.Basic

/-!
# Lists of dependencies

What the operations on the dependencies of a micro-op do, up to the order of the array.

* `addDependency_spec`: a dependency is added, unless it is in the array.
* `removeDependency_spec`: one occurrence is removed.
* `removeDependency_ok`: when the assertions of the removal hold.
* `RegisterDependencies.setDependencies_spec`, `MemoryDependencies.setDependencies_spec`: the producers
  become dependencies.
-/

namespace GpuHotSpot.Common.RobTimer

open Fallible

namespace DynamicMicroOp

/-- The micro-op without its dependencies. -/
def bare (u : DynamicMicroOp) : DynamicMicroOp :=
  { u with intraInstructionDependencies := 0, dependencies := [] }

variable {u u' v : DynamicMicroOp} {x y : ℕ}

theorem microOp_of_bare (same : u'.bare = u.bare) : u'.microOp = u.microOp :=
  show u'.bare.microOp = u.bare.microOp from same ▸ rfl

theorem sequenceNumber_of_bare (same : u'.bare = u.bare) : u'.sequenceNumber = u.sequenceNumber :=
  show u'.bare.sequenceNumber = u.bare.sequenceNumber from same ▸ rfl

theorem offset_of_bare (same : u'.bare = u.bare) : u'.microOpTypeOffset = u.microOpTypeOffset :=
  show u'.bare.microOpTypeOffset = u.bare.microOpTypeOffset from same ▸ rfl

theorem address_of_bare (same : u'.bare = u.bare) : u'.address = u.address :=
  show u'.bare.address = u.bare.address from same ▸ rfl

theorem execLatency_of_bare (same : u'.bare = u.bare) : u'.execLatency = u.execLatency :=
  show u'.bare.execLatency = u.bare.execLatency from same ▸ rfl

theorem isLoad_of_bare (same : u'.bare = u.bare) : u'.isLoad = u.isLoad := by
  rw [isLoad, isLoad, microOp_of_bare same]

theorem isStore_of_bare (same : u'.bare = u.bare) : u'.isStore = u.isStore := by
  rw [isStore, isStore, microOp_of_bare same]

theorem getDependenciesLength_eq (u : DynamicMicroOp) :
    u.getDependenciesLength = u.allDependencies.length := by
  simp [getDependenciesLength, allDependencies]

theorem getDependenciesLength_eq_zero : u.getDependenciesLength = 0 ↔ u.allDependencies = [] := by
  rw [getDependenciesLength_eq, List.length_eq_zero_iff]

/-- The dependencies within the instruction. -/
theorem mem_intra_iff (u : DynamicMicroOp) :
    y ∈ (List.range u.intraInstructionDependencies).map (u.firstIntra + ·) ↔
      u.firstIntra ≤ y ∧ y < u.firstIntra + u.intraInstructionDependencies := by
  simp only [List.mem_map, List.mem_range]
  constructor
  · rintro ⟨i, inRange, rfl⟩
    omega
  · rintro ⟨low, high⟩
    exact ⟨y - u.firstIntra, by omega, by omega⟩

/-! ## Adding -/

/-- **Adding a dependency.** -/
theorem addDependency_spec (added : u.addDependency x = .ok u') :
    u' = { u with dependencies := u'.dependencies } ∧
      ∀ y, y ∈ u'.allDependencies ↔ y ∈ u.allDependencies ∨ y = x := by
  rw [addDependency] at added
  split_ifs at added with already
  · cases added
    refine ⟨rfl, fun y => ⟨.inl, ?_⟩⟩
    rintro (there | rfl)
    · exact there
    · exact List.mem_append_right _ already
  · cases added
    refine ⟨rfl, fun y => ?_⟩
    simp only [allDependencies, firstIntra, List.mem_append, List.mem_singleton, or_assoc]

theorem addDependency_bare (added : u.addDependency x = .ok u') : u'.bare = u.bare := by
  rw [(addDependency_spec added).1]
  rfl

theorem addDependency_intra (added : u.addDependency x = .ok u') :
    u'.intraInstructionDependencies = u.intraInstructionDependencies := by
  rw [(addDependency_spec added).1]

/-- Several dependencies are added. -/
theorem foldlM_addDependency_spec {xs : List ℕ}
    (added : xs.foldlM (fun u x => u.addDependency x) u = .ok u') :
    u'.bare = u.bare ∧ u'.intraInstructionDependencies = u.intraInstructionDependencies ∧
      ∀ y, y ∈ u'.allDependencies ↔ y ∈ u.allDependencies ∨ y ∈ xs := by
  induction xs generalizing u with
  | nil =>
    cases added
    simp
  | cons x xs ih =>
    rw [List.foldlM_cons, bind_ok] at added
    obtain ⟨v, first, rest⟩ := added
    obtain ⟨bare, intra, members⟩ := ih rest
    refine ⟨bare.trans (addDependency_bare first), intra.trans (addDependency_intra first),
      fun y => ?_⟩
    rw [members, (addDependency_spec first).2, List.mem_cons, or_assoc]

/-! ## Removing -/

theorem removeIntra_spec {first n m : ℕ} {dependencies rest : List ℕ}
    (removed : removeIntra x first n dependencies = .ok (m, rest)) :
    ((List.range n).map (first + ·) ++ dependencies).Perm
        (x :: ((List.range m).map (first + (n - m) + ·) ++ rest)) ∧ m < n := by
  induction n generalizing first dependencies with
  | zero => cases removed
  | succ n ih =>
    have split : (List.range (n + 1)).map (first + ·) =
        first :: (List.range n).map (first + 1 + ·) := by
      rw [List.range_succ_eq_map, List.map_cons, List.map_map, Nat.add_zero]
      exact congrArg _ (List.map_congr_left fun i _ => by simp only [Function.comp]; omega)
    rw [removeIntra] at removed
    split_ifs at removed with found room
    · cases removed
      rw [split, found, Nat.add_sub_cancel_left]
      exact ⟨List.Perm.refl _, Nat.lt_succ_self _⟩
    · obtain ⟨perm, less⟩ := ih removed
      have shift : first + 1 + (n - m) = first + (n + 1 - m) := by omega
      rw [shift] at perm
      refine ⟨?_, less.trans (Nat.lt_succ_self n)⟩
      rw [split, List.cons_append]
      refine List.Perm.trans ?_ perm
      rw [← List.append_assoc]
      exact (List.perm_append_singleton first _).symm

/-- Moving the last element into a gap. -/
theorem set_dropLast_perm {l : List ℕ} {last : ℕ} (isLast : l.getLast? = some last) (other : last ≠ x)
    (member : x ∈ l) : l.Perm (x :: (l.set (l.idxOf x) last).dropLast) := by
  obtain ⟨init, rfl⟩ := List.getLast?_eq_some_iff.mp isLast
  have inInit : x ∈ init := by
    rcases List.mem_append.mp member with inside | atEnd
    · exact inside
    · exact absurd (List.mem_singleton.mp atEnd).symm other
  have index : init.idxOf x < init.length := List.idxOf_lt_length_of_mem inInit
  rw [List.idxOf_append_of_mem inInit, List.set_append_left _ _ index, List.dropLast_concat]
  have gap : init.Perm (x :: init.eraseIdx (init.idxOf x)) := by
    have perm := (List.getElem_cons_eraseIdx_perm index).symm
    rwa [List.getElem_idxOf index] at perm
  calc init ++ [last]
    _ |>.Perm (last :: init) := List.perm_append_comm
    _ |>.Perm (last :: x :: init.eraseIdx (init.idxOf x)) := gap.cons last
    _ |>.Perm (x :: last :: init.eraseIdx (init.idxOf x)) := List.Perm.swap ..
    _ |>.Perm (x :: init.set (init.idxOf x) last) :=
        ((List.set_perm_cons_eraseIdx index last).symm).cons x

theorem removeRegular_spec {dependencies rest : List ℕ}
    (removed : removeRegular x dependencies = .ok rest) : dependencies.Perm (x :: rest) := by
  rw [removeRegular] at removed
  split at removed
  · cases removed
  · rename_i last isLast
    split_ifs at removed with same member
    · cases removed
      obtain ⟨init, rfl⟩ := List.getLast?_eq_some_iff.mp isLast
      rw [List.dropLast_concat, same]
      exact List.perm_append_singleton x init
    · cases removed
      exact set_dropLast_perm isLast same member

/-- **Removing a dependency**: one occurrence goes. -/
theorem removeDependency_spec (removed : u.removeDependency x = .ok u') :
    u'.bare = u.bare ∧ u.allDependencies.Perm (x :: u'.allDependencies) := by
  rw [removeDependency] at removed
  split_ifs at removed with intra
  · obtain ⟨⟨n, rest⟩, moved, eq⟩ := bind_ok.1 removed
    cases eq
    obtain ⟨perm, less⟩ := removeIntra_spec moved
    have within := intra.1
    rw [WithinInstruction] at within
    refine ⟨rfl, ?_⟩
    have shift : u.firstIntra + (u.intraInstructionDependencies - n) =
        u.sequenceNumber - u.microOpTypeOffset - n := by
      rw [firstIntra]
      omega
    rw [shift] at perm
    exact perm
  · obtain ⟨rest, regular, eq⟩ := bind_ok.1 removed
    cases eq
    refine ⟨rfl, ?_⟩
    exact ((removeRegular_spec regular).append_left _).trans List.perm_middle

theorem removeRegular_ok {dependencies : List ℕ} (member : x ∈ dependencies) :
    ∃ rest, removeRegular x dependencies = .ok rest := by
  rw [removeRegular]
  split
  · rename_i empty
    rw [List.getLast?_eq_none_iff] at empty
    exact absurd member (by simp [empty])
  · split_ifs
    · exact ⟨_, rfl⟩
    · exact ⟨_, rfl⟩

theorem removeDependency_intra (removed : u.removeDependency x = .ok u') :
    u'.intraInstructionDependencies ≤ u.intraInstructionDependencies := by
  rw [removeDependency] at removed
  split_ifs at removed
  · obtain ⟨⟨n, rest⟩, moved, eq⟩ := bind_ok.1 removed
    cases eq
    exact (removeIntra_spec moved).2.le
  · obtain ⟨rest, -, eq⟩ := bind_ok.1 removed
    cases eq
    exact le_rfl

theorem removeDependency_length (removed : u.removeDependency x = .ok u') :
    u.getDependenciesLength = u'.getDependenciesLength + 1 := by
  rw [getDependenciesLength_eq, getDependenciesLength_eq, (removeDependency_spec removed).2.length_eq,
    List.length_cons]

theorem WithinInstruction.removeDependency (within : u.WithinInstruction)
    (removed : u.removeDependency x = .ok u') : u'.WithinInstruction := by
  have intra := removeDependency_intra removed
  have bare := (removeDependency_spec removed).1
  rw [WithinInstruction] at within ⊢
  rw [offset_of_bare bare, sequenceNumber_of_bare bare]
  omega

end DynamicMicroOp

/-! ## Producers -/

variable {u u' : DynamicMicroOp} {low : ℕ}

namespace RegisterDependencies

variable {producers producers' : RegisterDependencies}

/-- Producers below `low` may have been forgotten. -/
def Forgets (low : ℕ) (producers producers' : RegisterDependencies) : Prop :=
  ∀ r y, (producers' r = some y → producers r = some y) ∧
    (producers r = some y → low ≤ y → producers' r = some y)

theorem Forgets.refl (producers : RegisterDependencies) : Forgets low producers producers :=
  fun _ _ => ⟨id, fun known _ => known⟩

theorem addSources_spec {sources : List ℕ} (forgets : Forgets low producers producers')
    {r : RegisterDependencies × DynamicMicroOp}
    (added : sources.foldlM (addSource low) (producers', u) = .ok r) :
    Forgets low producers r.1 ∧ r.2.bare = u.bare ∧
      r.2.intraInstructionDependencies = u.intraInstructionDependencies ∧
      ∀ y, y ∈ r.2.allDependencies ↔
        y ∈ u.allDependencies ∨ ∃ source ∈ sources, producers source = some y ∧ low ≤ y := by
  induction sources generalizing producers' u with
  | nil =>
    cases added
    exact ⟨forgets, rfl, rfl, by simp⟩
  | cons source sources ih =>
    rw [List.foldlM_cons, bind_ok] at added
    obtain ⟨⟨producers₁, u₁⟩, first, rest⟩ := added
    have one : Forgets low producers producers₁ ∧ u₁.bare = u.bare ∧
        u₁.intraInstructionDependencies = u.intraInstructionDependencies ∧
        ∀ y, y ∈ u₁.allDependencies ↔
          y ∈ u.allDependencies ∨ producers source = some y ∧ low ≤ y := by
      rw [addSource] at first
      split at first
      · rename_i unknown
        change producers' source = none at unknown
        cases first
        refine ⟨forgets, rfl, rfl, fun y => ⟨.inl, ?_⟩⟩
        rintro (there | ⟨known, valid⟩)
        · exact there
        · exact absurd ((forgets source y).2 known valid) (by simp [unknown])
      · rename_i producer known
        change producers' source = some producer at known
        have original := (forgets source producer).1 known
        split_ifs at first with valid
        · obtain ⟨v, addedOne, eq⟩ := bind_ok.1 first
          cases eq
          refine ⟨forgets, DynamicMicroOp.addDependency_bare addedOne,
            DynamicMicroOp.addDependency_intra addedOne, fun y => ?_⟩
          rw [(DynamicMicroOp.addDependency_spec addedOne).2, original, Option.some.injEq]
          constructor
          · rintro (there | rfl)
            · exact .inl there
            · exact .inr ⟨rfl, valid⟩
          · rintro (there | ⟨rfl, -⟩)
            · exact .inl there
            · exact .inr rfl
        · cases first
          refine ⟨fun r y => ⟨fun kept => ?_, fun knownBefore validY => ?_⟩, rfl, rfl,
            fun y => ⟨.inl, ?_⟩⟩
          · by_cases same : r = source
            · simp [same] at kept
            · exact (forgets r y).1 (by rwa [Function.update_of_ne same] at kept)
          · have here := (forgets r y).2 knownBefore validY
            by_cases same : r = source
            · subst same
              rw [known, Option.some.injEq] at here
              exact absurd (here ▸ validY) valid
            · rwa [Function.update_of_ne same]
          · rintro (there | ⟨same, validY⟩)
            · exact there
            · rw [original, Option.some.injEq] at same
              exact absurd (same ▸ validY) valid
    obtain ⟨forgets₁, bare₁, intra₁, members₁⟩ := one
    obtain ⟨forgets', bare, intra, members⟩ := ih forgets₁ rest
    refine ⟨forgets', bare.trans bare₁, intra.trans intra₁, fun y => ?_⟩
    rw [members, members₁]
    simp only [List.mem_cons, exists_eq_or_imp, or_assoc]

theorem updateDestinations {number r : ℕ} (destinations : List ℕ) :
    (destinations.foldl (fun producers destination =>
        Function.update producers destination (some number)) producers) r =
      if r ∈ destinations then some number else producers r := by
  induction destinations generalizing producers with
  | nil => simp
  | cons destination destinations ih =>
    rw [List.foldl_cons, ih]
    by_cases later : r ∈ destinations
    · simp [later]
    · by_cases same : r = destination
      · simp [same]
      · simp [later, same]

/-- **Registers**: the producers of the sources become dependencies, and the micro-op is the producer
of its destinations. -/
theorem setDependencies_spec (set : setDependencies low producers u = .ok (producers', u')) :
    u'.bare = u.bare ∧ u'.intraInstructionDependencies = u.intraInstructionDependencies ∧
      (∀ y, y ∈ u'.allDependencies ↔ y ∈ u.allDependencies ∨
        ∃ source ∈ u.microOp.sourceRegisters, producers source = some y ∧ low ≤ y) ∧
      ∃ kept, Forgets low producers kept ∧ ∀ r, producers' r =
        if r ∈ u.microOp.destinationRegisters then some u.sequenceNumber else kept r := by
  rw [setDependencies] at set
  obtain ⟨⟨kept, v⟩, added, eq⟩ := bind_ok.1 set
  obtain ⟨forgets, bare, intra, members⟩ := addSources_spec (.refl producers) added
  cases eq
  refine ⟨bare, intra, members, kept, forgets, fun r => ?_⟩
  rw [updateDestinations]
  exact DynamicMicroOp.microOp_of_bare bare ▸ DynamicMicroOp.sequenceNumber_of_bare bare ▸ rfl

end RegisterDependencies

namespace MemoryDependencies

variable {m m' : MemoryDependencies}

theorem addMembar_spec (added : m.addMembar low u = .ok u') :
    u'.bare = u.bare ∧ u'.intraInstructionDependencies = u.intraInstructionDependencies ∧
      ∀ y, y ∈ u'.allDependencies ↔ y ∈ u.allDependencies ∨ m.membar = some y ∧ low < y := by
  rw [addMembar] at added
  split at added
  · rename_i none
    cases added
    exact ⟨rfl, rfl, by simp [none]⟩
  · rename_i membar some
    split_ifs at added with later
    · refine ⟨DynamicMicroOp.addDependency_bare added, DynamicMicroOp.addDependency_intra added,
        fun y => ?_⟩
      rw [(DynamicMicroOp.addDependency_spec added).2, some, Option.some.injEq]
      constructor
      · rintro (there | rfl)
        · exact .inl there
        · exact .inr ⟨rfl, later⟩
      · rintro (there | ⟨rfl, -⟩)
        · exact .inl there
        · exact .inr rfl
    · cases added
      refine ⟨rfl, rfl, fun y => ⟨.inl, ?_⟩⟩
      rintro (there | ⟨same, above⟩)
      · exact there
      · rw [some, Option.some.injEq] at same
        exact absurd (same ▸ above) later

/-- Who the last barrier is after the micro-op. -/
def membarAfter (u : DynamicMicroOp) (membar : Option ℕ) : Option ℕ :=
  if u.isLoad || u.isStore || !u.microOp.membar then membar else some u.sequenceNumber

/-- **Memory**: a load depends on the last store to its address, and loads, stores and barriers on the
last barrier. -/
theorem setDependencies_spec (set : m.setDependencies low u = .ok (m', u')) :
    u'.bare = u.bare ∧ u'.intraInstructionDependencies = u.intraInstructionDependencies ∧
      (∀ y, y ∈ u'.allDependencies ↔ y ∈ u.allDependencies ∨
        (u.isLoad = true ∧ (m.clean low).find u.address = some y) ∨
        ((u.isLoad || u.isStore || u.microOp.membar) = true ∧ m.membar = some y ∧ low < y)) ∧
      m'.producers = (m.clean low).producers ++
        (if u.isStore then [(u.sequenceNumber, u.address)] else []) ∧
      m'.membar = membarAfter u m.membar := by
  rw [setDependencies] at set
  dsimp only at set
  have membar : (m.clean low).membar = m.membar := rfl
  split_ifs at set with load store barrier
  · have noStore : u.isStore = false := by
      rw [DynamicMicroOp.isLoad, decide_eq_true_eq] at load
      simp [DynamicMicroOp.isStore, load]
    split at set
    · rename_i none
      rw [ok_bind] at set
      obtain ⟨u₁, second, eq⟩ := bind_ok.1 set
      cases eq
      obtain ⟨bare, intra, members⟩ := addMembar_spec second
      refine ⟨bare, intra, fun y => ?_, by simp [noStore], by simp [membarAfter, load, membar]⟩
      rw [members, membar]
      simp [load, none]
    · rename_i producer some
      obtain ⟨u₁, first, rest⟩ := bind_ok.1 set
      obtain ⟨u₂, second, eq⟩ := bind_ok.1 rest
      cases eq
      obtain ⟨bare, intra, members⟩ := addMembar_spec second
      refine ⟨bare.trans (DynamicMicroOp.addDependency_bare first),
        intra.trans (DynamicMicroOp.addDependency_intra first), fun y => ?_, by simp [noStore],
        by simp [membarAfter, load, membar]⟩
      rw [members, (DynamicMicroOp.addDependency_spec first).2, membar]
      simp [load, some, or_assoc, eq_comm]
  · obtain ⟨m₁, first, rest⟩ := bind_ok.1 set
    obtain ⟨u₁, second, eq⟩ := bind_ok.1 rest
    cases eq
    rw [add] at first
    split_ifs at first
    cases first
    obtain ⟨bare, intra, members⟩ := addMembar_spec second
    refine ⟨bare, intra, fun y => ?_, by simp [store], by simp [membarAfter, store, membar]⟩
    rw [members]
    simp [load, store, membar]
  · obtain ⟨u₁, second, eq⟩ := bind_ok.1 set
    cases eq
    obtain ⟨bare, intra, members⟩ := addMembar_spec second
    refine ⟨bare, intra, fun y => ?_, by simp [store], ?_⟩
    · rw [members]
      simp [load, barrier, membar]
    · simp [membarAfter, load, store, barrier, DynamicMicroOp.sequenceNumber_of_bare bare]
  · cases set
    simp only [Bool.not_eq_true] at load store barrier
    exact ⟨rfl, rfl, by simp [load, store, barrier], by simp [store],
      by simp [membarAfter, load, store, barrier, membar]⟩

end MemoryDependencies

end GpuHotSpot.Common.RobTimer
