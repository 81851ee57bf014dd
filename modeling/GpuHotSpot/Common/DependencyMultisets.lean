import GpuHotSpot.Common.DependencyTables
import Mathlib.Data.List.Perm.Subperm

/-!
# Dependencies as multisets

Some dependencies are added to a micro-op, and then some of its dependencies are removed, in any order.

* `removesEach_iff`, `multiset_iff`: the calls behave as on a multiset exactly under that condition.

`removeDependency` takes a number for a dependency within the instruction if it is not below the first of
these, so that a micro-op of the same type in the same instruction is looked for in the wrong place.
-/

namespace GpuHotSpot.Common.DependencyMultisets

open Fallible
open RobTimer DependencyTables

/-! ## Calls -/

/-- Each of the calls deletes one copy of the number from the list that `getDependency` enumerates. -/
def RemovesEach : DynamicMicroOp → List ℕ → Prop
  | _, [] => True
  | u, x :: xs => ∃ l l' u', u.getDependencies = .ok l ∧ u.removeDependency x = .ok u' ∧
      u'.getDependencies = .ok l' ∧ l.Perm (x :: l') ∧ RemovesEach u' xs

/-- After the calls of `addDependency`, each call of `removeDependency` deletes one copy. -/
def BehavesAsMultiset (u : DynamicMicroOp) (adds removes : List ℕ) : Prop :=
  ∃ l u', addAll adds u = .ok u' ∧ u'.getDependencies = .ok l ∧
    l.Perm (u.allDependencies ++ adds.dedup) ∧ RemovesEach u' removes

/-- The number of the first micro-op of the same type in the instruction. -/
def firstOfType (u : DynamicMicroOp) : ℕ := u.sequenceNumber - u.microOpTypeOffset

/-- The number of the first dependency within the instruction, after some were removed. -/
def threshold (u : DynamicMicroOp) (before : List ℕ) : ℕ :=
  before.foldl (fun first x => max first (x + 1)) u.firstIntra

/-- The number is removed as it should, if the numbers `before` it have been removed from `n`
dependencies: it is older than the micro-ops of the same type in the instruction, and the array has room
for those of the dependencies within the instruction that come before it. -/
def Removable (u : DynamicMicroOp) (n : ℕ) (before : List ℕ) (x : ℕ) : Prop :=
  x < firstOfType u ∧
    (x ≤ threshold u before ∨ n < before.length + (firstOfType u - x) + maximumNumberOfDependencies)

/-! ## One removal -/

section Removal

variable {u u' : DynamicMicroOp} {x : ℕ}

/-- When the loop over the dependencies within the instruction succeeds. -/
theorem removeIntra_ok_iff {first n : ℕ} {dependencies : List ℕ} (low : first ≤ x) :
    (∃ r, DynamicMicroOp.removeIntra x first n dependencies = .ok r) ↔
      x < first + n ∧ (x = first ∨ dependencies.length + (x - first) < maximumNumberOfDependencies) := by
  induction n generalizing first dependencies with
  | zero =>
    refine iff_of_false (by rintro ⟨r, ⟨⟩⟩) ?_
    rintro ⟨high, -⟩
    omega
  | succ n ih =>
    rw [DynamicMicroOp.removeIntra]
    by_cases found : x = first
    · rw [if_pos found]
      exact iff_of_true ⟨_, rfl⟩ ⟨by omega, .inl found⟩
    · have length : (dependencies ++ [first]).length = dependencies.length + 1 := by simp
      rw [if_neg found]
      by_cases room : (dependencies ++ [first]).length < maximumNumberOfDependencies
      · rw [if_pos room, ih (by omega), length]
        rw [length] at room
        omega
      · rw [if_neg room]
        rw [length] at room
        refine iff_of_false (by rintro ⟨r, ⟨⟩⟩) ?_
        rintro ⟨-, fits⟩
        omega

/-- The loop stops at the number. -/
theorem removeIntra_left {first n m : ℕ} {dependencies rest : List ℕ}
    (removed : DynamicMicroOp.removeIntra x first n dependencies = .ok (m, rest)) :
    x + 1 + m = first + n := by
  induction n generalizing first dependencies with
  | zero => cases removed
  | succ n ih =>
    rw [DynamicMicroOp.removeIntra] at removed
    split_ifs at removed with found room
    · cases removed
      omega
    · have := ih removed
      omega

theorem firstIntra_add (within : u.WithinInstruction) :
    u.firstIntra + u.intraInstructionDependencies = firstOfType u := by
  rw [DynamicMicroOp.WithinInstruction] at within
  rw [DynamicMicroOp.firstIntra, firstOfType]
  omega

theorem getDependencies_eq (within : u.WithinInstruction) :
    u.getDependencies = .ok u.allDependencies :=
  if_neg fun outside => outside.2 within

/-- **One removal** succeeds exactly if the number is removable. -/
theorem removeDependency_ok_iff (within : u.WithinInstruction) (member : x ∈ u.allDependencies) :
    (∃ u', u.removeDependency x = .ok u') ↔ Removable u u.getDependenciesLength [] x := by
  have last := firstIntra_add within
  rw [DynamicMicroOp.removeDependency]
  by_cases intra : u.firstIntra ≤ x
  · have loop := @removeIntra_ok_iff x _ u.intraInstructionDependencies u.dependencies intra
    rw [if_pos ⟨within, intra⟩]
    have same : Removable u u.getDependenciesLength [] x ↔
        x < u.firstIntra + u.intraInstructionDependencies ∧
          (x = u.firstIntra ∨
            u.dependencies.length + (x - u.firstIntra) < maximumNumberOfDependencies) := by
      rw [Removable, threshold, DynamicMicroOp.getDependenciesLength, last, List.foldl_nil,
        List.length_nil]
      omega
    rw [same, ← loop]
    constructor
    · rintro ⟨u', removed⟩
      obtain ⟨r, ran, -⟩ := bind_ok.1 removed
      exact ⟨r, ran⟩
    · rintro ⟨r, ran⟩
      exact ⟨_, by rw [ran]; rfl⟩
  · rw [if_neg fun both => intra both.2]
    have regular : x ∈ u.dependencies := by
      rcases List.mem_append.1 member with inside | outside
      · exact absurd ((DynamicMicroOp.mem_intra_iff u).1 inside).1 intra
      · exact outside
    obtain ⟨rest, removed⟩ := DynamicMicroOp.removeRegular_ok regular
    refine iff_of_true ⟨_, by rw [removed]; rfl⟩ ⟨by omega, .inl ?_⟩
    exact (not_le.1 intra).le

/-- The first dependency within the instruction after a removal. -/
theorem firstIntra_of_removed (within : u.WithinInstruction) (removed : u.removeDependency x = .ok u') :
    u'.firstIntra = max u.firstIntra (x + 1) := by
  have within' := DynamicMicroOp.WithinInstruction.removeDependency within removed
  have bare := (DynamicMicroOp.removeDependency_spec removed).1
  have last := firstIntra_add within
  have last' := firstIntra_add within'
  rw [firstOfType, DynamicMicroOp.sequenceNumber_of_bare bare, DynamicMicroOp.offset_of_bare bare,
    ← firstOfType] at last'
  rw [DynamicMicroOp.removeDependency] at removed
  split_ifs at removed with intra
  · obtain ⟨⟨n, rest⟩, moved, eq⟩ := bind_ok.1 removed
    cases eq
    have left := removeIntra_left moved
    dsimp only at last'
    omega
  · have below : x < u.firstIntra := not_le.1 fun low => intra ⟨within, low⟩
    obtain ⟨rest, -, eq⟩ := bind_ok.1 removed
    cases eq
    dsimp only at last'
    omega

end Removal

/-! ## All removals -/

section Removals

variable {u u' : DynamicMicroOp} {x y : ℕ} {xs before : List ℕ}

/-- What is removable after a removal. -/
theorem removable_cons (within : u.WithinInstruction) (removed : u.removeDependency x = .ok u') :
    Removable u u.getDependenciesLength (x :: before) y ↔
      Removable u' u'.getDependenciesLength before y := by
  have bare := (DynamicMicroOp.removeDependency_spec removed).1
  have same : firstOfType u' = firstOfType u := by
    rw [firstOfType, DynamicMicroOp.sequenceNumber_of_bare bare, DynamicMicroOp.offset_of_bare bare,
      firstOfType]
  have threshold : threshold u (x :: before) = threshold u' before := by
    rw [threshold, List.foldl_cons, ← firstIntra_of_removed within removed, DependencyMultisets.threshold]
  rw [Removable, Removable, same, threshold, DynamicMicroOp.removeDependency_length removed,
    List.length_cons]
  omega

/-- **Removals**: each deletes one copy, if and only if each number is removable. -/
theorem removesEach_iff (within : u.WithinInstruction) (members : xs.Subperm u.allDependencies) :
    RemovesEach u xs ↔ ∀ before x after, xs = before ++ x :: after →
      Removable u u.getDependenciesLength before x := by
  induction xs generalizing u with
  | nil =>
    exact iff_of_true trivial fun before x after split => absurd split (by simp)
  | cons x xs ih =>
    have member : x ∈ u.allDependencies := members.subset List.mem_cons_self
    rw [forall_split_cons, ← removeDependency_ok_iff within member]
    have rest {u' : DynamicMicroOp} (removed : u.removeDependency x = .ok u') :
        RemovesEach u' xs ↔ ∀ before y after, xs = before ++ y :: after →
          Removable u u.getDependenciesLength (x :: before) y := by
      have perm := (DynamicMicroOp.removeDependency_spec removed).2
      have inside : xs.Subperm u'.allDependencies :=
        (List.subperm_cons x).1 (members.trans perm.subperm)
      rw [ih (DynamicMicroOp.WithinInstruction.removeDependency within removed) inside]
      simp only [removable_cons within removed]
    constructor
    · rintro ⟨l, l', u', -, removed, -, -, later⟩
      exact ⟨⟨u', removed⟩, (rest removed).1 later⟩
    · rintro ⟨⟨u', removed⟩, later⟩
      have within' := DynamicMicroOp.WithinInstruction.removeDependency within removed
      exact ⟨_, _, u', getDependencies_eq within, removed, getDependencies_eq within',
        (DynamicMicroOp.removeDependency_spec removed).2, (rest removed).2 later⟩

/-- **Multisets**: some dependencies are added to a micro-op, and then some of the dependencies that it
has are removed. They are there at first, and each removal deletes one copy, if and only if the array has
room for the added ones and each number is removable. -/
theorem multiset_iff (u : DynamicMicroOp) (fresh : u.dependencies = []) (within : u.WithinInstruction)
    (adds removes : List ℕ) (members : removes.Subperm (u.allDependencies ++ adds.dedup)) :
    BehavesAsMultiset u adds removes ↔ adds.dedup.length ≤ maximumNumberOfDependencies ∧
      ∀ before x after, removes = before ++ x :: after →
        Removable u (u.intraInstructionDependencies + adds.dedup.length) before x := by
  have room : u.dependencies.length ≤ maximumNumberOfDependencies := by
    rw [fresh]
    exact Nat.zero_le _
  have there : (adds.foldl adjoin []).Perm adds.dedup := by
    rw [List.perm_ext_iff_of_nodup (nodup_foldl_adjoin List.nodup_nil) (List.nodup_dedup adds)]
    simp [mem_foldl_adjoin]
  have after : addAll adds _ = _ := addAll_eq room
  rw [fresh, length_foldl_adjoin] at after
  by_cases fits : adds.dedup.length ≤ maximumNumberOfDependencies
  · rw [if_pos fits] at after
    have perm : ({ u with dependencies := adds.foldl adjoin [] } : DynamicMicroOp).allDependencies.Perm
        (u.allDependencies ++ adds.dedup) := by
      rw [DynamicMicroOp.allDependencies, DynamicMicroOp.allDependencies, fresh, List.append_nil]
      exact there.append_left _
    have each := removesEach_iff (u := { u with dependencies := adds.foldl adjoin [] }) within
      (members.trans perm.symm.subperm)
    have length : ({ u with dependencies := adds.foldl adjoin [] } :
        DynamicMicroOp).getDependenciesLength =
          u.intraInstructionDependencies + adds.dedup.length := by
      rw [DynamicMicroOp.getDependenciesLength, there.length_eq]
    rw [length] at each
    rw [and_iff_right fits]
    constructor
    · rintro ⟨l, u', added, -, -, removing⟩
      cases after.symm.trans added
      exact each.1 removing
    · intro removable
      exact ⟨_, _, after, getDependencies_eq within, perm, each.2 removable⟩
  · rw [if_neg fits] at after
    refine iff_of_false ?_ fun both => fits both.1
    rintro ⟨l, u', added, -⟩
    cases after.symm.trans added

end Removals

/-- A micro-op that depends on the two loads of its instruction. -/
def afterLoads : DynamicMicroOp :=
  { plainMicroOp [] [] 1 false with intraInstructionDependencies := 2, sequenceNumber := 7 }

/-- The loads are removed from its dependencies in the other order, among two older micro-ops. -/
theorem behavesAsMultiset_afterLoads : BehavesAsMultiset afterLoads [3, 4, 3] [6, 3, 5, 4] := by
  refine (multiset_iff afterLoads rfl (by decide) _ _ (by decide)).2 ⟨by decide, ?_⟩
  rw [forall_split_cons, forall_split_cons, forall_split_cons, forall_split_cons]
  refine ⟨⟨by decide, .inr (by decide)⟩, ⟨by decide, .inl (by decide)⟩, ⟨by decide, .inl (by decide)⟩,
    ⟨by decide, .inl (by decide)⟩, ?_⟩
  simp

/-- The second load of an instruction may depend on the first one. -/
def secondLoad : DynamicMicroOp :=
  { memoryMicroOp .load [1] [1] 64 with microOpTypeOffset := 1, sequenceNumber := 5 }

/-- Its dependency on the first one cannot be removed. -/
theorem not_behavesAsMultiset_load : ¬ BehavesAsMultiset secondLoad [4] [4] := by
  rintro ⟨l, u', added, -, -, l₁, l₂, v, -, removed, -⟩
  cases added
  cases removed

end GpuHotSpot.Common.DependencyMultisets
