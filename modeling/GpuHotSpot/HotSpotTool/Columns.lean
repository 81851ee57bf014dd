import Mathlib.Data.List.GetD
import GpuHotSpot.HotSpotTool.TraceFile
import GpuHotSpot.Lib.Scatter

/-!
# Columns and blocks

Trace columns come in the order of the header, blocks in the order of the
floorplans: `main` permutes every row of powers into block order and every row of
temperatures back. Both loops walk the layers with two offsets, `base` over all
layers and `count` over the power-dissipating ones, and look each column's name up
in its layer. `forColumns` is that walk.

* `mem_columnSlots`: the slot the walk gives a column is that of the block of the
  column's name.
* `nodup_columnSlots`: no two columns share a slot.
-/

namespace GpuHotSpot.HotSpotTool

/-- The length of a name. -/
def strSize : ℕ := 512

/-! ## Floorplans -/

/-- A layer of the grid model: whether it dissipates power, and the names of its blocks. -/
structure Layer where
  hasPower : Bool
  units : List Text

abbrev GridModel := List Layer

/-- A name up to `strcasecmp`. -/
def foldCase (name : Text) : Text := name.map Char.toLower

/-- `get_blk_index`: the first block of that name, ignoring case. -/
def getBlkIndex (units : List Text) (name : Text) : Exits ℕ :=
  match units.findIdx? fun unit => foldCase name = foldCase unit with
  | some i => .ok i
  | none => fatal

/-- The number of columns: all blocks of the power-dissipating layers. -/
def numColumns (model : GridModel) : ℕ :=
  ((model.filter (·.hasPower)).map (·.units.length)).sum

/-! ## The walk over layers -/

section Walk

variable {σ : Type*} (names : List Text) (body : ℕ → ℕ → σ → σ)

/-- The inner loop: `body` gets each column of one layer with its slot. -/
def forUnits (units : List Text) (base count : ℕ) (s : σ) : Exits σ :=
  (List.range units.length).foldlM (fun s j =>
    (getBlkIndex units (names.getD (count + j) [])).map fun idx =>
      body (count + j) (base + idx) s) s

/-- The outer loop over layers. -/
def forColumns : GridModel → ℕ → ℕ → σ → Exits σ
  | [], _, _, s => .ok s
  | layer :: layers, base, count, s =>
    if layer.hasPower then do
      let s ← forUnits names body layer.units base count s
      forColumns layers (base + layer.units.length) (count + layer.units.length) s
    else forColumns layers (base + layer.units.length) count s

end Walk

/-- `power[base+idx] = vals[count+j]` for every column. -/
def permuteIn {K : Type*} (model : GridModel) (names : List Text) (vals power : ℕ → K) :
    Exits (ℕ → K) :=
  forColumns names (fun k slot power => Function.update power slot (vals k)) model 0 0 power

/-- `vals[count+j] = temp[base+idx]` for every column. -/
def permuteOut {K : Type*} (model : GridModel) (names : List Text) (temp vals : ℕ → K) :
    Exits (ℕ → K) :=
  forColumns names (fun k slot vals => Function.update vals k (temp slot)) model 0 0 vals

/-! ## Headers that fit -/

/-- In layer order, the part of the header that belongs to each power-dissipating layer is a
permutation of that layer's block names, which are distinct ignoring case. -/
def HeaderFits : GridModel → List Text → Prop
  | [], names => names = []
  | layer :: layers, names =>
    if layer.hasPower then
      ((names.take layer.units.length).map foldCase).Perm (layer.units.map foldCase) ∧
        (layer.units.map foldCase).Nodup ∧ HeaderFits layers (names.drop layer.units.length)
    else HeaderFits layers names

/-- The first slot of the `i`-th layer. -/
def layerBase (model : GridModel) (i : ℕ) : ℕ := ((model.take i).map (·.units.length)).sum

/-- The first column of the `i`-th layer. -/
def layerCount (model : GridModel) (i : ℕ) : ℕ := numColumns (model.take i)

/-- `slot` is that of the block of column `k`, for layers that start at slot `base` and column
`count`: the block of that name in the layer the column belongs to. -/
def IsBlockFrom (model : GridModel) (names : List Text) (base count k slot : ℕ) : Prop :=
  ∃ i layer j u, model[i]? = some layer ∧ layer.hasPower = true ∧
    j < layer.units.length ∧ k = count + layerCount model i + j ∧
    u < layer.units.length ∧ slot = base + layerBase model i + u ∧
    foldCase (names.getD k []) = foldCase (layer.units.getD u [])

/-- `slot` is that of the block of column `k`. -/
def IsBlockOf (model : GridModel) (names : List Text) (k slot : ℕ) : Prop :=
  IsBlockFrom model names 0 0 k slot

/-- The slot of a column in its layer. -/
def unitSlot (units names : List Text) (base k : ℕ) : ℕ :=
  base + units.findIdx fun unit => foldCase (names.getD k []) = foldCase unit

/-- The columns in order, each with the slot the walk gives it. -/
def columnSlots (names : List Text) : GridModel → ℕ → ℕ → List (ℕ × ℕ)
  | [], _, _ => []
  | layer :: layers, base, count =>
    if layer.hasPower then
      (List.range layer.units.length).map
          (fun j => (count + j, unitSlot layer.units names base (count + j))) ++
        columnSlots names layers (base + layer.units.length) (count + layer.units.length)
    else columnSlots names layers (base + layer.units.length) count

/-! ## The walk follows the blocks -/

/-- A name that occurs in a list is found there. -/
theorem exists_findIdx {units : List Text} {name : Text}
    (occurs : foldCase name ∈ units.map foldCase) :
    ∃ u, u < units.length ∧ (units.findIdx fun unit => foldCase name = foldCase unit) = u ∧
      getBlkIndex units name = .ok u ∧ foldCase name = foldCase (units.getD u []) := by
  obtain ⟨unit, member, same⟩ := List.mem_map.mp occurs
  have found : (units.findIdx fun unit => foldCase name = foldCase unit) < units.length :=
    List.findIdx_lt_length_of_exists ⟨unit, member, by simpa using same.symm⟩
  refine ⟨_, found, rfl, ?_, ?_⟩
  · rw [getBlkIndex, List.findIdx?_eq_some_of_exists ⟨unit, member, by simpa using same.symm⟩]
  · have here := List.findIdx_getElem (w := found)
    rw [List.getD_eq_getElem _ _ found]
    simpa using here

/-- In a layer without repeated names, a name has one block. -/
theorem unit_unique {units : List Text} (nodup : (units.map foldCase).Nodup) {u v : ℕ}
    (uLt : u < units.length) (vLt : v < units.length)
    (same : foldCase (units.getD u []) = foldCase (units.getD v [])) : u = v := by
  rw [List.getD_eq_getElem _ _ uLt, List.getD_eq_getElem _ _ vLt] at same
  have uLt' : u < (units.map foldCase).length := by simpa using uLt
  have vLt' : v < (units.map foldCase).length := by simpa using vLt
  have same' : (units.map foldCase)[u] = (units.map foldCase)[v] := by simpa using same
  exact nodup.getElem_inj_iff.mp same'

section Fits

variable {names : List Text}

/-- The columns of the first layer carry names of its blocks, each once. -/
theorem headerFits_cons_power {layer : Layer} {layers : List Layer} {count : ℕ}
    (power : layer.hasPower = true) (fits : HeaderFits (layer :: layers) (names.drop count)) :
    (∀ j < layer.units.length, foldCase (names.getD (count + j) []) ∈ layer.units.map foldCase) ∧
      (∀ i < layer.units.length, ∀ j < layer.units.length,
        foldCase (names.getD (count + i) []) = foldCase (names.getD (count + j) []) → i = j) ∧
      (layer.units.map foldCase).Nodup ∧
      HeaderFits layers (names.drop (count + layer.units.length)) := by
  rw [HeaderFits, if_pos power, List.drop_drop] at fits
  obtain ⟨perm, nodup, rest⟩ := fits
  have length := perm.length_eq
  simp only [List.length_map] at length
  have enough : layer.units.length ≤ names.length - count := by
    rw [List.length_take, List.length_drop] at length
    omega
  have column (j : ℕ) (jLt : j < layer.units.length) :
      (((names.drop count).take layer.units.length).map foldCase)[j]? =
        some (foldCase (names.getD (count + j) [])) := by
    have inNames : count + j < names.length := by omega
    rw [List.getElem?_map, List.getElem?_take_of_lt jLt, List.getElem?_drop,
      List.getElem?_eq_getElem inNames, Option.map_some, List.getD_eq_getElem _ _ inNames]
  refine ⟨fun j jLt => perm.subset (List.mem_of_getElem? (column j jLt)), ?_, nodup, rest⟩
  intro i iLt j jLt same
  have inOwn : i < (((names.drop count).take layer.units.length).map foldCase).length := by
    rw [List.length_map, length]
    exact iLt
  exact (List.getElem?_inj inOwn (perm.nodup_iff.mpr nodup)).mp
    (by rw [column i iLt, column j jLt, same])

/-- **The walk** visits the columns in order, each with the slot of its name. -/
theorem forColumns_eq {σ : Type*} (body : ℕ → ℕ → σ → σ) {model : GridModel} {base count : ℕ}
    (fits : HeaderFits model (names.drop count)) (s : σ) :
    forColumns names body model base count s =
      .ok ((columnSlots names model base count).foldl (fun s p => body p.1 p.2 s) s) := by
  induction model generalizing base count s with
  | nil => rfl
  | cons layer layers ih =>
    by_cases power : layer.hasPower = true
    · obtain ⟨occurs, -, -, rest⟩ := headerFits_cons_power power fits
      have units : forUnits names body layer.units base count s = _ :=
        foldlM_eq_ok (g := fun s j =>
          body (count + j) (unitSlot layer.units names base (count + j)) s) (by
          intro s j member
          obtain ⟨u, -, found, index, -⟩ := exists_findIdx (occurs j (List.mem_range.mp member))
          rw [index, unitSlot, found]
          rfl) s
      rw [forColumns, if_pos power, units, columnSlots, if_pos power, List.foldl_append,
        List.foldl_map]
      exact ih rest _
    · rw [forColumns, if_neg power, columnSlots, if_neg power]
      rw [HeaderFits, if_neg power] at fits
      exact ih fits s

/-- Every column's slot lies among those of its layers. -/
theorem columnSlots_bounds {model : GridModel} {base count k slot : ℕ}
    (fits : HeaderFits model (names.drop count))
    (member : (k, slot) ∈ columnSlots names model base count) :
    base ≤ slot ∧ count ≤ k := by
  induction model generalizing base count with
  | nil => cases member
  | cons layer layers ih =>
    rw [columnSlots] at member
    split_ifs at member with power
    · rcases List.mem_append.mp member with own | rest
      · obtain ⟨j, -, eq⟩ := List.mem_map.mp own
        cases eq
        exact ⟨Nat.le_add_right .., Nat.le_add_right ..⟩
      · have := ih (headerFits_cons_power power fits).2.2.2 rest
        omega
    · rw [HeaderFits, if_neg power] at fits
      have := ih fits member
      omega

/-- **No two columns share a slot.** -/
theorem nodup_columnSlots {model : GridModel} {base count : ℕ}
    (fits : HeaderFits model (names.drop count)) :
    ((columnSlots names model base count).map Prod.snd).Nodup := by
  induction model generalizing base count with
  | nil => exact List.nodup_nil
  | cons layer layers ih =>
    rw [columnSlots]
    split_ifs with power
    · obtain ⟨occurs, distinct, -, rest⟩ := headerFits_cons_power power fits
      rw [List.map_append, List.nodup_append]
      refine ⟨?_, ih rest, ?_⟩
      · rw [List.map_map]
        refine (List.nodup_range).map_on fun i iMem j jMem same => ?_
        have iLt := List.mem_range.mp iMem
        have jLt := List.mem_range.mp jMem
        obtain ⟨u, -, findI, -, nameI⟩ := exists_findIdx (occurs i iLt)
        obtain ⟨v, -, findJ, -, nameJ⟩ := exists_findIdx (occurs j jLt)
        simp only [Function.comp_apply, unitSlot, findI, findJ, Nat.add_left_cancel_iff] at same
        exact distinct i iLt j jLt (by rw [nameI, nameJ, same])
      · intro slot own slot' others
        obtain ⟨⟨k, _⟩, ownMem, rfl⟩ := List.mem_map.mp own
        obtain ⟨⟨k', _⟩, otherMem, rfl⟩ := List.mem_map.mp others
        obtain ⟨j, jMem, eq⟩ := List.mem_map.mp ownMem
        obtain ⟨u, uLt, find, -, -⟩ := exists_findIdx (occurs j (List.mem_range.mp jMem))
        have bound := (columnSlots_bounds rest otherMem).1
        cases eq
        simp only [unitSlot, find]
        omega
    · rw [HeaderFits, if_neg power] at fits
      exact ih fits

/-- The columns a layer contributes to the header. -/
def Layer.columns (layer : Layer) : ℕ := if layer.hasPower then layer.units.length else 0

theorem isBlockFrom_cons {layer : Layer} {layers : GridModel} {base count k slot : ℕ} :
    IsBlockFrom (layer :: layers) names base count k slot ↔
      (layer.hasPower = true ∧ ∃ j u, j < layer.units.length ∧ k = count + j ∧
        u < layer.units.length ∧ slot = base + u ∧
        foldCase (names.getD k []) = foldCase (layer.units.getD u [])) ∨
      IsBlockFrom layers names (base + layer.units.length) (count + layer.columns) k slot := by
  have baseSucc (i : ℕ) :
      layerBase (layer :: layers) (i + 1) = layer.units.length + layerBase layers i := by
    simp [layerBase]
  have countSucc (i : ℕ) :
      layerCount (layer :: layers) (i + 1) = layer.columns + layerCount layers i := by
    rw [layerCount, layerCount, numColumns, numColumns, Layer.columns, List.take_succ_cons,
      List.filter_cons]
    split_ifs <;> simp
  constructor
  · rintro ⟨i, found, j, u, entry, power, jLt, column, uLt, slotEq, name⟩
    cases i with
    | zero =>
      cases entry
      exact Or.inl ⟨power, j, u, jLt, column, uLt, slotEq, name⟩
    | succ i =>
      rw [countSucc] at column
      rw [baseSucc] at slotEq
      exact Or.inr ⟨i, found, j, u, entry, power, jLt, by omega, uLt, by omega, name⟩
  · rintro (⟨power, j, u, jLt, column, uLt, slotEq, name⟩ |
      ⟨i, found, j, u, entry, power, jLt, column, uLt, slotEq, name⟩)
    · exact ⟨0, layer, j, u, rfl, power, jLt, column, uLt, slotEq, name⟩
    · refine ⟨i + 1, found, j, u, entry, power, jLt, ?_, uLt, ?_, name⟩
      · rw [countSucc]
        omega
      · rw [baseSucc]
        omega

/-- **A column's slot is that of the block of its name.** -/
theorem mem_columnSlots {model : GridModel} {base count k slot : ℕ}
    (fits : HeaderFits model (names.drop count)) :
    (k, slot) ∈ columnSlots names model base count ↔ IsBlockFrom model names base count k slot := by
  induction model generalizing base count with
  | nil => simp [columnSlots, IsBlockFrom]
  | cons layer layers ih =>
    by_cases power : layer.hasPower = true
    · obtain ⟨occurs, -, nodup, rest⟩ := headerFits_cons_power power fits
      rw [columnSlots, if_pos power, List.mem_append, ih rest, isBlockFrom_cons, Layer.columns,
        if_pos power]
      refine or_congr ?_ Iff.rfl
      simp only [List.mem_map, List.mem_range, Prod.mk.injEq, power, true_and]
      constructor
      · rintro ⟨j, jLt, rfl, rfl⟩
        obtain ⟨u, uLt, found, -, name⟩ := exists_findIdx (occurs j jLt)
        exact ⟨j, u, jLt, rfl, uLt, by rw [unitSlot, found], name⟩
      · rintro ⟨j, u, jLt, rfl, uLt, rfl, name⟩
        obtain ⟨v, vLt, found, -, name'⟩ := exists_findIdx (occurs j jLt)
        have same := unit_unique nodup uLt vLt (name.symm.trans name')
        exact ⟨j, jLt, rfl, by rw [unitSlot, found, same]⟩
    · rw [HeaderFits, if_neg power] at fits
      rw [columnSlots, if_neg power, ih fits, isBlockFrom_cons, Layer.columns, if_neg power,
        Nat.add_zero]
      simp [power]

/-- The columns are numbered through. -/
theorem map_fst_columnSlots (names : List Text) (model : GridModel) (base count : ℕ) :
    (columnSlots names model base count).map Prod.fst = List.range' count (numColumns model) := by
  induction model generalizing base count with
  | nil => rfl
  | cons layer layers ih =>
    rw [columnSlots, numColumns, List.filter_cons]
    split_ifs with power
    · rw [List.map_append, ih, List.map_cons, List.sum_cons, ← List.range'_append_1, List.map_map]
      congr 1
      rw [List.range'_eq_map_range]
      rfl
    · exact ih _ _

/-- A header that fits has one name for each column. -/
theorem length_of_headerFits {model : GridModel} {names : List Text}
    (fits : HeaderFits model names) : names.length = numColumns model := by
  induction model generalizing names with
  | nil => rw [show names = [] from fits]; rfl
  | cons layer layers ih =>
    rw [HeaderFits] at fits
    rw [numColumns, List.filter_cons]
    split_ifs at fits ⊢ with power
    · obtain ⟨perm, -, rest⟩ := fits
      have here := perm.length_eq
      have there := ih rest
      rw [List.length_map, List.length_map, List.length_take] at here
      rw [List.length_drop] at there
      rw [List.map_cons, List.sum_cons, ← numColumns]
      omega
    · exact ih fits

/-! ## Out and back -/

variable {K : Type*} {model : GridModel}

/-- **Out.** Every column's value is stored at the block of its name, and nothing else is
stored. -/
theorem permuteIn_spec (fits : HeaderFits model names) (vals power : ℕ → K) :
    ∃ power', permuteIn model names vals power = .ok power' ∧
      (∀ k slot, IsBlockOf model names k slot → power' slot = vals k) ∧
      ∀ slot, (∀ k, ¬ IsBlockOf model names k slot) → power' slot = power slot := by
  have blocks (k slot : ℕ) : (k, slot) ∈ columnSlots names model 0 0 ↔ _ := mem_columnSlots fits
  refine ⟨_, forColumns_eq _ fits power, ?_, ?_⟩
  · intro k slot block
    exact scatter_of_mem Prod.snd (fun p : ℕ × ℕ => vals p.1) (nodup_columnSlots fits)
      ((blocks k slot).mpr block) power
  · intro slot other
    refine scatter_of_notMem Prod.snd (fun p : ℕ × ℕ => vals p.1) ?_ power
    intro member
    obtain ⟨⟨k, _⟩, inSlots, rfl⟩ := List.mem_map.mp member
    exact other k ((blocks k _).mp inSlots)

/-- **And back.** Every column receives the value of the block of its name. -/
theorem permuteOut_spec (fits : HeaderFits model names) (temp vals : ℕ → K) :
    ∃ vals', permuteOut model names temp vals = .ok vals' ∧
      ∀ k slot, IsBlockOf model names k slot → vals' k = temp slot := by
  have blocks (k slot : ℕ) : (k, slot) ∈ columnSlots names model 0 0 ↔ _ := mem_columnSlots fits
  refine ⟨_, forColumns_eq _ fits vals, fun k slot block => ?_⟩
  have nodup : ((columnSlots names model 0 0).map Prod.fst).Nodup := by
    rw [map_fst_columnSlots]
    exact List.nodup_range'
  exact scatter_of_mem Prod.fst (fun p : ℕ × ℕ => temp p.2) nodup
    ((blocks k slot).mpr block) vals

/-- Every column of the header has a block. -/
theorem exists_isBlockOf (fits : HeaderFits model names) {k : ℕ} (column : k < numColumns model) :
    ∃ slot, IsBlockOf model names k slot := by
  have member : k ∈ (columnSlots names model 0 0).map Prod.fst := by
    rw [map_fst_columnSlots]
    simpa using column
  obtain ⟨⟨_, slot⟩, inSlots, rfl⟩ := List.mem_map.mp member
  exact ⟨slot, (mem_columnSlots fits).mp inSlots⟩

/-- Distinct columns have distinct blocks. -/
theorem isBlockOf_injective (fits : HeaderFits model names) {k k' slot : ℕ}
    (block : IsBlockOf model names k slot) (block' : IsBlockOf model names k' slot) : k = k' := by
  have member : (k, slot) ∈ columnSlots names model 0 0 := (mem_columnSlots fits).mpr block
  have member' : (k', slot) ∈ columnSlots names model 0 0 := (mem_columnSlots fits).mpr block'
  exact congrArg Prod.fst (List.inj_on_of_nodup_map (nodup_columnSlots fits) member member' rfl)

/-- A column has one block. -/
theorem isBlockOf_unique (fits : HeaderFits model names) {k slot slot' : ℕ}
    (block : IsBlockOf model names k slot) (block' : IsBlockOf model names k slot') :
    slot = slot' := by
  have member : (k, slot) ∈ columnSlots names model 0 0 := (mem_columnSlots fits).mpr block
  have member' : (k, slot') ∈ columnSlots names model 0 0 := (mem_columnSlots fits).mpr block'
  have nodup : ((columnSlots names model 0 0).map Prod.fst).Nodup := by
    rw [map_fst_columnSlots]
    exact List.nodup_range'
  exact congrArg Prod.snd (List.inj_on_of_nodup_map nodup member member' rfl)

end Fits

end GpuHotSpot.HotSpotTool
