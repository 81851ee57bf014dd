import GpuHotSpot.Lib.Doubles
import GpuHotSpot.HotSpotTool.Columns

/-!
# Temperature files

`dump_temp_grid` writes the temperatures of all blocks and package nodes, one a line, and
`read_temp_grid` reads them back at the start of the next interval. Writer and reader have
each a table of what stands before the block names of a layer.

* `agree_dumpPrefix_readFormat`: the formats of the reader are the prefixes of the writer.
-/

namespace GpuHotSpot.HotSpotTool.TempFile

/-! ## The model -/

/-- A block name as `%s` reads it into `char[STR_SIZE]`. -/
structure IsName (name : Text) : Prop where
  token : Token name
  short : name.length < strSize

/-- The block names of a grid model's layers, which are distinct ignoring case. -/
structure GridModel where
  layers : List (List Text)
  hasLcf : Bool
  modelSecondary : Bool
  isName : ∀ units ∈ layers, ∀ name ∈ units, IsName name
  distinct : ∀ units ∈ layers, (units.map foldCase).Nodup
  layers_default : hasLcf = false → layers.length = if modelSecondary then 9 else 4
  layers_lcf : hasLcf = true → (if modelSecondary then 6 else 3) ≤ layers.length
  layers_lt : layers.length < 2 ^ 31

/-! The numbers of the layers, counted from the first chip layer or the first layer of a package. -/

def layerSi : ℕ := 0
def layerInt : ℕ := 1
def secChipLayers : ℕ := 2
def layerC4 : ℕ := 0
def layerMetal : ℕ := 1
def defaultPackLayers : ℕ := 2
def layerSp : ℕ := 0
def layerSink : ℕ := 1
def secPackLayers : ℕ := 3
def layerPcb : ℕ := 0
def layerSolder : ℕ := 1
def layerSub : ℕ := 2

/-- The package nodes: `EXTRA`, and with the secondary path `EXTRA_SEC`. -/
def extra : ℕ := 12
def extraSec : ℕ := 16

namespace GridModel

variable (m : GridModel)

def nLayers : ℕ := m.layers.length
def spidx : ℕ := m.nLayers - defaultPackLayers + layerSp
def hsidx : ℕ := m.nLayers - defaultPackLayers + layerSink
def silidx : ℕ := if m.modelSecondary then secPackLayers + secChipLayers + layerSi else layerSi
def intidx : ℕ := if m.modelSecondary then secPackLayers + secChipLayers + layerInt else layerInt
def c4idx : ℕ := secPackLayers + layerC4
def metalidx : ℕ := secPackLayers + layerMetal
def extraNodes : ℕ := if m.modelSecondary then extra + extraSec else extra
def totalNBlocks : ℕ := (m.layers.map (·.length)).sum

/-! ## Prefixes and formats -/

/-- What `dump_temp_grid` writes before the block names of layer `n`. -/
def dumpPrefix (n : ℕ) : Exits Text :=
  if m.modelSecondary = false then
    if m.hasLcf = false then
      if n = m.silidx then .ok []
      else if n = m.intidx then .ok "iface_".toList
      else if n = m.spidx then .ok "hsp_".toList
      else if n = m.hsidx then .ok "hsink_".toList
      else fatal
    else if n = m.spidx then .ok "hsp_".toList
    else if n = m.hsidx then .ok "hsink_".toList
    else .ok ("layer_".toList ++ fmtInt n ++ "_".toList)
  else if m.hasLcf = false then
    if n = m.silidx then .ok []
    else if n = m.intidx then .ok "iface_".toList
    else if n = m.spidx then .ok "hsp_".toList
    else if n = m.hsidx then .ok "hsink_".toList
    else if n = metalidx then .ok "metal_".toList
    else if n = c4idx then .ok "c4_".toList
    else if n = layerSub then .ok "sub_".toList
    else if n = layerSolder then .ok "solder_".toList
    else if n = layerPcb then .ok "pcb_".toList
    else fatal
  else if n = m.spidx then .ok "hsp_".toList
  else if n = m.hsidx then .ok "hsink_".toList
  else if n = layerSub then .ok "sub_".toList
  else if n = layerSolder then .ok "solder_".toList
  else if n = layerPcb then .ok "pcb_".toList
  else .ok ("layer_".toList ++ fmtInt n ++ "_".toList)

/-- The format with which `read_temp_grid` reads the lines of layer `n`. -/
def readFormat (n : ℕ) : Exits Text :=
  if m.modelSecondary = false then
    if m.hasLcf = false then
      if n = m.silidx then .ok "%s%lf".toList
      else if n = m.intidx then .ok "iface_%s%lf".toList
      else if n = m.spidx then .ok "hsp_%s%lf".toList
      else if n = m.hsidx then .ok "hsink_%s%lf".toList
      else fatal
    else if n = m.spidx then .ok "hsp_%s%lf".toList
    else if n = m.hsidx then .ok "hsink_%s%lf".toList
    else .ok ("layer_".toList ++ fmtInt n ++ "_%s%lf".toList)
  else if m.hasLcf = false then
    if n = m.silidx then .ok "%s%lf".toList
    else if n = m.intidx then .ok "iface_%s%lf".toList
    else if n = m.spidx then .ok "hsp_%s%lf".toList
    else if n = m.hsidx then .ok "hsink_%s%lf".toList
    else if n = metalidx then .ok "metal_%s%lf".toList
    else if n = c4idx then .ok "c4_%s%lf".toList
    else if n = layerSub then .ok "sub_%s%lf".toList
    else if n = layerSolder then .ok "solder_%s%lf".toList
    else if n = layerPcb then .ok "pcb_%s%lf".toList
    else fatal
  else if n = m.spidx then .ok "hsp_%s%lf".toList
  else if n = m.hsidx then .ok "hsink_%s%lf".toList
  else if n = layerSub then .ok "sub_%s%lf".toList
  else if n = layerSolder then .ok "solder_%s%lf".toList
  else if n = layerPcb then .ok "pcb_%s%lf".toList
  else .ok ("layer_".toList ++ fmtInt n ++ "_%s%lf".toList)

/-- A prefix: no conversion, no comment, and short. -/
structure IsPrefix (p : Text) : Prop where
  noPercent : ∀ c ∈ p, c ≠ '%'
  noSpace : ∀ c ∈ p, isSpace c = false
  noComment : p.head? ≠ some '#'
  short : p.length ≤ 17

instance : DecidablePred IsPrefix := fun p =>
  decidable_of_iff (p.all (fun c => c ≠ '%' && !isSpace c) = true ∧ p.head? ≠ some '#' ∧
      p.length ≤ 17) (by
    simp only [List.all_eq_true, Bool.and_eq_true, decide_eq_true_eq, Bool.not_eq_true']
    exact ⟨fun h => ⟨fun c member => (h.1 c member).1, fun c member => (h.1 c member).2, h.2.1,
      h.2.2⟩, fun h => ⟨fun c member => ⟨h.1 c member, h.2 c member⟩, h.3, h.4⟩⟩)

theorem isPrefix_layer {n : ℕ} (small : n < 2 ^ 31) :
    IsPrefix ("layer_".toList ++ fmtInt n ++ "_".toList) := by
  rw [fmtInt_ofNat]
  have length : (Nat.toDigits 10 n).length ≤ 10 :=
    (Nat.length_toDigits_le_iff (by decide) (by decide)).mpr (small.trans (by decide))
  have before : IsPrefix "layer_".toList := by decide
  have after : IsPrefix "_".toList := by decide
  have chars : ∀ c ∈ "layer_".toList ++ Nat.toDigits 10 n ++ "_".toList,
      c ≠ '%' ∧ isSpace c = false := by
    simp only [List.mem_append]
    rintro c ((front | digits) | back)
    · exact ⟨before.noPercent c front, before.noSpace c front⟩
    · have digit : isDigitIn 10 c = true := isDigitIn_of_mem_toDigits (by decide) (by decide) digits
      refine ⟨?_, not_isSpace_of_isDigitIn digit⟩
      rintro rfl
      exact absurd digit (by decide)
    · exact ⟨after.noPercent c back, after.noSpace c back⟩
  refine ⟨fun c member => (chars c member).1, fun c member => (chars c member).2, by simp, ?_⟩
  simp only [List.length_append]
  have front : "layer_".toList.length = 6 := by decide
  have back : "_".toList.length = 1 := by decide
  omega

/-- Writer and reader agree on a layer: the format is the prefix with the two conversions, and it
is empty for the silicon of the default layers alone. -/
def Agree (n : ℕ) (writer reader : Exits Text) : Prop :=
  ∃ p, writer = .ok p ∧ reader = .ok (p ++ "%s%lf".toList) ∧ IsPrefix p ∧
    (p = [] ↔ m.hasLcf = false ∧ n = m.silidx)

variable {m} {n : ℕ}

theorem agree_ite {c : Prop} [Decidable c] {w w' r r' : Exits Text} (yes : c → m.Agree n w r)
    (no : ¬c → m.Agree n w' r') : m.Agree n (if c then w else w') (if c then r else r') := by
  split
  · exact yes ‹_›
  · exact no ‹_›

theorem agree_fixed {p format : Text} (isPrefix : IsPrefix p) (nonempty : p ≠ [])
    (eq : format = p ++ "%s%lf".toList) (other : m.hasLcf = true ∨ n ≠ m.silidx) :
    m.Agree n (.ok p) (.ok format) := by
  refine ⟨p, rfl, congrArg _ eq, isPrefix, iff_of_false nonempty fun ⟨lcf, si⟩ => ?_⟩
  rcases other with has | apart
  · exact absurd (lcf.symm.trans has) Bool.false_ne_true
  · exact apart si

variable (m)

/-- **One table.** -/
theorem agree_dumpPrefix_readFormat (inside : n < m.nLayers) :
    m.Agree n (m.dumpPrefix n) (m.readFormat n) := by
  have layers : m.hasLcf = false → m.nLayers = if m.modelSecondary then 9 else 4 := m.layers_default
  have chip : m.hasLcf = true → m.Agree n (.ok ("layer_".toList ++ fmtInt n ++ "_".toList))
      (.ok ("layer_".toList ++ fmtInt n ++ "_%s%lf".toList)) := fun lcf =>
    agree_fixed (isPrefix_layer (inside.trans m.layers_lt)) (by simp) (by simp) (.inl lcf)
  have si : m.hasLcf = false → n = m.silidx → m.Agree n (.ok []) (.ok "%s%lf".toList) :=
    fun lcf si => ⟨[], rfl, rfl, by decide, iff_of_true rfl ⟨lcf, si⟩⟩
  have int := @agree_fixed m n "iface_".toList "iface_%s%lf".toList (by decide) (by decide) (by decide)
  have sp := @agree_fixed m n "hsp_".toList "hsp_%s%lf".toList (by decide) (by decide) (by decide)
  have hs := @agree_fixed m n "hsink_".toList "hsink_%s%lf".toList (by decide) (by decide) (by decide)
  have metal := @agree_fixed m n "metal_".toList "metal_%s%lf".toList (by decide) (by decide) (by decide)
  have c4 := @agree_fixed m n "c4_".toList "c4_%s%lf".toList (by decide) (by decide) (by decide)
  have sub := @agree_fixed m n "sub_".toList "sub_%s%lf".toList (by decide) (by decide) (by decide)
  have solder := @agree_fixed m n "solder_".toList "solder_%s%lf".toList (by decide) (by decide)
    (by decide)
  have pcb := @agree_fixed m n "pcb_".toList "pcb_%s%lf".toList (by decide) (by decide) (by decide)
  have has : m.hasLcf ≠ false → m.hasLcf = true := fun h => by simpa using h
  refine agree_ite (fun primary => ?_) fun secondary => ?_
  · refine agree_ite (fun default => ?_) fun lcf => ?_
    · refine agree_ite (si default) fun notSi => ?_
      refine agree_ite (fun _ => int (.inr notSi)) fun notInt => ?_
      refine agree_ite (fun _ => sp (.inr notSi)) fun notSp => ?_
      refine agree_ite (fun _ => hs (.inr notSi)) fun notHs => ?_
      have four := layers default
      simp only [silidx, intidx, spidx, hsidx, primary, layerSi, layerInt, layerSp, layerSink,
        defaultPackLayers, Bool.false_eq_true, if_false] at notSi notInt notSp notHs four
      omega
    · refine agree_ite (fun _ => sp (.inl (has lcf))) fun _ => ?_
      exact agree_ite (fun _ => hs (.inl (has lcf))) fun _ => chip (has lcf)
  · refine agree_ite (fun default => ?_) fun lcf => ?_
    · refine agree_ite (si default) fun notSi => ?_
      refine agree_ite (fun _ => int (.inr notSi)) fun notInt => ?_
      refine agree_ite (fun _ => sp (.inr notSi)) fun notSp => ?_
      refine agree_ite (fun _ => hs (.inr notSi)) fun notHs => ?_
      refine agree_ite (fun _ => metal (.inr notSi)) fun notMetal => ?_
      refine agree_ite (fun _ => c4 (.inr notSi)) fun notC4 => ?_
      refine agree_ite (fun _ => sub (.inr notSi)) fun notSub => ?_
      refine agree_ite (fun _ => solder (.inr notSi)) fun notSolder => ?_
      refine agree_ite (fun _ => pcb (.inr notSi)) fun notPcb => ?_
      have nine := layers default
      simp only [silidx, intidx, spidx, hsidx, metalidx, c4idx, (Bool.not_eq_false _).mp secondary,
        layerSi, layerInt, layerSp, layerSink, layerMetal, layerC4, layerSub, layerSolder, layerPcb,
        secPackLayers, secChipLayers, defaultPackLayers, if_true]
        at notSi notInt notSp notHs notMetal notC4 notSub notSolder notPcb nine
      omega
    · refine agree_ite (fun _ => sp (.inl (has lcf))) fun _ => ?_
      refine agree_ite (fun _ => hs (.inl (has lcf))) fun _ => ?_
      refine agree_ite (fun _ => sub (.inl (has lcf))) fun _ => ?_
      refine agree_ite (fun _ => solder (.inl (has lcf))) fun _ => ?_
      exact agree_ite (fun _ => pcb (.inl (has lcf))) fun _ => chip (has lcf)

end GridModel

variable {K : Type} [Field K] [LinearOrder K] [IsStrictOrderedRing K]

/-! ## `sscanf` -/

section Scan

/-- What a conversion of `sscanf` gives. -/
inductive Conversion (d : Doubles K) where
  | str (t : Text)
  | num (x : Double d)

variable (d : Doubles K)

/-- `sscanf` for formats of `%s`, `%lf` and visible characters, which must match: the conversions
up to the first that fails. -/
def sscanf : Text → Text → List (Conversion d)
  | '%' :: 's' :: format, t =>
    let t := t.dropWhile isSpace
    if t = [] then []
    else .str (t.takeWhile (!isSpace ·)) :: sscanf format (t.dropWhile (!isSpace ·))
  | '%' :: 'l' :: 'f' :: format, t =>
    (Double.scan d (t.dropWhile isSpace)).elim [] fun (x, rest) => .num x :: sscanf format rest
  | c :: format, x :: t => if c = x then sscanf format t else []
  | _, _ => []

/-- `flp_populate_blks` on a line of a floorplan file: the name of the block that it describes. -/
def flpBlockName (line : Text) : Option Text :=
  match tokensBy isBlank line with
  | [] => none
  | field :: _ =>
    if field.head? = some '#' then none
    else
      match sscanf d "%s%lf%lf%lf%lf%lf%lf%lf".toList line with
      | .str name :: numbers => if numbers.length = 4 ∨ numbers.length = 6 then some name else none
      | _ => none

end Scan

namespace GridModel

variable (m : GridModel)

/-! ## Writing -/

section Write

variable [FloorRing K] {d : Doubles K}

/-- `"%s%s\t%.4f\n"`, without the newline. -/
def tempLine (key : Text) (x : Double d) : Text := key ++ '\t' :: x.fmt 4

/-- `"inode_%d"`. -/
def inode (i : ℕ) : Text := "inode_".toList ++ fmtInt i

theorem inode_eq (i : ℕ) : inode i = "inode_".toList ++ Nat.toDigits 10 i :=
  congrArg ("inode_".toList ++ ·) (fmtInt_ofNat i)

/-- The lines of the layers from number `n` on, whose temperatures start at `base`. -/
def dumpLayers (temp : ℕ → Double d) : List (List Text) → ℕ → ℕ → Exits (List Text)
  | [], _, _ => .ok []
  | units :: layers, n, base => do
      let str ← m.dumpPrefix n
      let lines ← dumpLayers temp layers (n + 1) (base + units.length)
      return units.zipIdx.map (fun (name, i) => tempLine (str ++ name) (temp (base + i))) ++ lines

/-- `dump_temp_grid`: the file. -/
def dumpTempGrid (temp : ℕ → Double d) : Exits Text := do
  let lines ← m.dumpLayers temp m.layers 0 0
  return unlines (lines ++ (List.range m.extraNodes).map fun i =>
    tempLine (inode i) (temp (m.totalNBlocks + i)))

end Write

/-! ## Reading -/

section Read

/-- The next line that is neither empty nor a comment, of at most `fuel` lines. -/
def nextEntry : ℕ → Text → Option (Text × Text)
  | 0, _ => none
  | fuel + 1, pin =>
    (fgets (lineSize - 1) pin).bind fun (line, rest) =>
      match tokensBy isBlank line with
      | [] => nextEntry fuel rest
      | field :: _ => if field.head? = some '#' then nextEntry fuel rest else some (line, rest)

variable (d : Doubles K)

/-- One entry of the file: a name, a temperature and what is left of the file. -/
def readEntry (format pin : Text) : Exits (Text × Double d × Text) :=
  match nextEntry (pin.length + 1) pin with
  | none => fatal
  | some (line, rest) =>
    match sscanf d format line with
    | [.str name, .num val] => .ok (name, val, rest)
    | _ => fatal

/-- The temperatures, the maximum of the top layer and the rest of the file. -/
structure Reading where
  temp : ℕ → Double d
  max : Double d
  pin : Text

variable {d}

/-- The next `count` lines, which belong to layer `n`. -/
def readUnits (units : List Text) (format : Text) (n base : ℕ) : ℕ → Reading d → Exits (Reading d)
  | 0, s => .ok s
  | count + 1, s => do
      let (name, val, rest) ← readEntry d format s.pin
      let idx ← getBlkIndex units name
      let temp := Function.update s.temp (base + idx) val
      let max := if n = 0 ∧ s.max.value < (temp idx).value then temp idx else s.max
      readUnits units format n base count ⟨temp, max, rest⟩

def readLayers : List (List Text) → ℕ → ℕ → Reading d → Exits (Reading d)
  | [], _, _, s => .ok s
  | units :: layers, n, base, s => do
      let format ← m.readFormat n
      let s ← readUnits units format n base units.length s
      readLayers layers (n + 1) (base + units.length) s

/-- The package nodes from number `i` on. -/
def readNodes (base : ℕ) : ℕ → ℕ → Reading d → Exits (Reading d)
  | 0, _, s => .ok s
  | count + 1, i, s => do
      let (name, val, rest) ← readEntry d "%s%lf".toList s.pin
      if foldCase (inode i) = foldCase name then
        readNodes base count (i + 1) ⟨Function.update s.temp (base + i) val, s.max, rest⟩
      else fatal

/-- What clipping needs of the configuration. -/
structure Limits (d : Doubles K) where
  thermalThreshold : Double d
  ambient : Double d

/-- Scale the temperatures down to the thermal threshold, each operation to the nearest double. -/
def clipped (limits : Limits d) (s : Reading d) : ℕ → Double d :=
  let rise := fun x : Double d => Double.ofValue d (x.value - limits.ambient.value)
  let factor := Double.ofValue d ((rise limits.thermalThreshold).value / (rise s.max).value)
  fun k =>
    if k < m.totalNBlocks + m.extraNodes then
      let scaled := Double.ofValue d ((rise (s.temp k)).value * factor.value)
      Double.ofValue d (scaled.value + limits.ambient.value)
    else s.temp k

/-- `read_temp_grid`: the temperatures after reading a file, `temp` being those before. -/
def readTempGrid (limits : Limits d) (clip : Bool) (temp : ℕ → Double d) (file : Text) :
    Exits (ℕ → Double d) := do
  let s ← m.readLayers m.layers 0 0 ⟨temp, Double.ofValue d 0, file⟩
  let s ← readNodes m.totalNBlocks m.extraNodes 0 s
  match fgets (lineSize - 1) s.pin with
  | some _ => fatal
  | none =>
    if clip ∧ limits.thermalThreshold.value < s.max.value then .ok (m.clipped limits s)
    else .ok s.temp

end Read

end GridModel

end GpuHotSpot.HotSpotTool.TempFile
