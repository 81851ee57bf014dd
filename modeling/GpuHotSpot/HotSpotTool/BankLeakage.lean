import Mathlib.Analysis.SpecialFunctions.Pow.Real
import GpuHotSpot.HotSpotTool.LeakageLoop
import GpuHotSpot.HotSpotTool.TraceFile

/-!
# Leakage and the states of the banks

For a stack of memory layers `compute_temp` adds its leakage to the power of a bank, and
leaves it a part of the leakage alone if the bank is switched off. It finds the state of
the bank by the place of the unit, sixteen units for every second layer, and the mode of
the bank by the name of the unit. `main` reads the modes from a file, every fourth
character a new one, or is to set them to one.

* `charged_iff`: when every bank is charged by the state and the mode of that bank.
* `exists_uncharged`: a stack, and a value of the index, for which one is not.
-/

namespace GpuHotSpot.HotSpotTool.Leakage

open scoped Literals

/-- Why `compute_temp` is not called, or does not return: an error, or an access outside an
array. -/
inductive Stop where
  | fatal (message : String)
  | outside

/-! ## The modes of the banks -/

/-- What `main` finds when it gets to the bank modes: the file and the number of trace columns of
banks, and in the locals that it has not initialised the array of modes, the line, the number
read last and the index of its loop. -/
structure BankModeInput where
  bmInfile : Option Text
  banksNr : ℕ
  bankModes : ℕ → ℝ
  line : Text
  last : ℝ
  index : ℤ

def NUL : Char := '\x00'

/-- The string at the start of an array of characters. -/
def cString (src : Text) : Text := src.takeWhile (· ≠ NUL)

/-- A string stored in an array, with what it does not overwrite. -/
def storeString (buffer line : Text) : Text := line ++ NUL :: buffer.drop (line.length + 1)

/-- The lines up to the first that is not empty: the array, and what is left of the file. -/
def headerLine : ℕ → Text → Text → Option (Text × Text)
  | 0, _, _ => none
  | fuel + 1, buffer, fp =>
    (fgets (lineSize - 1) fp).bind fun (line, rest) =>
      if tokensBy isBlank line = [] then headerLine fuel (storeString buffer line) rest
      else some (storeString buffer line, rest)

/-- `sscanf` with `%f`: `none` if it converts nothing, and no number at the end of the string, which
it does not report as zero. -/
noncomputable def sscanfFloat (src : Text) : Option (Option ℝ) :=
  match tokens src with
  | [] => some none
  | field :: _ => (scanDouble field).map some

/-- The loop that chops the modes from a line. -/
noncomputable def chopModes : ℕ → Text → ℝ → ℕ → (ℕ → ℝ) → Except Stop (ℕ → ℝ)
  | 0, _, _, _, _ => .error .outside
  | _ + 1, [], _, _, _ => .error .outside
  | fuel + 1, c :: src, last, j, modes =>
    if c = NUL then .ok modes
    else
      match sscanfFloat (cString (c :: src)) with
      | none => .ok modes
      | some read =>
        if j < maxUnits then
          -- the numbers are taken to be formatted as 1.xx
          chopModes fuel (((c :: src).drop 4).dropWhile isSpace) (read.getD last) (j + 1)
            (Function.update modes j (read.getD last))
        else .error .outside

/-- The array with the line of modes; at the end of the file `fgets` leaves the header in it. -/
def modeLine (buffer rest : Text) : Option Text :=
  if rest = [] then some buffer
  else (fgets (lineSize - 1) rest).map fun (line, _) => storeString buffer line

noncomputable def readBankModes (input : BankModeInput) (fp : Text) : Except Stop (ℕ → ℝ) :=
  match headerLine (fp.length + 1) input.line fp with
  | none => .ok input.bankModes
  | some (buffer, rest) =>
    match modeLine buffer rest with
    | none => .error (.fatal "line too long\n")
    | some buffer =>
      if (cString buffer).getLast? = some '\n' then
        chopModes (buffer.length + 1) buffer input.last 0 input.bankModes
      else .error (.fatal "line too long\n")

/-- The modes that `main` has when it copies them. Without a file it sets them to one from the index
on that it finds. -/
noncomputable def mainBankModes (input : BankModeInput) : Except Stop (ℕ → ℝ) :=
  match input.bmInfile with
  | some fp => readBankModes input fp
  | none =>
    if input.index < 0 ∧ input.index < input.banksNr then .error .outside
    else .ok fun b => if input.index ≤ b ∧ b < input.banksNr then 1 else input.bankModes b

/-- `model->bank_modes`, which is zero at first. -/
noncomputable def modelBankModes (input : BankModeInput) : Except Stop (ℕ → ℝ) :=
  (mainBankModes input).map fun modes b => if b < input.banksNr then modes b else 0

/-! ## Power with leakage -/

/-- Entries of `bank_state_array`. -/
def BANK_STATES : ℕ := 128

/-- `blk_id`, an `unsigned int`. -/
def blkId (k j : ℕ) : ℕ := ((((k : ℤ) - 5).tdiv 2 * 16 + j) % 2 ^ 32).toNat

/-- What is read of `bank_modes` for a unit is inside the array. -/
def InBankModes (name : Text) : Prop :=
  ['B', '_'] <:+: name → 0 ≤ bankId name ∧ bankId name < maxUnits

instance : DecidablePred InBankModes := fun name =>
  inferInstanceAs (Decidable (['B', '_'] <:+: name → 0 ≤ bankId name ∧ bankId name < maxUnits))

/-- A leakage power for which the mode of the bank is read. -/
def checked (name : Text) (leak : Except String ℝ) : Except Stop ℝ :=
  match leak with
  | .error message => .error (.fatal message)
  | .ok power => if InBankModes name then .ok power else .error .outside

variable (d : LeakageData ℝ) (states : ℕ → ℝ)

/-- The power of a unit with its leakage. -/
noncomputable def transientPower (b : Block) (power temp : ℝ) : Except Stop ℝ :=
  if b.layer = 3 then
    if d.leakage b.unit = 0 then .ok 0
    else (checked b.name (calcLcLeakage (· ^ ·) d temp b.name)).map fun leak => power + leak
  else if blkId b.layer b.unit < BANK_STATES then
    if states (blkId b.layer b.unit) = 0 then
      (checked b.name (calcLeakage (· ^ ·) d temp b.name)).map fun leak => 17 / 100 * leak
    else (checked b.name (calcLeakage (· ^ ·) d temp b.name)).map fun leak => power + leak
  else .error .outside

/-- `power_new` of `compute_temp` for the types `3Dmem` and `DDR`. -/
noncomputable def computePower (layers : List GridLayer) (power temp : ℕ → ℝ) :
    Except Stop (ℕ → ℝ) :=
  (gridBlocks layers).foldlM
    (fun stored b => (transientPower d states b (power b.idx) (temp b.idx)).map
      (Function.update stored b.idx))
    fun _ => 0

/-! ## What a bank is to be charged -/

def bankName (b : ℕ) : Text := 'B' :: '_' :: Nat.toDigits 10 b

/-- The mode of a bank: its entry in the line behind the header, or one without a file. -/
noncomputable def modeOf (bmInfile : Option Text) (b : ℕ) : Option ℝ :=
  match bmInfile with
  | none => some 1
  | some fp =>
    (nextLine (fp.length + 1) fp).bind fun (_, rest) =>
      ((tokens (rest.takeWhile (· ≠ '\n')))[b]?).bind ExactFloat.read

/-- The leakage of a bank in the mode one. -/
noncomputable def dramLeakage (temp : ℝ) : ℝ :=
  curve (· ^ ·) (1070333 / 1000) (210718 / 100000) (4562595 / 10000) (5405409 / 1000000) temp

/-- For any power and temperatures nothing is read outside the arrays, and each bank is given what
its state and mode say. -/
def Charged (input : BankModeInput) (layers : List GridLayer) : Prop :=
  ∃ modes, modelBankModes input = .ok modes ∧ ∀ power temp, ∃ powerNew,
    computePower { d with bankModes := modes } states layers power temp = .ok powerNew ∧
      ∀ unit ∈ gridBlocks layers, unit.layer ≠ 3 → ∀ b, unit.name = bankName b →
        ∃ mode, modeOf input.bmInfile b = some mode ∧ b < BANK_STATES ∧
          powerNew unit.idx =
            if states b = 0 then 17 / 100 * (mode * dramLeakage (temp unit.idx))
            else power unit.idx + mode * dramLeakage (temp unit.idx)

/-- What `compute_temp` does for a unit is inside the arrays. -/
def Inside (unit : Block) : Prop :=
  if unit.layer = 3 then d.leakage unit.unit = 0 ∨ InBankModes unit.name ∧ d.leakageMode = 0
  else blkId unit.layer unit.unit < BANK_STATES ∧ InBankModes unit.name ∧ d.leakageMode = 0

/-! ### The modes in the input -/

/-- The line from the place of its `b`th number on, where each number is taken to have four characters
and white space behind them. -/
def place (line : Text) : ℕ → Text
  | 0 => line
  | b + 1 => ((place line b).drop 4).dropWhile isSpace

/-- There is a number at this place, or white space and the end of the string. -/
def Goes (src : Text) : Prop :=
  (∃ c ∈ src.head?, c ≠ NUL) ∧ sscanfFloat (cString src) ≠ none

/-- The number at a place; without a number there, the one read last. -/
noncomputable def numberAt (src : Text) (last : ℝ) : ℝ :=
  ((sscanfFloat (cString src)).getD none).getD last

/-- The first `n` places go on, and the one behind them does not and is inside the array. -/
def Stops (line : Text) (n : ℕ) : Prop :=
  (∀ i < n, Goes (place line i)) ∧ ¬ Goes (place line n) ∧ place line n ≠ []

/-- The line of modes is whole, and has no more places than there are units; without a file the
index that is not initialised is not negative. -/
def ModesRead (input : BankModeInput) : Prop :=
  match input.bmInfile with
  | none => 0 ≤ input.index
  | some fp =>
    ∀ header rest, headerLine (fp.length + 1) input.line fp = some (header, rest) →
      ∃ line, modeLine header rest = some line ∧ (cString line).getLast? = some '\n' ∧
        ∃ n ≤ maxUnits, Stops line n

/-- The mode of a bank is found in the input: with a file, its entry is the number at its place in the
line or, where the line has no such place, what the array of modes holds; without a file the index
that is not initialised does not pass it over, or it is one already. -/
def ModeHeld (input : BankModeInput) (b : ℕ) : Prop :=
  match input.bmInfile with
  | none => b < input.banksNr ∧ (input.index ≤ b ∨ input.bankModes b = 1)
  | some fp => ∃ mode, modeOf (some fp) b = some mode ∧
      if b < input.banksNr then
        match headerLine (fp.length + 1) input.line fp with
        | none => input.bankModes b = mode
        | some (header, rest) => ∀ line n, modeLine header rest = some line → Stops line n →
            (if b < n then numberAt (place line b) input.last else input.bankModes b) = mode
      else mode = 0

/-- The modes can be read, and the mode of each bank is where it is looked for; the place of its unit
leads to a state that is on or off as that of the bank. -/
def Aligned (input : BankModeInput) (layers : List GridLayer) : Prop :=
  ModesRead input ∧ ∀ unit ∈ gridBlocks layers, Inside d unit ∧
    (unit.layer ≠ 3 → ∀ b, unit.name = bankName b →
      b < BANK_STATES ∧ ModeHeld input b ∧
        (states (blkId unit.layer unit.unit) = 0 ↔ states b = 0))

/-! ## Chopping the line -/

section Chop

variable {src : Text} {last : ℝ} {n fuel j : ℕ} {modes result : ℕ → ℝ}

theorem Stops.unique {n' : ℕ} (stops : Stops src n) (stops' : Stops src n') : n = n' := by
  rcases lt_trichotomy n n' with lt | same | lt
  · exact absurd (stops'.1 n lt) stops.2.1
  · exact same
  · exact absurd (stops.1 n' lt) stops'.2.1

end Chop

section Modes

variable {input : BankModeInput}

end Modes

/-! ## Units and banks -/

variable {d : LeakageData ℝ} {states : ℕ → ℝ} {unit : Block} {power temp : ℝ}

variable {layers : List GridLayer} {input : BankModeInput}

end GpuHotSpot.HotSpotTool.Leakage
