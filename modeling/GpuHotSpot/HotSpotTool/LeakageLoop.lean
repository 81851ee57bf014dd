import GpuHotSpot.HotSpotTool.BlockSteadyState
import GpuHotSpot.Lib.Largest
import GpuHotSpot.Lib.Numeral

/-!
# The leakage loop

Leakage power depends on the temperature. `steady_state_temp` adds the leakage at the
temperatures it has, solves for the steady state, and repeats this until the
temperatures converge. It takes the largest increase of a block for the largest change:
a pass in which blocks cool down ends the loop.

* `leakageLoop_ok`: what holds when the loop ends.
* `leakageLoop_consistent_iff`: when the returned temperatures belong to the leakage.
* `exists_inconsistent`: a loop that ends although a block cools down.
-/

namespace GpuHotSpot.HotSpotTool.Leakage

open scoped Literals

variable {K : Type} [Field K] [LinearOrder K]

def LEAK_TOL : K := 1 / 100
def TEMP_HIGH : K := 500
def LEAKAGE_MAX_ITER : ℕ := 100

/-! ## Leakage power -/

/-- What scales the leakage: the modes of the memory banks, and per unit whether it leaks and its
voltage. -/
structure LeakageData (K : Type) where
  leakageMode : ℕ
  bankModes : ℕ → K
  leakage : ℕ → ℤ
  volt : ℕ → ℤ

/-- `strtol` with base 10. -/
def strtol (t : Text) : ℤ :=
  match t.dropWhile isSpace with
  | '-' :: t => -(valueIn 10 (t.takeWhile (isDigitIn 10)) : ℤ)
  | '+' :: t => valueIn 10 (t.takeWhile (isDigitIn 10))
  | t => valueIn 10 (t.takeWhile (isDigitIn 10))

/-- A leakage curve in watts: from `low` at absolute zero up to `high` milliwatts. -/
def curve (pow : K → K → K) (high low middle steepness temp : K) : K :=
  1 * ((high + (low - high) / (1 + pow (temp / middle) steepness)) / 1000)

/-- `bank_id`: a `long`, stored in an `int`. -/
def bankId (name : Text) : ℤ :=
  Int.bmod (max (-2 ^ 63) (min (2 ^ 63 - 1) (strtol (name.drop 2)))) (2 ^ 32)

/-- The leakage of a memory bank is scaled by its mode. -/
def bankLeakage (d : LeakageData K) (name : Text) (power : K) : K :=
  if ['B', '_'] <:+: name then power * d.bankModes (bankId name).toNat else power

variable (pow : K → K → K) (d : LeakageData K)

/-- HotLeakage is not implemented. -/
def notImplemented : String :=
  "HotLeakage currently is not implemented in this release of HotSpot, please check back later.\n"

def calcLeakage (temp : K) (name : Text) : Except String K :=
  if d.leakageMode ≠ 0 then .error notImplemented
  else .ok (bankLeakage d name
    (curve pow (1070333 / 1000) (210718 / 100000) (4562595 / 10000) (5405409 / 1000000) temp))

def calcLcLeakage (temp : K) (name : Text) : Except String K :=
  if d.leakageMode ≠ 0 then .error notImplemented
  else .ok (bankLeakage d name
    (curve pow (5482052 / 1000) (1402015 / 10000) (4406993 / 10000) (1657078 / 100000) temp))

def calcCoreLeakage (temp : K) : Except String K :=
  if d.leakageMode ≠ 0 then .error notImplemented
  else .ok (curve pow (9447469 / 1000) (643729 / 1000) (3732385 / 10000) (4337272 / 100000) temp)

/-! ## Blocks -/

/-- A block that dissipates power: its index in the vectors, its layer, its number in the layer and
its name. -/
structure Block where
  idx : ℕ
  layer : ℕ
  unit : ℕ
  name : Text

/-- The architectures that `steady_state_temp` knows. -/
inductive Arch where
  | mem3D
  | ddr
  | core
  | arch3D
  | arch2_5D
  deriving DecidableEq

def coreLeakage (b : Block) (power temp : K) : Except String K :=
  (calcCoreLeakage pow d temp).map fun leak => power + (d.volt b.unit : K) / 10 * leak

/-- The power of a unit with its leakage, or nothing for a unit that is switched off. -/
def unlessOff (off : Bool) (power : K) (leak : Except String K) : Except String K :=
  if off then .ok 0 else leak.map fun leak => power + leak

/-- What is added to the power of a block, by architecture, layer and unit. -/
def powerNew (b : Block) (power temp : K) : Arch → Except String K
  | .mem3D | .ddr =>
    unlessOff (d.leakage b.unit = 0) power
      (if b.layer = 3 then calcLcLeakage pow d temp b.name else calcLeakage pow d temp b.name)
  | .core => if d.leakage b.unit = 0 then .ok 0 else coreLeakage pow d b power temp
  | .arch3D =>
    if b.layer = 19 then coreLeakage pow d b power temp
    else unlessOff (d.leakage b.unit = 0) power (calcLeakage pow d temp b.name)
  | .arch2_5D =>
    if b.layer = 5 then
      -- the interposer has air between the host cores and the memory
      if b.unit = 22 ∨ b.unit = 21 ∨ b.unit = 20 then .ok 0
      else if b.unit ≤ 3 then coreLeakage pow d b power temp
      else unlessOff (d.leakage (b.unit - 4) = 0) power (calcLcLeakage pow d temp b.name)
    else if b.unit = 19 ∨ b.unit = 18 ∨ b.unit = 17 ∨ b.unit = 16 then .ok 0
    else unlessOff (d.leakage b.unit = 0) power (calcLeakage pow d temp b.name)

/-! ## Models -/

/-- A layer of a grid model with the names of its units. -/
structure GridLayer where
  hasPower : Bool
  units : List Text

/-- A thermal model as the loop sees it. The grid solver starts from heuristic temperatures, so that
it is a function of the power. -/
inductive RCModel (K : Type)
  | block (model : Block.BlockModel K) (names : List Text)
  | grid (type : Option Arch) (layers : List GridLayer)
    (steadyStateTempGrid : (ℕ → K) → Except String (ℕ → K))

/-- The blocks of the layers that have power. The blocks of all layers are counted. -/
def gridBlocks (layers : List GridLayer) : List Block :=
  layers.zipIdx.flatMap fun (layer, k) =>
    if layer.hasPower then
      layer.units.zipIdx.map fun (name, j) =>
        ⟨((layers.take k).map fun layer => layer.units.length).sum + j, k, j, name⟩
    else []

namespace RCModel

def blocks : RCModel K → List Block
  | .block _ names => names.zipIdx.map fun (name, i) => ⟨i, 0, i, name⟩
  | .grid _ layers _ => gridBlocks layers

/-- The blocks that are given leakage: none in an architecture that is not known. -/
def leaking : RCModel K → List Block
  | .grid none _ _ => []
  | model => model.blocks

def blockPower (model : RCModel K) (b : Block) (power temp : K) : Except String K :=
  match model with
  | .block _ _ => (calcLeakage pow d temp b.name).map fun leak => power + leak
  | .grid type _ _ => (type.map (powerNew pow d b power temp)).getD (.ok 0)

def solve : RCModel K → (ℕ → K) → Except String (ℕ → K)
  | .block model _, power => .ok (Block.steadyStateTempBlock model power)
  | .grid _ _ steadyStateTempGrid, power => steadyStateTempGrid power

/-- The pass from which on temperatures that rise too fast are an error. -/
def patience : RCModel K → ℕ
  | .block _ _ => 1
  | .grid _ _ _ => 0

/-! ## The loop -/

/-- `power_new`, zero where nothing is stored. -/
def assemble (model : RCModel K) (power temp : ℕ → K) : Except String (ℕ → K) :=
  model.leaking.foldlM
    (fun stored b => (model.blockPower pow d b (power b.idx) (temp b.idx)).map
      (Function.update stored b.idx))
    fun _ => 0

/-- One pass: the temperatures with the leakage at `temp`. -/
def pass (model : RCModel K) (power temp : ℕ → K) : Except String (ℕ → K) :=
  model.assemble pow d power temp >>= model.solve

/-- `temp_old`, zero where nothing is stored. -/
def tempOld (model : RCModel K) (temp : ℕ → K) : ℕ → K :=
  fun i => if i ∈ model.leaking.map (·.idx) then temp i else 0

/-- `d_max`, the largest increase. -/
def dMax (model : RCModel K) (old temp : ℕ → K) : K :=
  (model.blocks.map fun b => temp b.idx - old b.idx).foldl max 0

/-- What `steady_state_temp` leaves in `temp`, and in `temp_old`. -/
structure Steady (K : Type) where
  temp : ℕ → K
  old : ℕ → K

/-- The loop with the number of passes left. -/
def leakageLoop (model : RCModel K) (power : ℕ → K) : ℕ → ℕ → (ℕ → K) → Except String (Steady K)
  | 0, _, _ =>
    .error "too many iterations before temperature-leakage convergence -- possible thermal runaway\n"
  | left + 1, leakIter, temp => do
      let old := model.tempOld temp
      let temp ← model.pass pow d power temp
      if model.dMax old temp < LEAK_TOL then return ⟨temp, old⟩
      else if TEMP_HIGH < model.dMax old temp ∧ model.patience < leakIter then
        throw ("temperature is too high, possible thermal runaway. " ++
          "Double-check power inputs and package settings.\n")
      else leakageLoop model power left (leakIter + 1) temp

/-- `steady_state_temp` with `leakage_used`. -/
def steadyStateTemp (model : RCModel K) (power temp : ℕ → K) : Except String (Steady K) :=
  model.leakageLoop pow d power (LEAKAGE_MAX_ITER + 1) 0 temp

/-! ## When the loop ends -/

/-- Every block is within `LEAK_TOL`, either way, of the temperature that its leakage belongs to. -/
def Consistent (model : RCModel K) (r : Steady K) : Prop :=
  ∀ b ∈ model.blocks, |r.temp b.idx - r.old b.idx| < LEAK_TOL

/-- A pass from these temperatures ends the loop. -/
def Ends (model : RCModel K) (power temp : ℕ → K) : Prop :=
  ∀ steady, model.pass pow d power temp = .ok steady →
    ∀ b ∈ model.blocks, steady b.idx - model.tempOld temp b.idx < LEAK_TOL

/-- A pass from these temperatures cools some block by `LEAK_TOL` or more. -/
def Cools (model : RCModel K) (power temp : ℕ → K) : Prop :=
  ∃ steady, model.pass pow d power temp = .ok steady ∧
    ∃ b ∈ model.blocks, steady b.idx ≤ model.tempOld temp b.idx - LEAK_TOL

/-- The temperatures before the passes of a run, of which all but the last heat up some block. -/
inductive Reached (model : RCModel K) (power : ℕ → K) : (ℕ → K) → (ℕ → K) → Prop
  | start {temp : ℕ → K} : Reached model power temp temp
  | pass {temp steady t : ℕ → K} (step : model.pass pow d power temp = .ok steady)
      (goes : ¬model.Ends pow d power temp) (rest : Reached model power steady t) :
      Reached model power temp t

variable {pow d} {model : RCModel K} {power temp : ℕ → K} {r : Steady K}

theorem dMax_lt_iff [IsStrictOrderedRing K] {old temp : ℕ → K} :
    model.dMax old temp < LEAK_TOL ↔ ∀ b ∈ model.blocks, temp b.idx - old b.idx < LEAK_TOL := by
  rw [dMax, foldl_max_lt_iff, List.forall_mem_map]
  exact and_iff_right (by norm_num [LEAK_TOL])

/-- A pass looks at the temperatures of the leaking blocks only. -/
theorem pass_congr {temp' : ℕ → K} (same : ∀ b ∈ model.leaking, temp b.idx = temp' b.idx) :
    model.pass pow d power temp = model.pass pow d power temp' := by
  have each : ∀ (blocks : List Block) (stored : ℕ → K),
      (∀ b ∈ blocks, temp b.idx = temp' b.idx) →
      blocks.foldlM (fun stored b => (model.blockPower pow d b (power b.idx) (temp b.idx)).map
        (Function.update stored b.idx)) stored =
      blocks.foldlM (fun stored b => (model.blockPower pow d b (power b.idx) (temp' b.idx)).map
        (Function.update stored b.idx)) stored := by
    intro blocks
    induction blocks with
    | nil => exact fun _ _ => rfl
    | cons b blocks ih =>
      intro stored equal
      rw [List.foldlM_cons, List.foldlM_cons, equal b (by simp)]
      exact bind_congr fun next => ih next fun b member => equal b (by simp [member])
  rw [pass, pass, assemble, assemble, each _ _ same]

theorem pass_tempOld (temp : ℕ → K) :
    model.pass pow d power (model.tempOld temp) = model.pass pow d power temp :=
  pass_congr fun _ member => if_pos (List.mem_map_of_mem member)

/-- A pass of the loop that is not an error ends it or goes on from the new temperatures. -/
theorem leakageLoop_succ [IsStrictOrderedRing K] {left leakIter : ℕ}
    (ran : model.leakageLoop pow d power (left + 1) leakIter temp = .ok r) :
    ∃ steady, model.pass pow d power temp = .ok steady ∧
      (model.Ends pow d power temp ∧ r = ⟨steady, model.tempOld temp⟩ ∨
        ¬model.Ends pow d power temp ∧
          model.leakageLoop pow d power left (leakIter + 1) steady = .ok r) := by
  rw [leakageLoop] at ran
  cases step : model.pass pow d power temp with
  | error message =>
    rw [step] at ran
    cases ran
  | ok steady =>
    have ends : model.Ends pow d power temp ↔ model.dMax (model.tempOld temp) steady < LEAK_TOL :=
      ⟨fun ends => dMax_lt_iff.2 (ends steady step), fun small other again => by
        obtain rfl : steady = other := Except.ok.inj (step.symm.trans again)
        exact dMax_lt_iff.1 small⟩
    simp only [step, bind, Except.bind] at ran
    split_ifs at ran with converged runaway
    · cases ran
      exact ⟨steady, rfl, .inl ⟨ends.mpr converged, rfl⟩⟩
    · exact ⟨steady, rfl, .inr ⟨fun small => converged (ends.mp small), ran⟩⟩

/-- **What `steady_state_temp` returns**: the temperatures of the last pass, which raised no block
by `LEAK_TOL` or more. -/
theorem leakageLoop_ok [IsStrictOrderedRing K] {left leakIter : ℕ}
    (ran : model.leakageLoop pow d power left leakIter temp = .ok r) :
    model.pass pow d power r.old = .ok r.temp ∧
      ∀ b ∈ model.blocks, r.temp b.idx - r.old b.idx < LEAK_TOL := by
  induction left generalizing leakIter temp with
  | zero => cases ran
  | succ left ih =>
    obtain ⟨steady, step, ⟨ends, rfl⟩ | ⟨-, rest⟩⟩ := leakageLoop_succ ran
    · exact ⟨(pass_tempOld temp).trans step, ends steady step⟩
    · exact ih rest

/-- The last pass decides. -/
theorem consistent_last [IsStrictOrderedRing K] {steady : ℕ → K}
    (step : model.pass pow d power temp = .ok steady) (ends : model.Ends pow d power temp) :
    model.Consistent ⟨steady, model.tempOld temp⟩ ↔ ¬model.Cools pow d power temp := by
  constructor
  · rintro consistent ⟨other, again, b, member, cooler⟩
    obtain rfl : steady = other := Except.ok.inj (step.symm.trans again)
    have close := (abs_lt.mp (consistent b member)).1
    dsimp only at close
    linarith
  · intro warm b member
    refine abs_lt.mpr ⟨?_, ends steady step b member⟩
    by_contra! cooler
    exact warm ⟨steady, step, b, member, by dsimp only at cooler; linarith⟩

/-- The returned temperatures belong to the leakage that was added exactly if the pass that ends the
loop cools no block by `LEAK_TOL` or more. -/
theorem leakageLoop_consistent_iff [IsStrictOrderedRing K] {left leakIter : ℕ}
    (ran : model.leakageLoop pow d power left leakIter temp = .ok r) :
    model.Consistent r ↔ ∀ t, model.Reached pow d power temp t → model.Ends pow d power t →
      ¬model.Cools pow d power t := by
  induction left generalizing leakIter temp with
  | zero => cases ran
  | succ left ih =>
    obtain ⟨steady, step, ⟨ends, rfl⟩ | ⟨goes, rest⟩⟩ := leakageLoop_succ ran
    · rw [consistent_last step ends]
      constructor
      · intro warm t reached _
        cases reached with
        | start => exact warm
        | pass _ goes _ => exact absurd ends goes
      · exact fun all => all temp .start ends
    · rw [ih rest]
      constructor
      · intro all t reached ends
        cases reached with
        | start => exact absurd ends goes
        | pass again _ reached =>
          obtain rfl := Except.ok.inj (step.symm.trans again)
          exact all t reached ends
      · exact fun all t reached => all t (.pass step goes reached)

/-! ## A bank that is switched off -/

/-- All banks are switched off. -/
def banksOff : LeakageData ℚ where
  leakageMode := 0
  bankModes := fun _ => 0
  leakage := fun _ => 0
  volt := fun _ => 0

/-- A model of one memory bank. -/
def oneBank (model : Block.BlockModel ℚ) : RCModel ℚ :=
  .block model [['B', '_', '0']]

section BanksOff

variable {pow : ℚ → ℚ → ℚ} {model : Block.BlockModel ℚ}

@[simp] theorem oneBank_blocks : (oneBank model).blocks = [⟨0, 0, 0, ['B', '_', '0']⟩] := rfl

@[simp] theorem oneBank_leaking : (oneBank model).leaking = [⟨0, 0, 0, ['B', '_', '0']⟩] := rfl

theorem calcLeakage_banksOff (temp : ℚ) :
    calcLeakage pow banksOff temp ['B', '_', '0'] = .ok 0 := by
  have bank : ['B', '_'] <:+: ['B', '_', '0'] := by decide
  rw [calcLeakage, if_neg (by simp [banksOff]), bankLeakage, if_pos bank]
  simp [banksOff]

/-- The leakage of the bank is zero at any temperature. -/
theorem pass_banksOff (temp : ℕ → ℚ) :
    (oneBank model).pass pow banksOff 0 temp = .ok (Block.steadyStateTempBlock model 0) := by
  have stored : (oneBank model).assemble pow banksOff 0 temp =
      .ok 0 := by
    rw [assemble, oneBank_leaking, List.foldlM_cons]
    simp only [List.foldlM_nil, oneBank, blockPower, calcLeakage_banksOff]
    exact congrArg Except.ok (funext fun i => by simp [Function.update_apply])
  rw [pass, stored]
  rfl

/-- From 350 kelvins the loop ends after one pass, whose temperatures are those of ambient. -/
theorem steadyStateTemp_banksOff (pow : ℚ → ℚ → ℚ)
    (populated : Block.populateRModelBlock (Block.plainConfig 1 2 3 1) Block.plainDie = .ok model) :
    ∃ r, (oneBank model).steadyStateTemp pow banksOff 0
        (fun _ => 350) = .ok r ∧ r.temp 0 = 300 ∧ r.old 0 = 350 := by
  have cooled : Block.steadyStateTempBlock model 0 0 = 300 :=
    Block.steadyStateTempBlock_off Block.plainDie_sound populated (fun _ _ => rfl) 0 (by decide)
  have ends : (oneBank model).dMax
      ((oneBank model).tempOld fun _ => 350)
      (Block.steadyStateTempBlock model 0) < LEAK_TOL := by
    refine dMax_lt_iff.2 fun b member => ?_
    obtain rfl : b = ⟨0, 0, 0, ['B', '_', '0']⟩ := by simpa using member
    norm_num [cooled, tempOld, LEAK_TOL]
  refine ⟨⟨Block.steadyStateTempBlock model 0, (oneBank model).tempOld fun _ => 350⟩, ?_,
    cooled, by simp [tempOld]⟩
  rw [steadyStateTemp, leakageLoop, pass_banksOff]
  exact if_pos ends

theorem not_consistent_banksOff {r : Steady ℚ} (ambient : r.temp 0 = 300) (hot : r.old 0 = 350) :
    ¬(oneBank model).Consistent r := by
  intro consistent
  have close := consistent ⟨0, 0, 0, ['B', '_', '0']⟩ (by simp)
  norm_num [ambient, hot, LEAK_TOL] at close

end BanksOff

/-- **A hot start.** A bank of 350 kelvins that is switched off: what is returned is 300 kelvins,
with the leakage at 350. -/
theorem exists_inconsistent :
    ∃ model, Block.populateRModelBlock (Block.plainConfig 1 2 3 1) Block.plainDie = .ok model ∧
      ∀ pow, ∃ r, (oneBank model).steadyStateTemp pow banksOff 0
          (fun _ => 350) = .ok r ∧
        ¬(oneBank model).Consistent r := by
  obtain ⟨model, populated⟩ :=
    Block.exists_populated Block.plainDie_sound Block.plainDie_conductive
  refine ⟨model, populated, fun pow => ?_⟩
  obtain ⟨r, ran, ambient, hot⟩ := steadyStateTemp_banksOff pow populated
  exact ⟨r, ran, not_consistent_banksOff ambient hot⟩

end RCModel

end GpuHotSpot.HotSpotTool.Leakage
