import GpuHotSpot.HotSpotTool.Columns

/-!
# HotSpot's command line

`parse_cmdline`, `get_str_index` and `global_config_from_strs` turn the argument
vector into a table of option names and values and the table into the global
configuration; `main` then reads the supply voltages out of `volt_vector` by
position. What `main` does to `volt` is kept here as the list of its assignments.

* `fieldWrites_append`: the assignment that the last comma of a vector causes.
-/

namespace GpuHotSpot.HotSpotTool

/-! ## Options -/

def maxEntries : ℕ := 512

/-- What stands for the name of a file that was not given. -/
def nullFile : Text := "(null)".toList

/-- `strncpy` into a buffer of `strSize` characters. -/
def strField (t : Text) : Text := t.take (strSize - 1)

/-- `parse_cmdline` of `argv[1..]`, with room for `entries` options. -/
def parseCmdline : ℕ → List Text → Exits (List (Text × Text))
  | 0, _ => .ok []
  | _, [] => .ok []
  | _ + 1, [name] => if name.head? = some '-' then .ok [] else fatal
  | entries + 1, name :: value :: rest =>
    if name.head? = some '-' then
      (parseCmdline entries rest).map ((strField name.tail, strField value) :: ·)
    else fatal

/-- The value at `get_str_index`. -/
def getStr (table : List (Text × Text)) (name : Text) : Option Text :=
  (table.find? fun entry => foldCase name = foldCase entry.1).map Prod.snd

/-- `sscanf("%s")`: the first word, if there is one. -/
def scanWord (t : Text) : Option Text :=
  let word := (t.dropWhile isSpace).takeWhile fun c => !isSpace c
  if word = [] then none else some word

/-- One option of `global_config_from_strs`: its first word, or what is done without it. -/
def strOption (table : List (Text × Text)) (name : Text) (missing : Exits Text) : Exits Text :=
  match getStr table name with
  | none => missing
  | some value =>
    match scanWord value with
    | none => fatal
    | some word => .ok word

/-- `global_config_t`, with the vectors `global_config_from_strs` fills beside it. -/
structure GlobalConfig where
  pInfile : Text
  pTotOutfile : Text
  tOutfile : Text
  config : Text
  dumpConfig : Text
  detailed3D : Text
  leakageVector : Text
  voltVector : Text
  bmInfile : Text

/-- `global_config_from_strs`. -/
def globalConfigFromStrs (table : List (Text × Text)) : Exits GlobalConfig :=
  if getStr table "grid_layer_file".toList = none then fatal
  else do
    let pInfile ← strOption table "p".toList fatal
    let pTotOutfile ← strOption table "pTot".toList (.ok nullFile)
    let tOutfile ← strOption table "o".toList (.ok nullFile)
    let config ← strOption table "c".toList (.ok nullFile)
    let dumpConfig ← strOption table "d".toList (.ok nullFile)
    let detailed3D ← strOption table "detailed_3D".toList (.ok "off".toList)
    let leakageVector ← strOption table "l".toList (.ok [])
    let voltVector ← strOption table "v".toList (.ok [])
    let bmInfile ← strOption table "bm".toList (.ok nullFile)
    return { pInfile, pTotOutfile, tOutfile, config, dumpConfig, detailed3D, leakageVector,
             voltVector, bmInfile }

/-- `main` up to its global configuration; a wrong number of arguments makes it show its usage
and return 1. -/
def globalConfig (argv : List Text) : Exits GlobalConfig :=
  if 5 ≤ argv.length ∧ argv.length % 2 = 1 then
    (parseCmdline maxEntries argv.tail).bind globalConfigFromStrs
  else .error 1

/-! ## Supply voltages -/

/-- An assignment to an entry of `volt`. -/
abbrev VoltWrite := ℕ × UInt32

/-- `c - '0'`. -/
def charDigit (t : Text) (i : ℕ) : UInt32 := UInt32.ofNat (t.getD i '0').toNat - 48

/-- `10 * (volt_vector[i-2] - '0') + (volt_vector[i] - '0')`. -/
def voltAt (t : Text) (i : ℕ) : UInt32 := 10 * charDigit t (i - 2) + charDigit t i

/-- The loop that sets the first entries to their default. -/
def defaultWrites : List VoltWrite := (List.range 4).map fun i => (i, 10)

/-- The loop over the characters of `volt_vector`. -/
def fieldWrites (voltVector : Text) : List VoltWrite :=
  (List.range voltVector.length).filterMap fun i =>
    if i = 2 then some (0, voltAt voltVector 2)
    else if i > 2 ∧ voltVector[i - 3]? = some ',' then some (i / 4, voltAt voltVector i)
    else none

/-- All that `main` assigns to `volt`. -/
def voltWrites (voltVector : Text) : List VoltWrite := defaultWrites ++ fieldWrites voltVector

/-- The array after assignments to a static array of zeros. -/
def storeVolt (writes : List VoltWrite) : ℕ → UInt32 :=
  writes.foldl (fun volt w => Function.update volt w.1 w.2) fun _ => 0

/-! ## What the command line comes to -/

/-- The arguments that spell out a list of options. -/
def optionArgs (options : List (Text × Text)) : List Text :=
  options.flatMap fun option => ['-' :: option.1, option.2]

/-- The table of a list of options. -/
def optionTable (options : List (Text × Text)) : List (Text × Text) :=
  options.map fun option => (strField option.1, strField option.2)

/-- Options are tabulated in order, as long as there is room. -/
theorem parseCmdline_optionArgs {entries : ℕ} {options : List (Text × Text)}
    (room : options.length ≤ entries) :
    parseCmdline entries (optionArgs options) = .ok (optionTable options) := by
  induction options generalizing entries with
  | nil => cases entries <;> rfl
  | cons option rest ih =>
    obtain ⟨entries, rfl⟩ := Nat.exists_eq_add_of_le' (show 1 ≤ entries by
      rw [List.length_cons] at room
      omega)
    have tail := ih (show rest.length ≤ entries by simpa using room)
    rw [optionArgs] at tail
    rw [optionArgs, List.flatMap_cons, List.cons_append, List.cons_append, List.nil_append,
      parseCmdline, if_pos (by rfl), tail]
    rfl

theorem length_optionArgs (options : List (Text × Text)) :
    (optionArgs options).length = 2 * options.length := by
  simp [optionArgs, mul_comm]

/-- With some, but no more options than there is room for, `main` reads its configuration from
their table. -/
theorem globalConfig_optionArgs {executable : Text} {options : List (Text × Text)}
    (enough : 2 ≤ options.length) (room : options.length ≤ maxEntries) :
    globalConfig (executable :: optionArgs options) = globalConfigFromStrs (optionTable options) := by
  have length := length_optionArgs options
  rw [globalConfig, if_pos, List.tail_cons, parseCmdline_optionArgs room]
  · rfl
  · rw [List.length_cons, length]
    omega

/-- A word is scanned whole. -/
theorem scanWord_token {t : Text} (token : Token t) : scanWord t = some t := by
  obtain ⟨c, cs, rfl⟩ := List.exists_cons_of_ne_nil token.ne_nil
  have visible := token.noSpace c (by simp)
  rw [scanWord, List.dropWhile_cons_of_neg (by simp [visible]), List.takeWhile_eq_self_iff.mpr]
  · rfl
  · exact fun d member => by simp [token.noSpace d member]

/-- An option that is given is its first word. -/
theorem strOption_eq_ok {table : List (Text × Text)} {name value word : Text} {missing : Exits Text}
    (found : getStr table name = some value) (scanned : scanWord value = some word) :
    strOption table name missing = .ok word := by
  simp only [strOption, found, scanned]

theorem strOption_missing {table : List (Text × Text)} {name : Text} {missing : Exits Text}
    (absent : getStr table name = none) : strOption table name missing = missing := by
  simp only [strOption, absent]

/-- The voltages of an accepted configuration are those of the option. -/
theorem voltVector_of_accepted {table : List (Text × Text)} {config : GlobalConfig}
    (accepted : globalConfigFromStrs table = .ok config) :
    strOption table "v".toList (.ok []) = .ok config.voltVector := by
  rw [globalConfigFromStrs] at accepted
  split_ifs at accepted
  · cases accepted
  -- peel the options off one by one; the eighth is the one wanted
  obtain ⟨_, -, accepted⟩ := bind_eq_ok accepted
  obtain ⟨_, -, accepted⟩ := bind_eq_ok accepted
  obtain ⟨_, -, accepted⟩ := bind_eq_ok accepted
  obtain ⟨_, -, accepted⟩ := bind_eq_ok accepted
  obtain ⟨_, -, accepted⟩ := bind_eq_ok accepted
  obtain ⟨_, -, accepted⟩ := bind_eq_ok accepted
  obtain ⟨_, -, accepted⟩ := bind_eq_ok accepted
  obtain ⟨voltVector, read, accepted⟩ := bind_eq_ok accepted
  obtain ⟨_, -, accepted⟩ := bind_eq_ok accepted
  cases accepted
  exact read

/-! ## Assignments by position -/

/-- The first three characters give one assignment, and so does every comma with three
characters behind it. -/
theorem fieldWrites_eq {t : Text} (long : 2 < t.length) :
    fieldWrites t = (0, voltAt t 2) ::
      ((List.range (t.length - 3)).filter fun p => t[p]? = some ',').map
        fun p => ((3 + p) / 4, voltAt t (3 + p)) := by
  obtain ⟨m, length⟩ := Nat.exists_eq_add_of_le (show 3 ≤ t.length from long)
  have later (p : ℕ) : (if 3 + p = 2 then some (0, voltAt t 2)
      else if 3 + p > 2 ∧ t[3 + p - 3]? = some ',' then some ((3 + p) / 4, voltAt t (3 + p))
      else none) =
        if t[p]? = some ',' then some ((3 + p) / 4, voltAt t (3 + p)) else none := by
    rw [if_neg (by omega), Nat.add_sub_cancel_left]
    simp only [show 3 + p > 2 by omega, true_and]
  rw [fieldWrites, length, List.range_add, List.filterMap_append, List.filterMap_map,
    Nat.add_sub_cancel_left, ← List.filterMap_eq_map, List.filterMap_filter]
  refine congrArg ((0, voltAt t 2) :: ·) (List.filterMap_congr fun p _ => ?_)
  simp only [Function.comp_apply, later, decide_eq_true_eq]

theorem voltAt_append_left {front : Text} (back : Text) {i : ℕ} (inside : i < front.length) :
    voltAt (front ++ back) i = voltAt front i := by
  rw [voltAt, voltAt, charDigit, charDigit, charDigit, charDigit,
    List.getD_append _ _ _ _ inside, List.getD_append _ _ _ _ (by omega)]

theorem voltAt_append_right (front back : Text) {i : ℕ} (two : 2 ≤ i) :
    voltAt (front ++ back) (front.length + i) = voltAt back i := by
  rw [voltAt, voltAt, charDigit, charDigit, charDigit, charDigit,
    List.getD_append_right _ _ _ _ (by omega), List.getD_append_right _ _ _ _ (by omega),
    Nat.add_sub_cancel_left, show front.length + i - 2 - front.length = i - 2 by omega]

/-- A comma-free vector gives one assignment. -/
theorem fieldWrites_single {t : Text} (long : 2 < t.length) (free : ',' ∉ t) :
    fieldWrites t = [(0, voltAt t 2)] := by
  rw [fieldWrites_eq long, List.filter_eq_nil_iff.mpr, List.map_nil]
  intro p _ comma
  exact free (List.mem_of_getElem? (of_decide_eq_true comma))

/-- The last comma of a vector gives the last assignment, to an entry found from its position. -/
theorem fieldWrites_append {front last : Text} (long : 2 < front.length)
    (clear : ∀ p, front.length ≤ p + 3 → front[p]? ≠ some ',')
    (lastLong : 2 < last.length) (free : ',' ∉ last) :
    fieldWrites (front ++ ',' :: last) =
      fieldWrites front ++ [((3 + front.length) / 4, voltAt last 2)] := by
  have room : (front ++ ',' :: last).length - 3 =
      (front.length - 3) + (3 + (1 + (last.length - 3))) := by
    rw [List.length_append, List.length_cons]
    omega
  have before : (List.range (front.length - 3)).filter
      (fun p => (front ++ ',' :: last)[p]? = some ',') =
        (List.range (front.length - 3)).filter fun p => front[p]? = some ',' := by
    refine List.filter_congr fun p member => ?_
    have inside := List.mem_range.mp member
    rw [List.getElem?_append_left (by omega)]
  -- behind that only the new comma is left
  have only (q : ℕ) : (front ++ ',' :: last)[front.length - 3 + q]? = some ',' ↔ q = 3 := by
    constructor
    · intro comma
      rcases lt_trichotomy q 3 with lt | eq | gt
      · rw [List.getElem?_append_left (by omega)] at comma
        exact absurd comma (clear _ (by omega))
      · exact eq
      · rw [List.getElem?_append_right (by omega),
          show front.length - 3 + q - front.length = q - 4 + 1 by omega,
          List.getElem?_cons_succ] at comma
        exact absurd (List.mem_of_getElem? comma) free
    · rintro rfl
      rw [show front.length - 3 + 3 = front.length by omega,
        List.getElem?_append_right le_rfl, Nat.sub_self, List.getElem?_cons_zero]
  have behind : ((List.range (3 + (1 + (last.length - 3)))).map (front.length - 3 + ·)).filter
      (fun p => (front ++ ',' :: last)[p]? = some ',') = [front.length] := by
    have single : (List.range (3 + (1 + (last.length - 3)))).filter (fun q => q = 3) = [3] := by
      rw [List.filter_eq, List.count_eq_one_of_mem List.nodup_range (List.mem_range.mpr (by omega))]
      rfl
    rw [List.filter_map, List.filter_congr fun q _ => by
      rw [Function.comp_apply, decide_eq_decide.mpr (only q)], single]
    rw [List.map_singleton, show front.length - 3 + 3 = front.length by omega]
  rw [fieldWrites_eq (by rw [List.length_append]; omega), fieldWrites_eq long, room,
    List.range_add, List.filter_append, List.map_append, before, behind, List.cons_append,
    voltAt_append_left _ long, List.map_singleton]
  refine congrArg ((0, voltAt front 2) :: ·) (congrArg₂ (· ++ ·) (List.map_congr_left ?_) ?_)
  · intro p member
    have inside := List.mem_range.mp (List.mem_filter.mp member).1
    rw [voltAt_append_left _ (by omega)]
  · have position : 3 + front.length = (front ++ [',']).length + 2 := by
      rw [List.length_append, List.length_singleton]
      omega
    have field : voltAt (front ++ ',' :: last) (3 + front.length) = voltAt last 2 := by
      rw [position, List.append_cons, voltAt_append_right _ _ le_rfl]
    rw [field]

end GpuHotSpot.HotSpotTool
