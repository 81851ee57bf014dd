import GpuHotSpot.HotSpotTool.GlobalConfig
import GpuHotSpot.Lib.FirstOccurrences

/-!
# The table of options

`main` fills a table of options from the command line and then from the configuration file, and
removes from it, in place, every entry whose name occurs before. The reader of the file gets the
size of the whole table as its limit, wherever it starts.

* `removeDuplicates_eq`: the loops over the shrinking table leave the first occurrences.
* `readStrPairs_overflow_iff`: when the reader writes outside its buffers.
* `mergesOptions_iff`: when the table is merged as it should be.
-/

namespace GpuHotSpot.HotSpotTool

open Lib.FirstOccurrences

/-- `str_pair`: a name and a value. -/
abbrev StrPair := Text × Text

/-- Why `main` does not get a merged table: the program ends, or it writes outside a buffer. -/
inductive Stop where
  | exited (status : ℕ)
  | overflow
  deriving DecidableEq

/-! ## The configuration file -/

/-- The string in a buffer that holds a line. -/
def lineString (line : Text) : Text := line.takeWhile (· ≠ '\x00')

/-- What `fgets` stores one after the other, for at most `fuel` lines. -/
def fileLines : ℕ → Text → List Text
  | 0, _ => []
  | fuel + 1, fp =>
    match fgets (lineSize - 1) fp with
    | none => []
    | some (line, rest) => lineString line :: fileLines fuel rest

/-- Neither an empty line nor a comment. -/
def isEntry (line : Text) : Bool :=
  match tokensBy isBlank line with
  | [] => false
  | ptr :: _ => ptr.head? ≠ some '#'

/-- `read_str_pairs` of lines into a table from `size` on, for at most so many entries. -/
def readStrPairs (size : ℕ) : ℕ → List Text → Except Stop (List StrPair)
  | 0, _ => .ok []
  | _, [] => .ok []
  | entries + 1, line :: lines =>
    if isEntry line then
      match tokens line with
      | [] => .error (.exited 1)
      | [name] => if strSize ≤ name.length then .error .overflow else .error (.exited 1)
      | name :: value :: _ =>
        if strSize ≤ name.length ∨ maxEntries ≤ size ∨ strSize ≤ value.length then
          .error .overflow
        else if name.head? = some '-' then
          (readStrPairs (size + 1) entries lines).map ((name.tail, value) :: ·)
        else .error (.exited 1)
    else readStrPairs size (entries + 1) lines

/-! ## Duplicates -/

/-- `delete_entry`: the later entries move down one by one. -/
def deleteEntry (table : ℕ → StrPair) (size place : ℕ) : ℕ → StrPair :=
  (List.range' (place + 1) (size - (place + 1))).foldl
    (fun table i => Function.update table (i - 1) (table i)) table

/-- What `strcasecmp` compares of the names. -/
def nameKey (e : StrPair) : Text := foldCase e.1

/-- The inner loop of `str_pairs_remove_duplicates`: the table and its size after it. -/
def dropLater (table : ℕ → StrPair) (size i j : ℕ) : (ℕ → StrPair) × ℕ :=
  if j < size then
    if nameKey (table i) = nameKey (table j) then dropLater (deleteEntry table size j) (size - 1) i j
    else dropLater table size i (j + 1)
  else (table, size)
termination_by size - j

theorem dropLater_size_le (table : ℕ → StrPair) (size i j : ℕ) :
    (dropLater table size i j).2 ≤ size := by
  fun_induction dropLater table size i j with
  | case1 table size j inside same ih => omega
  | case2 table size j inside other ih => exact ih
  | case3 table size j outside => exact le_rfl

/-- The outer loop. -/
def dropDuplicates (table : ℕ → StrPair) (size i : ℕ) : (ℕ → StrPair) × ℕ :=
  if i + 1 < size then
    dropDuplicates (dropLater table size i (i + 1)).1 (dropLater table size i (i + 1)).2 (i + 1)
  else (table, size)
termination_by size - i
decreasing_by
  have := dropLater_size_le table size i (i + 1)
  omega

/-- The first entries of a table. -/
def entriesOf (table : ℕ → StrPair) (size : ℕ) : List StrPair := (List.range size).map table

/-- `str_pairs_remove_duplicates`. -/
def removeDuplicates (entries : List StrPair) : List StrPair :=
  let reduced := dropDuplicates (fun k => entries.getD k ([], [])) entries.length 0
  entriesOf reduced.1 reduced.2

/-! ## What is left -/

section Duplicates

variable {table : ℕ → StrPair} {size place i j : ℕ}

theorem foldl_shift (start count k : ℕ) (positive : 0 < start) :
    (List.range' start count).foldl (fun table i => Function.update table (i - 1) (table i))
        table k = if start ≤ k + 1 ∧ k + 1 < start + count then table (k + 1) else table k := by
  induction count generalizing start table with
  | zero =>
    rw [if_neg (by omega)]
    rfl
  | succ count ih =>
    rw [List.range'_succ, List.foldl_cons, ih _ (by omega)]
    rcases lt_trichotomy (k + 1) start with below | first | above
    · rw [if_neg (by omega), if_neg (by omega), Function.update_of_ne (by omega)]
    · subst first
      have none : ¬(k + 1 + 1 ≤ k + 1 ∧ k + 1 < k + 1 + 1 + count) := by omega
      rw [if_neg none, if_pos (by omega), Nat.add_sub_cancel, Function.update_self]
    · rw [Function.update_of_ne (by omega), Function.update_of_ne (by omega)]
      exact if_congr (by omega) rfl rfl

/-- What `delete_entry` leaves in each place. -/
theorem deleteEntry_apply (k : ℕ) : deleteEntry table size place k =
    if place ≤ k ∧ k + 1 < size then table (k + 1) else table k := by
  rw [deleteEntry, foldl_shift _ _ _ (Nat.succ_pos place)]
  exact if_congr (by omega) rfl rfl

theorem entriesOf_congr {table' : ℕ → StrPair} (same : ∀ k < size, table k = table' k) :
    entriesOf table size = entriesOf table' size :=
  List.map_congr_left fun k member => same k (List.mem_range.mp member)

theorem entriesOf_succ : entriesOf table (size + 1) = entriesOf table size ++ [table size] := by
  rw [entriesOf, entriesOf, List.range_succ, List.map_append, List.map_singleton]

theorem take_entriesOf (inside : j ≤ size) :
    (entriesOf table size).take j = entriesOf table j := by
  rw [entriesOf, entriesOf, ← List.map_take, List.take_range, Nat.min_eq_left inside]

theorem drop_entriesOf (inside : j < size) :
    (entriesOf table size).drop j = table j :: (entriesOf table size).drop (j + 1) := by
  rw [List.drop_eq_getElem_cons (by simpa [entriesOf] using inside)]
  simp [entriesOf]

/-- The entries behind a deleted one. -/
theorem drop_deleteEntry :
    (entriesOf (deleteEntry table size j) (size - 1)).drop j =
      (entriesOf table size).drop (j + 1) := by
  refine List.ext_getElem ?_ fun k first second => ?_
  · simp only [entriesOf, List.length_drop, List.length_map, List.length_range]
    omega
  · simp only [entriesOf, List.length_drop, List.length_map, List.length_range] at first
    simp only [entriesOf, List.getElem_drop, List.getElem_map, List.getElem_range,
      deleteEntry_apply]
    rw [if_pos (by omega)]
    congr 1
    omega

/-- **The inner loop** keeps what is before it, and of the rest the other names. -/
theorem entriesOf_dropLater (before : i < j) (inside : j ≤ size) :
    entriesOf (dropLater table size i j).1 (dropLater table size i j).2 =
      entriesOf table j ++ ((entriesOf table size).drop j).filter
        fun e => nameKey (table i) ≠ nameKey e := by
  fun_induction dropLater table size i j with
  | case1 table size j below same ih =>
    have earlier : ∀ k < j, deleteEntry table size j k = table k := by
      intro k left
      rw [deleteEntry_apply, if_neg (by omega)]
    rw [ih before (by omega), entriesOf_congr earlier, drop_deleteEntry, earlier i before,
      drop_entriesOf below, List.filter_cons_of_neg (by simpa using same)]
  | case2 table size j below other ih =>
    rw [ih (by omega) below, drop_entriesOf below, entriesOf_succ,
      List.filter_cons_of_pos (by simpa using other), List.append_assoc, List.singleton_append]
  | case3 table size j outside =>
    have whole : j = size := by omega
    rw [whole, List.drop_eq_nil_of_le (by simp [entriesOf]), List.filter_nil, List.append_nil]

/-- **The outer loop** keeps what is before it, and of the rest the first occurrences. -/
theorem entriesOf_dropDuplicates :
    entriesOf (dropDuplicates table size i).1 (dropDuplicates table size i).2 =
      (entriesOf table size).take i ++
        firstOccurrences nameKey [] ((entriesOf table size).drop i) := by
  fun_induction dropDuplicates table size i with
  | case1 table size i more ih =>
    have inner : entriesOf (dropLater table size i (i + 1)).1
        (dropLater table size i (i + 1)).2 = entriesOf table (i + 1) ++
          ((entriesOf table size).drop (i + 1)).filter
            fun e => nameKey (table i) ≠ nameKey e :=
      entriesOf_dropLater (Nat.lt_succ_self i) more.le
    have front : (entriesOf table (i + 1)).length = i + 1 := by simp [entriesOf]
    rw [ih, inner, List.take_append_of_le_length front.ge, List.take_of_length_le front.le,
      List.drop_append_of_le_length front.ge, List.drop_eq_nil_of_le front.le, List.nil_append,
      drop_entriesOf (show i < size by omega), firstOccurrences_cons,
      take_entriesOf (show i ≤ size by omega), entriesOf_succ, List.append_assoc,
      List.singleton_append]
  | case2 table size i last =>
    have short : firstOccurrences nameKey [] ((entriesOf table size).drop i) =
        (entriesOf table size).drop i := by
      by_cases inside : i < size
      · rw [drop_entriesOf inside, List.drop_eq_nil_of_le (by simp [entriesOf]; omega),
          firstOccurrences_cons]
        rfl
      · rw [List.drop_eq_nil_of_le (by simp [entriesOf]; omega)]
        rfl
    rw [short, List.take_append_drop]

/-- **What `str_pairs_remove_duplicates` leaves.** -/
theorem removeDuplicates_eq (entries : List StrPair) :
    removeDuplicates entries = firstOccurrences nameKey [] entries := by
  have table : entriesOf (fun k => entries.getD k ([], [])) entries.length = entries := by
    refine List.ext_getElem (by simp [entriesOf]) fun k first second => ?_
    simp only [entriesOf, List.getElem_map, List.getElem_range]
    exact List.getD_eq_getElem _ _ second
  rw [removeDuplicates, entriesOf_dropDuplicates, table]
  rfl

end Duplicates

/-! ## Room for the file -/

/-- A line that is a name with its dash and a value. -/
def IsPair (line : Text) : Prop :=
  2 ≤ (tokens line).length ∧ ((tokens line).headD []).head? = some '-'

/-- A line fits its buffers: the words that are read are short, and if there are two of them, there
is room in a table with so many entries. -/
def LineFits (size : ℕ) (line : Text) : Prop :=
  (∀ word ∈ (tokens line).take 2, word.length < strSize) ∧
    (2 ≤ (tokens line).length → size < maxEntries)

/-- Every entry that is reached, all before it being pairs, fits. -/
def Fits (size : ℕ) (lines : List Text) : Prop :=
  ∀ before line, before ++ [line] <+: lines.filter isEntry → (∀ l ∈ before, IsPair l) →
    LineFits (size + before.length) line

section Reading

variable {size entries : ℕ} {line : Text} {lines : List Text} {pairs : List StrPair}

theorem fits_nil : Fits size [] := by
  intro before line front
  have length := front.length_le
  simp at length

theorem fits_cons_comment (comment : isEntry line = false) :
    Fits size (line :: lines) ↔ Fits size lines := by
  rw [Fits, Fits, List.filter_cons_of_neg (by simp [comment])]

theorem fits_cons_entry (entry : isEntry line = true) :
    Fits size (line :: lines) ↔ LineFits size line ∧ (IsPair line → Fits (size + 1) lines) := by
  rw [Fits, List.filter_cons_of_pos entry]
  constructor
  · intro fits
    refine ⟨fits [] line (by simp) (by simp), fun pair before later front pairs => ?_⟩
    have next := fits (line :: before) later
      (List.prefix_cons_inj line |>.mpr front) (by simpa [pair] using pairs)
    rw [List.length_cons] at next
    rwa [Nat.add_assoc, Nat.add_comm 1]
  · rintro ⟨own, others⟩ before later front pairs
    cases before with
    | nil =>
      obtain ⟨rest, split⟩ := front
      cases split
      exact own
    | cons first before =>
      rw [List.cons_append] at front
      obtain ⟨rfl, tail⟩ := List.cons_prefix_cons.mp front
      have next := others (pairs first List.mem_cons_self) before later tail
        fun l member => pairs l (List.mem_cons_of_mem _ member)
      rw [List.length_cons]
      rwa [Nat.add_assoc, Nat.add_comm 1] at next

theorem lineFits_words {name value : Text} {rest : List Text}
    (words : tokens line = name :: value :: rest) :
    LineFits size line ↔ ¬(strSize ≤ name.length ∨ maxEntries ≤ size ∨ strSize ≤ value.length) := by
  simp only [LineFits, words, List.take_succ_cons, List.take_zero, List.mem_cons, List.length_cons,
    List.not_mem_nil, or_false, forall_eq_or_imp, forall_eq, not_or, not_le]
  have two : 2 ≤ rest.length + 1 + 1 := by omega
  tauto

theorem isPair_words {name value : Text} {rest : List Text}
    (words : tokens line = name :: value :: rest) : IsPair line ↔ name.head? = some '-' := by
  simp [IsPair, words]

theorem map_eq_overflow {f : List StrPair → List StrPair} {read : Except Stop (List StrPair)} :
    read.map f = .error .overflow ↔ read = .error .overflow := by
  cases read <;> simp [Except.map]

theorem map_eq_ok {f : List StrPair → List StrPair} {read : Except Stop (List StrPair)}
    (stored : read.map f = .ok pairs) : ∃ others, read = .ok others ∧ f others = pairs := by
  cases read with
  | error => cases stored
  | ok others =>
    cases stored
    exact ⟨others, rfl, rfl⟩

/-- **When the reader writes outside its buffers.** Its limit never stops it before. -/
theorem readStrPairs_overflow_iff (room : size ≤ maxEntries) (limit : maxEntries < size + entries) :
    readStrPairs size entries lines = .error .overflow ↔ ¬Fits size lines := by
  induction lines generalizing size entries with
  | nil =>
    cases entries <;> simp [readStrPairs, fits_nil]
  | cons line lines ih =>
    obtain ⟨entries, rfl⟩ : ∃ n, entries = n + 1 := ⟨entries - 1, by omega⟩
    rw [readStrPairs]
    cases entry : isEntry line with
    | false =>
      rw [if_neg (by simp), fits_cons_comment entry]
      exact ih room limit
    | true =>
      rw [if_pos rfl, fits_cons_entry entry]
      match words : tokens line with
      | [] => simp [LineFits, IsPair, words]
      | [name] =>
        simp only [LineFits, IsPair, words]
        split_ifs with long <;> simp [long]
      | name :: value :: rest =>
        simp only
        rw [lineFits_words words, isPair_words words]
        split_ifs with outside dash
        · simp [outside]
        · rw [map_eq_overflow, ih (by omega) (by omega)]
          simp [outside, dash]
        · simp [outside, dash]

/-- What is read is in the table. -/
theorem length_readStrPairs (room : size ≤ maxEntries)
    (read : readStrPairs size entries lines = .ok pairs) : size + pairs.length ≤ maxEntries := by
  induction lines generalizing size entries pairs with
  | nil =>
    cases entries <;>
    · cases read
      exact room
  | cons line lines ih =>
    cases entries with
    | zero =>
      cases read
      exact room
    | succ entries =>
      rw [readStrPairs] at read
      split_ifs at read with entry
      · match words : tokens line with
        | [] =>
          rw [words] at read
          cases read
        | [name] =>
          rw [words] at read
          simp only at read
          split_ifs at read
        | name :: value :: rest =>
          rw [words] at read
          simp only at read
          split_ifs at read with outside dash
          cases later : readStrPairs (size + 1) entries lines with
          | error stop =>
            rw [later] at read
            cases read
          | ok others =>
            rw [later] at read
            cases read
            have below := ih (by omega) later
            rw [List.length_cons]
            omega
      · exact ih room read

end Reading

/-! ## The merged table -/

/-- `main` up to the table that holds the options of the command line and of the file. The files
that can be opened are given by name. -/
def mergedTable (files : Text → Option Text) (argv : List Text) : Except Stop (List StrPair) :=
  if 5 ≤ argv.length ∧ argv.length % 2 = 1 then do
    let table ← (parseCmdline maxEntries argv.tail).mapError .exited
    let config ← (globalConfigFromStrs table).mapError .exited
    if config.config = nullFile then .ok table
    else
      match files config.config with
      | none => .error (.exited 1)
      | some fp => do
          let pairs ← readStrPairs table.length maxEntries (fileLines (fp.length + 1) fp)
          .ok (table ++ pairs)
  else .error (.exited 1)

/-- **The table is merged as it should be.** No buffer is left; the table has no more entries than
it has room for; without the duplicates it has the first occurrences of the names, which differ; and
an option of the command line keeps its value. -/
structure MergesOptions (files : Text → Option Text) (argv : List Text) : Prop where
  inside : mergedTable files argv ≠ .error .overflow
  bounded : ∀ table, mergedTable files argv = .ok table → table.length ≤ maxEntries
  firsts : ∀ table, mergedTable files argv = .ok table →
    removeDuplicates table = firstOccurrences nameKey [] table
  distinct : ∀ table, mergedTable files argv = .ok table →
    (removeDuplicates table).Pairwise fun e e' => nameKey e ≠ nameKey e'
  overrides : ∀ table, mergedTable files argv = .ok table → ∀ given,
    parseCmdline maxEntries argv.tail = .ok given → ∀ name value,
      getStr given name = some value → getStr (removeDuplicates table) name = some value

section Merge

variable {files : Text → Option Text} {argv args : List Text} {table given pairs : List StrPair}
  {entries : ℕ} {name value : Text}

/-- The command line gives one entry for two arguments. -/
theorem length_parseCmdline (parsed : parseCmdline entries args = .ok table) :
    table.length = min entries (args.length / 2) := by
  induction entries generalizing args table with
  | zero =>
    rw [parseCmdline] at parsed
    cases parsed
    rw [Nat.zero_min]
    rfl
  | succ entries ih =>
    -- no argument, an option without a setting, an option with one
    rcases args with - | ⟨option, - | ⟨setting, rest⟩⟩
    · cases parsed
      rfl
    · rw [parseCmdline] at parsed
      split_ifs at parsed
      · cases parsed
        simp
      · cases parsed
    · rw [parseCmdline] at parsed
      split_ifs at parsed
      · cases later : parseCmdline entries rest with
        | error status =>
          rw [later] at parsed
          cases parsed
        | ok others =>
          rw [later] at parsed
          cases parsed
          have length := ih later
          simp only [List.length_cons]
          omega
      · cases parsed

/-- The first entry of a name stays the one that is found. -/
theorem getStr_removeDuplicates (found : getStr given name = some value) :
    getStr (removeDuplicates (given ++ pairs)) name = some value := by
  rw [getStr] at found
  obtain ⟨e, first, rfl⟩ := Option.map_eq_some_iff.mp found
  have search : (firstOccurrences nameKey [] (given ++ pairs)).find?
      (fun e => foldCase name = nameKey e) = some e := by
    rw [find?_firstOccurrences (by simp), List.find?_append]
    exact (congrArg (Option.or · _) first).trans Option.some_or
  rw [removeDuplicates_eq, getStr]
  exact congrArg (Option.map Prod.snd) search

/-- The entries of the command line and the lines of the file, where `main` gets that far. -/
def Merges (files : Text → Option Text) (argv : List Text) (given : List StrPair)
    (lines : List Text) : Prop :=
  (5 ≤ argv.length ∧ argv.length % 2 = 1) ∧ parseCmdline maxEntries argv.tail = .ok given ∧
    ∃ config fp, globalConfigFromStrs given = .ok config ∧ config.config ≠ nullFile ∧
      files config.config = some fp ∧ lines = fileLines (fp.length + 1) fp

/-- Once the command line is read, the file decides. -/
theorem mergedTable_eq {config : GlobalConfig} (usage : 5 ≤ argv.length ∧ argv.length % 2 = 1)
    (parsed : parseCmdline maxEntries argv.tail = .ok given)
    (read : globalConfigFromStrs given = .ok config) :
    mergedTable files argv = if config.config = nullFile then .ok given else
        match files config.config with
        | none => .error (.exited 1)
        | some fp =>
            (readStrPairs given.length maxEntries (fileLines (fp.length + 1) fp)).map
            (given ++ ·) := by
  rw [mergedTable, if_pos usage, parsed]
  change (globalConfigFromStrs given).mapError Stop.exited >>= _ = _
  rw [read]
  rfl

theorem Merges.mergedTable_eq {lines : List Text} (reached : Merges files argv given lines) :
    mergedTable files argv = (readStrPairs given.length maxEntries lines).map (given ++ ·) := by
  obtain ⟨usage, parsed, config, fp, read, present, file, rfl⟩ := reached
  rw [HotSpotTool.mergedTable_eq usage parsed read, if_neg present, file]

/-- **What `main` can do**: end the program, keep the command line, or read the file. -/
theorem mergedTable_cases (files : Text → Option Text) (argv : List Text) :
    (∃ status, mergedTable files argv = .error (.exited status)) ∨
    (∃ given, parseCmdline maxEntries argv.tail = .ok given ∧ mergedTable files argv = .ok given) ∨
    ∃ given lines, Merges files argv given lines ∧
      mergedTable files argv = (readStrPairs given.length maxEntries lines).map (given ++ ·) := by
  by_cases usage : 5 ≤ argv.length ∧ argv.length % 2 = 1
  · cases parsed : parseCmdline maxEntries argv.tail with
    | error status =>
      refine .inl ⟨status, ?_⟩
      rw [mergedTable, if_pos usage, parsed]
      rfl
    | ok given =>
      cases read : globalConfigFromStrs given with
      | error status =>
        refine .inl ⟨status, ?_⟩
        rw [mergedTable, if_pos usage, parsed]
        change (globalConfigFromStrs given).mapError Stop.exited >>= _ = _
        rw [read]
        rfl
      | ok config =>
        have merged : mergedTable files argv = _ := mergedTable_eq usage parsed read
        by_cases absent : config.config = nullFile
        · rw [if_pos absent] at merged
          exact .inr (.inl ⟨given, rfl, merged⟩)
        · rw [if_neg absent] at merged
          cases file : files config.config with
          | none =>
            rw [file] at merged
            exact .inl ⟨1, merged⟩
          | some fp =>
            rw [file] at merged
            exact .inr (.inr ⟨given, _, ⟨usage, parsed, config, fp, read, absent, file, rfl⟩,
              merged⟩)
  · exact .inl ⟨1, if_neg usage⟩

end Merge

/-- The entries of the file fit behind those of the command line, two arguments for each. -/
def FitsTable (files : Text → Option Text) (argv : List Text) : Prop :=
  ∀ given lines, Merges files argv given lines →
    Fits (min maxEntries (argv.tail.length / 2)) lines

/-- **When the table is merged as it should be.** For every command line and every file, if and
only if the entries of the file fit behind those of the command line. -/
theorem mergesOptions_iff (files : Text → Option Text) (argv : List Text) :
    MergesOptions files argv ↔ FitsTable files argv := by
  have overflow : ∀ {given lines}, Merges files argv given lines →
      (readStrPairs given.length maxEntries lines = .error .overflow ↔
        ¬Fits (min maxEntries (argv.tail.length / 2)) lines) := by
    rintro given lines ⟨usage, parsed, -⟩
    rw [← length_parseCmdline parsed]
    have length := length_parseCmdline parsed
    refine readStrPairs_overflow_iff (by omega) ?_
    have some : 0 < argv.tail.length / 2 := by
      rw [List.length_tail]
      omega
    have positive : 0 < maxEntries := by decide
    omega
  constructor
  · intro merges given lines reached
    by_contra outside
    refine merges.inside ?_
    rw [reached.mergedTable_eq]
    exact map_eq_overflow.2 ((overflow reached).mpr outside)
  · intro fits
    have distinct : ∀ table, (removeDuplicates table).Pairwise
        fun e e' => nameKey e ≠ nameKey e' := by
      intro table
      rw [removeDuplicates_eq]
      exact pairwise_firstOccurrences
    refine ⟨?_, ?_, fun table _ => removeDuplicates_eq table, fun table _ => distinct table, ?_⟩
    · intro left
      rcases mergedTable_cases files argv with ⟨status, ended⟩ | ⟨given, -, kept⟩ |
        ⟨given, lines, reached, read⟩
      · cases ended.symm.trans left
      · cases kept.symm.trans left
      · exact (overflow reached).mp (map_eq_overflow.1 (read.symm.trans left))
          (fits given lines reached)
    · intro table merged
      rcases mergedTable_cases files argv with ⟨status, ended⟩ | ⟨given, parsed, kept⟩ |
        ⟨given, lines, reached, read⟩
      · cases ended.symm.trans merged
      · cases kept.symm.trans merged
        rw [length_parseCmdline parsed]
        exact Nat.min_le_left _ _
      · obtain ⟨pairs, stored, rfl⟩ := map_eq_ok (read.symm.trans merged)
        rw [List.length_append]
        refine length_readStrPairs ?_ stored
        rw [length_parseCmdline reached.2.1]
        exact Nat.min_le_left _ _
    · intro table merged given parsed name value found
      rcases mergedTable_cases files argv with ⟨status, ended⟩ | ⟨given', parsed', kept⟩ |
        ⟨given', lines, reached, read⟩
      · cases ended.symm.trans merged
      · obtain rfl : given' = given := Except.ok.inj (parsed'.symm.trans parsed)
        have same : given' = table := Except.ok.inj (kept.symm.trans merged)
        rw [← same, ← List.append_nil given']
        exact getStr_removeDuplicates found
      · obtain rfl : given' = given := Except.ok.inj (reached.2.1.symm.trans parsed)
        obtain ⟨pairs, -, rfl⟩ := map_eq_ok (read.symm.trans merged)
        exact getStr_removeDuplicates found

/-- Whether a buffer was left. -/
def overflowed : Except Stop (List StrPair) → Bool
  | .error .overflow => true
  | _ => false

theorem eq_overflow {merged : Except Stop (List StrPair)} (outside : overflowed merged = true) :
    merged = .error .overflow := by
  match merged with
  | .error .overflow => rfl
  | .error (.exited status) => cases outside
  | .ok table => cases outside

/-- A configuration file with one entry less than there is room for. -/
def longFile : Text := (List.replicate 511 "-a b\n".toList).flatten

/-- A command line with three options. -/
def longFileArgs : List Text :=
  ["hotspot", "-p", "x", "-grid_layer_file", "l", "-c", "f"].map (·.toList)

/-- Three options on the command line leave too little room for a file of 511 entries. -/
theorem mergesOptions_longFile : ¬MergesOptions (fun _ => some longFile) longFileArgs :=
  fun merges => merges.inside (eq_overflow (by decide +kernel))

end GpuHotSpot.HotSpotTool
