import Mathlib.Algebra.Group.Pi.Basic
import GpuHotSpot.Lib.PyText
import GpuHotSpot.Pipeline.Config

/-!
# Access statistics from Accel-Sim output

`pipeline/accelsim_trace_parser.py`: every line of the simulator's output is
searched for per-bank counts, for bulk counts of all banks and for cycle counters;
counts add up and the largest cycle counter wins.

Every pattern is searched by the backtracking matcher of `Pattern`, so that what
a line holds is what Python's `re` finds in it.

* `parseStatsLine_add`: a line adds to the statistics what it adds to none.
* `parseStatsLine_statistics`: a line that holds at most one statistic adds that
  statistic.
* `parseAccelsimOutput_additive`: joined texts give sums, the order of lines does
  not matter, and every statistic counts once.
-/

namespace GpuHotSpot.Pipeline

/-! ## Patterns -/

section Patterns

variable (py : Python)

/-- A word under `re.IGNORECASE`. -/
def anyCase (w : String) : Pattern := .word sameLetter w.toList

/-- `\s*`. -/
def blanks : Pattern := .many isUnicodeSpace

/-- `(\d+)`. -/
def number : Pattern := .group (.some py.isDecimal)

/-- `dram\[(\d+)\]:\s*bk\[(\d+)\]:\s*<access>\s*=\s*(\d+)`. -/
def dramRe (access : String) : Pattern :=
  .concat [anyCase "dram[", number py, anyCase "]:", blanks, anyCase "bk[", number py,
    anyCase "]:", blanks, anyCase access, blanks, anyCase "=", blanks, number py]

def dramRdRe : Pattern := dramRe py "rd"

def dramWrRe : Pattern := dramRe py "wr"

/-- `<name>\s*=\s*(.+)`. -/
def bulkRe (name : String) : Pattern :=
  .concat [anyCase name, blanks, anyCase "=", blanks, .group (.some fun c => c != '\n')]

def bulkRdRe : Pattern := bulkRe "dram_reads_per_bank"

def bulkWrRe : Pattern := bulkRe "dram_writes_per_bank"

/-- `<name>\s*=\s*(\d+)`. -/
def counterRe (name : String) : Pattern :=
  .concat [anyCase name, blanks, anyCase "=", blanks, number py]

def cycleRe : Pattern := counterRe py "gpu_sim_cycle"

def totCycleRe : Pattern := counterRe py "gpu_tot_sim_cycle"

end Patterns

/-! ## Parsing -/

/-- `(reads_per_bank, writes_per_bank, total_cycles)`. A cycle counter has no sign. -/
@[ext]
structure Stats where
  reads : Bank → ℤ
  writes : Bank → ℤ
  totalCycles : ℕ

/-- Counts add up and the larger cycle counter wins. -/
instance : Add Stats :=
  ⟨fun s t => ⟨s.reads + t.reads, s.writes + t.writes, max s.totalCycles t.totalCycles⟩⟩

instance : Zero Stats := ⟨⟨0, 0, 0⟩⟩

/-- `m.group(k)`. -/
def matchGroup (groups : List Text) (k : ℕ) : Text := groups.getD (k - 1) []

/-- `_global_bank_index`. -/
def globalBankIndex (dramChip localBank : ℤ) : ℤ := dramChip * 16 + localBank

/-- `counts[i] += n`. -/
def bump (counts : Bank → ℤ) (i : ℕ) (n : ℤ) : Bank → ℤ := fun b =>
  if (b : ℕ) = i then counts b + n else counts b

section Parse

variable (py : Python)

/-- What `_parse_line` does with per-bank groups. -/
def addPerBank (groups : List Text) (counts : Bank → ℤ) : Option (Bank → ℤ) :=
  (py.int (matchGroup groups 1)).bind fun dramChip =>
    (py.int (matchGroup groups 2)).bind fun localBank =>
      let bankIdx := globalBankIndex dramChip localBank
      if 0 ≤ bankIdx ∧ bankIdx < numBanks then
        (py.int (matchGroup groups 3)).map (bump counts bankIdx.toNat)
      else some counts

/-- `re.split(r"[,\s]+", m.group(1).strip())`. -/
def bulkVals (groups : List Text) : List Text :=
  splitRuns (fun c => c = ',' || isUnicodeSpace c) (stripBy isUnicodeSpace (matchGroup groups 1))

/-- What `_parse_line` does with bulk groups. -/
def addBulk (groups : List Text) (counts : Bank → ℤ) : Option (Bank → ℤ) :=
  ((bulkVals groups).take numBanks).zipIdx.foldlM
    (fun counts entry => (py.int entry.1).map (bump counts entry.2)) counts

/-- `_parse_line`. -/
def parseLine (line : Text) (s : Stats) : Option Stats :=
  match (dramRdRe py).search line with
  | some groups => (addPerBank py groups s.reads).map fun reads => { s with reads }
  | none =>
    match (dramWrRe py).search line with
    | some groups => (addPerBank py groups s.writes).map fun writes => { s with writes }
    | none =>
      match bulkRdRe.search line with
      | some groups => (addBulk py groups s.reads).map fun reads => { s with reads }
      | none =>
        match bulkWrRe.search line with
        | some groups => (addBulk py groups s.writes).map fun writes => { s with writes }
        | none => some s

/-- The cycle counter of a line. -/
def updateCycles (line : Text) (s : Stats) : Option Stats :=
  match ((cycleRe py).search line).or ((totCycleRe py).search line) with
  | some groups => (py.int (matchGroup groups 1)).map fun n =>
    { s with totalCycles := max s.totalCycles n.toNat }
  | none => some s

/-- The body of the loops over lines. -/
def parseStatsLine (s : Stats) (line : Text) : Option Stats :=
  (parseLine py line s).bind (updateCycles py line)

/-- `parse_accelsim_output`, if `int` raises nowhere. -/
def parseAccelsimOutput (outputText : Text) : Option Stats :=
  (splitlines outputText).foldlM (parseStatsLine py) 0

/-- `parse_trace_file`: a missing file counts for nothing. -/
def parseTraceFile (file : Option Text) : Option Stats :=
  match file with
  | none => some 0
  | some text => (readlines text).foldlM (parseStatsLine py) 0

end Parse

/-! ## Statistics add up -/

@[simp] theorem Stats.reads_add (s t : Stats) : (s + t).reads = s.reads + t.reads := rfl

@[simp] theorem Stats.writes_add (s t : Stats) : (s + t).writes = s.writes + t.writes := rfl

@[simp] theorem Stats.totalCycles_add (s t : Stats) :
    (s + t).totalCycles = max s.totalCycles t.totalCycles := rfl

@[simp] theorem Stats.reads_zero : (0 : Stats).reads = 0 := rfl

@[simp] theorem Stats.writes_zero : (0 : Stats).writes = 0 := rfl

@[simp] theorem Stats.totalCycles_zero : (0 : Stats).totalCycles = 0 := rfl

instance : AddCommMonoid Stats where
  add_assoc s t u := by ext <;> simp [add_assoc, max_assoc]
  zero_add s := by ext <;> simp
  add_zero s := by ext <;> simp
  add_comm s t := by ext <;> simp [add_comm, max_comm]
  nsmul := nsmulRec

section Additive

variable (py : Python)

theorem bump_eq_add (counts : Bank → ℤ) (i : ℕ) (n : ℤ) : bump counts i n = counts + bump 0 i n := by
  ext b
  simp only [bump, Pi.add_apply, Pi.zero_apply, zero_add]
  split_ifs <;> simp

theorem addPerBank_add (groups : List Text) (counts : Bank → ℤ) :
    addPerBank py groups counts = (addPerBank py groups 0).map (counts + ·) := by
  rw [addPerBank, addPerBank]
  cases py.int (matchGroup groups 1) with
  | none => rfl
  | some dramChip =>
    cases py.int (matchGroup groups 2) with
    | none => rfl
    | some localBank =>
      simp only [Option.bind_some]
      split_ifs
      · rw [Option.map_map]
        exact congrArg (Option.map · _) (funext fun n => bump_eq_add counts _ n)
      · rw [Option.map_some, add_zero]

/-- What a bulk value adds at its position. -/
def bulkEntry (entry : Text × ℕ) : Option (Bank → ℤ) := (py.int entry.1).map (bump 0 entry.2)

theorem addBulk_eq_sumM (groups : List Text) (counts : Bank → ℤ) :
    addBulk py groups counts =
      (sumM (bulkEntry py) ((bulkVals groups).take numBanks).zipIdx).map (counts + ·) := by
  refine foldlM_eq_sumM (fun counts entry => ?_) _ counts
  rw [bulkEntry, Option.map_map]
  exact congrArg (Option.map · _) (funext fun n => bump_eq_add counts _ n)

theorem addBulk_add (groups : List Text) (counts : Bank → ℤ) :
    addBulk py groups counts = (addBulk py groups 0).map (counts + ·) := by
  rw [addBulk_eq_sumM, addBulk_eq_sumM, Option.map_map]
  exact congrArg (Option.map · _) (funext fun n => by simp)

/-- Counts added to the reads of nothing, then to those of `s`. -/
theorem map_reads_add {counts : Option (Bank → ℤ)} (s : Stats) :
    (counts.map (s.reads + ·)).map (fun reads => { s with reads }) =
      (counts.map fun reads => { (0 : Stats) with reads }).map (s + ·) := by
  cases counts with
  | none => rfl
  | some reads =>
    refine congrArg some ?_
    ext <;> simp

theorem map_writes_add {counts : Option (Bank → ℤ)} (s : Stats) :
    (counts.map (s.writes + ·)).map (fun writes => { s with writes }) =
      (counts.map fun writes => { (0 : Stats) with writes }).map (s + ·) := by
  cases counts with
  | none => rfl
  | some writes =>
    refine congrArg some ?_
    ext <;> simp

theorem parseLine_add (line : Text) (s : Stats) :
    parseLine py line s = (parseLine py line 0).map (s + ·) := by
  rw [parseLine, parseLine]
  cases (dramRdRe py).search line with
  | some groups =>
    simp only
    rw [addPerBank_add, map_reads_add]
    rfl
  | none =>
  cases (dramWrRe py).search line with
  | some groups =>
    simp only
    rw [addPerBank_add, map_writes_add]
    rfl
  | none =>
  cases bulkRdRe.search line with
  | some groups =>
    simp only
    rw [addBulk_add, map_reads_add]
    rfl
  | none =>
  cases bulkWrRe.search line with
  | some groups =>
    simp only
    rw [addBulk_add, map_writes_add]
    rfl
  | none => simp

theorem updateCycles_add (line : Text) (s t : Stats) :
    updateCycles py line (s + t) = (updateCycles py line t).map (s + ·) := by
  rw [updateCycles, updateCycles]
  cases ((cycleRe py).search line).or ((totCycleRe py).search line) with
  | none => rfl
  | some groups =>
    simp only [Option.map_map]
    refine congrArg (Option.map · _) (funext fun n => ?_)
    ext <;> simp [max_assoc]

/-- **One line** adds to the statistics what it adds to none. -/
theorem parseStatsLine_add (s : Stats) (line : Text) :
    parseStatsLine py s line = (parseStatsLine py 0 line).map (s + ·) := by
  rw [parseStatsLine, parseStatsLine, parseLine_add]
  cases parseLine py line 0 with
  | none => rfl
  | some t => exact updateCycles_add py line s t

/-- **Every run over lines** is the sum of what the lines add. -/
theorem foldlM_parseStatsLine (lines : List Text) :
    lines.foldlM (parseStatsLine py) 0 = sumM (parseStatsLine py 0) lines := by
  rw [foldlM_eq_sumM (parseStatsLine_add py)]
  simp

/-- An empty line adds nothing. -/
theorem parseStatsLine_nil (s : Stats) : parseStatsLine py s [] = some s := rfl

/-- **Joined texts** give the sum of what the texts give. -/
theorem parseAccelsimOutput_append (s t : Text) :
    parseAccelsimOutput py (s ++ '\n' :: t) =
      (parseAccelsimOutput py s).bind fun a => (parseAccelsimOutput py t).map (a + ·) := by
  simp only [parseAccelsimOutput, foldlM_parseStatsLine]
  rcases splitlines_append s t with joined | joined
  · rw [joined, sumM_append]
  · have blank : sumM (parseStatsLine py 0) ([] :: splitlines t) =
        sumM (parseStatsLine py 0) (splitlines t) := by
      rw [sumM, parseStatsLine_nil]
      simp
    rw [joined, sumM_append, blank]

/-- **Permuted lines** give the same statistics. -/
theorem parseAccelsimOutput_perm {s t : Text} (perm : (splitlines s).Perm (splitlines t)) :
    parseAccelsimOutput py s = parseAccelsimOutput py t := by
  rw [parseAccelsimOutput, parseAccelsimOutput, foldlM_parseStatsLine, foldlM_parseStatsLine,
    sumM_perm _ perm]

end Additive

/-! ## What a line holds -/

/-- A statistic as it stands in a line. -/
inductive Statistic
  | perBankReads (dramChip localBank n : ℤ)
  | perBankWrites (dramChip localBank n : ℤ)
  | bulkReads (vals : List ℤ)
  | bulkWrites (vals : List ℤ)
  | cycles (n : ℕ)

namespace Statistic

/-- The count of one bank. -/
def perBank (dramChip localBank n : ℤ) : Bank → ℤ := fun b =>
  if (b : ℤ) = dramChip * 16 + localBank then n else 0

/-- The counts of all banks in order. -/
def bulk (vals : List ℤ) : Bank → ℤ := fun b => vals.getD b 0

def reads : Statistic → Bank → ℤ
  | perBankReads dramChip localBank n => perBank dramChip localBank n
  | bulkReads vals => bulk vals
  | _ => 0

def writes : Statistic → Bank → ℤ
  | perBankWrites dramChip localBank n => perBank dramChip localBank n
  | bulkWrites vals => bulk vals
  | _ => 0

def totalCycles : Statistic → ℕ
  | cycles n => n
  | _ => 0

/-- What a statistic counts for. -/
def stats (st : Statistic) : Stats := ⟨st.reads, st.writes, st.totalCycles⟩

end Statistic

/-- The six patterns. -/
inductive Kind
  | dramRd
  | dramWr
  | bulkRd
  | bulkWr
  | cycle
  | totCycle
  deriving DecidableEq

def Kind.all : List Kind := [.dramRd, .dramWr, .bulkRd, .bulkWr, .cycle, .totCycle]

section Held

variable (py : Python)

def Kind.pattern : Kind → Pattern
  | .dramRd => dramRdRe py
  | .dramWr => dramWrRe py
  | .bulkRd => bulkRdRe
  | .bulkWr => bulkWrRe
  | .cycle => cycleRe py
  | .totCycle => totCycleRe py

/-- Every place in a line where one of the patterns matches, with its groups. -/
def held (line : Text) : List (Kind × List Text) :=
  Kind.all.flatMap fun kind => ((kind.pattern py).found line).map (kind, ·)

/-- The statistic at such a place, if all its numbers can be converted. -/
def statisticAt : Kind × List Text → Option Statistic
  | (.dramRd, groups) => perBankAt .perBankReads groups
  | (.dramWr, groups) => perBankAt .perBankWrites groups
  | (.bulkRd, groups) => ((bulkVals groups).mapM py.int).map .bulkReads
  | (.bulkWr, groups) => ((bulkVals groups).mapM py.int).map .bulkWrites
  | (.cycle, groups) => (py.int (matchGroup groups 1)).map fun n => .cycles n.toNat
  | (.totCycle, groups) => (py.int (matchGroup groups 1)).map fun n => .cycles n.toNat
where
  perBankAt (make : ℤ → ℤ → ℤ → Statistic) (groups : List Text) : Option Statistic :=
    (py.int (matchGroup groups 1)).bind fun dramChip =>
      (py.int (matchGroup groups 2)).bind fun localBank =>
        (py.int (matchGroup groups 3)).map (make dramChip localBank)

/-- A line holds one statistic at most, and its numbers can be converted. -/
def WellFormedLine (line : Text) : Prop :=
  (held py line).length ≤ 1 ∧ ∀ place ∈ held py line, (statisticAt py place).isSome

instance (line : Text) : Decidable (WellFormedLine py line) :=
  inferInstanceAs (Decidable (_ ∧ _))

/-- The statistics of a line. -/
def statistics (line : Text) : List Statistic := (held py line).filterMap (statisticAt py)

/-- What a search returns is the place held for its pattern. -/
theorem search_eq_find? (line : Text) (kind : Kind) :
    (kind.pattern py).search line =
      ((held py line).find? fun place => place.1 = kind).map Prod.snd := by
  have own (other : Kind) : (((other.pattern py).found line).map (other, ·)).find?
      (fun place => place.1 = kind) =
        if other = kind then ((other.pattern py).search line).map (other, ·) else none := by
    rw [List.find?_map, Pattern.search_eq_head?_found]
    split_ifs with same
    · simp only [Function.comp_def, same, decide_true]
      cases (kind.pattern py).found line <;> rfl
    · simp [same]
  rw [held, List.find?_flatMap]
  simp only [own]
  cases result : (kind.pattern py).search line <;>
    cases kind <;> simp [Kind.all, result]

end Held

section Accounting

variable {py : Python} {groups : List Text} {line : Text}

/-- A per-bank count goes to its bank, if there is such a bank. -/
theorem addPerBank_eq {dramChip localBank n : ℤ}
    (chip : py.int (matchGroup groups 1) = some dramChip)
    (bank : py.int (matchGroup groups 2) = some localBank)
    (count : py.int (matchGroup groups 3) = some n) :
    addPerBank py groups 0 = some (Statistic.perBank dramChip localBank n) := by
  rw [addPerBank, chip, bank, count]
  simp only [Option.bind_some, Option.map_some]
  split_ifs with inside
  · refine congrArg some (funext fun b => ?_)
    have position : (b : ℕ) = (globalBankIndex dramChip localBank).toNat ↔
        (b : ℤ) = dramChip * 16 + localBank := by
      rw [globalBankIndex] at inside ⊢
      omega
    simp only [bump, position, Statistic.perBank, Pi.zero_apply, zero_add]
  · refine congrArg some (funext fun b => ?_)
    have := b.lt
    rw [Statistic.perBank, if_neg, Pi.zero_apply]
    rintro here
    rw [globalBankIndex, ← here] at inside
    exact inside ⟨by omega, by simp only [numBanks]; omega⟩

/-- Values from position `k` on. -/
theorem sumM_bulkEntry {texts : List Text} {vals : List ℤ} (converted : texts.mapM py.int = some vals)
    (k : ℕ) : sumM (bulkEntry py) (texts.zipIdx k) =
      some fun b : Bank => if k ≤ (b : ℕ) then vals.getD ((b : ℕ) - k) 0 else 0 := by
  induction texts generalizing vals k with
  | nil =>
    cases converted
    simp
    rfl
  | cons t texts ih =>
    simp only [List.mapM_cons, Option.bind_eq_bind, Option.bind_eq_some_iff,
      Option.pure_def, Option.some.injEq] at converted
    obtain ⟨n, head, rest, tail, rfl⟩ := converted
    rw [List.zipIdx_cons, sumM, ih tail, bulkEntry, head, Option.map_some, Option.bind_some,
      Option.map_some]
    refine congrArg some (funext fun b => ?_)
    rcases lt_trichotomy (b : ℕ) k with before | here | behind
    · simp [bump, before.ne, before.not_ge, before.le.not_gt]
    · simp [bump, here]
    · obtain ⟨d, eq⟩ := Nat.exists_eq_add_of_lt behind
      simp [bump, behind.ne', behind.le, behind, show (b : ℕ) - k = d + 1 by omega,
        show (b : ℕ) - (k + 1) = d by omega]

/-- Bulk counts go to the banks in order, as far as there are banks. -/
theorem addBulk_eq {vals : List ℤ} (converted : (bulkVals groups).mapM py.int = some vals) :
    addBulk py groups 0 = some (Statistic.bulk vals) := by
  rw [addBulk_eq_sumM, sumM_bulkEntry (mapM_take converted numBanks), Option.map_some, zero_add]
  refine congrArg some (funext fun b => ?_)
  simp [Statistic.bulk, List.getD_eq_getElem?_getD, b.isLt]

/-- What a place holds is added by the branch of its pattern. -/
theorem parseStatsLine_place {place : Kind × List Text} {st : Statistic}
    (holds : held py line = [place]) (converts : statisticAt py place = some st) :
    parseStatsLine py 0 line = some st.stats := by
  have searches (kind : Kind) : (kind.pattern py).search line =
      if place.1 = kind then some place.2 else none := by
    rw [search_eq_find?, holds, List.find?_singleton]
    split_ifs <;> simp_all
  obtain ⟨kind, groups⟩ := place
  have rd := searches .dramRd
  have wr := searches .dramWr
  have bulkRd := searches .bulkRd
  have bulkWr := searches .bulkWr
  have cycle := searches .cycle
  have totCycle := searches .totCycle
  simp only [Kind.pattern] at rd wr bulkRd bulkWr cycle totCycle
  simp only [parseStatsLine, parseLine, rd, wr, bulkRd, bulkWr]
  cases kind with
  | dramRd =>
    obtain ⟨dramChip, chip, converts⟩ := Option.bind_eq_some_iff.mp converts
    obtain ⟨localBank, bank, converts⟩ := Option.bind_eq_some_iff.mp converts
    obtain ⟨n, count, rfl⟩ := Option.map_eq_some_iff.mp converts
    simp [addPerBank_eq chip bank count, updateCycles, cycle, totCycle]
    rfl
  | dramWr =>
    obtain ⟨dramChip, chip, converts⟩ := Option.bind_eq_some_iff.mp converts
    obtain ⟨localBank, bank, converts⟩ := Option.bind_eq_some_iff.mp converts
    obtain ⟨n, count, rfl⟩ := Option.map_eq_some_iff.mp converts
    simp [addPerBank_eq chip bank count, updateCycles, cycle, totCycle]
    rfl
  | bulkRd =>
    obtain ⟨vals, converted, rfl⟩ := Option.map_eq_some_iff.mp converts
    simp [addBulk_eq converted, updateCycles, cycle, totCycle]
    rfl
  | bulkWr =>
    obtain ⟨vals, converted, rfl⟩ := Option.map_eq_some_iff.mp converts
    simp [addBulk_eq converted, updateCycles, cycle, totCycle]
    rfl
  | cycle =>
    obtain ⟨n, count, rfl⟩ := Option.map_eq_some_iff.mp converts
    simp [count, updateCycles, cycle, totCycle]
    rfl
  | totCycle =>
    obtain ⟨n, count, rfl⟩ := Option.map_eq_some_iff.mp converts
    simp [count, updateCycles, cycle, totCycle]
    rfl

/-- A line that holds nothing adds nothing. -/
theorem parseStatsLine_nothing (nothing : held py line = []) :
    parseStatsLine py 0 line = some 0 := by
  have searches (kind : Kind) : (kind.pattern py).search line = none := by
    rw [search_eq_find?, nothing]
    rfl
  have rd := searches .dramRd
  have wr := searches .dramWr
  have bulkRd := searches .bulkRd
  have bulkWr := searches .bulkWr
  have cycle := searches .cycle
  have totCycle := searches .totCycle
  simp only [Kind.pattern] at rd wr bulkRd bulkWr cycle totCycle
  simp [parseStatsLine, parseLine, updateCycles, rd, wr, bulkRd, bulkWr, cycle, totCycle]

/-- **A well-formed line** adds the statistic it holds. -/
theorem parseStatsLine_statistics (wellFormed : WellFormedLine py line) :
    parseStatsLine py 0 line = some ((statistics py line).map Statistic.stats).sum := by
  obtain ⟨one, converts⟩ := wellFormed
  match holds : held py line with
  | [] =>
    rw [parseStatsLine_nothing holds]
    simp [statistics, holds]
  | [place] =>
    obtain ⟨st, found⟩ := Option.isSome_iff_exists.mp (converts place (by simp [holds]))
    rw [parseStatsLine_place holds found]
    simp [statistics, holds, found]
  | _ :: _ :: _ =>
    rw [holds] at one
    simp at one

/-- Sums of statistics, count by count. -/
theorem sum_stats (sts : List Statistic) :
    (∀ b, (sts.map Statistic.stats).sum.reads b = (sts.map fun st => st.reads b).sum) ∧
      (∀ b, (sts.map Statistic.stats).sum.writes b = (sts.map fun st => st.writes b).sum) ∧
      (sts.map Statistic.stats).sum.totalCycles = (sts.map Statistic.totalCycles).foldr max 0 := by
  induction sts with
  | nil => exact ⟨fun _ => rfl, fun _ => rfl, rfl⟩
  | cons st sts ih =>
    obtain ⟨reads, writes, cycles⟩ := ih
    refine ⟨fun b => ?_, fun b => ?_, ?_⟩
    · rw [List.map_cons, List.sum_cons, Stats.reads_add, Pi.add_apply, reads, List.map_cons,
        List.sum_cons]
      rfl
    · rw [List.map_cons, List.sum_cons, Stats.writes_add, Pi.add_apply, writes, List.map_cons,
        List.sum_cons]
      rfl
    · rw [List.map_cons, List.sum_cons, Stats.totalCycles_add, cycles, List.map_cons,
        List.foldr_cons]
      rfl

theorem sumM_some {sts : List Statistic} :
    sumM (fun st => some (Statistic.stats st)) sts = some (sts.map Statistic.stats).sum := by
  induction sts with
  | nil => rfl
  | cons st sts ih => rw [sumM, ih, List.map_cons, List.sum_cons]; rfl

/-- **Nothing is lost and nothing counts twice**: the result for well-formed lines is the sum of
the statistics they hold, per-bank or bulk. -/
theorem parseAccelsimOutput_statistics {text : Text}
    (wellFormed : ∀ line ∈ splitlines text, WellFormedLine py line) :
    ∃ result, parseAccelsimOutput py text = some result ∧ (∀ b, result.reads b =
        (((splitlines text).flatMap (statistics py)).map fun st => st.reads b).sum) ∧
      (∀ b, result.writes b =
        (((splitlines text).flatMap (statistics py)).map fun st => st.writes b).sum) ∧
      result.totalCycles =
        (((splitlines text).flatMap (statistics py)).map Statistic.totalCycles).foldr max 0 := by
  refine ⟨_, ?_, sum_stats _⟩
  rw [parseAccelsimOutput, foldlM_parseStatsLine, ← sumM_some]
  refine sumM_flatMap fun line member => ?_
  rw [parseStatsLine_statistics (wellFormed line member), sumM_some]

end Accounting

/-! ## The parser is additive -/

/-- **Parsing is additive**: two texts joined by a newline give the elementwise sums of their
counts and the larger cycle counter, permuted lines give the same result, and well-formed lines
give every statistic they hold once. -/
theorem parseAccelsimOutput_additive (py : Python) :
    (∀ s t, parseAccelsimOutput py (s ++ '\n' :: t) =
      (parseAccelsimOutput py s).bind fun a => (parseAccelsimOutput py t).map fun b =>
        ⟨fun bank => a.reads bank + b.reads bank, fun bank => a.writes bank + b.writes bank,
          max a.totalCycles b.totalCycles⟩) ∧ (∀ s t, (splitlines s).Perm (splitlines t) →
        parseAccelsimOutput py s = parseAccelsimOutput py t) ∧
      ∀ text, (∀ line ∈ splitlines text, WellFormedLine py line) →
        ∃ result, parseAccelsimOutput py text = some result ∧ (∀ b, result.reads b =
            (((splitlines text).flatMap (statistics py)).map fun st => st.reads b).sum) ∧
          (∀ b, result.writes b =
            (((splitlines text).flatMap (statistics py)).map fun st => st.writes b).sum) ∧
          result.totalCycles =
            (((splitlines text).flatMap (statistics py)).map Statistic.totalCycles).foldr max 0 :=
  ⟨parseAccelsimOutput_append py, fun _ _ => parseAccelsimOutput_perm py,
    fun _ => parseAccelsimOutput_statistics⟩

end GpuHotSpot.Pipeline
