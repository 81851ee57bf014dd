import GpuHotSpot.Lib.CppText
import GpuHotSpot.Lib.Fallible

/-!
# Kernel ranges

`parse_kernel_ranges_from_env` and `should_trace_kernel` of
`util/tracer_nvbit/tracer_tool/tracer_tool.cu`, and the grammar that the tool
documents for `DYNAMIC_KERNEL_RANGE`.

An end of 0 stands for an open range. It is also what the id 0 and a range that ends
at 0 are parsed to.

* `parseKernelRangesFromEnv_documented`: what documented tokens are parsed to.
* `shouldTraceKernel_documented`: a kernel is selected if a token covers it, or if one
  that ends at 0 does.
-/

namespace GpuHotSpot.Tracer

/-- `std::regex` and `std::regex_match`: the matcher of a pattern, `none` where the pattern is
rejected. The pattern `.*` matches every text on one line. -/
structure Regex where
  compile : Text → Option (Text → Bool)
  compile_any : ∃ matcher, compile ['.', '*'] = some matcher ∧ ∀ name, OneLine name → matcher name

/-- A library that knows `.*` and patterns of literal characters. -/
def Regex.literal : Regex where
  compile pattern :=
    if pattern = ['.', '*'] then some fun name => name.all fun c => c ≠ '\n' && c ≠ '\r'
    else some fun name => name = pattern
  compile_any := by
    refine ⟨_, if_pos rfl, fun name oneLine => ?_⟩
    simpa [List.all_eq_true, OneLine] using oneLine

/-- `KernelRange`. -/
structure KernelRange where
  start : ℕ
  stop : ℕ
  kernelNameRegexes : List (Text → Bool)

section Parse

variable (regex : Regex)

/-- The numbers of the range in front of a token's `@`. -/
def parseRange (rangePart : Text) : Option (ℕ × ℕ) :=
  if rangePart = [] then some (0, 0)
  else if '-' ∈ rangePart then
    let endStr := behind '-' rangePart
    (stoull (upTo '-' rangePart)).bind fun start =>
      (if endStr = [] then some 0 else stoull endStr).map fun stop => (start, stop)
  else (stoull rangePart).map fun start => (start, start)

/-- The patterns behind a token's `@`. Rejected ones are reported and left out. -/
def parseRegexes (regexPart : Text) : List (Text → Bool) :=
  if regexPart = [] then [['.', '*']].filterMap regex.compile
  else (getlines ',' regexPart).filterMap regex.compile

/-- A token of the variable. -/
def parseToken (token : Text) : Option KernelRange :=
  (parseRange (upTo '@' token)).map fun (start, stop) =>
    ⟨start, stop, parseRegexes regex (behind '@' token)⟩

/-- `parse_kernel_ranges_from_env`: the ranges and the greatest end, `none` where a number is
rejected. -/
def parseKernelRangesFromEnv (envVar : Option Text) : Option (List KernelRange × ℕ) :=
  match envVar with
  | none | some [] => some ([⟨0, 0, parseRegexes regex []⟩], 0)
  | some input =>
    ((tokens input).mapM (parseToken regex)).map fun ranges =>
      (ranges, (ranges.map (·.stop)).foldl max 0)

end Parse

/-- The range of a `KernelRange` holds a kernel. -/
def KernelRange.holds (range : KernelRange) (kernelId : ℕ) : Bool :=
  if range.stop = 0 then decide (range.start ≤ kernelId)
  else decide (range.start ≤ kernelId) && decide (kernelId ≤ range.stop)

/-- `should_trace_kernel`. -/
def shouldTraceKernel (ranges : List KernelRange) (kernelId : ℕ) (kernelName : Text) : Bool :=
  ranges.any fun range => range.holds kernelId && range.kernelNameRegexes.any (· kernelName)

/-! ## The documented grammar -/

/-- A decimal number below `2 ^ 64`. -/
structure Numeral where
  digits : Text
  nonempty : digits ≠ []
  decimal : ∀ c ∈ digits, isDigitIn 10 c = true
  fits : valueIn 10 digits < 2 ^ 64

def Numeral.value (n : Numeral) : ℕ := valueIn 10 n.digits

/-- A kernel id, a range, or an open range. -/
inductive RangeSpec
  | single (id : Numeral)
  | closed (first last : Numeral)
  | openEnded (first : Numeral)

namespace RangeSpec

def render : RangeSpec → Text
  | single id => id.digits
  | closed first last => first.digits ++ '-' :: last.digits
  | openEnded first => first.digits ++ ['-']

/-- The kernels a range is documented to hold. -/
def Contains (k : ℕ) : RangeSpec → Prop
  | single id => k = id.value
  | closed first last => first.value ≤ k ∧ k ≤ last.value
  | openEnded first => first.value ≤ k

/-- The kernels from the start of a range that ends at 0. -/
def FromZeroEnd (k : ℕ) : RangeSpec → Prop
  | single id => id.value = 0
  | closed first last => last.value = 0 ∧ first.value ≤ k
  | openEnded _ => False

end RangeSpec

/-- A name pattern as it may stand in a token. -/
structure NameRegex where
  pattern : Text
  token : Token pattern
  noComma : ',' ∉ pattern

/-- A token: a range and its name patterns, if it has any. -/
structure TokenSpec where
  range : RangeSpec
  regexes : List NameRegex

namespace TokenSpec

def render (t : TokenSpec) : Text :=
  match t.regexes with
  | [] => t.range.render
  | regexes => t.range.render ++ '@' :: List.intercalate [','] (regexes.map (·.pattern))

/-- One of the patterns of a token matches a name, or it has none. -/
def Matches (regex : Regex) (name : Text) (t : TokenSpec) : Prop :=
  t.regexes = [] ∨ ∃ r ∈ t.regexes, ∃ matcher, regex.compile r.pattern = some matcher ∧ matcher name

end TokenSpec

/-- Some token's range holds a kernel and one of its patterns matches the kernel's name. -/
def Covers (regex : Regex) (specs : List TokenSpec) (k : ℕ) (name : Text) : Prop :=
  ∃ t ∈ specs, t.range.Contains k ∧ t.Matches regex name

/-- Some token that ends at 0 starts at or below a kernel and matches its name. -/
def ZeroEndCovers (regex : Regex) (specs : List TokenSpec) (k : ℕ) (name : Text) : Prop :=
  ∃ t ∈ specs, t.range.FromZeroEnd k ∧ t.Matches regex name

/-- A value of the variable that consists of documented tokens. -/
structure Documented (input : Text) (specs : List TokenSpec) : Prop where
  tokens_eq : tokens input = specs.map TokenSpec.render
  some_token : specs ≠ []

/-! ## What documented tokens mean to the tool -/

theorem KernelRange.holds_eq_true {range : KernelRange} {k : ℕ} :
    range.holds k = true ↔ range.start ≤ k ∧ (range.stop = 0 ∨ k ≤ range.stop) := by
  rw [holds]
  split_ifs with zero <;> simp [zero]

theorem Numeral.notMem (n : Numeral) {c : Char} (noDigit : isDigitIn 10 c = false) :
    c ∉ n.digits := by
  intro member
  rw [n.decimal c member] at noDigit
  cases noDigit

theorem Numeral.stoull (n : Numeral) : stoull n.digits = some n.value :=
  stoull_digits n.nonempty n.decimal n.fits

namespace RangeSpec

variable (r : RangeSpec)

/-- The start the tool stores. -/
def start : RangeSpec → ℕ
  | single id => id.value
  | closed first _ => first.value
  | openEnded first => first.value

/-- The end the tool stores, 0 for an open range. -/
def stop : RangeSpec → ℕ
  | single id => id.value
  | closed _ last => last.value
  | openEnded _ => 0

theorem render_ne_nil : r.render ≠ [] := by
  cases r with
  | single id => exact id.nonempty
  | closed first last => simp [render]
  | openEnded first => simp [render]

theorem render_notMem {c : Char} (noDigit : isDigitIn 10 c = false) (noDash : c ≠ '-') :
    c ∉ r.render := by
  cases r with
  | single id => exact id.notMem noDigit
  | closed first last => simp [render, first.notMem noDigit, last.notMem noDigit, noDash]
  | openEnded first => simp [render, first.notMem noDigit, noDash]

theorem parseRange_render : parseRange r.render = some (r.start, r.stop) := by
  have dash : isDigitIn 10 '-' = false := by decide
  rw [parseRange, if_neg r.render_ne_nil]
  cases r with
  | single id =>
    rw [render, if_neg (id.notMem dash), id.stoull]
    rfl
  | closed first last =>
    rw [render, if_pos (by simp), upTo_append_cons (first.notMem dash),
      behind_append_cons (first.notMem dash), first.stoull]
    simp only [if_neg last.nonempty, last.stoull]
    rfl
  | openEnded first =>
    rw [render, if_pos (by simp), upTo_append_cons (first.notMem dash),
      behind_append_cons (first.notMem dash), first.stoull]
    rfl

/-- **A range** holds the kernels it is documented to hold, and if it ends at 0 all from its start
on. Kernels are numbered from 1. -/
theorem holds_iff {k : ℕ} (positive : 0 < k) (regexes : List (Text → Bool)) :
    (⟨r.start, r.stop, regexes⟩ : KernelRange).holds k = true ↔ r.Contains k ∨ r.FromZeroEnd k := by
  rw [KernelRange.holds_eq_true]
  cases r with
  | single id =>
    simp only [start, stop, Contains, FromZeroEnd]
    omega
  | closed first last =>
    simp only [start, stop, Contains, FromZeroEnd]
    omega
  | openEnded first => simp [start, stop, Contains, FromZeroEnd]

end RangeSpec

section Documented

variable (regex : Regex)

/-- The range a documented token is parsed to. -/
def TokenSpec.toRange (t : TokenSpec) : KernelRange :=
  ⟨t.range.start, t.range.stop,
    if t.regexes = [] then [['.', '*']].filterMap regex.compile
    else (t.regexes.map (·.pattern)).filterMap regex.compile⟩

theorem TokenSpec.parseToken_render (t : TokenSpec) :
    parseToken regex t.render = some (t.toRange regex) := by
  have free : '@' ∉ t.range.render := t.range.render_notMem (by decide) (by decide)
  obtain ⟨range, regexes⟩ := t
  cases regexes with
  | nil =>
    rw [parseToken, render, upTo_of_notMem free, behind_of_notMem free, range.parseRange_render]
    rfl
  | cons r rest =>
    have pieces : getlines ',' (List.intercalate [','] ((r :: rest).map (·.pattern))) =
        (r :: rest).map (·.pattern) := by
      refine getlines_intercalate (by simp) ?_ ?_
      · intro t member
        obtain ⟨r', -, rfl⟩ := List.mem_map.mp member
        exact r'.token.ne_nil
      · intro t member
        obtain ⟨r', -, rfl⟩ := List.mem_map.mp member
        exact r'.noComma
    have some_part : List.intercalate [','] ((r :: rest).map (·.pattern)) ≠ [] := by
      intro empty
      rw [empty] at pieces
      simp [getlines] at pieces
    rw [parseToken, render, upTo_append_cons free, behind_append_cons free,
      range.parseRange_render, parseRegexes, if_neg some_part, pieces]
    rfl

/-- **Documented values** are parsed to their ranges, and 0 or the greatest end. -/
theorem parseKernelRangesFromEnv_documented {input : Text} {specs : List TokenSpec}
    (documented : Documented input specs) :
    parseKernelRangesFromEnv regex (some input) =
      some (specs.map (TokenSpec.toRange regex), (specs.map (·.range.stop)).foldl max 0) := by
  have nonempty : input ≠ [] := by
    rintro rfl
    have none := documented.tokens_eq
    rw [show tokens [] = [] from tokensBy_nil] at none
    exact documented.some_token (List.map_eq_nil_iff.mp none.symm)
  have parsed : (tokens input).mapM (parseToken regex) =
      some (specs.map (TokenSpec.toRange regex)) := by
    rw [documented.tokens_eq, List.mapM_map]
    exact mapM_eq_map fun t _ => t.parseToken_render regex
  obtain ⟨c, rest, rfl⟩ := List.exists_cons_of_ne_nil nonempty
  rw [parseKernelRangesFromEnv, parsed, Option.map_some, List.map_map]
  · rfl
  · exact nonempty

theorem TokenSpec.matches_toRange {t : TokenSpec} {name : Text} (oneLine : OneLine name) :
    (t.toRange regex).kernelNameRegexes.any (· name) = true ↔ t.Matches regex name := by
  obtain ⟨any, compiled, matchesAll⟩ := regex.compile_any
  rw [toRange, Matches]
  split_ifs with none
  · simp [none, compiled, matchesAll name oneLine]
  · simp only [none, false_or, List.any_eq_true, List.mem_filterMap, List.mem_map]
    constructor
    · rintro ⟨matcher, ⟨_, ⟨r, member, rfl⟩, compiled⟩, accepts⟩
      exact ⟨r, member, matcher, compiled, accepts⟩
    · rintro ⟨r, member, matcher, compiled, accepts⟩
      exact ⟨matcher, ⟨_, ⟨r, member, rfl⟩, compiled⟩, accepts⟩

/-- **The selection**: documented tokens select the kernels they cover, and those that a token ending
at 0 covers. -/
theorem shouldTraceKernel_documented {specs : List TokenSpec} {k : ℕ} {name : Text}
    (positive : 0 < k) (oneLine : OneLine name) :
    shouldTraceKernel (specs.map (TokenSpec.toRange regex)) k name = true ↔
      Covers regex specs k name ∨ ZeroEndCovers regex specs k name := by
  rw [shouldTraceKernel, List.any_map, List.any_eq_true, Covers, ZeroEndCovers, ← exists_or]
  refine exists_congr fun t => ?_
  rw [Function.comp_apply, Bool.and_eq_true, TokenSpec.matches_toRange regex oneLine,
    TokenSpec.toRange, t.range.holds_iff positive]
  tauto

end Documented

end GpuHotSpot.Tracer
