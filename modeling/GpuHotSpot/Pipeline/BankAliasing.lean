import GpuHotSpot.Pipeline.AccelSimTraceParser

/-!
# Which bank a per-bank count goes to

A per-bank line names a chip and a bank of that chip. The stack has eight chips of
sixteen banks, and `_global_bank_index` numbers them. What is checked afterwards is
the number alone, so that a bank 16 of the first chip passes for bank 0 of the
second.

* `creditedTo_iff`: the bank a line counts for.
* `noAliasing_iff`: when no bank gets what belongs to another.
-/

namespace GpuHotSpot.Pipeline

section Line

variable (py : Python)

/-- The per-bank count `_parse_line` finds in a line, with its numbers. -/
inductive PerBank : Text → ℤ → ℤ → ℤ → Prop
  | rd {line : Text} {groups : List Text} {dramChip localBank n : ℤ} :
    (dramRdRe py).search line = some groups →
    py.int (matchGroup groups 1) = some dramChip → py.int (matchGroup groups 2) = some localBank →
    py.int (matchGroup groups 3) = some n → PerBank line dramChip localBank n
  | wr {line : Text} {groups : List Text} {dramChip localBank n : ℤ} :
    (dramRdRe py).search line = none → (dramWrRe py).search line = some groups →
    py.int (matchGroup groups 1) = some dramChip → py.int (matchGroup groups 2) = some localBank →
    py.int (matchGroup groups 3) = some n → PerBank line dramChip localBank n

/-- `_parse_line` changes a count of a bank. -/
def CreditedTo (line : Text) (b : Bank) : Prop :=
  ∃ s s', parseLine py line s = some s' ∧ (s'.reads b ≠ s.reads b ∨ s'.writes b ≠ s.writes b)

/-- A chip of the stack and one of its banks. -/
def NamesBank (dramChip localBank : ℤ) : Prop :=
  0 ≤ dramChip ∧ dramChip < 8 ∧ 0 ≤ localBank ∧ localBank < 16

/-- A per-bank line counts for one bank at most, lines that name different banks count for
different banks, and a line that names none counts for none. -/
structure NoAliasing (lines : List Text) : Prop where
  single : ∀ line ∈ lines, ∀ dramChip localBank n, PerBank py line dramChip localBank n →
    ∀ b b', CreditedTo py line b → CreditedTo py line b' → b = b'
  apart : ∀ line ∈ lines, ∀ line' ∈ lines, ∀ dramChip localBank n dramChip' localBank' n',
    PerBank py line dramChip localBank n → PerBank py line' dramChip' localBank' n' →
      (dramChip, localBank) ≠ (dramChip', localBank') →
        ∀ b, ¬ (CreditedTo py line b ∧ CreditedTo py line' b)
  unnamed : ∀ line ∈ lines, ∀ dramChip localBank n, PerBank py line dramChip localBank n →
    ¬ NamesBank dramChip localBank → ∀ b, ¬ CreditedTo py line b

end Line

variable {py : Python} {line : Text} {dramChip localBank n : ℤ}

/-- **The bank of a line** is the one with the number of the pair, if there is one and there is
something to count. -/
theorem creditedTo_iff (perBank : PerBank py line dramChip localBank n) (b : Bank) :
    CreditedTo py line b ↔ n ≠ 0 ∧ (b : ℤ) = globalBankIndex dramChip localBank := by
  have counts : Statistic.perBank dramChip localBank n b ≠ 0 ↔
      n ≠ 0 ∧ (b : ℤ) = globalBankIndex dramChip localBank := by
    rw [Statistic.perBank, globalBankIndex]
    split_ifs with here <;> simp [here]
  rw [← counts, CreditedTo]
  cases perBank with
  | rd found chip bank count =>
    simp only [parseLine, found, addPerBank_add py _ (Stats.reads _),
      addPerBank_eq chip bank count, Option.map_some, Option.some.injEq]
    constructor
    · rintro ⟨s, _, rfl, changed | changed⟩
      · simpa using changed
      · exact absurd rfl changed
    · intro nonzero
      exact ⟨0, _, rfl, .inl (by simpa using nonzero)⟩
  | wr other found chip bank count =>
    simp only [parseLine, other, found, addPerBank_add py _ (Stats.writes _),
      addPerBank_eq chip bank count, Option.map_some, Option.some.injEq]
    constructor
    · rintro ⟨s, _, rfl, changed | changed⟩
      · exact absurd rfl changed
      · simpa using changed
    · intro nonzero
      exact ⟨0, _, rfl, .inr (by simpa using nonzero)⟩

/-- **No aliasing**, among any lines, exactly if every pair with a number of the stack and something
to count names one of the sixteen banks of its chip. -/
theorem noAliasing_iff (py : Python) (lines : List Text) :
    NoAliasing py lines ↔
      ∀ line ∈ lines, ∀ dramChip localBank n, PerBank py line dramChip localBank n → n ≠ 0 →
        0 ≤ globalBankIndex dramChip localBank → globalBankIndex dramChip localBank < numBanks →
          0 ≤ localBank ∧ localBank < 16 := by
  constructor
  · intro noAliasing line member dramChip localBank n perBank counts low high
    by_contra outside
    have unnamed : ¬ NamesBank dramChip localBank := fun named => outside named.2.2
    have isNumber : (globalBankIndex dramChip localBank).toNat < numBanks :=
      (Int.toNat_lt low).mpr high
    refine noAliasing.unnamed line member _ _ _ perBank unnamed
      ⟨(globalBankIndex dramChip localBank).toNat, isNumber⟩ ?_
    exact (creditedTo_iff perBank _).mpr ⟨counts, Int.toNat_of_nonneg low⟩
  · intro within
    -- a credited pair names the bank it is credited to
    have named {line : Text} (member : line ∈ lines) {dramChip localBank n : ℤ}
        (perBank : PerBank py line dramChip localBank n) {b : Bank}
        (credited : CreditedTo py line b) :
        (b : ℤ) = dramChip * 16 + localBank ∧ 0 ≤ localBank ∧ localBank < 16 := by
      obtain ⟨counts, index⟩ := (creditedTo_iff perBank b).mp credited
      have bank : (b : ℤ) < numBanks := Int.ofNat_lt.mpr b.isLt
      exact ⟨index, within line member _ _ _ perBank counts (index ▸ Int.natCast_nonneg _)
        (index ▸ bank)⟩
    refine ⟨?_, ?_, ?_⟩
    · intro line member dramChip localBank n perBank b b' credited credited'
      have index := (named member perBank credited).1
      have index' := (named member perBank credited').1
      exact Fin.ext (by omega)
    · rintro line member line' member' dramChip localBank n dramChip' localBank' n' perBank perBank'
        different b ⟨credited, credited'⟩
      obtain ⟨index, low, high⟩ := named member perBank credited
      obtain ⟨index', low', high'⟩ := named member' perBank' credited'
      exact different (Prod.ext (by simp only; omega) (by simp only; omega))
    · intro line member dramChip localBank n perBank unnamed b credited
      obtain ⟨index, low, high⟩ := named member perBank credited
      have bank := b.lt
      exact unnamed ⟨by omega, by omega, low, high⟩

/-- Bank 16 of chip 0 and bank 0 of chip 1 are both counted for bank 16 of the stack. -/
theorem exists_aliasing :
    ¬ ∀ (py : Python) (text : Text), NoAliasing py (splitlines text) := by
  intro claim
  have sixteenth : PerBank .ascii "dram[0]: bk[16]: rd = 5".toList 0 16 5 :=
    .rd (show _ = some [['0'], ['1', '6'], ['5']] by decide +kernel) (by decide +kernel)
      (by decide +kernel) (by decide +kernel)
  have next : PerBank .ascii "dram[1]: bk[0]: rd = 7".toList 1 0 7 :=
    .rd (show _ = some [['1'], ['0'], ['7']] by decide +kernel) (by decide +kernel)
      (by decide +kernel) (by decide +kernel)
  refine (claim .ascii "dram[0]: bk[16]: rd = 5\ndram[1]: bk[0]: rd = 7".toList).apart
    _ (by decide +kernel) _ (by decide +kernel) _ _ _ _ _ _ sixteenth next (by decide) 16 ⟨?_, ?_⟩
  · exact (creditedTo_iff sixteenth 16).mpr (by decide)
  · exact (creditedTo_iff next 16).mpr (by decide)

end GpuHotSpot.Pipeline
