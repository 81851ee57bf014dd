import Mathlib.Data.Nat.Cast.Defs

/-!
# Numerals of a field

A numeral of a field stands for a cast, and its elaboration asks for a proof that it is at
least two. Here that proof is one fact with a name for each numeral, so that definitions of
different modules that use a numeral use the same fact.
-/

namespace GpuHotSpot.Literals

scoped instance atLeastTwo_2 : Nat.AtLeastTwo 2 := ⟨by decide⟩
scoped instance atLeastTwo_3 : Nat.AtLeastTwo 3 := ⟨by decide⟩
scoped instance atLeastTwo_4 : Nat.AtLeastTwo 4 := ⟨by decide⟩
scoped instance atLeastTwo_5 : Nat.AtLeastTwo 5 := ⟨by decide⟩
scoped instance atLeastTwo_6 : Nat.AtLeastTwo 6 := ⟨by decide⟩
scoped instance atLeastTwo_8 : Nat.AtLeastTwo 8 := ⟨by decide⟩
scoped instance atLeastTwo_10 : Nat.AtLeastTwo 10 := ⟨by decide⟩
scoped instance atLeastTwo_45 : Nat.AtLeastTwo 45 := ⟨by decide⟩
scoped instance atLeastTwo_95 : Nat.AtLeastTwo 95 := ⟨by decide⟩
scoped instance atLeastTwo_100 : Nat.AtLeastTwo 100 := ⟨by decide⟩
scoped instance atLeastTwo_1000 : Nat.AtLeastTwo 1000 := ⟨by decide⟩
scoped instance atLeastTwo_10000 : Nat.AtLeastTwo 10000 := ⟨by decide⟩
scoped instance atLeastTwo_100000 : Nat.AtLeastTwo 100000 := ⟨by decide⟩
scoped instance atLeastTwo_1000000 : Nat.AtLeastTwo 1000000 := ⟨by decide⟩
scoped instance atLeastTwo_210718 : Nat.AtLeastTwo 210718 := ⟨by decide⟩
scoped instance atLeastTwo_1070333 : Nat.AtLeastTwo 1070333 := ⟨by decide⟩
scoped instance atLeastTwo_4562595 : Nat.AtLeastTwo 4562595 := ⟨by decide⟩
scoped instance atLeastTwo_5405409 : Nat.AtLeastTwo 5405409 := ⟨by decide⟩

end GpuHotSpot.Literals
