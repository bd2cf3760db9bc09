import ProgramGraphs.Json.Binary64

/-! # Words scaled by powers of ten

The digits of a number with a point or an exponent are collected in a word of 64 bits. Digits that
the word does not hold add nothing to it: before the point they still count as places, after the
point they are passed over. The word is rounded to a floating-point number and then scaled by a
power of ten, which rounds once more, so a decimal is not always read as the number nearest to it.
-/

namespace ProgramGraphs.Json

/-- The value of a decimal digit. -/
def digitValue (digit : Char) : Nat :=
  digit.toNat - 48

/-- The number `word * 10 ^ exponent`. -/
structure ScaledWord where
  word : UInt64
  exponent : Int
  deriving DecidableEq, Repr

namespace ScaledWord

/-- Append digits to a word until one does not fit; that one and all after it are left over. -/
def fill (word : UInt64) : List Char → UInt64 × List Char
  | [] => (word, [])
  | digit :: rest =>
    if fits : 10 * word.toNat + digitValue digit < UInt64.size then
      fill (UInt64.ofNatLT (10 * word.toNat + digitValue digit) fits) rest
    else (word, digit :: rest)

/-- The number written by digits before and after a point, times a power of ten. -/
def ofDigits (whole fraction : List Char) (exponent : Int) : ScaledWord :=
  let (head, surplus) := fill 0 whole
  let (word, dropped) := fill head fraction
  ⟨word, exponent + surplus.length - (fraction.length - dropped.length : Nat)⟩

/-- The floating-point number that a scaled word is read as, or nothing beyond the largest one. -/
def toBinary64? (negative : Bool) (scaled : ScaledWord) : Option Binary64 := do
  let number ← Binary64.ofFraction? negative scaled.word.toNat 1
  if 0 ≤ scaled.exponent then number.raise? scaled.exponent.toNat
  else number.lower? (-scaled.exponent).toNat

end ScaledWord

end ProgramGraphs.Json
