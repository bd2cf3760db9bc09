/-! # Binary floating-point numbers

A finite double-precision number is a sign and a whole significand scaled by a power of two. The
pair is canonical, so equal numbers (the two zeros apart) are equal values. `ofFraction?` rounds an
exact quotient to the nearest number, a tie to the even significand. Decimals, products, quotients
and powers of ten are rounded through it. All fail only when the result would be infinite.
-/

namespace ProgramGraphs.Json

/-- One significand and exponent stand for each magnitude: the significand fills its 53 bits unless
the exponent is already the least one. -/
def Binary64.Canonical (significand : Nat) (exponent : Int) : Prop :=
  significand < Nat.pow 2 53 ∧ -1074 ≤ exponent ∧ exponent ≤ 971 ∧
    (Nat.pow 2 52 ≤ significand ∨ exponent = -1074)

instance (significand : Nat) (exponent : Int) :
    Decidable (Binary64.Canonical significand exponent) :=
  inferInstanceAs (Decidable (_ ∧ _ ∧ _ ∧ (_ ∨ _)))

/-- The finite number `±significand * 2 ^ exponent`. -/
structure Binary64 where
  negative : Bool
  significand : Nat
  exponent : Int
  canonical : Binary64.Canonical significand exponent
  deriving DecidableEq

/-- The whole number nearest to a quotient, a tie going to the even neighbour. -/
def roundHalfEven (numerator denominator : Nat) : Nat :=
  let quotient := numerator / denominator
  let twice := 2 * (numerator % denominator)
  if twice < denominator then quotient
  else if denominator < twice then quotient + 1
  else quotient + quotient % 2

namespace Binary64

/-- Zero keeps its sign. -/
def zero (negative : Bool) : Binary64 :=
  ⟨negative, 0, -1074, by decide⟩

/-- The number with these parts, if they are canonical. -/
def ofParts? (negative : Bool) (significand : Nat) (exponent : Int) : Option Binary64 :=
  if canonical : Canonical significand exponent then
    some ⟨negative, significand, exponent, canonical⟩
  else none

/-- The quotient of a fraction by `2 ^ exponent`, again as a fraction. -/
def unscale (numerator denominator : Nat) (exponent : Int) : Nat × Nat :=
  (numerator * Nat.pow 2 (-exponent).toNat, denominator * Nat.pow 2 exponent.toNat)

/-- The exponent at which a fraction's whole part has 53 bits, or the least exponent. -/
def exponentOf (numerator denominator : Nat) : Int :=
  let low := max (-1074) ((numerator.log2 : Int) - denominator.log2 - 53)
  let (n, d) := unscale numerator denominator low
  if Nat.pow 2 53 ≤ n / d then low + 1 else low

/-- The number nearest to a fraction, or nothing when it lies beyond the largest one. -/
def ofFraction? (negative : Bool) (numerator denominator : Nat) : Option Binary64 :=
  if numerator = 0 then some (zero negative)
  else
    let exponent := exponentOf numerator denominator
    let (n, d) := unscale numerator denominator exponent
    let significand := roundHalfEven n d
    if significand = Nat.pow 2 53 then ofParts? negative (Nat.pow 2 52) (exponent + 1)
    else ofParts? negative significand exponent

/-- The number nearest to `digits * 10 ^ exponent`. Magnitudes far outside the format's range are
settled from the number of digits, since their powers of ten would be needlessly large. -/
def ofDecimal? (negative : Bool) (digits : Nat) (exponent : Int) : Option Binary64 :=
  let magnitude := ((Nat.toDigits 10 digits).length : Int) + exponent
  if digits = 0 ∨ magnitude < -330 then some (zero negative)
  else if 310 < magnitude then none
  else ofFraction? negative (digits * Nat.pow 10 exponent.toNat) (Nat.pow 10 (-exponent).toNat)

/-- The magnitude as a fraction of whole numbers. -/
def fraction (number : Binary64) : Nat × Nat :=
  (number.significand * Nat.pow 2 number.exponent.toNat, Nat.pow 2 (-number.exponent).toNat)

/-- The product of two numbers, rounded. -/
def mul? (left right : Binary64) : Option Binary64 :=
  let (n, d) := left.fraction
  let (m, e) := right.fraction
  ofFraction? (left.negative != right.negative) (n * m) (d * e)

/-- The quotient of two numbers, rounded; there is none by zero. -/
def div? (left right : Binary64) : Option Binary64 :=
  let (n, d) := left.fraction
  let (m, e) := right.fraction
  if m = 0 then none else ofFraction? (left.negative != right.negative) (n * e) (d * m)

/-- The exponent of the greatest power of ten within the range of the numbers. -/
def maxTenPower : Nat := 308

/-- A power of ten, rounded. -/
def tenPower? (places : Nat) : Option Binary64 :=
  if places ≤ maxTenPower then ofFraction? false (Nat.pow 10 places) 1 else none

/-- A number times a power of ten: the power is rounded first, and then the product. -/
def raise? (number : Binary64) (places : Nat) : Option Binary64 :=
  if number.significand = 0 then some number
  else (tenPower? places).bind number.mul?

/-- A number divided by a power of ten: the power is rounded first, and then the quotient. -/
def divideByTenPower? (number : Binary64) (places : Nat) : Option Binary64 :=
  (tenPower? places).bind number.div?

/-- A number divided by a power of ten, in steps if the power lies beyond the range of the numbers,
until nothing is left of the number. -/
def lower? (number : Binary64) (places : Nat) : Option Binary64 :=
  if number.significand = 0 then some number
  else if maxTenPower < places then
    (number.divideByTenPower? maxTenPower).bind (·.lower? (places - maxTenPower))
  else number.divideByTenPower? places
termination_by places
decreasing_by
  simp only [maxTenPower] at *
  omega

end Binary64

end ProgramGraphs.Json
