import ProgramGraphs.Json.Binary64

/-! # Shortest decimals

The text of a floating-point number has the fewest digits that stand for it, which means that no
other number is nearer to them. Of those it has the digits nearest to the number, a tie going to the
even last digit. Grids of one, two, up to seventeen digits are tried in turn; if any point of a grid
stands for the number, one of the two neighbours of the number does.
-/

namespace ProgramGraphs.Json

/-- The magnitude `digits * 10 ^ exponent`. -/
structure Decimal where
  digits : Nat
  exponent : Int
  deriving DecidableEq, Repr

namespace Decimal

/-- The exponent of the leading decimal digit of a positive fraction. -/
def leadingExponent (numerator denominator : Nat) : Int :=
  if denominator ≤ numerator then
    ((Nat.toDigits 10 (numerator / denominator)).length : Int) - 1
  else -((Nat.toDigits 10 (denominator / numerator)).length : Int)

/-- A decimal with a leading one and zeros is written without the zeros. -/
def ofGrid (count candidate : Nat) (unit : Int) : Decimal :=
  if candidate = Nat.pow 10 count then ⟨1, unit + count⟩ else ⟨candidate, unit⟩

/-- The number itself: every whole multiple of a power of two is a decimal. -/
def exact (number : Binary64) : Decimal where
  digits :=
    number.significand * Nat.pow 2 number.exponent.toNat * Nat.pow 5 (-number.exponent).toNat
  exponent := min number.exponent 0

/-- Whether the number nearest to a decimal, with the sign of a number, is that number. -/
def standsFor (number : Binary64) (decimal : Decimal) : Bool :=
  Binary64.ofDecimal? number.negative decimal.digits decimal.exponent == some number

/-- The decimal of `count` digits nearest to a number among those that stand for it. -/
def onGrid? (number : Binary64) (count : Nat) : Option Decimal :=
  let (numerator, denominator) := number.fraction
  let unit := leadingExponent numerator denominator - count + 1
  let n := numerator * Nat.pow 10 (-unit).toNat
  let d := denominator * Nat.pow 10 unit.toNat
  let below := n / d
  let nearer := if roundHalfEven n d = below then [below, below + 1] else [below + 1, below]
  (nearer.map (ofGrid count · unit)).find? (standsFor number)

/-- The shortest decimal that stands for a number. One of seventeen digits always does, so the
number itself need not be written out. -/
def shortest (number : Binary64) : Decimal :=
  ((List.range 17).findSome? fun count => onGrid? number (count + 1)).getD (exact number)

/-- Positional notation serves leading exponents from -5 to 15. -/
def positional (leading : Int) : Bool :=
  -5 ≤ leading && leading ≤ 15

/-- Digits in positional notation always carry a point. -/
def positionalChars (digits : List Char) (exponent : Int) : List Char :=
  if 0 ≤ exponent then digits ++ List.replicate exponent.toNat '0' ++ ['.', '0']
  else
    let places := (-exponent).toNat
    if places < digits.length then
      digits.take (digits.length - places) ++ '.' :: digits.drop (digits.length - places)
    else ['0', '.'] ++ List.replicate (places - digits.length) '0' ++ digits

/-- Digits in scientific notation have a point only before further digits, and a signed
exponent. -/
def scientificChars (digits : List Char) (leading : Int) : List Char :=
  let fraction := if digits.length ≤ 1 then [] else '.' :: digits.drop 1
  let sign := if leading < 0 then '-' else '+'
  digits.take 1 ++ fraction ++ 'e' :: sign :: Nat.toDigits 10 leading.natAbs

/-- The text of a magnitude. -/
def chars (decimal : Decimal) : List Char :=
  let digits := Nat.toDigits 10 decimal.digits
  let leading := decimal.exponent + digits.length - 1
  if positional leading then positionalChars digits decimal.exponent
  else scientificChars digits leading

end Decimal

/-- The text of a floating-point number: its sign, then its shortest decimal. -/
def Binary64.chars (number : Binary64) : List Char :=
  let magnitude :=
    if number.significand = 0 then ['0', '.', '0'] else (Decimal.shortest number).chars
  if number.negative then '-' :: magnitude else magnitude

end ProgramGraphs.Json
