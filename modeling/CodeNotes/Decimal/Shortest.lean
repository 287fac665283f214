/-!
# Shortest decimals

A decimal fraction is rounded to the nearest number with a significand of 53 binary digits, the even
one of two that are equally near (`Binary.nearest`).  Of the decimals that round to the same such
number, `Binary.shortest` finds one with the fewest digits, and of these the nearest one.  All
arithmetic is on natural numbers: a quotient is compared by multiplying out.
-/

namespace CodeNotes

/-- The number `digits * 10 ^ exponent`. -/
structure Decimal where
  digits : Nat
  exponent : Int
deriving DecidableEq, Repr

/-- The number `significand * 2 ^ exponent`. -/
structure Binary where
  significand : Nat
  exponent : Int
deriving DecidableEq, Repr

/-- A positive fraction. -/
structure Fraction where
  numerator : Nat
  denominator : Nat
deriving DecidableEq, Repr

namespace Fraction

/-- The fraction `n * base ^ exponent`. -/
def scaled (n base : Nat) (exponent : Int) : Fraction :=
  if exponent < 0 then ⟨n, base.pow (-exponent).toNat⟩ else ⟨n * base.pow exponent.toNat, 1⟩

/-- The quotient of two fractions. -/
def quotient (a b : Fraction) : Fraction :=
  ⟨a.numerator * b.denominator, a.denominator * b.numerator⟩

/-- The whole part. -/
def floor (a : Fraction) : Nat :=
  a.numerator / a.denominator

/-- The nearest whole number, the even one of two that are equally near. -/
def roundEven (a : Fraction) : Nat :=
  let whole := a.floor
  let twice := 2 * (a.numerator % a.denominator)
  if twice < a.denominator then whole
  else if a.denominator < twice then whole + 1
  else if whole % 2 = 0 then whole
  else whole + 1

/-- Whether one fraction is less than another. -/
def less (a b : Fraction) : Bool :=
  a.numerator * b.denominator < b.numerator * a.denominator

end Fraction

namespace Binary

/-- The least exponent of a number. -/
def leastExponent : Int := -1074

/-- The greatest exponent of a number. -/
def greatestExponent : Int := 971

/-- The number of binary digits of a significand. -/
def precision : Nat := 53

/-- The nearest number to a decimal, or nothing if the decimal is too great. -/
def nearest (d : Decimal) : Option Binary :=
  if d.digits = 0 then some ⟨0, 0⟩
  else
    let value := Fraction.scaled d.digits 10 d.exponent
    let guess : Int :=
      (value.numerator.log2 : Int) - (value.denominator.log2 : Int) - ((precision - 1 : Nat) : Int)
    -- the guess is at most one too high
    let exponent :=
      if (value.quotient (Fraction.scaled 1 2 guess)).floor < Nat.pow 2 (precision - 1) then
        guess - 1
      else guess
    let exponent := max exponent leastExponent
    let significand := (value.quotient (Fraction.scaled 1 2 exponent)).roundEven
    let result : Binary :=
      if significand = Nat.pow 2 precision then ⟨Nat.pow 2 (precision - 1), exponent + 1⟩
      else ⟨significand, exponent⟩
    if result.exponent > greatestExponent then none else some result

/-- Whether a decimal rounds to a positive number.  The bounds count half a step up and half a step
down, where the step below a power of two is half as wide; they are included if the significand is
even. -/
def covers (b : Binary) (d : Decimal) : Bool :=
  let value := Fraction.scaled d.digits 10 d.exponent
  let narrow := b.significand = Nat.pow 2 (precision - 1) ∧ b.exponent > leastExponent
  let low := Fraction.scaled (4 * b.significand - if narrow then 1 else 2) 2 (b.exponent - 2)
  let high := Fraction.scaled (4 * b.significand + 2) 2 (b.exponent - 2)
  if b.significand % 2 = 0 then !value.less low && !high.less value
  else low.less value && value.less high

/-- The decimal exponent of the first digit of a positive number, counted from a guess upward. -/
def magnitude (value : Fraction) : Nat → Int → Int
  | 0, e => e
  | fuel + 1, e =>
    if value.less (Fraction.scaled 1 10 (e + 1)) then e else magnitude value fuel (e + 1)

/-- A decimal with the fewest digits that rounds to a positive number, and of these the nearest. -/
def shortest (b : Binary) : Decimal :=
  let value := Fraction.scaled b.significand 2 b.exponent
  let first := magnitude value 700 (-330)
  let candidate (count : Nat) : Option Decimal :=
    let exponent : Int := first + 1 - (count : Int)
    let grid := value.quotient (Fraction.scaled 1 10 exponent)
    let below : Decimal := ⟨grid.floor, exponent⟩
    let above : Decimal := ⟨grid.floor + 1, exponent⟩
    let nearer := if grid.roundEven = grid.floor then [below, above] else [above, below]
    nearer.find? fun d => d.digits > 0 && b.covers d
  ((List.range 17).findSome? fun n => candidate (n + 1)).getD ⟨b.significand, 0⟩

end Binary

namespace Decimal

/-- A decimal without exponent mark and with at least one digit after the point. -/
def positional (d : Decimal) : String :=
  if d.exponent < 0 then
    let places := (-d.exponent).toNat
    let digits := d.digits.repr.toList
    let padded := List.replicate (places + 1 - digits.length) '0' ++ digits
    let whole := padded.take (padded.length - places)
    let fraction := padded.drop (padded.length - places)
    -- zeros at the end of the fraction say nothing
    let kept := (fraction.reverse.dropWhile (· == '0')).reverse
    String.ofList (whole ++ '.' :: if kept.isEmpty then ['0'] else kept)
  else d.digits.repr ++ String.ofList (List.replicate d.exponent.toNat '0') ++ ".0"

end Decimal

end CodeNotes
