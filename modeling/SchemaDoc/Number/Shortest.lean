import SchemaDoc.Number.Binary64

/-!
The shortest decimal text that reads back as the same number. For each count of digits the two
neighbours of the value on that decimal grid are tried; the first grid with a neighbour inside the
interval of reals that round to the number wins.
-/

namespace SchemaDoc.Binary64

/-- A positive decimal `digits * 10 ^ exponent`. -/
structure Decimal where
  digits : Nat
  exponent : Int
  deriving DecidableEq, Repr

/-- Drop zeros at the end of the digits; `rounds` bounds how many. -/
def Decimal.trim : Nat → Decimal → Decimal
  | 0, decimal => decimal
  | rounds + 1, decimal =>
    if decimal.digits ≠ 0 ∧ decimal.digits % 10 = 0 then
      Decimal.trim rounds ⟨decimal.digits / 10, decimal.exponent + 1⟩
    else decimal

/-- The position of the leading decimal digit of `numerator / denominator`. -/
def leadingPlace (numerator denominator : Nat) : Int :=
  if denominator ≤ numerator then ((Nat.toDigits 10 (numerator / denominator)).length : Int) - 1
  else
    let digits := (Nat.toDigits 10 (denominator / numerator)).length
    if numerator * Nat.pow 10 (digits - 1) = denominator then 1 - (digits : Int)
    else -(digits : Int)

/-- The interval of reals that round to a number, in units of `2 ^ power`: its ends, the number
itself between them, and whether the ends belong to it. -/
structure Interval where
  low : Nat
  value : Nat
  high : Nat
  closed : Bool
  power : Int

def interval (significand : Nat) (power : Int) : Interval :=
  let atBoundary : Bool := significand == Nat.pow 2 52 && decide (-1074 < power)
  { low := 4 * significand - (if atBoundary then 1 else 2)
    value := 4 * significand
    high := 4 * significand + 2
    closed := significand % 2 == 0
    power := power - 2 }

/-- Whether `candidate * 10 ^ place` lies in the interval. -/
def Interval.holds (bounds : Interval) (candidate : Nat) (place : Int) : Bool :=
  let point := candidate * Nat.pow 10 place.toNat * Nat.pow 2 (-bounds.power).toNat
  let unit := Nat.pow 10 (-place).toNat * Nat.pow 2 bounds.power.toNat
  if bounds.closed then decide (bounds.low * unit ≤ point) && decide (point ≤ bounds.high * unit)
  else decide (bounds.low * unit < point) && decide (point < bounds.high * unit)

/-- The best decimal of at most `count` digits inside the interval, of two the nearer one and of
equally near ones the upper one. -/
def Interval.onGrid (bounds : Interval) (leading : Int) (count : Nat) : Option Decimal :=
  let place := leading - (count : Int) + 1
  let numerator := bounds.value * Nat.pow 2 bounds.power.toNat * Nat.pow 10 (-place).toNat
  let denominator := Nat.pow 2 (-bounds.power).toNat * Nat.pow 10 place.toNat
  let below := numerator / denominator
  let nearerBelow := decide (2 * (numerator % denominator) < denominator)
  match bounds.holds below place, bounds.holds (below + 1) place with
  | true, true => some ⟨if nearerBelow then below else below + 1, place⟩
  | true, false => some ⟨below, place⟩
  | false, true => some ⟨below + 1, place⟩
  | false, false => none

/-- The fewest digits that read back. Seventeen digits always do. -/
def shortest (number : Binary64) : Decimal :=
  let (significand, power) := number.decode
  if significand = 0 then ⟨0, 0⟩
  else
    let bounds := interval significand power
    let leading :=
      leadingPlace (bounds.value * Nat.pow 2 bounds.power.toNat) (Nat.pow 2 (-bounds.power).toNat)
    match (List.range 17).findSome? (fun index => bounds.onGrid leading (index + 1)) with
    | some decimal => decimal.trim 17
    | none => ⟨significand, 0⟩

/-- All digits written out, without an exponent and without a point after a whole number. -/
def Decimal.positional (decimal : Decimal) : String :=
  let digits := Nat.toDigits 10 decimal.digits
  if 0 ≤ decimal.exponent then
    String.ofList (digits ++ List.replicate decimal.exponent.toNat '0')
  else
    let places := (-decimal.exponent).toNat
    let padded := List.replicate (places + 1 - digits.length) '0' ++ digits
    let whole := padded.length - places
    String.ofList (padded.take whole ++ '.' :: padded.drop whole)

/-- The text of a number for people. -/
def display (number : Binary64) : String :=
  let text :=
    if number.isFinite then number.shortest.positional
    else if number.magnitude = infinityBits then "inf" else "NaN"
  if number.isNegative && text != "NaN" then "-" ++ text else text

/-- The text of a finite number in a JSON document: at least one digit after a point, and an
exponent below `1e-5` and from `1e16` on. -/
def jsonText (number : Binary64) : String :=
  let decimal := number.shortest
  let digits := Nat.toDigits 10 decimal.digits
  let point : Int := (digits.length : Int) + decimal.exponent
  let body :=
    if decimal.digits = 0 then "0.0"
    else if -5 < point && point ≤ 16 then
      if 0 ≤ decimal.exponent then decimal.positional ++ ".0" else decimal.positional
    else
      let mantissa := match digits with
        | [] => []
        | [digit] => [digit]
        | digit :: more => digit :: '.' :: more
      String.ofList mantissa ++ "e" ++ toString (point - 1)
  if number.isNegative then "-" ++ body else body

end SchemaDoc.Binary64
