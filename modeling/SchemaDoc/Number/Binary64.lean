/-!
Binary floating point numbers of 64 bits, held as their bits. A decimal text is rounded to the
nearest number, ties to the even one, by exact arithmetic on natural numbers, so that the result
can be computed by hand and in proofs.
-/

namespace SchemaDoc

/-- A number in the IEEE 754 binary64 format. -/
structure Binary64 where
  bits : UInt64
  deriving DecidableEq, Repr, Inhabited

namespace Binary64

/-- The bits of positive infinity: the exponent field full, the fraction empty. -/
def infinityBits : Nat := 2047 * Nat.pow 2 52

/-- A quotient rounded to the nearest natural number, a half to the even neighbour. -/
def roundHalfEven (numerator denominator : Nat) : Nat :=
  let quotient := numerator / denominator
  let doubled := 2 * (numerator % denominator)
  if doubled < denominator then quotient
  else if doubled > denominator then quotient + 1
  else if quotient % 2 = 0 then quotient else quotient + 1

/-- The scale `q` at which `numerator / denominator / 2 ^ q` has 53 binary digits before the point,
and never below the scale of the subnormal numbers. -/
def scale (numerator denominator : Nat) : Int :=
  let guess : Int := (numerator.log2 : Int) - denominator.log2 - 52
  let fits : Bool :=
    if 0 ≤ guess then decide (denominator * Nat.pow 2 (guess.toNat + 52) ≤ numerator)
    else decide (denominator * Nat.pow 2 52 ≤ numerator * Nat.pow 2 (-guess).toNat)
  max (if fits then guess else guess - 1) (-1074)

/-- The bits of the number nearest to `numerator / denominator`. The significand is added to the
exponent field: its leading digit counts one there, and so does the carry when rounding fills it. -/
def magnitudeBits (numerator denominator : Nat) : Nat :=
  if numerator = 0 then 0
  else
    let power := scale numerator denominator
    let significand :=
      if 0 ≤ power then roundHalfEven numerator (denominator * Nat.pow 2 power.toNat)
      else roundHalfEven (numerator * Nat.pow 2 (-power).toNat) denominator
    min ((power + 1074).toNat * Nat.pow 2 52 + significand) infinityBits

/-- The number nearest to `numerator / denominator`; zero keeps its sign. -/
def ofRatio (negative : Bool) (numerator denominator : Nat) : Binary64 :=
  let magnitude := magnitudeBits numerator denominator
  ⟨UInt64.ofNat (if negative then Nat.pow 2 63 + magnitude else magnitude)⟩

/-- A power of ten that no number except for zero can be multiplied by. -/
def highestPower : Nat := 400

/-- A power of ten that brings `mantissa` to zero when it is divided by it: every decimal digit
counts for more than three binary ones. -/
def lowestPower (mantissa : Nat) : Nat := mantissa.log2 + 1100

/-- The number nearest to `mantissa * 10 ^ exponent`. Powers past the highest and the lowest one
change nothing, so they are not computed. -/
def ofDecimal (negative : Bool) (mantissa : Nat) (exponent : Int) : Binary64 :=
  if 0 ≤ exponent then
    ofRatio negative (mantissa * Nat.pow 10 (min exponent.toNat highestPower)) 1
  else ofRatio negative mantissa (Nat.pow 10 (min (-exponent).toNat (lowestPower mantissa)))

def infinity (negative : Bool) : Binary64 :=
  ⟨UInt64.ofNat (if negative then Nat.pow 2 63 + infinityBits else infinityBits)⟩

/-- The value that is no number. -/
def notNumber : Binary64 := ⟨UInt64.ofNat (infinityBits + Nat.pow 2 51)⟩

def isNegative (number : Binary64) : Bool := decide (Nat.pow 2 63 ≤ number.bits.toNat)

def magnitude (number : Binary64) : Nat := number.bits.toNat % Nat.pow 2 63

def isFinite (number : Binary64) : Bool := decide (number.magnitude < infinityBits)

/-- A finite magnitude as `m * 2 ^ q`. -/
def decode (number : Binary64) : Nat × Int :=
  let field : Nat := number.magnitude / Nat.pow 2 52
  let fraction : Nat := number.magnitude % Nat.pow 2 52
  if field = 0 then (fraction, -1074) else (fraction + Nat.pow 2 52, Int.ofNat field - 1075)

end Binary64

end SchemaDoc
