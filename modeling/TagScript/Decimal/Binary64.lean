/-!
# Doubles as Exact Numbers

A finite double is `± mantissa · 2 ^ exponent` with natural `mantissa`. This module reads that
form off the bits of a `Float`, builds the bits back, and computes the exact remainder of two
doubles in it.
-/

namespace TagScript.Decimal

/-- The number `mantissa · 2 ^ exponent` with a sign; zero has two signs. -/
structure Binary64 where
  /-- Whether the number carries a minus sign. -/
  negative : Bool
  /-- The mantissa, below `2 ^ 53`. -/
  mantissa : Nat
  /-- The exponent of two, at least `-1074`. -/
  exponent : Int
  deriving DecidableEq, Repr

namespace Binary64

/-- The least exponent of two of a double. -/
def leastExponent : Int := -1074

/-- The leading bit of a full mantissa, `2 ^ 52`, which the bits of a double leave out. -/
def leadingBit : Nat := 0x10000000000000

/-- The bit of a double that holds its sign, `2 ^ 63`. -/
def signBit : Nat := 0x8000000000000000

/-- The number held by a finite `x`. -/
def ofFloat (x : Float) : Binary64 :=
  let bits := x.toBits.toNat
  let fraction : Nat := bits % leadingBit
  let biased : Nat := bits / leadingBit % 2048
  { negative := signBit ≤ bits
    mantissa := if biased = 0 then fraction else leadingBit + fraction
    exponent := if biased = 0 then leastExponent else (biased : Int) - 1075 }

/-- The double that holds `b`, whose mantissa is below `2 ^ 53` and whose exponent is at least
the least one. -/
def toFloat (b : Binary64) : Float :=
  let sign := if b.negative then signBit else 0
  let missing := 53 - (Nat.log2 b.mantissa + 1)
  let shift := min missing (b.exponent - leastExponent).toNat
  let mantissa := b.mantissa * Nat.pow 2 shift
  let biased := if mantissa < leadingBit then 0 else (b.exponent - shift + 1075).toNat
  Float.ofBits (UInt64.ofNat (sign + biased * leadingBit + mantissa % leadingBit))

/-- Whether the gap to the next double below is half the gap to the next one above, as it is at
the powers of two. -/
def narrowBelow (b : Binary64) : Bool :=
  b.mantissa = leadingBit && leastExponent < b.exponent

/-- `n` without a power of two it is a multiple of, as long as it takes more than 53 bits. -/
def trimmed (n : Nat) (exponent : Int) : Nat × Int :=
  let excess := Nat.log2 n + 1 - 53
  (n / Nat.pow 2 excess, exponent + excess)

end Binary64

/-- The remainder of `x` by `y` with the sign of `x`: the exact number `x - n · y` for the whole
`n` nearest to `x / y` on the side of zero. There is no remainder of an infinity or by zero, and
a finite number is its own remainder by an infinity. -/
def remainder (x y : Float) : Float :=
  if x.isNaN || y.isNaN || x.isInf || y == 0 then 0.0 / 0.0
  else if y.isInf then x
  else
    let a := Binary64.ofFloat x
    let b := Binary64.ofFloat y
    let least := min a.exponent b.exponent
    let rest := a.mantissa * Nat.pow 2 (a.exponent - least).toNat %
      (b.mantissa * Nat.pow 2 (b.exponent - least).toNat)
    let (mantissa, exponent) := Binary64.trimmed rest least
    Binary64.toFloat { negative := a.negative, mantissa, exponent }

end TagScript.Decimal
