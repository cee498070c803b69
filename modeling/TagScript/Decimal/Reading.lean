/-!
# Reading Decimals

Decimal numerals as they are written, and the double nearest to them. A numeral has an optional
sign, digits with at most one point among them, and an optional exponent.
-/

namespace TagScript.Decimal

/-- Whether `c` is one of the digits 0 to 9. -/
def isDigit (c : Char) : Bool :=
  '0' ≤ c && c ≤ '9'

/-- The number written by `digits`, each of which is one of the digits 0 to 9. -/
def value (digits : List Char) : Nat :=
  digits.foldl (fun n c => n * 10 + (c.toNat - '0'.toNat)) 0

/-- A decimal numeral: `± digits · 10 ^ exponent`. -/
structure Numeral where
  /-- Whether a minus sign stands in front. -/
  negative : Bool
  /-- The digits on both sides of the point. -/
  digits : List Char
  /-- The power of ten that the last digit counts. -/
  exponent : Int

/-- The double nearest to the numeral, an infinity if it is too large for one. An exponent beyond
every double decides the result by itself. -/
def Numeral.toFloat (n : Numeral) : Float :=
  let digits := value n.digits
  let size := n.digits.length + n.exponent
  let magnitude :=
    if digits = 0 ∨ size < -400 then 0
    else if 400 + n.digits.length < size then 1.0 / 0.0
    else Float.ofScientific digits (n.exponent < 0) n.exponent.natAbs
  if n.negative then -magnitude else magnitude

/-- The sign at the start of `cs`, if any, and what follows it. -/
def sign (cs : List Char) : Bool × List Char :=
  match cs with
  | '-' :: rest => (true, rest)
  | '+' :: rest => (false, rest)
  | _ => (false, cs)

/-- The exponent written at the end of a numeral; nothing at all counts as zero. -/
def exponent? (cs : List Char) : Option Int :=
  match cs with
  | [] => some 0
  | c :: rest =>
    let (negative, digits) := sign rest
    if (c = 'e' ∨ c = 'E') ∧ digits ≠ [] ∧ digits.all isDigit then
      some (if negative then -(value digits : Int) else value digits)
    else none

/-- The numeral written by `cs`: digits, optionally with a point among or around them, an optional
sign in front and an optional exponent behind. -/
def numeral? (cs : List Char) : Option Numeral :=
  let (negative, unsigned) := sign cs
  let whole := unsigned.takeWhile isDigit
  let (fraction, rest) :=
    match unsigned.dropWhile isDigit with
    | '.' :: rest => (rest.takeWhile isDigit, rest.dropWhile isDigit)
    | rest => ([], rest)
  if whole.isEmpty && fraction.isEmpty then none
  else
    (exponent? rest).map fun e =>
      { negative, digits := whole ++ fraction, exponent := e - fraction.length }

/-- The double nearest to the numeral written by `cs`, if it is one and not too large for a
double. -/
def double? (cs : List Char) : Option Float :=
  match numeral? cs with
  | some n => if n.toFloat.isInf then none else some n.toFloat
  | none => none

/-- The numeral of `digits`, a point and `fraction`. -/
def fractional (digits fraction : List Char) : Numeral where
  negative := false
  digits := digits ++ fraction
  exponent := -(fraction.length : Int)

/-- The first number beyond the 64-bit integers with a sign, `2 ^ 63`. -/
def signedLimit : Nat := 0x8000000000000000

/-- The first number beyond the 64-bit integers without a sign, `2 ^ 64`. -/
def unsignedLimit : Nat := 0x10000000000000000

/-- The 64-bit integer written by `cs`: digits with an optional sign in front. -/
def int64? (cs : List Char) : Option Int64 :=
  let (negative, digits) := sign cs
  if digits = [] ∨ ¬ digits.all isDigit then none
  else if negative then
    if value digits ≤ signedLimit then some (Int64.ofInt (-(value digits : Int))) else none
  else if value digits < signedLimit then some (Int64.ofNat (value digits)) else none

end TagScript.Decimal
