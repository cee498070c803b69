import TagScript.Decimal.Binary64

/-!
# The Shortest Decimal of a Double

The reals that round to a double form an interval around it, which reaches halfway to its two
neighbours; the ends belong to it exactly when the mantissa is even. Of the decimals in that
interval `shortest` selects one with the fewest digits, and of those the one nearest to the
double; a tie goes to the even digit. `positional` writes a double with these digits, always
without an exponent.
-/

namespace TagScript.Decimal

/-- The decimal `digits · 10 ^ place`. -/
structure Scaled where
  /-- The digits as one number. -/
  digits : Nat
  /-- The power of ten that the last digit counts. -/
  place : Int
  deriving DecidableEq, Repr

/-- The number of decimal digits of `n`; zero has one. -/
def digitCount (n : Nat) : Nat :=
  (Nat.toDigits 10 n).length

/-- The numerator and denominator of `n · 2 ^ exponent / 10 ^ place`. -/
def onGrid (n : Nat) (exponent place : Int) : Nat × Nat :=
  (n * Nat.pow 2 exponent.toNat * Nat.pow 10 (-place).toNat,
    Nat.pow 2 (-exponent).toNat * Nat.pow 10 place.toNat)

/-- The place of the leading digit of `num / den`, both positive. -/
def leadingPlace (num den : Nat) : Int :=
  if den ≤ num then (digitCount (num / den) : Int) - 1
  else -(digitCount ((den + num - 1) / num - 1) : Int)

/-- Whether `digits · 10 ^ place` rounds to the positive number `b`. Four times the mantissa makes
the ends of the interval whole: they lie two steps above and two below, or one below where the
gap is narrow. -/
def readsBack (b : Binary64) (s : Scaled) : Bool :=
  let m := 4 * b.mantissa
  let q := b.exponent - 2
  let low := (onGrid (if b.narrowBelow then m - 1 else m - 2) q s.place).1
  let high := (onGrid (m + 2) q s.place).1
  let scaled := s.digits * (onGrid m q s.place).2
  if b.mantissa % 2 = 0 then low ≤ scaled && scaled ≤ high else low < scaled && scaled < high

/-- The decimal with last place `place` that is nearest to the positive number `b`, among its two
neighbours there that round to `b`. -/
def nearestAt? (b : Binary64) (place : Int) : Option Scaled :=
  let (num, den) := onGrid b.mantissa b.exponent place
  let below : Scaled := ⟨num / den, place⟩
  let above : Scaled := ⟨num / den + 1, place⟩
  match readsBack b below, readsBack b above with
  | true, true =>
    match compare (2 * (num % den)) den with
    | .lt => some below
    | .gt => some above
    | .eq => some (if below.digits % 2 = 0 then below else above)
  | true, false => some below
  | false, true => some above
  | false, false => none

/-- The shortest decimal that rounds to the positive number `b`; seventeen digits always
suffice. -/
def shortest (b : Binary64) : Scaled :=
  let (num, den) := onGrid b.mantissa b.exponent 0
  let top := leadingPlace num den
  ((List.range 17).findSome? fun (i : Nat) => nearestAt? b (top - i)).getD ⟨0, 0⟩

/-- The digits of a decimal around its point, without an exponent and without trailing zeros
behind the point. -/
def Scaled.text (s : Scaled) : String :=
  if 0 ≤ s.place then toString (s.digits * Nat.pow 10 s.place.toNat)
  else
    let places := (-s.place).toNat
    let digits := Nat.toDigits 10 s.digits
    let padded := List.replicate (places + 1 - digits.length) '0' ++ digits
    let whole := padded.take (padded.length - places)
    let fraction := (padded.drop (padded.length - places)).reverse.dropWhile (· = '0') |>.reverse
    String.ofList (if fraction.isEmpty then whole else whole ++ '.' :: fraction)

/-- The text of a double: its shortest decimal, positional at every size. -/
def positional (x : Float) : String :=
  if x.isNaN then "NaN"
  else if x.isInf then (if x < 0 then "-inf" else "inf")
  else
    let b := Binary64.ofFloat x
    let sign := if b.negative then "-" else ""
    sign ++ (if b.mantissa = 0 then "0" else (shortest b).text)

end TagScript.Decimal
