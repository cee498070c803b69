import TagScript.Decimal.Reading
import TagScript.Text.Quoted

/-!
# Scalars of a Settings File

Settings are written in a small part of YAML. A scalar is a text, plain or in quotes. A plain scalar
may mean nothing at all, a truth value or a number; a scalar in quotes is only a text.

Whole numbers may be signed, may have a base prefix (`0x`, `0o`, `0b`, or a plain `0` for octal
digits), and may have underscores anywhere, which do not count. A number that is not whole, or that
needs more than 64 bits, is a double.
-/

namespace TagScript.Yaml

/-- A scalar. -/
structure Scalar where
  /-- The text. -/
  text : String
  /-- Whether the text stood in quotes. -/
  quoted : Bool
  /-- The line it stood in. -/
  line : Nat
  deriving DecidableEq, Repr

/-- What a scalar means. -/
inductive Meaning where
  | null
  | bool
  | int (n : Int)
  | float (x : Float)
  | text

/-- The tag of the scalars with a meaning. -/
def Meaning.tag : Meaning → String
  | .null => "!!null"
  | .bool => "!!bool"
  | .int _ => "!!int"
  | .float _ => "!!float"
  | .text => "!!str"

/-- The value of a digit of up to base sixteen. -/
def digit? (c : Char) : Option Nat :=
  if Decimal.isDigit c then some (c.toNat - '0'.toNat)
  else if 'a' ≤ c ∧ c ≤ 'f' then some (c.toNat - 'a'.toNat + 10)
  else if 'A' ≤ c ∧ c ≤ 'F' then some (c.toNat - 'A'.toNat + 10)
  else none

/-- The number written by digits in a base. -/
def natural? (base : Nat) (digits : List Char) : Option Nat :=
  digits.foldl (fun n? c => do
    let n ← n?
    let d ← digit? c
    if d < base then some (n * base + d) else none) (some 0)

/-- The number written without a sign, whose base shows at its start. -/
def unsigned? (cs : List Char) : Option Nat :=
  match cs with
  | [] => none
  | '0' :: c :: d :: rest =>
    if c = 'x' ∨ c = 'X' then natural? 16 (d :: rest)
    else if c = 'o' ∨ c = 'O' then natural? 8 (d :: rest)
    else if c = 'b' ∨ c = 'B' then natural? 2 (d :: rest)
    else natural? 8 (c :: d :: rest)
  | '0' :: rest => natural? 8 rest
  | _ => natural? 10 cs

/-- The whole number that is written, if it is signed and needs no more than 64 bits, or is not
signed and needs no more than 64 bits without a sign. -/
def int? (cs : List Char) : Option Int := do
  let (negative, digits) := Decimal.sign cs
  let n ← unsigned? digits
  if negative then
    if n ≤ Decimal.signedLimit then some (-(n : Int)) else none
  else if n < Decimal.signedLimit then some n
  else if digits.length = cs.length ∧ n < Decimal.unsignedLimit then some n
  else none

/-- The double that is written, if it is finite. -/
def float? (cs : List Char) : Option Float := do
  let x := (← Decimal.numeral? cs).toFloat
  if x.isFinite then some x else none

/-- What a plain number or text means. -/
def numeric (cs : List Char) : Meaning :=
  let digits := cs.filter (· ≠ '_')
  match int? digits with
  | some n => .int n
  | none =>
    match float? digits with
    | some x => .float x
    | none => .text

/-- What a plain scalar means. -/
def meaningOf (text : String) : Meaning :=
  if text ∈ ["", "~", "null", "Null", "NULL"] then .null
  else if text ∈ ["true", "True", "TRUE", "false", "False", "FALSE"] then .bool
  else if text ∈ [".nan", ".NaN", ".NAN"] then .float (0.0 / 0.0)
  else if text ∈ [".inf", ".Inf", ".INF", "+.inf", "+.Inf", "+.INF"] then .float (1.0 / 0.0)
  else if text ∈ ["-.inf", "-.Inf", "-.INF"] then .float (-1.0 / 0.0)
  else
    match text.toList with
    | [] => .null
    | c :: rest =>
      if Decimal.isDigit c ∨ c = '+' ∨ c = '-' then numeric (c :: rest)
      else if c = '.' then
        match float? (c :: rest) with
        | some x => .float x
        | none => .text
      else .text

namespace Scalar

/-- What a scalar means. -/
def meaning (s : Scalar) : Meaning :=
  if s.quoted then .text else meaningOf s.text

/-- Whether a scalar means nothing. -/
def isNull (s : Scalar) : Bool :=
  match s.meaning with
  | .null => true
  | _ => false

end Scalar

end TagScript.Yaml
