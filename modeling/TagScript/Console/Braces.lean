import TagScript.Text.Bytes

/-!
# Open Braces

The console keeps reading lines as long as braces are open. It counts them in one line at a time,
on raw bytes: a brace inside a string literal or after `//` does not count. A line starts outside
of any literal, whatever the line before it ended with.

`Braces.balance` is the number of braces that a line opens less the number that it closes, and
`Braces.depthAfter` the number of open braces after a line. The number is kept in 64 bits and is
never negative after a line, so that a brace too many is forgotten.
-/

namespace TagScript.Console.Braces

/-- What a byte of a line belongs to. -/
inductive Region where
  | code
  | literal
  /-- A string literal, right after a backslash. -/
  | escape
  deriving DecidableEq, Repr

/-- The braces opened less the braces closed by the rest of a line that starts in a region. -/
def balanceFrom : Region → Bytes → Int
  | _, [] => 0
  | .escape, _ :: rest => balanceFrom .literal rest
  | .literal, b :: rest =>
    if b = 0x5C then balanceFrom .escape rest
    else if b = 0x22 then balanceFrom .code rest
    else balanceFrom .literal rest
  | .code, b :: rest =>
    if b = 0x22 then balanceFrom .literal rest
    else if b = 0x2F ∧ rest.head? = some 0x2F then 0
    else if b = 0x7B then balanceFrom .code rest + 1
    else if b = 0x7D then balanceFrom .code rest - 1
    else balanceFrom .code rest

/-- The braces opened less the braces closed by a line. -/
def balance (line : Bytes) : Int :=
  balanceFrom .code line

/-- The number of open braces after a line, from their number before it. -/
def depthAfter (depth : Int64) (line : Bytes) : Int64 :=
  max (depth + Int64.ofInt (balance line)) 0

end TagScript.Console.Braces
