import TagScript.Diagnostic.Cause
import TagScript.Text.Bytes

/-!
# Runtime Errors

A runtime error is a cause together with where it arose: the script, the position, the source line
and the functions it passed through on its way out, innermost first.

Its text has a headline, the place, the line with a caret under the column, and the functions, in
which neighbours of one name are written once with their number. These are found by a loop over the
functions (`collapse`), whose passes count neighbours by a loop of their own. The source line is
quoted byte for byte, so texts of errors are bytes.
-/

namespace TagScript

/-- A runtime error. -/
structure RuntimeError where
  /-- What went wrong. -/
  cause : Cause
  /-- The name of the script. -/
  file : String
  /-- The position in the script. -/
  position : Position
  /-- The source line at that position; empty if there is none. -/
  line : Bytes
  /-- The functions the error passed through, innermost first. -/
  stack : List String

namespace RuntimeError

/-- Counts on from `n` as long as the name at the place `i + n` is `x`. -/
def countFrom (names : List String) (i : Nat) (x : String) (n : Nat) : Nat :=
  if h : i + n < names.length then
    if names[i + n] = x then countFrom names i x (n + 1) else n
  else n
termination_by names.length - (i + n)

/-- Where the loop over some names stands. -/
structure Cursor where
  /-- The place of the next name. -/
  next : Nat
  /-- The pairs of a name and a number so far. -/
  done : List (String × Nat)

/-- One pass of the loop, if there is a name left: the name at the cursor and its like right behind
it are counted, and the cursor moves behind them. -/
def Cursor.pass (names : List String) (c : Cursor) : Option Cursor :=
  if h : c.next < names.length then
    let x := names[c.next]
    let n := countFrom names c.next x 1
    some ⟨c.next + n, c.done ++ [(x, n)]⟩
  else none

/-- The count never goes back. -/
theorem le_countFrom (names : List String) (i : Nat) (x : String) (n : Nat) :
    n ≤ countFrom names i x n := by
  fun_induction countFrom names i x n with
  | case1 n hlt heq ih => exact Nat.le_of_succ_le ih
  | case2 | case3 => exact Nat.le_refl _

/-- A pass moves the cursor forward, from a place of a name. -/
theorem Cursor.pass_lt {names : List String} {c d : Cursor} (h : c.pass names = some d) :
    c.next < names.length ∧ c.next < d.next := by
  unfold pass at h
  split at h
  next hlt =>
    cases h
    have hcount := le_countFrom names c.next names[c.next] 1
    exact ⟨hlt, Nat.lt_add_of_pos_right hcount⟩
  next => cases h

/-- The pairs of a name and a number that the loop finds from a cursor on. -/
def Cursor.loop (names : List String) (c : Cursor) : List (String × Nat) :=
  match _ : c.pass names with
  | some d => d.loop names
  | none => c.done
termination_by names.length - c.next
decreasing_by
  have hlt := pass_lt ‹c.pass names = some d›
  omega

/-- The neighbours of one name in a list as pairs of that name and their number. -/
def collapse (names : List String) : List (String × Nat) :=
  Cursor.loop names ⟨0, []⟩

/-- An error that arose at no place. -/
def ofCause (cause : Cause) : RuntimeError :=
  ⟨cause, "", .nowhere, [], []⟩

/-- The error after passing through one more function. -/
def unwind (function : String) (e : RuntimeError) : RuntimeError :=
  { e with stack := e.stack ++ [function] }

/-- The kind and the wording of an error. -/
def headline (e : RuntimeError) : String :=
  e.cause.kind.label ++ ": " ++ e.cause.message

/-- The place of an error, if it has one. -/
def placeText (e : RuntimeError) : String :=
  if e.position.isPlace then
    "  at " ++ (if e.file = "" then "" else e.file ++ ":") ++ e.position.text ++ "\n"
  else ""

/-- The line of an error with a caret under the column, if it has both. -/
def lineText (e : RuntimeError) : Bytes :=
  if e.position.isPlace ∧ e.line ≠ [] then
    let margin := "  " ++ toString e.position.line ++ " | "
    let indent := margin.length + (e.position.column - 1).toNat
    Bytes.ofString margin ++ e.line ++
      Bytes.ofString ("\n" ++ String.ofList (List.replicate indent ' ') ++ "^\n")
  else []

/-- One line about some neighbouring calls of one function. -/
def frameText : String × Nat → String
  | (function, n) =>
    "  at " ++ function ++ "()" ++ (if 1 < n then " x" ++ toString n else "") ++ "\n"

/-- The functions an error passed through, if any. -/
def stackText (e : RuntimeError) : String :=
  if e.stack = [] then ""
  else "Stack:\n" ++ String.join ((collapse e.stack).map frameText)

/-- Everything below the headline. -/
def detail (e : RuntimeError) : Bytes :=
  Bytes.ofString e.placeText ++ e.lineText ++ Bytes.ofString e.stackText

/-- The text of an error, without a line feed at its end. -/
def text (e : RuntimeError) : Bytes :=
  ((Bytes.ofString (e.headline ++ "\n") ++ e.detail).reverse.dropWhile (· = 0x0A)).reverse

end RuntimeError

end TagScript
