import TagScript.Text.Bytes

/-!
# Typed Input

The console receives characters and acts on whole lines. `Keyboard.press` takes one character to
what is typed so far and, now and then, to an input: a line feed or a carriage return hands the
line over, U+0003 throws it away and interrupts, and U+0004 ends the input unless something is
typed already. A null character counts as the end of what is typed: it hands a line over if there
is one, and ends the input otherwise.

`Keyboard.inputs` does so for a whole text. Where the text ends, the last line counts also without
a line feed.
-/

namespace TagScript.Console

/-- What the console acts on. -/
inductive Input where
  /-- A line, without the character that ended it. -/
  | line (text : Bytes)
  /-- The user interrupts. -/
  | interrupt
  /-- There is no more input. -/
  | finish
  deriving DecidableEq, Repr

namespace Keyboard

/-- The line that was typed, from its characters, the latest first. -/
def lineOf (typed : List Char) : Input :=
  .line (Bytes.ofChars typed.reverse)

/-- One more character: what is typed then, the latest first, and the input that it completes. -/
def press (typed : List Char) (c : Char) : List Char × Option Input :=
  if c = '\n' ∨ c = '\r' then ([], some (lineOf typed))
  else if c = '\x03' then ([], some .interrupt)
  else if c = '\x04' then
    if typed = [] then ([], some .finish) else (typed, none)
  else if c = '\x00' then
    if typed = [] then ([], some .finish) else ([], some (lineOf typed))
  else (c :: typed, none)

/-- The inputs of a text, from what is typed before it. The last one is the end of the input. -/
def inputs (typed : List Char) : List Char → List Input
  | [] => if typed = [] then [.finish] else [lineOf typed, .finish]
  | c :: rest =>
    match press typed c with
    | (_, some .finish) => [.finish]
    | (typed, some input) => input :: inputs typed rest
    | (typed, none) => inputs typed rest

end Keyboard

end TagScript.Console
