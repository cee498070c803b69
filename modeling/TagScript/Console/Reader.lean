import TagScript.Console.Braces
import TagScript.Console.Command
import TagScript.Console.Keyboard

/-!
# From Inputs to Chunks

The console collects lines until they make a chunk that can run. Typed lines are collected in a
block as long as braces are open; pasted lines are collected until the paste is ended. A line may
also be a command to the console, or one that controls the paste.

`Reader.step` takes one input to what has been collected then and to the request that comes of it.
Nothing of it depends on what became of earlier requests. The chunks that are to be evaluated are
numbered from one.
-/

namespace TagScript.Console

/-- A remark of the console about what it collects. -/
inductive Remark where
  | pasting
  | nothingPasted
  | pasteCancelled
  | pasteInterrupted
  | blockInterrupted
  deriving DecidableEq, Repr

/-- The text of a remark. -/
def Remark.text : Remark → String
  | .pasting => "(paste mode: end with '.' or :endpaste, cancel with :cancel)"
  | .nothingPasted => "(paste buffer empty)"
  | .pasteCancelled => "(paste cancelled)"
  | .pasteInterrupted => "^C (paste cancelled)"
  | .blockInterrupted => "^C (buffer cleared)"

/-- What comes of an input. -/
inductive Request where
  | nothing
  | remark (r : Remark)
  /-- A chunk is to be evaluated: its number and its text. -/
  | evaluate (number : Nat) (source : Bytes)
  | command (c : Command)
  | finish
  deriving DecidableEq, Repr

/-- What the console has collected. -/
structure Reader where
  /-- The typed lines of an open block, each with its line feed. -/
  block : Bytes
  /-- The number of open braces in the block. -/
  depth : Int64
  /-- Whether lines are being pasted. -/
  pasting : Bool
  /-- The pasted lines, each with its line feed. -/
  pasted : Bytes
  /-- The number of chunks so far. -/
  chunks : Nat
  deriving DecidableEq, Repr

namespace Reader

/-- Nothing has been collected. -/
def empty : Reader := ⟨[], 0, false, [], 0⟩

/-- The characters of a text without the blanks at its ends. -/
def trimmed (text : Bytes) : List Char :=
  Text.trimChars text.decode

/-- A line with its line feed. -/
def ended (line : Bytes) : Bytes :=
  line ++ [0x0A]

/-- Whether lines are typed and no block is open. -/
def idle (r : Reader) : Bool :=
  r.depth = 0 && r.block.isEmpty

/-- Hands a collected text over as the next chunk. -/
def submit (r : Reader) (source : Bytes) : Reader × Request :=
  ({ r with chunks := r.chunks + 1 }, .evaluate (r.chunks + 1) source)

/-- A line while lines are being pasted. -/
def paste (r : Reader) (line : Bytes) : Reader × Request :=
  let word := trimmed line
  let done : Reader := { r with pasting := false, pasted := [] }
  if word = ".".toList ∨ word = ":endpaste".toList then
    if trimmed r.pasted = [] then (done, .remark .nothingPasted) else done.submit r.pasted
  else if word = ":cancel".toList then (done, .remark .pasteCancelled)
  else ({ r with pasted := r.pasted ++ ended line }, .nothing)

/-- A command. -/
def command (r : Reader) (c : Command) : Reader × Request :=
  match c with
  | .paste => ({ r with pasting := true }, .remark .pasting)
  | _ => (r, .command c)

/-- A typed line of a script. -/
def append (r : Reader) (line : Bytes) : Reader × Request :=
  let block := r.block ++ ended line
  let depth := Braces.depthAfter r.depth line
  if 0 < depth then ({ r with block, depth }, .nothing)
  else
    let done : Reader := { r with block := [], depth := 0 }
    if trimmed block = [] then (done, .nothing) else done.submit block

/-- An interruption. -/
def interrupt (r : Reader) : Reader × Request :=
  if r.pasting then ({ r with pasting := false, pasted := [] }, .remark .pasteInterrupted)
  else if r.block = [] ∧ r.depth ≤ 0 then (r, .nothing)
  else ({ r with block := [], depth := 0 }, .remark .blockInterrupted)

/-- The prompt for the next line, where the given one asks for a new chunk. -/
def prompt (r : Reader) (usual : String) : String :=
  if r.pasting then "paste> "
  else if 0 < r.depth then "...    "
  else usual

/-- One input. -/
def step (r : Reader) : Input → Reader × Request
  | .interrupt => r.interrupt
  | .finish => (r, .finish)
  | .line line =>
    if r.pasting then r.paste line
    else if r.idle && (trimmed line).head? = some ':' then
      r.command (Command.ofChars (trimmed line))
    else r.append line

end Reader

end TagScript.Console
