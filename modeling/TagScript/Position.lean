/-!
# Positions in a Script

A position is a line and a column, both counted from one in a scanned text; columns count
characters. A tree that was not scanned from a text may carry any position, usually the
position `0:0`, which stands for no place at all.
-/

namespace TagScript

/-- A place in a script. -/
structure Position where
  /-- The line, counted from one. -/
  line : Int
  /-- The column in characters, counted from one. -/
  column : Int
  deriving DecidableEq, Repr, Inhabited

namespace Position

/-- The first character of a text. -/
def start : Position := ⟨1, 1⟩

/-- No place at all. -/
def nowhere : Position := ⟨0, 0⟩

/-- The position behind the character `c` standing at `p`: a line feed starts the next line. -/
def next (p : Position) (c : Char) : Position :=
  if c = '\n' then ⟨p.line + 1, 1⟩ else ⟨p.line, p.column + 1⟩

/-- The position behind the text `cs` standing at `p`. -/
def advance (p : Position) (cs : List Char) : Position :=
  cs.foldl next p

/-- Whether `p` is a place that a text can have. -/
def isPlace (p : Position) : Bool :=
  0 < p.line && 0 < p.column

/-- The position as `line:column`. -/
def text (p : Position) : String :=
  toString p.line ++ ":" ++ toString p.column

@[simp]
theorem advance_nil (p : Position) : p.advance [] = p := rfl

@[simp]
theorem advance_cons (p : Position) (c : Char) (cs : List Char) :
    p.advance (c :: cs) = (p.next c).advance cs := rfl

theorem advance_append (p : Position) (cs ds : List Char) :
    p.advance (cs ++ ds) = (p.advance cs).advance ds :=
  List.foldl_append ..

end Position

end TagScript
