import TagScript.Text.Bytes
import TagScript.Yaml.Scalar

/-!
# Settings Files as Trees

A settings file is a mapping written with one key to a line. A key ends in a colon, and its value is
the scalar behind the colon, or what the following lines with a deeper indentation make, or nothing.
A number sign at the start of a line or after a blank starts a comment, and lines without anything
else do not count. A file may also be a single scalar.

`Yaml.read` gives the tree of a file; a file without anything has none. Sequences, anchors, block
texts and everything in brackets are left out, and are refused.
-/

namespace TagScript.Yaml

/-- Why a text is no settings file. -/
inductive Mistake where
  /-- A colon stands where there can be no key. -/
  | colon
  /-- A character stands where nothing can start with it. -/
  | start
  | openQuote
  | escape
  | noKey
  deriving DecidableEq, Repr

/-- What is wrong with a text, and in which line. -/
structure Problem where
  /-- The line. -/
  line : Nat
  /-- What is wrong. -/
  cause : Mistake
  deriving DecidableEq, Repr

/-- The text about a mistake. -/
def Mistake.text : Mistake → String
  | .colon => "mapping values are not allowed in this context"
  | .start => "found character that cannot start any token"
  | .openQuote => "found unexpected end of stream"
  | .escape => "found unknown escape character"
  | .noKey => "could not find expected ':'"

/-- The text about a problem. The first line is not named. -/
def Problem.text (p : Problem) : String :=
  (if 1 < p.line then "line " ++ toString p.line ++ ": " else "") ++ p.cause.text

/-- Whether a character separates the parts of a line. -/
def isSpace (c : Char) : Bool :=
  c = ' ' || c = '\t'

/-- Whether a part of a line ends before these characters. -/
def atBreak (cs : List Char) : Bool :=
  match cs with
  | [] => true
  | c :: _ => isSpace c

/-- The text up to the closing single quote, and what follows that. A quote in the text is written
twice. -/
def singleQuoted : List Char → Option (List Char × List Char)
  | [] => none
  | '\'' :: '\'' :: rest => (singleQuoted rest).map fun (text, rest) => ('\'' :: text, rest)
  | '\'' :: rest => some ([], rest)
  | c :: rest => (singleQuoted rest).map fun (text, rest) => (c :: text, rest)

/-- The character that a letter stands for after a backslash. -/
def escaped? (c : Char) : Option Char :=
  [('0', '\x00'), ('a', '\x07'), ('b', '\x08'), ('t', '\t'), ('\t', '\t'), ('n', '\n'),
    ('v', '\x0B'), ('f', '\x0C'), ('r', '\r'), ('e', '\x1B'), (' ', ' '), ('"', '"'), ('/', '/'),
    ('\\', '\\'), ('N', '\u0085'), ('_', '\u00A0'), ('L', '\u2028'), ('P', '\u2029')].lookup c

/-- The number of digits of the code point behind a letter after a backslash. -/
def escapedWidth? (c : Char) : Option Nat :=
  [('x', 2), ('u', 4), ('U', 8)].lookup c

/-- What the next character in double quotes belongs to. -/
inductive Quoting where
  /-- The text. -/
  | text
  /-- What follows a backslash. -/
  | escape
  /-- A code point with so many digits to come, and its value so far. -/
  | code (missing value : Nat)

/-- A text with one more character in front. -/
def prepend (c : Char) (r : Except Mistake (List Char × List Char)) :
    Except Mistake (List Char × List Char) :=
  r.map fun (text, rest) => (c :: text, rest)

/-- The text up to the closing double quote, and what follows that. -/
def doubleQuoted (q : Quoting) : List Char → Except Mistake (List Char × List Char)
  | [] => .error .openQuote
  | c :: rest =>
    match q with
    | .text =>
      if c = '"' then .ok ([], rest)
      else if c = '\\' then doubleQuoted .escape rest
      else prepend c (doubleQuoted .text rest)
    | .escape =>
      match escaped? c, escapedWidth? c with
      | some e, _ => prepend e (doubleQuoted .text rest)
      | none, some k => doubleQuoted (.code k 0) rest
      | none, none => .error .escape
    | .code missing value =>
      match digit? c with
      | none => .error .escape
      | some d =>
        if 1 < missing then doubleQuoted (.code (missing - 1) (value * 16 + d)) rest
        else if (value * 16 + d).isValidChar then
          prepend (Char.ofNat (value * 16 + d)) (doubleQuoted .text rest)
        else .error .escape

/-- The characters of a plain scalar, and what follows them: a colon before a break, a comment
after a blank, or nothing. -/
def plain (afterSpace : Bool) : List Char → List Char × List Char
  | [] => ([], [])
  | c :: rest =>
    if (c = ':' ∧ atBreak rest) ∨ (c = '#' ∧ afterSpace) then ([], c :: rest)
    else
      let (text, rest) := plain (isSpace c) rest
      (c :: text, rest)

/-- Whether no plain scalar starts with these characters. -/
def refusesStart (cs : List Char) : Bool :=
  match cs with
  | [] => true
  | c :: rest =>
    c ∈ ",[]\x7b\x7d#&*!|>%@\x60".toList || (c ∈ "-?:".toList && atBreak rest)

/-- The scalar at the start of a text that does not start with a blank, and what follows it. -/
def scalar (line : Nat) (cs : List Char) : Except Problem (Scalar × List Char) :=
  match cs with
  | '\'' :: rest =>
    match singleQuoted rest with
    | some (text, rest) => .ok (⟨String.ofList text, true, line⟩, rest)
    | none => .error ⟨line, .openQuote⟩
  | '"' :: rest =>
    match doubleQuoted .text rest with
    | .ok (text, rest) => .ok (⟨String.ofList text, true, line⟩, rest)
    | .error cause => .error ⟨line, cause⟩
  | _ =>
    if refusesStart cs then .error ⟨line, .start⟩
    else
      let (text, rest) := plain false cs
      .ok (⟨String.ofList (text.reverse.dropWhile isSpace).reverse, false, line⟩, rest)

/-- Whether a line has nothing more than a comment to say. -/
def isIdle (cs : List Char) : Bool :=
  match cs.dropWhile isSpace with
  | [] => true
  | c :: _ => c = '#'

/-- What a line says. -/
structure Item where
  /-- Its number. -/
  line : Nat
  /-- Its indentation. -/
  indent : Nat
  /-- The key, if it has one. -/
  key : Option Scalar
  /-- The scalar that stands alone or behind the key. -/
  value : Option Scalar

/-- What a line says that has more than a comment to say. -/
def item (line : Nat) (cs : List Char) : Except Problem Item := do
  let indent := (cs.takeWhile (· = ' ')).length
  let (first, rest) ← scalar line (cs.dropWhile (· = ' '))
  match rest.dropWhile isSpace with
  | ':' :: rest =>
    if ¬ atBreak rest then throw ⟨line, .noKey⟩
    if isIdle rest then return ⟨line, indent, some first, none⟩
    let (value, rest) ← scalar line (rest.dropWhile isSpace)
    if isIdle rest then return ⟨line, indent, some first, some value⟩
    throw ⟨line, .colon⟩
  | _ =>
    if isIdle rest then return ⟨line, indent, none, some first⟩
    throw ⟨line, .noKey⟩

/-- What the lines say that have more than comments to say. -/
def items (line : Nat) : List Bytes → Except Problem (List Item)
  | [] => .ok []
  | bytes :: rest => do
    let cs := bytes.decode
    if isIdle cs then items (line + 1) rest
    else return (← item line cs) :: (← items (line + 1) rest)

/-- A tree. -/
inductive Node where
  /-- A scalar. -/
  | scalar (s : Scalar)
  /-- A mapping that starts in a line, with its keys in order. -/
  | mapping (line : Nat) (entries : List (Scalar × Node))

/-- The entries of a mapping whose lines are given. -/
def entries : List Item → Except Problem (List (Scalar × Node))
  | [] => .ok []
  | i :: rest =>
    match i.key with
    | none => .error ⟨i.line, .noKey⟩
    | some key => do
      let inner := rest.takeWhile (i.indent < ·.indent)
      let after := rest.dropWhile (i.indent < ·.indent)
      match after with
      | next :: _ => if next.indent < i.indent then throw ⟨next.line, .noKey⟩
      | [] => pure ()
      let value : Node ←
        match i.value, inner with
        | some value, [] => pure (.scalar value)
        | some _, next :: _ => throw ⟨next.line, .colon⟩
        | none, [] => pure (.scalar ⟨"", false, i.line⟩)
        | none, [⟨_, _, none, some value⟩] => pure (.scalar value)
        | none, first :: _ => pure (.mapping first.line (← entries inner))
      return (key, value) :: (← entries after)
termination_by items => items.length
decreasing_by
  · simp only [List.length_cons]
    exact Nat.lt_succ_of_le (List.dropWhile_sublist _).length_le
  · simp only [List.length_cons]
    exact Nat.lt_succ_of_le (List.takeWhile_sublist _).length_le

/-- The tree of a settings file, if it has one. -/
def read (contents : Bytes) : Except Problem (Option Node) := do
  match ← items 1 contents.splitLines with
  | [] => return none
  | [⟨_, _, none, some value⟩] => return some (.scalar value)
  | first :: rest => return some (.mapping first.line (← entries (first :: rest)))

end TagScript.Yaml
