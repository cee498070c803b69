import TagScript.Decimal.Reading
import TagScript.Text.Bytes
import TagScript.Token.Basic

/-!
# Scanning

A text is cut into pieces: a gap of blanks and comments followed by the slice of one token. The
text ends before the first NUL character. Tokens get their positions by walking over the pieces.

Main statements: a piece is cut off without losing or inventing a character
(`splitGap_append`, `lexeme_append`), and a slice is never empty (`lexeme_slice_ne_nil`), so
scanning ends.
-/

namespace TagScript.Token

/-- Whether `c` is an ASCII letter or an underscore. -/
def isLetter (c : Char) : Bool :=
  ('a' ≤ c && c ≤ 'z') || ('A' ≤ c && c ≤ 'Z') || c = '_'

/-- Whether `c` continues a word. -/
def isWordChar (c : Char) : Bool :=
  isLetter c || Decimal.isDigit c

/-- Whether `c` separates tokens. -/
def isSpace (c : Char) : Bool :=
  c = ' ' || c = '\t' || c = '\r' || c = '\n'

/-- The blanks and comments at the start of a text, and what follows them. A comment runs from two
slashes to the end of the line; the flag says that the text starts inside one. -/
def splitGap (comment : Bool) : List Char → List Char × List Char
  | [] => ([], [])
  | c :: rest =>
    if comment then
      let (gap, after) := splitGap (c ≠ '\n') rest
      (c :: gap, after)
    else if isSpace c then
      let (gap, after) := splitGap false rest
      (c :: gap, after)
    else if c = '/' ∧ rest.head? = some '/' then
      let (gap, after) := splitGap true rest
      (c :: gap, after)
    else ([], c :: rest)

/-- How a string literal ends. -/
inductive StringEnd where
  | closed
  /-- Without one: at the end of the line or of the text. -/
  | unterminated
  /-- With a backslash at the end of the text. -/
  | badEscape
  deriving DecidableEq, Repr

/-- A string literal behind its opening quote. -/
structure StringScan where
  /-- The characters it denotes. -/
  content : List Char
  /-- The characters it is written with. -/
  slice : List Char
  /-- What follows it. -/
  rest : List Char
  /-- How it ends. -/
  ending : StringEnd

/-- The character denoted by `c` behind a backslash: a character without a meaning of its own
denotes itself. -/
def unescape (c : Char) : Char :=
  match c with
  | 'n' => '\n'
  | 't' => '\t'
  | 'r' => '\r'
  | '0' => Char.ofNat 0
  | _ => c

/-- The scan with one more character in front, written as `written`. -/
def StringScan.cons (c : Char) (written : List Char) (s : StringScan) : StringScan :=
  { s with content := c :: s.content, slice := written ++ s.slice }

/-- The string literal whose opening quote stands right before the text. -/
def scanString : List Char → StringScan
  | [] => ⟨[], [], [], .unterminated⟩
  | '"' :: rest => ⟨[], ['"'], rest, .closed⟩
  | '\n' :: rest => ⟨[], [], '\n' :: rest, .unterminated⟩
  | ['\\'] => ⟨[], ['\\'], [], .badEscape⟩
  | '\\' :: c :: rest => (scanString rest).cons (unescape c) ['\\', c]
  | c :: rest => (scanString rest).cons c [c]

/-- The kind of the sign that starts with `c`, given the character after it, and whether that
character belongs to the sign. -/
def sign? (c : Char) (next : Option Char) : Option (Kind × Bool) :=
  match c with
  | '=' => some (if next = some '=' then (.eq, true) else (.assign, false))
  | '!' => some (if next = some '=' then (.neq, true) else (.bang, false))
  | '<' => some (if next = some '=' then (.lte, true) else (.lt, false))
  | '>' => some (if next = some '=' then (.gte, true) else (.gt, false))
  | '+' => some (if next = some '+' then (.increment, true) else (.plus, false))
  | '-' => some (if next = some '-' then (.decrement, true) else (.minus, false))
  | '*' => some (.star, false)
  | '/' => some (.slash, false)
  | '%' => some (.percent, false)
  | '(' => some (.lparen, false)
  | ')' => some (.rparen, false)
  | '{' => some (.lbrace, false)
  | '}' => some (.rbrace, false)
  | '[' => some (.lbracket, false)
  | ']' => some (.rbracket, false)
  | ',' => some (.comma, false)
  | ':' => some (.colon, false)
  | ';' => some (.semicolon, false)
  | _ => none

/-- A token before it is placed: its kind, its text and the characters it is written with. -/
structure Lexeme where
  /-- What the token is. -/
  kind : Kind
  /-- The text of the token. -/
  text : String
  /-- The characters the token is written with. -/
  slice : List Char
  deriving DecidableEq, Repr

/-- A token whose text is the way it is written. -/
def Lexeme.verbatim (kind : Kind) (slice : List Char) : Lexeme :=
  ⟨kind, String.ofList slice, slice⟩

/-- The number at the start of a text: digits, and a point if a digit follows it. -/
def scanNumber (cs : List Char) : Lexeme × List Char :=
  let whole := cs.takeWhile Decimal.isDigit
  match cs.dropWhile Decimal.isDigit with
  | '.' :: d :: rest =>
    if Decimal.isDigit d then
      (.verbatim .float (whole ++ '.' :: (d :: rest).takeWhile Decimal.isDigit),
        (d :: rest).dropWhile Decimal.isDigit)
    else (.verbatim .int whole, '.' :: d :: rest)
  | rest => (.verbatim .int whole, rest)

/-- The token at the start of the text `c :: rest`, and what follows it. -/
def lexeme (c : Char) (rest : List Char) : Lexeme × List Char :=
  if isLetter c then
    let word := (c :: rest).takeWhile isWordChar
    (.verbatim (.ofWord (String.ofList word)) word, (c :: rest).dropWhile isWordChar)
  else if Decimal.isDigit c then scanNumber (c :: rest)
  else if c = '"' then
    let s := scanString rest
    let (kind, text) : Kind × String :=
      match s.ending with
      | .closed => (.string, String.ofList s.content)
      | .unterminated => (.illegal, "Unterminated string")
      | .badEscape => (.illegal, "Bad escape")
    (⟨kind, text, c :: s.slice⟩, s.rest)
  else
    match sign? c rest.head?, rest with
    | some (kind, true), d :: rest => (.verbatim kind [c, d], rest)
    | some (kind, _), rest => (.verbatim kind [c], rest)
    | none, rest => (.verbatim .illegal [c], rest)

/-- A gap and what stands behind it are the text. -/
theorem splitGap_append (comment : Bool) (cs : List Char) :
    (splitGap comment cs).1 ++ (splitGap comment cs).2 = cs := by
  induction cs generalizing comment with
  | nil => simp [splitGap]
  | cons c rest ih =>
    simp only [splitGap]
    split
    · simp [ih]
    · split
      · simp [ih]
      · split <;> simp [ih]

/-- A string literal and what stands behind it are the text. -/
theorem scanString_append (cs : List Char) :
    (scanString cs).slice ++ (scanString cs).rest = cs := by
  fun_induction scanString cs <;> simp_all [StringScan.cons]

/-- A number and what stands behind it are the text. -/
theorem scanNumber_append (cs : List Char) :
    (scanNumber cs).1.slice ++ (scanNumber cs).2 = cs := by
  have h := List.takeWhile_append_dropWhile (p := Decimal.isDigit) (l := cs)
  unfold scanNumber
  split
  next d rest hd =>
    rw [hd] at h
    split
    · simp only [Lexeme.verbatim, List.append_assoc, List.cons_append,
        List.takeWhile_append_dropWhile]
      exact h
    · exact h
  next => exact h

/-- A lexeme and what stands behind it are the text. -/
theorem lexeme_append (c : Char) (rest : List Char) :
    (lexeme c rest).1.slice ++ (lexeme c rest).2 = c :: rest := by
  unfold lexeme
  split
  · exact List.takeWhile_append_dropWhile
  · split
    · exact scanNumber_append _
    · split
      · simp [scanString_append]
      · split <;> simp [Lexeme.verbatim]

/-- A lexeme takes at least one character, so a scan comes to its end. -/
theorem lexeme_slice_ne_nil (c : Char) (rest : List Char) :
    (lexeme c rest).1.slice ≠ [] := by
  unfold lexeme
  split
  next h => simp [Lexeme.verbatim, isWordChar, h]
  next =>
    split
    next h =>
      unfold scanNumber
      split
      · split <;> simp [Lexeme.verbatim]
        simp [h]
      · simp [Lexeme.verbatim, h]
    next =>
      split
      · simp
      · split <;> simp [Lexeme.verbatim]

/-- What follows a token is shorter than the text it was cut off. -/
theorem lexeme_rest_lt (c : Char) (rest : List Char) :
    (lexeme c rest).2.length < (c :: rest).length := by
  have h := congrArg List.length (lexeme_append c rest)
  have hs := List.length_pos_iff.mpr (lexeme_slice_ne_nil c rest)
  simp only [List.length_append] at h
  omega

/-- What follows a gap is no longer than the text it was cut off. -/
theorem splitGap_rest_le (comment : Bool) (cs : List Char) :
    (splitGap comment cs).2.length ≤ cs.length := by
  have h := congrArg List.length (splitGap_append comment cs)
  simp only [List.length_append] at h
  omega

/-- A token with the gap in front of it. -/
structure Piece where
  /-- The blanks and comments before the token. -/
  gap : List Char
  /-- The token. -/
  lexeme : Lexeme
  deriving DecidableEq, Repr

/-- The pieces of a text, and the gap behind the last one. -/
def pieces (cs : List Char) : List Piece × List Char :=
  match _h : splitGap false cs with
  | (gap, []) => ([], gap)
  | (gap, c :: rest) =>
    let (more, last) := pieces (lexeme c rest).2
    (⟨gap, (lexeme c rest).1⟩ :: more, last)
termination_by cs.length
decreasing_by
  have h₁ := splitGap_rest_le false cs
  have h₂ := lexeme_rest_lt c rest
  rw [_h] at h₁
  exact Nat.lt_of_lt_of_le h₂ h₁

/-- The tokens of the pieces of a text that starts at `p`, and the position behind them. -/
def place (p : Position) : List Piece → List Token × Position
  | [] => ([], p)
  | piece :: more =>
    let position := p.advance piece.gap
    let (tokens, stop) := place (position.advance piece.lexeme.slice) more
    (⟨piece.lexeme.kind, piece.lexeme.text, position⟩ :: tokens, stop)

/-- The part of a text that is scanned: all of it up to the first NUL. -/
def scanned (cs : List Char) : List Char :=
  cs.takeWhile (· ≠ Char.ofNat 0)

/-- The tokens of a text. -/
def tokenize (cs : List Char) : Listing :=
  let (ps, last) := pieces (scanned cs)
  let (tokens, stop) := place .start ps
  ⟨tokens, stop.advance last⟩

end TagScript.Token
