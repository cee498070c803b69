import TagScript.Position
import TagScript.Text.Quoted

/-!
# Tokens

The words of the language: what kinds there are, how a kind is named in messages and listings,
and which words are reserved. A token carries its text and the position of its first character.

The end of the text is not a token; a `Listing` closes with the position where the text ends.
-/

namespace TagScript

namespace Token

/-- The kinds of tokens. -/
inductive Kind where
  /-- Text that is no token of the language. -/
  | illegal
  | ident
  | int
  | float
  | string
  | kwLet
  | kwConst
  | kwFn
  | kwReturn
  | kwIf
  | kwElse
  | kwFor
  | kwIn
  | kwTrue
  | kwFalse
  | kwNull
  | assign
  | plus
  | minus
  | star
  | slash
  | percent
  | bang
  | increment
  | decrement
  | eq
  | neq
  | lt
  | gt
  | lte
  | gte
  | lparen
  | rparen
  | lbrace
  | rbrace
  | lbracket
  | rbracket
  | comma
  | colon
  | semicolon
  deriving DecidableEq, Repr

/-- The name of a kind in messages and listings. -/
def Kind.name : Kind → String
  | .illegal => "ILLEGAL"
  | .ident => "IDENT"
  | .int => "INT"
  | .float => "FLOAT"
  | .string => "STRING"
  | .kwLet => "LET"
  | .kwConst => "CONST"
  | .kwFn => "FUNCTION"
  | .kwReturn => "RETURN"
  | .kwIf => "IF"
  | .kwElse => "ELSE"
  | .kwFor => "FOR"
  | .kwIn => "IN"
  | .kwTrue => "TRUE"
  | .kwFalse => "FALSE"
  | .kwNull => "NULL"
  | .assign => "ASSIGN"
  | .plus => "PLUS"
  | .minus => "MINUS"
  | .star => "STAR"
  | .slash => "SLASH"
  | .percent => "PERCENT"
  | .bang => "BANG"
  | .increment => "INCREMENT"
  | .decrement => "DECREMENT"
  | .eq => "EQ"
  | .neq => "NEQ"
  | .lt => "LT"
  | .gt => "GT"
  | .lte => "LTE"
  | .gte => "GTE"
  | .lparen => "LPAREN"
  | .rparen => "RPAREN"
  | .lbrace => "LBRACE"
  | .rbrace => "RBRACE"
  | .lbracket => "LBRACKET"
  | .rbracket => "RBRACKET"
  | .comma => "COMMA"
  | .colon => "COLON"
  | .semicolon => "SEMICOLON"

/-- The kind of a word: one of the reserved words, all of them lower case, or a name. -/
def Kind.ofWord (word : String) : Kind :=
  match word with
  | "let" => .kwLet
  | "const" => .kwConst
  | "fn" => .kwFn
  | "return" => .kwReturn
  | "if" => .kwIf
  | "else" => .kwElse
  | "for" => .kwFor
  | "in" => .kwIn
  | "true" => .kwTrue
  | "false" => .kwFalse
  | "null" => .kwNull
  | _ => .ident

end Token

/-- A token of a script. -/
structure Token where
  /-- What the token is. -/
  kind : Token.Kind
  /-- The text of the token; for a string the text it denotes, for text that is no token the
  complaint about it. -/
  text : String
  /-- Where the token starts. -/
  position : Position
  deriving DecidableEq, Repr

namespace Token

/-- The token as one line of a listing: its kind, the text where the kind does not fix it, and its
position. -/
def describe (t : Token) : String :=
  let shown :=
    match t.kind with
    | .string => "(" ++ Text.quote t.text ++ ")"
    | .ident | .int | .float | .illegal => "(" ++ t.text ++ ")"
    | _ => ""
  t.kind.name ++ shown ++ " @ " ++ t.position.text

/-- The tokens of a text and the position of its end. -/
structure Listing where
  /-- The tokens in order. -/
  tokens : List Token
  /-- The position behind the last character. -/
  stop : Position

/-- The name under which the end of a text is listed. -/
def Listing.endName : String := "EOF"

/-- The end of the text as one line of a listing. -/
def Listing.describeEnd (l : Listing) : String :=
  endName ++ " @ " ++ l.stop.text

end Token

end TagScript
