import TagScript.Token.Basic
import TagScript.Text.Quoted

/-!
# Replies of the Parser

A parser is given the tokens that are left and replies with a tree and the tokens behind it, or
with the problem it met and the token it met it at. A reply carries the proof that fewer tokens are
left than a bound, which is how the parsers show that they come to an end.
-/

namespace TagScript.Parse

/-- What a parser misses or refuses. -/
inductive Problem where
  /-- The name in a declaration that starts with `keyword`. -/
  | nameAfter (keyword : String)
  /-- The sign `=` of a declaration. -/
  | equalsSign
  /-- The semicolon of a declaration. -/
  | declarationEnd
  /-- A type name. -/
  | typeName
  /-- A word that is no type. -/
  | unknownType (word : String)
  /-- The name of a function. -/
  | functionName
  /-- The parenthesis that opens a parameter list. -/
  | paramsOpen
  /-- The name of a parameter. -/
  | paramName
  /-- What separates or closes parameters. -/
  | paramsNext
  /-- The semicolon of a returned value. -/
  | returnEnd
  /-- The cursor of a loop. -/
  | cursorName
  /-- The word `in` of a loop. -/
  | loopIn
  /-- The semicolon of an expression. -/
  | expressionEnd
  /-- The brace that opens a block. -/
  | blockOpen
  /-- The brace that closes a block. -/
  | blockClose
  /-- Something assigned to that is no name. -/
  | assignmentTarget
  /-- What separates or closes arguments. -/
  | argsNext
  /-- What separates or closes the items of an array. -/
  | itemsNext
  /-- The parenthesis that closes an expression. -/
  | parenClose
  /-- A whole number beyond 64 bits. -/
  | integer (digits : String)
  /-- A number beyond every double. -/
  | double (digits : String)
  /-- Text that is no token, with the complaint of the scanner. -/
  | illegal (complaint : String)
  /-- An expression. -/
  | expression
  deriving DecidableEq, Repr

/-- The wording of a problem. -/
def Problem.text : Problem → String
  | .nameAfter keyword => "Expected name after '" ++ keyword ++ "'"
  | .equalsSign => "Expected '=' in declaration"
  | .declarationEnd => "Expected ';' after declaration"
  | .typeName => "Expected a type name"
  | .unknownType word => "Unknown type " ++ Text.quote word
  | .functionName => "Expected function name after 'fn'"
  | .paramsOpen => "Expected '(' after function name"
  | .paramName => "Expected parameter name"
  | .paramsNext => "Expected ',' or ')' in parameter list"
  | .returnEnd => "Expected ';' after return value"
  | .cursorName => "Expected loop variable after 'for'"
  | .loopIn => "Expected 'in' after loop variable"
  | .expressionEnd => "Expected ';' after expression"
  | .blockOpen => "Expected '\x7b' to open block"
  | .blockClose => "Expected '\x7d' to close block"
  | .assignmentTarget => "Invalid assignment target"
  | .argsNext => "Expected ',' or ')' in call arguments"
  | .itemsNext => "Expected ',' or ']' in array literal"
  | .parenClose => "Expected ')'"
  | .integer digits => "Invalid integer " ++ Text.quote digits
  | .double digits => "Invalid float " ++ Text.quote digits
  | .illegal complaint => complaint
  | .expression => "Expected an expression"

/-- Why some tokens are no program. -/
structure ParseError where
  /-- What is missing or refused. -/
  problem : Problem
  /-- The token it was noticed at; none at the end of the text. -/
  found : Option Token
  deriving DecidableEq, Repr

/-- The message about a parse error. -/
def ParseError.message (e : ParseError) : String :=
  match e.found with
  | none => e.problem.text ++ " at end of file"
  | some t => e.problem.text ++ " at " ++ t.position.text ++ " (got " ++ t.kind.name ++ ")"

/-- A tree and the tokens behind it, fewer than `bound`. -/
structure Parsed (α : Type) (bound : Nat) where
  /-- What was read. -/
  tree : α
  /-- The tokens that are left. -/
  rest : List Token
  /-- Fewer tokens are left than `bound`. -/
  rest_lt : rest.length < bound

/-- The reply of a parser. -/
abbrev Reply (α : Type) (bound : Nat) := Except ParseError (Parsed α bound)

/-- The same tree under a larger bound. -/
def Parsed.widen {α : Type} {m n : Nat} (p : Parsed α m) (h : m ≤ n) : Parsed α n :=
  ⟨p.tree, p.rest, Nat.lt_of_lt_of_le p.rest_lt h⟩

/-- The same tree under a strictly larger bound. -/
def Parsed.within {α : Type} {m n : Nat} (p : Parsed α m) (h : m < n) : Parsed α n :=
  ⟨p.tree, p.rest, Nat.lt_trans p.rest_lt h⟩

/-- Another tree in place of the one that was read. -/
def Parsed.map {α β : Type} {n : Nat} (f : α → β) (p : Parsed α n) : Parsed β n :=
  ⟨f p.tree, p.rest, p.rest_lt⟩

theorem length_lt_cons (t : Token) (ts : List Token) : ts.length < (t :: ts).length :=
  Nat.lt_succ_self _

theorem length_le_cons_succ (t : Token) (ts : List Token) : ts.length ≤ (t :: ts).length + 1 :=
  Nat.le_add_right _ 2

/-- A tree read off the first token. -/
def Parsed.first {α : Type} (a : α) (t : Token) (ts : List Token) : Parsed α (t :: ts).length :=
  ⟨a, ts, length_lt_cons t ts⟩

/-- A tree read off no token at all. -/
def Parsed.absent {α : Type} (a : α) (ts : List Token) : Parsed α (ts.length + 1) :=
  ⟨a, ts, Nat.lt_succ_self _⟩

/-- The reply of a parser that meets `problem` at the first of the tokens that are left. -/
def fail {α : Type} (problem : Problem) (ts : List Token) : Except ParseError α :=
  .error ⟨problem, ts.head?⟩

/-- Reads a token of the given kind. -/
def expect (kind : Token.Kind) (problem : Problem) : (ts : List Token) → Reply Token ts.length
  | t :: rest => if t.kind = kind then .ok (.first t t rest) else fail problem (t :: rest)
  | [] => fail problem []

end TagScript.Parse
