import Mathlib.Algebra.Group.Nat.Defs
import TagScript.Proofs.Decimal.Numerals
import TagScript.Parse.Expr

/-!
# The Grammar

The grammar of the language as types of derivations, one for each nonterminal and one constructor
for each of its productions. A derivation shows the tokens it derives (`tokens`) and the tree it
stands for (`tree`), with the position of each node.

```
program    = { stmt }
stmt       = "let" IDENT [ ":" type ] "=" expr ";"
           | "const" IDENT [ ":" type ] "=" expr ";"
           | "fn" IDENT "(" [ param { "," param } ] ")" [ ":" type ] block
           | "return" [ expr ] ";"
           | "if" expr block [ "else" ( block | ifstmt ) ]
           | "for" IDENT "in" expr block
           | expr ";"
param      = IDENT [ ":" type ]
block      = "{" { stmt } "}"
expr       = target "=" expr | equality
target     = IDENT | "(" target ")"
equality   = comparison { ( "==" | "!=" ) comparison }
comparison = term { ( "<" | "<=" | ">" | ">=" ) term }
term       = factor { ( "+" | "-" ) factor }
factor     = unary { ( "*" | "/" | "%" ) unary }
unary      = ( "!" | "+" | "-" ) unary | postfix
postfix    = call { "++" | "--" }
call       = primary { "(" [ expr { "," expr } ] ")" }
primary    = INT | FLOAT | STRING | "true" | "false" | "null" | IDENT
           | "(" expr ")" | "[" [ expr { "," expr } ] "]"
```

A type is a name, `null` or `fn` that is known as a type. A whole number is at most `2 ^ 63 - 1`,
and a number with a fraction is not beyond every double.
-/

namespace TagScript.Grammar

open Parse (Level)

/-- A token of a given kind. -/
structure Terminal (kind : Token.Kind) where
  /-- The token. -/
  token : Token
  /-- It is of that kind. -/
  kind_eq : token.kind = kind

/-- Some digits. -/
def Digits (cs : List Char) : Prop :=
  cs ≠ [] ∧ ∀ c ∈ cs, Decimal.isDigit c = true

/-- A sign between operands of a level, and its operator. -/
inductive Between : Level → Token.Kind → BinaryOp → Prop
  | eq : Between .equality .eq .eq
  | ne : Between .equality .neq .ne
  | lt : Between .comparison .lt .lt
  | le : Between .comparison .lte .le
  | gt : Between .comparison .gt .gt
  | ge : Between .comparison .gte .ge
  | add : Between .term .plus .add
  | sub : Between .term .minus .sub
  | mul : Between .factor .star .mul
  | div : Between .factor .slash .div
  | rem : Between .factor .percent .rem

/-- A sign in front of an operand, and its operator. -/
inductive InFront : Token.Kind → UnaryOp → Prop
  | not : InFront .bang .not
  | plus : InFront .plus .plus
  | minus : InFront .minus .minus

/-- A sign behind an operand, and its operator. -/
inductive Behind : Token.Kind → StepOp → Prop
  | increment : Behind .increment .increment
  | decrement : Behind .decrement .decrement

/-- An expression that is a single token. -/
inductive Atom : Token → TagScript.Expr → Prop
  /-- A whole number: digits that denote a 64-bit integer. -/
  | int {t : Token} : t.kind = .int → Digits t.text.toList →
      Decimal.value t.text.toList ≤ 2 ^ 63 - 1 →
      Atom t (.int t.position (Int64.ofNat (Decimal.value t.text.toList)))
  /-- A number with a fraction: digits on both sides of a point that denote a double. -/
  | float {t : Token} {whole fraction : List Char} : t.kind = .float →
      t.text.toList = whole ++ '.' :: fraction → Digits whole → Digits fraction →
      (Decimal.fractional whole fraction).toFloat.isInf = false →
      Atom t (.float t.position (Decimal.fractional whole fraction).toFloat)
  /-- A text. -/
  | string {t : Token} : t.kind = .string → Atom t (.string t.position t.text)
  /-- The word `true`. -/
  | trueWord {t : Token} : t.kind = .kwTrue → Atom t (.bool t.position true)
  /-- The word `false`. -/
  | falseWord {t : Token} : t.kind = .kwFalse → Atom t (.bool t.position false)
  /-- The word `null`. -/
  | nullWord {t : Token} : t.kind = .kwNull → Atom t (.null t.position)
  /-- A name. -/
  | name {t : Token} : t.kind = .ident → Atom t (.name t.position t.text)

/-- A name that is assigned to, in any number of parentheses. -/
inductive Target where
  | name (word : Terminal .ident)
  | paren (left : Terminal .lparen) (inner : Target) (right : Terminal .rparen)

/-- A sign behind an operand. -/
structure StepSign where
  /-- The token. -/
  token : Token
  /-- The operator it stands for. -/
  op : StepOp
  /-- It stands for that operator. -/
  sign : Behind token.kind op

mutual

/-- An expression. -/
inductive Expr where
  | assign (target : Target) (sign : Terminal .assign) (value : Expr)
  | equality (o : Operation .equality)

/-- An operation of a level: operands with signs between them. -/
inductive Operation : Level → Type
  | mk {level : Level} (first : Operand level) (more : Operations level) : Operation level

/-- The operands of an operation behind the first one, each with the sign in front of it. -/
inductive Operations : Level → Type
  | nil {level : Level} : Operations level
  | cons {level : Level} (token : Token) (op : BinaryOp) (sign : Between level token.kind op)
      (right : Operand level) (more : Operations level) : Operations level

/-- An operand of a level. -/
inductive Operand : Level → Type
  | comparison (o : Operation .comparison) : Operand .equality
  | term (o : Operation .term) : Operand .comparison
  | factor (o : Operation .factor) : Operand .term
  | unary (u : Unary) : Operand .factor

/-- An operand with the signs in front of it or behind it. -/
inductive Unary where
  | front (token : Token) (op : UnaryOp) (sign : InFront token.kind op) (right : Unary)
  | behind (left : Call) (signs : List StepSign)

/-- A primary expression with the argument lists behind it. -/
inductive Call where
  | mk (callee : Primary) (more : Calls)

/-- Argument lists. -/
inductive Calls where
  | nil
  | cons (left : Terminal .lparen) (args : Exprs) (right : Terminal .rparen) (more : Calls)

/-- Expressions with commas between them, or none. -/
inductive Exprs where
  | none
  | some (items : MoreExprs)

/-- One or more expressions with commas between them. -/
inductive MoreExprs where
  | last (item : Expr)
  | cons (item : Expr) (comma : Terminal .comma) (more : MoreExprs)

/-- A primary expression. -/
inductive Primary where
  | atom (token : Token) (tree : TagScript.Expr) (h : Atom token tree)
  | paren (left : Terminal .lparen) (e : Expr) (right : Terminal .rparen)
  | array (left : Terminal .lbracket) (items : Exprs) (right : Terminal .rbracket)

end

/-- The tokens of a name that is assigned to. -/
def Target.tokens : Target → List Token
  | .name word => [word.token]
  | .paren left inner right => left.token :: inner.tokens ++ [right.token]

/-- The token of the name itself. -/
def Target.word : Target → Token
  | .name word => word.token
  | .paren _ inner _ => inner.word

mutual

/-- The tokens that an expression derives. -/
def Expr.tokens : Expr → List Token
  | .assign target sign value => target.tokens ++ sign.token :: value.tokens
  | .equality o => o.tokens

/-- The tokens that an operation derives. -/
def Operation.tokens {level : Level} : Operation level → List Token
  | .mk first more => first.tokens ++ more.tokens

/-- The tokens that the other operands of an operation derive. -/
def Operations.tokens {level : Level} : Operations level → List Token
  | .nil => []
  | .cons token _ _ right more => token :: right.tokens ++ more.tokens

/-- The tokens that an operand derives. -/
def Operand.tokens {level : Level} : Operand level → List Token
  | .comparison o => o.tokens
  | .term o => o.tokens
  | .factor o => o.tokens
  | .unary u => u.tokens

/-- The tokens that an operand with signs derives. -/
def Unary.tokens : Unary → List Token
  | .front token _ _ right => token :: right.tokens
  | .behind left signs => left.tokens ++ signs.map StepSign.token

/-- The tokens that a primary expression with argument lists derives. -/
def Call.tokens : Call → List Token
  | .mk callee more => callee.tokens ++ more.tokens

/-- The tokens that argument lists derive. -/
def Calls.tokens : Calls → List Token
  | .nil => []
  | .cons left args right more => left.token :: args.tokens ++ right.token :: more.tokens

/-- The tokens that a list of expressions derives. -/
def Exprs.tokens : Exprs → List Token
  | .none => []
  | .some items => items.tokens

/-- The tokens that one or more expressions derive. -/
def MoreExprs.tokens : MoreExprs → List Token
  | .last item => item.tokens
  | .cons item comma more => item.tokens ++ comma.token :: more.tokens

/-- The tokens that a primary expression derives. -/
def Primary.tokens : Primary → List Token
  | .atom token _ _ => [token]
  | .paren left e right => left.token :: e.tokens ++ [right.token]
  | .array left items right => left.token :: items.tokens ++ [right.token]

end

mutual

/-- The tree of an expression. Assignments group to the right. -/
def Expr.tree : Expr → TagScript.Expr
  | .assign target _ value => .assign target.word.position target.word.text value.tree
  | .equality o => o.tree

/-- The tree of an operation. -/
def Operation.tree {level : Level} : Operation level → TagScript.Expr
  | .mk first more => more.onto first.tree

/-- The tree of an operation whose operands so far are `left`. Operations group to the left. -/
def Operations.onto {level : Level} : Operations level → TagScript.Expr → TagScript.Expr
  | .nil, left => left
  | .cons token op _ right more, left => more.onto (.binary token.position left op right.tree)

/-- The tree of an operand. -/
def Operand.tree {level : Level} : Operand level → TagScript.Expr
  | .comparison o => o.tree
  | .term o => o.tree
  | .factor o => o.tree
  | .unary u => u.tree

/-- The tree of an operand with signs. -/
def Unary.tree : Unary → TagScript.Expr
  | .front token op _ right => .unary token.position op right.tree
  | .behind left signs =>
    signs.foldl (fun e sign => .step sign.token.position e sign.op) left.tree

/-- The tree of a primary expression with argument lists. -/
def Call.tree : Call → TagScript.Expr
  | .mk callee more => more.onto callee.tree

/-- The tree of a call of `callee` with argument lists. -/
def Calls.onto : Calls → TagScript.Expr → TagScript.Expr
  | .nil, callee => callee
  | .cons _ args _ more, callee => more.onto (.call callee.position callee args.trees)

/-- The trees of a list of expressions. -/
def Exprs.trees : Exprs → List TagScript.Expr
  | .none => []
  | .some items => items.trees

/-- The trees of one or more expressions. -/
def MoreExprs.trees : MoreExprs → List TagScript.Expr
  | .last item => [item.tree]
  | .cons item _ more => item.tree :: more.trees

/-- The tree of a primary expression. -/
def Primary.tree : Primary → TagScript.Expr
  | .atom _ tree _ => tree
  | .paren _ e _ => e.tree
  | .array left items _ => .array left.token.position items.trees

end

/-- A type: a word that is known as one. -/
structure TypeWord where
  /-- The token. -/
  token : Token
  /-- The type it names. -/
  type : TypeName
  /-- It is a name, or one of the reserved words `null` and `fn`. -/
  kind : token.kind = .ident ∨ token.kind = .kwNull ∨ token.kind = .kwFn
  /-- It names that type. -/
  known : TypeName.ofWord? token.text = some type

/-- A declared type, or none. -/
inductive DeclaredType where
  | none
  | some (colon : Terminal .colon) (word : TypeWord)

/-- The tokens that a declared type derives. -/
def DeclaredType.tokens : DeclaredType → List Token
  | .none => []
  | .some colon word => [colon.token, word.token]

/-- The type that is declared. -/
def DeclaredType.type : DeclaredType → Option TypeName
  | .none => Option.none
  | .some _ word => Option.some word.type

/-- A parameter. -/
structure Param where
  /-- The name. -/
  word : Terminal .ident
  /-- The declared type, if any. -/
  declared : DeclaredType

/-- The tokens that a parameter derives. -/
def Param.tokens (p : Param) : List Token :=
  p.word.token :: p.declared.tokens

/-- The parameter as it stands in the tree. -/
def Param.tree (p : Param) : TagScript.Param :=
  ⟨p.word.token.text, p.declared.type⟩

/-- One or more parameters with commas between them. -/
inductive MoreParams where
  | last (p : Param)
  | cons (p : Param) (comma : Terminal .comma) (more : MoreParams)

/-- The tokens that one or more parameters derive. -/
def MoreParams.tokens : MoreParams → List Token
  | .last p => p.tokens
  | .cons p comma more => p.tokens ++ comma.token :: more.tokens

/-- The parameters as they stand in the tree. -/
def MoreParams.trees : MoreParams → List TagScript.Param
  | .last p => [p.tree]
  | .cons p _ more => p.tree :: more.trees

/-- Parameters with commas between them, or none. -/
inductive Params where
  | none
  | some (items : MoreParams)

/-- The tokens that a list of parameters derives. -/
def Params.tokens : Params → List Token
  | .none => []
  | .some items => items.tokens

/-- The parameters as they stand in the tree. -/
def Params.trees : Params → List TagScript.Param
  | .none => []
  | .some items => items.trees

mutual

/-- A statement. -/
inductive Stmt where
  | letDecl (keyword : Terminal .kwLet) (name : Terminal .ident) (declared : DeclaredType)
      (sign : Terminal .assign) (value : Expr) (stop : Terminal .semicolon)
  | constDecl (keyword : Terminal .kwConst) (name : Terminal .ident) (declared : DeclaredType)
      (sign : Terminal .assign) (value : Expr) (stop : Terminal .semicolon)
  | function (keyword : Terminal .kwFn) (name : Terminal .ident) (left : Terminal .lparen)
      (params : Params) (right : Terminal .rparen) (declared : DeclaredType) (body : Block)
  | ret (keyword : Terminal .kwReturn) (stop : Terminal .semicolon)
  | retValue (keyword : Terminal .kwReturn) (value : Expr) (stop : Terminal .semicolon)
  | branch (b : Branch)
  | loop (keyword : Terminal .kwFor) (cursor : Terminal .ident) (word : Terminal .kwIn)
      (range : Expr) (body : Block)
  | expr (value : Expr) (stop : Terminal .semicolon)

/-- A choice. -/
inductive Branch where
  | mk (keyword : Terminal .kwIf) (condition : Expr) (yes : Block) (no : Otherwise)

/-- The second part of a choice, or none. -/
inductive Otherwise where
  | none
  | block (keyword : Terminal .kwElse) (no : Block)
  | branch (keyword : Terminal .kwElse) (no : Branch)

/-- A block. -/
inductive Block where
  | mk (left : Terminal .lbrace) (body : Stmts) (right : Terminal .rbrace)

/-- Some statements. -/
inductive Stmts where
  | nil
  | cons (s : Stmt) (more : Stmts)

end

mutual

/-- The tokens that a statement derives. -/
def Stmt.tokens : Stmt → List Token
  | .letDecl keyword name declared sign value stop =>
    keyword.token :: name.token :: declared.tokens ++ sign.token :: value.tokens ++ [stop.token]
  | .constDecl keyword name declared sign value stop =>
    keyword.token :: name.token :: declared.tokens ++ sign.token :: value.tokens ++ [stop.token]
  | .function keyword name left params right declared body =>
    keyword.token :: name.token :: left.token :: params.tokens ++ right.token ::
      declared.tokens ++ body.tokens
  | .ret keyword stop => [keyword.token, stop.token]
  | .retValue keyword value stop => keyword.token :: value.tokens ++ [stop.token]
  | .branch b => b.tokens
  | .loop keyword cursor word range body =>
    keyword.token :: cursor.token :: word.token :: range.tokens ++ body.tokens
  | .expr value stop => value.tokens ++ [stop.token]

/-- The tokens that a choice derives. -/
def Branch.tokens : Branch → List Token
  | .mk keyword condition yes no => keyword.token :: condition.tokens ++ yes.tokens ++ no.tokens

/-- The tokens that the second part of a choice derives. -/
def Otherwise.tokens : Otherwise → List Token
  | .none => []
  | .block keyword no => keyword.token :: no.tokens
  | .branch keyword no => keyword.token :: no.tokens

/-- The tokens that a block derives. -/
def Block.tokens : Block → List Token
  | .mk left body right => left.token :: body.tokens ++ [right.token]

/-- The tokens that some statements derive. -/
def Stmts.tokens : Stmts → List Token
  | .nil => []
  | .cons s more => s.tokens ++ more.tokens

end

/-- The position of the first token. -/
def startOf (ts : List Token) : Position :=
  (ts.head?.map Token.position).getD .nowhere

mutual

/-- The tree of a statement. -/
def Stmt.tree : Stmt → TagScript.Stmt
  | .letDecl keyword name declared _ value _ =>
    .declare keyword.token.position false name.token.text declared.type value.tree
  | .constDecl keyword name declared _ value _ =>
    .declare keyword.token.position true name.token.text declared.type value.tree
  | .function keyword name _ params _ declared body =>
    .function keyword.token.position name.token.text params.trees declared.type body.trees
  | .ret keyword _ => .ret keyword.token.position none
  | .retValue keyword value _ => .ret keyword.token.position (some value.tree)
  | .branch b => b.tree
  | .loop keyword cursor _ range body =>
    .loop keyword.token.position cursor.token.text range.tree body.trees
  | .expr value _ => .expr (startOf value.tokens) value.tree

/-- The tree of a choice. -/
def Branch.tree : Branch → TagScript.Stmt
  | .mk keyword condition yes no =>
    .branch keyword.token.position condition.tree yes.trees no.trees

/-- The statements of the second part of a choice. A choice in its place is its one statement. -/
def Otherwise.trees : Otherwise → Option (List TagScript.Stmt)
  | .none => Option.none
  | .block _ no => Option.some no.trees
  | .branch _ no => Option.some [no.tree]

/-- The statements of a block. -/
def Block.trees : Block → List TagScript.Stmt
  | .mk _ body _ => body.trees

/-- The trees of some statements. -/
def Stmts.trees : Stmts → List TagScript.Stmt
  | .nil => []
  | .cons s more => s.tree :: more.trees

end

end TagScript.Grammar
