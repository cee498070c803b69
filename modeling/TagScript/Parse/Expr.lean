import TagScript.Decimal.Reading
import TagScript.Parse.Reply
import TagScript.Tree.Basic

/-!
# Reading Expressions

The grammar of expressions, from the loosest binding to the tightest:

* `expr = name "=" expr | equality`, where the name may stand in parentheses;
* `equality`, `comparison`, `term` and `factor` are operands of the next level joined from the left
  by `==`, `!=`; by `<`, `<=`, `>`, `>=`; by `+`, `-`; and by `*`, `/`, `%`;
* `unary = ("!" | "+" | "-") unary | postfix`;
* `postfix = call ("++" | "--")*`;
* `call = primary ("(" [expr ("," expr)*] ")")*`;
* `primary` is a literal, a name, an expression in parentheses or an array in brackets.

Each parser reads the longest phrase of its level. Reading ends because a parser either consumes a
token or hands over to a tighter level.
-/

namespace TagScript.Parse

/-- The levels of operators between two operands. -/
inductive Level where
  | equality
  | comparison
  | term
  | factor
  deriving DecidableEq, Repr

/-- The level of the operands of a level; the operands of a factor are no operations of a
level. -/
def Level.next? : Level → Option Level
  | .equality => some .comparison
  | .comparison => some .term
  | .term => some .factor
  | .factor => none

/-- How many levels bind tighter. -/
def Level.rank : Level → Nat
  | .equality => 3
  | .comparison => 2
  | .term => 1
  | .factor => 0

theorem Level.rank_next {l m : Level} (h : l.next? = some m) : m.rank < l.rank := by
  cases l <;> simp [next?] at h <;> subst h <;> decide

/-- The operator of a level that a kind of token stands for. -/
def Level.op? : Level → Token.Kind → Option BinaryOp
  | .equality, .eq => some .eq
  | .equality, .neq => some .ne
  | .comparison, .lt => some .lt
  | .comparison, .lte => some .le
  | .comparison, .gt => some .gt
  | .comparison, .gte => some .ge
  | .term, .plus => some .add
  | .term, .minus => some .sub
  | .factor, .star => some .mul
  | .factor, .slash => some .div
  | .factor, .percent => some .rem
  | _, _ => none

/-- The operator in front of an operand that a kind of token stands for. -/
def unaryOp? : Token.Kind → Option UnaryOp
  | .bang => some .not
  | .plus => some .plus
  | .minus => some .minus
  | _ => none

/-- The operator behind an operand that a kind of token stands for. -/
def stepOp? : Token.Kind → Option StepOp
  | .increment => some .increment
  | .decrement => some .decrement
  | _ => none

/-- Reads the operators behind an operand. -/
def steps (left : Expr) : (ts : List Token) → Parsed Expr (ts.length + 1)
  | [] => .absent left []
  | t :: rest =>
    match stepOp? t.kind with
    | some op => (steps (.step t.position left op) rest).widen (by simp)
    | none => .absent left (t :: rest)

/-- The whole number denoted by a token. -/
def integer (t : Token) : Except ParseError Expr :=
  match Decimal.int64? t.text.toList with
  | some n => .ok (.int t.position n)
  | none => .error ⟨.integer t.text, some t⟩

/-- The double denoted by a token. The scanner gives this kind to digits with a point among them; of
other texts, only decimal numerals are read. -/
def double (t : Token) : Except ParseError Expr :=
  match Decimal.double? t.text.toList with
  | some x => .ok (.float t.position x)
  | none => .error ⟨.double t.text, some t⟩

mutual

/-- Reads an expression. -/
def expr (ts : List Token) : Reply Expr ts.length := do
  let ⟨left, rest, h⟩ ← operation .equality ts
  match rest, h with
  | t :: rest, h =>
    if t.kind = .assign then
      match left with
      | .name position x => do
        let ⟨value, rest, h'⟩ ← expr rest
        return ⟨.assign position x value, rest, by simp at h; omega⟩
      | _ => fail .assignmentTarget (t :: rest)
    else return ⟨left, t :: rest, h⟩
  | [], h => return ⟨left, [], h⟩
termination_by (ts.length, 11)
decreasing_by
  · decreasing_with simp [Level.rank]
  · simp only [List.length_cons] at h
    decreasing_with omega

/-- Reads an operation of a level: operands joined from the left by its operators. -/
def operation (level : Level) (ts : List Token) : Reply Expr ts.length := do
  let ⟨left, rest, _⟩ ← operand level ts
  let more ← operations level left rest
  return more.widen (by omega)
termination_by (ts.length, 2 * level.rank + 4)

/-- Reads the operators of a level, each with its right operand, behind the operand `left`. -/
def operations (level : Level) (left : Expr) (ts : List Token) : Reply Expr (ts.length + 1) :=
  match ts with
  | [] => return .absent left []
  | t :: rest =>
    match level.op? t.kind with
    | none => return .absent left (t :: rest)
    | some op => do
      let ⟨right, rest', _⟩ ← operand level rest
      let more ← operations level (.binary t.position left op right) rest'
      return more.widen (by simp; omega)
termination_by (ts.length, 2 * level.rank + 4)

/-- Reads an operand of a level. -/
def operand (level : Level) (ts : List Token) : Reply Expr ts.length :=
  match _h : level.next? with
  | some next => operation next ts
  | none => unary ts
termination_by (ts.length, 2 * level.rank + 3)
decreasing_by
  · have := Level.rank_next _h
    decreasing_with omega
  · decreasing_with omega

/-- Reads an operand with the operators in front of it and behind it. -/
def unary (ts : List Token) : Reply Expr ts.length :=
  match ts with
  | [] => fail .expression []
  | t :: rest =>
    match unaryOp? t.kind with
    | some op => do
      let ⟨right, rest', _⟩ ← unary rest
      return ⟨.unary t.position op right, rest', by simp; omega⟩
    | none => do
      let ⟨left, rest', _⟩ ← call (t :: rest)
      return (steps left rest').widen (by omega)
termination_by (ts.length, 2)

/-- Reads a primary expression with the argument lists behind it. -/
def call (ts : List Token) : Reply Expr ts.length := do
  let ⟨callee, rest, _⟩ ← primary ts
  let more ← calls callee rest
  return more.widen (by omega)
termination_by (ts.length, 1)

/-- Reads the argument lists behind `callee`. -/
def calls (callee : Expr) (ts : List Token) : Reply Expr (ts.length + 1) :=
  match ts with
  | [] => return .absent callee []
  | t :: rest =>
    if t.kind = .lparen then do
      let ⟨args, rest', _⟩ ← items .rparen .argsNext rest
      let more ← calls (.call callee.position callee args) rest'
      return more.widen (by simp; omega)
    else return .absent callee (t :: rest)
termination_by (ts.length, 1)

/-- Reads a list of expressions separated by commas, and the token that closes it. The list may be
empty, but no comma stands before the closing token. -/
def items (close : Token.Kind) (problem : Problem) (ts : List Token) :
    Reply (List Expr) ts.length :=
  match ts with
  | [] => fail .expression []
  | t :: rest =>
    if t.kind = close then return .first [] t rest
    else moreItems close problem (t :: rest)
termination_by (ts.length, 13)

/-- Reads one or more expressions separated by commas, and the token that closes the list. -/
def moreItems (close : Token.Kind) (problem : Problem) (ts : List Token) :
    Reply (List Expr) ts.length := do
  let ⟨item, rest, h⟩ ← expr ts
  match rest, h with
  | [], _ => fail problem []
  | t :: rest, h =>
    if t.kind = .comma then
      let ⟨more, rest', _⟩ ← moreItems close problem rest
      return ⟨item :: more, rest', by simp at h; omega⟩
    else if t.kind = close then return ⟨[item], rest, by simp at h; omega⟩
    else fail problem (t :: rest)
termination_by (ts.length, 12)
decreasing_by
  · decreasing_tactic
  · simp only [List.length_cons] at h
    decreasing_with omega

/-- Reads a literal, a name, an expression in parentheses or an array. -/
def primary (ts : List Token) : Reply Expr ts.length :=
  match ts with
  | [] => fail .expression []
  | t :: rest =>
    match t.kind with
    | .int => do
      let e ← integer t
      return .first e t rest
    | .float => do
      let e ← double t
      return .first e t rest
    | .string => return .first (.string t.position t.text) t rest
    | .kwTrue => return .first (.bool t.position true) t rest
    | .kwFalse => return .first (.bool t.position false) t rest
    | .kwNull => return .first (.null t.position) t rest
    | .ident => return .first (.name t.position t.text) t rest
    | .lparen => do
      let ⟨e, rest', _⟩ ← expr rest
      let ⟨_, rest'', _⟩ ← expect .rparen .parenClose rest'
      return ⟨e, rest'', by simp; omega⟩
    | .lbracket => do
      let ⟨es, rest', _⟩ ← items .rbracket .itemsNext rest
      return ⟨.array t.position es, rest', by simp; omega⟩
    | .illegal => fail (.illegal t.text) (t :: rest)
    | _ => fail .expression (t :: rest)
termination_by (ts.length, 0)

end

end TagScript.Parse
