import TagScript.Position
import TagScript.Tree.TypeName

/-!
# Programs as Trees

Expressions, statements and programs. Every node carries a position: an operation that of its
operator, a call that of its callee, every other node that of its first token.

A tree need not come from a text. Its operators may then be spelled in any way; an operator that
the language does not have is kept under its spelling, so that a diagnostic can name it.
-/

namespace TagScript

/-- An operator between two operands. -/
inductive BinaryOp where
  /-- Sum, and concatenation of texts. -/
  | add
  | sub
  | mul
  | div
  | rem
  | eq
  | ne
  | lt
  | le
  | gt
  | ge
  /-- A spelling that is no operator. -/
  | other (spelling : String)
  deriving DecidableEq, Repr

/-- The spelling of an operator between two operands. -/
def BinaryOp.spelling : BinaryOp → String
  | .add => "+"
  | .sub => "-"
  | .mul => "*"
  | .div => "/"
  | .rem => "%"
  | .eq => "=="
  | .ne => "!="
  | .lt => "<"
  | .le => "<="
  | .gt => ">"
  | .ge => ">="
  | .other spelling => spelling

/-- The operator between two operands with this spelling. -/
def BinaryOp.ofSpelling (spelling : String) : BinaryOp :=
  match spelling with
  | "+" => .add
  | "-" => .sub
  | "*" => .mul
  | "/" => .div
  | "%" => .rem
  | "==" => .eq
  | "!=" => .ne
  | "<" => .lt
  | "<=" => .le
  | ">" => .gt
  | ">=" => .ge
  | _ => .other spelling

/-- An operator in front of its operand. -/
inductive UnaryOp where
  | not
  | plus
  | minus
  /-- A spelling that is no operator. -/
  | other (spelling : String)
  deriving DecidableEq, Repr

/-- The spelling of an operator in front of its operand. -/
def UnaryOp.spelling : UnaryOp → String
  | .not => "!"
  | .plus => "+"
  | .minus => "-"
  | .other spelling => spelling

/-- The operator in front of its operand with this spelling. -/
def UnaryOp.ofSpelling (spelling : String) : UnaryOp :=
  match spelling with
  | "!" => .not
  | "+" => .plus
  | "-" => .minus
  | _ => .other spelling

/-- An operator behind its operand: one step up or down from a whole number. -/
inductive StepOp where
  | increment
  | decrement
  /-- A spelling that is no operator; it steps down. -/
  | other (spelling : String)
  deriving DecidableEq, Repr

/-- The spelling of an operator behind its operand. -/
def StepOp.spelling : StepOp → String
  | .increment => "++"
  | .decrement => "--"
  | .other spelling => spelling

/-- The operator behind its operand with this spelling. -/
def StepOp.ofSpelling (spelling : String) : StepOp :=
  match spelling with
  | "++" => .increment
  | "--" => .decrement
  | _ => .other spelling

/-- An expression. -/
inductive Expr where
  | int (position : Position) (value : Int64)
  | float (position : Position) (value : Float)
  | string (position : Position) (value : String)
  | bool (position : Position) (value : Bool)
  | null (position : Position)
  | array (position : Position) (items : List Expr)
  | name (position : Position) (name : String)
  /-- The assignment of a value to a name. -/
  | assign (position : Position) (name : String) (value : Expr)
  | call (position : Position) (callee : Expr) (args : List Expr)
  | binary (position : Position) (left : Expr) (op : BinaryOp) (right : Expr)
  /-- An operator in front of its operand. -/
  | unary (position : Position) (op : UnaryOp) (right : Expr)
  /-- An operator behind its operand. -/
  | step (position : Position) (left : Expr) (op : StepOp)
  deriving Repr, Inhabited

/-- The position of an expression. -/
def Expr.position : Expr → Position
  | .int p _ | .float p _ | .string p _ | .bool p _ | .null p | .array p _ | .name p _
  | .assign p _ _ | .call p _ _ | .binary p _ _ _ | .unary p _ _ | .step p _ _ => p

/-- Whether an expression is an assignment, which as a statement yields no value. -/
def Expr.isAssign : Expr → Bool
  | .assign .. => true
  | _ => false

/-- A parameter of a function. -/
structure Param where
  /-- The name the argument is bound to. -/
  name : String
  /-- The type the argument must have, if any. -/
  type : Option TypeName
  deriving DecidableEq, Repr

/-- A statement. -/
inductive Stmt where
  /-- The declaration of a variable, or of a constant. -/
  | declare (position : Position) (constant : Bool) (name : String)
      (type : Option TypeName) (value : Expr)
  /-- The declaration of a function. -/
  | function (position : Position) (name : String) (params : List Param)
      (returns : Option TypeName) (body : List Stmt)
  /-- The end of the running function, with the value of an expression or with `null`. -/
  | ret (position : Position) (value : Option Expr)
  /-- An expression evaluated for its effects and its value. -/
  | expr (position : Position) (value : Expr)
  /-- A choice between two blocks, the second of which may be missing. -/
  | branch (position : Position) (condition : Expr) (yes : List Stmt) (no : Option (List Stmt))
  /-- A block repeated for the numbers of a range. -/
  | loop (position : Position) (cursor : String) (range : Expr) (body : List Stmt)
  deriving Repr, Inhabited

/-- The position of a statement. -/
def Stmt.position : Stmt → Position
  | .declare p _ _ _ _ | .function p _ _ _ _ | .ret p _ | .expr p _ | .branch p _ _ _
  | .loop p _ _ _ => p

/-- The statements of a script in order. -/
abbrev Program := List Stmt

end TagScript
