import TagScript.Decimal.Shortest
import TagScript.Text.Quoted
import TagScript.Tree.Basic

/-!
# Trees as Text

The name of each kind of node, and a one-line summary of expressions and statements. A summary
shows expressions in full, except that a call shows only the number of its arguments, and it shows
blocks only by their number of statements.
-/

namespace TagScript

/-- The name of the kind of an expression. -/
def Expr.kindName : Expr → String
  | .int .. => "IntLiteral"
  | .float .. => "FloatLiteral"
  | .string .. => "StringLiteral"
  | .bool .. => "BoolLiteral"
  | .null .. => "NullLiteral"
  | .array .. => "ArrayLiteral"
  | .name .. => "Identifier"
  | .assign .. => "AssignExpr"
  | .call .. => "CallExpr"
  | .binary .. => "InfixExpr"
  | .unary .. => "PrefixExpr"
  | .step .. => "PostfixExpr"

/-- The name of the kind of a statement. -/
def Stmt.kindName : Stmt → String
  | .declare .. => "LetStmt"
  | .function .. => "FunctionDecl"
  | .ret .. => "ReturnStmt"
  | .expr .. => "ExprStmt"
  | .branch .. => "IfStmt"
  | .loop .. => "ForStmt"

mutual

/-- The summary of an expression. -/
def Expr.summary : Expr → String
  | .int _ n => "Int(" ++ toString n.toInt ++ ")"
  | .float _ x => "Float(" ++ Decimal.positional x ++ ")"
  | .string _ s => "String(" ++ Text.quote s ++ ")"
  | .bool _ b => if b then "Bool(true)" else "Bool(false)"
  | .null _ => "Null"
  | .array _ items => "Array([" ++ ", ".intercalate (summaries items) ++ "])"
  | .name _ x => "Ident(" ++ x ++ ")"
  | .assign _ x value => "Assign(" ++ x ++ " = " ++ value.summary ++ ")"
  | .call _ callee args => "Call(" ++ callee.summary ++ ", args=" ++ toString args.length ++ ")"
  | .binary _ left op right =>
    "Infix(" ++ left.summary ++ " " ++ op.spelling ++ " " ++ right.summary ++ ")"
  | .unary _ op right => "Prefix(" ++ op.spelling ++ " " ++ right.summary ++ ")"
  | .step _ left op => "Postfix(" ++ left.summary ++ " " ++ op.spelling ++ ")"

/-- The summaries of some expressions in order. -/
def Expr.summaries : List Expr → List String
  | [] => []
  | e :: rest => e.summary :: Expr.summaries rest

end

/-- The summary of a statement. -/
def Stmt.summary : Stmt → String
  | .declare _ constant x type value =>
    (if constant then "const" else "let") ++ "(" ++ x ++
      (match type with
        | none => ""
        | some t => ": " ++ t.spelling) ++
      " = " ++ value.summary ++ ")"
  | .function _ x params _ body =>
    "Function(" ++ x ++ ", params=" ++ toString params.length ++ ", body=" ++
      toString body.length ++ ")"
  | .ret _ none => "Return()"
  | .ret _ (some value) => "Return(" ++ value.summary ++ ")"
  | .expr _ value => "ExprStmt(" ++ value.summary ++ ")"
  | .branch _ condition yes no =>
    "IfStmt(" ++ condition.summary ++ ", then=" ++ toString yes.length ++ ", else=" ++
      toString (no.getD []).length ++ ")"
  | .loop _ cursor range body =>
    "ForStmt(" ++ cursor ++ " in " ++ range.summary ++ ", body=" ++ toString body.length ++ ")"

/-- A parameter as it is written in a signature. -/
def Param.text (p : Param) : String :=
  match p.type with
  | none => p.name
  | some t => p.name ++ ": " ++ t.spelling

end TagScript
