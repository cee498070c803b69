import TagScript.Eval.Operation
import TagScript.Machine.Builtin

/-!
# Evaluating Expressions

Expressions are evaluated in a scope, operands and arguments from left to right. How a declared
function is called is a parameter (`Invoke`), so that evaluation is recursion on the expression.
-/

namespace TagScript.Eval

/-- How a declared function is called with arguments at a position. -/
abbrev Invoke := Closure → List Arg → Position → Eval Value

/-- Checks that a name is declared before a value for it is computed. -/
def requireDeclared (ctx : Context) (scope : ScopeId) (p : Position) (name : String) :
    Eval Unit := do
  if !(← get).store.isDeclared scope name then
    ctx.fail p (.undeclared name)

/-- Assigns a value that was computed at the position `valueAt` to a name. -/
def assignValue (ctx : Context) (scope : ScopeId) (p : Position) (name : String)
    (valueAt : Position) (v : Value) : Eval Unit := do
  match ← Machine.assign scope name v with
  | .ok => return ()
  | .undeclared => ctx.fail p (.undeclared name)
  | .immutable => ctx.fail p (.notAssignable name)
  | .typeMismatch =>
    let want := ((← Machine.resolve? scope name).map Binding.tag).getD .unknown
    ctx.fail valueAt (.assignMismatch name want v.tag)

/-- The binding of a name, which must be declared. -/
def bindingOf (ctx : Context) (scope : ScopeId) (p : Position) (name : String) :
    Eval Binding := do
  match ← Machine.resolve? scope name with
  | some b => return b
  | none => ctx.fail p (.undeclared name)

/-- Whether a value can be called. -/
def isCallable : Value → Bool
  | .builtin _ | .function _ => true
  | _ => false

/-- Checks that a value can be called. -/
def checkCallable (ctx : Context) (p : Position) (callee : Value) : Eval Unit := do
  if !isCallable callee then
    ctx.fail p (.notCallable callee.tag)

/-- Notes the call of a function that every script finds, and calls it. -/
def callBuiltin (ctx : Context) (b : Builtin) (args : List Arg) (p : Position) :
    Eval Value := do
  Machine.note ctx fun m => .builtin b.name (Arg.describe args) m.caller
  b.call ctx args p

/-- Calls a value, which must be a function. -/
def callValue (ctx : Context) (invoke : Invoke) (p : Position) (callee : Value)
    (args : List Arg) : Eval Value :=
  match callee with
  | .builtin b => callBuiltin ctx b args p
  | .function f => invoke f args p
  | _ => ctx.fail p (.notCallable callee.tag)

/-- Checks that an item of an array has the expected tag. -/
def checkItem (ctx : Context) (p : Position) (want : Tag) (v : Value) : Eval Unit := do
  if v.tag ≠ want then
    ctx.fail p (.itemMismatch want v.tag)

mutual

/-- Evaluates an expression in a scope. An assignment inside an expression yields `null`. -/
def expr (ctx : Context) (invoke : Invoke) (scope : ScopeId) : Expr → Eval Value
  | .int _ n => return .int n
  | .float _ x => return .float x
  | .string _ s => return .string s
  | .bool _ b => return .bool b
  | .null _ => return .null
  | .array _ es => do
    let (elem, vs) ← items ctx invoke scope none es
    return .array elem vs
  | .name p x => do
    let b ← bindingOf ctx scope p x
    return b.value
  | .assign p x e => do
    requireDeclared ctx scope p x
    let v ← expr ctx invoke scope e
    assignValue ctx scope p x e.position v
    return .null
  | .call p callee es => do
    let f ← expr ctx invoke scope callee
    checkCallable ctx callee.position f
    let vs ← args ctx invoke scope es
    callValue ctx invoke p f vs
  | .binary p left op right => do
    let v ← expr ctx invoke scope left
    let w ← expr ctx invoke scope right
    ctx.accept p (op.apply v w)
  | .unary p op right => do
    let v ← expr ctx invoke scope right
    ctx.accept p (op.apply v)
  | .step p left op => do
    let v ← expr ctx invoke scope left
    ctx.accept p (op.apply v)

/-- Evaluates the items of an array, which must have one tag: that of the first item, which `elem`
is if there is an item before them. The tag is given with the items, unknown if there are none. -/
def items (ctx : Context) (invoke : Invoke) (scope : ScopeId) (elem : Option Tag) :
    List Expr → Eval (Tag × List Value)
  | [] => return (elem.getD .unknown, [])
  | e :: rest => do
    let v ← expr ctx invoke scope e
    let want := elem.getD v.tag
    checkItem ctx e.position want v
    let (tag, vs) ← items ctx invoke scope (some want) rest
    return (tag, v :: vs)

/-- Evaluates the arguments of a call. -/
def args (ctx : Context) (invoke : Invoke) (scope : ScopeId) : List Expr → Eval (List Arg)
  | [] => return []
  | .name p x :: rest => do
    let b ← bindingOf ctx scope p x
    let more ← args ctx invoke scope rest
    return ⟨b.value, b.tag⟩ :: more
  | e :: rest => do
    let v ← expr ctx invoke scope e
    let more ← args ctx invoke scope rest
    return ⟨v, v.tag⟩ :: more

end

end TagScript.Eval
