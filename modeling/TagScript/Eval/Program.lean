import TagScript.Eval.Stmt
import TagScript.Tree.Show

/-!
# Calls and Programs

A call of a declared function runs its body in a fresh scope inside the scope it was declared in.
Calls may be nested up to a limit; `call` is recursion on how many more may become active, so every
program comes to an end.
-/

namespace TagScript.Eval

/-- Binds the arguments of a call to the parameters of a function, one after the other. -/
def bindParams (ctx : Context) (function : String) (scope : ScopeId) (p : Position) :
    List Param → List Arg → Eval Unit
  | param :: params, arg :: args => do
    if let some t := param.type then
      if Tag.ofTypeName t ≠ arg.tag then
        ctx.fail p (.argMismatch param.name function (Tag.ofTypeName t) arg.tag)
    declare ctx scope p ⟨param.name, arg.value, arg.value.tag, true⟩
    bindParams ctx function scope p params args
  | _, _ => return ()

/-- The result of a call: the value its body completed with or `null`, checked against the declared
type. A function declared to answer nothing answers `null`. -/
def resultOf (ctx : Context) (f : Closure) (p : Position) (c : Completion) : Eval Value :=
  let v := c.value?.getD .null
  match f.returns with
  | none => return v
  | some .void => return .null
  | some t =>
    if Tag.ofTypeName t ≠ v.tag then
      ctx.fail p (.returnMismatch f.name (Tag.ofTypeName t) v.tag)
    else return v

/-- Checks the number of arguments of a call. -/
def checkArity (ctx : Context) (f : Closure) (args : List Arg) (p : Position) : Eval Unit := do
  if args.length ≠ f.params.length then
    ctx.fail p (.arity f.name f.params.length args.length)

/-- Opens the scope of a call, with the parameters bound to the arguments. -/
def openCall (ctx : Context) (f : Closure) (args : List Arg) (p : Position) : Eval ScopeId := do
  let scope ← Machine.openScope .function f.scope
  bindParams ctx f.name scope p f.params args
  return scope

/-- Notes that the body of a function is about to run in a scope. -/
def noteCall (ctx : Context) (f : Closure) (scope : ScopeId) : Eval Unit :=
  Machine.note ctx fun m => .call f.name m.frames.length .function (m.store.depth scope)

/-- Calls a declared function when `spare` more calls may become active. The number of arguments is
checked before the limit, and the limit before the types of the arguments. -/
def call (ctx : Context) (spare : Nat) (f : Closure) (args : List Arg) (p : Position) :
    Eval Value := do
  checkArity ctx f args p
  match spare with
  | 0 => ctx.fail p (.depth ctx.limit)
  | spare + 1 =>
    let scope ← openCall ctx f args p
    let c ← Machine.inFrame f.name do
      noteCall ctx f scope
      block ctx (call ctx spare) scope .empty f.body
    resultOf ctx f p c

/-- How declared functions are called on a machine with no active calls. -/
def invoke (ctx : Context) : Invoke :=
  call ctx ctx.limit

/-- Runs the statements of a program in the outermost scope, given the value of the statement
before them. The answer is the value of the last statement, or the value that one returns. -/
def program (ctx : Context) (last : Option Value) : Program → Eval (Option Value)
  | [] => return last
  | s :: rest => do
    Machine.note ctx fun _ => .statement s.kindName s.position.line
    match ← stmt ctx (invoke ctx) ctx.global s with
    | .returning v => return some v
    | .value v => program ctx (some v) rest
    | .empty => program ctx none rest

/-- The tag of an expression as far as it shows without evaluating it: that of a literal, and that
of the binding of a name. Other expressions have no known tag. -/
def staticTag (s : Store) (scope : ScopeId) : Expr → Except Cause Tag
  | .int .. => .ok .int
  | .float .. => .ok .float
  | .string .. => .ok .string
  | .bool .. => .ok .boolean
  | .null .. => .ok .null
  | .array .. => .ok .array
  | .name _ x =>
    match s.resolve? scope x with
    | some b => .ok b.tag
    | none => .error (.undeclared x)
  | _ => .ok .unknown

end TagScript.Eval
