import TagScript.Eval.Expr

/-!
# Running Statements

A statement runs in a scope and completes without a value, with a value, or with a value that it
returns from the running function. A block completes as its last statement does, unless one
returns. The blocks of a choice and of a loop run in scopes of their own.
-/

namespace TagScript.Eval

/-- How a statement completes. -/
inductive Completion where
  /-- Without a value. -/
  | empty
  /-- With a value. -/
  | value (v : Value)
  /-- With a value on its way out of the running function. -/
  | returning (v : Value)

/-- The value of a completion, if it has one. -/
def Completion.value? : Completion → Option Value
  | .empty => none
  | .value v | .returning v => some v

/-- The first name that stands twice in a list. -/
def repeated? : List String → Option String
  | names => go [] names
where
  /-- The first name that stands twice in a list or is among those seen before it. -/
  go (seen : List String) : List String → Option String
    | [] => none
    | x :: rest => if x ∈ seen then some x else go (x :: seen) rest

/-- Adds a binding to a scope, which must not bind the name yet. -/
def declare (ctx : Context) (scope : ScopeId) (p : Position) (b : Binding) : Eval Unit := do
  if !(← Machine.define scope b) then
    ctx.fail p (.redeclared b.name)

/-- Declares a variable or a constant with a value that was computed at the position `valueAt`. -/
def declareValue (ctx : Context) (scope : ScopeId) (p : Position) (constant : Bool)
    (name : String) (type : Option TypeName) (valueAt : Position) (v : Value) : Eval Unit := do
  if let some t := type then
    if Tag.ofTypeName t ≠ v.tag then
      ctx.fail valueAt (.initMismatch name (Tag.ofTypeName t) v.tag)
  declare ctx scope p ⟨name, v, v.tag, !constant⟩

/-- Declares a function. Its name is checked before the names of its parameters. -/
def declareFunction (ctx : Context) (scope : ScopeId) (p : Position) (name : String)
    (params : List Param) (returns : Option TypeName) (body : List Stmt) : Eval Unit := do
  if (← get).store.has scope name then
    ctx.fail p (.redeclared name)
  if let some param := repeated? (params.map Param.name) then
    ctx.fail p (.redeclared param)
  let f : Closure := ⟨name, params, returns, body, scope⟩
  let _ ← Machine.define scope ⟨name, .function f, .function, false⟩

/-- Runs the passes of a loop, as many as given, until one returns a value. -/
def passes (count : Nat) (pass : Eval Completion) : Eval Completion :=
  match count with
  | 0 => return .empty
  | n + 1 => do
    match ← pass with
    | .returning v => return .returning v
    | _ => passes n pass

/-- Moves the cursor of a loop by one step from whatever number it holds. -/
def moveCursor (scope : ScopeId) (cursor : String) (step : Int64) : Eval Unit := do
  if let some { value := .int n, .. } ← Machine.resolve? scope cursor then
    let _ ← Machine.assign scope cursor (.int (n + step))

/-- Ends a pass of a loop after its block: unless that returns a value, the cursor moves on. -/
def endPass (scope : ScopeId) (cursor : String) (step : Int64) : Completion → Eval Completion
  | .returning v => return .returning v
  | _ => do
    moveCursor scope cursor step
    return .empty

/-- The range that a loop runs over. -/
def loopRange (ctx : Context) (p : Position) (v : Value) : Eval Range :=
  match v with
  | .range r => if r.step = 0 then ctx.fail p .zeroStep else return r
  | _ => ctx.fail p (.notRange v.tag)

mutual

/-- Runs a statement in a scope. The number of passes of a loop is fixed before the first one. -/
def stmt (ctx : Context) (invoke : Invoke) (scope : ScopeId) : Stmt → Eval Completion
  | .declare p constant x type e => do
    let v ← expr ctx invoke scope e
    declareValue ctx scope p constant x type e.position v
    return .empty
  | .function p x params returns body => do
    declareFunction ctx scope p x params returns body
    return .empty
  | .ret _ none => return .returning .null
  | .ret _ (some e) => do
    let v ← expr ctx invoke scope e
    return .returning v
  | .expr _ e => do
    let v ← expr ctx invoke scope e
    return if e.isAssign then .empty else .value v
  | .branch _ condition yes no => do
    let v ← expr ctx invoke scope condition
    if v.truthy then
      let inner ← Machine.openScope .branch scope
      block ctx invoke inner .empty yes
    else
      match no with
      | some no =>
        let inner ← Machine.openScope .branch scope
        block ctx invoke inner .empty no
      | none => return .empty
  | .loop _ cursor e body => do
    let v ← expr ctx invoke scope e
    let r ← loopRange ctx e.position v
    let outer ← Machine.openScope .loop scope
    let _ ← Machine.define outer ⟨cursor, .int r.start, .int, true⟩
    passes r.length.toNat do
      let inner ← Machine.openScope .block outer
      let c ← block ctx invoke inner .empty body
      endPass outer cursor r.step c

/-- Runs the statements of a block in a scope, given how the statement before them completed. -/
def block (ctx : Context) (invoke : Invoke) (scope : ScopeId) (last : Completion) :
    List Stmt → Eval Completion
  | [] => return last
  | s :: rest => do
    match ← stmt ctx invoke scope s with
    | .returning v => return .returning v
    | c => block ctx invoke scope c rest

end

end TagScript.Eval
