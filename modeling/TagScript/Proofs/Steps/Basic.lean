import Mathlib.Logic.Relation
import TagScript.Session

/-!
# Runs in Small Steps

The evaluator computes a whole run at once. Here the same run is taken apart into small steps, so
that one can speak of what holds at every moment of it. A state (`State`) consists of what
is being done (`Control`), of what waits for it (`Frame`, innermost first) and of the machine.
`step` takes one step; a state without a step is final, or is none that a run comes to.

A step never evaluates anything inside another step: it does at most one of the evaluator's own
operations on the machine. A call of a declared function is guarded as a host would guard it, by
counting the active calls on the machine (`enter`), and not by a number that is handed down.
-/

namespace TagScript.Steps

open Eval (Completion)

/-- What waits for a value or a completion. -/
inductive Frame where
  /-- An array literal waits for an item, with the items before it done, whose tag is `elem` if
  there are any. -/
  | item (scope : ScopeId) (elem : Option Tag) (done : List Value) (place : Position)
      (rest : List Expr)
  /-- An assignment waits for the value. -/
  | assign (scope : ScopeId) (p : Position) (name : String) (valueAt : Position)
  /-- A call waits for the function. -/
  | callee (scope : ScopeId) (p calleeAt : Position) (args : List Expr)
  /-- A call waits for an argument, with the arguments before it done. -/
  | arg (scope : ScopeId) (p : Position) (callee : Value) (done : List Arg) (rest : List Expr)
  /-- An operator waits for its left operand. -/
  | left (scope : ScopeId) (p : Position) (op : BinaryOp) (right : Expr)
  /-- An operator waits for its right operand. -/
  | right (p : Position) (left : Value) (op : BinaryOp)
  /-- An operator waits for the operand behind it. -/
  | unary (p : Position) (op : UnaryOp)
  /-- An operator waits for the operand in front of it. -/
  | step (p : Position) (op : StepOp)
  /-- A declaration waits for the value. -/
  | declare (scope : ScopeId) (p : Position) (constant : Bool) (name : String)
      (type : Option TypeName) (valueAt : Position)
  /-- A return waits for the value. -/
  | ret
  /-- An expression statement waits for the value, which is dropped after an assignment. -/
  | expr (isAssign : Bool)
  /-- A choice waits for its condition. -/
  | branch (scope : ScopeId) (yes : List Stmt) (no : Option (List Stmt))
  /-- A loop waits for its range. -/
  | loop (scope : ScopeId) (cursor : String) (rangeAt : Position) (body : List Stmt)
  /-- A block waits for one of its statements. -/
  | block (scope : ScopeId) (rest : List Stmt)
  /-- A loop waits for a pass, with a number of passes still to come. -/
  | pass (outer : ScopeId) (cursor : String) (step : Int64) (body : List Stmt) (count : Nat)
  /-- A call waits for the body of the function. -/
  | body (f : Closure) (p : Position)
  /-- A program waits for one of its statements. -/
  | program (rest : Program)

/-- What is being done. -/
inductive Control where
  /-- An expression is to be evaluated. -/
  | expr (scope : ScopeId) (e : Expr)
  /-- The other items of an array literal are to be evaluated. The tag of those that are done is
  `elem`, if there are any. -/
  | items (scope : ScopeId) (elem : Option Tag) (done : List Value) (rest : List Expr)
  /-- The other arguments of a call are to be evaluated. -/
  | args (scope : ScopeId) (p : Position) (callee : Value) (done : List Arg) (rest : List Expr)
  /-- A value is to be called. -/
  | apply (p : Position) (callee : Value) (args : List Arg)
  /-- A statement is to be run. -/
  | stmt (scope : ScopeId) (s : Stmt)
  /-- The other statements of a block are to be run. -/
  | block (scope : ScopeId) (last : Completion) (rest : List Stmt)
  /-- The other passes of a loop are to be run. -/
  | passes (outer : ScopeId) (cursor : String) (step : Int64) (body : List Stmt) (count : Nat)
  /-- The other statements of a program are to be run. -/
  | program (last : Option Value) (rest : Program)
  /-- An expression has a value. -/
  | value (v : Value)
  /-- A statement has completed. -/
  | completed (c : Completion)
  /-- The program has ended. -/
  | finished (v : Option Value)
  /-- The run has been stopped. -/
  | stopped (s : Stop)

/-- A moment of a run. -/
structure State where
  /-- What is being done. -/
  control : Control
  /-- What waits for it, innermost first. -/
  stack : List Frame
  /-- The machine. -/
  machine : Machine

/-- The first moment of a run. -/
def State.start (p : Program) (m : Machine) : State :=
  ⟨.program none p, [], m⟩

/-- Goes on with what an operation on the machine gives; where it stops, `stack` is left waiting. -/
def proceed {α : Type} (x : Eval α) (stack : List Frame) (m : Machine)
    (next : α → Machine → State) : State :=
  match x m with
  | .ok a m => next a m
  | .error s m => ⟨.stopped s, stack, m⟩

/-- Makes a call active. -/
def pushFrame (function : String) : Eval Unit :=
  modify fun m => { m with frames := function :: m.frames }

/-- Ends the innermost active call. -/
def popFrame : Eval Unit :=
  modify fun m => { m with frames := m.frames.tail }

/-- Checks that one more call may become active. -/
def checkDepth (ctx : Context) (p : Position) : Eval Unit := do
  if ctx.limit ≤ (← get).frames.length then
    ctx.fail p (.depth ctx.limit)

/-- Enters the body of a declared function and gives its scope. -/
def enter (ctx : Context) (f : Closure) (args : List Arg) (p : Position) : Eval ScopeId := do
  Eval.checkArity ctx f args p
  checkDepth ctx p
  let scope ← Eval.openCall ctx f args p
  pushFrame f.name
  Eval.noteCall ctx f scope
  return scope

/-- Leaves the body of a declared function and gives the result of the call. -/
def leave (ctx : Context) (f : Closure) (p : Position) (c : Completion) : Eval Value := do
  popFrame
  Eval.resultOf ctx f p c

/-- Opens the scope of a loop with its cursor, and gives its number and the range. -/
def openLoop (ctx : Context) (scope : ScopeId) (cursor : String) (rangeAt : Position)
    (v : Value) : Eval (ScopeId × Range) := do
  let r ← Eval.loopRange ctx rangeAt v
  let outer ← Machine.openScope .loop scope
  let _ ← Machine.define outer ⟨cursor, .int r.start, .int, true⟩
  return (outer, r)

/-- The first step of an expression. -/
def startExpr (ctx : Context) (scope : ScopeId) (k : List Frame) (m : Machine) : Expr → State
  | .int _ n => ⟨.value (.int n), k, m⟩
  | .float _ x => ⟨.value (.float x), k, m⟩
  | .string _ s => ⟨.value (.string s), k, m⟩
  | .bool _ b => ⟨.value (.bool b), k, m⟩
  | .null _ => ⟨.value .null, k, m⟩
  | .array _ es => ⟨.items scope none [] es, k, m⟩
  | .name p x => proceed (Eval.bindingOf ctx scope p x) k m fun b m => ⟨.value b.value, k, m⟩
  | .assign p x e =>
    proceed (Eval.requireDeclared ctx scope p x) k m fun _ m =>
      ⟨.expr scope e, .assign scope p x e.position :: k, m⟩
  | .call p callee es => ⟨.expr scope callee, .callee scope p callee.position es :: k, m⟩
  | .binary p l op r => ⟨.expr scope l, .left scope p op r :: k, m⟩
  | .unary p op r => ⟨.expr scope r, .unary p op :: k, m⟩
  | .step p l op => ⟨.expr scope l, .step p op :: k, m⟩

/-- The next item of an array literal. -/
def nextItem (scope : ScopeId) (elem : Option Tag) (done : List Value) (k : List Frame)
    (m : Machine) : List Expr → State
  | [] => ⟨.value (.array (elem.getD .unknown) done), k, m⟩
  | e :: rest => ⟨.expr scope e, .item scope elem done e.position rest :: k, m⟩

/-- The next argument of a call. For a name, the tag of its binding is tracked. -/
def nextArg (ctx : Context) (scope : ScopeId) (p : Position) (callee : Value) (done : List Arg)
    (k : List Frame) (m : Machine) : List Expr → State
  | [] => ⟨.apply p callee done, k, m⟩
  | .name q x :: rest =>
    proceed (Eval.bindingOf ctx scope q x) k m fun b m =>
      ⟨.args scope p callee (done ++ [⟨b.value, b.tag⟩]) rest, k, m⟩
  | e :: rest => ⟨.expr scope e, .arg scope p callee done rest :: k, m⟩

/-- The first step of a call whose arguments are known. -/
def startCall (ctx : Context) (p : Position) (args : List Arg) (k : List Frame) (m : Machine) :
    Value → State
  | .builtin b => proceed (Eval.callBuiltin ctx b args p) k m fun v m => ⟨.value v, k, m⟩
  | .function f =>
    proceed (enter ctx f args p) k m fun scope m =>
      ⟨.block scope .empty f.body, .body f p :: k, m⟩
  | v => proceed (ctx.fail p (.notCallable v.tag)) k m fun v m => ⟨.value v, k, m⟩

/-- The first step of a statement. -/
def startStmt (ctx : Context) (scope : ScopeId) (k : List Frame) (m : Machine) : Stmt → State
  | .declare p constant x type e =>
    ⟨.expr scope e, .declare scope p constant x type e.position :: k, m⟩
  | .function p x params returns body =>
    proceed (Eval.declareFunction ctx scope p x params returns body) k m fun _ m =>
      ⟨.completed .empty, k, m⟩
  | .ret _ none => ⟨.completed (.returning .null), k, m⟩
  | .ret _ (some e) => ⟨.expr scope e, .ret :: k, m⟩
  | .expr _ e => ⟨.expr scope e, .expr e.isAssign :: k, m⟩
  | .branch _ condition yes no => ⟨.expr scope condition, .branch scope yes no :: k, m⟩
  | .loop _ cursor e body => ⟨.expr scope e, .loop scope cursor e.position body :: k, m⟩

/-- The next statement of a block. -/
def nextStmt (scope : ScopeId) (last : Completion) (k : List Frame) (m : Machine) :
    List Stmt → State
  | [] => ⟨.completed last, k, m⟩
  | s :: rest => ⟨.stmt scope s, .block scope rest :: k, m⟩

/-- The next pass of a loop. -/
def nextPass (outer : ScopeId) (cursor : String) (step : Int64) (body : List Stmt)
    (k : List Frame) (m : Machine) : Nat → State
  | 0 => ⟨.completed .empty, k, m⟩
  | n + 1 =>
    proceed (Machine.openScope .block outer) k m fun inner m =>
      ⟨.block inner .empty body, .pass outer cursor step body n :: k, m⟩

/-- The next statement of a program. -/
def nextTop (ctx : Context) (last : Option Value) (k : List Frame) (m : Machine) :
    Program → State
  | [] => ⟨.finished last, k, m⟩
  | s :: rest =>
    proceed (Machine.note ctx fun _ => .statement s.kindName s.position.line) k m fun _ m =>
      ⟨.stmt ctx.global s, .program rest :: k, m⟩

/-- Opens the scope of a block of a choice and goes on with the block, if there is one. -/
def startBranch (scope : ScopeId) (k : List Frame) (m : Machine) : Option (List Stmt) → State
  | some block =>
    proceed (Machine.openScope .branch scope) k m fun inner m => ⟨.block inner .empty block, k, m⟩
  | none => ⟨.completed .empty, k, m⟩

/-- Hands a value to what waits for it. -/
def resume (ctx : Context) (v : Value) (k : List Frame) (m : Machine) : Frame → Option State
  | .item scope elem done p rest =>
    some <| proceed (Eval.checkItem ctx p (elem.getD v.tag) v) k m fun _ m =>
      ⟨.items scope (some (elem.getD v.tag)) (done ++ [v]) rest, k, m⟩
  | .assign scope p x valueAt =>
    some <| proceed (Eval.assignValue ctx scope p x valueAt v) k m fun _ m => ⟨.value .null, k, m⟩
  | .callee scope p calleeAt es =>
    some <| proceed (Eval.checkCallable ctx calleeAt v) k m fun _ m => ⟨.args scope p v [] es, k, m⟩
  | .arg scope p callee done rest =>
    some ⟨.args scope p callee (done ++ [⟨v, v.tag⟩]) rest, k, m⟩
  | .left scope p op right => some ⟨.expr scope right, .right p v op :: k, m⟩
  | .right p left op =>
    some <| proceed (ctx.accept p (op.apply left v)) k m fun v m => ⟨.value v, k, m⟩
  | .unary p op => some <| proceed (ctx.accept p (op.apply v)) k m fun v m => ⟨.value v, k, m⟩
  | .step p op => some <| proceed (ctx.accept p (op.apply v)) k m fun v m => ⟨.value v, k, m⟩
  | .declare scope p constant x type valueAt =>
    some <| proceed (Eval.declareValue ctx scope p constant x type valueAt v) k m fun _ m =>
      ⟨.completed .empty, k, m⟩
  | .ret => some ⟨.completed (.returning v), k, m⟩
  | .expr isAssign => some ⟨.completed (if isAssign then .empty else .value v), k, m⟩
  | .branch scope yes no => some (startBranch scope k m (if v.truthy then some yes else no))
  | .loop scope cursor rangeAt body =>
    some <| proceed (openLoop ctx scope cursor rangeAt v) k m fun (outer, r) m =>
      ⟨.passes outer cursor r.step body r.length.toNat, k, m⟩
  | _ => none

/-- Hands the completion of a statement to what waits for it. -/
def complete (ctx : Context) (c : Completion) (k : List Frame) (m : Machine) :
    Frame → Option State
  | .block scope rest =>
    match c with
    | .returning v => some ⟨.completed (.returning v), k, m⟩
    | c => some ⟨.block scope c rest, k, m⟩
  | .pass outer cursor step body count =>
    match c with
    | .returning v => some ⟨.completed (.returning v), k, m⟩
    | _ =>
      some <| proceed (Eval.moveCursor outer cursor step) k m fun _ m =>
        ⟨.passes outer cursor step body count, k, m⟩
  | .body f p => some <| proceed (leave ctx f p c) k m fun v m => ⟨.value v, k, m⟩
  | .program rest =>
    match c with
    | .returning v => some ⟨.finished (some v), k, m⟩
    | .value v => some ⟨.program (some v) rest, k, m⟩
    | .empty => some ⟨.program none rest, k, m⟩
  | _ => none

/-- Takes a stopped run out of what waits. A call ends, and an error takes the name of the function
along. -/
def unwind (s : Stop) (k : List Frame) (m : Machine) : Frame → State
  | .body f _ =>
    let s := match s with
      | .error e => .error (e.unwind f.name)
      | s => s
    ⟨.stopped s, k, { m with frames := m.frames.tail }⟩
  | _ => ⟨.stopped s, k, m⟩

/-- One step of a run. -/
def step (ctx : Context) : State → Option State
  | ⟨.expr scope e, k, m⟩ => some (startExpr ctx scope k m e)
  | ⟨.items scope elem done es, k, m⟩ => some (nextItem scope elem done k m es)
  | ⟨.args scope p callee done es, k, m⟩ => some (nextArg ctx scope p callee done k m es)
  | ⟨.apply p callee args, k, m⟩ => some (startCall ctx p args k m callee)
  | ⟨.stmt scope s, k, m⟩ => some (startStmt ctx scope k m s)
  | ⟨.block scope last ss, k, m⟩ => some (nextStmt scope last k m ss)
  | ⟨.passes outer cursor step body n, k, m⟩ => some (nextPass outer cursor step body k m n)
  | ⟨.program last ss, k, m⟩ => some (nextTop ctx last k m ss)
  | ⟨.value v, frame :: k, m⟩ => resume ctx v k m frame
  | ⟨.completed c, frame :: k, m⟩ => complete ctx c k m frame
  | ⟨.stopped s, frame :: k, m⟩ => some (unwind s k m frame)
  | _ => none

/-- Some steps of a run, one after the other. -/
abbrev Reaches (ctx : Context) : State → State → Prop :=
  Relation.ReflTransGen fun c d => step ctx c = some d

end TagScript.Steps
