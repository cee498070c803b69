import TagScript.Diagnostic.Error
import TagScript.Random.Generator
import TagScript.Store.Basic

/-!
# The Machine

A running program reads and changes a machine: the stored scopes, the active calls, the source of
random numbers and the events by which it is noticed from outside. A run stops early with an error
of the program, with a fault that no program can name, or because the host ends it.

What stays fixed during a run stands in a `Context`: the outermost scope, the limit of active calls,
the script for diagnostics, whether the run is traced, and what becomes of a request to exit.
-/

namespace TagScript

/-- A step of a traced run. -/
inductive Note where
  /-- A statement of the program is about to run. -/
  | statement (kind : String) (line : Int)
  /-- A function that every script finds is about to run. -/
  | builtin (name : String) (args : String) (caller : String)
  /-- A declared function is about to run: its name, the number of active calls, the kind of its
  scope and the number of scopes around it. -/
  | call (function : String) (depth : Nat) (scope : ScopeKind) (nesting : Nat)
  deriving DecidableEq, Repr

/-- What is noticed from outside. -/
inductive Event where
  | printed (text : String)
  | exited (code : Int64)
  | noted (note : Note)
  deriving DecidableEq, Repr

namespace Event

/-- What was printed in the course of some events. -/
def output (events : Array Event) : String :=
  events.foldl (fun out e =>
    match e with
    | .printed text => out ++ text
    | _ => out) ""

/-- The exit codes asked for in the course of some events. -/
def exits (events : Array Event) : List Int64 :=
  events.toList.filterMap fun
    | .exited code => some code
    | _ => none

/-- The trace of some events. -/
def notes (events : Array Event) : List Note :=
  events.toList.filterMap fun
    | .noted note => some note
    | _ => none

end Event

/-- The state of a running program. -/
structure Machine where
  /-- The stored scopes. -/
  store : Store
  /-- The names of the active calls, innermost first. -/
  frames : List String
  /-- The events so far. -/
  events : Array Event
  /-- The source of random numbers. -/
  random : Random.Generator

/-- A fault of the machine itself. -/
inductive Fault where
  /-- A whole number was divided by zero. -/
  | divisionByZero
  /-- A random number was asked for where there is none. -/
  | emptyDraw
  deriving DecidableEq, Repr

/-- The message about a fault. -/
def Fault.message : Fault → String
  | .divisionByZero => "runtime error: integer divide by zero"
  | .emptyDraw => "runtime error: empty random draw"

/-- Why a run stops early. -/
inductive Stop where
  | error (e : RuntimeError)
  | fault (f : Fault)
  /-- The host ended the run. -/
  | halt (code : Int64)

/-- A computation on the machine. Its changes stay when it stops early. -/
abbrev Eval := EStateM Stop Machine

/-- What stays fixed during a run. -/
structure Context where
  /-- The outermost scope. -/
  global : ScopeId
  /-- The limit of active calls. -/
  limit : Nat
  /-- The name of the script. -/
  file : String
  /-- The lines of the script. -/
  lines : List Bytes
  /-- Whether the run is traced. -/
  traced : Bool
  /-- Whether a request to exit ends the run; otherwise it is only noticed. -/
  exitEnds : Bool

namespace Context

/-- The line of the script at a position; empty if there is none. -/
def lineAt (ctx : Context) (p : Position) : Bytes :=
  if 0 < p.line then (ctx.lines[(p.line - 1).toNat]?).getD [] else []

/-- The error with a cause that arose at a position of the script. -/
def errorAt (ctx : Context) (p : Position) (cause : Cause) : RuntimeError :=
  ⟨cause, ctx.file, p, ctx.lineAt p, []⟩

/-- Stops with the error that has a cause and arose at a position. -/
def fail {α : Type} (ctx : Context) (p : Position) (cause : Cause) : Eval α :=
  throw (.error (ctx.errorAt p cause))

end Context

namespace Machine

/-- Notices an event. -/
def notice (e : Event) : Eval Unit :=
  modify fun ⟨store, frames, events, random⟩ => ⟨store, frames, events.push e, random⟩

/-- Notes a step of a traced run. The note is built from the machine. -/
def note (ctx : Context) (step : Machine → Note) : Eval Unit := do
  if ctx.traced then
    let m ← get
    notice (.noted (step m))

/-- The name of the innermost active call; empty if there is none. -/
def caller (m : Machine) : String :=
  m.frames.headD ""

/-- Opens a scope. -/
def openScope (kind : ScopeKind) (parent : ScopeId) : Eval ScopeId :=
  modifyGet fun ⟨store, frames, events, random⟩ =>
    let (id, store) := store.openScope kind parent
    (id, ⟨store, frames, events, random⟩)

/-- Adds a binding to a scope, and says whether it did. -/
def define (id : ScopeId) (b : Binding) : Eval Bool :=
  modifyGet fun ⟨store, frames, events, random⟩ =>
    let (done, store) := store.define id b
    (done, ⟨store, frames, events, random⟩)

/-- Assigns a value to the binding that a name resolves to in a scope. -/
def assign (id : ScopeId) (name : String) (value : Value) : Eval Store.Assigned :=
  modifyGet fun ⟨store, frames, events, random⟩ =>
    let (outcome, store) := store.assign id name value
    (outcome, ⟨store, frames, events, random⟩)

/-- The binding that a name resolves to in a scope. -/
def resolve? (id : ScopeId) (name : String) : Eval (Option Binding) := do
  return (← get).store.resolve? id name

/-- Runs the body of a function as an active call. The call ends with the body, however that ends,
and an error on its way out takes the name of the function along. -/
def inFrame {α : Type} (function : String) (body : Eval α) : Eval α := fun m =>
  match body { m with frames := function :: m.frames } with
  | .ok a m => .ok a { m with frames := m.frames.tail }
  | .error (.error e) m => .error (.error (e.unwind function)) { m with frames := m.frames.tail }
  | .error stop m => .error stop { m with frames := m.frames.tail }

end Machine

end TagScript
