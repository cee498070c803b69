import TagScript.Diagnostic.Pending
import TagScript.Eval.Program

/-!
# Sessions

A session runs programs one after the other on one machine, so that later programs see what earlier
ones declared. It knows the script whose lines diagnostics quote, and keeps the pending error.

`Session.run` runs a program and hands its error over. `Session.evaluate` makes the error pending
and reports it. `Session.reset` has later programs run in a new outermost scope, so that the session
is as new but for its settings, its script and its random numbers.
-/

namespace TagScript

/-- The settings of a session. -/
structure Settings where
  /-- The limit of active calls. -/
  limit : Nat
  /-- How reports are written. -/
  painter : Painter
  /-- The seed of the random numbers. -/
  seed : Int64
  /-- Whether runs are traced. -/
  traced : Bool
  /-- Whether a request to exit ends the run; otherwise it is only noticed. -/
  exitEnds : Bool

/-- The limit of active calls where none is set. -/
def Settings.defaultLimit : Nat := 1000

/-- The limit of active calls that a setting asks for: one that is not positive counts as not
set. -/
def Settings.limitOf (n : Int) : Nat :=
  if 0 < n then n.toNat else defaultLimit

/-- A session. -/
structure Session where
  /-- The settings. -/
  settings : Settings
  /-- The outermost scope. -/
  global : ScopeId
  /-- The name of the script that runs or is about to. -/
  file : String
  /-- The lines of that script. -/
  lines : List Bytes
  /-- The machine. -/
  machine : Machine
  /-- The pending error. -/
  pending : Pending

/-- How a program ends. -/
inductive Outcome where
  /-- With the value of its last statement, if that has one. -/
  | value (v : Option Value)
  | error (e : RuntimeError)
  | fault (f : Fault)
  /-- By the host, which was asked to exit. -/
  | halt (code : Int64)

namespace Session

/-- A new session without a script. -/
def new (settings : Settings) : Session where
  settings := settings
  global := Store.empty.seed.1
  file := ""
  lines := []
  machine := ⟨Store.empty.seed.2, [], #[], .ofSeed settings.seed⟩
  pending := .none

/-- The session with the script that is about to run. -/
def setSource (s : Session) (file : String) (source : Bytes) : Session :=
  { s with file, lines := source.lines }

/-- What stays fixed while the session runs a program. -/
def context (s : Session) : Context where
  global := s.global
  limit := s.settings.limit
  file := s.file
  lines := s.lines
  traced := s.settings.traced
  exitEnds := s.settings.exitEnds

/-- Does a computation on the machine of the session. -/
def perform {α : Type} (s : Session) (x : Eval α) : Except Stop α × Session :=
  match x s.machine with
  | .ok a machine => (.ok a, { s with machine })
  | .error stop machine => (.error stop, { s with machine })

/-- Runs a program. -/
def run (s : Session) (p : Program) : Outcome × Session :=
  match s.perform (Eval.program s.context none p) with
  | (.ok v, s) => (.value v, s)
  | (.error (.error e), s) => (.error e, s)
  | (.error (.fault f), s) => (.fault f, s)
  | (.error (.halt code), s) => (.halt code, s)

/-- Runs a program after forgetting the pending error, makes its error pending and reports it. The
report comes with the outcome. -/
def evaluate (s : Session) (p : Program) : Outcome × Bytes × Session :=
  match { s with pending := .none }.run p with
  | (.error e, s) =>
    let s := { s with pending := s.pending.set (.runtime e) }
    (.error e, s.pending.report s.settings.painter, s)
  | (outcome, s) => (outcome, [], s)

/-- Forgets the pending error. -/
def clear (s : Session) : Session :=
  { s with pending := .none }

/-- Forgets every declaration, the active calls and the pending error. Programs run in a new
outermost scope from here on; the scopes from before are still stored. -/
def reset (s : Session) : Session :=
  { s with
    global := s.machine.store.seed.1
    machine := { s.machine with store := s.machine.store.seed.2, frames := [] }
    pending := .none }

/-- The events since they were last taken, and the session without them. -/
def takeEvents (s : Session) : Array Event × Session :=
  (s.machine.events, { s with machine := { s.machine with events := #[] } })

/-- The binding of a name in the outermost scope. -/
def global? (s : Session) (name : String) : Option Binding :=
  s.machine.store.resolve? s.global name

/-- The names bound in the outermost scope, in ascending order. -/
def names (s : Session) : List String :=
  s.machine.store.names s.global

/-- The names declared in the outermost scope, in the order of declaration, without those that
every script finds. -/
def globalNames (s : Session) : List String :=
  (s.machine.store.declared s.global).filter (· ∉ Builtin.seededNames)

/-- The bindings in the map of the outermost scope, without those that every script finds. -/
def globalsSnapshot (s : Session) : List Binding :=
  (s.machine.store.snapshot s.global).filter (·.name ∉ Builtin.seededNames)

/-- The bindings of the names declared in the outermost scope, in the order of declaration. -/
def globals (s : Session) : List Binding :=
  s.globalNames.filterMap fun name => s.globalsSnapshot.find? (·.name = name)

/-- The names of declared functions in the outermost scope, in ascending order. -/
def functionNames (s : Session) : List String :=
  s.names.filter fun name =>
    match s.global? name with
    | some { value := .function _, .. } => true
    | _ => false

/-- Binds a function in the outermost scope without running its declaration, and says whether it
did. -/
def defineFunction (s : Session) (name : String) (params : List Param)
    (returns : Option TypeName) (body : List Stmt) : Bool × Session :=
  let f : Closure := ⟨name, params, returns, body, s.global⟩
  let (done, store) := s.machine.store.define s.global ⟨name, .function f, .function, false⟩
  (done, { s with machine := { s.machine with store } })

/-- The tag of an expression in the outermost scope as far as it shows without evaluating it. -/
def staticTag (s : Session) (e : Expr) : Except Cause Tag :=
  Eval.staticTag s.machine.store s.global e

end Session

end TagScript
