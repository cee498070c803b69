import TagScript.Proofs.Eval.Unseen
import TagScript.Proofs.Session.Moments
import TagScript.Proofs.Session.Relocate

/-!
# What Does Not Tell Places

What was printed, which exit codes were asked for, which random numbers are to come and what the
declared names are bound to tells no place in a script (`Session.standing`): it is the same for
sessions that are the same without places. An outcome tells a place only where an error arose, and
its gist leaves that out (`Outcome.gist`). So both are decided by how the program would complete
without places (`gist_run`, `unplaced_run`).
-/

namespace TagScript

open Eval (Completion mapEnd)

/-- What an outcome says, apart from where an error arose. -/
inductive Gist where
  /-- The tag and both texts of the value, if there is one. -/
  | value (v : Option (Tag × String × String))
  /-- The kind and the wording of an error, and the functions it passed through. -/
  | error (kind : ErrorKind) (message : String) (stack : List String)
  /-- A fault of the machine. -/
  | fault (f : Fault)
  /-- The code that the program was ended with. -/
  | halt (code : Int64)
  deriving DecidableEq

/-- What an outcome says, apart from where an error arose. -/
def Outcome.gist : Outcome → Gist
  | .value v => .value (v.map fun v => (v.tag, v.text, v.shown))
  | .error e => .error e.cause.kind e.cause.message e.stack
  | .fault f => .fault f
  | .halt code => .halt code

/-- The outcome without places. -/
def Outcome.unplaced : Outcome → Outcome
  | .value v => .value (v.map (Value.relocate .forget))
  | .error e => .error e.unplaced
  | o => o

/-- The gist of an outcome has no position. -/
theorem Outcome.gist_unplaced (o : Outcome) : o.unplaced.gist = o.gist := by
  cases o with
  | value v => cases v <;> simp [unplaced, gist]
  | _ => rfl

/-- What shows of a session and tells no place. -/
structure Standing where
  /-- What was printed. -/
  output : String
  /-- The exit codes that were asked for. -/
  exits : List Int64
  /-- The random numbers to come. -/
  random : Random.Generator
  /-- The names declared in the outermost scope, and what they are bound to. -/
  globals : List (String × Tag × Bool × String)

/-- What shows of a session and tells no place. -/
def Session.standing (s : Session) : Standing where
  output := Event.output s.machine.events
  exits := Event.exits s.machine.events
  random := s.machine.random
  globals := s.globals.map Binding.summary

/-- The session without places: without a script, and without a pending error. -/
def Session.unplaced (s : Session) : Session where
  settings := s.settings
  global := s.global
  file := ""
  lines := []
  machine := s.machine.unplaced
  pending := .none

section Events

variable (events : Array Event)

/-- The output has no positions. -/
theorem Event.output_unplaced : output (events.map unplaced) = output events := by
  unfold output
  rw [Array.foldl_map]
  congr 1
  funext out e
  match e with
  | .noted (.statement ..) | .noted (.builtin ..) | .noted (.call ..) => rfl
  | .printed _ | .exited _ => rfl

/-- Exit codes have no positions. -/
theorem Event.exits_unplaced : exits (events.map unplaced) = exits events := by
  unfold exits
  rw [Array.toList_map, List.filterMap_map]
  congr 1
  funext e
  match e with
  | .noted (.statement ..) | .noted (.builtin ..) | .noted (.call ..) => rfl
  | .printed _ | .exited _ => rfl

end Events

/-- The machine at the end of a computation. -/
def Eval.machineOf {α : Type} : EStateM.Result Stop Machine α → Machine
  | .ok _ m | .error _ m => m

namespace Session

/-- Without places the scopes keep their numbers. -/
theorem relocated_unplaced (s : Session) : Relocated .forget s s.unplaced :=
  ⟨rfl, rfl⟩

/-- What shows of a session and tells no place is what shows of the session without places. -/
theorem standing_unplaced (s : Session) : s.unplaced.standing = s.standing := by
  unfold standing
  rw [s.relocated_unplaced.summaries_eq]
  show Standing.mk (Event.output (s.machine.events.map Event.unplaced))
    (Event.exits (s.machine.events.map Event.unplaced)) s.machine.random _ = _
  rw [Event.output_unplaced, Event.exits_unplaced]

/-- How the statements of a program complete in a session. -/
def ending (s : Session) (p : Program) : EStateM.Result Stop Machine Completion :=
  Eval.statements s.context .empty p s.machine

/-- The end of a computation without places. -/
def unplacedEnd : EStateM.Result Stop Machine Completion → EStateM.Result Stop Machine Completion :=
  mapEnd Completion.unplaced Stop.unplaced Machine.unplaced

/-- A program without positions ends as it does with them, up to the positions. -/
theorem ending_unplaced (s : Session) (p : Program) :
    s.unplaced.ending (Stmt.unplaced p) = unplacedEnd (s.ending p) :=
  Eval.statements_unplaced s.context .empty p s.machine

/-- How the statements of a program complete decides how it ends. -/
theorem program_eq_ending (s : Session) (p : Program) :
    Eval.program s.context none p s.machine = mapEnd Completion.value? id id (s.ending p) := by
  change Eval.program s.context Completion.empty.value? p s.machine = _
  rw [Eval.program_eq, map_eq_pure_bind, Eval.bind_apply, ending]
  cases Eval.statements s.context .empty p s.machine <;> rfl

/-- The outcome is decided, up to places, by how the program completes without places. -/
theorem unplaced_outcome (s : Session) (p : Program) :
    (s.run p).1.unplaced =
      outcomeOf (mapEnd Completion.value? id id (unplacedEnd (s.ending p))) := by
  rw [run_eq, program_eq_ending]
  cases s.ending p with
  | ok c m => exact congrArg Outcome.value (c.value?_relocate .forget).symm
  | error stop m => cases stop <;> rfl

/-- So is its gist. -/
theorem gist_run (s : Session) (p : Program) :
    (s.run p).1.gist =
      (outcomeOf (mapEnd Completion.value? id id (unplacedEnd (s.ending p)))).gist := by
  rw [← Outcome.gist_unplaced, unplaced_outcome]

/-- And so is the session afterwards, up to places. -/
theorem unplaced_run (s : Session) (p : Program) :
    (s.run p).2.unplaced =
      { s.unplaced with machine := Eval.machineOf (unplacedEnd (s.ending p)) } := by
  rw [run_eq, Machine.after, program_eq_ending]
  cases s.ending p <;> rfl

end Session

end TagScript
