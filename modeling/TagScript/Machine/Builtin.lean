import TagScript.Machine.Basic
import TagScript.Value.Text

/-!
# Functions That Every Script Finds

What the built-in functions answer. Each gets its arguments with the tags tracked for them: the tag
of its binding for an argument that is a name, the tag of the value for any other. A function only
answers; printing and exiting are left to the machine.
-/

namespace TagScript

/-- An argument of a call. -/
structure Arg where
  /-- The value. -/
  value : Value
  /-- The tag tracked for it. -/
  tag : Tag

/-- What a built-in function answers. -/
inductive Answer where
  | value (v : Value)
  /-- The value `null`, after a text has been printed. -/
  | print (text : String)
  /-- The value `null`, after the host has been asked to exit. -/
  | exit (code : Int64)
  | fault (f : Fault)

/-- The arguments with their tags, for the trace. -/
def Arg.describe (args : List Arg) : String :=
  ", ".intercalate (args.map fun a => a.value.shown ++ ":" ++ a.tag.name)

namespace Builtin

/-- Answers `exit`. -/
def exitAnswer : List Arg → Except Cause Answer
  | [] => .ok (.exit 0)
  | [⟨.int code, _⟩] => .ok (.exit code)
  | [_] => .error .exitArgument
  | args => .error (.exitArity args.length)

/-- Answers `len`: the number of UTF-8 bytes of a text. -/
def lenAnswer : List Arg → Except Cause Answer
  | [⟨.string s, _⟩] => .ok (.value (.int (Int64.ofNat s.utf8ByteSize)))
  | [⟨_, tag⟩] => .error (.lenArgument tag)
  | args => .error (.lenArity args.length)

/-- Answers `typeof`: the tracked tag of the argument. -/
def typeofAnswer : List Arg → Except Cause Answer
  | [⟨_, tag⟩] => .ok (.value (.type tag))
  | args => .error (.typeofArity args.length)

/-- The whole numbers among the arguments of `range`, which must be all of them. -/
def bounds (index : Nat) : List Arg → Except Cause (List Int64)
  | [] => .ok []
  | ⟨.int n, .int⟩ :: rest => do
    let more ← bounds (index + 1) rest
    return n :: more
  | ⟨_, tag⟩ :: _ => .error (.rangeArgument index tag)

/-- Answers `range`: two bounds, and the step if it is not one. -/
def rangeAnswer (args : List Arg) : Except Cause Answer :=
  if args.length < 2 ∨ 3 < args.length then .error (.rangeArity args.length)
  else do
    match ← bounds 1 args with
    | [start, stop, step] => return .value (.range ⟨start, stop, step⟩)
    | [start, stop] => return .value (.range ⟨start, stop, 1⟩)
    | _ => .error (.rangeArity args.length)

/-- Answers `random` with a number between two bounds. -/
def drawAnswer {σ : Type} (src : Random.Source σ) (lo hi : Int64) (s : σ) : Answer × σ :=
  match src.inclusive lo hi s with
  | some (n, s) => (.value (.int n), s)
  | none => (.fault .emptyDraw, s)

/-- Answers `random`: a double below one, a number up to a bound, or a number between two bounds. -/
def randomAnswer {σ : Type} (src : Random.Source σ) (args : List Arg) (s : σ) :
    Except Cause Answer × σ :=
  match args with
  | [] =>
    let (x, s) := src.unit s
    (.ok (.value (.float x)), s)
  | [⟨.int hi, _⟩] =>
    if hi < 0 then (.error .randomNegative, s)
    else
      let (answer, s) := drawAnswer src 0 hi s
      (.ok answer, s)
  | [_] => (.error .randomBound, s)
  | [⟨.int lo, _⟩, ⟨.int hi, _⟩] =>
    if lo < 0 ∨ hi < 0 then (.error .randomNegatives, s)
    else if hi < lo then (.error .randomOrder, s)
    else
      let (answer, s) := drawAnswer src lo hi s
      (.ok answer, s)
  | [_, _] => (.error .randomBounds, s)
  | _ => (.error .randomArity, s)

/-- What a built-in function answers to its arguments, and the generator after that. -/
def answer (b : Builtin) (args : List Arg) (g : Random.Generator) :
    Except Cause Answer × Random.Generator :=
  match b with
  | .print => (.ok (.print (String.join (args.map (·.value.text)) ++ "\n")), g)
  | .exit => (exitAnswer args, g)
  | .len => (lenAnswer args, g)
  | .random => randomAnswer Random.Generator.source args g
  | .typeof => (typeofAnswer args, g)
  | .range => (rangeAnswer args, g)

/-- Calls a built-in function at a position of the script. -/
def call (ctx : Context) (b : Builtin) (args : List Arg) (p : Position) : Eval Value := do
  let result ← modifyGet fun m =>
    let (result, generator) := b.answer args m.random
    (result, { m with random := generator })
  match result with
  | .error cause => ctx.fail p cause
  | .ok (.value v) => return v
  | .ok (.fault f) => throw (.fault f)
  | .ok (.print text) =>
    Machine.notice (.printed text)
    return .null
  | .ok (.exit code) =>
    Machine.notice (.exited code)
    if ctx.exitEnds then throw (.halt code)
    return .null

/-- The bindings that every script finds, in the order in which they are bound. -/
def seeded : List Binding :=
  (all.map fun b => ⟨b.name, .builtin b, .function, false⟩) ++
    [⟨"true", .bool true, .boolean, false⟩, ⟨"false", .bool false, .boolean, false⟩,
      ⟨"null", .null, .null, false⟩]

/-- The names that every script finds. -/
def seededNames : List String :=
  seeded.map Binding.name

end Builtin

/-- An outermost scope in which what every script finds has been declared. -/
def Scope.seeded : Scope :=
  Builtin.seeded.foldl bind (.empty .global none)

/-- Opens an outermost scope with what every script finds and gives its number. The scopes from
before stay where they are. -/
def Store.seed (s : Store) : ScopeId × Store :=
  s.push .seeded

end TagScript
