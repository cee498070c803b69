import TagScript.Console.Reader
import TagScript.Host.Path
import TagScript.Shell.Chunk

/-!
# The Console

The console runs chunks in one session as they are typed, and echoes their values. A fault of the
machine ends the chunk, not the session. `Console.turn` takes one input to the console after it,
or to the end of the program.
-/

namespace TagScript

/-- The console. -/
structure Console where
  /-- What it has collected. -/
  reader : Console.Reader
  /-- The session in which it runs chunks. -/
  session : Session
  /-- The prompt that asks for a new chunk. -/
  prompt : String

namespace Console

variable {m : Type → Type} [Monad m]

/-- The name of the chunk with a number. -/
def chunkName (number : Nat) : String :=
  "<repl:" ++ toString number ++ ">"

/-- Says how a chunk has ended: its value, unless that is null, or a fault of the machine. Where the
chunk asked to exit, the program ends. -/
def echo (host : Host m) (settings : Settings) : ChunkEnd → m (Option Ending)
  | .value none => return none
  | .value (some .null) => return none
  | .value (some v) => do
    host.write .output (settings.painter.line .echo (Bytes.ofString v.shown))
    return none
  | .failed => return none
  | .fault f => do
    if settings.traced then host.putLine .errors (LogRecord.recovered f).line
    host.write .errors
      (settings.painter.inside .alarm (Bytes.ofString ("fatal: " ++ f.message ++ "\n")))
    return none
  | .exit code => return some (.status code)

/-- Runs a chunk in the session and says how it has ended. -/
def evaluate (host : Host m) (s : Session) (file : String) (source : Bytes) :
    m (Except Ending Session) := do
  let (chunk, s) ← s.runChunk host file source
  match ← echo host s.settings chunk with
  | none => return .ok s
  | some ending => return .error ending

/-- The line that shows a binding. -/
def bindingLine (b : Binding) : String :=
  (if b.mutable then "let " else "const ") ++ b.name ++ ": " ++ b.tag.name ++ " = " ++ b.value.shown

/-- Lines, or a remark where there are none. -/
def orElse (lines : List String) (remark : String) : List String :=
  if lines.isEmpty then [remark] else lines

/-- The lines that show the functions of a session. -/
def functionLines (s : Session) : List String :=
  s.functionNames.filterMap fun name => (s.global? name).map fun b => b.value.text

/-- The sequence that clears the screen. -/
def clearSequence : String := "\x1b[2J\x1b[H"

/-- Carries out a command. -/
def perform (host : Host m) (s : Session) : Command → m (Except Ending Session)
  | .quit => return .error (.status 0)
  | .help => do
    Command.helpLines.forM (host.putLine .output)
    return .ok s
  | .load path => do
    if path = "" then
      host.putLine .errors "Usage: :load <file.fl>"
      return .ok s
    match ← host.read path with
    | .error problem =>
      host.putLine .errors ("Failed to read " ++ path ++ ": " ++ problem.message path)
      return .ok s
    | .ok source => evaluate host s (Path.base path) source
  | .reset => do
    host.putLine .output "(session reset)"
    return .ok s.reset
  | .clear => do
    host.put .output clearSequence
    return .ok s
  | .paste => return .ok s
  | .variables => do
    (orElse (s.globals.map bindingLine) "(no globals)").forM (host.putLine .output)
    return .ok s
  | .functions => do
    (orElse (functionLines s) "(no user functions)").forM (host.putLine .output)
    return .ok s
  | .unknown => do
    host.putLine .output "Unknown command. Try :help"
    return .ok s

/-- Does what came of an input. -/
def answer (host : Host m) (s : Session) : Request → m (Except Ending Session)
  | .nothing => return .ok s
  | .remark r => do
    host.putLine .output r.text
    return .ok s
  | .evaluate number source => evaluate host s (chunkName number) source
  | .command c => perform host s c
  | .finish => do
    host.put .output "\n"
    return .error (.status 0)

/-- One input. -/
def turn (host : Host m) (c : Console) (input : Input) : m (Except Ending Console) := do
  let (reader, request) := c.reader.step input
  match ← answer host c.session request with
  | .ok session => return .ok { c with reader, session }
  | .error ending => return .error ending

/-- All inputs. Where they do not end the program, it ends after them. -/
def run (host : Host m) (c : Console) : List Input → m Ending
  | [] => return .status 0
  | input :: rest => do
    match ← c.turn host input with
    | .ok c => c.run host rest
    | .error ending => return ending

/-- The version of the program. -/
def version : String := "0.1.0"

/-- A new console, after its banner. -/
def start (host : Host m) (settings : Settings) (prompt : String) : m Console := do
  host.write .output
    (settings.painter.inside .banner (Bytes.ofString ("Filipe " ++ version ++ " REPL")))
  host.putLine .output " :help for commands, :quit to exit."
  host.putLine .output "Multi-line blocks are read until their braces balance."
  host.putLine .output ""
  return ⟨.empty, .new settings, prompt⟩

end Console

end TagScript
