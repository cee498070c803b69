import TagScript.Diagnostic.Log
import TagScript.Host.Basic
import TagScript.Parse.Stmt
import TagScript.Session

/-!
# Running a Chunk

A chunk is a piece of a script that is parsed and run in one go: a whole file, or what was typed at
the console. Its output, its log and the report about its error go to the host.
-/

namespace TagScript

/-- How the program ends. -/
inductive Ending where
  | status (code : UInt8)
  | fault (f : Fault)
  deriving DecidableEq, Repr

/-- How a chunk ends. -/
inductive ChunkEnd where
  /-- With the value of its last statement, if that has one. -/
  | value (v : Option Value)
  | failed
  | fault (f : Fault)
  /-- By ending the program with a status. -/
  | exit (code : UInt8)

/-- The status that an exit code gives: its lowest eight bits. -/
def exitStatus (code : Int64) : UInt8 :=
  code.toUInt64.toUInt8

namespace Session

variable {m : Type → Type} [Monad m]

/-- Writes an event. -/
def writeEvent (host : Host m) : Event → m Unit
  | .printed text => host.put .output text
  | .noted note => host.putLine .errors (LogRecord.ofNote note).line
  | .exited _ => pure ()

/-- Writes the events since they were last written. -/
def flush (host : Host m) (s : Session) : m Session := do
  let (events, s) := s.takeEvents
  events.toList.forM (writeEvent host)
  return s

/-- Runs a chunk under the name of its file. -/
def runChunk (host : Host m) (s : Session) (file : String) (source : Bytes) :
    m (ChunkEnd × Session) := do
  match Parse.source source with
  | .error e =>
    host.putLine .errors (file ++ ": " ++ e.message)
    return (.failed, s)
  | .ok program =>
    let (outcome, report, s) := (s.setSource file source).evaluate program
    let s ← s.flush host
    match outcome with
    | .value v => return (.value v, s)
    | .error _ =>
      host.write .errors report
      return (.failed, s)
    | .fault f => return (.fault f, s)
    | .halt code => return (.exit (exitStatus code), s)

end Session

end TagScript
