import TagScript.Text.Bytes

/-!
# The Host

The command line and the console see the world through a `Host`: files that can be read, two
streams that can be written, and a few facts about where the program runs. What they do is a
function of the host, in whatever monad the host lives.
-/

namespace TagScript

/-- Where something is written. -/
inductive Stream where
  /-- The output of scripts and the console. -/
  | output
  /-- Diagnostics and the log. -/
  | errors
  deriving DecidableEq, Repr

/-- Why a file cannot be read. -/
inductive FileProblem where
  /-- There is nothing at the path. -/
  | missing
  /-- The path leads through something that is not a directory. -/
  | notDirectory
  | isDirectory
  | invalidName
  | other (reason : String)
  deriving DecidableEq, Repr

namespace FileProblem

/-- The reason that the host gives. -/
def reason : FileProblem → String
  | .missing => "no such file or directory"
  | .notDirectory => "not a directory"
  | .isDirectory => "is a directory"
  | .invalidName => "invalid argument"
  | .other reason => reason

/-- What failed: a directory can be opened and then not read. -/
def verb : FileProblem → String
  | .isDirectory => "read"
  | _ => "open"

/-- The message about the file at a path. -/
def message (p : FileProblem) (path : String) : String :=
  p.verb ++ " " ++ path ++ ": " ++ p.reason

end FileProblem

/-- The world around the program. -/
structure Host (m : Type → Type) where
  /-- The path of the working directory. -/
  directory : String
  /-- The path of the user's home directory, if known. -/
  home : Option String
  /-- Whether the output is a terminal that shows colours. -/
  terminal : Bool
  /-- A seed for random numbers where none is asked for. -/
  seed : Int64
  /-- Reads the file at a path. -/
  read : String → m (Except FileProblem Bytes)
  /-- Writes to a stream. -/
  write : Stream → Bytes → m Unit

namespace Host

variable {m : Type → Type}

/-- Writes a text to a stream. -/
def put (host : Host m) (stream : Stream) (text : String) : m Unit :=
  host.write stream (Bytes.ofString text)

/-- Writes a line to a stream. -/
def putLine (host : Host m) (stream : Stream) (line : String) : m Unit :=
  host.put stream (line ++ "\n")

end Host

end TagScript
