import TagScript.Config.Load
import TagScript.Shell.Console
import TagScript.Shell.Flags

/-!
# The Command Line

The command line shows help, runs a script that is given as an argument or in a file, or starts the
console. `Shell.start` goes as far as that and hands the console over; `Shell.run` also runs the
console on inputs that are known from the start.

The status is 0 for success, 1 for a script or settings that fail, and 2 for a command line that
cannot be read.
-/

namespace TagScript.Shell

/-- What the command line asks for. -/
structure Options where
  /-- The file with the settings; an empty path stands for where they are looked for. -/
  config : String := ""
  /-- The seed of the random numbers. -/
  seed : Option Int64 := none
  /-- Whether the log of each step is written. -/
  debug : Bool := false
  /-- Whether no colours are shown. -/
  plain : Bool := false
  /-- The script to run. -/
  script : Option String := none

/-- What the flags amount to. -/
inductive Order where
  | help
  | version
  | badSeed (text : String)
  /-- Run something. -/
  | run (o : Options)

/-- What the flags amount to, in their order. The last of several with the same letter wins. -/
def order (o : Options) : List Flag → Order
  | [] => .run o
  | .config path :: rest => order { o with config := path } rest
  | .debug :: rest => order { o with debug := true } rest
  | .script source :: rest => order { o with script := some source } rest
  | .help :: _ => .help
  | .plain :: rest => order { o with plain := true } rest
  | .seed text :: rest =>
    match Decimal.int64? text.toList with
    | some n => order { o with seed := some n } rest
    | none => .badSeed text
  | .version :: _ => .version

/-- The settings with what the command line changes in them. -/
def Options.configure (o : Options) (c : Config) : Config :=
  { c with
    seed := o.seed.getD c.seed
    colour := if o.plain then "never" else c.colour }

variable {m : Type → Type} [Monad m]

/-- Runs a script as a whole program. -/
def runScript (host : Host m) (settings : Settings) (file : String) (source : Bytes) :
    m Ending := do
  let (chunk, _) ← (Session.new settings).runChunk host file source
  match chunk with
  | .value _ => return .status 0
  | .failed => return .status 1
  | .fault f => return .fault f
  | .exit code => return .status code

/-- Runs what the options and the words behind the flags ask for, up to the console. -/
def execute (host : Host m) (o : Options) (c : Config) (words : List String) :
    m (Except Ending Console) := do
  let c := o.configure c
  let traced := o.debug || c.level = .debug
  let settings := c.session (host.terminal && !o.plain) host.seed traced
  if traced then
    if let some path := c.path then
      host.putLine .errors (LogRecord.configLoaded path).line
  match o.script, words with
  | some source, _ =>
    return .error (← runScript host settings "<eval>" (Bytes.ofString source))
  | none, [] => return .ok (← Console.start host settings c.prompt)
  | none, path :: _ =>
    match ← host.read path with
    | .error problem =>
      host.putLine .errors ("Error reading " ++ path ++ ": " ++ problem.message path)
      return .error (.status 1)
    | .ok source => return .error (← runScript host settings (Path.base path) source)

/-- Runs the command line with these arguments, up to the console. -/
def start (host : Host m) (arguments : List String) : m (Except Ending Console) := do
  match Flags.scan arguments with
  | .error problem =>
    host.putLine .errors problem.message
    usageLines.forM (host.putLine .errors)
    return .error (.status 2)
  | .ok (flags, words) =>
    match order {} flags with
    | .help =>
      usageLines.forM (host.putLine .output)
      return .error (.status 0)
    | .version =>
      host.putLine .output (programName ++ " " ++ Console.version)
      return .error (.status 0)
    | .badSeed text =>
      host.putLine .errors ("invalid -s parameter " ++ Text.quote text)
      return .error (.status 2)
    | .run o =>
      match ← if o.config = "" then Config.loadDefault host else Config.load host o.config with
      | .error e =>
        host.write .errors (e.message ++ [0x0A])
        return .error (.status 1)
      | .ok c => execute host o c words

/-- Runs the command line with these arguments, and the console on the characters of a text. -/
def run (host : Host m) (arguments : List String) (typed : List Char) : m Ending := do
  match ← start host arguments with
  | .error ending => return ending
  | .ok console => console.run host (Console.Keyboard.inputs [] typed)

end TagScript.Shell
