import TagScript.Diagnostic.Paint
import TagScript.Host.Path
import TagScript.Session
import TagScript.Text.Blank
import TagScript.Text.Quoted
import TagScript.Text.Words

/-!
# Settings

The settings of the program, the values they have where nothing is set, and the issues that make
them unusable. Words are compared regardless of case and of blanks around them, and an empty word
means the default.

Settings that are unusable still have a meaning where the program asks for one: an unknown word
means the default too.
-/

namespace TagScript

/-- From which level on the log is written. -/
inductive LogLevel where
  | debug
  | info
  | warn
  | error
  deriving DecidableEq, Repr

/-- The name of a level. -/
def LogLevel.name : LogLevel → String
  | .debug => "DEBUG"
  | .info => "INFO"
  | .warn => "WARN"
  | .error => "ERROR"

/-- The settings. -/
structure Config where
  /-- The seed of the random numbers; zero stands for any. -/
  seed : Int64
  /-- The limit of active calls. -/
  maxCallDepth : Int64
  /-- When colours are shown. -/
  colour : String
  /-- From which level on the log is written. -/
  logLevel : String
  /-- The prompt of the console. -/
  prompt : String
  /-- The file with the history of the console. -/
  historyFile : String
  /-- The file that the settings were read from. -/
  path : Option String
  deriving DecidableEq, Repr

namespace Config

/-- The settings where nothing is set. -/
def default : Config where
  seed := 0
  maxCallDepth := Int64.ofNat Settings.defaultLimit
  colour := "auto"
  logLevel := "warn"
  prompt := "filipe> "
  historyFile := "~/.filipe_history"
  path := none

/-- The form in which words are compared. -/
def word (s : String) : String :=
  Text.fold (Text.trim s)

/-- The colour mode that a word names. -/
def colourMode? (s : String) : Option ColourMode :=
  match word s with
  | "" => some .auto
  | "auto" => some .auto
  | "always" => some .always
  | "never" => some .never
  | _ => none

/-- The level that a word names. -/
def level? (s : String) : Option LogLevel :=
  match word s with
  | "debug" => some .debug
  | "info" => some .info
  | "" => some .warn
  | "warn" => some .warn
  | "warning" => some .warn
  | "error" => some .error
  | _ => none

/-- The colour mode. -/
def colourMode (c : Config) : ColourMode :=
  (colourMode? c.colour).getD .auto

/-- The level from which on the log is written. -/
def level (c : Config) : LogLevel :=
  (level? c.logLevel).getD .warn

/-- The path of the file with the history. A tilde that is its first segment stands for the home
directory. -/
def historyPath (c : Config) (home : Option String) : String :=
  match home, c.historyFile.toList with
  | some home, ['~'] => Path.within home ""
  | some home, '~' :: '/' :: rest => Path.within home (String.ofList rest)
  | _, _ => c.historyFile

/-- A setting that makes the settings unusable. -/
inductive Issue where
  | maxCallDepth (n : Int64)
  | colour (s : String)
  | logLevel (s : String)
  | prompt
  deriving DecidableEq, Repr

/-- The text of an issue. -/
def Issue.text : Issue → String
  | .maxCallDepth n => "max_call_depth must be positive, got " ++ toString n.toInt
  | .colour s => "color must be one of auto, always, never; got " ++ Text.quote s
  | .logLevel s => "log_level must be one of debug, info, warn, error; got " ++ Text.quote s
  | .prompt => "repl.prompt must not be empty"

/-- The issues of some settings. -/
def issues (c : Config) : List Issue :=
  (if c.maxCallDepth ≤ 0 then [.maxCallDepth c.maxCallDepth] else []) ++
  (if (colourMode? c.colour).isNone then [.colour c.colour] else []) ++
  (if (level? c.logLevel).isNone then [.logLevel c.logLevel] else []) ++
  (if Text.trim c.prompt = "" then [.prompt] else [])

/-- The message about some issues. -/
def issuesMessage (issues : List Issue) : String :=
  "config validation failed:" ++ String.join (issues.map fun i => "\n- " ++ i.text)

/-- What the settings fix for a session: how many things that is. The seed counts only if it is
set. -/
def optionCount (c : Config) : Nat :=
  if c.seed = 0 then 2 else 3

/-- The settings of a session. Without a seed of their own they take the one that is given. -/
def session (c : Config) (terminal : Bool) (seed : Int64) (traced : Bool) : Settings where
  limit := Settings.limitOf c.maxCallDepth.toInt
  painter := Paint.painter ⟨c.colourMode, terminal⟩
  seed := if c.seed = 0 then seed else c.seed
  traced := traced
  exitEnds := true

end Config

end TagScript
