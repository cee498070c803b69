import TagScript.Text.Blank

/-!
# Commands of the Console

A line that starts with a colon is a command to the console, unless a block is open or text is
being pasted. A command is its exact word; only `:load` takes an argument, which may even follow
without a blank.
-/

namespace TagScript.Console

/-- A command. -/
inductive Command where
  | quit
  | help
  /-- Runs a file in the session; an empty path is a mistake. -/
  | load (path : String)
  | reset
  | clear
  | paste
  | variables
  | functions
  /-- A word that is no command. -/
  | unknown
  deriving DecidableEq, Repr

namespace Command

/-- The word that starts a command to load a file. -/
def loadWord : List Char := ":load".toList

/-- The command that a line without blanks at its ends gives. -/
def ofChars (cs : List Char) : Command :=
  if cs = ":q".toList ∨ cs = ":quit".toList ∨ cs = ":exit".toList then .quit
  else if cs = ":h".toList ∨ cs = ":help".toList then .help
  else if loadWord.isPrefixOf cs then
    .load (String.ofList (Text.trimChars (cs.drop loadWord.length)))
  else if cs = ":reset".toList then .reset
  else if cs = ":clear".toList then .clear
  else if cs = ":paste".toList then .paste
  else if cs = ":vars".toList then .variables
  else if cs = ":funcs".toList then .functions
  else .unknown

/-- The lines that show the commands. -/
def helpLines : List String :=
  ["Commands:",
    "  :help              Show this help",
    "  :quit              Exit the REPL",
    "  :vars              Show global bindings",
    "  :funcs             Show user-defined functions",
    "  :reset             Forget every binding of this session",
    "  :clear             Clear the screen",
    "  :load <file>       Run a file inside this session",
    "  :paste             Start paste mode (end with '.' or :endpaste)",
    "",
    "Paste mode controls:",
    "  .                  End + run pasted program",
    "  :endpaste          End + run pasted program",
    "  :cancel            Cancel paste without running"]

end Command

end TagScript.Console
