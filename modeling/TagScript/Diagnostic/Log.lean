import TagScript.Machine.Basic
import TagScript.Text.Blank
import TagScript.Text.Quoted

/-!
# The Log

A record of the log is one line of `key=value` pairs: the level, a message and further fields. A
value is quoted where the line would be hard to take apart otherwise. A backslash alone is no reason
to quote a value.

All records here have the level of single steps.
-/

namespace TagScript

/-- A record of the log. -/
structure LogRecord where
  /-- The message. -/
  message : String
  /-- The further fields, with their keys. -/
  fields : List (String × String)
  deriving DecidableEq, Repr

namespace LogRecord

/-- Whether a value with this character is quoted. -/
def forcesQuotes (c : Char) : Bool :=
  if c.toNat < 0x80 then c.toNat ≤ 0x20 || c = '=' || c = '"'
  else c = Bytes.replacement || Text.isBlank c || !Text.isPrintable c

/-- A value as it is written. -/
def written (value : String) : String :=
  if value = "" ∨ value.toList.any forcesQuotes then Text.quote value else value

/-- The line of a record. -/
def line (r : LogRecord) : String :=
  "level=DEBUG msg=" ++ written r.message ++
    String.join (r.fields.map fun (key, value) => " " ++ key ++ "=" ++ written value)

/-- The record of a step of a traced run. -/
def ofNote : Note → LogRecord
  | .statement kind line => ⟨"exec", [("stmt", kind), ("line", toString line)]⟩
  | .builtin name args caller => ⟨"builtin", [("name", name), ("args", args), ("caller", caller)]⟩
  | .call function depth scope nesting =>
    ⟨"call", [("fn", function), ("depth", toString depth), ("scope", scope.name),
      ("nesting", toString nesting)]⟩

/-- The record of the file that the settings were read from. -/
def configLoaded (path : String) : LogRecord :=
  ⟨"config loaded", [("path", path)]⟩

/-- The record of a fault that ended a chunk only. -/
def recovered (f : Fault) : LogRecord :=
  ⟨"recovered", [("panic", f.message)]⟩

end LogRecord

end TagScript
