import TagScript.Text.Words

/-!
# Type Names

A declaration, a parameter and a function result may name the type they are declared with. Names
are matched regardless of case, and two types have a second spelling. A tree that was not read
from a text may carry any other name; such a name is the type of no value.
-/

namespace TagScript

/-- The name of a type in a declaration. -/
inductive TypeName where
  | null
  /-- The result of a function that answers nothing. -/
  | void
  | int
  | float
  | string
  | boolean
  | function
  | range
  | array
  | type
  /-- A name that is no type. -/
  | other (spelling : String)
  deriving DecidableEq, Repr

namespace TypeName

/-- The canonical spelling of a type name. -/
def spelling : TypeName → String
  | .null => "null"
  | .void => "void"
  | .int => "int"
  | .float => "float"
  | .string => "string"
  | .boolean => "boolean"
  | .function => "function"
  | .range => "range"
  | .array => "array"
  | .type => "type"
  | .other spelling => spelling

/-- The type name with this canonical spelling. -/
def ofSpelling (spelling : String) : TypeName :=
  match spelling with
  | "null" => .null
  | "void" => .void
  | "int" => .int
  | "float" => .float
  | "string" => .string
  | "boolean" => .boolean
  | "function" => .function
  | "range" => .range
  | "array" => .array
  | "type" => .type
  | _ => .other spelling

/-- The type that a script may mean by `word`: a type name in any case, or one of the short forms
`bool` and `fn`. -/
def ofWord? (word : String) : Option TypeName :=
  match Text.fold word with
  | "null" => some .null
  | "void" => some .void
  | "int" => some .int
  | "float" => some .float
  | "string" => some .string
  | "bool" | "boolean" => some .boolean
  | "function" | "fn" => some .function
  | "range" => some .range
  | "array" => some .array
  | "type" => some .type
  | _ => none

/-- The spelling of a type name that may be missing. -/
def text : Option TypeName → String
  | some t => t.spelling
  | none => ""

end TypeName

end TagScript
