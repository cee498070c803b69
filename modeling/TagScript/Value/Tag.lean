import TagScript.Tree.TypeName

/-!
# Type Tags

Every value has a tag, and types are compared by tag alone: nothing is ever converted from one tag
to another. Two tags belong to no value: `void`, which only declares that a function answers
nothing, and `unknown`, the element tag of an empty array and the tag of a name that is no type.
-/

namespace TagScript

/-- The tags. -/
inductive Tag where
  | null
  /-- No value. -/
  | void
  | int
  | float
  | string
  | boolean
  | function
  | range
  | array
  | type
  /-- No tag that is known. -/
  | unknown
  deriving DecidableEq, Repr

namespace Tag

/-- The name of a tag. -/
def name : Tag → String
  | .null => "null"
  | .void => "void"
  | .int => "int"
  | .float => "float"
  | .string => "string"
  | .boolean => "boolean"
  | .function => "function"
  | .range => "range"
  | .array => "array"
  | .type => "type"
  | .unknown => "unknown"

/-- The tags in the order of their codes, which start at zero. -/
def all : List Tag :=
  [.null, .void, .int, .float, .string, .boolean, .function, .range, .array, .type, .unknown]

/-- The tag with this name. -/
def ofName? (name : String) : Option Tag :=
  all.find? (·.name = name)

/-- The name of the tag with this code; a code without a tag is named by its number. -/
def nameOfCode (code : Int) : String :=
  match if code < 0 then none else all[code.toNat]? with
  | some tag => tag.name
  | none => "type_" ++ toString code

/-- The tag that a declared type name asks for. -/
def ofTypeName : TypeName → Tag
  | .null => .null
  | .void => .void
  | .int => .int
  | .float => .float
  | .string => .string
  | .boolean => .boolean
  | .function => .function
  | .range => .range
  | .array => .array
  | .type => .type
  | .other _ => .unknown

end Tag

end TagScript
