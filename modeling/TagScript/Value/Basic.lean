import TagScript.Tree.Basic
import TagScript.Value.Range
import TagScript.Value.Tag

/-!
# Values

The values of the language. A declared function is a closure: its declaration together with the
scope that the declaration was run in. A scope binds a name once and for all, and no number of a
scope is ever used again, so the scope and the name tell functions apart (`Closure.same`).

An array keeps the tag that its items were checked against when it was made.

Equality of values (`Value.equal`) is that of their contents; functions are equal when they are the
same function.
-/

namespace TagScript

/-- The number under which a scope is stored. -/
abbrev ScopeId := Nat

/-- The functions that every script finds. -/
inductive Builtin where
  | print
  | exit
  | len
  | random
  | typeof
  | range
  deriving DecidableEq, Repr

/-- The name of a function that every script finds. -/
def Builtin.name : Builtin → String
  | .print => "print"
  | .exit => "exit"
  | .len => "len"
  | .random => "random"
  | .typeof => "typeof"
  | .range => "range"

/-- The functions that every script finds, in the order in which they are bound. -/
def Builtin.all : List Builtin :=
  [.print, .exit, .len, .random, .typeof, .range]

/-- The function with this name that every script finds. -/
def Builtin.ofName? (name : String) : Option Builtin :=
  all.find? (·.name = name)

/-- A declared function. -/
structure Closure where
  /-- The name it was declared with. -/
  name : String
  /-- The parameters. -/
  params : List Param
  /-- The declared type of the result, if any. -/
  returns : Option TypeName
  /-- The statements of the body. -/
  body : List Stmt
  /-- The scope in which it was declared. -/
  scope : ScopeId

/-- Whether two closures are the same function: declared in the same scope with the same name.
Scopes are numbered through the life of a session, also across a reset, so functions that were
declared before a reset are other ones than those declared after it. -/
def Closure.same (f g : Closure) : Bool :=
  f.scope = g.scope && f.name = g.name

/-- A value. -/
inductive Value where
  | null
  | int (n : Int64)
  | float (x : Float)
  | string (s : String)
  | bool (b : Bool)
  /-- A function that every script finds. -/
  | builtin (b : Builtin)
  /-- A declared function. -/
  | function (f : Closure)
  | range (r : Range)
  /-- An array: the tag of its items, unknown if it was made of none, and the items. -/
  | array (elem : Tag) (items : List Value)
  /-- A type as a value. -/
  | type (t : Tag)
  deriving Inhabited

namespace Value

/-- The tag of a value. -/
def tag : Value → Tag
  | .null => .null
  | .int _ => .int
  | .float _ => .float
  | .string _ => .string
  | .bool _ => .boolean
  | .builtin _ | .function _ => .function
  | .range _ => .range
  | .array .. => .array
  | .type _ => .type

/-- Whether two values have the same tag. -/
def sameType (v w : Value) : Bool :=
  v.tag = w.tag

mutual

/-- Whether two values are equal. Arrays are compared by their items only. -/
def equal : Value → Value → Bool
  | .null, .null => true
  | .int m, .int n => m = n
  | .float x, .float y => x == y
  | .string s, .string t => s = t
  | .bool a, .bool b => a = b
  | .builtin a, .builtin b => a = b
  | .function f, .function g => f.same g
  | .range r, .range s => r = s
  | .type s, .type t => s = t
  | .array _ vs, .array _ ws => equalItems vs ws
  | _, _ => false

/-- Whether two lists have equal values at equal places. -/
def equalItems : List Value → List Value → Bool
  | [], [] => true
  | v :: vs, w :: ws => equal v w && equalItems vs ws
  | _, _ => false

end

/-- Whether a value counts as true: all do but `null`, `false` and the number zero. -/
def truthy : Value → Bool
  | .null => false
  | .bool b => b
  | .int n => n ≠ 0
  | .float x => x != 0
  | _ => true

end Value

end TagScript
