import TagScript.Value.Basic

/-!
# Scopes and Bindings

A scope keeps a map from names to bindings, and apart from it the order in which the names were
declared. Nothing but `Scope.bind` ties the two together. Scopes are stored under numbers, are never
removed, and form trees: a scope has a parent, opened before it, unless it is an outermost one. A
name is looked up in a scope and then outward through its parents.

An assignment changes the binding that the name resolves to, wherever it is, and nothing else. The
tag of the new value must be that of the binding, and the binding must be mutable.
-/

namespace TagScript

/-- What a name is bound to. -/
structure Binding where
  /-- The name. -/
  name : String
  /-- The value. -/
  value : Value
  /-- The tag that values assigned to the name must have. -/
  tag : Tag
  /-- Whether the name may be assigned to. -/
  mutable : Bool

/-- What a scope was opened for. -/
inductive ScopeKind where
  | global
  | function
  /-- A loop, for its cursor. -/
  | loop
  /-- A block of a choice. -/
  | branch
  /-- One pass through the block of a loop. -/
  | block
  | other
  deriving DecidableEq, Repr

/-- The name of a kind of scope. -/
def ScopeKind.name : ScopeKind → String
  | .global => "global"
  | .function => "function"
  | .loop => "loop"
  | .branch => "if-else"
  | .block => "block"
  | .other => "scope"

/-- The kind of scope with this code. -/
def ScopeKind.ofCode (code : Int) : ScopeKind :=
  match code with
  | 0 => .global
  | 1 => .function
  | 2 => .loop
  | 3 => .branch
  | 4 => .block
  | _ => .other

/-- A scope. -/
structure Scope where
  /-- What it was opened for. -/
  kind : ScopeKind
  /-- The scope around it. -/
  parent : Option ScopeId
  /-- The map from names to bindings, as a list in which a name is looked up. -/
  values : List Binding
  /-- The declared names, in the order of declaration. -/
  order : List String

namespace Scope

/-- A scope in which nothing has been declared. -/
def empty (kind : ScopeKind) (parent : Option ScopeId) : Scope :=
  ⟨kind, parent, [], []⟩

/-- The binding of a name in this very scope. -/
def find? (s : Scope) (name : String) : Option Binding :=
  s.values.find? (·.name = name)

/-- Whether a name is bound in this very scope. -/
def has (s : Scope) (name : String) : Bool :=
  s.values.any (·.name = name)

/-- The names that the map binds, in no particular order. -/
def keys (s : Scope) : List String :=
  s.values.map Binding.name

/-- The scope with one more binding in the map, and its name behind those declared before. -/
def bind (s : Scope) (b : Binding) : Scope :=
  { s with values := b :: s.values, order := s.order ++ [b.name] }

/-- The scope with a new value for a name. -/
def write (s : Scope) (name : String) (value : Value) : Scope :=
  { s with values := s.values.map fun b => if b.name = name then { b with value } else b }

end Scope

/-- Texts in ascending order of their code points, which is the order of their UTF-8 bytes. -/
def sortedNames (names : List String) : List String :=
  names.mergeSort fun a b => !(b < a)

/-- The stored scopes. -/
structure Store where
  /-- The scopes under their numbers. -/
  scopes : Array Scope

namespace Store

/-- A store without scopes. -/
def empty : Store := ⟨#[]⟩

/-- The scope stored under a number. -/
def scope? (s : Store) (id : ScopeId) : Option Scope :=
  s.scopes[id]?

/-- Stores one more scope and gives its number. -/
def push (s : Store) (scope : Scope) : ScopeId × Store :=
  (s.scopes.size, ⟨s.scopes.push scope⟩)

/-- Opens an empty scope inside `parent` and gives its number. -/
def openScope (s : Store) (kind : ScopeKind) (parent : ScopeId) : ScopeId × Store :=
  s.push (.empty kind (some parent))

/-- The scope around a scope. A parent is always stored under a smaller number. -/
def parent? (s : Store) (id : ScopeId) : Option { p : ScopeId // p < id } :=
  match s.scope? id with
  | some { parent := some p, .. } => if h : p < id then some ⟨p, h⟩ else none
  | _ => none

/-- The scopes from `id` outward. -/
def path (s : Store) (id : ScopeId) : List ScopeId :=
  match s.parent? id with
  | some ⟨p, _⟩ => id :: s.path p
  | none => [id]
termination_by id

/-- The number of scopes around a scope. -/
def depth (s : Store) (id : ScopeId) : Nat :=
  (s.path id).length - 1

/-- The binding of a name in the scope `id` itself. -/
def find? (s : Store) (id : ScopeId) (name : String) : Option Binding :=
  (s.scope? id).bind (·.find? name)

/-- The binding that a name resolves to in the scope `id`, and the scope that holds it: the nearest
one from `id` outward that binds the name. -/
def lookup? (s : Store) (id : ScopeId) (name : String) : Option (ScopeId × Binding) :=
  match s.find? id name with
  | some b => some (id, b)
  | none =>
    match s.parent? id with
    | some ⟨p, _⟩ => s.lookup? p name
    | none => none
termination_by id

/-- The binding that a name resolves to in the scope `id`. -/
def resolve? (s : Store) (id : ScopeId) (name : String) : Option Binding :=
  (s.lookup? id name).map Prod.snd

/-- Whether a name resolves to a binding in the scope `id`. -/
def isDeclared (s : Store) (id : ScopeId) (name : String) : Bool :=
  (s.lookup? id name).isSome

/-- Whether the scope `id` itself binds a name. -/
def has (s : Store) (id : ScopeId) (name : String) : Bool :=
  match s.scope? id with
  | some scope => scope.has name
  | none => false

/-- The names declared in the scope `id`, in the order of declaration. -/
def declared (s : Store) (id : ScopeId) : List String :=
  match s.scope? id with
  | some scope => scope.order
  | none => []

/-- The names that the map of the scope `id` binds, in no particular order. -/
def keys (s : Store) (id : ScopeId) : List String :=
  match s.scope? id with
  | some scope => scope.keys
  | none => []

/-- The names that the map of the scope `id` binds, in ascending order. -/
def names (s : Store) (id : ScopeId) : List String :=
  sortedNames (s.keys id)

/-- The bindings in the map of the scope `id`, in ascending order of their names. -/
def snapshot (s : Store) (id : ScopeId) : List Binding :=
  (s.names id).filterMap (s.find? id)

/-- Adds a binding to the scope `id` itself, and says whether it did: a name that the scope already
binds is refused, one bound in a scope around it is shadowed. -/
def define (s : Store) (id : ScopeId) (b : Binding) : Bool × Store :=
  if s.has id b.name then (false, s) else (true, ⟨s.scopes.modify id (·.bind b)⟩)

/-- The outcome of an assignment. -/
inductive Assigned where
  | ok
  /-- The name resolves to no binding. -/
  | undeclared
  /-- The tag of the value is not that of the binding. -/
  | typeMismatch
  | immutable
  deriving DecidableEq, Repr

/-- The name of the outcome of an assignment. -/
def Assigned.name : Assigned → String
  | .ok => "ok"
  | .undeclared => "undeclared"
  | .typeMismatch => "type_mismatch"
  | .immutable => "immutable"

/-- Assigns a value to the binding that a name resolves to in the scope `id`. Of two reasons to
refuse, the tag is named first. -/
def assign (s : Store) (id : ScopeId) (name : String) (value : Value) : Assigned × Store :=
  match s.lookup? id name with
  | none => (.undeclared, s)
  | some (owner, b) =>
    if value.tag ≠ b.tag then (.typeMismatch, s)
    else if !b.mutable then (.immutable, s)
    else (.ok, ⟨s.scopes.modify owner (·.write name value)⟩)

end Store

end TagScript
