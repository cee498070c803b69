import TagScript.Proofs.Machine.Safe
import TagScript.Proofs.Tree.Relocate

/-!
# Values at Other Places

A value tells places in two ways: the bodies of its functions stand at positions of a script, and
its functions were declared in scopes, which are stored under numbers. A `Relocation` replaces the
positions, and makes room for other scopes in front of those that are stored. `Value.relocate r` is
the value as it is after that. Nothing that a program computes with a value depends on either: not
its tag, not its texts, not whether it counts as true, not what an operator or a built-in function
makes of it.
-/

namespace TagScript

/-- A way to replace positions and to renumber scopes. -/
structure Relocation where
  /-- What stands for a position. -/
  position : Position → Position
  /-- The scopes that are stored in front of the others. -/
  older : Array Scope

namespace Relocation

/-- Positions are replaced, and scopes keep their numbers. -/
def moving (f : Position → Position) : Relocation := ⟨f, #[]⟩

/-- Nothing is replaced. -/
def none : Relocation := moving id

/-- All positions are forgotten. -/
def forget : Relocation := moving Position.forget

/-- Some scopes are stored in front of the others, and positions stay. -/
def behind (older : Array Scope) : Relocation := ⟨id, older⟩

/-- The number of a scope after the relocation. -/
def scope (r : Relocation) (id : ScopeId) : ScopeId :=
  id + r.older.size

/-- The order of the numbers stays as it is. -/
theorem scope_lt_scope_iff (r : Relocation) {id id' : ScopeId} :
    r.scope id < r.scope id' ↔ id < id' :=
  Nat.add_lt_add_iff_right

end Relocation

section Definitions

variable (r : Relocation)

/-- The function after a relocation. -/
def Closure.relocate (c : Closure) : Closure :=
  { c with
    body := Stmt.relocateAll r.position c.body
    scope := r.scope c.scope }

mutual

/-- The value after a relocation. -/
def Value.relocate : Value → Value
  | .function c => .function (c.relocate r)
  | .array elem items => .array elem (relocateItems items)
  | .null => .null
  | .int n => .int n
  | .float x => .float x
  | .string s => .string s
  | .bool b => .bool b
  | .builtin b => .builtin b
  | .range r => .range r
  | .type t => .type t

/-- The items of an array after a relocation. -/
def Value.relocateItems : List Value → List Value
  | [] => []
  | v :: rest => v.relocate :: relocateItems rest

end

/-- The argument after a relocation. -/
def Arg.relocate (a : Arg) : Arg :=
  { a with value := a.value.relocate r }

end Definitions

namespace Closure

/-- A function that is not moved stays where it is. -/
@[simp]
theorem relocate_none (c : Closure) : c.relocate .none = c := by
  have hbody := Stmt.relocateAll_id c.body
  rw [relocate]
  simp only [Relocation.none, Relocation.moving, Relocation.scope, hbody]
  rfl

/-- The place of a function is not part of its signature. -/
theorem signature_relocate (r : Relocation) (c : Closure) :
    (c.relocate r).signature = c.signature := rfl

end Closure

namespace Value

variable (r : Relocation)

mutual

@[simp]
theorem relocate_none : (v : Value) → v.relocate .none = v
  | .function c => by simp [relocate]
  | .array _ items => by simp [relocate, relocateItems_none items]
  | .null | .int _ | .float _ | .string _ | .bool _ | .builtin _ | .range _ | .type _ => rfl

theorem relocateItems_none : (vs : List Value) → relocateItems .none vs = vs
  | [] => rfl
  | v :: rest => by simp [relocateItems, relocate_none v, relocateItems_none rest]

end

/-- The items of an array are moved one by one. -/
theorem relocateItems_eq_map (vs : List Value) : relocateItems r vs = vs.map (relocate r) := by
  induction vs with
  | nil => rfl
  | cons v rest ih => simp [relocateItems, ih]

/-- A value keeps its tag. -/
@[simp]
theorem tag_relocate (v : Value) : (v.relocate r).tag = v.tag := by
  cases v <;> rfl

/-- Truth does not depend on places. -/
@[simp]
theorem truthy_relocate (v : Value) : (v.relocate r).truthy = v.truthy := by
  cases v <;> rfl

mutual

/-- What is printed of a value does not tell the places of its functions. -/
@[simp]
theorem text_relocate : (v : Value) → (v.relocate r).text = v.text
  | .function c => by simp [relocate, text, c.signature_relocate]
  | .array _ items => by simp [relocate, text, texts_relocateItems items]
  | .null | .int _ | .float _ | .string _ | .bool _ | .builtin _ | .range _ | .type _ => rfl

theorem texts_relocateItems : (vs : List Value) → texts (relocateItems r vs) = texts vs
  | [] => rfl
  | v :: rest => by
    have hv := text_relocate v
    have hrest := texts_relocateItems rest
    -- a text among the items is quoted, every other item is shown as it is printed
    cases v with
    | string s => simp [relocateItems, relocate, texts, hrest]
    | function c => simpa [relocateItems, relocate, texts, hrest] using hv
    | array elem items => simpa [relocateItems, relocate, texts, hrest] using hv
    | _ => simp [relocateItems, relocate, texts, hrest]

end

variable {r} in
/-- A value that is well formed among no scopes holds no functions. -/
theorem Formed.relocate_eq {v : Value} (h : v.Formed 0) : v.relocate r = v := by
  induction h with
  | function c hscope => exact absurd hscope (Nat.not_lt_zero _)
  | array elem items _ _ _ ih =>
    rw [relocate, relocateItems_eq_map, List.map_congr_left ih, List.map_id']
  | _ => rfl

/-- What is shown of a value does not tell the places of its functions. -/
@[simp]
theorem shown_relocate (v : Value) : (v.relocate r).shown = v.shown := by
  cases v with
  | string s => rfl
  | _ => exact text_relocate r _

end Value

section Operators

variable (r : Relocation)

/-- An operator between values looks at no place. -/
theorem BinaryOp.apply_relocate (op : BinaryOp) (v w : Value) :
    op.apply (v.relocate r) (w.relocate r) = op.apply v w := by
  cases v <;> cases w <;> rfl

/-- A sign in front of an operand does not look at scopes. -/
theorem UnaryOp.apply_relocate (op : UnaryOp) (v : Value) :
    op.apply (v.relocate r) = op.apply v := by
  cases op <;> cases v <;> rfl

/-- A step does not look at scopes. -/
theorem StepOp.apply_relocate (op : StepOp) (v : Value) :
    op.apply (v.relocate r) = op.apply v := by
  cases v <;> rfl

end Operators

namespace Builtin

variable (r : Relocation) (args : List Arg)

/-- `exit` does not look at the scopes in its arguments. -/
theorem exitAnswer_relocate : exitAnswer (args.map (Arg.relocate r)) = exitAnswer args := by
  match args with
  | [] => rfl
  | [⟨v, _⟩] => cases v <;> rfl
  | _ :: _ :: rest => simp [exitAnswer]

/-- `len` does not look at the scopes in its arguments. -/
theorem lenAnswer_relocate : lenAnswer (args.map (Arg.relocate r)) = lenAnswer args := by
  match args with
  | [] => rfl
  | [⟨v, _⟩] => cases v <;> rfl
  | _ :: _ :: rest => simp [lenAnswer]

/-- `typeof` looks at tags only. -/
theorem typeofAnswer_relocate : typeofAnswer (args.map (Arg.relocate r)) = typeofAnswer args := by
  match args with
  | [] => rfl
  | [_] => rfl
  | _ :: _ :: rest => simp [typeofAnswer]

/-- The bounds of a range are whole numbers, which mention no scope. -/
theorem bounds_relocate (index : Nat) :
    bounds index (args.map (Arg.relocate r)) = bounds index args := by
  induction args generalizing index with
  | nil => rfl
  | cons a rest ih =>
    obtain ⟨v, tag⟩ := a
    -- the first argument is accepted only if it is a whole number and tracked as one
    cases v with
    | int n => cases tag <;> simp [bounds, Arg.relocate, Value.relocate, ih]
    | _ => simp [bounds, Arg.relocate, Value.relocate]

/-- `range` does not look at the scopes in its arguments. -/
theorem rangeAnswer_relocate : rangeAnswer (args.map (Arg.relocate r)) = rangeAnswer args := by
  simp [rangeAnswer, bounds_relocate]

/-- `random` does not look at the scopes in its arguments. -/
theorem randomAnswer_relocate {σ : Type} (src : Random.Source σ) (s : σ) :
    randomAnswer src (args.map (Arg.relocate r)) s = randomAnswer src args s := by
  match args with
  | [] => rfl
  | [⟨v, _⟩] => cases v <;> rfl
  | [⟨v, _⟩, ⟨w, _⟩] => cases v <;> cases w <;> rfl
  | _ :: _ :: _ :: rest => simp [randomAnswer]

/-- A built-in function looks at no place. -/
theorem answer_relocate (b : Builtin) (g : Random.Generator) :
    b.answer (args.map (Arg.relocate r)) g = b.answer args g := by
  cases b with
  | print => simp [answer, Arg.relocate, Function.comp_def]
  | exit => simp [answer, exitAnswer_relocate]
  | len => simp [answer, lenAnswer_relocate]
  | random => simp [answer, randomAnswer_relocate]
  | typeof => simp [answer, typeofAnswer_relocate]
  | range => simp [answer, rangeAnswer_relocate]

variable {r args} in
/-- The value that a built-in function answers holds no functions. -/
theorem relocate_of_answer {b : Builtin} {g : Random.Generator} {v : Value}
    (h : (b.answer args g).1 = .ok (.value v)) : v.relocate r = v := by
  cases b with
  | print => cases h
  | exit =>
    simp only [answer, exitAnswer] at h
    split at h <;> cases h
  | len =>
    simp only [answer, lenAnswer] at h
    split at h <;> cases h
    rfl
  | random => exact (formed_randomAnswer h).relocate_eq
  | typeof =>
    simp only [answer, typeofAnswer] at h
    split at h <;> cases h
    rfl
  | range => exact (formed_rangeAnswer h).relocate_eq

end Builtin

/-- The note about a call shows texts, in which no scope is mentioned. -/
theorem Arg.describe_relocate (r : Relocation) (args : List Arg) :
    Arg.describe (args.map (Arg.relocate r)) = Arg.describe args := by
  simp [describe, relocate, Function.comp_def]

end TagScript
