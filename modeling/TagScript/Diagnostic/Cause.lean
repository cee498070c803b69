import TagScript.Tree.Basic
import TagScript.Value.Tag

/-!
# Causes of Errors

What can go wrong while a program runs, which of the four kinds of error it is, and how it is
worded. A host that reports an error of its own states its kind and wording.
-/

namespace TagScript

/-- The kinds of errors. -/
inductive ErrorKind where
  /-- A name that is missing, taken or not assignable. -/
  | name
  | type
  | value
  | argument
  /-- A kind that only a host uses, by its code. -/
  | other (code : Int)
  deriving DecidableEq, Repr

/-- The name of a kind of error. -/
def ErrorKind.label : ErrorKind → String
  | .name => "NameError"
  | .type => "TypeError"
  | .value => "ValueError"
  | .argument => "ArgumentError"
  | .other code => "ErrorKind(" ++ toString code ++ ")"

/-- The kind of error with this code. -/
def ErrorKind.ofCode (code : Int) : ErrorKind :=
  match code with
  | 1 => .name
  | 2 => .type
  | 3 => .value
  | 4 => .argument
  | _ => .other code

/-- Why a program cannot go on. -/
inductive Cause where
  /-- A name that resolves to no binding. -/
  | undeclared (name : String)
  /-- A name that its scope already binds. -/
  | redeclared (name : String)
  /-- An assignment to a name that is not mutable. -/
  | notAssignable (name : String)
  /-- An assignment of a value with another tag than the name has. -/
  | assignMismatch (name : String) (want got : Tag)
  /-- A declaration with a value of another type than declared. -/
  | initMismatch (name : String) (want got : Tag)
  /-- An array with items of two types. -/
  | itemMismatch (want got : Tag)
  /-- A call of a value that is no function. -/
  | notCallable (got : Tag)
  /-- A call with a wrong number of arguments. -/
  | arity (function : String) (want got : Nat)
  /-- A call beyond the limit of active calls. -/
  | depth (limit : Nat)
  /-- An argument of another type than declared. -/
  | argMismatch (param function : String) (want got : Tag)
  /-- A result of another type than declared. -/
  | returnMismatch (function : String) (want got : Tag)
  /-- Operands of two types. -/
  | operandMismatch (op : BinaryOp) (left right : Tag)
  /-- An operator that the type of its operands does not have. -/
  | noOperation (op : BinaryOp) (tag : Tag)
  /-- An operator between numbers that is none. -/
  | unknownOperation (op : BinaryOp) (tag : Tag)
  /-- A sign in front of something that is no number. -/
  | noSign (op : UnaryOp) (tag : Tag)
  /-- An operator in front of an operand that is none. -/
  | unknownSign (op : UnaryOp)
  /-- A step from something that is no whole number. -/
  | stepOperand (op : StepOp) (got : Tag)
  /-- A loop over something that is no range. -/
  | notRange (got : Tag)
  /-- A loop over a range that goes nowhere. -/
  | zeroStep
  /-- A wrong number of arguments for `exit`. -/
  | exitArity (got : Nat)
  /-- An argument for `exit` that is no whole number. -/
  | exitArgument
  /-- A wrong number of arguments for `len`. -/
  | lenArity (got : Nat)
  /-- An argument for `len` that is no text. -/
  | lenArgument (got : Tag)
  /-- A wrong number of arguments for `typeof`. -/
  | typeofArity (got : Nat)
  /-- A bound for `random` that is no whole number. -/
  | randomBound
  /-- A bound for `random` below zero. -/
  | randomNegative
  /-- Two bounds for `random`, not both whole numbers. -/
  | randomBounds
  /-- Two bounds for `random`, one of them below zero. -/
  | randomNegatives
  /-- Two bounds for `random` in the wrong order. -/
  | randomOrder
  /-- More than two arguments for `random`. -/
  | randomArity
  /-- A wrong number of arguments for `range`. -/
  | rangeArity (got : Nat)
  /-- An argument for `range`, counted from one, that is no whole number. -/
  | rangeArgument (index : Nat) (got : Tag)
  /-- An error stated by a host. -/
  | stated (kind : ErrorKind) (message : String)
  deriving DecidableEq, Repr

namespace Cause

/-- The kind of error that a cause makes. -/
def kind : Cause → ErrorKind
  | .undeclared _ | .redeclared _ | .notAssignable _ => .name
  | .arity .. | .exitArity _ | .exitArgument | .randomArity => .argument
  | .depth _ | .zeroStep | .randomNegative | .randomNegatives | .randomOrder => .value
  | .stated kind _ => kind
  | _ => .type

/-- The wording of a cause. -/
def message : Cause → String
  | .undeclared name => "'" ++ name ++ "' is not declared"
  | .redeclared name => "'" ++ name ++ "' is already declared in this scope"
  | .notAssignable name => "'" ++ name ++ "' is not assignable"
  | .assignMismatch name want got =>
    "cannot assign mismatched type: '" ++ name ++ "' is " ++ want.name ++ ", got " ++ got.name
  | .initMismatch name want got =>
    "cannot initialize '" ++ name ++ "' of type " ++ want.name ++ " with a value of type " ++
      got.name
  | .itemMismatch want got =>
    "array elements must share one type: expected " ++ want.name ++ ", got " ++ got.name
  | .notCallable got => "value of type " ++ got.name ++ " is not callable"
  | .arity function want got =>
    "function '" ++ function ++ "' expects " ++ toString want ++ " args but " ++ toString got ++
      " were provided"
  | .depth limit => "maximum call depth exceeded (" ++ toString limit ++ ")"
  | .argMismatch param function want got =>
    "argument '" ++ param ++ "' of '" ++ function ++ "' must be " ++ want.name ++ ", got " ++
      got.name
  | .returnMismatch function want got =>
    "function '" ++ function ++ "' must return " ++ want.name ++ ", got " ++ got.name
  | .operandMismatch op left right =>
    "mismatched types for " ++ op.spelling ++ ": " ++ left.name ++ " and " ++ right.name
  | .noOperation op tag =>
    "operation " ++ op.spelling ++ " not implemented for type " ++ tag.name
  | .unknownOperation op tag => "unknown operator " ++ op.spelling ++ " for type " ++ tag.name
  | .noSign op tag => "unary " ++ op.spelling ++ " not supported for type " ++ tag.name
  | .unknownSign op => "unknown prefix operator " ++ op.spelling
  | .stepOperand op got => "operator " ++ op.spelling ++ " requires int, got " ++ got.name
  | .notRange got => "for loop works only with range, got " ++ got.name
  | .zeroStep => "range step cannot be zero"
  | .exitArity got =>
    "'exit' expects 0 or 1 argument but " ++ toString got ++ " were provided"
  | .exitArgument => "'exit' only accepts an integer argument"
  | .lenArity got => "'len' expects 1 arg but " ++ toString got ++ " were provided"
  | .lenArgument got => "'len' only accepts iterable types, got " ++ got.name
  | .typeofArity got => "'typeof' expects 1 arg but " ++ toString got ++ " were provided"
  | .randomBound => "'random' expects an integer argument"
  | .randomNegative => "Argument for 'random' must be a non-negative integer"
  | .randomBounds => "'random' expects two integer arguments"
  | .randomNegatives => "Arguments for 'random' must be non-negative integers"
  | .randomOrder =>
    "The first argument for 'random' must be less than or equal to the second argument"
  | .randomArity => "'random' expects 0, 1, or 2 arguments"
  | .rangeArity got =>
    "function 'range' takes 2 or 3 args but " ++ toString got ++ " were provided"
  | .rangeArgument index got =>
    "args for function 'range' must be of type int (argument " ++ toString index ++ " is " ++
      got.name ++ ")"
  | .stated _ message => message

end Cause

end TagScript
