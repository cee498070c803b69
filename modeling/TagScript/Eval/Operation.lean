import TagScript.Decimal.Binary64
import TagScript.Machine.Basic

/-!
# Operators on Values

What operators compute. Operands must have the same tag. Whole numbers are 64-bit integers whose
sums, differences and products wrap around; a quotient is rounded toward zero and a remainder has
the sign of the dividend. Doubles follow the usual rules of binary floating point.
-/

namespace TagScript

/-- Why an operator computes nothing: an error of the program, or a fault of the machine. -/
inductive Refusal where
  | cause (c : Cause)
  | fault (f : Fault)

namespace BinaryOp

/-- Whether an operator compares. -/
def isComparison : BinaryOp → Bool
  | .eq | .ne | .lt | .le | .gt | .ge => true
  | _ => false

/-- An operator between whole numbers. -/
def onInts (op : BinaryOp) (a b : Int64) : Except Refusal Value :=
  match op with
  | .add => .ok (.int (a + b))
  | .sub => .ok (.int (a - b))
  | .mul => .ok (.int (a * b))
  | .div => if b = 0 then .error (.fault .divisionByZero) else .ok (.int (a / b))
  | .rem => if b = 0 then .error (.fault .divisionByZero) else .ok (.int (a % b))
  | .eq => .ok (.bool (a = b))
  | .ne => .ok (.bool (a ≠ b))
  | .lt => .ok (.bool (a < b))
  | .le => .ok (.bool (a ≤ b))
  | .gt => .ok (.bool (b < a))
  | .ge => .ok (.bool (b ≤ a))
  | .other _ => .error (.cause (.unknownOperation op .int))

/-- An operator between doubles. -/
def onFloats (op : BinaryOp) (x y : Float) : Except Refusal Value :=
  match op with
  | .add => .ok (.float (x + y))
  | .sub => .ok (.float (x - y))
  | .mul => .ok (.float (x * y))
  | .div => .ok (.float (x / y))
  | .rem => .ok (.float (Decimal.remainder x y))
  | .eq => .ok (.bool (x == y))
  | .ne => .ok (.bool (x != y))
  | .lt => .ok (.bool (x < y))
  | .le => .ok (.bool (x ≤ y))
  | .gt => .ok (.bool (y < x))
  | .ge => .ok (.bool (y ≤ x))
  | .other _ => .error (.cause (.unknownOperation op .float))

/-- An operator between texts. -/
def onStrings (op : BinaryOp) (s t : String) : Except Refusal Value :=
  match op with
  | .add => .ok (.string (s ++ t))
  | .eq => .ok (.bool (s = t))
  | .ne => .ok (.bool (s ≠ t))
  | _ => .error (.cause (.noOperation op .string))

/-- The number of a truth value: truth values are compared as zero and one. -/
def rank (b : Bool) : Int64 :=
  if b then 1 else 0

/-- An operator between truth values. -/
def onBools (op : BinaryOp) (a b : Bool) : Except Refusal Value :=
  if op.isComparison then op.onInts (rank a) (rank b)
  else .error (.cause (.noOperation op .boolean))

/-- An operator between values. -/
def apply (op : BinaryOp) (v w : Value) : Except Refusal Value :=
  match v, w with
  | .int a, .int b => op.onInts a b
  | .float x, .float y => op.onFloats x y
  | .string s, .string t => op.onStrings s t
  | .bool a, .bool b => op.onBools a b
  | v, w =>
    if v.tag ≠ w.tag then .error (.cause (.operandMismatch op v.tag w.tag))
    else .error (.cause (.noOperation op v.tag))

end BinaryOp

/-- An operator in front of a value. Negation of truth looks at `null` and truth values only: every
other value counts as true. -/
def UnaryOp.apply (op : UnaryOp) (v : Value) : Except Refusal Value :=
  match op, v with
  | .not, .null => .ok (.bool true)
  | .not, .bool b => .ok (.bool !b)
  | .not, _ => .ok (.bool false)
  | .plus, .int n => .ok (.int n)
  | .minus, .int n => .ok (.int (-n))
  | .plus, .float x => .ok (.float x)
  | .minus, .float x => .ok (.float (-x))
  | .plus, _ | .minus, _ => .error (.cause (.noSign op v.tag))
  | .other _, _ => .error (.cause (.unknownSign op))

/-- An operator behind a value. -/
def StepOp.apply (op : StepOp) (v : Value) : Except Refusal Value :=
  match v with
  | .int n => .ok (.int (if op = .increment then n + 1 else n - 1))
  | _ => .error (.cause (.stepOperand op v.tag))

/-- Goes on with what an operator at a position computed. -/
def Context.accept {α : Type} (ctx : Context) (p : Position) (r : Except Refusal α) : Eval α :=
  match r with
  | .ok v => pure v
  | .error (.cause c) => ctx.fail p c
  | .error (.fault f) => throw (.fault f)

end TagScript
