import TagScript.Decimal.Shortest
import TagScript.Text.Quoted
import TagScript.Tree.Show
import TagScript.Value.Basic

/-!
# Values as Text

Two texts of a value: the one that is printed, in which a text stands for itself, and the one that
is shown (`Value.shown`), in which it is quoted. The items of an array are always shown.
-/

namespace TagScript

/-- The head of a declared function. -/
def Closure.signature (f : Closure) : String :=
  "fn " ++ f.name ++ "(" ++ ", ".intercalate (f.params.map Param.text) ++ ")" ++
    (match f.returns with
      | none => ""
      | some t => ": " ++ t.spelling)

namespace Value

mutual

/-- The text of a value as it is printed. -/
def text : Value → String
  | .null => "null"
  | .int n => toString n.toInt
  | .float x => Decimal.positional x
  | .string s => s
  | .bool b => if b then "true" else "false"
  | .builtin _ => "[Builtin Function]"
  | .function f => f.signature
  | .range r => r.text
  | .array _ items => "[" ++ ", ".intercalate (texts items) ++ "]"
  | .type t => t.name

/-- The texts of the items of an array. -/
def texts : List Value → List String
  | [] => []
  | .string s :: rest => Text.quote s :: texts rest
  | v :: rest => text v :: texts rest

end

/-- The text of a value as it is shown: a text is quoted. -/
def shown : Value → String
  | .string s => Text.quote s
  | v => v.text

end Value

end TagScript
