import TagScript.Config.Basic
import TagScript.Yaml.Node

/-!
# Settings from a Settings File

A settings file replaces the values of the settings it names and keeps the others. A key without a
value changes nothing. What a file says wrongly is collected, in the order of the file: keys that no
setting has, and values of the wrong type. A mapping in which a key is repeated is not looked at any
further.

A text is taken as it is written, also if it looks like a number. A whole number may be written as
a double, whose fraction is then dropped.
-/

namespace TagScript.Config

open Yaml (Scalar Node)

/-- What a value is read as. -/
inductive Target where
  /-- A whole number of 64 bits. -/
  | seed
  /-- A whole number. -/
  | count
  /-- A text. -/
  | text
  /-- All settings. -/
  | whole
  /-- The settings of the console. -/
  | console
  deriving DecidableEq, Repr

/-- The name of a target in a complaint. -/
def Target.name : Target → String
  | .seed => "int64"
  | .count => "int"
  | .text => "string"
  | .whole => "config.Config"
  | .console => "config.ReplConfig"

/-- What a file says wrongly. -/
inductive Complaint where
  /-- A key that no setting has. -/
  | unknown (key : Scalar) (target : Target)
  /-- A scalar of the wrong type. -/
  | scalar (s : Scalar) (target : Target)
  /-- A mapping in place of a scalar. -/
  | mapping (line : Nat) (target : Target)
  /-- A key that is repeated. -/
  | repeated (first again : Scalar)

/-- The text of a scalar in a complaint: of more than ten bytes only the first seven are shown. -/
def excerpt (s : String) : Bytes :=
  let bytes := Bytes.ofString s
  if 10 < bytes.length then bytes.take 7 ++ Bytes.ofString "..." else bytes

/-- The text of a complaint. -/
def Complaint.text : Complaint → Bytes
  | .unknown key target =>
    Bytes.ofString ("line " ++ toString key.line ++ ": field " ++ key.text ++
      " not found in type " ++ target.name)
  | .scalar s target =>
    Bytes.ofString ("line " ++ toString s.line ++ ": cannot unmarshal " ++ s.meaning.tag ++
      " \x60") ++
      excerpt s.text ++ Bytes.ofString ("\x60 into " ++ target.name)
  | .mapping line target =>
    Bytes.ofString ("line " ++ toString line ++ ": cannot unmarshal !!map into " ++ target.name)
  | .repeated first again =>
    Bytes.ofString ("line " ++ toString again.line ++ ": mapping key " ++ Text.quote again.text ++
      " already defined at line " ++ toString first.line)

/-- The complaints about the repeated keys of a mapping. -/
def repeats : List Scalar → List Complaint
  | [] => []
  | key :: rest =>
    (rest.filter (·.text = key.text)).map (.repeated key) ++ repeats rest

/-- The whole number nearest to a double in the direction of zero; one that does not fit counts as
the least number of 64 bits. -/
def truncated (x : Float) : Int64 :=
  if x < 9223372036854775808 then x.toInt64 else Int64.minValue

/-- The complaints about a mapping in place of a scalar. -/
def refuseMapping (line : Nat) (entries : List (Scalar × Node)) (target : Target) :
    List Complaint :=
  match repeats (entries.map (·.1)) with
  | [] => [.mapping line target]
  | complaints => complaints

/-- Reads a whole number: nothing if none is given, or the complaints. -/
def number (target : Target) : Node → Except (List Complaint) (Option Int64)
  | .mapping line entries => .error (refuseMapping line entries target)
  | .scalar s =>
    match s.meaning with
    | .null => .ok none
    | .int n =>
      if n ≤ Int64.maxValue.toInt then .ok (some (Int64.ofInt n)) else .error [.scalar s target]
    | .float x =>
      if x ≤ 9223372036854775808 then .ok (some (truncated x)) else .error [.scalar s target]
    | _ => .error [.scalar s target]

/-- Reads a text: nothing if none is given, or the complaints. -/
def text : Node → Except (List Complaint) (Option String)
  | .mapping line entries => .error (refuseMapping line entries .text)
  | .scalar s => .ok (if s.isNull then none else some s.text)

/-- The settings after a value was read for one of them, and the complaints. -/
def update {α : Type} (c : Config) (value : Except (List Complaint) (Option α))
    (set : α → Config) : Config × List Complaint :=
  match value with
  | .ok none => (c, [])
  | .ok (some a) => (set a, [])
  | .error complaints => (c, complaints)

/-- Goes through the entries of a mapping and collects the complaints. A key without a meaning is
passed over. -/
def collect (f : Config → Scalar → Node → Config × List Complaint) (c : Config)
    (entries : List (Scalar × Node)) : Config × List Complaint :=
  match repeats (entries.map (·.1)) with
  | [] =>
    entries.foldl (fun (c, complaints) (key, node) =>
      if key.isNull then (c, complaints)
      else
        let (c, more) := f c key node
        (c, complaints ++ more)) (c, [])
  | complaints => (c, complaints)

/-- An entry of the settings of the console. -/
def consoleEntry (c : Config) (key : Scalar) (node : Node) : Config × List Complaint :=
  match key.text with
  | "prompt" => c.update (text node) fun prompt => { c with prompt }
  | "history_file" => c.update (text node) fun historyFile => { c with historyFile }
  | _ => (c, [.unknown key .console])

/-- An entry of the settings. -/
def entry (c : Config) (key : Scalar) (node : Node) : Config × List Complaint :=
  match key.text with
  | "seed" => c.update (number .seed node) fun seed => { c with seed }
  | "max_call_depth" =>
    c.update (number .count node) fun maxCallDepth => { c with maxCallDepth }
  | "color" => c.update (text node) fun colour => { c with colour }
  | "log_level" => c.update (text node) fun logLevel => { c with logLevel }
  | "repl" =>
    match node with
    | .mapping _ entries => collect consoleEntry c entries
    | .scalar s => (c, if s.isNull then [] else [.scalar s .console])
  | _ => (c, [.unknown key .whole])

/-- The settings that a file makes of the defaults, and the complaints. -/
def decode : Option Node → Config × List Complaint
  | none => (default, [])
  | some (.mapping _ entries) => collect entry default entries
  | some (.scalar s) => (default, if s.isNull then [] else [.scalar s .whole])

end TagScript.Config
