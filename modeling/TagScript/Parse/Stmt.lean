import TagScript.Parse.Expr
import TagScript.Token.Scan

/-!
# Reading Statements and Programs

The grammar of statements:

* `("let" | "const") name [":" type] "=" expr ";"`;
* `"fn" name "(" [param ("," param)*] ")" [":" type] block`, where `param = name [":" type]`;
* `"return" [expr] ";"`;
* `"if" expr block ["else" (block | if)]`;
* `"for" name "in" expr block`;
* `expr ";"`.

A block is a sequence of statements in braces, a program a sequence of statements.
-/

namespace TagScript.Parse

/-- Reads a type name: a word, or one of the reserved words `null` and `fn`. -/
def typeName : (ts : List Token) → Reply TypeName ts.length
  | [] => fail .typeName []
  | t :: rest =>
    if t.kind = .ident ∨ t.kind = .kwNull ∨ t.kind = .kwFn then
      match TypeName.ofWord? t.text with
      | some found => .ok (.first found t rest)
      | none => fail (.unknownType t.text) (t :: rest)
    else fail .typeName (t :: rest)

/-- Reads a colon and a type name, if there is a colon. -/
def optionalType (ts : List Token) : Reply (Option TypeName) (ts.length + 1) :=
  match ts with
  | [] => return .absent none []
  | t :: rest =>
    if t.kind = .colon then do
      let found ← typeName rest
      return (found.map some).widen (length_le_cons_succ t rest)
    else return .absent none (t :: rest)

/-- Reads one or more parameters separated by commas, and the closing parenthesis. -/
def moreParams (ts : List Token) : Reply (List Param) ts.length := do
  let ⟨name, rest, _⟩ ← expect .ident .paramName ts
  let ⟨type, rest, h⟩ ← optionalType rest
  match rest, h with
  | [], _ => fail .paramsNext []
  | t :: rest, h =>
    if t.kind = .comma then
      let ⟨more, rest', _⟩ ← moreParams rest
      return ⟨⟨name.text, type⟩ :: more, rest', by simp at h; omega⟩
    else if t.kind = .rparen then return ⟨[⟨name.text, type⟩], rest, by simp at h; omega⟩
    else fail .paramsNext (t :: rest)
termination_by ts.length
decreasing_by
  simp only [List.length_cons] at h
  decreasing_with omega

/-- Reads a parameter list behind its opening parenthesis. -/
def params : (ts : List Token) → Reply (List Param) ts.length
  | [] => fail .paramName []
  | t :: rest =>
    if t.kind = .rparen then .ok (.first [] t rest) else moreParams (t :: rest)

/-- Reads a declaration behind the token `start`, which says whether it declares a constant. -/
def declaration (start : Token) (ts : List Token) : Reply Stmt ts.length := do
  let ⟨name, rest, named⟩ ← expect .ident (.nameAfter start.text) ts
  let ⟨type, rest, typed⟩ ← optionalType rest
  let ⟨_, rest, equated⟩ ← expect .assign .equalsSign rest
  let ⟨value, rest, valued⟩ ← expr rest
  let stop ← expect .semicolon .declarationEnd rest
  let tree : Stmt := .declare start.position (start.kind = .kwConst) name.text type value
  return ((((stop.map fun _ => tree).within valued).within equated).within typed).widen named

/-- Reads what is returned behind the token `start`. -/
def returned (start : Token) (ts : List Token) : Reply Stmt ts.length :=
  match ts with
  | [] => fail .expression []
  | t :: rest =>
    if t.kind = .semicolon then return .first (.ret start.position none) t rest
    else do
      let ⟨value, rest', valued⟩ ← expr (t :: rest)
      let stop ← expect .semicolon .returnEnd rest'
      return (stop.map fun _ => .ret start.position (some value)).within valued

/-- Reads an expression as a statement. -/
def expression (ts : List Token) : Reply Stmt ts.length :=
  match ts with
  | [] => fail .expression []
  | t :: rest => do
    let ⟨value, rest', valued⟩ ← expr (t :: rest)
    let stop ← expect .semicolon .expressionEnd rest'
    return (stop.map fun _ => .expr t.position value).within valued

mutual

/-- Reads a statement. -/
def stmt (ts : List Token) : Reply Stmt ts.length :=
  match ts with
  | [] => fail .expression []
  | t :: rest =>
    match t.kind with
    | .kwLet | .kwConst => do
      let s ← declaration t rest
      return s.widen (by simp)
    | .kwFn => do
      let s ← function t rest
      return s.widen (by simp)
    | .kwReturn => do
      let s ← returned t rest
      return s.widen (by simp)
    | .kwIf => do
      let s ← branch t rest
      return s.widen (by simp)
    | .kwFor => do
      let s ← loop t rest
      return s.widen (by simp)
    | _ => expression (t :: rest)
termination_by (ts.length, 1)

/-- Reads the declaration of a function behind the token `start`. -/
def function (start : Token) (ts : List Token) : Reply Stmt ts.length := do
  let ⟨name, rest, _⟩ ← expect .ident .functionName ts
  let ⟨_, rest, _⟩ ← expect .lparen .paramsOpen rest
  let ⟨ps, rest, _⟩ ← params rest
  let ⟨returns, rest, _⟩ ← optionalType rest
  let ⟨body, rest, _⟩ ← block rest
  return ⟨.function start.position name.text ps returns body, rest, by omega⟩
termination_by (ts.length, 1)

/-- Reads a choice behind the token `start`. A choice that follows `else` is the one statement of
the second block. -/
def branch (start : Token) (ts : List Token) : Reply Stmt ts.length := do
  let ⟨condition, rest, _⟩ ← expr ts
  let ⟨yes, rest, h⟩ ← block rest
  match rest, h with
  | t :: u :: rest, h =>
    if t.kind = .kwElse then
      if u.kind = .kwIf then
        let ⟨no, rest', _⟩ ← branch u rest
        return ⟨.branch start.position condition yes (some [no]), rest', by simp at h; omega⟩
      else
        let ⟨no, rest', _⟩ ← block (u :: rest)
        return ⟨.branch start.position condition yes (some no), rest', by simp at *; omega⟩
    else return ⟨.branch start.position condition yes none, t :: u :: rest, by omega⟩
  | [t], h =>
    if t.kind = .kwElse then fail .blockOpen []
    else return ⟨.branch start.position condition yes none, [t], by omega⟩
  | [], h => return ⟨.branch start.position condition yes none, [], by omega⟩
termination_by (ts.length, 1)
decreasing_by
  · decreasing_with omega
  · simp only [List.length_cons] at h
    decreasing_with omega
  · simp only [List.length_cons] at h
    simp only [List.length_cons]
    decreasing_with omega

/-- Reads a loop behind the token `start`. -/
def loop (start : Token) (ts : List Token) : Reply Stmt ts.length := do
  let ⟨cursor, rest, _⟩ ← expect .ident .cursorName ts
  let ⟨_, rest, _⟩ ← expect .kwIn .loopIn rest
  let ⟨range, rest, _⟩ ← expr rest
  let ⟨body, rest, _⟩ ← block rest
  return ⟨.loop start.position cursor.text range body, rest, by omega⟩
termination_by (ts.length, 1)

/-- Reads a block. -/
def block (ts : List Token) : Reply (List Stmt) ts.length := do
  let ⟨_, rest, _⟩ ← expect .lbrace .blockOpen ts
  let stmts ← blockRest rest
  return stmts.widen (by omega)
termination_by (ts.length, 0)

/-- Reads the statements of a block behind its opening brace, and the closing brace. -/
def blockRest (ts : List Token) : Reply (List Stmt) ts.length :=
  match ts with
  | [] => fail .blockClose []
  | t :: rest =>
    if t.kind = .rbrace then return .first [] t rest
    else do
      let ⟨s, rest', _⟩ ← stmt (t :: rest)
      let ⟨more, rest', _⟩ ← blockRest rest'
      return ⟨s :: more, rest', by omega⟩
termination_by (ts.length, 2)

end

/-- Reads a program. -/
def program (ts : List Token) : Except ParseError Program :=
  match ts with
  | [] => return []
  | t :: rest => do
    let ⟨s, rest', _h⟩ ← stmt (t :: rest)
    let more ← program rest'
    return s :: more
termination_by ts.length
decreasing_by exact _h

/-- The program written by the bytes of a script. -/
def source (bytes : Bytes) : Except ParseError Program :=
  program (Token.tokenize bytes.decode).tokens

end TagScript.Parse
