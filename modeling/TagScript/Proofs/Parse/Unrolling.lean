import TagScript.Proofs.Parse.Pinpoints

/-!
# The Parsers Taken Apart

The parsers call one another, and a loop of a parser is a call of itself. Here a parser is taken
apart into what it does itself and what it leaves to its calls: a `Task` is a call of a parser, a
`Loop` is a loop as it stands between two passes, and `Task.body` does the one task with other
parsers in place of those it calls. Put into itself over and over (`unroll`), the body shows
how deep the calls go, which the parsers as such do not.

## Main definitions

* `Task.read`: the reply of the parser that a task calls;
* `Loop.pass`: one pass through a loop;
* `Task.body`: one parser, with the parsers it calls as a parameter;
* `Task.rank`: how many calls may follow one another before a token is consumed.
-/

namespace TagScript.Parse

/-- A loop of a parser, with what has been read so far where the next pass starts from it. -/
inductive Loop : Type → Type where
  /-- The operators of a level behind the operand `left`, each with its right operand. -/
  | operations (level : Level) (left : Expr) : Loop Expr
  /-- The operators behind the operand `left`. -/
  | steps (left : Expr) : Loop Expr
  /-- The argument lists behind `callee`. -/
  | calls (callee : Expr) : Loop Expr
  /-- The items of a list. -/
  | items (close : Token.Kind) (problem : Problem) : Loop (List Expr)
  /-- The parameters of a function. -/
  | params : Loop (List Param)
  /-- The statements of a block. -/
  | block : Loop (List Stmt)
  /-- The statements of a program. -/
  | program : Loop Program

/-- A call of a parser, by the name of the parser, or of what is left of one of its loops. -/
inductive Task : Type → Type 1 where
  | loop {α : Type} (l : Loop α) : Task α
  | expr : Task Expr
  | operation (level : Level) : Task Expr
  | operand (level : Level) : Task Expr
  | unary : Task Expr
  /-- An operand with the operators behind it. -/
  | stepped : Task Expr
  | call : Task Expr
  | items (close : Token.Kind) (problem : Problem) : Task (List Expr)
  | primary : Task Expr
  | typeName : Task TypeName
  | optionalType : Task (Option TypeName)
  | params : Task (List Param)
  | declaration (start : Token) : Task Stmt
  | returned (start : Token) : Task Stmt
  | expression : Task Stmt
  | stmt : Task Stmt
  | function (start : Token) : Task Stmt
  | branch (start : Token) : Task Stmt
  /-- The statement that goes through a range. -/
  | iteration (start : Token) : Task Stmt
  | block : Task (List Stmt)

section Replies

variable {α : Type}

/-- What is read by the passes that a loop still makes. -/
def Loop.read : Loop α → Reader α
  | .operations level left, ts => plain (Parse.operations level left ts)
  | .steps left, ts => .ok (plainSteps left ts)
  | .calls callee, ts => plain (Parse.calls callee ts)
  | .items close problem, ts => plain (Parse.moreItems close problem ts)
  | .params, ts => plain (Parse.moreParams ts)
  | .block, ts => plain (Parse.blockRest ts)
  | .program, ts => (Parse.program ts).map fun stmts => (stmts, [])

/-- The reply of the parser that is called. -/
def Task.read : Task α → Reader α
  | .loop l, ts => l.read ts
  | .expr, ts => plain (Parse.expr ts)
  | .operation level, ts => plain (Parse.operation level ts)
  | .operand level, ts => plain (Parse.operand level ts)
  | .unary, ts => plain (Parse.unary ts)
  | .stepped, ts => do
    let (left, rest) ← plain (Parse.call ts)
    .ok (plainSteps left rest)
  | .call, ts => plain (Parse.call ts)
  | .items close problem, ts => plain (Parse.items close problem ts)
  | .primary, ts => plain (Parse.primary ts)
  | .typeName, ts => plain (Parse.typeName ts)
  | .optionalType, ts => plain (Parse.optionalType ts)
  | .params, ts => plain (Parse.params ts)
  | .declaration start, ts => plain (Parse.declaration start ts)
  | .returned start, ts => plain (Parse.returned start ts)
  | .expression, ts => plain (Parse.expression ts)
  | .stmt, ts => plain (Parse.stmt ts)
  | .function start, ts => plain (Parse.function start ts)
  | .branch start, ts => plain (Parse.branch start ts)
  | .iteration start, ts => plain (Parse.loop start ts)
  | .block, ts => plain (Parse.block ts)

end Replies

/-- What a pass through a loop ends with. -/
inductive Turn (α : Type) where
  /-- The condition of the loop does not hold, and there is no pass. -/
  | done (a : α)
  /-- The pass leaves the loop. -/
  | last (a : α)
  /-- The loop goes on, and `make` adds what this pass has read to what the others read. -/
  | again (l : Loop α) (make : α → α)

section Bodies

variable (P : {α : Type} → Task α → Reader α)

/-- What a pass through a list does behind an item. -/
def separator {β : Type} (l : Loop (List β)) (item : β) (close : Token.Kind) (problem : Problem) :
    Reader (Turn (List β))
  | [] => fail problem []
  | t :: rest =>
    if t.kind = .comma then .ok (.again l (item :: ·), rest)
    else if t.kind = close then .ok (.last [item], rest)
    else fail problem (t :: rest)

/-- One pass through a loop, with `P` for the parsers it calls. -/
def Loop.pass {α : Type} : Loop α → Reader (Turn α)
  | .operations level left, ts =>
    match ts with
    | [] => .ok (.done left, [])
    | t :: rest =>
      match level.op? t.kind with
      | none => .ok (.done left, t :: rest)
      | some op => do
        let (right, rest) ← P (.operand level) rest
        .ok (.again (.operations level (.binary t.position left op right)) id, rest)
  | .steps left, ts =>
    match ts with
    | [] => .ok (.done left, [])
    | t :: rest =>
      match stepOp? t.kind with
      | none => .ok (.done left, t :: rest)
      | some op => .ok (.again (.steps (.step t.position left op)) id, rest)
  | .calls callee, ts =>
    match ts with
    | [] => .ok (.done callee, [])
    | t :: rest =>
      if t.kind = .lparen then do
        let (args, rest) ← P (.items .rparen .argsNext) rest
        .ok (.again (.calls (.call callee.position callee args)) id, rest)
      else .ok (.done callee, t :: rest)
  | .items close problem, ts => do
    let (item, rest) ← P .expr ts
    separator (.items close problem) item close problem rest
  | .params, ts => do
    let (name, rest) ← plain (expect .ident .paramName ts)
    let (type, rest) ← P .optionalType rest
    separator .params ⟨name.text, type⟩ .rparen .paramsNext rest
  | .block, ts =>
    match ts with
    | [] => fail .blockClose []
    | t :: rest =>
      -- the brace that ends the loop is read with it, behind the last pass
      if t.kind = .rbrace then .ok (.done [], rest)
      else do
        let (s, rest) ← P .stmt (t :: rest)
        .ok (.again .block (s :: ·), rest)
  | .program, ts =>
    match ts with
    | [] => .ok (.done [], [])
    | t :: rest => do
      let (s, rest) ← P .stmt (t :: rest)
      .ok (.again .program (s :: ·), rest)

/-- What a loop does behind a pass. -/
def Turn.follow {α : Type} : Turn α → Reader α
  | .done a, rest => .ok (a, rest)
  | .last a, rest => .ok (a, rest)
  | .again l make, rest => do
    let (a, rest) ← P (.loop l) rest
    .ok (make a, rest)

/-- What a choice makes of the tokens behind its first block, with `P` for the parsers it calls. -/
def otherwise (p : Position) (condition : Expr) (yes : List Stmt) : Reader Stmt
  | t :: u :: rest =>
    if t.kind = .kwElse then
      if u.kind = .kwIf then do
        let (no, rest) ← P (.branch u) rest
        .ok (.branch p condition yes (some [no]), rest)
      else do
        let (no, rest) ← P .block (u :: rest)
        .ok (.branch p condition yes (some no), rest)
    else .ok (.branch p condition yes none, t :: u :: rest)
  | [t] =>
    if t.kind = .kwElse then fail .blockOpen []
    else .ok (.branch p condition yes none, [t])
  | [] => .ok (.branch p condition yes none, [])

/-- One parser, with `P` for the parsers it calls. -/
def Task.body {α : Type} : Task α → Reader α
  | .loop l, ts => do
    let (turn, rest) ← l.pass P ts
    turn.follow P rest
  | .expr, ts => do
    let (left, rest) ← P (.operation .equality) ts
    match rest with
    | [] => .ok (left, [])
    | t :: rest =>
      if t.kind = .assign then
        match left with
        | .name position x => do
          let (value, rest) ← P .expr rest
          .ok (.assign position x value, rest)
        | _ => fail .assignmentTarget (t :: rest)
      else .ok (left, t :: rest)
  | .operation level, ts => do
    let (left, rest) ← P (.operand level) ts
    P (.loop (.operations level left)) rest
  | .operand level, ts =>
    match level.next? with
    | some next => P (.operation next) ts
    | none => P .unary ts
  | .unary, ts =>
    match ts with
    | [] => fail .expression []
    | t :: rest =>
      match unaryOp? t.kind with
      | some op => do
        let (right, rest) ← P .unary rest
        .ok (.unary t.position op right, rest)
      | none => P .stepped (t :: rest)
  | .stepped, ts => do
    let (left, rest) ← P .call ts
    P (.loop (.steps left)) rest
  | .call, ts => do
    let (callee, rest) ← P .primary ts
    P (.loop (.calls callee)) rest
  | .items close problem, ts =>
    match ts with
    | [] => fail .expression []
    | t :: rest =>
      if t.kind = close then .ok ([], rest) else P (.loop (.items close problem)) (t :: rest)
  | .primary, ts =>
    match ts with
    | [] => fail .expression []
    | t :: rest =>
      match t.kind with
      | .int => do
        let e ← integer t
        .ok (e, rest)
      | .float => do
        let e ← double t
        .ok (e, rest)
      | .string => .ok (.string t.position t.text, rest)
      | .kwTrue => .ok (.bool t.position true, rest)
      | .kwFalse => .ok (.bool t.position false, rest)
      | .kwNull => .ok (.null t.position, rest)
      | .ident => .ok (.name t.position t.text, rest)
      | .lparen => do
        let (e, rest) ← P .expr rest
        let (_, rest) ← plain (expect .rparen .parenClose rest)
        .ok (e, rest)
      | .lbracket => do
        let (es, rest) ← P (.items .rbracket .itemsNext) rest
        .ok (.array t.position es, rest)
      | .illegal => fail (.illegal t.text) (t :: rest)
      | _ => fail .expression (t :: rest)
  | .typeName, ts => plain (Parse.typeName ts)
  | .optionalType, ts =>
    match ts with
    | [] => .ok (none, [])
    | t :: rest =>
      if t.kind = .colon then do
        let (found, rest) ← P .typeName rest
        .ok (some found, rest)
      else .ok (none, t :: rest)
  | .params, ts =>
    match ts with
    | [] => fail .paramName []
    | t :: rest => if t.kind = .rparen then .ok ([], rest) else P (.loop .params) (t :: rest)
  | .declaration start, ts => do
    let (name, rest) ← plain (expect .ident (.nameAfter start.text) ts)
    let (type, rest) ← P .optionalType rest
    let (_, rest) ← plain (expect .assign .equalsSign rest)
    let (value, rest) ← P .expr rest
    let (_, rest) ← plain (expect .semicolon .declarationEnd rest)
    .ok (.declare start.position (start.kind = .kwConst) name.text type value, rest)
  | .returned start, ts =>
    match ts with
    | [] => fail .expression []
    | t :: rest =>
      if t.kind = .semicolon then .ok (.ret start.position none, rest)
      else do
        let (value, rest) ← P .expr (t :: rest)
        let (_, rest) ← plain (expect .semicolon .returnEnd rest)
        .ok (.ret start.position (some value), rest)
  | .expression, ts =>
    match ts with
    | [] => fail .expression []
    | t :: rest => do
      let (value, rest) ← P .expr (t :: rest)
      let (_, rest) ← plain (expect .semicolon .expressionEnd rest)
      .ok (.expr t.position value, rest)
  | .stmt, ts =>
    match ts with
    | [] => fail .expression []
    | t :: rest =>
      match t.kind with
      | .kwLet | .kwConst => P (.declaration t) rest
      | .kwFn => P (.function t) rest
      | .kwReturn => P (.returned t) rest
      | .kwIf => P (.branch t) rest
      | .kwFor => P (.iteration t) rest
      | _ => P .expression (t :: rest)
  | .function start, ts => do
    let (name, rest) ← plain (expect .ident .functionName ts)
    let (_, rest) ← plain (expect .lparen .paramsOpen rest)
    let (ps, rest) ← P .params rest
    let (returns, rest) ← P .optionalType rest
    let (body, rest) ← P .block rest
    .ok (.function start.position name.text ps returns body, rest)
  | .branch start, ts => do
    let (condition, rest) ← P .expr ts
    let (yes, rest) ← P .block rest
    otherwise P start.position condition yes rest
  | .iteration start, ts => do
    let (cursor, rest) ← plain (expect .ident .cursorName ts)
    let (_, rest) ← plain (expect .kwIn .loopIn rest)
    let (range, rest) ← P .expr rest
    let (body, rest) ← P .block rest
    .ok (.loop start.position cursor.text range body, rest)
  | .block, ts => do
    let (_, rest) ← plain (expect .lbrace .blockOpen ts)
    P (.loop .block) rest

/-- The parsers with their calls carried out to the depth `n`; a call below that is left to `P`. -/
def unroll : Nat → {α : Type} → Task α → Reader α
  | 0, _, task => P task
  | n + 1, _, task => task.body (unroll n)

end Bodies

section Ranks

variable {α : Type}

/-- How many calls may follow one another behind a pass of a loop before a token is consumed. -/
def Loop.rank : Loop α → Nat
  | .operations _ _ | .steps _ | .calls _ | .params => 0
  | .items _ _ => 13
  | .block | .program => 15

/-- How many calls may follow one another behind a task before a token is consumed. -/
def Task.rank : Task α → Nat
  | .loop l => l.rank
  -- these read a token of their own before they call anything with all of their tokens
  | .primary | .typeName | .optionalType | .declaration _ | .function _ | .iteration _ | .block => 0
  | .params | .call => 1
  | .stepped => 2
  | .unary => 3
  -- an operand hands over to the operation of the next level, and that to its own operand
  | .operand level => 2 * level.rank + 4
  | .operation level => 2 * level.rank + 5
  | .expr => 12
  | .returned _ | .expression | .branch _ => 13
  | .items _ _ | .stmt => 14

theorem Task.rank_lt (task : Task α) : task.rank < 16 := by
  cases task with
  | loop l => cases l <;> simp [rank, Loop.rank]
  | operand level => cases level <;> decide
  | operation level => cases level <;> decide
  | _ => simp [rank]

/-- The loops that may read nothing: their condition is about the next token, and the token that
ends them is left. -/
def Loop.Idle : Loop α → Prop
  | .operations _ _ | .steps _ | .calls _ | .program => True
  | .items _ _ | .params | .block => False

/-- The tasks that may read nothing. -/
def Task.Idle : Task α → Prop
  | .loop l => l.Idle
  | .optionalType => True
  | _ => False

end Ranks

end TagScript.Parse
