import TagScript.Parse.Stmt

/-!
# Parsers Without Bounds

The reply of a parser carries a proof that tokens have been consumed, which the parser needs to
come to an end and nobody else does. `plain` forgets it. For each parser there is one equation that
says what its plain reply is in terms of the plain replies of the parsers it calls; nothing after
this module looks into a parser.
-/

namespace TagScript.Parse

variable {α β : Type} {m n : Nat}

/-- The reply of a parser: the tree and the tokens that are left. -/
def plain (x : Reply α n) : Except ParseError (α × List Token) :=
  x.map fun p => (p.tree, p.rest)

/-- A parser and what follows it. -/
theorem plain_bind {x : Reply α n} {f : Parsed α n → Reply β m}
    {g : α × List Token → Except ParseError (β × List Token)}
    (h : ∀ p, plain (f p) = g (p.tree, p.rest)) : plain (x >>= f) = plain x >>= g := by
  cases x with
  | error e => rfl
  | ok p => exact h p

/-- Where a parser and what follows it succeed, both do. -/
theorem bind_eq_ok {x : Except ParseError α} {f : α → Except ParseError β} {b : β} :
    x >>= f = .ok b ↔ ∃ a, x = .ok a ∧ f a = .ok b := by
  cases x with
  | error e =>
    refine iff_of_false (by rintro ⟨⟩) ?_
    rintro ⟨_, ⟨⟩, _⟩
  | ok a =>
    constructor
    · exact fun h => ⟨a, rfl, h⟩
    · rintro ⟨_, ⟨⟩, h⟩
      exact h

/-- What follows a reader that succeeds. -/
@[simp]
theorem ok_bind (a : α) (f : α → Except ParseError β) : (Except.ok a >>= f) = f a := rfl

/-- A token of the kind that is expected comes next, or the reader fails there. -/
theorem plain_expect (kind : Token.Kind) (problem : Problem) (ts : List Token) :
    plain (expect kind problem ts) =
      match ts with
      | t :: rest => if t.kind = kind then .ok (t, rest) else fail problem (t :: rest)
      | [] => fail problem [] := by
  cases ts with
  | nil => rfl
  | cons t rest =>
    rw [expect]
    dsimp only
    split <;> rfl

/-- A token of the expected kind is read. -/
theorem expect_of_kind {kind : Token.Kind} {t : Token} (h : t.kind = kind) (problem : Problem)
    (rest : List Token) : plain (expect kind problem (t :: rest)) = .ok (t, rest) := by
  rw [plain_expect]
  exact if_pos h

/-- Where a token is read, it is the first one and of the expected kind. -/
theorem expect_eq_ok {kind : Token.Kind} {problem : Problem} {ts rest : List Token} {t : Token}
    (h : plain (expect kind problem ts) = .ok (t, rest)) : t.kind = kind ∧ ts = t :: rest := by
  rw [plain_expect] at h
  split at h
  next u more =>
    split at h <;> cases h
    next hkind => exact ⟨hkind, rfl⟩
  next => cases h

section Expressions

variable (ts : List Token)

/-- The operand with the operators behind it, and the tokens that are left. -/
def plainSteps (left : Expr) (ts : List Token) : Expr × List Token :=
  ((steps left ts).tree, (steps left ts).rest)

/-- One more sign behind an operand, if a sign comes next. -/
theorem plainSteps_cons (left : Expr) (t : Token) :
    plainSteps left (t :: ts) =
      match stepOp? t.kind with
      | some op => plainSteps (.step t.position left op) ts
      | none => (left, t :: ts) := by
  unfold plainSteps
  rw [steps]
  cases stepOp? t.kind <;> rfl

/-- An expression is an operation of the loosest level. If the sign of an assignment comes next it
is the target of one, and it has to be a name. -/
theorem plain_expr :
    plain (expr ts) = (do
      let (left, rest) ← plain (operation .equality ts)
      match rest with
      | [] => .ok (left, [])
      | t :: rest =>
        if t.kind = .assign then
          match left with
          | .name position x => do
            let (value, rest) ← plain (expr rest)
            .ok (.assign position x value, rest)
          | _ => fail .assignmentTarget (t :: rest)
        else .ok (left, t :: rest)) := by
  rw [expr]
  -- the equation says nothing about the bounds, so they are dropped with the proofs in them
  refine plain_bind fun ⟨left, rest, h⟩ => ?_
  cases rest with
  | nil => rfl
  | cons t rest =>
    dsimp only
    split
    next =>
      cases left with
      | name position x => exact plain_bind fun _ => rfl
      | _ => rfl
    next => rfl

/-- An operation starts with an operand of its level. -/
theorem plain_operation (level : Level) :
    plain (operation level ts) = (do
      let (left, rest) ← plain (operand level ts)
      plain (operations level left rest)) := by
  rw [operation]
  refine plain_bind fun ⟨left, rest, h⟩ => ?_
  dsimp only
  cases operations level left rest <;> rfl

/-- As long as an operator of the level comes next, what has been read is its left operand. -/
theorem plain_operations (level : Level) (left : Expr) :
    plain (operations level left ts) =
      (match ts with
      | [] => .ok (left, [])
      | t :: rest =>
        match level.op? t.kind with
        | none => .ok (left, t :: rest)
        | some op => do
          let (right, rest) ← plain (operand level rest)
          plain (operations level (.binary t.position left op right) rest)) := by
  rw [operations.eq_def]
  cases ts with
  | nil => rfl
  | cons t rest =>
    dsimp only
    cases level.op? t.kind with
    | none => rfl
    | some op =>
      refine plain_bind fun ⟨right, rest', h⟩ => ?_
      dsimp only
      cases operations level (.binary t.position left op right) rest' <;> rfl

/-- The operands of a level are the operations of the next tighter one, and at last the unary ones.
-/
theorem plain_operand (level : Level) :
    plain (operand level ts) =
      match level.next? with
      | some next => plain (operation next ts)
      | none => plain (unary ts) := by
  rw [operand]
  cases level <;> rfl

/-- A sign in front of an operand, or a call with the signs behind it. -/
theorem plain_unary :
    plain (unary ts) =
      (match ts with
      | [] => fail .expression []
      | t :: rest =>
        match unaryOp? t.kind with
        | some op => do
          let (right, rest) ← plain (unary rest)
          .ok (.unary t.position op right, rest)
        | none => do
          let (left, rest) ← plain (call (t :: rest))
          .ok (plainSteps left rest)) := by
  rw [unary.eq_def]
  cases ts with
  | nil => rfl
  | cons t rest =>
    dsimp only
    cases unaryOp? t.kind with
    | none => exact plain_bind fun _ => rfl
    | some op => exact plain_bind fun _ => rfl

/-- What is called, and its argument lists. -/
theorem plain_call :
    plain (call ts) = (do
      let (callee, rest) ← plain (primary ts)
      plain (calls callee rest)) := by
  rw [call]
  refine plain_bind fun ⟨callee, rest, h⟩ => ?_
  dsimp only
  cases calls callee rest <;> rfl

/-- As long as a parenthesis comes next, what has been read is called. -/
theorem plain_calls (callee : Expr) :
    plain (calls callee ts) =
      (match ts with
      | [] => .ok (callee, [])
      | t :: rest =>
        if t.kind = .lparen then do
          let (args, rest) ← plain (items .rparen .argsNext rest)
          plain (calls (.call callee.position callee args) rest)
        else .ok (callee, t :: rest)) := by
  rw [calls.eq_def]
  cases ts with
  | nil => rfl
  | cons t rest =>
    dsimp only
    split
    next =>
      refine plain_bind fun ⟨args, rest', h⟩ => ?_
      dsimp only
      cases calls (.call callee.position callee args) rest' <;> rfl
    next => rfl

/-- No item at all, or one and the others. -/
theorem plain_items (close : Token.Kind) (problem : Problem) :
    plain (items close problem ts) =
      (match ts with
      | [] => fail .expression []
      | t :: rest =>
        if t.kind = close then .ok ([], rest)
        else plain (moreItems close problem (t :: rest))) := by
  rw [items.eq_def]
  cases ts with
  | nil => rfl
  | cons t rest =>
    dsimp only
    split <;> rfl

/-- An item is followed by a comma or by the end of the list. -/
theorem plain_moreItems (close : Token.Kind) (problem : Problem) :
    plain (moreItems close problem ts) = (do
      let (item, rest) ← plain (expr ts)
      match rest with
      | [] => fail problem []
      | t :: rest =>
        if t.kind = .comma then do
          let (more, rest) ← plain (moreItems close problem rest)
          .ok (item :: more, rest)
        else if t.kind = close then .ok ([item], rest)
        else fail problem (t :: rest)) := by
  rw [moreItems]
  refine plain_bind fun ⟨item, rest, h⟩ => ?_
  cases rest with
  | nil => rfl
  | cons t rest =>
    dsimp only
    split
    next => exact plain_bind fun _ => rfl
    next => split <;> rfl

/-- The next token tells which primary expression this is. -/
theorem plain_primary :
    plain (primary ts) =
      (match ts with
      | [] => fail .expression []
      | t :: rest =>
        match t.kind with
        | .int => do
          let e ← integer t
          .ok (e, rest)
        | .float => do
          let e ← double t
          .ok (e, rest)
        | .string => .ok (.string t.position t.text, rest)
        | .kwTrue => .ok (.bool t.position true, rest)
        | .kwFalse => .ok (.bool t.position false, rest)
        | .kwNull => .ok (.null t.position, rest)
        | .ident => .ok (.name t.position t.text, rest)
        | .lparen => do
          let (e, rest) ← plain (expr rest)
          let (_, rest) ← plain (expect .rparen .parenClose rest)
          .ok (e, rest)
        | .lbracket => do
          let (es, rest) ← plain (items .rbracket .itemsNext rest)
          .ok (.array t.position es, rest)
        | .illegal => fail (.illegal t.text) (t :: rest)
        | _ => fail .expression (t :: rest)) := by
  rw [primary.eq_def]
  cases ts with
  | nil => rfl
  | cons t rest =>
    dsimp only
    cases t.kind with
    | int => cases integer t <;> rfl
    | float => cases double t <;> rfl
    | lparen => exact plain_bind fun _ => plain_bind fun _ => rfl
    | lbracket => exact plain_bind fun _ => rfl
    | _ => rfl

end Expressions

section Statements

variable (start : Token) (ts : List Token)

/-- A type is a name that is known, or the word `fn`. -/
theorem plain_typeName :
    plain (typeName ts) =
      (match ts with
      | [] => fail .typeName []
      | t :: rest =>
        if t.kind = .ident ∨ t.kind = .kwNull ∨ t.kind = .kwFn then
          match TypeName.ofWord? t.text with
          | some found => .ok (found, rest)
          | none => fail (.unknownType t.text) (t :: rest)
        else fail .typeName (t :: rest)) := by
  cases ts with
  | nil => rfl
  | cons t rest =>
    rw [typeName]
    dsimp only
    split
    next => cases TypeName.ofWord? t.text <;> rfl
    next => rfl

/-- A type is declared where a colon comes next. -/
theorem plain_optionalType :
    plain (optionalType ts) =
      (match ts with
      | [] => .ok (none, [])
      | t :: rest =>
        if t.kind = .colon then do
          let (found, rest) ← plain (typeName rest)
          .ok (some found, rest)
        else .ok (none, t :: rest)) := by
  cases ts with
  | nil => rfl
  | cons t rest =>
    rw [optionalType.eq_def]
    dsimp only
    split
    next => exact plain_bind fun _ => rfl
    next => rfl

/-- A parameter is followed by a comma or by the end of the list. -/
theorem plain_moreParams :
    plain (moreParams ts) = (do
      let (name, rest) ← plain (expect .ident .paramName ts)
      let (type, rest) ← plain (optionalType rest)
      match rest with
      | [] => fail .paramsNext []
      | t :: rest =>
        if t.kind = .comma then do
          let (more, rest) ← plain (moreParams rest)
          .ok (⟨name.text, type⟩ :: more, rest)
        else if t.kind = .rparen then .ok ([⟨name.text, type⟩], rest)
        else fail .paramsNext (t :: rest)) := by
  rw [moreParams]
  refine plain_bind fun ⟨name, rest, _⟩ => plain_bind fun ⟨type, rest, h⟩ => ?_
  cases rest with
  | nil => rfl
  | cons t rest =>
    dsimp only
    split
    next => exact plain_bind fun _ => rfl
    next => split <;> rfl

/-- No parameter at all, or one and the others. -/
theorem plain_params :
    plain (params ts) =
      (match ts with
      | [] => fail .paramName []
      | t :: rest =>
        if t.kind = .rparen then .ok ([], rest) else plain (moreParams (t :: rest))) := by
  cases ts with
  | nil => rfl
  | cons t rest =>
    rw [params]
    dsimp only
    split <;> rfl

/-- A declaration, behind the word that starts it. -/
theorem plain_declaration :
    plain (declaration start ts) = (do
      let (name, rest) ← plain (expect .ident (.nameAfter start.text) ts)
      let (type, rest) ← plain (optionalType rest)
      let (_, rest) ← plain (expect .assign .equalsSign rest)
      let (value, rest) ← plain (expr rest)
      let (_, rest) ← plain (expect .semicolon .declarationEnd rest)
      .ok (.declare start.position (start.kind = .kwConst) name.text type value, rest)) := by
  rw [declaration]
  exact plain_bind fun _ => plain_bind fun _ => plain_bind fun _ => plain_bind fun _ =>
    plain_bind fun _ => rfl

/-- A return, behind the word that starts it, with a value or without. -/
theorem plain_returned :
    plain (returned start ts) =
      (match ts with
      | [] => fail .expression []
      | t :: rest =>
        if t.kind = .semicolon then .ok (.ret start.position none, rest)
        else do
          let (value, rest) ← plain (expr (t :: rest))
          let (_, rest) ← plain (expect .semicolon .returnEnd rest)
          .ok (.ret start.position (some value), rest)) := by
  cases ts with
  | nil => rfl
  | cons t rest =>
    rw [returned.eq_def]
    dsimp only
    split
    next => rfl
    next => exact plain_bind fun _ => plain_bind fun _ => rfl

/-- An expression as a statement, up to its semicolon. -/
theorem plain_expression :
    plain (expression ts) =
      (match ts with
      | [] => fail .expression []
      | t :: rest => do
        let (value, rest) ← plain (expr (t :: rest))
        let (_, rest) ← plain (expect .semicolon .expressionEnd rest)
        .ok (.expr t.position value, rest)) := by
  cases ts with
  | nil => rfl
  | cons t rest => exact plain_bind fun _ => plain_bind fun _ => rfl

/-- The next token tells which statement this is. -/
theorem plain_stmt :
    plain (stmt ts) =
      (match ts with
      | [] => fail .expression []
      | t :: rest =>
        match t.kind with
        | .kwLet | .kwConst => plain (declaration t rest)
        | .kwFn => plain (function t rest)
        | .kwReturn => plain (returned t rest)
        | .kwIf => plain (branch t rest)
        | .kwFor => plain (loop t rest)
        | _ => plain (expression (t :: rest))) := by
  rw [stmt.eq_def]
  cases ts with
  | nil => rfl
  | cons t rest =>
    dsimp only
    cases t.kind with
    | kwLet => cases declaration t rest <;> rfl
    | kwConst => cases declaration t rest <;> rfl
    | kwFn => cases function t rest <;> rfl
    | kwReturn => cases returned t rest <;> rfl
    | kwIf => cases branch t rest <;> rfl
    | kwFor => cases loop t rest <;> rfl
    | _ => rfl

/-- A function, behind the word that starts it. -/
theorem plain_function :
    plain (function start ts) = (do
      let (name, rest) ← plain (expect .ident .functionName ts)
      let (_, rest) ← plain (expect .lparen .paramsOpen rest)
      let (ps, rest) ← plain (params rest)
      let (returns, rest) ← plain (optionalType rest)
      let (body, rest) ← plain (block rest)
      .ok (.function start.position name.text ps returns body, rest)) := by
  rw [function]
  exact plain_bind fun _ => plain_bind fun _ => plain_bind fun _ => plain_bind fun _ =>
    plain_bind fun _ => rfl

/-- What a choice makes of the tokens behind its first block. -/
def plainOtherwise (p : Position) (condition : Expr) (yes : List Stmt) :
    List Token → Except ParseError (Stmt × List Token)
  | t :: u :: rest =>
    if t.kind = .kwElse then
      if u.kind = .kwIf then do
        let (no, rest) ← plain (branch u rest)
        .ok (.branch p condition yes (some [no]), rest)
      else do
        let (no, rest) ← plain (block (u :: rest))
        .ok (.branch p condition yes (some no), rest)
    else .ok (.branch p condition yes none, t :: u :: rest)
  | [t] =>
    if t.kind = .kwElse then fail .blockOpen []
    else .ok (.branch p condition yes none, [t])
  | [] => .ok (.branch p condition yes none, [])

/-- A choice, behind the word that starts it, with a second part or without. -/
theorem plain_branch :
    plain (branch start ts) = (do
      let (condition, rest) ← plain (expr ts)
      let (yes, rest) ← plain (block rest)
      plainOtherwise start.position condition yes rest) := by
  rw [branch]
  refine plain_bind fun ⟨condition, rest, _⟩ => plain_bind fun ⟨yes, rest, h⟩ => ?_
  match rest, h with
  | [], h => rfl
  | [t], h =>
    dsimp only [plainOtherwise]
    split <;> rfl
  | t :: u :: rest, h =>
    dsimp only [plainOtherwise]
    split
    next =>
      split
      next => exact plain_bind fun _ => rfl
      next => exact plain_bind fun _ => rfl
    next => rfl

/-- A loop, behind the word that starts it. -/
theorem plain_loop :
    plain (loop start ts) = (do
      let (cursor, rest) ← plain (expect .ident .cursorName ts)
      let (_, rest) ← plain (expect .kwIn .loopIn rest)
      let (range, rest) ← plain (expr rest)
      let (body, rest) ← plain (block rest)
      .ok (.loop start.position cursor.text range body, rest)) := by
  rw [loop]
  exact plain_bind fun _ => plain_bind fun _ => plain_bind fun _ => plain_bind fun _ => rfl

/-- A block, from its opening brace on. -/
theorem plain_block :
    plain (block ts) = (do
      let (_, rest) ← plain (expect .lbrace .blockOpen ts)
      plain (blockRest rest)) := by
  rw [block]
  refine plain_bind fun ⟨_, rest, h⟩ => ?_
  dsimp only
  cases blockRest rest <;> rfl

/-- Statements up to the brace that closes the block. -/
theorem plain_blockRest :
    plain (blockRest ts) =
      (match ts with
      | [] => fail .blockClose []
      | t :: rest =>
        if t.kind = .rbrace then .ok ([], rest)
        else do
          let (s, rest) ← plain (stmt (t :: rest))
          let (more, rest) ← plain (blockRest rest)
          .ok (s :: more, rest)) := by
  rw [blockRest.eq_def]
  cases ts with
  | nil => rfl
  | cons t rest =>
    dsimp only
    split
    next => rfl
    next => exact plain_bind fun _ => plain_bind fun _ => rfl

/-- Statements up to the end of the tokens. -/
theorem program_eq :
    program ts =
      (match ts with
      | [] => .ok []
      | t :: rest => do
        let (s, rest) ← plain (stmt (t :: rest))
        let more ← program rest
        .ok (s :: more)) := by
  rw [program.eq_def]
  cases ts with
  | nil => rfl
  | cons t rest =>
    dsimp only
    cases stmt (t :: rest) <;> rfl

end Statements

end TagScript.Parse
