import TagScript.Proofs.Grammar.Complete.Expr

/-!
# Every Derived Program Is Read

The parsers of statements reply with the tree of a derivation when they are given its tokens. A
choice without a second part must not be followed by `else`, a missing type not by a colon;
everything else that ends a statement is a token of its own. Every derivation of a program is read
(`Stmts.program_complete`).
-/

namespace TagScript.Grammar

open Parse (plain plainOtherwise)

/-- The tokens do not start with one of a kind. -/
def Lacks (kind : Token.Kind) : List Token → Prop
  | [] => True
  | t :: _ => t.kind ≠ kind

section Parameters

/-- Tokens that start with a terminal of one kind do not start with another kind. -/
theorem Terminal.lacks {kind other : Token.Kind} (t : Terminal kind) (h : kind ≠ other)
    (rest : List Token) : Lacks other (t.token :: rest) := by
  change t.token.kind ≠ other
  rw [t.kind_eq]
  exact h

/-- A declared type is read as it is derived, if no colon follows. -/
theorem DeclaredType.complete (d : DeclaredType) (rest : List Token) (h : Lacks .colon rest) :
    plain (Parse.optionalType (d.tokens ++ rest)) = .ok (d.type, rest) := by
  cases d with
  | none =>
    rw [tokens, List.nil_append, Parse.plain_optionalType]
    cases rest with
    | nil => rfl
    | cons t rest => exact if_neg h
  | some colon word =>
    have hword : plain (Parse.typeName (word.token :: rest)) = .ok (word.type, rest) := by
      rw [Parse.plain_typeName]
      simp only [if_pos word.kind, word.known]
    rw [tokens, List.cons_append, List.cons_append, List.nil_append, Parse.plain_optionalType]
    simp only [if_pos colon.kind_eq, hword, Parse.ok_bind]
    rfl

/-- Parameters are read as they are derived, up to the parenthesis that closes them. -/
theorem MoreParams.complete (d : MoreParams) {close : Token} (hclose : close.kind = .rparen)
    (rest : List Token) :
    plain (Parse.moreParams (d.tokens ++ close :: rest)) = .ok (d.trees, rest) := by
  induction d with
  | last p =>
    have htype := p.declared.complete (close :: rest) (by simp [Lacks, hclose])
    rw [tokens, trees, Param.tokens, List.cons_append, Parse.plain_moreParams]
    simp [Parse.expect_of_kind p.word.kind_eq, htype, hclose, Param.tree]
  | cons p comma more ih =>
    have htype := p.declared.complete (comma.token :: (more.tokens ++ close :: rest))
      (comma.lacks (by decide) _)
    rw [tokens, trees, Param.tokens, List.append_assoc, List.cons_append, List.cons_append,
      Parse.plain_moreParams]
    simp [Parse.expect_of_kind p.word.kind_eq, htype, comma.kind_eq, ih, Param.tree]

/-- A list of parameters is read as it is derived, be it empty. -/
theorem Params.complete (d : Params) {close : Token} (hclose : close.kind = .rparen)
    (rest : List Token) :
    plain (Parse.params (d.tokens ++ close :: rest)) = .ok (d.trees, rest) := by
  cases d with
  | none =>
    rw [tokens, trees, List.nil_append, Parse.plain_params]
    exact if_pos hclose
  | some items =>
    have hitems := items.complete hclose rest
    -- a parameter starts with its name, not with the parenthesis that closes the list
    obtain ⟨t, more, htokens, hident⟩ :
        ∃ t more, items.tokens = t :: more ∧ t.kind = .ident := by
      cases items with
      | last p => exact ⟨_, _, rfl, p.word.kind_eq⟩
      | cons p comma more => exact ⟨_, _, rfl, p.word.kind_eq⟩
    rw [tokens, trees]
    rw [htokens, List.cons_append] at hitems ⊢
    rw [Parse.plain_params]
    simp only [hident, hitems]
    rfl

end Parameters

/-- Whether a kind of token starts a statement. -/
def startsStmt : Token.Kind → Bool
  | .kwLet | .kwConst | .kwFn | .kwReturn | .kwIf | .kwFor => true
  | kind => startsExpr kind

/-- What starts an expression starts a statement. -/
theorem startsStmt_of_startsExpr {kind : Token.Kind} (h : startsExpr kind = true) :
    startsStmt kind = true := by
  unfold startsStmt
  split
  iterate 6 next => rfl
  next => exact h

/-- The first token of a statement is one of the kinds that start a statement. -/
theorem Stmt.starts (d : Stmt) :
    ∃ t rest, d.tokens = t :: rest ∧ startsStmt t.kind = true := by
  cases d with
  | letDecl keyword => exact ⟨_, _, rfl, by rw [keyword.kind_eq]; rfl⟩
  | constDecl keyword => exact ⟨_, _, rfl, by rw [keyword.kind_eq]; rfl⟩
  | function keyword => exact ⟨_, _, rfl, by rw [keyword.kind_eq]; rfl⟩
  | ret keyword => exact ⟨_, _, rfl, by rw [keyword.kind_eq]; rfl⟩
  | retValue keyword => exact ⟨_, _, rfl, by rw [keyword.kind_eq]; rfl⟩
  | branch b =>
    obtain ⟨keyword, condition, yes, no⟩ := b
    exact ⟨_, _, rfl, by rw [keyword.kind_eq]; rfl⟩
  | loop keyword => exact ⟨_, _, rfl, by rw [keyword.kind_eq]; rfl⟩
  | expr value stop =>
    obtain ⟨t, rest, htokens, hstarts⟩ := value.starts
    refine ⟨t, rest ++ [stop.token], by rw [tokens, htokens]; rfl, ?_⟩
    exact startsStmt_of_startsExpr hstarts

/-- A statement that starts like an expression is read as one. -/
theorem stmt_of_expression {t : Token} (h : startsExpr t.kind = true) (rest : List Token) :
    plain (Parse.stmt (t :: rest)) = plain (Parse.expression (t :: rest)) := by
  rw [Parse.plain_stmt]
  dsimp only
  -- the six words that start another statement start no expression
  split
  next hk => rw [hk] at h; cases h
  next hk => rw [hk] at h; cases h
  next hk => rw [hk] at h; cases h
  next hk => rw [hk] at h; cases h
  next hk => rw [hk] at h; cases h
  next hk => rw [hk] at h; cases h
  next => rfl

/-- A statement that starts with `if` is read as a choice. -/
theorem stmt_of_branch {t : Token} (h : t.kind = .kwIf) (rest : List Token) :
    plain (Parse.stmt (t :: rest)) = plain (Parse.branch t rest) := by
  rw [Parse.plain_stmt]
  simp only [h]

section Phrases

variable (start : Token) (value : Expr) (stop : Terminal .semicolon) (rest : List Token)

/-- An expression is read up to its semicolon. -/
theorem Expr.complete_stop :
    plain (Parse.expr (value.tokens ++ stop.token :: rest)) =
      .ok (value.tree, stop.token :: rest) :=
  value.complete _ (stop.stops (by decide) rest)

/-- What follows the first word of a declaration is read as the declaration. -/
theorem declaration_complete (name : Terminal .ident) (declared : DeclaredType)
    (sign : Terminal .assign) :
    plain (Parse.declaration start (name.token :: (declared.tokens ++
      sign.token :: (value.tokens ++ stop.token :: rest)))) =
      .ok (.declare start.position (start.kind = .kwConst) name.token.text declared.type
        value.tree, rest) := by
  have htype := declared.complete (sign.token :: (value.tokens ++ stop.token :: rest))
    (sign.lacks (by decide) _)
  have hvalue := value.complete_stop stop rest
  rw [Parse.plain_declaration]
  simp only [Parse.expect_of_kind name.kind_eq, htype, Parse.expect_of_kind sign.kind_eq, hvalue,
    Parse.expect_of_kind stop.kind_eq, Parse.ok_bind]

/-- What follows the word `return` is read as the value. -/
theorem returned_complete :
    plain (Parse.returned start (value.tokens ++ stop.token :: rest)) =
      .ok (.ret start.position (some value.tree), rest) := by
  have hvalue := value.complete_stop stop rest
  obtain ⟨t, more, htokens, hstarts⟩ := value.starts
  -- no expression starts with a semicolon
  have hne : t.kind ≠ .semicolon := kind_ne hstarts rfl
  rw [htokens, List.cons_append] at hvalue ⊢
  rw [Parse.plain_returned]
  simp only [if_neg hne, hvalue, Parse.expect_of_kind stop.kind_eq, Parse.ok_bind]

/-- An expression and a semicolon are read as a statement. -/
theorem expression_complete :
    plain (Parse.stmt (value.tokens ++ stop.token :: rest)) =
      .ok (.expr (startOf value.tokens) value.tree, rest) := by
  have hvalue := value.complete_stop stop rest
  obtain ⟨t, more, htokens, hstarts⟩ := value.starts
  rw [htokens, List.cons_append] at hvalue ⊢
  rw [stmt_of_expression hstarts, Parse.plain_expression]
  simp only [hvalue, Parse.expect_of_kind stop.kind_eq, Parse.ok_bind]
  rfl

end Phrases

/-- A choice starts with `if`. -/
theorem Branch.first (d : Branch) : ∃ t more, d.tokens = t :: more ∧ t.kind = .kwIf := by
  obtain ⟨keyword, condition, yes, no⟩ := d
  exact ⟨keyword.token, condition.tokens ++ yes.tokens ++ no.tokens, rfl, keyword.kind_eq⟩

/-- A block starts with a brace. -/
theorem Block.first (d : Block) : ∃ t more, d.tokens = t :: more ∧ t.kind = .lbrace := by
  obtain ⟨left, body, right⟩ := d
  exact ⟨left.token, body.tokens ++ [right.token], rfl, left.kind_eq⟩

/-- The brace of a block ends the expression in front of it. -/
theorem Block.stops (d : Block) (rest : List Token) : Stops 6 (d.tokens ++ rest) := by
  obtain ⟨t, more, htokens, hk⟩ := d.first
  simp [htokens, Stops, hk, reach]

/-- The brace of a block is no colon. -/
theorem Block.lacks (d : Block) (rest : List Token) : Lacks .colon (d.tokens ++ rest) := by
  obtain ⟨t, more, htokens, hk⟩ := d.first
  simp [htokens, Lacks, hk]

/-- No statement starts with `else`. -/
theorem Stmts.lacks (d : Stmts) {rest : List Token} (h : Lacks .kwElse rest) :
    Lacks .kwElse (d.tokens ++ rest) := by
  cases d with
  | nil => exact h
  | cons s more =>
    obtain ⟨t, ts, htokens, hstarts⟩ := s.starts
    rw [tokens, htokens]
    exact kind_ne hstarts rfl

mutual

/-- The tokens of a statement are read as its tree. -/
theorem Stmt.complete :
    (d : Stmt) → (rest : List Token) → Lacks .kwElse rest →
      plain (Parse.stmt (d.tokens ++ rest)) = .ok (d.tree, rest)
  | .letDecl keyword name declared sign value stop, rest, _ => by
    have htokens : (Stmt.letDecl keyword name declared sign value stop).tokens ++ rest =
        keyword.token :: name.token :: (declared.tokens ++
          sign.token :: (value.tokens ++ stop.token :: rest)) := by simp [Stmt.tokens]
    rw [htokens, Parse.plain_stmt]
    simp only [keyword.kind_eq, declaration_complete]
    simp [Stmt.tree]
  | .constDecl keyword name declared sign value stop, rest, _ => by
    have htokens : (Stmt.constDecl keyword name declared sign value stop).tokens ++ rest =
        keyword.token :: name.token :: (declared.tokens ++
          sign.token :: (value.tokens ++ stop.token :: rest)) := by simp [Stmt.tokens]
    rw [htokens, Parse.plain_stmt]
    simp only [keyword.kind_eq, declaration_complete]
    simp [Stmt.tree]
  | .function keyword name left params right declared body, rest, _ => by
    have htokens :
        (Stmt.function keyword name left params right declared body).tokens ++ rest =
          keyword.token :: name.token :: left.token :: (params.tokens ++
            right.token :: (declared.tokens ++ (body.tokens ++ rest))) := by simp [Stmt.tokens]
    -- each part is read up to the token behind it, which goes on with none of them
    have hparams := params.complete right.kind_eq (declared.tokens ++ (body.tokens ++ rest))
    have htype := declared.complete (body.tokens ++ rest) (body.lacks rest)
    have hbody := Block.complete body rest
    rw [htokens, Stmt.tree, Parse.plain_stmt]
    simp only [keyword.kind_eq]
    rw [Parse.plain_function]
    simp only [Parse.expect_of_kind name.kind_eq, Parse.expect_of_kind left.kind_eq, hparams,
      htype, hbody, Parse.ok_bind]
  | .ret keyword stop, rest, _ => by
    rw [Stmt.tokens, Stmt.tree, List.cons_append, List.cons_append, List.nil_append,
      Parse.plain_stmt]
    simp only [keyword.kind_eq]
    rw [Parse.plain_returned]
    exact if_pos stop.kind_eq
  | .retValue keyword value stop, rest, _ => by
    rw [Stmt.tokens, Stmt.tree, List.cons_append, List.cons_append, List.append_assoc,
      List.cons_append, List.nil_append, Parse.plain_stmt]
    simp only [keyword.kind_eq, returned_complete]
  | .branch b, rest, h => by
    rw [Stmt.tokens, Stmt.tree]
    exact Branch.complete b rest h
  | .loop keyword cursor word range body, rest, _ => by
    have hrange := range.complete (body.tokens ++ rest) (body.stops rest)
    have hbody := Block.complete body rest
    rw [Stmt.tokens, Stmt.tree, List.cons_append, List.cons_append, List.cons_append,
      List.cons_append, List.cons_append, List.cons_append, List.append_assoc, Parse.plain_stmt]
    simp only [keyword.kind_eq]
    rw [Parse.plain_loop]
    simp only [Parse.expect_of_kind cursor.kind_eq, Parse.expect_of_kind word.kind_eq, hrange,
      hbody, Parse.ok_bind]
  | .expr value stop, rest, _ => by
    rw [Stmt.tokens, Stmt.tree, List.append_assoc, List.cons_append, List.nil_append]
    exact expression_complete value stop rest

/-- The tokens of a choice are read as its tree. -/
theorem Branch.complete :
    (d : Branch) → (rest : List Token) → Lacks .kwElse rest →
      plain (Parse.stmt (d.tokens ++ rest)) = .ok (d.tree, rest)
  | .mk keyword condition yes no, rest, h => by
    have hcondition := condition.complete (yes.tokens ++ (no.tokens ++ rest)) (yes.stops _)
    have hyes := Block.complete yes (no.tokens ++ rest)
    rw [Branch.tokens, Branch.tree, List.cons_append, List.cons_append, List.cons_append,
      List.append_assoc, List.append_assoc, stmt_of_branch keyword.kind_eq, Parse.plain_branch]
    simp only [hcondition, hyes, Parse.ok_bind]
    exact Otherwise.complete no keyword.token.position condition.tree yes.trees rest h

/-- The tokens of the second part of a choice are read as its statements. -/
theorem Otherwise.complete :
    (d : Otherwise) → (p : Position) → (condition : TagScript.Expr) →
      (yes : List TagScript.Stmt) → (rest : List Token) → Lacks .kwElse rest →
      plainOtherwise p condition yes (d.tokens ++ rest) =
        .ok (.branch p condition yes d.trees, rest)
  | .none, p, condition, yes, rest, h => by
    rw [Otherwise.tokens, Otherwise.trees, List.nil_append]
    -- the parser looks at two tokens where there are two
    match rest, h with
    | [], _ => rfl
    | [t], h => exact if_neg h
    | t :: u :: rest, h => exact if_neg h
  | .block keyword no, p, condition, yes, rest, _ => by
    have hno := Block.complete no rest
    obtain ⟨u, more, htokens, hu⟩ := no.first
    rw [Otherwise.tokens, Otherwise.trees, List.cons_append]
    rw [htokens, List.cons_append] at hno ⊢
    -- the token behind `else` tells a block from a choice
    have hne : u.kind ≠ .kwIf := by simp [hu]
    simp only [plainOtherwise, if_pos keyword.kind_eq, if_neg hne, hno, Parse.ok_bind]
  | .branch keyword no, p, condition, yes, rest, h => by
    have hno := Branch.complete no rest h
    obtain ⟨u, more, htokens, hu⟩ := no.first
    rw [Otherwise.tokens, Otherwise.trees, List.cons_append]
    rw [htokens, List.cons_append, stmt_of_branch hu] at hno
    rw [htokens, List.cons_append]
    simp only [plainOtherwise, if_pos keyword.kind_eq, if_pos hu, hno, Parse.ok_bind]

/-- The tokens of a block are read as its statements. -/
theorem Block.complete :
    (d : Block) → (rest : List Token) →
      plain (Parse.block (d.tokens ++ rest)) = .ok (d.trees, rest)
  | .mk left body right, rest => by
    have hbody := Stmts.complete body right rest
    rw [Block.tokens, Block.trees, List.cons_append, List.cons_append, List.append_assoc,
      List.cons_append, List.nil_append, Parse.plain_block]
    simp only [Parse.expect_of_kind left.kind_eq, Parse.ok_bind, hbody]

/-- The tokens of some statements and a closing brace are read as the trees. -/
theorem Stmts.complete :
    (d : Stmts) → (close : Terminal .rbrace) → (rest : List Token) →
      plain (Parse.blockRest (d.tokens ++ close.token :: rest)) = .ok (d.trees, rest)
  | .nil, close, rest => by
    rw [Stmts.tokens, Stmts.trees, List.nil_append, Parse.plain_blockRest]
    exact if_pos close.kind_eq
  | .cons s more, close, rest => by
    have hlacks : Lacks .kwElse (more.tokens ++ close.token :: rest) :=
      more.lacks (close.lacks (by decide) rest)
    have hs := Stmt.complete s _ hlacks
    have hmore := Stmts.complete more close rest
    obtain ⟨t, ts, htokens, hstarts⟩ := s.starts
    -- no statement starts with a closing brace
    have hne : t.kind ≠ .rbrace := kind_ne hstarts rfl
    rw [Stmts.tokens, Stmts.trees, List.append_assoc]
    rw [htokens, List.cons_append] at hs ⊢
    rw [Parse.plain_blockRest]
    simp only [if_neg hne, hs, hmore, Parse.ok_bind]

end

/-- The tokens of a program are read as its statements. -/
theorem Stmts.program_complete : (d : Stmts) → Parse.program d.tokens = .ok d.trees
  | .nil => by
    rw [Stmts.tokens, Stmts.trees, Parse.program_eq]
  | .cons s more => by
    -- behind the last statement of a program there is nothing, in particular no `else`
    have hlacks : Lacks .kwElse (more.tokens ++ []) := more.lacks trivial
    rw [List.append_nil] at hlacks
    have hs := s.complete more.tokens hlacks
    have hmore := Stmts.program_complete more
    obtain ⟨t, ts, htokens, -⟩ := s.starts
    rw [Stmts.tokens, Stmts.trees]
    rw [htokens, List.cons_append] at hs ⊢
    rw [Parse.program_eq]
    simp only [hs, hmore, Parse.ok_bind]

end TagScript.Grammar
