import TagScript.Proofs.Grammar.Pinpoints.Expr
import TagScript.Proofs.Grammar.Complete.Stmt

/-!
# Where Reading a Statement Fails

Each parser of statements fails at the first token that no statement has there. Most of them are a
row of phrases, and the proof is the row of their proofs. Statements hold blocks, which hold
statements; what is known of the statements of up to `n` tokens gives the blocks of up to `n`
tokens, and these the statements of one token more, which is their first word (`stmt_precise`).
-/

namespace TagScript.Grammar

open Parse (Ahead Completes Pinpoints Precise Reader ahead_cons ahead_nil anyKind fail plain
  plainOtherwise)

variable {n : Nat} {first follow : Token.Kind → Prop}

/-- A single token is read or refused by itself. -/
theorem expect_precise (kind : Token.Kind) (problem : Parse.Problem) (h : first kind) :
    Precise n first follow fun ts => plain (Parse.expect kind problem ts) :=
  ⟨completes_expect kind problem h, fun ts _ => expect_pinpoints kind problem h ts⟩

/-- Expressions are pinpointed among any number of tokens. -/
theorem expr_precise : Precise n anyKind afterExpr fun ts => plain (Parse.expr ts) :=
  ⟨completes_expr, fun ts _ => expr_pinpoints ts⟩

section Parameters

/-- The kinds of tokens that go on with no type. -/
def afterType (kind : Token.Kind) : Prop := kind ≠ .colon

instance : DecidablePred afterType := fun kind => inferInstanceAs (Decidable (kind ≠ .colon))

/-- A type is completed by the name of one. -/
theorem completes_typeName : Completes anyKind follow fun ts => plain (Parse.typeName ts) := by
  refine .token (a := .int) (someToken .ident) trivial fun k _ => ?_
  have hint : TypeName.ofWord? "int" = some .int := by decide +kernel
  rw [Parse.plain_typeName]
  simp only [someToken, hint, true_or, if_true]

/-- A token that is no type is refused itself. -/
theorem typeName_pinpoints (ts : List Token) :
    Pinpoints anyKind follow (fun ts => plain (Parse.typeName ts)) ts := by
  cases ts with
  | nil => exact .fail_nil rfl completes_typeName
  | cons t ts =>
    by_cases ht : t.kind = .ident ∨ t.kind = .kwNull ∨ t.kind = .kwFn
    · cases hword : TypeName.ofWord? t.text with
      | some found =>
        refine .token (a := found) fun k => ?_
        rw [Parse.plain_typeName]
        simp only [if_pos ht, hword]
      | none =>
        refine .fail_cons (e := ⟨.unknownType t.text, some t⟩) rfl (fun k => ?_) completes_typeName
        rw [Parse.plain_typeName]
        simp only [if_pos ht, hword]
        rfl
    · refine .fail_cons (e := ⟨.typeName, some t⟩) rfl (fun k => ?_) completes_typeName
      rw [Parse.plain_typeName]
      exact if_neg ht

/-- Where no colon comes next, no type is declared. -/
theorem optionalType_absent {k : List Token} (h : Ahead afterType k) :
    plain (Parse.optionalType k) = .ok (none, k) := by
  rw [Parse.plain_optionalType]
  cases k with
  | nil => rfl
  | cons t k => exact if_neg (ahead_cons.mp h)

/-- A declared type may be missing. -/
theorem completes_optionalType :
    Completes afterType afterType fun ts => plain (Parse.optionalType ts) :=
  .nil fun _ => optionalType_absent

/-- A declared type is refused behind its colon. -/
theorem optionalType_pinpoints (ts : List Token) :
    Pinpoints afterType afterType (fun ts => plain (Parse.optionalType ts)) ts := by
  refine .optional afterType (fun _ => optionalType_absent) (fun _ h => h) fun t rest _ ht => ?_
  have hread (k : List Token) : plain (Parse.optionalType (t :: k)) =
      (plain (Parse.typeName k) >>= fun found => .ok (some found.1, found.2)) := by
    rw [Parse.plain_optionalType]
    exact if_pos (Decidable.not_not.mp ht)
  exact .cons hread (.map (typeName_pinpoints rest) fun _ _ => rfl)

theorem optionalType_precise :
    Precise n afterType afterType fun ts => plain (Parse.optionalType ts) :=
  ⟨completes_optionalType, fun ts _ => optionalType_pinpoints ts⟩

/-- Parameters are refused at the first token with which no list of parameters goes on. -/
theorem moreParams_pinpoints (ts : List Token) :
    Pinpoints anyKind follow (fun ts => plain (Parse.moreParams ts)) ts := by
  have hends (p : TagScript.Param) : Completes afterType follow
      (separated p .rparen .paramsNext fun rest => plain (Parse.moreParams rest)) :=
    completes_separated p .paramsNext _ (by decide) (by decide)
  refine .congr (.bind (expect_pinpoints .ident .paramName trivial ts)
    (fun name => completes_optionalType.bind fun type => hends ⟨name.text, type⟩)
    fun name rest hname => .bind (optionalType_pinpoints rest)
      (fun type => hends ⟨name.text, type⟩) fun type more htype => ?_) Parse.plain_moreParams
  have hlt := rest_lt hname
  have hle := rest_lt htype
  have hclose : afterType .rparen := by decide
  refine separated_pinpoints (⟨name.text, type⟩ : TagScript.Param) .paramsNext hclose (by decide)
    more fun t others hmore => ?_
  exact moreParams_pinpoints others
termination_by ts.length
decreasing_by
  rw [hmore, List.length_cons] at hle
  omega

/-- A list of parameters is completed by its closing parenthesis. -/
theorem completes_params : Completes anyKind follow fun ts => plain (Parse.params ts) := by
  refine .token (a := []) (someToken .rparen) trivial fun k _ => ?_
  rw [Parse.plain_params]
  exact if_pos rfl

/-- There may be no parameter at all. -/
theorem params_pinpoints (ts : List Token) :
    Pinpoints anyKind follow (fun ts => plain (Parse.params ts)) ts := by
  cases ts with
  | nil => exact .fail_nil (Parse.plain_params []) completes_params
  | cons t ts =>
    by_cases ht : t.kind = .rparen
    · refine .token (a := []) fun k => ?_
      rw [Parse.plain_params]
      exact if_pos ht
    · refine (moreParams_pinpoints (t :: ts)).peek (fun k => ?_) completes_params
        fun _ _ h => rest_lt h
      rw [Parse.plain_params]
      exact if_neg ht

theorem params_precise : Precise n anyKind follow fun ts => plain (Parse.params ts) :=
  ⟨completes_params, fun ts _ => params_pinpoints ts⟩

end Parameters

section Statements

/-- A declaration is refused at the first of its parts that is missing. -/
theorem declaration_precise (start : Token) :
    Precise n anyKind follow fun ts => plain (Parse.declaration start ts) := by
  refine .congr ?_ (Parse.plain_declaration start)
  exact (expect_precise .ident _ trivial).bind fun name =>
    optionalType_precise.bind fun type =>
    (expect_precise .assign _ (by decide)).bind fun _ =>
    expr_precise.bind fun value =>
    (expect_precise .semicolon _ (by decide)).map fun _ _ => rfl

/-- A value and the semicolon behind it. -/
theorem closed_precise (problem : Parse.Problem) (tree : TagScript.Expr → TagScript.Stmt) :
    Precise n anyKind follow (fun ts => do
      let (value, rest) ← plain (Parse.expr ts)
      let (_, rest) ← plain (Parse.expect .semicolon problem rest)
      .ok (tree value, rest)) :=
  expr_precise.bind fun _ => (expect_precise .semicolon problem (by decide)).map fun _ _ => rfl

/-- A return is completed by a semicolon. -/
theorem completes_returned (start : Token) :
    Completes anyKind follow fun ts => plain (Parse.returned start ts) := by
  refine .token (a := .ret start.position none) (someToken .semicolon) trivial fun k _ => ?_
  rw [Parse.plain_returned]
  exact if_pos rfl

/-- A returned value is refused inside of it, or where its semicolon is missing. -/
theorem returned_pinpoints (start : Token) (ts : List Token) :
    Pinpoints anyKind follow (fun ts => plain (Parse.returned start ts)) ts := by
  cases ts with
  | nil => exact .fail_nil (Parse.plain_returned start []) (completes_returned start)
  | cons t ts =>
    by_cases ht : t.kind = .semicolon
    · refine .token (a := .ret start.position none) fun k => ?_
      rw [Parse.plain_returned]
      exact if_pos ht
    · have hread (k : List Token) : plain (Parse.returned start (t :: k)) = (do
          let (value, rest) ← plain (Parse.expr (t :: k))
          let (_, rest) ← plain (Parse.expect .semicolon .returnEnd rest)
          .ok (.ret start.position (some value), rest)) := by
        rw [Parse.plain_returned]
        exact if_neg ht
      have hvalue : Precise (t :: ts).length anyKind follow _ :=
        closed_precise .returnEnd fun value => .ret start.position (some value)
      refine (hvalue.pinpoints (t :: ts) (Nat.le_refl _)).peek hread (completes_returned start)
        fun _ _ h => ?_
      exact rest_lt ((hread ts).trans h)

/-- The kinds of tokens that go on with no statement. -/
def afterStmt (kind : Token.Kind) : Prop := kind ≠ .kwElse

instance : DecidablePred afterStmt := fun kind => inferInstanceAs (Decidable (kind ≠ .kwElse))

/-- A statement is completed by `null` and a semicolon. -/
theorem completes_stmt : Completes afterStmt follow fun ts => plain (Parse.stmt ts) := by
  refine ⟨[someToken .kwNull, someToken .semicolon], _, fun k _ =>
    ⟨expression_complete nullExpr ⟨someToken .semicolon, rfl⟩ k, ?_⟩⟩
  exact ahead_cons.mpr (by decide)

/-- A block is completed by its closing brace. -/
theorem completes_blockRest (h : first .rbrace) :
    Completes first follow fun ts => plain (Parse.blockRest ts) := by
  refine .token (a := []) (someToken .rbrace) h fun k _ => ?_
  rw [Parse.plain_blockRest]
  exact if_pos rfl

/-- What is read behind `else`: another choice or a block. -/
def elseBody : Reader (List TagScript.Stmt)
  | [] => fail .blockOpen []
  | t :: rest =>
    if t.kind = .kwIf then do
      let (no, rest) ← plain (Parse.stmt (t :: rest))
      .ok ([no], rest)
    else plain (Parse.block (t :: rest))

/-- Behind the word `else`, the second part of the choice is read. -/
theorem otherwise_of_else {t : Token} (h : t.kind = .kwElse) (p : Position)
    (condition : TagScript.Expr) (yes : List TagScript.Stmt) (k : List Token) :
    plainOtherwise p condition yes (t :: k) = (do
      let (no, rest) ← elseBody k
      .ok (.branch p condition yes (some no), rest)) := by
  cases k with
  | nil => exact if_pos h
  | cons u k =>
    refine (if_pos h).trans ?_
    by_cases hu : u.kind = .kwIf
    · rw [elseBody, if_pos hu, if_pos hu, stmt_of_branch hu]
      cases plain (Parse.branch u k) <;> rfl
    · rw [elseBody, if_neg hu, if_neg hu]

/-- The second part of a choice is completed by an empty block. -/
theorem completes_elseBody : Completes anyKind follow elseBody := by
  have hblock (k : List Token) : elseBody (someToken .lbrace :: k) = plain (Parse.blockRest k) := by
    have hopen : plain (Parse.expect .lbrace .blockOpen (someToken .lbrace :: k)) = _ :=
      Parse.expect_of_kind rfl .blockOpen k
    rw [elseBody, if_neg (by decide), Parse.plain_block, hopen, Parse.ok_bind]
  have hrest : Completes anyKind follow fun ts => plain (Parse.blockRest ts) :=
    completes_blockRest trivial
  exact .cons (someToken .lbrace) trivial hblock hrest

section Blocks

variable (hstmt : Precise n afterStmt afterStmt fun ts => plain (Parse.stmt ts))
include hstmt

/-- A block is refused inside one of its statements, by induction on the tokens that are left, or at
their end. -/
theorem blockRest_pinpoints {first : Token.Kind → Prop} (h : first .rbrace) (ts : List Token)
    (hts : ts.length ≤ n) :
    Pinpoints first follow (fun ts => plain (Parse.blockRest ts)) ts := by
  cases ts with
  | nil => exact .fail_nil (Parse.plain_blockRest []) (completes_blockRest h)
  | cons t ts =>
    by_cases ht : t.kind = .rbrace
    · refine .token (a := []) fun k => ?_
      rw [Parse.plain_blockRest]
      exact if_pos ht
    · have hread (k : List Token) : plain (Parse.blockRest (t :: k)) = (do
          let (s, rest) ← plain (Parse.stmt (t :: k))
          let (more, rest) ← plain (Parse.blockRest rest)
          .ok (s :: more, rest)) := by
        rw [Parse.plain_blockRest]
        exact if_neg ht
      refine .peek (.bind (hstmt.pinpoints (t :: ts) hts) (fun s => ?_) fun s rest hs => ?_) hread
        (completes_blockRest h) fun _ _ h => rest_lt ((hread ts).trans h)
      · exact (completes_blockRest (by decide)).map fun _ _ => rfl
      · have hlt := rest_lt hs
        exact (blockRest_pinpoints (by decide) rest (by omega)).map fun _ _ => rfl
termination_by ts.length

/-- A block is refused at its opening brace or behind it. -/
theorem block_precise (h : first .lbrace) :
    Precise n first follow fun ts => plain (Parse.block ts) := by
  have hrest : Precise n anyKind follow fun ts => plain (Parse.blockRest ts) :=
    ⟨completes_blockRest trivial, blockRest_pinpoints hstmt trivial⟩
  exact .congr ((expect_precise .lbrace .blockOpen h).bind fun _ => hrest) Parse.plain_block

/-- A function is refused at the first of its parts that is missing. -/
theorem function_precise (start : Token) :
    Precise n anyKind follow fun ts => plain (Parse.function start ts) := by
  refine .congr ?_ (Parse.plain_function start)
  exact (expect_precise .ident _ trivial).bind fun name =>
    (expect_precise .lparen _ (Parse.anyKind_all .lparen)).bind fun _ =>
    params_precise.bind fun ps =>
    optionalType_precise.bind fun returns =>
    (block_precise hstmt (by decide)).map fun _ _ => rfl

/-- A loop is refused at the first of its parts that is missing. -/
theorem loop_precise (start : Token) :
    Precise n anyKind follow fun ts => plain (Parse.loop start ts) := by
  refine .congr ?_ (Parse.plain_loop start)
  exact (expect_precise .ident _ trivial).bind fun cursor =>
    (expect_precise .kwIn _ (Parse.anyKind_all .kwIn)).bind fun _ =>
    expr_precise.bind fun range =>
    (block_precise hstmt (by decide)).map fun _ _ => rfl

/-- The second part of a choice is a block or another choice. -/
theorem elseBody_pinpoints (ts : List Token) (hts : ts.length ≤ n) :
    Pinpoints anyKind afterStmt elseBody ts := by
  cases ts with
  | nil => exact .fail_nil rfl completes_elseBody
  | cons t ts =>
    by_cases ht : t.kind = .kwIf
    · have hchoice : Pinpoints afterStmt afterStmt (fun ts => do
          let (no, rest) ← plain (Parse.stmt ts)
          .ok ([no], rest)) (t :: ts) := (hstmt.pinpoints (t :: ts) hts).map fun _ _ => rfl
      refine hchoice.peek (fun _ => if_pos ht) completes_elseBody fun _ _ h => ?_
      obtain ⟨⟨no, more⟩, hno, h⟩ := Parse.bind_eq_ok.mp h
      cases h
      exact rest_lt hno
    · have hblock : Precise n anyKind afterStmt fun ts => plain (Parse.block ts) :=
        block_precise hstmt trivial
      exact (hblock.pinpoints (t :: ts) hts).peek (fun _ => if_neg ht) completes_elseBody
        fun _ _ h => rest_lt h

/-- The second part of a choice may be missing. -/
theorem otherwise_precise (p : Position) (condition : TagScript.Expr)
    (yes : List TagScript.Stmt) :
    Precise n afterStmt afterStmt (plainOtherwise p condition yes) := by
  have habsent (k : List Token) (hk : Ahead afterStmt k) :
      plainOtherwise p condition yes k = .ok (.branch p condition yes none, k) := by
    match k with
    | [] => rfl
    | [t] => exact if_neg (ahead_cons.mp hk)
    | t :: u :: k => exact if_neg (ahead_cons.mp hk)
  refine ⟨.nil habsent, fun ts hts => ?_⟩
  refine .optional afterStmt habsent (fun _ h => h) fun t rest hrest ht => ?_
  rw [hrest] at hts
  exact .cons (otherwise_of_else (Decidable.not_not.mp ht) p condition yes)
    ((elseBody_pinpoints hstmt rest (Nat.le_of_succ_le hts)).map fun _ _ => rfl)

/-- A choice is refused in its condition or in one of its parts. -/
theorem branch_precise (start : Token) :
    Precise n anyKind afterStmt fun ts => plain (Parse.branch start ts) := by
  refine .congr ?_ (Parse.plain_branch start)
  exact expr_precise.bind fun condition =>
    (block_precise hstmt (by decide)).bind fun yes =>
    otherwise_precise hstmt start.position condition yes

end Blocks

/-- Statements of any length. -/
theorem stmt_precise : ∀ n, Precise n afterStmt afterStmt fun ts => plain (Parse.stmt ts)
  | 0 => by
    refine ⟨completes_stmt, fun ts hts => ?_⟩
    cases List.length_eq_zero_iff.mp (Nat.le_zero.mp hts)
    exact .fail_nil (Parse.plain_stmt []) completes_stmt
  | n + 1 => by
    refine ⟨completes_stmt, fun ts hts => ?_⟩
    cases ts with
    | nil => exact .fail_nil (Parse.plain_stmt []) completes_stmt
    | cons t ts =>
      have hstmt := stmt_precise n
      have hle : ts.length ≤ n := Nat.le_of_succ_le_succ hts
      have hread (k : List Token) := Parse.plain_stmt (t :: k)
      cases hk : t.kind with
      | kwLet | kwConst =>
        simp only [hk] at hread
        exact .cons hread ((declaration_precise t).pinpoints ts hle)
      | kwFn =>
        simp only [hk] at hread
        exact .cons hread ((function_precise hstmt t).pinpoints ts hle)
      | kwReturn =>
        simp only [hk] at hread
        exact .cons hread (returned_pinpoints t ts)
      | kwIf =>
        simp only [hk] at hread
        exact .cons hread ((branch_precise hstmt t).pinpoints ts hle)
      | kwFor =>
        simp only [hk] at hread
        exact .cons hread ((loop_precise hstmt t).pinpoints ts hle)
      | _ =>
        simp only [hk, Parse.plain_expression] at hread
        have hvalue : Precise (n + 1) anyKind afterStmt _ :=
          closed_precise .expressionEnd fun value => .expr t.position value
        exact (hvalue.pinpoints (t :: ts) hts).peek hread completes_stmt
          fun _ _ h => rest_lt ((hread ts).trans h)

end Statements

end TagScript.Grammar
