import TagScript.Proofs.Grammar.Sound.Expr

/-!
# Every Program That Is Read Is Derived

Where a parser of statements replies with a tree, the tokens it consumed have a derivation of that
tree. The parsers that are called behind the first word of a statement are given that word, which
their derivations begin with. A program that is read is derived (`program_sound`).
-/

namespace TagScript.Grammar

open Parse (plain plainOtherwise bind_eq_ok expect_eq_ok)

/-- What is read as a type is the word of one. -/
theorem typeName_sound {ts rest : List Token} {found : TypeName}
    (h : plain (Parse.typeName ts) = .ok (found, rest)) :
    ∃ word : TypeWord, ts = word.token :: rest ∧ word.type = found := by
  rw [Parse.plain_typeName] at h
  cases ts with
  | nil => cases h
  | cons t ts =>
    dsimp only at h
    split at h
    next hk =>
      cases hword : TypeName.ofWord? t.text with
      | none =>
        simp only [hword] at h
        cases h
      | some known =>
        simp only [hword] at h
        cases h
        exact ⟨⟨t, _, hk, hword⟩, rfl, rfl⟩
    next => cases h

/-- What is read as a declared type is derived, be it missing. -/
theorem optionalType_sound {ts rest : List Token} {type : Option TypeName}
    (h : plain (Parse.optionalType ts) = .ok (type, rest)) :
    ∃ d : DeclaredType, ts = d.tokens ++ rest ∧ d.type = type := by
  rw [Parse.plain_optionalType] at h
  cases ts with
  | nil =>
    cases h
    exact ⟨.none, rfl, rfl⟩
  | cons t ts =>
    dsimp only at h
    split at h
    next hcolon =>
      obtain ⟨⟨found, more⟩, hfound, h⟩ := bind_eq_ok.mp h
      cases h
      obtain ⟨word, rfl, rfl⟩ := typeName_sound hfound
      exact ⟨.some ⟨t, hcolon⟩ word, rfl, rfl⟩
    next =>
      cases h
      exact ⟨.none, rfl, rfl⟩

/-- The parameters that are read are derived up to the parenthesis that closes them. -/
theorem moreParams_sound (ts : List Token) {rest : List Token} {ps : List TagScript.Param}
    (h : plain (Parse.moreParams ts) = .ok (ps, rest)) :
    ∃ (d : MoreParams) (t : Token), t.kind = .rparen ∧ ts = d.tokens ++ t :: rest ∧
      d.trees = ps := by
  rw [Parse.plain_moreParams] at h
  simp only [bind_eq_ok, Prod.exists] at h
  obtain ⟨name, behind, hname, type, more, htype, h⟩ := h
  obtain ⟨hident, hts⟩ := expect_eq_ok hname
  have hlt := rest_lt htype
  obtain ⟨declared, hbehind, rfl⟩ := optionalType_sound htype
  cases more with
  | nil => cases h
  | cons t more =>
    dsimp only at h
    split at h
    next hcomma =>
      obtain ⟨⟨others, rest⟩, hothers, h⟩ := bind_eq_ok.mp h
      cases h
      obtain ⟨d, u, hu, hmore, rfl⟩ := moreParams_sound more hothers
      refine ⟨.cons ⟨⟨name, hident⟩, declared⟩ ⟨t, hcomma⟩ d, u, hu, ?_, rfl⟩
      simp [MoreParams.tokens, Param.tokens, hts, hbehind, hmore]
    next =>
      split at h
      next hparen =>
        cases h
        refine ⟨.last ⟨⟨name, hident⟩, declared⟩, t, hparen, ?_, rfl⟩
        simp [MoreParams.tokens, Param.tokens, hts, hbehind]
      next => cases h
termination_by ts.length
decreasing_by
  simp only [List.length_cons, hts] at hlt ⊢
  omega

/-- What is read as a list of parameters is derived, be it empty. -/
theorem params_sound {ts rest : List Token} {ps : List TagScript.Param}
    (h : plain (Parse.params ts) = .ok (ps, rest)) :
    ∃ (d : Params) (t : Token), t.kind = .rparen ∧ ts = d.tokens ++ t :: rest ∧
      d.trees = ps := by
  rw [Parse.plain_params] at h
  cases ts with
  | nil => cases h
  | cons t ts =>
    dsimp only at h
    split at h
    next hparen =>
      cases h
      exact ⟨.none, t, hparen, rfl, rfl⟩
    next =>
      obtain ⟨d, u, hu, htokens, htrees⟩ := moreParams_sound _ h
      exact ⟨.some d, u, hu, htokens, htrees⟩

section Phrases

variable {start : Token} {ts rest : List Token} {s : TagScript.Stmt}

/-- A declaration that is read is derived. -/
theorem declaration_sound (hts : Lexical ts) (hstart : start.kind = .kwLet ∨ start.kind = .kwConst)
    (h : plain (Parse.declaration start ts) = .ok (s, rest)) :
    ∃ d : Stmt, start :: ts = d.tokens ++ rest ∧ d.tree = s := by
  rw [Parse.plain_declaration] at h
  simp only [bind_eq_ok, Prod.exists] at h
  obtain ⟨name, _, hname, type, _, htype, sign, _, hsign, value, _, hvalue, stop, _, hstop, h⟩ := h
  obtain ⟨hident, rfl⟩ := expect_eq_ok hname
  obtain ⟨declared, rfl, rfl⟩ := optionalType_sound htype
  obtain ⟨hassign, rfl⟩ := expect_eq_ok hsign
  -- the value stands behind the name, the type and the sign `=`
  have hlexical : Lexical (sign :: _) := hts.tail.behind rfl
  obtain ⟨d, rfl, rfl⟩ := expr_sound _ hlexical.tail hvalue
  obtain ⟨hsemicolon, rfl⟩ := expect_eq_ok hstop
  cases h
  -- the keyword says which of the two declarations it is
  obtain hk | hk := hstart
  · refine ⟨.letDecl ⟨start, hk⟩ ⟨name, hident⟩ declared ⟨sign, hassign⟩ d ⟨stop, hsemicolon⟩,
      ?_, ?_⟩
    · simp [Stmt.tokens]
    · simp [Stmt.tree, hk]
  · refine ⟨.constDecl ⟨start, hk⟩ ⟨name, hident⟩ declared ⟨sign, hassign⟩ d
      ⟨stop, hsemicolon⟩, ?_, ?_⟩
    · simp [Stmt.tokens]
    · simp [Stmt.tree, hk]

/-- What is read as returned is derived. -/
theorem returned_sound (hts : Lexical ts) (hstart : start.kind = .kwReturn)
    (h : plain (Parse.returned start ts) = .ok (s, rest)) :
    ∃ d : Stmt, start :: ts = d.tokens ++ rest ∧ d.tree = s := by
  rw [Parse.plain_returned] at h
  cases ts with
  | nil => cases h
  | cons t ts =>
    dsimp only at h
    split at h
    next hsemicolon =>
      cases h
      exact ⟨.ret ⟨start, hstart⟩ ⟨t, hsemicolon⟩, rfl, rfl⟩
    next =>
      simp only [bind_eq_ok, Prod.exists] at h
      obtain ⟨value, _, hvalue, stop, _, hstop, h⟩ := h
      obtain ⟨hsemicolon, rfl⟩ := expect_eq_ok hstop
      obtain ⟨d, htokens, rfl⟩ := expr_sound _ hts hvalue
      cases h
      refine ⟨.retValue ⟨start, hstart⟩ d ⟨stop, hsemicolon⟩, ?_, rfl⟩
      rw [htokens]
      simp [Stmt.tokens]

/-- An expression that is read as a statement is derived. -/
theorem expression_sound (hts : Lexical ts)
    (h : plain (Parse.expression ts) = .ok (s, rest)) :
    ∃ d : Stmt, ts = d.tokens ++ rest ∧ d.tree = s := by
  rw [Parse.plain_expression] at h
  cases ts with
  | nil => cases h
  | cons t ts =>
    simp only [bind_eq_ok, Prod.exists] at h
    obtain ⟨value, _, hvalue, stop, _, hstop, h⟩ := h
    obtain ⟨hsemicolon, rfl⟩ := expect_eq_ok hstop
    obtain ⟨d, htokens, rfl⟩ := expr_sound _ hts hvalue
    cases h
    refine ⟨.expr d ⟨stop, hsemicolon⟩, ?_, ?_⟩
    · rw [htokens]
      simp [Stmt.tokens]
    · -- the statement stands where the expression starts, at the token `t`
      obtain ⟨u, more, hd, -⟩ := d.starts
      rw [hd] at htokens
      cases htokens
      rw [Stmt.tree, hd]
      rfl

end Phrases

mutual

/-- What is read as a statement is derived by the grammar, and its derivation has the tree that was
read. This takes all readers of statements at once, by induction on the tokens that are left. -/
theorem stmt_sound :
    (ts : List Token) → Lexical ts → ∀ {s : TagScript.Stmt} {rest : List Token},
      plain (Parse.stmt ts) = .ok (s, rest) → ∃ d : Stmt, ts = d.tokens ++ rest ∧ d.tree = s
  | [], _, _, _, h => by
    rw [Parse.plain_stmt] at h
    cases h
  | t :: ts, hts, _, _, h => by
    rw [Parse.plain_stmt] at h
    -- the first word is handed on, and the derivation begins with it
    dsimp only at h
    split at h
    next hk => exact declaration_sound hts.tail (.inl hk) h
    next hk => exact declaration_sound hts.tail (.inr hk) h
    next hk => exact function_sound t ts hts.tail hk h
    next hk => exact returned_sound hts.tail hk h
    next hk =>
      obtain ⟨b, htokens, htree⟩ := branch_sound t ts hts.tail hk h
      exact ⟨.branch b, htokens, htree⟩
    next hk => exact loop_sound t ts hts.tail hk h
    next => exact expression_sound hts h
termination_by ts => (ts.length, 1)

/-- A function that is read behind its word is derived with the word. -/
theorem function_sound (start : Token) (ts : List Token) (hts : Lexical ts)
    (hstart : start.kind = .kwFn) {s : TagScript.Stmt} {rest : List Token}
    (h : plain (Parse.function start ts) = .ok (s, rest)) :
    ∃ d : Stmt, start :: ts = d.tokens ++ rest ∧ d.tree = s := by
  rw [Parse.plain_function] at h
  simp only [bind_eq_ok, Prod.exists] at h
  obtain ⟨name, _, hname, left, _, hleft, ps, _, hps, type, more, htype, body, _, hbody, h⟩ := h
  have hlt : more.length < ts.length := by
    have := rest_lt hname
    have := rest_lt hleft
    have := rest_lt hps
    have := rest_lt htype
    omega
  obtain ⟨hident, htokens⟩ := expect_eq_ok hname
  obtain ⟨hparen, rfl⟩ := expect_eq_ok hleft
  obtain ⟨params, right, hclose, rfl, rfl⟩ := params_sound hps
  obtain ⟨declared, rfl, rfl⟩ := optionalType_sound htype
  -- the body stands behind the name, the parameters and the type
  have hmore : Lexical more := by
    rw [htokens] at hts
    exact (hts.tail.tail.behind rfl).tail.behind rfl
  obtain ⟨d, rfl, rfl⟩ := block_sound more hmore hbody
  cases h
  refine ⟨.function ⟨start, hstart⟩ ⟨name, hident⟩ ⟨left, hparen⟩ params ⟨right, hclose⟩
    declared d, ?_, rfl⟩
  simp [Stmt.tokens, htokens]
termination_by (ts.length, 1)

/-- A choice that is read behind its word is derived with the word. -/
theorem branch_sound (start : Token) (ts : List Token) (hts : Lexical ts)
    (hstart : start.kind = .kwIf) {s : TagScript.Stmt} {rest : List Token}
    (h : plain (Parse.branch start ts) = .ok (s, rest)) :
    ∃ d : Branch, start :: ts = d.tokens ++ rest ∧ d.tree = s := by
  rw [Parse.plain_branch] at h
  simp only [bind_eq_ok, Prod.exists] at h
  obtain ⟨condition, behind, hcondition, yes, more, hyes, h⟩ := h
  have hlt := rest_lt hcondition
  have hlt' := rest_lt hyes
  obtain ⟨dcondition, htokens, rfl⟩ := expr_sound ts hts hcondition
  obtain ⟨dyes, hbehind, rfl⟩ := block_sound behind (hts.behind htokens) hyes
  have hmore : Lexical more := (hts.behind htokens).behind hbehind
  -- what stands behind the first block decides about the second part
  obtain ⟨dno, hno, rfl⟩ := otherwise_sound start.position _ _ more hmore h
  refine ⟨.mk ⟨start, hstart⟩ dcondition dyes dno, ?_, rfl⟩
  simp [Branch.tokens, htokens, hbehind, hno]
termination_by (ts.length, 1)

/-- The second part of a choice is derived, be it missing. -/
theorem otherwise_sound (p : Position) (condition : TagScript.Expr)
    (yes : List TagScript.Stmt) :
    (ts : List Token) → Lexical ts → ∀ {s : TagScript.Stmt} {rest : List Token},
      plainOtherwise p condition yes ts = .ok (s, rest) →
      ∃ d : Otherwise, ts = d.tokens ++ rest ∧ .branch p condition yes d.trees = s
  | [], _, _, _, h => by
    cases h
    exact ⟨.none, rfl, rfl⟩
  | [t], _, _, _, h => by
    simp only [plainOtherwise] at h
    split at h
    next => cases h
    next =>
      cases h
      exact ⟨.none, rfl, rfl⟩
  | t :: u :: ts, hts, _, _, h => by
    simp only [plainOtherwise] at h
    split at h
    next helse =>
      split at h
      next hif =>
        obtain ⟨⟨no, more⟩, hno, h⟩ := bind_eq_ok.mp h
        obtain ⟨d, htokens, rfl⟩ := branch_sound u ts hts.tail.tail hif hno
        cases h
        refine ⟨.branch ⟨t, helse⟩ d, ?_, rfl⟩
        rw [Otherwise.tokens, htokens, List.cons_append]
      next =>
        obtain ⟨⟨no, more⟩, hno, h⟩ := bind_eq_ok.mp h
        obtain ⟨d, htokens, rfl⟩ := block_sound (u :: ts) hts.tail hno
        cases h
        refine ⟨.block ⟨t, helse⟩ d, ?_, rfl⟩
        rw [Otherwise.tokens, htokens, List.cons_append]
    next =>
      cases h
      exact ⟨.none, rfl, rfl⟩
termination_by ts => (ts.length, 1)

/-- A loop that is read behind its word is derived with the word. -/
theorem loop_sound (start : Token) (ts : List Token) (hts : Lexical ts)
    (hstart : start.kind = .kwFor) {s : TagScript.Stmt} {rest : List Token}
    (h : plain (Parse.loop start ts) = .ok (s, rest)) :
    ∃ d : Stmt, start :: ts = d.tokens ++ rest ∧ d.tree = s := by
  rw [Parse.plain_loop] at h
  simp only [bind_eq_ok, Prod.exists] at h
  obtain ⟨cursor, _, hcursor, word, _, hword, range, more, hrange, body, _, hbody, h⟩ := h
  have hlt : more.length < ts.length := by
    have := rest_lt hcursor
    have := rest_lt hword
    have := rest_lt hrange
    omega
  obtain ⟨hident, htokens⟩ := expect_eq_ok hcursor
  obtain ⟨hin, rfl⟩ := expect_eq_ok hword
  rw [htokens] at hts
  obtain ⟨drange, rfl, rfl⟩ := expr_sound _ hts.tail.tail hrange
  obtain ⟨dbody, rfl, rfl⟩ := block_sound more (hts.tail.tail.behind rfl) hbody
  cases h
  refine ⟨.loop ⟨start, hstart⟩ ⟨cursor, hident⟩ ⟨word, hin⟩ drange dbody, ?_, rfl⟩
  simp [Stmt.tokens, htokens]
termination_by (ts.length, 1)

/-- What is read as a block is derived with both braces. -/
theorem block_sound (ts : List Token) (hts : Lexical ts) {ss : List TagScript.Stmt}
    {rest : List Token} (h : plain (Parse.block ts) = .ok (ss, rest)) :
    ∃ d : Block, ts = d.tokens ++ rest ∧ d.trees = ss := by
  rw [Parse.plain_block] at h
  simp only [bind_eq_ok, Prod.exists] at h
  obtain ⟨left, more, hleft, h⟩ := h
  have hlt := rest_lt hleft
  obtain ⟨hbrace, htokens⟩ := expect_eq_ok hleft
  rw [htokens] at hts
  obtain ⟨d, right, hright, rfl, rfl⟩ := blockRest_sound more hts.tail h
  refine ⟨.mk ⟨left, hbrace⟩ d ⟨right, hright⟩, ?_, rfl⟩
  simp [Block.tokens, htokens]
termination_by (ts.length, 0)

/-- Statements are derived up to the brace that closes their block. -/
theorem blockRest_sound :
    (ts : List Token) → Lexical ts → ∀ {ss : List TagScript.Stmt} {rest : List Token},
      plain (Parse.blockRest ts) = .ok (ss, rest) →
      ∃ (d : Stmts) (t : Token), t.kind = .rbrace ∧ ts = d.tokens ++ t :: rest ∧ d.trees = ss
  | [], _, _, _, h => by
    rw [Parse.plain_blockRest] at h
    cases h
  | t :: ts, hts, _, _, h => by
    rw [Parse.plain_blockRest] at h
    dsimp only at h
    split at h
    next hbrace =>
      cases h
      exact ⟨.nil, t, hbrace, rfl, rfl⟩
    next =>
      simp only [bind_eq_ok, Prod.exists] at h
      obtain ⟨s, more, hs, ss, _, hss, h⟩ := h
      have hlt := rest_lt hs
      obtain ⟨d, htokens, rfl⟩ := stmt_sound (t :: ts) hts hs
      obtain ⟨ds, u, hu, hmore, rfl⟩ := blockRest_sound more (hts.behind htokens) hss
      cases h
      refine ⟨.cons d ds, u, hu, ?_, rfl⟩
      rw [Stmts.tokens, htokens, hmore, List.append_assoc]
termination_by ts => (ts.length, 2)

end

/-- A program that is read is derived. -/
theorem program_sound :
    (ts : List Token) → Lexical ts → ∀ {ss : Program}, Parse.program ts = .ok ss →
      ∃ d : Stmts, d.tokens = ts ∧ d.trees = ss
  | [], _, _, h => by
    rw [Parse.program_eq] at h
    cases h
    exact ⟨.nil, rfl, rfl⟩
  | t :: ts, hts, _, h => by
    rw [Parse.program_eq] at h
    simp only [bind_eq_ok, Prod.exists] at h
    obtain ⟨s, more, hs, ss, hss, h⟩ := h
    have hlt := rest_lt hs
    obtain ⟨d, htokens, rfl⟩ := stmt_sound (t :: ts) hts hs
    obtain ⟨ds, rfl, rfl⟩ := program_sound more (hts.behind htokens) hss
    cases h
    exact ⟨.cons d ds, htokens.symm, rfl⟩
termination_by ts => ts.length
decreasing_by exact hlt

end TagScript.Grammar
