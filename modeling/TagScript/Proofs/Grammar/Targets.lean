import TagScript.Proofs.Grammar.Impossible
import TagScript.Proofs.Grammar.Sites
import TagScript.Proofs.Grammar.Source

/-!
# What Can Be Assigned To

A text is read from the left, so an error in an expression is the error of the whole text, whatever
the expression stands in (`Stmts.failsAt`). This settles what may stand to the left of the sign `=`:
a name, in any number of parentheses, and everything else is refused at the sign
(`assigns_to_names`).
-/

namespace TagScript.Grammar

open Parse (Level ParseError Reader plain plainOtherwise wholeProgram)

section Errors

variable {α β : Type} {first first' : Token.Kind → Prop} {f : Reader α} {g : Reader β}
  {sites sites' : List Site}

/-- The tokens start with one of the kinds. -/
def Leads (first : Token.Kind → Prop) (ts : List Token) : Prop :=
  ∃ t rest, ts = t :: rest ∧ first t.kind

/-- A terminal is the first of the tokens that start with it. -/
theorem Terminal.leads {kind : Token.Kind} (t : Terminal kind) (h : first kind)
    (rest : List Token) : Leads first (t.token :: rest) := by
  refine ⟨t.token, rest, rfl, ?_⟩
  rw [t.kind_eq]
  exact h

/-- A parser fails at the sites: where the tokens at a site are refused as an expression, it fails
in the same way. The tokens it is given then start with one of the kinds. -/
def FailsAt (first : Token.Kind → Prop) (f : Reader α) (sites : List Site) : Prop :=
  ∀ site ∈ sites, ∀ (ts : List Token) (e : ParseError), Starts ts →
    plain (Parse.expr ts) = .error e →
    Leads first (site.before ++ ts) ∧ f (site.before ++ ts) = .error e

theorem FailsAt.nil : FailsAt first f [] := by
  intro site hsite
  cases hsite

/-- Two lists of sites may be refused one after the other. -/
theorem FailsAt.append (h : FailsAt first f sites) (h' : FailsAt first f sites') :
    FailsAt first f (sites ++ sites') := by
  intro site hsite
  rcases List.mem_append.mp hsite with hsite | hsite
  · exact h site hsite
  · exact h' site hsite

/-- Fewer tokens may be allowed to come first. -/
theorem FailsAt.mono (h : FailsAt first f sites) (hfirst : ∀ kind, first kind → first' kind) :
    FailsAt first' f sites := by
  intro site hsite ts e hts he
  obtain ⟨⟨t, rest, heq, ht⟩, hfail⟩ := h site hsite ts e hts he
  exact ⟨⟨t, rest, heq, hfirst _ ht⟩, hfail⟩

/-- A parser that starts with another one fails where that one does. -/
theorem FailsAt.inside (hg : FailsAt first g sites)
    (h : ∀ t rest e, first t.kind → g (t :: rest) = .error e → f (t :: rest) = .error e) :
    FailsAt first f sites := by
  intro site hsite ts e hts he
  obtain ⟨hleads, hfail⟩ := hg site hsite ts e hts he
  refine ⟨hleads, ?_⟩
  obtain ⟨t, rest, heq, ht⟩ := hleads
  rw [heq] at hfail ⊢
  exact h t rest e ht hfail

/-- What is refused depends on the replies only. -/
theorem FailsAt.congr {g : Reader α} (hg : FailsAt first g sites) (h : ∀ ts, f ts = g ts) :
    FailsAt first f sites :=
  hg.inside fun t rest _ _ hfail => (h (t :: rest)).trans hfail

/-- A parser that comes to another one behind some tokens fails where that one does. -/
theorem FailsAt.behind {front : List Token} (hg : FailsAt first g sites)
    (hfront : Leads first' front)
    (h : ∀ t rest e, first t.kind → g (t :: rest) = .error e →
      f (front ++ t :: rest) = .error e) :
    FailsAt first' f (behind front sites) := by
  intro site hsite ts e hts he
  obtain ⟨inner, hinner, rfl⟩ := List.mem_map.mp hsite
  obtain ⟨⟨t, rest, heq, ht⟩, hfail⟩ := hg inner hinner ts e hts he
  rw [heq] at hfail
  rw [List.append_assoc, heq]
  refine ⟨?_, h t rest e ht hfail⟩
  obtain ⟨u, more, rfl, hu⟩ := hfront
  exact ⟨u, more ++ t :: rest, rfl, hu⟩

/-- The parser of expressions fails at its start. -/
theorem FailsAt.cons {d : Expr}
    (h : FailsAt (startsExpr · = true) (fun ts => plain (Parse.expr ts)) sites) :
    FailsAt (startsExpr · = true) (fun ts => plain (Parse.expr ts)) (⟨[], d⟩ :: sites) := by
  intro site hsite ts e hts he
  rcases List.mem_cons.mp hsite with rfl | hsite
  · exact ⟨hts, he⟩
  · exact h site hsite ts e hts he

end Errors

section Expressions

mutual

/-- An expression passes on the complaint about an expression at any of its sites: the tokens in
front of the site are read as they are derived, and no reader around it repairs anything. -/
theorem Expr.failsAt :
    (d : Expr) → FailsAt (startsExpr · = true) (fun ts => plain (Parse.expr ts)) d.sites
  | .assign target sign value => by
    rw [Expr.sites]
    refine .cons (.behind (Expr.failsAt value) (target.starts.append _) fun t rest e _ h => ?_)
    -- the target is read, and the error is met in what is assigned to it
    have htarget := target.complete _ (sign.stops (by decide) (t :: rest))
    rw [List.append_assoc, List.singleton_append, Parse.plain_expr, htarget]
    simp only [Parse.ok_bind, if_pos sign.kind_eq, h]
    rfl
  | .equality o => by
    rw [Expr.sites]
    refine .cons (.inside (Operation.failsAt o) fun t rest e _ h => ?_)
    rw [Parse.plain_expr, h]
    rfl

/-- The sites in the first operand are read first, and those behind it with the first operand done.
-/
theorem Operation.failsAt {level : Level} : (d : Operation level) →
    FailsAt (startsExpr · = true) (fun ts => plain (Parse.operation level ts)) d.sites
  | .mk first more => by
    rw [Operation.sites]
    refine .append ?_ ?_
    · refine .inside (Operand.failsAt first) fun t rest e _ h => ?_
      rw [Parse.plain_operation, h]
      rfl
    · refine .behind (Operations.failsAt more first.tree) first.starts fun t rest e ht h => ?_
      -- the token at the error is a sign of this level, which ends the first operand
      rw [Parse.plain_operation, first.complete (t :: rest) ht]
      exact h

/-- Behind an operator its right operand is read, and the operators behind that. -/
theorem Operations.failsAt {level : Level} : (d : Operations level) → (left : TagScript.Expr) →
    FailsAt (level.rank + 1 < reach ·) (fun ts => plain (Parse.operations level left ts)) d.sites
  | .nil, left => .nil
  | .cons token op sign right more, left => by
    have hreach : level.rank + 1 < reach token.kind := by
      rw [sign.reach_eq]
      exact Nat.lt_succ_self _
    rw [Operations.sites]
    refine .append ?_ ?_
    · refine .behind (Operand.failsAt right) ⟨token, [], rfl, hreach⟩ fun t rest e _ h => ?_
      rw [List.singleton_append, Parse.plain_operations]
      simp only [between_iff.mp sign, h]
      rfl
    · refine .behind (Operations.failsAt more (.binary token.position left op right.tree))
        ⟨token, right.tokens, rfl, hreach⟩ fun t rest e ht h => ?_
      have hright := right.complete (t :: rest) ht
      rw [List.cons_append, Parse.plain_operations]
      simp only [between_iff.mp sign, hright, Parse.ok_bind]
      exact h

/-- A reader of operands passes on what the reader of a tighter level complains about. -/
theorem Operand.failsAt {level : Level} : (d : Operand level) →
    FailsAt (startsExpr · = true) (fun ts => plain (Parse.operand level ts)) d.sites
  | .comparison o => by
    rw [Operand.sites]
    exact (Operation.failsAt o).congr fun ts => Parse.plain_operand ts .equality
  | .term o => by
    rw [Operand.sites]
    exact (Operation.failsAt o).congr fun ts => Parse.plain_operand ts .comparison
  | .factor o => by
    rw [Operand.sites]
    exact (Operation.failsAt o).congr fun ts => Parse.plain_operand ts .term
  | .unary u => by
    rw [Operand.sites]
    exact (Unary.failsAt u).congr fun ts => Parse.plain_operand ts .factor

/-- The complaint about an operand is passed on behind its sign. -/
theorem Unary.failsAt :
    (d : Unary) → FailsAt (startsExpr · = true) (fun ts => plain (Parse.unary ts)) d.sites
  | .front token op sign right => by
    rw [Unary.sites]
    refine .behind (Unary.failsAt right) ⟨token, [], rfl, sign.starts⟩ fun t rest e _ h => ?_
    rw [List.singleton_append, Parse.plain_unary]
    simp only [inFront_iff.mp sign, h]
    rfl
  | .behind left signs => by
    rw [Unary.sites]
    refine .mono (.inside (Call.failsAt left) fun t rest e ht h => ?_) fun _ => And.left
    -- no sign starts a call, and the signs behind it are not reached
    rw [Parse.plain_unary]
    simp only [ht.2, h]
    rfl

theorem Call.failsAt : (d : Call) →
    FailsAt (fun kind => startsExpr kind = true ∧ Parse.unaryOp? kind = none)
      (fun ts => plain (Parse.call ts)) d.sites
  | .mk callee more => by
    rw [Call.sites]
    refine .append ?_ ?_
    · refine .inside (Primary.failsAt callee) fun t rest e _ h => ?_
      rw [Parse.plain_call, h]
      rfl
    · refine .behind (Calls.failsAt more callee.tree) callee.first fun t rest e _ h => ?_
      rw [Parse.plain_call, callee.complete]
      exact h

/-- An argument list passes on the complaint about an argument. -/
theorem Calls.failsAt : (d : Calls) → (callee : TagScript.Expr) →
    FailsAt (· = .lparen) (fun ts => plain (Parse.calls callee ts)) d.sites
  | .nil, callee => .nil
  | .cons left args right more, callee => by
    rw [Calls.sites]
    refine .append ?_ ?_
    · refine .behind (Exprs.failsAt args (.inl rfl) .argsNext)
        (left.leads (by rfl) []) fun t rest e _ h => ?_
      rw [List.singleton_append, Parse.plain_calls]
      simp only [if_pos left.kind_eq, h]
      rfl
    · refine .behind (Calls.failsAt more (.call callee.position callee args.trees))
        (left.leads (by rfl) _) fun t rest e _ h => ?_
      have hargs := args.complete .argsNext right.token (.inl right.kind_eq) (t :: rest)
      rw [right.kind_eq] at hargs
      rw [List.append_assoc, List.cons_append, List.singleton_append, Parse.plain_calls]
      simp only [if_pos left.kind_eq, hargs, Parse.ok_bind]
      exact h

/-- A list of expressions passes on the complaint about an item. -/
theorem Exprs.failsAt : (d : Exprs) → {close : Token.Kind} →
    close = .rparen ∨ close = .rbracket → (problem : Parse.Problem) →
    FailsAt (startsExpr · = true) (fun ts => plain (Parse.items close problem ts)) d.sites
  | .none, _, _, problem => .nil
  | .some items, close, hclose, problem => by
    rw [Exprs.sites]
    refine .inside (MoreExprs.failsAt items close problem) fun t rest e ht h => ?_
    -- the first token of an expression closes no list
    have hne : t.kind ≠ close := by
      refine kind_ne ht ?_
      rcases hclose with rfl | rfl <;> rfl
    rw [Parse.plain_items]
    simp only [if_neg hne]
    exact h

theorem MoreExprs.failsAt : (d : MoreExprs) → (close : Token.Kind) → (problem : Parse.Problem) →
    FailsAt (startsExpr · = true) (fun ts => plain (Parse.moreItems close problem ts)) d.sites
  | .last item, close, problem => by
    rw [MoreExprs.sites]
    refine .inside (Expr.failsAt item) fun t rest e _ h => ?_
    rw [Parse.plain_moreItems, h]
    rfl
  | .cons item comma more, close, problem => by
    rw [MoreExprs.sites]
    refine .append ?_ ?_
    · refine .inside (Expr.failsAt item) fun t rest e _ h => ?_
      rw [Parse.plain_moreItems, h]
      rfl
    · refine .behind (MoreExprs.failsAt more close problem) (item.starts.append _)
        fun t rest e _ h => ?_
      have hitem := item.complete _ (comma.stops (by decide) (t :: rest))
      rw [List.append_assoc, List.singleton_append, Parse.plain_moreItems, hitem]
      simp only [Parse.ok_bind, if_pos comma.kind_eq, h]
      rfl

/-- A parenthesis or a bracket passes on the complaint about what it encloses. -/
theorem Primary.failsAt : (d : Primary) →
    FailsAt (fun kind => startsExpr kind = true ∧ Parse.unaryOp? kind = none)
      (fun ts => plain (Parse.primary ts)) d.sites
  | .atom token tree h => .nil
  | .paren left e right => by
    rw [Primary.sites]
    refine .behind (Expr.failsAt e) (left.leads (by decide) []) fun t rest err _ h => ?_
    rw [List.singleton_append, Parse.plain_primary]
    simp only [left.kind_eq, h]
    rfl
  | .array left items right => by
    rw [Primary.sites]
    refine .behind (Exprs.failsAt items (.inr rfl) .itemsNext) (left.leads (by decide) [])
      fun t rest e _ h => ?_
    rw [List.singleton_append, Parse.plain_primary]
    simp only [left.kind_eq, h]
    rfl

end

end Expressions

section Statements

/-- A declaration fails where its value does. -/
theorem declaration_failsAt {start : Token} (hstart : start.kind = .kwLet ∨ start.kind = .kwConst)
    (name : Terminal .ident) (declared : DeclaredType) (sign : Terminal .assign) (value : Expr) :
    FailsAt (startsStmt · = true) (fun ts => plain (Parse.stmt ts))
      (behind (start :: name.token :: declared.tokens ++ [sign.token]) value.sites) := by
  refine .behind value.failsAt ⟨start, _, rfl, ?_⟩ fun t rest e _ h => ?_
  · rcases hstart with hkind | hkind <;> rw [hkind] <;> rfl
  · have hstmt : ∀ ts, plain (Parse.stmt (start :: ts)) = plain (Parse.declaration start ts) := by
      intro ts
      rw [Parse.plain_stmt]
      rcases hstart with hkind | hkind <;> simp only [hkind]
    have htype := declared.complete (sign.token :: t :: rest) (sign.lacks (by decide) _)
    rw [List.append_assoc, List.singleton_append, List.cons_append, List.cons_append, hstmt,
      Parse.plain_declaration]
    simp only [Parse.expect_of_kind name.kind_eq, htype, Parse.expect_of_kind sign.kind_eq, h,
      Parse.ok_bind]
    rfl

mutual

/-- A statement passes on the complaint about an expression in it. -/
theorem Stmt.failsAt :
    (d : Stmt) → FailsAt (startsStmt · = true) (fun ts => plain (Parse.stmt ts)) d.sites
  | .letDecl keyword name declared sign value stop => by
    rw [Stmt.sites]
    exact declaration_failsAt (.inl keyword.kind_eq) name declared sign value
  | .constDecl keyword name declared sign value stop => by
    rw [Stmt.sites]
    exact declaration_failsAt (.inr keyword.kind_eq) name declared sign value
  | .function keyword name left params right declared body => by
    rw [Stmt.sites]
    refine .behind (Block.failsAt body) (keyword.leads (by rfl) _) fun t rest e ht h => ?_
    -- each part is read up to the token behind it, and the block is not
    have hparams := params.complete right.kind_eq (declared.tokens ++ t :: rest)
    have htype := declared.complete (t :: rest) (by simp [Lacks, ht])
    rw [List.append_assoc, List.cons_append, List.cons_append, List.cons_append,
      List.cons_append, Parse.plain_stmt]
    simp only [keyword.kind_eq]
    rw [Parse.plain_function]
    simp only [Parse.expect_of_kind name.kind_eq, Parse.expect_of_kind left.kind_eq, hparams,
      htype, h, Parse.ok_bind]
    rfl
  | .ret keyword stop => .nil
  | .retValue keyword value stop => by
    rw [Stmt.sites]
    refine .behind value.failsAt (keyword.leads (by rfl) []) fun t rest e ht h => ?_
    -- no expression starts with a semicolon
    have hne : t.kind ≠ .semicolon := kind_ne ht rfl
    rw [List.singleton_append, Parse.plain_stmt]
    simp only [keyword.kind_eq]
    rw [Parse.plain_returned]
    simp only [if_neg hne, h]
    rfl
  | .branch b => by
    rw [Stmt.sites]
    refine (Branch.failsAt b).mono ?_
    rintro kind rfl
    rfl
  | .loop keyword cursor word range body => by
    rw [Stmt.sites]
    refine .append ?_ ?_
    · refine .behind range.failsAt (keyword.leads (by rfl) _) fun t rest e _ h => ?_
      rw [List.cons_append, List.cons_append, List.singleton_append, Parse.plain_stmt]
      simp only [keyword.kind_eq]
      rw [Parse.plain_loop]
      simp only [Parse.expect_of_kind cursor.kind_eq, Parse.expect_of_kind word.kind_eq, h,
        Parse.ok_bind]
      rfl
    · refine .behind (Block.failsAt body) (keyword.leads (by rfl) _) fun t rest e ht h => ?_
      -- the brace ends the range
      have hrange := range.complete (t :: rest) (by simp [Stops, ht, reach])
      rw [List.cons_append, List.cons_append, List.cons_append, Parse.plain_stmt]
      simp only [keyword.kind_eq]
      rw [Parse.plain_loop]
      simp only [Parse.expect_of_kind cursor.kind_eq, Parse.expect_of_kind word.kind_eq, hrange, h,
        Parse.ok_bind]
      rfl
  | .expr value stop => by
    rw [Stmt.sites]
    refine .mono (.inside value.failsAt fun t rest e ht h => ?_) fun _ => startsStmt_of_startsExpr
    rw [stmt_of_expression ht, Parse.plain_expression]
    simp only [h]
    rfl

/-- A choice passes on the complaint about its condition or about a part. -/
theorem Branch.failsAt :
    (d : Branch) → FailsAt (· = .kwIf) (fun ts => plain (Parse.stmt ts)) d.sites
  | .mk keyword condition yes no => by
    rw [Branch.sites]
    refine .append (.append ?_ ?_) ?_
    · refine .behind condition.failsAt (keyword.leads (by rfl) []) fun t rest e _ h => ?_
      rw [List.singleton_append, stmt_of_branch keyword.kind_eq, Parse.plain_branch, h]
      rfl
    · refine .behind (Block.failsAt yes) (keyword.leads (by rfl) _) fun t rest e ht h => ?_
      have hcondition := condition.complete (t :: rest) (by simp [Stops, ht, reach])
      rw [List.cons_append, stmt_of_branch keyword.kind_eq, Parse.plain_branch]
      simp only [hcondition, h, Parse.ok_bind]
      rfl
    · refine .behind (Otherwise.failsAt no keyword.token.position condition.tree yes.trees)
        (keyword.leads (by rfl) _) fun t rest e _ h => ?_
      have hcondition := condition.complete (yes.tokens ++ t :: rest) (yes.stops _)
      have hyes := yes.complete (t :: rest)
      rw [List.append_assoc, List.cons_append, stmt_of_branch keyword.kind_eq,
        Parse.plain_branch]
      simp only [hcondition, hyes, Parse.ok_bind]
      exact h

/-- The second part of a choice passes on what is complained about in it. -/
theorem Otherwise.failsAt : (d : Otherwise) → (p : Position) → (condition : TagScript.Expr) →
    (yes : List TagScript.Stmt) → FailsAt (· = .kwElse) (plainOtherwise p condition yes) d.sites
  | .none, p, condition, yes => .nil
  | .block keyword no, p, condition, yes => by
    rw [Otherwise.sites]
    refine .behind (Block.failsAt no) (keyword.leads (by rfl) []) fun t rest e ht h => ?_
    -- the token behind `else` tells a block from a choice
    have hne : t.kind ≠ .kwIf := by simp [ht]
    simp only [List.singleton_append, plainOtherwise, if_pos keyword.kind_eq, if_neg hne, h]
    rfl
  | .branch keyword no, p, condition, yes => by
    rw [Otherwise.sites]
    refine .behind (Branch.failsAt no) (keyword.leads (by rfl) []) fun t rest e ht h => ?_
    rw [stmt_of_branch ht] at h
    simp only [List.singleton_append, plainOtherwise, if_pos keyword.kind_eq, if_pos ht, h]
    rfl

/-- A block passes on what is complained about behind its brace. -/
theorem Block.failsAt :
    (d : Block) → FailsAt (· = .lbrace) (fun ts => plain (Parse.block ts)) d.sites
  | .mk left body right => by
    rw [Block.sites]
    refine .behind (Stmts.failsAt_block body) (left.leads (by rfl) []) fun t rest e _ h => ?_
    rw [List.singleton_append, Parse.plain_block]
    simp only [Parse.expect_of_kind left.kind_eq, Parse.ok_bind]
    exact h

/-- The statements in front of the refused one are read as they are derived. -/
theorem Stmts.failsAt_block :
    (d : Stmts) → FailsAt (startsStmt · = true) (fun ts => plain (Parse.blockRest ts)) d.sites
  | .nil => .nil
  | .cons s more => by
    rw [Stmts.sites]
    refine .append ?_ ?_
    · refine .inside (Stmt.failsAt s) fun t rest e ht h => ?_
      -- no statement starts with a closing brace
      have hne : t.kind ≠ .rbrace := kind_ne ht rfl
      rw [Parse.plain_blockRest]
      simp only [if_neg hne, h]
      rfl
    · refine .behind (Stmts.failsAt_block more) s.starts fun t rest e ht h => ?_
      -- no statement starts with `else`, so the one in front of it ends there
      have hs := s.complete (t :: rest) (kind_ne ht rfl)
      obtain ⟨u, us, htokens, hu⟩ := s.starts
      have hne : u.kind ≠ .rbrace := kind_ne hu rfl
      rw [htokens, List.cons_append] at hs ⊢
      rw [Parse.plain_blockRest]
      simp only [if_neg hne, hs, h, Parse.ok_bind]
      rfl

end

/-- A program fails where one of its expressions does. -/
theorem Stmts.failsAt : (d : Stmts) → FailsAt (startsStmt · = true) wholeProgram d.sites
  | .nil => .nil
  | .cons s more => by
    rw [Stmts.sites]
    refine .append ?_ ?_
    · refine .inside s.failsAt fun t rest e _ h => ?_
      rw [Parse.wholeProgram_cons, h]
      rfl
    · refine .behind (Stmts.failsAt more) s.starts fun t rest e ht h => ?_
      have hs := s.complete (t :: rest) (kind_ne ht rfl)
      obtain ⟨u, us, htokens, -⟩ := s.starts
      rw [htokens, List.cons_append] at hs ⊢
      rw [Parse.wholeProgram_cons]
      simp only [hs, h, Parse.ok_bind]
      rfl

end Statements

section Targets

/-- What is assigned to is a name, with any number of parentheses around it. -/
theorem Target.kind_word (d : Target) : d.word.kind = .ident := by
  induction d with
  | name word => exact word.kind_eq
  | paren left inner right ih => exact ih

/-- An operation that is no name in parentheses is refused to the left of the sign `=`. -/
theorem Operation.refused (o : Operation .equality)
    (h : ∀ target : Target, target.tokens ≠ o.tokens) (sign : Terminal .assign)
    (rest : List Token) :
    plain (Parse.expr (o.tokens ++ sign.token :: rest)) =
      .error ⟨.assignmentTarget, some sign.token⟩ := by
  have hread := o.complete _ (sign.stops (by decide) rest)
  rw [Parse.plain_expr, hread]
  simp only [Parse.ok_bind, if_pos sign.kind_eq]
  -- the parser looks at the tree only, and no other operation has the tree of a name
  cases htree : o.tree with
  | name p x =>
    obtain ⟨target, htokens, -, -⟩ := o.target htree
    exact absurd htokens (h target)
  | _ => rfl

/-- An assignment among some sites is one of the expressions there. -/
theorem exists_site_of_mem_assignedAt {sites : List Site} {a : Position × String}
    (h : a ∈ assignedAt sites) : ∃ site ∈ sites, ∃ target sign value,
      site.expr = .assign target sign value ∧ (target.word.position, target.word.text) = a := by
  obtain ⟨site, hsite, hassigned⟩ := List.mem_filterMap.mp h
  refine ⟨site, hsite, ?_⟩
  cases hexpr : site.expr with
  | assign target sign value =>
    rw [hexpr] at hassigned
    exact ⟨target, sign, value, rfl, Option.some.inj hassigned⟩
  | equality o =>
    rw [hexpr] at hassigned
    cases hassigned

/-- Names are assigned to, and nothing else. Each assignment in the tree of a script comes from an
identifier of that spelling at that place, in any number of parentheses, and the sign `=` behind
them. Where any other operation stands to the left of a sign `=`, at a place where some program has
an expression, the script is refused at the sign. -/
theorem assigns_to_names (src : Bytes) :
    (∀ p, Parse.source src = .ok p → ∀ a ∈ Stmt.assignmentsAll p,
      ∃ (before : List Token) (target : Target) (sign : Terminal .assign) (after : List Token),
        (Token.tokenize src.decode).tokens = before ++ (target.tokens ++ sign.token :: after) ∧
        target.word.kind = .ident ∧ (target.word.position, target.word.text) = a) ∧
    ∀ d : Stmts, ∀ site ∈ d.sites, ∀ (o : Operation .equality) (sign : Terminal .assign)
      (after : List Token), (∀ target : Target, target.tokens ≠ o.tokens) →
      (Token.tokenize src.decode).tokens = site.before ++ (o.tokens ++ sign.token :: after) →
      ∃ e, Parse.source src = .error e ∧ e.problem.text = "Invalid assignment target" ∧
        e.found = some sign.token := by
  constructor
  · intro p hp a ha
    obtain ⟨d, htokens, rfl⟩ := (source_eq_ok_iff src p).mp hp
    rw [d.assignments_trees] at ha
    obtain ⟨site, hsite, target, sign, value, hexpr, rfl⟩ := exists_site_of_mem_assignedAt ha
    obtain ⟨after, hafter⟩ := d.standAt site hsite
    refine ⟨site.before, target, sign, value.tokens ++ after, ?_, target.kind_word, rfl⟩
    rw [← htokens, ← hafter, hexpr, Expr.tokens]
    simp
  · intro d site hsite o sign after ho htokens
    obtain ⟨-, hfail⟩ := d.failsAt site hsite _ _ (o.starts.append (sign.token :: after))
      (o.refused ho sign after)
    refine ⟨⟨.assignmentTarget, some sign.token⟩, ?_, rfl, rfl⟩
    rw [Parse.source, htokens]
    exact Parse.wholeProgram_eq_error.mp hfail

/-- In `((x)) = y;` the name `x` is assigned to. In `z = -y = 1;` the sign in front of `y` makes it
an operation, so the second sign `=` is refused. -/
theorem assigns_to_names_nested :
    (∃ (before : List Token) (target : Target) (sign : Terminal .assign) (after : List Token),
      (Token.tokenize (Bytes.ofString "((x)) = y;").decode).tokens =
        before ++ (target.tokens ++ sign.token :: after) ∧
      target.word.kind = .ident ∧ (target.word.position, target.word.text) = (⟨1, 3⟩, "x")) ∧
    ∃ e, Parse.source (Bytes.ofString "z = -y = 1;") = .error e ∧
      e.problem.text = "Invalid assignment target" ∧
      e.found = some ⟨.assign, "=", ⟨1, 8⟩⟩ := by
  constructor
  · have haccepted : Parse.source (Bytes.ofString "((x)) = y;") =
        .ok [.expr ⟨1, 1⟩ (.assign ⟨1, 3⟩ "x" (.name ⟨1, 9⟩ "y"))] := by
      have htokens : (Token.tokenize (Bytes.ofString "((x)) = y;").decode).tokens =
          [⟨.lparen, "(", ⟨1, 1⟩⟩, ⟨.lparen, "(", ⟨1, 2⟩⟩, ⟨.ident, "x", ⟨1, 3⟩⟩,
            ⟨.rparen, ")", ⟨1, 4⟩⟩, ⟨.rparen, ")", ⟨1, 5⟩⟩, ⟨.assign, "=", ⟨1, 7⟩⟩,
            ⟨.ident, "y", ⟨1, 9⟩⟩, ⟨.semicolon, ";", ⟨1, 10⟩⟩] := by decide +kernel
      rw [Parse.source, htokens]
      cbv
    have hx : ((⟨1, 3⟩ : Position), "x") ∈ Stmt.assignmentsAll
        [.expr ⟨1, 1⟩ (.assign ⟨1, 3⟩ "x" (.name ⟨1, 9⟩ "y"))] := .head _
    exact (assigns_to_names _).1 _ haccepted _ hx
  · -- an expression stands behind the first sign in the program `z = null;`
    let z : Terminal .ident := ⟨⟨.ident, "z", ⟨1, 1⟩⟩, rfl⟩
    let equals : Terminal .assign := ⟨⟨.assign, "=", ⟨1, 3⟩⟩, rfl⟩
    let program : Stmts :=
      .cons (.expr (.assign (.name z) equals nullExpr) ⟨someToken .semicolon, rfl⟩) .nil
    let site : Site := ⟨[z.token, equals.token], nullExpr⟩
    have hsite : site ∈ program.sites :=
      List.mem_append_left _ (.tail _ (List.mem_map.mpr ⟨⟨[], nullExpr⟩, .head _, rfl⟩))
    let minus : Token := ⟨.minus, "-", ⟨1, 5⟩⟩
    let y : Token := ⟨.ident, "y", ⟨1, 6⟩⟩
    let negation : Unary :=
      .front minus .minus .minus (.behind (.mk (.atom y _ (.name rfl)) .nil) [])
    let o : Operation .equality :=
      .mk (.comparison (.mk (.term (.mk (.factor (.mk (.unary negation) .nil)) .nil)) .nil)) .nil
    have ho : ∀ target : Target, target.tokens ≠ o.tokens := by
      intro target htokens
      -- the same tokens would be read as a name and as a negation
      have hread := target.complete [] trivial
      rw [htokens, o.complete [] trivial] at hread
      cases hread
    let sign : Terminal .assign := ⟨⟨.assign, "=", ⟨1, 8⟩⟩, rfl⟩
    have htokens : (Token.tokenize (Bytes.ofString "z = -y = 1;").decode).tokens =
        site.before ++ (o.tokens ++ sign.token ::
          [⟨.int, "1", ⟨1, 10⟩⟩, ⟨.semicolon, ";", ⟨1, 11⟩⟩]) := by with_unfolding_all rfl
    exact (assigns_to_names _).2 program site hsite o sign _ ho htokens

/-- A name in parentheses is assigned to although what follows it is no sign `=`. -/
theorem assigns_in_parentheses :
    Parse.source (Bytes.ofString "(x) = 1;") =
        .ok [.expr ⟨1, 1⟩ (.assign ⟨1, 2⟩ "x" (.int ⟨1, 7⟩ 1))] ∧
      ¬ ∃ before word sign after,
        (Token.tokenize (Bytes.ofString "(x) = 1;").decode).tokens =
          before ++ word :: sign :: after ∧
        word.kind = .ident ∧ word.position = ⟨1, 2⟩ ∧ word.text = "x" ∧ sign.kind = .assign := by
  have htokens : (Token.tokenize (Bytes.ofString "(x) = 1;").decode).tokens =
      [⟨.lparen, "(", ⟨1, 1⟩⟩, ⟨.ident, "x", ⟨1, 2⟩⟩, ⟨.rparen, ")", ⟨1, 3⟩⟩,
        ⟨.assign, "=", ⟨1, 5⟩⟩, ⟨.int, "1", ⟨1, 7⟩⟩, ⟨.semicolon, ";", ⟨1, 8⟩⟩] := by
    decide +kernel
  refine ⟨by rw [Parse.source, htokens]; cbv, ?_⟩
  rintro ⟨before, word, sign, after, hsplit, hword, -, -, hsign⟩
  rw [htokens] at hsplit
  -- the only identifier is the second token, and a parenthesis follows it
  rcases before with _ | ⟨t, _ | ⟨u, before⟩⟩
  · cases hsplit
    cases hword
  · cases hsplit
    cases hsign
  · have hmem : word ∈ before ++ word :: sign :: after := by simp
    simp only [List.cons_append, List.cons.injEq] at hsplit
    rw [← hsplit.2.2] at hmem
    simp only [List.mem_cons, List.not_mem_nil, or_false] at hmem
    rcases hmem with rfl | rfl | rfl | rfl <;> cases hword

end Targets

end TagScript.Grammar
