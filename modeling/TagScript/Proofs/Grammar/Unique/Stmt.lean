import TagScript.Proofs.Grammar.Complete.Stmt
import TagScript.Proofs.Grammar.Unique.Expr

/-!
# Programs Have One Derivation

Two derivations of statements with the same tokens are the same derivation. They have the same
tree, since the parser reads the tree of either from the tokens, and the tree of a statement shows
which production it was derived by (`Stmts.unique`).
-/

namespace TagScript.Grammar

open Parse (plain)

section Parameters

variable {rest rest' : List Token}

/-- The token of a type tells which type it is. -/
theorem TypeWord.unique {w w' : TypeWord} (h : w.token = w'.token) : w = w' := by
  obtain ⟨t, named, hkind, hknown⟩ := w
  obtain ⟨t', named', hkind', hknown'⟩ := w'
  cases h
  rw [hknown] at hknown'
  cases hknown'
  rfl

/-- Where a declared type ends is determined by the tokens, if no colon follows. -/
theorem DeclaredType.split (d d' : DeclaredType) (h : Lacks .colon rest) (h' : Lacks .colon rest')
    (htokens : d.tokens ++ rest = d'.tokens ++ rest') : d.tokens = d'.tokens ∧ rest = rest' :=
  eq_of_reads (fun ts => plain (Parse.optionalType ts)) (d.complete rest h) (d'.complete rest' h')
    htokens

/-- A type is declared exactly where there is a token for it. -/
theorem DeclaredType.unique (d d' : DeclaredType) (h : d.tokens = d'.tokens) : d = d' := by
  cases d with
  | none =>
    cases d' with
    | none => rfl
    | some colon' word' => cases h
  | some colon word =>
    cases d' with
    | none => cases h
    | some colon' word' =>
      simp only [tokens, List.cons.injEq, and_true] at h
      rw [Terminal.unique h.1, TypeWord.unique h.2]

/-- A parameter is determined by its name and its declared type. -/
theorem Param.unique (p p' : Param) (hword : p.word.token = p'.word.token)
    (hdeclared : p.declared.tokens = p'.declared.tokens) : p = p' := by
  obtain ⟨word, declared⟩ := p
  obtain ⟨word', declared'⟩ := p'
  obtain rfl := Terminal.unique hword
  obtain rfl := declared.unique declared' hdeclared
  rfl

/-- A parameter does not go on behind a comma. -/
theorem Param.ne_cons (p p' : Param) (comma : Terminal .comma) (more : MoreParams) :
    (MoreParams.last p).tokens ≠ (MoreParams.cons p' comma more).tokens := by
  intro h
  simp only [MoreParams.tokens, Param.tokens, List.cons_append, List.cons.injEq] at h
  rw [← List.append_nil p.declared.tokens] at h
  obtain ⟨-, hrest⟩ := p.declared.split p'.declared (show Lacks .colon [] from trivial)
    (comma.lacks (by decide) more.tokens) h.2
  cases hrest

/-- Where one parameter ends and the next begins is determined by the commas. -/
theorem MoreParams.unique (d d' : MoreParams) (h : d.tokens = d'.tokens) : d = d' := by
  induction d generalizing d' with
  | last p =>
    cases d' with
    | last p' =>
      obtain ⟨hword, hdeclared⟩ := List.cons_eq_cons.mp h
      rw [p.unique p' hword hdeclared]
    | cons p' comma' more' => exact (p.ne_cons p' comma' more' h).elim
  | cons p comma more ih =>
    cases d' with
    | last p' => exact (p'.ne_cons p comma more h.symm).elim
    | cons p' comma' more' =>
      simp only [tokens, Param.tokens, List.cons_append, List.cons.injEq] at h
      obtain ⟨hdeclared, hrest⟩ :=
        p.declared.split p'.declared (comma.lacks (by decide) _) (comma'.lacks (by decide) _) h.2
      obtain ⟨hcomma, hmore⟩ := List.cons_eq_cons.mp hrest
      rw [p.unique p' h.1 hdeclared, Terminal.unique hcomma, ih more' hmore]

/-- An empty list of parameters has no tokens, and no other list has none. -/
theorem Params.unique (d d' : Params) (h : d.tokens = d'.tokens) : d = d' := by
  have hne (items : MoreParams) : items.tokens ≠ [] := by
    cases items <;> simp [MoreParams.tokens, Param.tokens]
  cases d with
  | none =>
    cases d' with
    | none => rfl
    | some items' => exact (hne items' h.symm).elim
  | some items =>
    cases d' with
    | none => exact (hne items h).elim
    | some items' => rw [items.unique items' h]

/-- A parameter list ends at the parenthesis that closes it. -/
theorem Params.split (d d' : Params) (right right' : Terminal .rparen)
    (h : d.tokens ++ right.token :: rest = d'.tokens ++ right'.token :: rest') :
    d = d' ∧ right = right' ∧ rest = rest' := by
  have hd := d.complete right.kind_eq rest
  rw [h, d'.complete right'.kind_eq rest'] at hd
  obtain rfl : rest' = rest := congrArg Prod.snd (Except.ok.inj hd)
  obtain ⟨htokens, hright⟩ := eq_of_closed h
  exact ⟨d.unique d' htokens, Terminal.unique hright, rfl⟩

end Parameters

section Split

/-- An expression ends at the semicolon behind it. -/
theorem Expr.unique_stop (d d' : Expr) (stop stop' : Terminal .semicolon)
    (h : d.tokens ++ [stop.token] = d'.tokens ++ [stop'.token]) : d = d' ∧ stop = stop' := by
  obtain ⟨htokens, hstop⟩ := eq_of_closed h
  exact ⟨d.unique d' htokens, Terminal.unique hstop⟩

/-- An expression ends at the block behind it. -/
theorem Expr.unique_block (d d' : Expr) (body body' : Block) {rest rest' : List Token}
    (h : d.tokens ++ (body.tokens ++ rest) = d'.tokens ++ (body'.tokens ++ rest')) :
    d = d' ∧ body.tokens = body'.tokens ∧ rest = rest' := by
  obtain ⟨htokens, hrest⟩ := d.split d' (body.stops rest) (body'.stops rest') h
  have hbody := eq_of_reads (fun ts => plain (Parse.block ts)) (body.complete rest)
    (body'.complete rest') hrest
  exact ⟨d.unique d' htokens, hbody⟩

/-- A statement ends where the next one starts. -/
theorem Stmt.split (d d' : Stmt) (more more' : Stmts)
    (h : d.tokens ++ more.tokens = d'.tokens ++ more'.tokens) :
    d.tokens = d'.tokens ∧ more.tokens = more'.tokens := by
  have hlacks (m : Stmts) : Lacks .kwElse m.tokens := by
    have := m.lacks (show Lacks .kwElse [] from trivial)
    rwa [List.append_nil] at this
  exact eq_of_reads (fun ts => plain (Parse.stmt ts)) (d.complete _ (hlacks more))
    (d'.complete _ (hlacks more')) h

/-- Declarations are equal where the tokens behind their first word are. -/
theorem declaration_unique {name name' : Terminal .ident} {declared declared' : DeclaredType}
    {sign sign' : Terminal .assign} {value value' : Expr} {stop stop' : Terminal .semicolon}
    (h : name.token :: declared.tokens ++ sign.token :: value.tokens ++ [stop.token] =
      name'.token :: declared'.tokens ++ sign'.token :: value'.tokens ++ [stop'.token]) :
    name = name' ∧ declared = declared' ∧ sign = sign' ∧ value = value' ∧ stop = stop' := by
  simp only [List.cons_append, List.append_assoc, List.cons.injEq] at h
  obtain ⟨hname, h⟩ := h
  obtain ⟨hdeclared, h⟩ := declared.split declared' (sign.lacks (by decide) _)
    (sign'.lacks (by decide) _) h
  obtain ⟨hsign, h⟩ := List.cons_eq_cons.mp h
  obtain ⟨hvalue, hstop⟩ := value.unique_stop value' stop stop' h
  exact ⟨Terminal.unique hname, declared.unique declared' hdeclared, Terminal.unique hsign,
    hvalue, hstop⟩

/-- The production of a statement, as its tree shows it. -/
def production : TagScript.Stmt → Nat
  | .declare _ constant _ _ _ => if constant then 1 else 0
  | .function .. => 2
  | .ret _ none => 3
  | .ret _ (some _) => 4
  | .branch .. => 5
  | .loop .. => 6
  | .expr .. => 7

/-- The tree of a statement tells by which production it was derived. -/
theorem Stmt.production_tree (d : Stmt) : production d.tree = d.ctorIdx := by
  cases d with
  | branch b =>
    cases b
    rfl
  | _ => rfl

/-- Statements with the same tokens are derived by the same production. -/
theorem Stmt.ctorIdx_eq (d d' : Stmt) (h : d.tokens = d'.tokens) : d.ctorIdx = d'.ctorIdx := by
  have hd := d.complete [] trivial
  rw [h, d'.complete [] trivial] at hd
  -- the parser reads one tree from the tokens, and the tree shows the production
  have htree : d'.tree = d.tree := congrArg Prod.fst (Except.ok.inj hd)
  rw [← d.production_tree, ← htree, d'.production_tree]

/-- A statement has at least one token. -/
theorem Stmt.append_ne_nil (d : Stmt) (rest : List Token) : d.tokens ++ rest ≠ [] := by
  obtain ⟨t, more, htokens, -⟩ := d.starts
  simp [htokens]

/-- A block is no choice. -/
theorem Block.ne_branch (d : Block) (b : Branch) : d.tokens ≠ b.tokens := by
  obtain ⟨t, more, hd, hbrace⟩ := d.first
  obtain ⟨t', more', hb, hif⟩ := b.first
  intro h
  rw [hd, hb] at h
  rw [List.head_eq_of_cons_eq h, hif] at hbrace
  cases hbrace

end Split

mutual

/-- The tokens of a statement have one derivation. Two productions lead to different trees, so only
derivations by the same production are compared part by part. -/
theorem Stmt.unique : (d d' : Stmt) → d.tokens = d'.tokens → d = d'
  | .letDecl keyword name declared sign value stop, d', h => by
    have hsame := Stmt.ctorIdx_eq _ d' h
    cases d' with
    | letDecl keyword' name' declared' sign' value' stop' =>
      obtain ⟨hkeyword, h⟩ := List.cons_eq_cons.mp h
      obtain ⟨rfl, rfl, rfl, rfl, rfl⟩ := declaration_unique h
      rw [Terminal.unique hkeyword]
    | _ => cases hsame
  | .constDecl keyword name declared sign value stop, d', h => by
    have hsame := Stmt.ctorIdx_eq _ d' h
    cases d' with
    | constDecl keyword' name' declared' sign' value' stop' =>
      obtain ⟨hkeyword, h⟩ := List.cons_eq_cons.mp h
      obtain ⟨rfl, rfl, rfl, rfl, rfl⟩ := declaration_unique h
      rw [Terminal.unique hkeyword]
    | _ => cases hsame
  | .function keyword name left params right declared body, d', h => by
    have hsame := Stmt.ctorIdx_eq _ d' h
    cases d' with
    | function keyword' name' left' params' right' declared' body' =>
      simp only [Stmt.tokens, List.cons_append, List.append_assoc, List.cons.injEq] at h
      obtain ⟨hkeyword, hname, hleft, h⟩ := h
      -- the parameters end at their parenthesis, the type where the body starts
      obtain ⟨rfl, rfl, hrest⟩ := params.split params' right right' h
      have hlacks (b : Block) : Lacks .colon b.tokens := by
        have := b.lacks []
        rwa [List.append_nil] at this
      obtain ⟨hdeclared, hbody⟩ := declared.split declared' (hlacks body) (hlacks body') hrest
      rw [Terminal.unique hkeyword, Terminal.unique hname, Terminal.unique hleft,
        declared.unique _ hdeclared, Block.unique body body' hbody]
    | _ => cases hsame
  | .ret keyword stop, d', h => by
    have hsame := Stmt.ctorIdx_eq _ d' h
    cases d' with
    | ret keyword' stop' =>
      simp only [Stmt.tokens, List.cons.injEq, and_true] at h
      rw [Terminal.unique h.1, Terminal.unique h.2]
    | _ => cases hsame
  | .retValue keyword value stop, d', h => by
    have hsame := Stmt.ctorIdx_eq _ d' h
    cases d' with
    | retValue keyword' value' stop' =>
      obtain ⟨hkeyword, h⟩ := List.cons_eq_cons.mp h
      obtain ⟨rfl, rfl⟩ := value.unique_stop value' stop stop' h
      rw [Terminal.unique hkeyword]
    | _ => cases hsame
  | .branch b, d', h => by
    have hsame := Stmt.ctorIdx_eq _ d' h
    cases d' with
    | branch b' => rw [Branch.unique b b' h]
    | _ => cases hsame
  | .loop keyword cursor word range body, d', h => by
    have hsame := Stmt.ctorIdx_eq _ d' h
    cases d' with
    | loop keyword' cursor' word' range' body' =>
      simp only [Stmt.tokens, List.cons_append, List.cons.injEq] at h
      obtain ⟨hkeyword, hcursor, hword, h⟩ := h
      rw [← List.append_nil body.tokens, ← List.append_nil body'.tokens] at h
      obtain ⟨rfl, hbody, -⟩ := range.unique_block range' body body' h
      rw [Terminal.unique hkeyword, Terminal.unique hcursor, Terminal.unique hword,
        Block.unique body body' hbody]
    | _ => cases hsame
  | .expr value stop, d', h => by
    have hsame := Stmt.ctorIdx_eq _ d' h
    cases d' with
    | expr value' stop' =>
      obtain ⟨rfl, rfl⟩ := value.unique_stop value' stop stop' h
      rfl
    | _ => cases hsame
termination_by structural d => d

/-- Where the parts of a choice end is determined by the tokens. -/
theorem Branch.unique : (d d' : Branch) → d.tokens = d'.tokens → d = d'
  | .mk keyword condition yes no, .mk keyword' condition' yes' no', h => by
    simp only [Branch.tokens, List.cons_append, List.append_assoc, List.cons.injEq] at h
    obtain ⟨hkeyword, h⟩ := h
    -- the condition ends where the first block starts
    obtain ⟨rfl, hyes, hno⟩ := condition.unique_block condition' yes yes' h
    rw [Terminal.unique hkeyword, Block.unique yes yes' hyes, Otherwise.unique no no' hno]
termination_by structural d => d

/-- The token behind `else` tells whether another choice or a block follows. -/
theorem Otherwise.unique : (d d' : Otherwise) → d.tokens = d'.tokens → d = d'
  | .none, .none, _ => rfl
  | .none, .block .., h => nomatch h
  | .none, .branch .., h => nomatch h
  | .block .., .none, h => nomatch h
  | .branch .., .none, h => nomatch h
  | .block keyword no, .block keyword' no', h => by
    obtain ⟨hkeyword, hno⟩ := List.cons_eq_cons.mp h
    rw [Terminal.unique hkeyword, Block.unique no no' hno]
  | .branch keyword no, .branch keyword' no', h => by
    obtain ⟨hkeyword, hno⟩ := List.cons_eq_cons.mp h
    rw [Terminal.unique hkeyword, Branch.unique no no' hno]
  | .block keyword no, .branch keyword' no', h =>
    (no.ne_branch no' (List.tail_eq_of_cons_eq h)).elim
  | .branch keyword no, .block keyword' no', h =>
    (no'.ne_branch no (List.tail_eq_of_cons_eq h).symm).elim
termination_by structural d => d

/-- A block ends at its own closing brace. -/
theorem Block.unique : (d d' : Block) → d.tokens = d'.tokens → d = d'
  | .mk left body right, .mk left' body' right', h => by
    obtain ⟨hleft, h⟩ := List.cons_eq_cons.mp h
    obtain ⟨hbody, hright⟩ := eq_of_closed h
    rw [Terminal.unique hleft, Stmts.unique body body' hbody, Terminal.unique hright]
termination_by structural d => d

/-- Statements with the same tokens have the same derivation. -/
theorem Stmts.unique : (d d' : Stmts) → d.tokens = d'.tokens → d = d'
  | .nil, .nil, _ => rfl
  | .nil, .cons s more, h => (s.append_ne_nil _ h.symm).elim
  | .cons s more, .nil, h => (s.append_ne_nil _ h).elim
  | .cons s more, .cons s' more', h => by
    -- a statement does not go on with `else`, which starts no other statement
    obtain ⟨hs, hmore⟩ := s.split s' more more' h
    rw [Stmt.unique s s' hs, Stmts.unique more more' hmore]
termination_by structural d => d

end

end TagScript.Grammar
