import TagScript.Proofs.Grammar.Sound.Stmt
import TagScript.Proofs.Grammar.Unique.Stmt

/-!
# The Parser Reads Exactly the Grammar

A sequence of tokens is read as a program if and only if the grammar derives it, and then as the
tree of its one derivation (`program_exact`). No derivation has a token in it that is none of the
language, so a text with such a token is no program. The derivations group operations of one level
to the left and assignments to the right.
-/

namespace TagScript.Grammar

open Parse (Level plain)

/-- All tokens are tokens of the language. -/
def Legal (ts : List Token) : Prop :=
  ∀ t ∈ ts, t.kind ≠ .illegal

section Legal

@[simp]
theorem legal_nil : Legal [] := by
  simp [Legal]

@[simp]
theorem legal_cons {t : Token} {ts : List Token} :
    Legal (t :: ts) ↔ t.kind ≠ .illegal ∧ Legal ts := by
  simp [Legal]

@[simp]
theorem legal_append {ts us : List Token} : Legal (ts ++ us) ↔ Legal ts ∧ Legal us := by
  simp [Legal, or_imp, forall_and]

/-- A terminal is a token of its kind, so it is one of the language if the kind is. -/
theorem Terminal.legal {kind : Token.Kind} (t : Terminal kind) (h : kind ≠ .illegal) :
    t.token.kind ≠ .illegal := by
  rw [t.kind_eq]
  exact h

/-- An operator is a token of the language. -/
theorem Between.legal {level : Level} {kind : Token.Kind} {op : BinaryOp}
    (h : Between level kind op) : kind ≠ .illegal := by
  cases h <;> decide

/-- A sign in front of an operand is a token of the language. -/
theorem InFront.legal {kind : Token.Kind} {op : UnaryOp} (h : InFront kind op) :
    kind ≠ .illegal := by
  cases h <;> decide

/-- A sign behind an operand is a token of the language. -/
theorem Behind.legal {kind : Token.Kind} {op : StepOp} (h : Behind kind op) :
    kind ≠ .illegal := by
  cases h <;> decide

theorem steps_legal (signs : List StepSign) : Legal (signs.map StepSign.token) := by
  intro t ht
  obtain ⟨sign, -, rfl⟩ := List.mem_map.mp ht
  exact sign.sign.legal

/-- What an atom is made of is a token of the language. -/
theorem Atom.legal {t : Token} {e : TagScript.Expr} (h : Atom t e) : t.kind ≠ .illegal :=
  kind_ne h.starts rfl

/-- A target of an assignment has tokens of the language only. -/
theorem Target.legal (d : Target) : Legal d.tokens := by
  induction d with
  | name word => simp [tokens, word.legal]
  | paren left inner right ih => simp [tokens, left.legal, ih, right.legal]

mutual

/-- The grammar derives no expression with a token that is none of the language. -/
theorem Expr.legal : (d : Expr) → Legal d.tokens
  | .assign target sign value => by
    simp [Expr.tokens, target.legal, sign.legal, Expr.legal value]
  | .equality o => by
    simp [Expr.tokens, Operation.legal o]

theorem Operation.legal {level : Level} : (d : Operation level) → Legal d.tokens
  | .mk first more => by
    simp [Operation.tokens, Operand.legal first, Operations.legal more]

/-- The operators of a level and their operands are tokens of the language. -/
theorem Operations.legal {level : Level} : (d : Operations level) → Legal d.tokens
  | .nil => by
    simp [Operations.tokens]
  | .cons token op sign right more => by
    simp [Operations.tokens, sign.legal, Operand.legal right, Operations.legal more]

theorem Operand.legal {level : Level} : (d : Operand level) → Legal d.tokens
  | .comparison o => by
    simp [Operand.tokens, Operation.legal o]
  | .term o => by
    simp [Operand.tokens, Operation.legal o]
  | .factor o => by
    simp [Operand.tokens, Operation.legal o]
  | .unary u => by
    simp [Operand.tokens, Unary.legal u]

/-- Signs on both sides of an operand are tokens of the language. -/
theorem Unary.legal : (d : Unary) → Legal d.tokens
  | .front token op sign right => by
    simp [Unary.tokens, sign.legal, Unary.legal right]
  | .behind left signs => by
    simp [Unary.tokens, Call.legal left, steps_legal signs]

theorem Call.legal : (d : Call) → Legal d.tokens
  | .mk callee more => by
    simp [Call.tokens, Primary.legal callee, Calls.legal more]

/-- Argument lists have tokens of the language only. -/
theorem Calls.legal : (d : Calls) → Legal d.tokens
  | .nil => by
    simp [Calls.tokens]
  | .cons left args right more => by
    simp [Calls.tokens, left.legal, Exprs.legal args, right.legal, Calls.legal more]

/-- The items of a list and the commas between them are tokens of the language. -/
theorem Exprs.legal : (d : Exprs) → Legal d.tokens
  | .none => by
    simp [Exprs.tokens]
  | .some items => by
    simp [Exprs.tokens, MoreExprs.legal items]

theorem MoreExprs.legal : (d : MoreExprs) → Legal d.tokens
  | .last item => by
    simp [MoreExprs.tokens, Expr.legal item]
  | .cons item comma more => by
    simp [MoreExprs.tokens, Expr.legal item, comma.legal, MoreExprs.legal more]

/-- Parentheses and brackets are tokens of the language, and so is what they enclose. -/
theorem Primary.legal : (d : Primary) → Legal d.tokens
  | .atom token tree h => by
    simp [Primary.tokens, h.legal]
  | .paren left e right => by
    simp [Primary.tokens, left.legal, Expr.legal e, right.legal]
  | .array left items right => by
    simp [Primary.tokens, left.legal, Exprs.legal items, right.legal]

end

/-- The word of a declared type is a name or the word `fn`. -/
theorem DeclaredType.legal (d : DeclaredType) : Legal d.tokens := by
  cases d with
  | none => simp [tokens]
  | some colon word =>
    have hword : word.token.kind ≠ .illegal := by
      obtain hk | hk | hk := word.kind <;> simp [hk]
    simp [tokens, colon.legal, hword]

/-- Parameters have tokens of the language only. -/
theorem Params.legal (d : Params) : Legal d.tokens := by
  cases d with
  | none => simp [tokens]
  | some items =>
    rw [tokens]
    induction items with
    | last p => simp [MoreParams.tokens, Param.tokens, p.word.legal, p.declared.legal]
    | cons p comma more ih =>
      simp [MoreParams.tokens, Param.tokens, p.word.legal, p.declared.legal, comma.legal, ih]

mutual

/-- The grammar derives no statement with a token that is none of the language. -/
theorem Stmt.legal : (d : Stmt) → Legal d.tokens
  | .letDecl keyword name declared sign value stop => by
    simp [Stmt.tokens, keyword.legal, name.legal, declared.legal, sign.legal, value.legal,
      stop.legal]
  | .constDecl keyword name declared sign value stop => by
    simp [Stmt.tokens, keyword.legal, name.legal, declared.legal, sign.legal, value.legal,
      stop.legal]
  | .function keyword name left params right declared body => by
    simp [Stmt.tokens, keyword.legal, name.legal, left.legal, params.legal, right.legal,
      declared.legal, Block.legal body]
  | .ret keyword stop => by
    simp [Stmt.tokens, keyword.legal, stop.legal]
  | .retValue keyword value stop => by
    simp [Stmt.tokens, keyword.legal, value.legal, stop.legal]
  | .branch b => by
    simp [Stmt.tokens, Branch.legal b]
  | .loop keyword cursor word range body => by
    simp [Stmt.tokens, keyword.legal, cursor.legal, word.legal, range.legal, Block.legal body]
  | .expr value stop => by
    simp [Stmt.tokens, value.legal, stop.legal]

/-- A choice has tokens of the language only, in its condition and in both parts. -/
theorem Branch.legal : (d : Branch) → Legal d.tokens
  | .mk keyword condition yes no => by
    simp [Branch.tokens, keyword.legal, condition.legal, Block.legal yes, Otherwise.legal no]

theorem Otherwise.legal : (d : Otherwise) → Legal d.tokens
  | .none => by
    simp [Otherwise.tokens]
  | .block keyword no => by
    simp [Otherwise.tokens, keyword.legal, Block.legal no]
  | .branch keyword no => by
    simp [Otherwise.tokens, keyword.legal, Branch.legal no]

/-- A block has tokens of the language only. -/
theorem Block.legal : (d : Block) → Legal d.tokens
  | .mk left body right => by
    simp [Block.tokens, left.legal, Stmts.legal body, right.legal]

/-- No token of a program is none of the language. -/
theorem Stmts.legal : (d : Stmts) → Legal d.tokens
  | .nil => by
    simp [Stmts.tokens]
  | .cons s more => by
    simp [Stmts.tokens, Stmt.legal s, Stmts.legal more]

end

end Legal

section Grouping

/-- An operation of any level as an expression. -/
def Operation.expr : {level : Level} → Operation level → Expr
  | .equality, o => .equality o
  | .comparison, o => .equality (.mk (.comparison o) .nil)
  | .term, o => .equality (.mk (.comparison (.mk (.term o) .nil)) .nil)
  | .factor, o => .equality (.mk (.comparison (.mk (.term (.mk (.factor o) .nil)) .nil)) .nil)

variable {level : Level}

/-- To see an operation as an expression adds no token. -/
theorem Operation.tokens_expr (d : Operation level) : d.expr.tokens = d.tokens := by
  cases level <;> simp [expr, Expr.tokens, tokens, Operand.tokens, Operations.tokens]

/-- To see an operation as an expression leaves its tree as it is. -/
theorem Operation.tree_expr (d : Operation level) : d.expr.tree = d.tree := by
  cases level <;> simp [expr, Expr.tree, tree, Operand.tree, Operations.onto]

/-- Where some tokens start does not depend on what stands behind them. -/
theorem startOf_append {ts : List Token} (h : Starts ts) (rest : List Token) :
    startOf (ts ++ rest) = startOf ts := by
  obtain ⟨t, more, rfl, -⟩ := h
  rfl

variable (stop : Terminal .semicolon)

/-- Two signs of one level group to the left. -/
theorem program_operations (a b c : Operand level) {t₁ t₂ : Token} {op₁ op₂ : BinaryOp}
    (h₁ : Between level t₁.kind op₁) (h₂ : Between level t₂.kind op₂) :
    Parse.program (a.tokens ++ t₁ :: (b.tokens ++ t₂ :: (c.tokens ++ [stop.token]))) =
      .ok [.expr (startOf a.tokens)
        (.binary t₂.position (.binary t₁.position a.tree op₁ b.tree) op₂ c.tree)] := by
  -- the operation with its three operands, as the only statement of a program
  let o : Operation level := .mk a (.cons t₁ op₁ h₁ b (.cons t₂ op₂ h₂ c .nil))
  have htokens : o.expr.tokens = a.tokens ++ t₁ :: (b.tokens ++ t₂ :: c.tokens) := by
    rw [Operation.tokens_expr]
    simp [o, Operation.tokens, Operations.tokens]
  have hread := (Stmts.cons (.expr o.expr stop) .nil).program_complete
  simp only [Stmts.tokens, Stmts.trees, Stmt.tokens, Stmt.tree, htokens,
    startOf_append a.starts, o.tree_expr, List.append_nil, List.append_assoc,
    List.cons_append] at hread
  exact hread

/-- Two assignments group to the right. -/
theorem program_assignments (x y : Target) (s₁ s₂ : Terminal .assign) (value : Expr) :
    Parse.program (x.tokens ++ s₁.token :: (y.tokens ++ s₂.token ::
      (value.tokens ++ [stop.token]))) =
      .ok [.expr (startOf x.tokens) (.assign x.word.position x.word.text
        (.assign y.word.position y.word.text value.tree))] := by
  let e : Expr := .assign x s₁ (.assign y s₂ value)
  have hstart : startOf e.tokens = startOf x.tokens := startOf_append x.starts _
  have hread := (Stmts.cons (.expr e stop) .nil).program_complete
  simp only [Stmts.tokens, Stmts.trees, Stmt.tokens, Stmt.tree, hstart] at hread
  simpa [e, Expr.tokens, Expr.tree] using hread

end Grouping

/-- The tokens are read as a program if and only if the grammar derives them, and then as the tree
of their one derivation. None of them is a token outside the language. Signs of one level group to
the left and assignments to the right. -/
theorem program_exact {ts : List Token} (hts : Lexical ts) :
    (∀ t : Program, Parse.program ts = .ok t ↔ ∃ d : Stmts, d.tokens = ts ∧ d.trees = t) ∧
      (∀ d d' : Stmts, d.tokens = ts → d'.tokens = ts → d = d') ∧
      ((∃ t ∈ ts, t.kind = .illegal) → ∀ t : Program, Parse.program ts ≠ .ok t) ∧
      (∀ (level : Level) (a b c : Operand level) (t₁ t₂ : Token) (op₁ op₂ : BinaryOp)
        (stop : Terminal .semicolon), Between level t₁.kind op₁ → Between level t₂.kind op₂ →
        ts = a.tokens ++ t₁ :: (b.tokens ++ t₂ :: (c.tokens ++ [stop.token])) →
        Parse.program ts = .ok [.expr (startOf a.tokens)
          (.binary t₂.position (.binary t₁.position a.tree op₁ b.tree) op₂ c.tree)]) ∧
      ∀ (x y : Target) (s₁ s₂ : Terminal .assign) (value : Expr) (stop : Terminal .semicolon),
        ts = x.tokens ++ s₁.token :: (y.tokens ++ s₂.token :: (value.tokens ++ [stop.token])) →
        Parse.program ts = .ok [.expr (startOf x.tokens) (.assign x.word.position x.word.text
          (.assign y.word.position y.word.text value.tree))] := by
  refine ⟨fun t => ⟨program_sound ts hts, ?_⟩, ?_, ?_, ?_, ?_⟩
  · rintro ⟨d, rfl, rfl⟩
    exact d.program_complete
  · rintro d d' rfl h
    exact d.unique d' h.symm
  · rintro ⟨t, ht, hillegal⟩ tree hread
    -- a program that is read is derived, and nothing that is derived has such a token
    obtain ⟨d, rfl, -⟩ := program_sound ts hts hread
    exact d.legal t ht hillegal
  · rintro level a b c t₁ t₂ op₁ op₂ stop h₁ h₂ rfl
    exact program_operations stop a b c h₁ h₂
  · rintro x y s₁ s₂ value stop rfl
    exact program_assignments stop x y s₁ s₂ value

/-- The text `8 - 4 - 2;` is a difference of a difference. -/
theorem program_exact_difference :
    let digit (c : Char) (column : Int) : Token := ⟨.int, String.ofList [c], ⟨1, column⟩⟩
    let sign (column : Int) : Token := ⟨.minus, "-", ⟨1, column⟩⟩
    let ts := [digit '8' 1, sign 3, digit '4' 5, sign 7, digit '2' 9, ⟨.semicolon, ";", ⟨1, 10⟩⟩]
    Lexical ts ∧ Parse.program ts = .ok [.expr ⟨1, 1⟩ (.binary ⟨1, 7⟩
      (.binary ⟨1, 3⟩ (.int ⟨1, 1⟩ 8) .sub (.int ⟨1, 5⟩ 4)) .sub (.int ⟨1, 9⟩ 2))] := by
  intro digit sign ts
  have hdigits (c : Char) (h : Decimal.isDigit c = true) : Digits (String.ofList [c]).toList := by
    simp [Digits, h]
  have hts : Lexical ts := by
    intro t ht
    simp only [ts, List.mem_cons, List.not_mem_nil, or_false] at ht
    obtain rfl | rfl | rfl | rfl | rfl | rfl := ht
    · exact ⟨fun _ => hdigits '8' rfl, nofun⟩
    · exact ⟨nofun, nofun⟩
    · exact ⟨fun _ => hdigits '4' rfl, nofun⟩
    · exact ⟨nofun, nofun⟩
    · exact ⟨fun _ => hdigits '2' rfl, nofun⟩
    · exact ⟨nofun, nofun⟩
  -- each digit is an expression by itself
  have hatom (c : Char) (column : Int) (n : Nat) (h : Decimal.isDigit c = true)
      (hvalue : Decimal.value [c] = n) (hle : n ≤ 2 ^ 63 - 1) :
      Atom (digit c column) (.int ⟨1, column⟩ (Int64.ofNat n)) := by
    have hn : Decimal.value (String.ofList [c]).toList = n := by
      rw [String.toList_ofList]
      exact hvalue
    subst hn
    exact .int rfl (hdigits c h) hle
  let operand {t : Token} {e : TagScript.Expr} (h : Atom t e) : Operand .term :=
    .factor (.mk (.unary (.behind (.mk (.atom t e h) .nil) [])) .nil)
  have hread := (program_exact hts).2.2.2.1 .term
    (operand (hatom '8' 1 8 rfl rfl (by decide)))
    (operand (hatom '4' 5 4 rfl rfl (by decide)))
    (operand (hatom '2' 9 2 rfl rfl (by decide)))
    (sign 3) (sign 7) .sub .sub ⟨⟨.semicolon, ";", ⟨1, 10⟩⟩, rfl⟩ .sub .sub rfl
  exact ⟨hts, hread⟩

end TagScript.Grammar
