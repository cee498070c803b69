import TagScript.Proofs.Grammar.Complete.Expr
import TagScript.Proofs.Token.Lines

/-!
# The Grammar at Other Positions

The grammar does not look at positions. Where the positions of some tokens are replaced, a
derivation of the tokens becomes one of the new tokens, and its tree has the new positions
(`Stmts.exists_relocate`).
-/

namespace TagScript.Grammar

open Parse (Level)
open Token (relocate)

variable (f : Position → Position)

/-- The token at its new position. -/
def Terminal.relocate {kind : Token.Kind} (t : Terminal kind) : Terminal kind :=
  ⟨t.token.relocate f, t.kind_eq⟩

/-- An atom is one wherever it stands. -/
theorem Atom.relocate {t : Token} {e : TagScript.Expr} (h : Atom t e) :
    Atom (t.relocate f) (e.relocate f) := by
  cases h with
  | int hkind hdigits hle => exact .int hkind hdigits hle
  | float hkind htext hwhole hfraction hfinite =>
    exact .float hkind htext hwhole hfraction hfinite
  | string hkind => exact .string hkind
  | trueWord hkind => exact .trueWord hkind
  | falseWord hkind => exact .falseWord hkind
  | nullWord hkind => exact .nullWord hkind
  | name hkind => exact .name hkind

/-- The sign at its new position. -/
def StepSign.relocate (s : StepSign) : StepSign :=
  ⟨s.token.relocate f, s.op, s.sign⟩

/-- Each sign behind an operand takes its new position into the tree. -/
theorem steps_relocate (signs : List StepSign) (e : TagScript.Expr) :
    (signs.map (StepSign.relocate f)).foldl
        (fun e sign => .step sign.token.position e sign.op) (e.relocate f) =
      (signs.foldl (fun e sign => .step sign.token.position e sign.op) e).relocate f := by
  induction signs generalizing e with
  | nil => rfl
  | cons sign signs ih => exact ih (.step sign.token.position e sign.op)

/-- The name that is assigned to, at its new position. -/
theorem Target.exists_relocate (d : Target) :
    ∃ d' : Target, d'.tokens = d.tokens.map (relocate f) ∧ d'.word = d.word.relocate f := by
  induction d with
  | name word => exact ⟨.name (word.relocate f), rfl, rfl⟩
  | paren left inner right ih =>
    obtain ⟨inner', htokens, hword⟩ := ih
    exact ⟨.paren (left.relocate f) inner' (right.relocate f), by
      simp [tokens, htokens, Terminal.relocate], hword⟩

mutual

/-- An expression whose tokens have other positions is derived in the same way, and its tree has
these positions. -/
theorem Expr.exists_relocate : (d : Expr) →
    ∃ d' : Expr, d'.tokens = d.tokens.map (relocate f) ∧ d'.tree = d.tree.relocate f
  | .assign target sign value => by
    obtain ⟨target', htarget, hword⟩ := target.exists_relocate f
    obtain ⟨value', hvalue, htree⟩ := Expr.exists_relocate value
    refine ⟨.assign target' (sign.relocate f) value', ?_, ?_⟩
    · simp [Expr.tokens, htarget, hvalue, Terminal.relocate]
    · rw [Expr.tree, Expr.tree, hword, htree]
      rfl
  | .equality o => by
    obtain ⟨o', htokens, htree⟩ := Operation.exists_relocate o
    exact ⟨.equality o', by rw [Expr.tokens, Expr.tokens, htokens], by
      rw [Expr.tree, Expr.tree, htree]⟩

theorem Operation.exists_relocate {level : Level} : (d : Operation level) →
    ∃ d' : Operation level, d'.tokens = d.tokens.map (relocate f) ∧ d'.tree = d.tree.relocate f
  | .mk first more => by
    obtain ⟨first', hfirst, htree⟩ := Operand.exists_relocate first
    obtain ⟨more', hmore, honto⟩ := Operations.exists_relocate more
    refine ⟨.mk first' more', ?_, ?_⟩
    · simp [Operation.tokens, hfirst, hmore]
    · rw [Operation.tree, Operation.tree, htree, honto]

/-- Operators and their operands at new positions, behind a left operand that has its own. -/
theorem Operations.exists_relocate {level : Level} : (d : Operations level) →
    ∃ d' : Operations level, d'.tokens = d.tokens.map (relocate f) ∧
      ∀ left : TagScript.Expr, d'.onto (left.relocate f) = (d.onto left).relocate f
  | .nil => ⟨.nil, rfl, fun _ => rfl⟩
  | .cons token op sign right more => by
    obtain ⟨right', hright, htree⟩ := Operand.exists_relocate right
    obtain ⟨more', hmore, honto⟩ := Operations.exists_relocate more
    refine ⟨.cons (token.relocate f) op sign right' more', ?_, fun left => ?_⟩
    · simp [Operations.tokens, hright, hmore]
    · simp only [Operations.onto, htree, ← honto]
      rfl

theorem Operand.exists_relocate {level : Level} : (d : Operand level) →
    ∃ d' : Operand level, d'.tokens = d.tokens.map (relocate f) ∧ d'.tree = d.tree.relocate f
  | .comparison o => by
    obtain ⟨o', htokens, htree⟩ := Operation.exists_relocate o
    exact ⟨.comparison o', htokens, htree⟩
  | .term o => by
    obtain ⟨o', htokens, htree⟩ := Operation.exists_relocate o
    exact ⟨.term o', htokens, htree⟩
  | .factor o => by
    obtain ⟨o', htokens, htree⟩ := Operation.exists_relocate o
    exact ⟨.factor o', htokens, htree⟩
  | .unary u => by
    obtain ⟨u', htokens, htree⟩ := Unary.exists_relocate u
    exact ⟨.unary u', htokens, htree⟩

/-- Signs on both sides of an operand, at their new positions. -/
theorem Unary.exists_relocate : (d : Unary) →
    ∃ d' : Unary, d'.tokens = d.tokens.map (relocate f) ∧ d'.tree = d.tree.relocate f
  | .front token op sign right => by
    obtain ⟨right', htokens, htree⟩ := Unary.exists_relocate right
    refine ⟨.front (token.relocate f) op sign right', ?_, ?_⟩
    · simp [Unary.tokens, htokens]
    · simp only [Unary.tree, htree]
      rfl
  | .behind left signs => by
    obtain ⟨left', htokens, htree⟩ := Call.exists_relocate left
    refine ⟨.behind left' (signs.map (StepSign.relocate f)), ?_, ?_⟩
    · simp [Unary.tokens, htokens, Function.comp_def, StepSign.relocate]
    · rw [Unary.tree, Unary.tree, htree, steps_relocate]

theorem Call.exists_relocate : (d : Call) →
    ∃ d' : Call, d'.tokens = d.tokens.map (relocate f) ∧ d'.tree = d.tree.relocate f
  | .mk callee more => by
    obtain ⟨callee', hcallee, htree⟩ := Primary.exists_relocate callee
    obtain ⟨more', hmore, honto⟩ := Calls.exists_relocate more
    refine ⟨.mk callee' more', ?_, ?_⟩
    · simp [Call.tokens, hcallee, hmore]
    · rw [Call.tree, Call.tree, htree, honto]

/-- Argument lists at new positions, behind a callee that has its own. -/
theorem Calls.exists_relocate : (d : Calls) →
    ∃ d' : Calls, d'.tokens = d.tokens.map (relocate f) ∧
      ∀ callee : TagScript.Expr, d'.onto (callee.relocate f) = (d.onto callee).relocate f
  | .nil => ⟨.nil, rfl, fun _ => rfl⟩
  | .cons left args right more => by
    obtain ⟨args', hargs, htrees⟩ := Exprs.exists_relocate args
    obtain ⟨more', hmore, honto⟩ := Calls.exists_relocate more
    refine ⟨.cons (left.relocate f) args' (right.relocate f) more', ?_, fun callee => ?_⟩
    · simp [Calls.tokens, hargs, hmore, Terminal.relocate]
    · rw [Calls.onto, Calls.onto, htrees, ← honto, Expr.position_relocate]
      rfl

/-- A list of expressions at its new positions. -/
theorem Exprs.exists_relocate : (d : Exprs) →
    ∃ d' : Exprs, d'.tokens = d.tokens.map (relocate f) ∧
      d'.trees = TagScript.Expr.relocateAll f d.trees
  | .none => ⟨.none, rfl, rfl⟩
  | .some items => by
    obtain ⟨items', htokens, htrees⟩ := MoreExprs.exists_relocate items
    exact ⟨.some items', htokens, htrees⟩

theorem MoreExprs.exists_relocate : (d : MoreExprs) →
    ∃ d' : MoreExprs, d'.tokens = d.tokens.map (relocate f) ∧
      d'.trees = TagScript.Expr.relocateAll f d.trees
  | .last item => by
    obtain ⟨item', htokens, htree⟩ := Expr.exists_relocate item
    refine ⟨.last item', htokens, ?_⟩
    rw [MoreExprs.trees, MoreExprs.trees, htree]
    rfl
  | .cons item comma more => by
    obtain ⟨item', hitem, htree⟩ := Expr.exists_relocate item
    obtain ⟨more', hmore, htrees⟩ := MoreExprs.exists_relocate more
    refine ⟨.cons item' (comma.relocate f) more', ?_, ?_⟩
    · simp [MoreExprs.tokens, hitem, hmore, Terminal.relocate]
    · rw [MoreExprs.trees, MoreExprs.trees, htree, htrees]
      rfl

/-- The position of an array is that of its bracket. -/
theorem Primary.exists_relocate : (d : Primary) →
    ∃ d' : Primary, d'.tokens = d.tokens.map (relocate f) ∧ d'.tree = d.tree.relocate f
  | .atom token tree h => ⟨.atom _ _ (h.relocate f), rfl, rfl⟩
  | .paren left e right => by
    obtain ⟨e', htokens, htree⟩ := Expr.exists_relocate e
    exact ⟨.paren (left.relocate f) e' (right.relocate f), by
      simp [Primary.tokens, htokens, Terminal.relocate], htree⟩
  | .array left items right => by
    obtain ⟨items', htokens, htrees⟩ := Exprs.exists_relocate items
    refine ⟨.array (left.relocate f) items' (right.relocate f), ?_, ?_⟩
    · simp [Primary.tokens, htokens, Terminal.relocate]
    · rw [Primary.tree, Primary.tree, htrees]
      rfl

end

/-- The declared type at its new position. -/
def DeclaredType.relocate : DeclaredType → DeclaredType
  | .none => .none
  | .some colon word =>
    .some (colon.relocate f) ⟨word.token.relocate f, word.type, word.kind, word.known⟩

theorem DeclaredType.tokens_relocate (d : DeclaredType) :
    (d.relocate f).tokens = d.tokens.map (Token.relocate f) := by
  cases d <;> rfl

/-- A declared type has no position in the tree. -/
theorem DeclaredType.type_relocate (d : DeclaredType) : (d.relocate f).type = d.type := by
  cases d <;> rfl

/-- The parameter at its new position. -/
def Param.relocate (p : Param) : Param :=
  ⟨p.word.relocate f, p.declared.relocate f⟩

theorem Param.tokens_relocate (p : Param) :
    (p.relocate f).tokens = p.tokens.map (Token.relocate f) := by
  simp [tokens, relocate, Terminal.relocate, DeclaredType.tokens_relocate]

/-- A parameter has no position in the tree. -/
theorem Param.tree_relocate (p : Param) : (p.relocate f).tree = p.tree := by
  simp [tree, relocate, Terminal.relocate, DeclaredType.type_relocate, Token.relocate]

/-- Parameters are derived in the same way, and their trees stay as they are. -/
theorem MoreParams.exists_relocate (d : MoreParams) :
    ∃ d' : MoreParams, d'.tokens = d.tokens.map (relocate f) ∧ d'.trees = d.trees := by
  induction d with
  | last p =>
    exact ⟨.last (p.relocate f), p.tokens_relocate f, by rw [trees, p.tree_relocate, trees]⟩
  | cons p comma more ih =>
    obtain ⟨more', htokens, htrees⟩ := ih
    refine ⟨.cons (p.relocate f) (comma.relocate f) more', ?_, ?_⟩
    · simp [tokens, htokens, p.tokens_relocate, Terminal.relocate]
    · rw [trees, trees, htrees, p.tree_relocate]

theorem Params.exists_relocate (d : Params) :
    ∃ d' : Params, d'.tokens = d.tokens.map (relocate f) ∧ d'.trees = d.trees := by
  cases d with
  | none => exact ⟨.none, rfl, rfl⟩
  | some items =>
    obtain ⟨items', htokens, htrees⟩ := items.exists_relocate f
    exact ⟨.some items', htokens, htrees⟩

/-- Some tokens start where the first of them stands. -/
theorem startOf_relocate {ts : List Token} (h : Starts ts) :
    startOf (ts.map (relocate f)) = f (startOf ts) := by
  obtain ⟨t, more, rfl, -⟩ := h
  rfl

mutual

/-- A statement whose tokens have other positions is derived in the same way. -/
theorem Stmt.exists_relocate : (d : Stmt) →
    ∃ d' : Stmt, d'.tokens = d.tokens.map (relocate f) ∧ d'.tree = d.tree.relocate f
  | .letDecl keyword name declared sign value stop => by
    obtain ⟨value', htokens, htree⟩ := value.exists_relocate f
    refine ⟨.letDecl (keyword.relocate f) (name.relocate f) (declared.relocate f)
      (sign.relocate f) value' (stop.relocate f), ?_, ?_⟩
    · simp [Stmt.tokens, htokens, declared.tokens_relocate, Terminal.relocate]
    · rw [Stmt.tree, Stmt.tree, htree, declared.type_relocate]
      rfl
  | .constDecl keyword name declared sign value stop => by
    obtain ⟨value', htokens, htree⟩ := value.exists_relocate f
    refine ⟨.constDecl (keyword.relocate f) (name.relocate f) (declared.relocate f)
      (sign.relocate f) value' (stop.relocate f), ?_, ?_⟩
    · simp [Stmt.tokens, htokens, declared.tokens_relocate, Terminal.relocate]
    · rw [Stmt.tree, Stmt.tree, htree, declared.type_relocate]
      rfl
  | .function keyword name left params right declared body => by
    obtain ⟨params', hparams, htrees⟩ := params.exists_relocate f
    obtain ⟨body', hbody, hbodies⟩ := Block.exists_relocate body
    refine ⟨.function (keyword.relocate f) (name.relocate f) (left.relocate f) params'
      (right.relocate f) (declared.relocate f) body', ?_, ?_⟩
    · simp [Stmt.tokens, hparams, hbody, declared.tokens_relocate, Terminal.relocate]
    · rw [Stmt.tree, Stmt.tree, htrees, hbodies, declared.type_relocate]
      rfl
  | .ret keyword stop => ⟨.ret (keyword.relocate f) (stop.relocate f), rfl, rfl⟩
  | .retValue keyword value stop => by
    obtain ⟨value', htokens, htree⟩ := value.exists_relocate f
    refine ⟨.retValue (keyword.relocate f) value' (stop.relocate f), ?_, ?_⟩
    · simp [Stmt.tokens, htokens, Terminal.relocate]
    · rw [Stmt.tree, Stmt.tree, htree]
      rfl
  | .branch b => by
    obtain ⟨b', htokens, htree⟩ := Branch.exists_relocate b
    exact ⟨.branch b', htokens, htree⟩
  | .loop keyword cursor word range body => by
    obtain ⟨range', hrange, htree⟩ := range.exists_relocate f
    obtain ⟨body', hbody, htrees⟩ := Block.exists_relocate body
    refine ⟨.loop (keyword.relocate f) (cursor.relocate f) (word.relocate f) range' body', ?_, ?_⟩
    · simp [Stmt.tokens, hrange, hbody, Terminal.relocate]
    · rw [Stmt.tree, Stmt.tree, htree, htrees]
      rfl
  | .expr value stop => by
    obtain ⟨value', htokens, htree⟩ := value.exists_relocate f
    refine ⟨.expr value' (stop.relocate f), ?_, ?_⟩
    · simp [Stmt.tokens, htokens, Terminal.relocate]
    · rw [Stmt.tree, Stmt.tree, htree, htokens, startOf_relocate f value.starts]
      rfl

/-- A choice at its new positions. -/
theorem Branch.exists_relocate : (d : Branch) →
    ∃ d' : Branch, d'.tokens = d.tokens.map (relocate f) ∧ d'.tree = d.tree.relocate f
  | .mk keyword condition yes no => by
    obtain ⟨condition', hcondition, htree⟩ := condition.exists_relocate f
    obtain ⟨yes', hyes, hyesTrees⟩ := Block.exists_relocate yes
    obtain ⟨no', hno, hnoTrees⟩ := Otherwise.exists_relocate no
    refine ⟨.mk (keyword.relocate f) condition' yes' no', ?_, ?_⟩
    · simp [Branch.tokens, hcondition, hyes, hno, Terminal.relocate]
    · rw [Branch.tree, Branch.tree, htree, hyesTrees, hnoTrees]
      cases no.trees <;> rfl

/-- The second part of a choice at its new positions, if there is one. -/
theorem Otherwise.exists_relocate : (d : Otherwise) →
    ∃ d' : Otherwise, d'.tokens = d.tokens.map (relocate f) ∧
      d'.trees = d.trees.map (TagScript.Stmt.relocateAll f)
  | .none => ⟨.none, rfl, rfl⟩
  | .block keyword no => by
    obtain ⟨no', htokens, htrees⟩ := Block.exists_relocate no
    refine ⟨.block (keyword.relocate f) no', ?_, ?_⟩
    · simp [Otherwise.tokens, htokens, Terminal.relocate]
    · rw [Otherwise.trees, Otherwise.trees, htrees]
      rfl
  | .branch keyword no => by
    obtain ⟨no', htokens, htree⟩ := Branch.exists_relocate no
    refine ⟨.branch (keyword.relocate f) no', ?_, ?_⟩
    · simp [Otherwise.tokens, htokens, Terminal.relocate]
    · rw [Otherwise.trees, Otherwise.trees, htree]
      rfl

/-- A block at its new positions. -/
theorem Block.exists_relocate : (d : Block) →
    ∃ d' : Block, d'.tokens = d.tokens.map (relocate f) ∧
      d'.trees = TagScript.Stmt.relocateAll f d.trees
  | .mk left body right => by
    obtain ⟨body', htokens, htrees⟩ := Stmts.exists_relocate body
    exact ⟨.mk (left.relocate f) body' (right.relocate f), by
      simp [Block.tokens, htokens, Terminal.relocate], htrees⟩

/-- Some statements whose tokens have other positions are derived in the same way, and their trees
have these positions. -/
theorem Stmts.exists_relocate : (d : Stmts) →
    ∃ d' : Stmts, d'.tokens = d.tokens.map (relocate f) ∧
      d'.trees = TagScript.Stmt.relocateAll f d.trees
  | .nil => ⟨.nil, rfl, rfl⟩
  | .cons s more => by
    obtain ⟨s', hs, htree⟩ := Stmt.exists_relocate s
    obtain ⟨more', hmore, htrees⟩ := Stmts.exists_relocate more
    refine ⟨.cons s' more', ?_, ?_⟩
    · simp [Stmts.tokens, hs, hmore]
    · rw [Stmts.trees, Stmts.trees, htree, htrees]
      rfl

end

end TagScript.Grammar
