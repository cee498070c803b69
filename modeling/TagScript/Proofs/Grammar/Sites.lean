import TagScript.Proofs.Grammar.Complete.Stmt

/-!
# Where Expressions Stand

A derivation has expressions in it, some of them inside of others. `sites` lists them from left to
right, each with the tokens of the derivation in front of it. An expression stands where its site
says (`Stmts.standAt`), and the assignments among the expressions are those that are found in the
tree (`Stmts.assignments_trees`): the parentheses around the name that is assigned to leave no trace
there.
-/

namespace TagScript

section Assignments

mutual

/-- The assignments in an expression, each with its position and the name assigned to. -/
def Expr.assignments : Expr → List (Position × String)
  | .int .. | .float .. | .string .. | .bool .. | .null _ | .name .. => []
  | .array _ items => assignmentsAll items
  | .assign p x value => (p, x) :: value.assignments
  | .call _ callee args => callee.assignments ++ assignmentsAll args
  | .binary _ left _ right => left.assignments ++ right.assignments
  | .unary _ _ right => right.assignments
  | .step _ left _ => left.assignments

/-- The assignments in some expressions. -/
def Expr.assignmentsAll : List Expr → List (Position × String)
  | [] => []
  | e :: rest => e.assignments ++ assignmentsAll rest

end

mutual

/-- The assignments in a statement. -/
def Stmt.assignments : Stmt → List (Position × String)
  | .declare _ _ _ _ value => value.assignments
  | .function _ _ _ _ body => assignmentsAll body
  | .ret _ none => []
  | .ret _ (some value) => value.assignments
  | .expr _ value => value.assignments
  | .branch _ condition yes none => condition.assignments ++ assignmentsAll yes
  | .branch _ condition yes (some no) =>
    condition.assignments ++ assignmentsAll yes ++ assignmentsAll no
  | .loop _ _ range body => range.assignments ++ assignmentsAll body

/-- The assignments in some statements. -/
def Stmt.assignmentsAll : List Stmt → List (Position × String)
  | [] => []
  | s :: rest => s.assignments ++ assignmentsAll rest

end

end Assignments

namespace Grammar

open Parse (Level)

/-- An expression of a derivation, and the tokens of the derivation in front of it. -/
structure Site where
  /-- The tokens in front of the expression. -/
  before : List Token
  /-- The expression. -/
  expr : Expr

/-- The same sites with more tokens in front of them. -/
def behind (front : List Token) (sites : List Site) : List Site :=
  sites.map fun site => ⟨front ++ site.before, site.expr⟩

mutual

/-- The sites in an expression; the first one is that of the expression itself. -/
def Expr.sites : Expr → List Site
  | .assign target sign value =>
    ⟨[], .assign target sign value⟩ :: behind (target.tokens ++ [sign.token]) value.sites
  | .equality o => ⟨[], .equality o⟩ :: o.sites

/-- The sites in an operation. -/
def Operation.sites {level : Level} : Operation level → List Site
  | .mk first more => first.sites ++ behind first.tokens more.sites

/-- The sites in the other operands of an operation. -/
def Operations.sites {level : Level} : Operations level → List Site
  | .nil => []
  | .cons token _ _ right more =>
    behind [token] right.sites ++ behind (token :: right.tokens) more.sites

/-- The sites in an operand. -/
def Operand.sites {level : Level} : Operand level → List Site
  | .comparison o => o.sites
  | .term o => o.sites
  | .factor o => o.sites
  | .unary u => u.sites

/-- The sites in an operand with signs. -/
def Unary.sites : Unary → List Site
  | .front token _ _ right => behind [token] right.sites
  | .behind left _ => left.sites

/-- The sites in a primary expression with argument lists. -/
def Call.sites : Call → List Site
  | .mk callee more => callee.sites ++ behind callee.tokens more.sites

/-- The sites in argument lists. -/
def Calls.sites : Calls → List Site
  | .nil => []
  | .cons left args right more =>
    behind [left.token] args.sites ++ behind (left.token :: args.tokens ++ [right.token]) more.sites

/-- The sites in a list of expressions. -/
def Exprs.sites : Exprs → List Site
  | .none => []
  | .some items => items.sites

/-- The sites in one or more expressions. -/
def MoreExprs.sites : MoreExprs → List Site
  | .last item => item.sites
  | .cons item comma more => item.sites ++ behind (item.tokens ++ [comma.token]) more.sites

/-- The sites in a primary expression. -/
def Primary.sites : Primary → List Site
  | .atom _ _ _ => []
  | .paren left e _ => behind [left.token] e.sites
  | .array left items _ => behind [left.token] items.sites

end

mutual

/-- The sites in a statement. -/
def Stmt.sites : Stmt → List Site
  | .letDecl keyword name declared sign value _ | .constDecl keyword name declared sign value _ =>
    behind (keyword.token :: name.token :: declared.tokens ++ [sign.token]) value.sites
  | .function keyword name left params right declared body =>
    behind (keyword.token :: name.token :: left.token :: params.tokens ++ right.token ::
      declared.tokens) body.sites
  | .ret _ _ => []
  | .retValue keyword value _ => behind [keyword.token] value.sites
  | .branch b => b.sites
  | .loop keyword cursor word range body =>
    behind [keyword.token, cursor.token, word.token] range.sites ++
      behind (keyword.token :: cursor.token :: word.token :: range.tokens) body.sites
  | .expr value _ => value.sites

/-- The sites in a choice. -/
def Branch.sites : Branch → List Site
  | .mk keyword condition yes no =>
    behind [keyword.token] condition.sites ++
      behind (keyword.token :: condition.tokens) yes.sites ++
      behind (keyword.token :: condition.tokens ++ yes.tokens) no.sites

/-- The sites in the second part of a choice. -/
def Otherwise.sites : Otherwise → List Site
  | .none => []
  | .block keyword no => behind [keyword.token] no.sites
  | .branch keyword no => behind [keyword.token] no.sites

/-- The sites in a block. -/
def Block.sites : Block → List Site
  | .mk left body _ => behind [left.token] body.sites

/-- The sites in some statements. -/
def Stmts.sites : Stmts → List Site
  | .nil => []
  | .cons s more => s.sites ++ behind s.tokens more.sites

end

section Places

/-- The expressions stand at their sites among the tokens. -/
def StandAt (ts : List Token) (sites : List Site) : Prop :=
  ∀ site ∈ sites, site.before ++ site.expr.tokens <+: ts

theorem StandAt.nil (ts : List Token) : StandAt ts [] := by
  intro site h
  cases h

/-- Tokens in front of a phrase move its sites by as many. -/
theorem StandAt.behind {ts : List Token} {sites : List Site} (h : StandAt ts sites)
    (front : List Token) : StandAt (front ++ ts) (behind front sites) := by
  intro site hsite
  obtain ⟨inner, hinner, rfl⟩ := List.mem_map.mp hsite
  rw [List.append_assoc]
  exact (List.prefix_append_right_inj front).mpr (h inner hinner)

/-- What stands behind the expressions does not matter. -/
theorem StandAt.mono {ts : List Token} {sites : List Site} (h : StandAt ts sites)
    (more : List Token) : StandAt (ts ++ more) sites :=
  fun site hsite => (h site hsite).trans (List.prefix_append ts more)

/-- Two lists of sites may be checked one after the other. -/
theorem StandAt.append {ts : List Token} {sites sites' : List Site} (h : StandAt ts sites)
    (h' : StandAt ts sites') : StandAt ts (sites ++ sites') := by
  intro site hsite
  rcases List.mem_append.mp hsite with hsite | hsite
  · exact h site hsite
  · exact h' site hsite

/-- A phrase that is an expression itself stands at the site with nothing in front of it. -/
theorem StandAt.cons {ts : List Token} {sites : List Site} {e : Expr} (he : e.tokens = ts)
    (h : StandAt ts sites) : StandAt ts (⟨[], e⟩ :: sites) := by
  intro site hsite
  rcases List.mem_cons.mp hsite with rfl | hsite
  · exact (congrArg (· <+: ts) he).mpr (List.prefix_refl ts)
  · exact h site hsite

mutual

/-- The sites of an expression are places among its tokens where an expression stands. -/
theorem Expr.standAt : (d : Expr) → StandAt d.tokens d.sites
  | .assign target sign value => by
    rw [Expr.sites]
    refine .cons rfl ?_
    have h := (Expr.standAt value).behind (target.tokens ++ [sign.token])
    simpa [Expr.tokens] using h
  | .equality o => by
    rw [Expr.sites]
    exact .cons rfl (Operation.standAt o)

theorem Operation.standAt {level : Level} : (d : Operation level) → StandAt d.tokens d.sites
  | .mk first more => by
    rw [Operation.tokens, Operation.sites]
    exact ((Operand.standAt first).mono _).append ((Operations.standAt more).behind _)

/-- The sites behind a first operand are places among the tokens behind it. -/
theorem Operations.standAt {level : Level} : (d : Operations level) → StandAt d.tokens d.sites
  | .nil => .nil _
  | .cons token op sign right more => by
    rw [Operations.tokens, Operations.sites]
    exact (((Operand.standAt right).behind [token]).mono _).append
      ((Operations.standAt more).behind _)

theorem Operand.standAt {level : Level} : (d : Operand level) → StandAt d.tokens d.sites
  | .comparison o => by
    rw [Operand.tokens, Operand.sites]
    exact Operation.standAt o
  | .term o => by
    rw [Operand.tokens, Operand.sites]
    exact Operation.standAt o
  | .factor o => by
    rw [Operand.tokens, Operand.sites]
    exact Operation.standAt o
  | .unary u => by
    rw [Operand.tokens, Operand.sites]
    exact Unary.standAt u

theorem Unary.standAt : (d : Unary) → StandAt d.tokens d.sites
  | .front token op sign right => by
    rw [Unary.tokens, Unary.sites]
    exact (Unary.standAt right).behind [token]
  | .behind left signs => by
    rw [Unary.tokens, Unary.sites]
    exact (Call.standAt left).mono _

theorem Call.standAt : (d : Call) → StandAt d.tokens d.sites
  | .mk callee more => by
    rw [Call.tokens, Call.sites]
    exact ((Primary.standAt callee).mono _).append ((Calls.standAt more).behind _)

/-- The sites of argument lists are places among their tokens. -/
theorem Calls.standAt : (d : Calls) → StandAt d.tokens d.sites
  | .nil => .nil _
  | .cons left args right more => by
    rw [Calls.tokens, Calls.sites]
    refine .append (((Exprs.standAt args).behind [left.token]).mono _) ?_
    have h := (Calls.standAt more).behind (left.token :: args.tokens ++ [right.token])
    simpa using h

theorem Exprs.standAt : (d : Exprs) → StandAt d.tokens d.sites
  | .none => .nil _
  | .some items => by
    rw [Exprs.tokens, Exprs.sites]
    exact MoreExprs.standAt items

theorem MoreExprs.standAt : (d : MoreExprs) → StandAt d.tokens d.sites
  | .last item => by
    rw [MoreExprs.tokens, MoreExprs.sites]
    exact Expr.standAt item
  | .cons item comma more => by
    rw [MoreExprs.tokens, MoreExprs.sites]
    refine .append ((Expr.standAt item).mono _) ?_
    have h := (MoreExprs.standAt more).behind (item.tokens ++ [comma.token])
    simpa using h

/-- An atom has no site; a parenthesis or a bracket moves those inside by one token. -/
theorem Primary.standAt : (d : Primary) → StandAt d.tokens d.sites
  | .atom token tree h => .nil _
  | .paren left e right => by
    rw [Primary.tokens, Primary.sites]
    exact ((Expr.standAt e).behind [left.token]).mono _
  | .array left items right => by
    rw [Primary.tokens, Primary.sites]
    exact ((Exprs.standAt items).behind [left.token]).mono _

end

mutual

/-- The sites of a statement are places among its tokens. What stands in front of them is what the
statement starts with. -/
theorem Stmt.standAt : (d : Stmt) → StandAt d.tokens d.sites
  | .letDecl keyword name declared sign value stop => by
    have h := (value.standAt.behind
      (keyword.token :: name.token :: declared.tokens ++ [sign.token])).mono [stop.token]
    simpa [Stmt.tokens, Stmt.sites] using h
  | .constDecl keyword name declared sign value stop => by
    have h := (value.standAt.behind
      (keyword.token :: name.token :: declared.tokens ++ [sign.token])).mono [stop.token]
    simpa [Stmt.tokens, Stmt.sites] using h
  | .function keyword name left params right declared body => by
    have h := (Block.standAt body).behind
      (keyword.token :: name.token :: left.token :: params.tokens ++ right.token ::
        declared.tokens)
    simpa [Stmt.tokens, Stmt.sites] using h
  | .ret keyword stop => .nil _
  | .retValue keyword value stop => by
    rw [Stmt.tokens, Stmt.sites]
    exact (value.standAt.behind [keyword.token]).mono _
  | .branch b => by
    rw [Stmt.tokens, Stmt.sites]
    exact Branch.standAt b
  | .loop keyword cursor word range body => by
    rw [Stmt.tokens, Stmt.sites]
    exact ((range.standAt.behind [keyword.token, cursor.token, word.token]).mono _).append
      ((Block.standAt body).behind _)
  | .expr value stop => by
    rw [Stmt.tokens, Stmt.sites]
    exact value.standAt.mono _

/-- The condition and both parts of a choice have sites, each behind what is written before it. -/
theorem Branch.standAt : (d : Branch) → StandAt d.tokens d.sites
  | .mk keyword condition yes no => by
    rw [Branch.tokens, Branch.sites]
    refine .append (.mono (.append ?_ ?_) _) ((Otherwise.standAt no).behind _)
    · exact (condition.standAt.behind [keyword.token]).mono _
    · exact (Block.standAt yes).behind _

theorem Otherwise.standAt : (d : Otherwise) → StandAt d.tokens d.sites
  | .none => .nil _
  | .block keyword no => by
    rw [Otherwise.tokens, Otherwise.sites]
    exact (Block.standAt no).behind [keyword.token]
  | .branch keyword no => by
    rw [Otherwise.tokens, Otherwise.sites]
    exact (Branch.standAt no).behind [keyword.token]

/-- The brace of a block moves the sites inside by one token. -/
theorem Block.standAt : (d : Block) → StandAt d.tokens d.sites
  | .mk left body right => by
    rw [Block.tokens, Block.sites]
    exact ((Stmts.standAt body).behind [left.token]).mono _

/-- The expressions of a program stand at their sites. -/
theorem Stmts.standAt : (d : Stmts) → StandAt d.tokens d.sites
  | .nil => .nil _
  | .cons s more => by
    rw [Stmts.tokens, Stmts.sites]
    exact ((Stmt.standAt s).mono _).append ((Stmts.standAt more).behind _)

end

end Places

section Nodes

/-- The position and the name of an assignment, and nothing for any other expression. -/
def Expr.assigned? : Expr → Option (Position × String)
  | .assign target _ _ => some (target.word.position, target.word.text)
  | .equality _ => none

/-- The assignments among the expressions at some sites. -/
def assignedAt (sites : List Site) : List (Position × String) :=
  sites.filterMap fun site => site.expr.assigned?

@[simp]
theorem assignedAt_nil : assignedAt [] = [] := rfl

/-- The assignments at the sites of two lists are those of the one and then those of the other. -/
@[simp]
theorem assignedAt_append (sites sites' : List Site) :
    assignedAt (sites ++ sites') = assignedAt sites ++ assignedAt sites' :=
  List.filterMap_append

/-- Where a site stands does not matter to what is assigned there. -/
@[simp]
theorem assignedAt_behind (front : List Token) (sites : List Site) :
    assignedAt (behind front sites) = assignedAt sites := by
  rw [assignedAt, behind, List.filterMap_map]
  rfl

/-- Signs behind an expression assign nothing. -/
theorem assignments_steps (signs : List StepSign) (left : TagScript.Expr) :
    (signs.foldl (fun e sign => .step sign.token.position e sign.op) left).assignments =
      left.assignments := by
  induction signs generalizing left with
  | nil => rfl
  | cons sign signs ih => exact ih _

/-- An atom assigns nothing. -/
theorem Atom.assignments_eq {t : Token} {e : TagScript.Expr} (h : Atom t e) :
    e.assignments = [] := by
  cases h <;> rfl

mutual

/-- The assignments in the tree of an expression are those at its sites, in the order in which they
are written. -/
theorem Expr.assignments_tree : (d : Expr) → d.tree.assignments = assignedAt d.sites
  | .assign target sign value => by
    have hvalue := Expr.assignments_tree value
    have hsites := assignedAt_behind (target.tokens ++ [sign.token]) value.sites
    rw [Expr.tree, TagScript.Expr.assignments, Expr.sites, hvalue, ← hsites]
    rfl
  | .equality o => by
    rw [Expr.tree, Expr.sites, Operation.assignments_tree o]
    rfl

/-- Both operands of an operator are searched, the left one first. -/
theorem Operation.assignments_tree {level : Level} :
    (d : Operation level) → d.tree.assignments = assignedAt d.sites
  | .mk first more => by
    rw [Operation.tree, Operation.sites, Operations.assignments_onto more,
      Operand.assignments_tree first, assignedAt_append, assignedAt_behind]

/-- An operator puts the assignments of its right operand behind those on its left. -/
theorem Operations.assignments_onto {level : Level} : (d : Operations level) →
    (left : TagScript.Expr) → (d.onto left).assignments = left.assignments ++ assignedAt d.sites
  | .nil, left => by simp [Operations.onto, Operations.sites]
  | .cons token op sign right more, left => by
    rw [Operations.onto, Operations.sites, Operations.assignments_onto more,
      TagScript.Expr.assignments, Operand.assignments_tree right, assignedAt_append,
      assignedAt_behind, assignedAt_behind, List.append_assoc]

theorem Operand.assignments_tree {level : Level} :
    (d : Operand level) → d.tree.assignments = assignedAt d.sites
  | .comparison o => by rw [Operand.tree, Operand.sites, Operation.assignments_tree o]
  | .term o => by rw [Operand.tree, Operand.sites, Operation.assignments_tree o]
  | .factor o => by rw [Operand.tree, Operand.sites, Operation.assignments_tree o]
  | .unary u => by rw [Operand.tree, Operand.sites, Unary.assignments_tree u]

/-- Neither a sign in front of an operand nor one behind it assigns. -/
theorem Unary.assignments_tree : (d : Unary) → d.tree.assignments = assignedAt d.sites
  | .front token op sign right => by
    rw [Unary.tree, Unary.sites, TagScript.Expr.assignments, Unary.assignments_tree right,
      assignedAt_behind]
  | .behind left signs => by
    rw [Unary.tree, Unary.sites, assignments_steps, Call.assignments_tree left]

theorem Call.assignments_tree : (d : Call) → d.tree.assignments = assignedAt d.sites
  | .mk callee more => by
    rw [Call.tree, Call.sites, Calls.assignments_onto more, Primary.assignments_tree callee,
      assignedAt_append, assignedAt_behind]

/-- The assignments in an argument list stand behind those of what is called. -/
theorem Calls.assignments_onto : (d : Calls) → (callee : TagScript.Expr) →
    (d.onto callee).assignments = callee.assignments ++ assignedAt d.sites
  | .nil, callee => by simp [Calls.onto, Calls.sites]
  | .cons left args right more, callee => by
    rw [Calls.onto, Calls.sites, Calls.assignments_onto more, TagScript.Expr.assignments,
      Exprs.assignments_trees args, assignedAt_append, assignedAt_behind, assignedAt_behind,
      List.append_assoc]

/-- The assignments in a list of expressions, one expression after the other. -/
theorem Exprs.assignments_trees :
    (d : Exprs) → TagScript.Expr.assignmentsAll d.trees = assignedAt d.sites
  | .none => rfl
  | .some items => by rw [Exprs.trees, Exprs.sites, MoreExprs.assignments_trees items]

theorem MoreExprs.assignments_trees :
    (d : MoreExprs) → TagScript.Expr.assignmentsAll d.trees = assignedAt d.sites
  | .last item => by
    rw [MoreExprs.trees, MoreExprs.sites, TagScript.Expr.assignmentsAll,
      Expr.assignments_tree item, TagScript.Expr.assignmentsAll, List.append_nil]
  | .cons item comma more => by
    rw [MoreExprs.trees, MoreExprs.sites, TagScript.Expr.assignmentsAll,
      Expr.assignments_tree item, MoreExprs.assignments_trees more, assignedAt_append,
      assignedAt_behind]

/-- A parenthesis is dropped from the tree, and with it no assignment. -/
theorem Primary.assignments_tree : (d : Primary) → d.tree.assignments = assignedAt d.sites
  | .atom token tree h => by
    rw [Primary.tree, h.assignments_eq]
    rfl
  | .paren left e right => by
    rw [Primary.tree, Primary.sites, Expr.assignments_tree e, assignedAt_behind]
  | .array left items right => by
    rw [Primary.tree, Primary.sites, TagScript.Expr.assignments, Exprs.assignments_trees items,
      assignedAt_behind]

end

mutual

/-- The assignments in the tree of a statement are those at its sites. -/
theorem Stmt.assignments_tree : (d : Stmt) → d.tree.assignments = assignedAt d.sites
  | .letDecl keyword name declared sign value stop => by
    rw [Stmt.tree, Stmt.sites, TagScript.Stmt.assignments, value.assignments_tree,
      assignedAt_behind]
  | .constDecl keyword name declared sign value stop => by
    rw [Stmt.tree, Stmt.sites, TagScript.Stmt.assignments, value.assignments_tree,
      assignedAt_behind]
  | .function keyword name left params right declared body => by
    rw [Stmt.tree, Stmt.sites, TagScript.Stmt.assignments, Block.assignments_trees body,
      assignedAt_behind]
  | .ret keyword stop => rfl
  | .retValue keyword value stop => by
    rw [Stmt.tree, Stmt.sites, TagScript.Stmt.assignments, value.assignments_tree,
      assignedAt_behind]
  | .branch b => by
    rw [Stmt.tree, Stmt.sites, Branch.assignments_tree b]
  | .loop keyword cursor word range body => by
    rw [Stmt.tree, Stmt.sites, TagScript.Stmt.assignments, range.assignments_tree,
      Block.assignments_trees body, assignedAt_append, assignedAt_behind, assignedAt_behind]
  | .expr value stop => by
    rw [Stmt.tree, Stmt.sites, TagScript.Stmt.assignments, value.assignments_tree]

theorem Branch.assignments_tree : (d : Branch) → d.tree.assignments = assignedAt d.sites
  | .mk keyword condition yes no => by
    have hno := Otherwise.assignments_trees no
    rw [Branch.tree, Branch.sites, assignedAt_append, assignedAt_append, assignedAt_behind,
      assignedAt_behind, assignedAt_behind, ← hno, ← condition.assignments_tree,
      ← Block.assignments_trees yes]
    cases no.trees with
    | none => simp [TagScript.Stmt.assignments, TagScript.Stmt.assignmentsAll]
    | some no => rfl

/-- A choice without a second part assigns nothing there. -/
theorem Otherwise.assignments_trees : (d : Otherwise) →
    TagScript.Stmt.assignmentsAll (d.trees.getD []) = assignedAt d.sites
  | .none => rfl
  | .block keyword no => by
    rw [Otherwise.trees, Otherwise.sites, assignedAt_behind, ← Block.assignments_trees no]
    rfl
  | .branch keyword no => by
    rw [Otherwise.trees, Otherwise.sites, assignedAt_behind, ← Branch.assignments_tree no]
    exact List.append_nil _

/-- The assignments in a block, one statement after the other. -/
theorem Block.assignments_trees :
    (d : Block) → TagScript.Stmt.assignmentsAll d.trees = assignedAt d.sites
  | .mk left body right => by
    rw [Block.trees, Block.sites, Stmts.assignments_trees body, assignedAt_behind]

/-- The assignments of a program are those among its expressions. -/
theorem Stmts.assignments_trees :
    (d : Stmts) → TagScript.Stmt.assignmentsAll d.trees = assignedAt d.sites
  | .nil => rfl
  | .cons s more => by
    rw [Stmts.trees, Stmts.sites, TagScript.Stmt.assignmentsAll, Stmt.assignments_tree s,
      Stmts.assignments_trees more, assignedAt_append, assignedAt_behind]

end

end Nodes

end Grammar

end TagScript
