import TagScript.Proofs.Grammar.Basic
import TagScript.Proofs.Parse.Plain

/-!
# Every Derived Expression Is Read

A parser that is given the tokens of a derivation, and behind them tokens that cannot go on with
the phrase, replies with the tree of the derivation and the tokens behind it. What can go on with a
phrase is told by one token: `reach` says how loose the phrases are that a token goes on with, from
the argument lists of a call up to an assignment.
-/

namespace TagScript.Grammar

open Parse (Level plain plainSteps)

/-- How loose a phrase must be for a token to go on with it. -/
def reach : Token.Kind → Nat
  | .lparen => 0
  | .increment | .decrement => 1
  | .star | .slash | .percent => 2
  | .plus | .minus => 3
  | .lt | .lte | .gt | .gte => 4
  | .eq | .neq => 5
  | .assign => 6
  | _ => 7

/-- The tokens do not go on with a phrase of looseness `n`. -/
def Stops (n : Nat) : List Token → Prop
  | [] => True
  | t :: _ => n < reach t.kind

/-- Whether a kind of token starts an expression. -/
def startsExpr : Token.Kind → Bool
  | .int | .float | .string | .kwTrue | .kwFalse | .kwNull | .ident | .lparen | .lbracket
  | .bang | .plus | .minus => true
  | _ => false

/-- The tokens start like an expression. -/
def Starts (ts : List Token) : Prop :=
  ∃ t rest, ts = t :: rest ∧ startsExpr t.kind = true

section Tables

variable {level : Level} {kind : Token.Kind}

/-- Tokens that do not go on with a loose phrase do not go on with a tighter one. -/
theorem Stops.mono {m n : Nat} {ts : List Token} (h : Stops n ts) (hm : m ≤ n) : Stops m ts := by
  cases ts with
  | nil => trivial
  | cons t ts => exact Nat.lt_of_le_of_lt hm h

/-- Whether tokens go on with a phrase is decided by the first one. -/
theorem Terminal.stops (t : Terminal kind) {n : Nat} (h : n < reach kind) (rest : List Token) :
    Stops n (t.token :: rest) := by
  change n < reach t.token.kind
  rw [t.kind_eq]
  exact h

/-- Kinds that a test tells apart are different. -/
theorem kind_ne {test : Token.Kind → Bool} {other : Token.Kind} (h : test kind = true)
    (hother : test other = false) : kind ≠ other := by
  rintro rfl
  rw [h] at hother
  cases hother

/-- The grammar and the parser have the same operators at each level. -/
theorem between_iff {op : BinaryOp} : Between level kind op ↔ level.op? kind = some op := by
  constructor
  · rintro ⟨⟩ <;> rfl
  · intro h
    unfold Level.op? at h
    split at h <;> cases h <;> constructor

/-- The grammar and the parser have the same signs in front of operands. -/
theorem inFront_iff {op : UnaryOp} : InFront kind op ↔ Parse.unaryOp? kind = some op := by
  constructor
  · rintro ⟨⟩ <;> rfl
  · intro h
    unfold Parse.unaryOp? at h
    split at h <;> cases h <;> constructor

/-- The grammar and the parser have the same signs behind operands. -/
theorem behind_iff {op : StepOp} : Behind kind op ↔ Parse.stepOp? kind = some op := by
  constructor
  · rintro ⟨⟩ <;> rfl
  · intro h
    unfold Parse.stepOp? at h
    split at h <;> cases h <;> constructor

/-- A sign between operands goes on with the operations of its level. -/
theorem Between.reach_eq {op : BinaryOp} (h : Between level kind op) :
    reach kind = level.rank + 2 := by
  cases h <;> rfl

/-- No phrase but an operand goes on with a sign behind it. -/
theorem Behind.reach_eq {op : StepOp} (h : Behind kind op) : reach kind = 1 := by
  cases h <;> rfl

/-- Tokens that do not go on with an operation of a level start with no operator of it. -/
theorem op?_eq_none {t : Token} {ts : List Token} (h : Stops (level.rank + 2) (t :: ts)) :
    level.op? t.kind = none := by
  cases hop : level.op? t.kind with
  | none => rfl
  | some op =>
    -- a sign of the level would go on with it
    have hreach := (between_iff.mpr hop).reach_eq
    exact absurd h (by simp [Stops, hreach])

/-- Tokens that do not go on with a stepped operand start with no sign behind one. -/
theorem stepOp?_eq_none {t : Token} {ts : List Token} (h : Stops 1 (t :: ts)) :
    Parse.stepOp? t.kind = none := by
  cases hop : Parse.stepOp? t.kind with
  | none => rfl
  | some op =>
    have hreach := (behind_iff.mpr hop).reach_eq
    exact absurd h (by simp [Stops, hreach])

/-- Tokens that do not go on with a call start with no parenthesis. -/
theorem ne_lparen {t : Token} {ts : List Token} (h : Stops 0 (t :: ts)) : t.kind ≠ .lparen := by
  intro hkind
  simp [Stops, hkind, reach] at h

/-- Tokens that do not go on with an expression do not start with the sign of an assignment. -/
theorem ne_assign {t : Token} {ts : List Token} (h : Stops 6 (t :: ts)) : t.kind ≠ .assign := by
  intro hkind
  simp [Stops, hkind, reach] at h

end Tables

section First

/-- Whether tokens start an expression is decided by the first one. -/
theorem Starts.append {ts : List Token} (h : Starts ts) (rest : List Token) :
    Starts (ts ++ rest) := by
  obtain ⟨t, more, rfl, ht⟩ := h
  exact ⟨t, more ++ rest, rfl, ht⟩

theorem Starts.ne_nil {ts : List Token} (h : Starts ts) : ts ≠ [] := by
  obtain ⟨t, more, rfl, ht⟩ := h
  exact List.cons_ne_nil t more

theorem starts_cons {t : Token} (h : startsExpr t.kind = true) (rest : List Token) :
    Starts (t :: rest) :=
  ⟨t, rest, rfl, h⟩

/-- Every atom starts an expression. -/
theorem Atom.starts {t : Token} {e : TagScript.Expr} (h : Atom t e) : startsExpr t.kind = true := by
  cases h with
  | int hk => rw [hk]; rfl
  | float hk => rw [hk]; rfl
  | string hk => rw [hk]; rfl
  | trueWord hk => rw [hk]; rfl
  | falseWord hk => rw [hk]; rfl
  | nullWord hk => rw [hk]; rfl
  | name hk => rw [hk]; rfl

/-- No sign in front of an operand starts a primary expression. -/
theorem Primary.first (d : Primary) :
    ∃ t rest, d.tokens = t :: rest ∧ startsExpr t.kind = true ∧ Parse.unaryOp? t.kind = none := by
  cases d with
  | atom t tree h =>
    refine ⟨t, [], rfl, h.starts, ?_⟩
    cases h with
    | int hk => rw [hk]; rfl
    | float hk => rw [hk]; rfl
    | string hk => rw [hk]; rfl
    | trueWord hk => rw [hk]; rfl
    | falseWord hk => rw [hk]; rfl
    | nullWord hk => rw [hk]; rfl
    | name hk => rw [hk]; rfl
  | paren left e right =>
    refine ⟨left.token, e.tokens ++ [right.token], by simp [tokens], ?_, ?_⟩ <;>
      rw [left.kind_eq] <;> rfl
  | array left items right =>
    refine ⟨left.token, items.tokens ++ [right.token], by simp [tokens], ?_, ?_⟩ <;>
      rw [left.kind_eq] <;> rfl

/-- A call starts with a token that starts an expression and is no sign. -/
theorem Call.first (d : Call) :
    ∃ t rest, d.tokens = t :: rest ∧ startsExpr t.kind = true ∧ Parse.unaryOp? t.kind = none := by
  obtain ⟨callee, more⟩ := d
  obtain ⟨t, rest, htokens, hstarts, hunary⟩ := callee.first
  exact ⟨t, rest ++ more.tokens, by simp [tokens, htokens], hstarts, hunary⟩

/-- A sign in front of an operand starts an expression. -/
theorem InFront.starts {kind : Token.Kind} {op : UnaryOp} (h : InFront kind op) :
    startsExpr kind = true := by
  cases h <;> rfl

/-- An operand starts with its sign or with a call. -/
theorem Unary.starts (d : Unary) : Starts d.tokens := by
  cases d with
  | front t op sign right =>
    rw [tokens]
    exact starts_cons sign.starts _
  | behind left signs =>
    obtain ⟨t, rest, htokens, hstarts, -⟩ := left.first
    rw [tokens, htokens]
    exact starts_cons hstarts _

mutual

/-- An operation starts with its first operand, at any level. -/
theorem Operation.starts {level : Level} : (d : Operation level) → Starts d.tokens
  | .mk first more => by
    rw [Operation.tokens]
    exact first.starts.append _

theorem Operand.starts {level : Level} : (d : Operand level) → Starts d.tokens
  | .comparison o => by
    rw [Operand.tokens]
    exact o.starts
  | .term o => by
    rw [Operand.tokens]
    exact o.starts
  | .factor o => by
    rw [Operand.tokens]
    exact o.starts
  | .unary u => by
    rw [Operand.tokens]
    exact u.starts

end

/-- A target starts with its name, or with parentheses around it. -/
theorem Target.starts (d : Target) : Starts d.tokens := by
  cases d with
  | name word =>
    refine starts_cons ?_ _
    rw [word.kind_eq]
    rfl
  | paren left inner right =>
    refine starts_cons ?_ _
    rw [left.kind_eq]
    rfl

/-- The first token of an expression is one of the kinds that start an expression. -/
theorem Expr.starts (d : Expr) : Starts d.tokens := by
  cases d with
  | assign target sign value =>
    rw [tokens]
    exact target.starts.append _
  | equality o =>
    rw [tokens]
    exact o.starts

/-- Some expressions start with the first of them. -/
theorem MoreExprs.starts (d : MoreExprs) : Starts d.tokens := by
  cases d with
  | last item =>
    rw [tokens]
    exact item.starts
  | cons item comma more =>
    rw [tokens]
    exact item.starts.append _

end First

/-- A single token that is an expression is read as one. -/
theorem Atom.complete {t : Token} {e : TagScript.Expr} (h : Atom t e) (rest : List Token) :
    plain (Parse.primary (t :: rest)) = .ok (e, rest) := by
  rw [Parse.plain_primary]
  cases h with
  | int hk hdigits hle =>
    have hlt : Decimal.value t.text.toList < Decimal.signedLimit :=
      Nat.lt_of_le_pred (by decide) hle
    simp [hk, Parse.integer, Decimal.int64?_of_digits hdigits.1 hdigits.2, hlt]
  | float hk htext hwhole hfraction hfinite =>
    have hdouble := Decimal.double?_of_digits hwhole.1 hwhole.2 hfraction.2
    simp [hk, Parse.double, htext, hdouble, hfinite]
  | string hk => simp [hk]
  | trueWord hk => simp [hk]
  | falseWord hk => simp [hk]
  | nullWord hk => simp [hk]
  | name hk => simp [hk]

/-- Signs behind an operand are read up to the last one. -/
theorem plainSteps_complete (signs : List StepSign) (left : TagScript.Expr) {rest : List Token}
    (h : Stops 1 rest) :
    plainSteps left (signs.map StepSign.token ++ rest) =
      (signs.foldl (fun e sign => .step sign.token.position e sign.op) left, rest) := by
  induction signs generalizing left with
  | nil =>
    cases rest with
    | nil => rfl
    | cons t rest =>
      rw [List.map_nil, List.nil_append, Parse.plainSteps_cons, stepOp?_eq_none h]
      rfl
  | cons sign signs ih =>
    rw [List.map_cons, List.cons_append, Parse.plainSteps_cons, behind_iff.mp sign.sign]
    exact ih _

/-- A single operand is an operation. -/
theorem operation_of_operand {level : Level} {ts rest : List Token} {e : TagScript.Expr}
    (h : plain (Parse.operand level ts) = .ok (e, rest)) (hrest : Stops (level.rank + 2) rest) :
    plain (Parse.operation level ts) = .ok (e, rest) := by
  simp only [Parse.plain_operation, h, Parse.ok_bind]
  rw [Parse.plain_operations]
  cases rest with
  | nil => rfl
  | cons t rest => simp only [op?_eq_none hrest]

/-- An operation of any level is an operation of the loosest one. -/
theorem equality_of_level (level : Level) {ts rest : List Token} {e : TagScript.Expr}
    (h : plain (Parse.operation level ts) = .ok (e, rest)) (hrest : Stops 5 rest) :
    plain (Parse.operation .equality ts) = .ok (e, rest) := by
  -- an operation is the single operand of an operation of the level above it
  have hnext {level next : Level} (hlevel : level.next? = some next)
      (h : plain (Parse.operation next ts) = .ok (e, rest)) (hle : level.rank + 2 ≤ 5) :
      plain (Parse.operation level ts) = .ok (e, rest) := by
    refine operation_of_operand ?_ (hrest.mono hle)
    rw [Parse.plain_operand, hlevel]
    exact h
  cases level with
  | equality => exact h
  | comparison => exact hnext rfl h (by decide)
  | term => exact hnext rfl (hnext rfl h (by decide)) (by decide)
  | factor => exact hnext rfl (hnext rfl (hnext rfl h (by decide)) (by decide)) (by decide)

/-- A primary expression that no sign starts is an operation. -/
theorem equality_of_primary {t : Token} {ts rest : List Token} {e : TagScript.Expr}
    (ht : Parse.unaryOp? t.kind = none) (h : plain (Parse.primary (t :: ts)) = .ok (e, rest))
    (hrest : Stops 5 rest) : plain (Parse.operation .equality (t :: ts)) = .ok (e, rest) := by
  have hcall : plain (Parse.call (t :: ts)) = .ok (e, rest) := by
    simp only [Parse.plain_call, h, Parse.ok_bind]
    rw [Parse.plain_calls]
    cases rest with
    | nil => rfl
    | cons u rest => simp only [if_neg (ne_lparen (hrest.mono (by decide)))]
  have hunary : plain (Parse.unary (t :: ts)) = .ok (e, rest) := by
    rw [Parse.plain_unary]
    simp only [ht, hcall, Parse.ok_bind]
    exact congrArg Except.ok (plainSteps_complete [] e (hrest.mono (by decide)))
  refine equality_of_level .factor (operation_of_operand ?_ (hrest.mono (by decide))) hrest
  rw [Parse.plain_operand]
  exact hunary

/-- An expression in parentheses is read as a primary expression. -/
theorem primary_of_paren {left right : Token} {ts rest : List Token} {e : TagScript.Expr}
    (hleft : left.kind = .lparen) (hright : right.kind = .rparen)
    (h : plain (Parse.expr ts) = .ok (e, right :: rest)) :
    plain (Parse.primary (left :: ts)) = .ok (e, rest) := by
  rw [Parse.plain_primary]
  simp only [hleft, h, Parse.ok_bind, Parse.expect_of_kind hright]

/-- An operation that no sign of an assignment follows is an expression. -/
theorem expr_of_operation {ts rest : List Token} {e : TagScript.Expr}
    (h : plain (Parse.operation .equality ts) = .ok (e, rest)) (hrest : Stops 6 rest) :
    plain (Parse.expr ts) = .ok (e, rest) := by
  rw [Parse.plain_expr, h, Parse.ok_bind]
  cases rest with
  | nil => rfl
  | cons t rest => simp only [if_neg (ne_assign hrest)]

/-- A name in parentheses is read as the name. -/
theorem Target.complete (d : Target) (rest : List Token) (h : Stops 5 rest) :
    plain (Parse.operation .equality (d.tokens ++ rest)) =
      .ok (.name d.word.position d.word.text, rest) := by
  induction d generalizing rest with
  | name word =>
    refine equality_of_primary ?_ ?_ h
    · rw [word.kind_eq]
      rfl
    · exact (Atom.name word.kind_eq).complete rest
  | paren left inner right ih =>
    have hright : Stops 6 (right.token :: rest) := right.stops (by decide) rest
    -- the closing parenthesis goes on with nothing, so the name ends there
    have hinner : plain (Parse.expr (inner.tokens ++ right.token :: rest)) = _ :=
      expr_of_operation (ih (right.token :: rest) (hright.mono (by decide))) hright
    rw [tokens, word, List.cons_append, List.cons_append, List.append_assoc, List.cons_append,
      List.nil_append]
    refine equality_of_primary ?_ ?_ h
    · rw [left.kind_eq]
      rfl
    · exact primary_of_paren left.kind_eq right.kind_eq hinner

/-- The operands behind the first one start with a sign of their level. -/
theorem Operations.stops {level : Level} (d : Operations level) {rest : List Token}
    (h : Stops (level.rank + 2) rest) : Stops (level.rank + 1) (d.tokens ++ rest) := by
  cases d with
  | nil => exact h.mono (Nat.le_succ _)
  | cons token op sign right more =>
    change level.rank + 1 < reach token.kind
    rw [sign.reach_eq]
    exact Nat.lt_succ_self _

/-- The signs behind an operand do not go on with the call in front of them. -/
theorem steps_stop (signs : List StepSign) {rest : List Token} (h : Stops 1 rest) :
    Stops 0 (signs.map StepSign.token ++ rest) := by
  cases signs with
  | nil => exact h.mono (Nat.zero_le _)
  | cons sign signs =>
    change 0 < reach sign.token.kind
    rw [sign.sign.reach_eq]
    decide

mutual

/-- The tokens of an expression are read as its tree. -/
theorem Expr.complete :
    (d : Expr) → (rest : List Token) → Stops 6 rest →
      plain (Parse.expr (d.tokens ++ rest)) = .ok (d.tree, rest)
  | .assign target sign value, rest, h => by
    -- the target is read as an operation, and the sign `=` goes on with none
    have htarget := target.complete _ (sign.stops (by decide) (value.tokens ++ rest))
    have hvalue := Expr.complete value rest h
    rw [Expr.tokens, Expr.tree, List.append_assoc, List.cons_append, Parse.plain_expr, htarget]
    simp only [Parse.ok_bind, if_pos sign.kind_eq, hvalue]
  | .equality o, rest, h => by
    rw [Expr.tokens, Expr.tree]
    exact expr_of_operation (Operation.complete o rest (h.mono (by decide))) h

/-- The tokens of an operation are read as its tree. -/
theorem Operation.complete {level : Level} :
    (d : Operation level) → (rest : List Token) → Stops (level.rank + 2) rest →
      plain (Parse.operation level (d.tokens ++ rest)) = .ok (d.tree, rest)
  | .mk first more, rest, h => by
    -- what follows the first operand is a sign of this level, which is looser than the operand
    have hfirst := Operand.complete first (more.tokens ++ rest) (more.stops h)
    rw [Operation.tokens, Operation.tree, List.append_assoc, Parse.plain_operation, hfirst]
    exact Operations.complete more first.tree rest h

/-- The tokens of the other operands are read onto the tree of those before them. -/
theorem Operations.complete {level : Level} :
    (d : Operations level) → (left : TagScript.Expr) → (rest : List Token) →
      Stops (level.rank + 2) rest →
      plain (Parse.operations level left (d.tokens ++ rest)) = .ok (d.onto left, rest)
  | .nil, left, rest, h => by
    rw [Operations.tokens, List.nil_append, Operations.onto, Parse.plain_operations]
    cases rest with
    | nil => rfl
    | cons t rest => simp only [op?_eq_none h]
  | .cons token op sign right more, left, rest, h => by
    have hright := Operand.complete right (more.tokens ++ rest) (more.stops h)
    rw [Operations.tokens, Operations.onto, List.cons_append, List.cons_append,
      List.append_assoc, Parse.plain_operations]
    simp only [between_iff.mp sign, hright, Parse.ok_bind]
    exact Operations.complete more _ rest h

/-- The tokens of an operand are read as its tree. -/
theorem Operand.complete {level : Level} :
    (d : Operand level) → (rest : List Token) → Stops (level.rank + 1) rest →
      plain (Parse.operand level (d.tokens ++ rest)) = .ok (d.tree, rest)
  | .comparison o, rest, h => by
    rw [Parse.plain_operand]
    exact Operation.complete o rest h
  | .term o, rest, h => by
    rw [Parse.plain_operand]
    exact Operation.complete o rest h
  | .factor o, rest, h => by
    rw [Parse.plain_operand]
    exact Operation.complete o rest h
  | .unary u, rest, h => by
    rw [Parse.plain_operand]
    exact Unary.complete u rest h

/-- The tokens of an operand with signs are read as its tree. -/
theorem Unary.complete :
    (d : Unary) → (rest : List Token) → Stops 1 rest →
      plain (Parse.unary (d.tokens ++ rest)) = .ok (d.tree, rest)
  | .front token op sign right, rest, h => by
    have hright := Unary.complete right rest h
    rw [Unary.tokens, Unary.tree, List.cons_append, Parse.plain_unary]
    simp only [inFront_iff.mp sign, hright, Parse.ok_bind]
  | .behind left signs, rest, h => by
    have hleft := Call.complete left _ (steps_stop signs h)
    -- no call starts with a sign, so the parser does not take the other branch
    obtain ⟨t, more, htokens, -, hunary⟩ := left.first
    rw [Unary.tokens, Unary.tree, List.append_assoc]
    rw [htokens, List.cons_append] at hleft ⊢
    rw [Parse.plain_unary]
    simp only [hunary, hleft, Parse.ok_bind]
    exact congrArg Except.ok (plainSteps_complete signs left.tree h)

/-- The tokens of a call are read as its tree. -/
theorem Call.complete :
    (d : Call) → (rest : List Token) → Stops 0 rest →
      plain (Parse.call (d.tokens ++ rest)) = .ok (d.tree, rest)
  | .mk callee more, rest, h => by
    have hcallee := Primary.complete callee (more.tokens ++ rest)
    rw [Call.tokens, Call.tree, List.append_assoc, Parse.plain_call, hcallee]
    exact Calls.complete more callee.tree rest h

/-- The tokens of argument lists are read onto the tree of what is called. -/
theorem Calls.complete :
    (d : Calls) → (callee : TagScript.Expr) → (rest : List Token) → Stops 0 rest →
      plain (Parse.calls callee (d.tokens ++ rest)) = .ok (d.onto callee, rest)
  | .nil, callee, rest, h => by
    rw [Calls.tokens, List.nil_append, Calls.onto, Parse.plain_calls]
    cases rest with
    | nil => rfl
    | cons t rest => exact if_neg (ne_lparen h)
  | .cons left args right more, callee, rest, h => by
    have hargs := Exprs.complete args .argsNext right.token (.inl right.kind_eq)
      (more.tokens ++ rest)
    rw [right.kind_eq] at hargs
    rw [Calls.tokens, Calls.onto, List.cons_append, List.cons_append, List.append_assoc,
      List.cons_append, Parse.plain_calls]
    simp only [if_pos left.kind_eq, hargs, Parse.ok_bind]
    exact Calls.complete more _ rest h

/-- The tokens of a list of expressions and a closing token are read as the trees. -/
theorem Exprs.complete :
    (d : Exprs) → (problem : Parse.Problem) → (close : Token) →
      close.kind = .rparen ∨ close.kind = .rbracket → (rest : List Token) →
      plain (Parse.items close.kind problem (d.tokens ++ close :: rest)) = .ok (d.trees, rest)
  | .none, problem, close, _, rest => by
    rw [Exprs.tokens, List.nil_append, Exprs.trees, Parse.plain_items]
    exact if_pos rfl
  | .some items, problem, close, hclose, rest => by
    have hitems := MoreExprs.complete items problem close hclose rest
    obtain ⟨t, more, htokens, hstarts⟩ := items.starts
    -- the first token of an expression closes no list
    have hne : t.kind ≠ close.kind := by
      refine kind_ne hstarts ?_
      obtain hk | hk := hclose <;> rw [hk] <;> rfl
    rw [Exprs.tokens, Exprs.trees]
    rw [htokens, List.cons_append] at hitems ⊢
    rw [Parse.plain_items]
    simp only [if_neg hne]
    exact hitems

/-- The tokens of one or more expressions and a closing token are read as the trees. -/
theorem MoreExprs.complete :
    (d : MoreExprs) → (problem : Parse.Problem) → (close : Token) →
      close.kind = .rparen ∨ close.kind = .rbracket → (rest : List Token) →
      plain (Parse.moreItems close.kind problem (d.tokens ++ close :: rest)) = .ok (d.trees, rest)
  | .last item, problem, close, hclose, rest => by
    have hitem := Expr.complete item (close :: rest) (by
      obtain hk | hk := hclose <;> simp [Stops, hk, reach])
    -- the parser looks for a comma before it looks for the closing token
    have hcomma : close.kind ≠ .comma := by
      obtain hk | hk := hclose <;> simp [hk]
    rw [MoreExprs.tokens, MoreExprs.trees, Parse.plain_moreItems, hitem]
    simp only [Parse.ok_bind, if_neg hcomma, if_true]
  | .cons item comma more, problem, close, hclose, rest => by
    have hitem := Expr.complete item (comma.token :: (more.tokens ++ close :: rest))
      (comma.stops (by decide) _)
    have hmore := MoreExprs.complete more problem close hclose rest
    rw [MoreExprs.tokens, MoreExprs.trees, List.append_assoc, List.cons_append,
      Parse.plain_moreItems, hitem]
    simp only [Parse.ok_bind, if_pos comma.kind_eq, hmore]

/-- The tokens of a primary expression are read as its tree. -/
theorem Primary.complete :
    (d : Primary) → (rest : List Token) →
      plain (Parse.primary (d.tokens ++ rest)) = .ok (d.tree, rest)
  | .atom t tree h, rest => h.complete rest
  | .paren left e right, rest => by
    have he := Expr.complete e (right.token :: rest) (right.stops (by decide) rest)
    rw [Primary.tokens, Primary.tree, List.cons_append, List.cons_append, List.append_assoc,
      List.cons_append, List.nil_append]
    exact primary_of_paren left.kind_eq right.kind_eq he
  | .array left items right, rest => by
    have hitems := Exprs.complete items .itemsNext right.token (.inr right.kind_eq) rest
    rw [right.kind_eq] at hitems
    rw [Primary.tokens, Primary.tree, List.cons_append, List.cons_append, List.append_assoc,
      List.cons_append, List.nil_append, Parse.plain_primary]
    simp only [left.kind_eq, hitems, Parse.ok_bind]

end

end TagScript.Grammar
