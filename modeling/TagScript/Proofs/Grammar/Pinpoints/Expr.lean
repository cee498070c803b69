import TagScript.Proofs.Grammar.Sound.Expr
import TagScript.Proofs.Parse.Pinpoints

/-!
# Where Reading an Expression Fails

Each parser of expressions fails at the first token that no expression has there. The proofs follow
the parsers call by call; what has to be shown of each is that the phrase it is in the middle of
can be ended. An assignment is noticed only at its sign, where the tokens in front of it are an
expression already.
-/

namespace TagScript.Grammar

open Parse (Ahead Completes Level Pinpoints Reader ahead_cons anyKind fail plain plainSteps)

/-- The kinds of tokens that go on with no expression. -/
def afterExpr (kind : Token.Kind) : Prop := 6 < reach kind

instance : DecidablePred afterExpr := fun kind => inferInstanceAs (Decidable (6 < reach kind))

/-- A token of a kind, with a text that is read where a type is expected. -/
def someToken (kind : Token.Kind) : Token := ⟨kind, "int", ⟨1, 1⟩⟩

/-- The word `null` as an operand. -/
def nullUnary : Unary :=
  .behind (.mk (.atom (someToken .kwNull) (.null ⟨1, 1⟩) (.nullWord rfl)) .nil) []

/-- The word `null` as an expression. -/
def nullExpr : Expr :=
  .equality (.mk (.comparison (.mk (.term (.mk (.factor (.mk (.unary nullUnary) .nil)) .nil)) .nil))
    .nil)

/-- Tokens that may follow an expression go on with none. -/
theorem stops_of_ahead {ts : List Token} (h : Ahead afterExpr ts) : Stops 6 ts := by
  cases ts with
  | nil => trivial
  | cons t ts => exact ahead_cons.mp h

section Absent

variable {kind : Token.Kind} {k : List Token}

theorem stops_of_afterExpr (h : afterExpr kind) : Stops 6 [someToken kind] := h

/-- A token that may follow an expression is no sign behind an operand. -/
theorem stepOp?_of_afterExpr (h : afterExpr kind) : Parse.stepOp? kind = none :=
  stepOp?_eq_none (t := someToken kind) ((stops_of_afterExpr h).mono (by decide))

/-- A token that may follow an expression is no operator. -/
theorem op?_of_afterExpr (level : Level) (h : afterExpr kind) : level.op? kind = none := by
  refine op?_eq_none (t := someToken kind) ((stops_of_afterExpr h).mono ?_)
  cases level <;> decide

theorem ne_lparen_of_afterExpr (h : afterExpr kind) : kind ≠ .lparen :=
  ne_lparen (t := someToken kind) ((stops_of_afterExpr h).mono (by decide))

theorem ne_assign_of_afterExpr (h : afterExpr kind) : kind ≠ .assign :=
  ne_assign (t := someToken kind) (stops_of_afterExpr h)

/-- Where no sign comes next, none is read. -/
theorem steps_absent (left : TagScript.Expr) (h : Ahead (Parse.stepOp? · = none) k) :
    plainSteps left k = (left, k) := by
  cases k with
  | nil => rfl
  | cons t k => rw [Parse.plainSteps_cons, ahead_cons.mp h]

/-- Where no operator comes next, the left operand is all. -/
theorem operations_absent (level : Level) (left : TagScript.Expr)
    (h : Ahead (level.op? · = none) k) :
    plain (Parse.operations level left k) = .ok (left, k) := by
  rw [Parse.plain_operations]
  cases k with
  | nil => rfl
  | cons t k => simp only [ahead_cons.mp h]

/-- Where no argument list comes next, nothing is called. -/
theorem calls_absent (callee : TagScript.Expr) (h : Ahead (· ≠ .lparen) k) :
    plain (Parse.calls callee k) = .ok (callee, k) := by
  rw [Parse.plain_calls]
  cases k with
  | nil => rfl
  | cons t k => exact if_neg (ahead_cons.mp h)

end Absent

section Endings

variable {follow : Token.Kind → Prop}

/-- A single token is completed by itself. -/
theorem completes_expect (kind : Token.Kind) (problem : Parse.Problem) {first : Token.Kind → Prop}
    (h : first kind) : Completes first follow fun ts => plain (Parse.expect kind problem ts) :=
  .token (someToken kind) h fun k _ => Parse.expect_of_kind rfl problem k

/-- A primary expression is completed by `null`, whatever follows. -/
theorem completes_primary : Completes anyKind follow fun ts => plain (Parse.primary ts) :=
  .token (someToken .kwNull) trivial fun k _ => (Atom.nullWord rfl).complete k

/-- An operand is completed by `null`. -/
theorem completes_unary : Completes anyKind afterExpr fun ts => plain (Parse.unary ts) :=
  .token (a := nullUnary.tree) (someToken .kwNull) trivial fun k hk =>
    nullUnary.complete k ((stops_of_ahead hk).mono (by decide))

/-- An expression is completed by `null`. -/
theorem completes_expr : Completes anyKind afterExpr fun ts => plain (Parse.expr ts) :=
  .token (a := nullExpr.tree) (someToken .kwNull) trivial fun k hk =>
    nullExpr.complete k (stops_of_ahead hk)

/-- Signs behind an operand are complete without any. -/
theorem completes_steps (left : TagScript.Expr) :
    Completes afterExpr afterExpr fun ts => .ok (plainSteps left ts) :=
  .nil fun _ hk => congrArg Except.ok (steps_absent left (hk.mono fun _ => stepOp?_of_afterExpr))

/-- Operators are complete without any. -/
theorem completes_operations (level : Level) (left : TagScript.Expr) :
    Completes afterExpr afterExpr fun ts => plain (Parse.operations level left ts) :=
  .nil fun _ hk => operations_absent level left (hk.mono fun _ => op?_of_afterExpr level)

/-- Argument lists are complete without any. -/
theorem completes_calls (callee : TagScript.Expr) :
    Completes afterExpr afterExpr fun ts => plain (Parse.calls callee ts) :=
  .nil fun _ hk => calls_absent callee (hk.mono fun _ => ne_lparen_of_afterExpr)

/-- The items of a list are completed by the token that closes it. -/
theorem completes_items (close : Token.Kind) (problem : Parse.Problem) :
    Completes anyKind follow fun ts => plain (Parse.items close problem ts) := by
  refine .token (a := []) (someToken close) trivial fun k _ => ?_
  rw [Parse.plain_items]
  exact if_pos rfl

end Endings

/-- The parser of a single token fails at any other. -/
theorem expect_pinpoints (kind : Token.Kind) (problem : Parse.Problem)
    {first follow : Token.Kind → Prop} (h : first kind) (ts : List Token) :
    Pinpoints first follow (fun ts => plain (Parse.expect kind problem ts)) ts := by
  have hmore : Completes first follow fun ts => plain (Parse.expect kind problem ts) :=
    completes_expect kind problem h
  cases ts with
  | nil => exact .fail_nil rfl hmore
  | cons t ts =>
    by_cases ht : t.kind = kind
    · exact .token fun k => Parse.expect_of_kind ht problem k
    · refine .fail_cons (e := ⟨problem, some t⟩) rfl (fun k => ?_) hmore
      rw [Parse.plain_expect]
      exact if_neg ht

/-- Signs behind an operand are read one by one and never refused. -/
theorem steps_pinpoints (left : TagScript.Expr) (ts : List Token) :
    Pinpoints afterExpr afterExpr (fun ts => .ok (plainSteps left ts)) ts := by
  refine .optional (Parse.stepOp? · = none) (fun _ hk => congrArg Except.ok (steps_absent left hk))
    (fun _ => stepOp?_of_afterExpr) fun t rest hts ht => ?_
  obtain ⟨op, hop⟩ := Option.ne_none_iff_exists'.mp ht
  refine .cons (fun k => ?_) (steps_pinpoints (.step t.position left op) rest)
  rw [Parse.plainSteps_cons, hop]
termination_by ts.length
decreasing_by
  rw [hts]
  exact Nat.lt_succ_self _

/-- A single token that is read as an expression or refused. -/
theorem atom_pinpoints {follow : Token.Kind → Prop} {t : Token} {ts : List Token}
    {x : Except Parse.ParseError TagScript.Expr}
    (hread : ∀ k, plain (Parse.primary (t :: k)) = (do
      let e ← x
      .ok (e, k)))
    (hfound : ∀ e, x = .error e → e.found = some t) :
    Pinpoints anyKind follow (fun ts => plain (Parse.primary ts)) (t :: ts) := by
  cases x with
  | ok e => exact .token hread
  | error e => exact .fail_cons (hfound e rfl) hread completes_primary

/-- The complaint about a whole number names the token of the number. -/
theorem found_of_integer {t : Token} {e : Parse.ParseError} (h : Parse.integer t = .error e) :
    e.found = some t := by
  unfold Parse.integer at h
  split at h <;> cases h
  rfl

/-- The complaint about a double names the token of the number. -/
theorem found_of_double {t : Token} {e : Parse.ParseError} (h : Parse.double t = .error e) :
    e.found = some t := by
  unfold Parse.double at h
  split at h <;> cases h
  rfl

section Separated

variable {α : Type}

/-- What the parsers of lists do behind an item: `more` reads the items behind a comma, and a
token of the kind `close` ends the list. -/
def separated (item : α) (close : Token.Kind) (problem : Parse.Problem) (more : Reader (List α)) :
    Reader (List α)
  | [] => fail problem []
  | t :: rest =>
    if t.kind = .comma then do
      let (items, rest) ← more rest
      .ok (item :: items, rest)
    else if t.kind = close then .ok ([item], rest)
    else fail problem (t :: rest)

variable {first follow : Token.Kind → Prop} (item : α) {close : Token.Kind}
  (problem : Parse.Problem)

/-- A list is completed behind an item by the token that closes it. -/
theorem completes_separated (more : Reader (List α)) (hfirst : first close)
    (hcomma : close ≠ .comma) :
    Completes first follow (separated item close problem more) :=
  .token (someToken close) hfirst fun _ _ => (if_neg hcomma).trans (if_pos rfl)

/-- Behind an item there is a comma, the token that closes the list, or a mistake right there. -/
theorem separated_pinpoints {more : Reader (List α)} (hfirst : first close)
    (hcomma : close ≠ .comma) (ts : List Token)
    (hmore : ∀ t rest, ts = t :: rest → Pinpoints anyKind follow more rest) :
    Pinpoints first follow (separated item close problem more) ts := by
  have hends : Completes first follow (separated item close problem more) :=
    completes_separated item problem more hfirst hcomma
  cases ts with
  | nil => exact .fail_nil rfl hends
  | cons t rest =>
    by_cases ht : t.kind = .comma
    · exact .cons (fun _ => if_pos ht) (.map (hmore t rest rfl) fun _ _ => rfl)
    · by_cases hclose : t.kind = close
      · exact .token fun _ => (if_neg ht).trans (if_pos hclose)
      · refine .fail_cons (e := ⟨problem, some t⟩) rfl (fun k => ?_) hends
        exact (if_neg ht).trans (if_neg hclose)

end Separated

mutual

/-- An expression is refused at the first token with which no expression goes on. This takes all
readers of expressions at once, by induction on the tokens that are left. -/
theorem expr_pinpoints (ts : List Token) :
    Pinpoints anyKind afterExpr (fun ts => plain (Parse.expr ts)) ts := by
  refine .congr (.bind_optional (· ≠ .assign) (b := id)
    (operation_pinpoints .equality ts) ?_ (fun _ => ne_assign_of_afterExpr)
    fun left t rest hleft ht hmore => ?_) Parse.plain_expr
  · intro left k hk
    cases k with
    | nil => rfl
    | cons t k => exact if_neg (ahead_cons.mp hk)
  · have hlt := rest_lt hleft
    have hsign : t.kind = .assign := Decidable.not_not.mp ht
    cases left with
    | name position x =>
      exact .cons (fun _ => if_pos hsign) (.map (expr_pinpoints rest) fun _ _ => rfl)
    -- any other left side is an expression that may end in front of the sign
    | _ => exact .fail_cons (e := ⟨.assignmentTarget, some t⟩) rfl (fun _ => if_pos hsign) hmore
termination_by (ts.length, 11)
decreasing_by
  · decreasing_with simp [Level.rank]
  · simp only [List.length_cons] at hlt
    decreasing_with omega

theorem operation_pinpoints (level : Level) (ts : List Token) :
    Pinpoints anyKind afterExpr (fun ts => plain (Parse.operation level ts)) ts := by
  refine .congr (.bind (operand_pinpoints level ts) (completes_operations level)
    fun left rest hleft => ?_) fun k => Parse.plain_operation k level
  have hlt := rest_lt hleft
  exact operations_pinpoints level left rest
termination_by (ts.length, 2 * level.rank + 4)

/-- The operators of a level and their operands, up to a token that is no operator of it. -/
theorem operations_pinpoints (level : Level) (left : TagScript.Expr) (ts : List Token) :
    Pinpoints afterExpr afterExpr (fun ts => plain (Parse.operations level left ts)) ts := by
  refine .optional (level.op? · = none) (fun _ => operations_absent level left)
    (fun _ => op?_of_afterExpr level) fun t rest hts ht => ?_
  obtain ⟨op, hop⟩ := Option.ne_none_iff_exists'.mp ht
  have hread (k : List Token) : plain (Parse.operations level left (t :: k)) = (do
      let (right, rest) ← plain (Parse.operand level k)
      plain (Parse.operations level (.binary t.position left op right) rest)) := by
    rw [Parse.plain_operations]
    simp only [hop]
  refine .cons hread (.bind (operand_pinpoints level rest)
    (fun right => completes_operations level (.binary t.position left op right))
    fun right more hright => ?_)
  have hlt := rest_lt hright
  exact operations_pinpoints level _ more
termination_by (ts.length, 2 * level.rank + 4)
decreasing_by
  · rw [hts, List.length_cons]
    decreasing_with omega
  · rw [hts, List.length_cons]
    decreasing_with omega

/-- An operand is read one level below, and a unary one at the last level. -/
theorem operand_pinpoints (level : Level) (ts : List Token) :
    Pinpoints anyKind afterExpr (fun ts => plain (Parse.operand level ts)) ts := by
  cases hnext : level.next? with
  | some next =>
    have hrank := Level.rank_next hnext
    refine .congr (operation_pinpoints next ts) fun k => ?_
    rw [Parse.plain_operand, hnext]
  | none =>
    refine .congr (unary_pinpoints ts) fun k => ?_
    rw [Parse.plain_operand, hnext]
termination_by (ts.length, 2 * level.rank + 3)

/-- A sign in front of an operand leaves the operand to be read. -/
theorem unary_pinpoints (ts : List Token) :
    Pinpoints anyKind afterExpr (fun ts => plain (Parse.unary ts)) ts := by
  cases ts with
  | nil => exact .fail_nil (Parse.plain_unary []) completes_unary
  | cons t ts =>
    cases hop : Parse.unaryOp? t.kind with
    | some op =>
      have hread (k : List Token) : plain (Parse.unary (t :: k)) = (do
          let (right, rest) ← plain (Parse.unary k)
          .ok (.unary t.position op right, rest)) := by
        rw [Parse.plain_unary]
        simp only [hop]
      exact .cons hread (.map (unary_pinpoints ts) fun _ _ => rfl)
    | none =>
      have hread (k : List Token) : plain (Parse.unary (t :: k)) = (do
          let (left, rest) ← plain (Parse.call (t :: k))
          .ok (plainSteps left rest)) := by
        rw [Parse.plain_unary]
        simp only [hop]
      refine .peek (.bind (call_pinpoints (t :: ts)) completes_steps
        fun left rest _ => steps_pinpoints left rest) hread completes_unary fun _ _ h => ?_
      exact rest_lt ((hread ts).trans h)
termination_by (ts.length, 2)

theorem call_pinpoints (ts : List Token) :
    Pinpoints anyKind afterExpr (fun ts => plain (Parse.call ts)) ts := by
  refine .congr (.bind (primary_pinpoints ts) completes_calls fun callee rest hcallee => ?_)
    Parse.plain_call
  have hlt := rest_lt hcallee
  exact calls_pinpoints callee rest
termination_by (ts.length, 1)

/-- Argument lists, up to a token that opens none. -/
theorem calls_pinpoints (callee : TagScript.Expr) (ts : List Token) :
    Pinpoints afterExpr afterExpr (fun ts => plain (Parse.calls callee ts)) ts := by
  refine .optional (· ≠ .lparen) (fun _ => calls_absent callee)
    (fun _ => ne_lparen_of_afterExpr) fun t rest hts ht => ?_
  have hread (k : List Token) : plain (Parse.calls callee (t :: k)) = (do
      let (args, rest) ← plain (Parse.items .rparen .argsNext k)
      plain (Parse.calls (.call callee.position callee args) rest)) := by
    rw [Parse.plain_calls]
    exact if_pos (Decidable.not_not.mp ht)
  refine .cons hread (.bind (items_pinpoints (.inl rfl) .argsNext rest)
    (fun args => completes_calls (.call callee.position callee args)) fun args more hargs => ?_)
  have hlt := rest_lt hargs
  exact calls_pinpoints _ more
termination_by (ts.length, 1)
decreasing_by
  · rw [hts, List.length_cons]
    decreasing_with omega
  · rw [hts, List.length_cons]
    decreasing_with omega

/-- The items up to the closing token, of which there may be none. -/
theorem items_pinpoints {close : Token.Kind} (hclose : close = .rparen ∨ close = .rbracket)
    {follow : Token.Kind → Prop} (problem : Parse.Problem) (ts : List Token) :
    Pinpoints anyKind follow (fun ts => plain (Parse.items close problem ts)) ts := by
  cases ts with
  | nil => exact .fail_nil (Parse.plain_items [] close problem) (completes_items close problem)
  | cons t ts =>
    by_cases ht : t.kind = close
    · refine .token (a := []) fun k => ?_
      rw [Parse.plain_items]
      exact if_pos ht
    · refine (moreItems_pinpoints hclose problem (t :: ts)).peek (fun k => ?_)
        (completes_items close problem) fun _ _ h => rest_lt h
      rw [Parse.plain_items]
      exact if_neg ht
termination_by (ts.length, 13)

/-- At least one more item up to the closing token. -/
theorem moreItems_pinpoints {close : Token.Kind} (hclose : close = .rparen ∨ close = .rbracket)
    {follow : Token.Kind → Prop} (problem : Parse.Problem) (ts : List Token) :
    Pinpoints anyKind follow (fun ts => plain (Parse.moreItems close problem ts)) ts := by
  -- the closing token ends the last item and is no comma
  have hends : afterExpr close ∧ close ≠ .comma := by
    obtain rfl | rfl := hclose <;> exact ⟨by decide, by decide⟩
  refine .congr (.bind (expr_pinpoints ts)
    (fun item => completes_separated item problem _ hends.1 hends.2) fun item rest hitem => ?_)
    fun k => Parse.plain_moreItems k close problem
  have hlt := rest_lt hitem
  refine separated_pinpoints item problem hends.1 hends.2 rest fun t more hrest => ?_
  exact moreItems_pinpoints hclose problem more
termination_by (ts.length, 12)
decreasing_by
  · decreasing_tactic
  · rw [hrest, List.length_cons] at hlt
    decreasing_with omega

/-- A token that starts no expression is refused itself, and so is a number out of bounds. -/
theorem primary_pinpoints (ts : List Token) :
    Pinpoints anyKind afterExpr (fun ts => plain (Parse.primary ts)) ts := by
  cases ts with
  | nil => exact .fail_nil (Parse.plain_primary []) completes_primary
  | cons t ts =>
    cases hk : t.kind with
    | int =>
      have hread (k : List Token) : plain (Parse.primary (t :: k)) = (do
          let e ← Parse.integer t
          .ok (e, k)) := by
        rw [Parse.plain_primary]
        simp only [hk]
      exact atom_pinpoints hread fun e h => found_of_integer h
    | float =>
      have hread (k : List Token) : plain (Parse.primary (t :: k)) = (do
          let e ← Parse.double t
          .ok (e, k)) := by
        rw [Parse.plain_primary]
        simp only [hk]
      exact atom_pinpoints hread fun e h => found_of_double h
    | lparen =>
      have hread (k : List Token) : plain (Parse.primary (t :: k)) = (do
          let (e, rest) ← plain (Parse.expr k)
          let (_, rest) ← plain (Parse.expect .rparen .parenClose rest)
          .ok (e, rest)) := by
        rw [Parse.plain_primary]
        simp only [hk]
      refine .cons hread (.bind (expr_pinpoints ts) (fun e => ?_) fun e rest _ => ?_)
      · exact .map (completes_expect .rparen .parenClose (by decide)) fun _ _ => rfl
      · exact .map (expect_pinpoints .rparen .parenClose (by decide) rest) fun _ _ => rfl
    | lbracket =>
      have hread (k : List Token) : plain (Parse.primary (t :: k)) = (do
          let (es, rest) ← plain (Parse.items .rbracket .itemsNext k)
          .ok (.array t.position es, rest)) := by
        rw [Parse.plain_primary]
        simp only [hk]
      exact .cons hread (.map (items_pinpoints (.inr rfl) .itemsNext ts) fun _ _ => rfl)
    | string => exact .token (Atom.string hk).complete
    | kwTrue => exact .token (Atom.trueWord hk).complete
    | kwFalse => exact .token (Atom.falseWord hk).complete
    | kwNull => exact .token (Atom.nullWord hk).complete
    | ident => exact .token (Atom.name hk).complete
    | illegal =>
      refine .fail_cons (e := ⟨.illegal t.text, some t⟩) rfl (fun k => ?_) completes_primary
      rw [Parse.plain_primary]
      simp only [hk]
      rfl
    | _ =>
      refine .fail_cons (e := ⟨.expression, some t⟩) rfl (fun k => ?_) completes_primary
      rw [Parse.plain_primary]
      simp only [hk]
      rfl
termination_by (ts.length, 0)

end

end TagScript.Grammar
