import TagScript.Proofs.Grammar.Complete.Expr

/-!
# Every Expression That Is Read Is Derived

Where a parser replies with a tree, the tokens it consumed have a derivation of that tree. The
proofs follow the parsers call by call and end for the same reason. Numbers must be written as the
tokenizer writes them (`Lexical`), since a parser looks only at the kind of a token before it
computes the number.

An assignment is noticed late, when its left side has been read as an operation; `Operation.target`
turns the derivation of an operation that is a mere name into one of a name that is assigned to.
-/

namespace TagScript.Grammar

open Parse (Level plain plainSteps bind_eq_ok)

/-- A number is written as digits, a number with a fraction as digits on both sides of a point. -/
def Written (t : Token) : Prop :=
  (t.kind = .int → Digits t.text.toList) ∧
    (t.kind = .float → ∃ whole fraction,
      t.text.toList = whole ++ '.' :: fraction ∧ Digits whole ∧ Digits fraction)

/-- The numbers among the tokens are written as the tokenizer writes them. -/
def Lexical (ts : List Token) : Prop :=
  ∀ t ∈ ts, Written t

section Lexical

variable {t : Token} {ts front rest : List Token}

/-- Tokens of a text are so without the first one. -/
theorem Lexical.tail (h : Lexical (t :: ts)) : Lexical ts :=
  fun u hu => h u (.tail t hu)

/-- Tokens of a text are so behind any of them. -/
theorem Lexical.behind (h : Lexical ts) (hts : ts = front ++ rest) : Lexical rest := by
  intro u hu
  refine h u ?_
  rw [hts]
  exact List.mem_append_right front hu

/-- Fewer tokens are left than the bound of a reply says. -/
theorem rest_lt {α : Type} {n : Nat} {x : Parse.Reply α n} {a : α}
    (h : plain x = .ok (a, rest)) : rest.length < n := by
  cases x with
  | error e => cases h
  | ok p =>
    cases h
    exact p.rest_lt

end Lexical

section Names

variable {p : Position} {x : String}

/-- A binary operation is no name. -/
theorem Operations.onto_eq_name {level : Level} :
    (d : Operations level) → (left : TagScript.Expr) → d.onto left = .name p x →
      d = .nil ∧ left = .name p x
  | .nil, left, h => ⟨rfl, h⟩
  | .cons token op sign right more, left, h => by
    obtain ⟨-, hleft⟩ := Operations.onto_eq_name more _ h
    cases hleft

/-- A call is no name. -/
theorem Calls.onto_eq_name :
    (d : Calls) → (callee : TagScript.Expr) → d.onto callee = .name p x →
      d = .nil ∧ callee = .name p x
  | .nil, callee, h => ⟨rfl, h⟩
  | .cons left args right more, callee, h => by
    obtain ⟨-, hcallee⟩ := Calls.onto_eq_name more _ h
    cases hcallee

/-- A step is no name. -/
theorem steps_eq_name (signs : List StepSign) (left : TagScript.Expr)
    (h : signs.foldl (fun e sign => .step sign.token.position e sign.op) left = .name p x) :
    signs = [] ∧ left = .name p x := by
  induction signs generalizing left with
  | nil => exact ⟨rfl, h⟩
  | cons sign signs ih =>
    obtain ⟨-, hleft⟩ := ih _ h
    cases hleft

mutual

/-- An operation that is a mere name is a name that can be assigned to. -/
theorem Operation.target {level : Level} :
    (d : Operation level) → d.tree = .name p x →
      ∃ t : Target, t.tokens = d.tokens ∧ t.word.position = p ∧ t.word.text = x
  | .mk first more, h => by
    -- an operation with a sign in it is no name, so there is one operand
    obtain ⟨rfl, hfirst⟩ := more.onto_eq_name _ h
    rw [Operation.tokens, Operations.tokens, List.append_nil]
    exact Operand.target first hfirst

/-- An operand with the tree of a name is a target, at any level: no operator is left in it. -/
theorem Operand.target {level : Level} :
    (d : Operand level) → d.tree = .name p x →
      ∃ t : Target, t.tokens = d.tokens ∧ t.word.position = p ∧ t.word.text = x
  | .comparison o, h => Operation.target o h
  | .term o, h => Operation.target o h
  | .factor o, h => Operation.target o h
  | .unary u, h => Unary.target u h

/-- An operand with the tree of a name has no sign. -/
theorem Unary.target :
    (d : Unary) → d.tree = .name p x →
      ∃ t : Target, t.tokens = d.tokens ∧ t.word.position = p ∧ t.word.text = x
  | .front token op sign right, h => by cases h
  | .behind left signs, h => by
    -- likewise there are no signs behind it
    obtain ⟨rfl, hleft⟩ := steps_eq_name signs _ h
    rw [Unary.tokens, List.map_nil, List.append_nil]
    exact Call.target left hleft

/-- A call with the tree of a name has no argument list. -/
theorem Call.target :
    (d : Call) → d.tree = .name p x →
      ∃ t : Target, t.tokens = d.tokens ∧ t.word.position = p ∧ t.word.text = x
  | .mk callee more, h => by
    obtain ⟨rfl, hcallee⟩ := more.onto_eq_name _ h
    rw [Call.tokens, Calls.tokens, List.append_nil]
    exact Primary.target callee hcallee

/-- A primary expression with the tree of a name is the name, with any number of parentheses around
it. -/
theorem Primary.target :
    (d : Primary) → d.tree = .name p x →
      ∃ t : Target, t.tokens = d.tokens ∧ t.word.position = p ∧ t.word.text = x
  | .atom token tree hatom, h => by
    cases hatom with
    | name hk =>
      cases h
      exact ⟨.name ⟨token, hk⟩, rfl, rfl, rfl⟩
    | _ => cases h
  | .paren left e right, h => by
    -- parentheses leave no trace in the tree
    obtain ⟨inner, htokens, hposition, htext⟩ := Expr.target e h
    refine ⟨.paren left inner right, ?_, hposition, htext⟩
    rw [Target.tokens, Primary.tokens, htokens]
  | .array left items right, h => by cases h

/-- An expression with the tree of a name may be assigned to. -/
theorem Expr.target :
    (d : Expr) → d.tree = .name p x →
      ∃ t : Target, t.tokens = d.tokens ∧ t.word.position = p ∧ t.word.text = x
  | .assign target sign value, h => by cases h
  | .equality o, h => Operation.target o h

end

end Names

/-- A token that is read as an expression is one. -/
theorem atom_sound {t : Token} (ht : Written t) :
    (∀ e, t.kind = .int → Parse.integer t = .ok e → Atom t e) ∧
      ∀ e, t.kind = .float → Parse.double t = .ok e → Atom t e := by
  constructor
  · intro e hk h
    have hdigits : Digits t.text.toList := ht.1 hk
    simp only [Parse.integer, Decimal.int64?_of_digits hdigits.1 hdigits.2] at h
    split at h
    next n hn =>
      split at hn
      next hlt =>
        cases hn
        cases h
        exact .int hk hdigits (Nat.le_pred_of_lt hlt)
      next => cases hn
    next => cases h
  · intro e hk h
    obtain ⟨whole, fraction, htext, hwhole, hfraction⟩ := ht.2 hk
    have hdouble := Decimal.double?_of_digits hwhole.1 hwhole.2 hfraction.2
    simp only [Parse.double, htext, hdouble] at h
    split at h
    next x hx =>
      split at hx
      next => cases hx
      next hfinite =>
        cases hx
        cases h
        exact .float hk htext hwhole hfraction (by simpa using hfinite)
    next => cases h

/-- The signs that are read behind an operand are derived. -/
theorem plainSteps_sound (ts : List Token) (left : TagScript.Expr) :
    ∃ signs : List StepSign, ts = signs.map StepSign.token ++ (plainSteps left ts).2 ∧
      signs.foldl (fun e sign => .step sign.token.position e sign.op) left =
        (plainSteps left ts).1 := by
  induction ts generalizing left with
  | nil => exact ⟨[], rfl, rfl⟩
  | cons t ts ih =>
    rw [Parse.plainSteps_cons]
    cases hop : Parse.stepOp? t.kind with
    | none => exact ⟨[], rfl, rfl⟩
    | some op =>
      obtain ⟨signs, htokens, htree⟩ := ih (.step t.position left op)
      -- the sign is put in front of those that are read behind it
      refine ⟨⟨t, op, behind_iff.mpr hop⟩ :: signs, ?_, htree⟩
      rw [List.map_cons, List.cons_append, ← htokens]

mutual

/-- What is read as an expression is derived by the grammar, and its derivation has the tree that
was read. This takes all readers of expressions at once, by induction on the tokens that are left.
-/
theorem expr_sound (ts : List Token) (hts : Lexical ts) {e : TagScript.Expr} {rest : List Token}
    (h : plain (Parse.expr ts) = .ok (e, rest)) :
    ∃ d : Expr, ts = d.tokens ++ rest ∧ d.tree = e := by
  rw [Parse.plain_expr] at h
  obtain ⟨⟨left, more⟩, hleft, h⟩ := bind_eq_ok.mp h
  have hlt := rest_lt hleft
  obtain ⟨o, htokens, htree⟩ := operation_sound .equality ts hts hleft
  cases more with
  | nil =>
    cases h
    exact ⟨.equality o, htokens, htree⟩
  | cons t more =>
    dsimp only at h
    split at h
    next hassign =>
      cases left with
      | name p x =>
        obtain ⟨⟨value, rest⟩, hvalue, h⟩ := bind_eq_ok.mp h
        cases h
        -- only now is it known that the left side is assigned to
        obtain ⟨target, hword, rfl, rfl⟩ := o.target htree
        obtain ⟨d, hd, rfl⟩ := expr_sound more (hts.behind htokens).tail hvalue
        refine ⟨.assign target ⟨t, hassign⟩ d, ?_, rfl⟩
        rw [Expr.tokens, hword, htokens, hd, List.append_assoc, List.cons_append]
      -- every other left side is refused
      | _ => cases h
    next =>
      cases h
      exact ⟨.equality o, htokens, htree⟩
termination_by (ts.length, 11)
decreasing_by
  · decreasing_with simp [Level.rank]
  · simp only [List.length_cons] at hlt
    decreasing_with omega

theorem operation_sound (level : Level) (ts : List Token) (hts : Lexical ts)
    {e : TagScript.Expr} {rest : List Token}
    (h : plain (Parse.operation level ts) = .ok (e, rest)) :
    ∃ d : Operation level, ts = d.tokens ++ rest ∧ d.tree = e := by
  rw [Parse.plain_operation] at h
  obtain ⟨⟨left, more⟩, hleft, h⟩ := bind_eq_ok.mp h
  -- the operand consumes a token, so the rest of the operation is shorter
  have hlt := rest_lt hleft
  obtain ⟨first, htokens, rfl⟩ := operand_sound level ts hts hleft
  obtain ⟨others, hothers, rfl⟩ := operations_sound level _ more (hts.behind htokens) h
  refine ⟨.mk first others, ?_, rfl⟩
  rw [Operation.tokens, htokens, hothers, List.append_assoc]
termination_by (ts.length, 2 * level.rank + 4)

/-- The operators of a level that are read behind a left operand are derived. -/
theorem operations_sound (level : Level) (left : TagScript.Expr) (ts : List Token)
    (hts : Lexical ts) {e : TagScript.Expr} {rest : List Token}
    (h : plain (Parse.operations level left ts) = .ok (e, rest)) :
    ∃ d : Operations level, ts = d.tokens ++ rest ∧ d.onto left = e := by
  rw [Parse.plain_operations] at h
  cases ts with
  | nil =>
    cases h
    exact ⟨.nil, rfl, rfl⟩
  | cons t ts =>
    cases hop : level.op? t.kind with
    | none =>
      simp only [hop] at h
      cases h
      exact ⟨.nil, rfl, rfl⟩
    | some op =>
      simp only [hop] at h
      obtain ⟨⟨operand, more⟩, hright, h⟩ := bind_eq_ok.mp h
      have hlt := rest_lt hright
      obtain ⟨right, htokens, rfl⟩ := operand_sound level ts hts.tail hright
      obtain ⟨others, hothers, rfl⟩ := operations_sound level _ more (hts.tail.behind htokens) h
      refine ⟨.cons t op (between_iff.mpr hop) right others, ?_, rfl⟩
      rw [Operations.tokens, htokens, hothers, List.cons_append, List.cons_append,
        List.append_assoc]
termination_by (ts.length, 2 * level.rank + 4)

/-- What is read as an operand is one of the next tighter level. -/
theorem operand_sound :
    (level : Level) → (ts : List Token) → Lexical ts →
      ∀ {e : TagScript.Expr} {rest : List Token},
      plain (Parse.operand level ts) = .ok (e, rest) →
      ∃ d : Operand level, ts = d.tokens ++ rest ∧ d.tree = e
  | .equality, ts, hts, _, _, h => by
    rw [Parse.plain_operand] at h
    obtain ⟨o, htokens, htree⟩ := operation_sound .comparison ts hts h
    exact ⟨.comparison o, htokens, htree⟩
  | .comparison, ts, hts, _, _, h => by
    rw [Parse.plain_operand] at h
    obtain ⟨o, htokens, htree⟩ := operation_sound .term ts hts h
    exact ⟨.term o, htokens, htree⟩
  | .term, ts, hts, _, _, h => by
    rw [Parse.plain_operand] at h
    obtain ⟨o, htokens, htree⟩ := operation_sound .factor ts hts h
    exact ⟨.factor o, htokens, htree⟩
  | .factor, ts, hts, _, _, h => by
    rw [Parse.plain_operand] at h
    obtain ⟨u, htokens, htree⟩ := unary_sound ts hts h
    exact ⟨.unary u, htokens, htree⟩
termination_by level ts => (ts.length, 2 * level.rank + 3)
decreasing_by all_goals decreasing_with simp [Level.rank]

/-- A sign in front of an operand, or a call with the signs behind it. -/
theorem unary_sound :
    (ts : List Token) → Lexical ts → ∀ {e : TagScript.Expr} {rest : List Token},
      plain (Parse.unary ts) = .ok (e, rest) → ∃ d : Unary, ts = d.tokens ++ rest ∧ d.tree = e
  | [], _, _, _, h => by
    rw [Parse.plain_unary] at h
    cases h
  | t :: ts, hts, e, rest, h => by
    rw [Parse.plain_unary] at h
    cases hop : Parse.unaryOp? t.kind with
    | some op =>
      simp only [hop] at h
      obtain ⟨⟨operand, more⟩, hright, h⟩ := bind_eq_ok.mp h
      cases h
      obtain ⟨right, rfl, rfl⟩ := unary_sound ts hts.tail hright
      exact ⟨.front t op (inFront_iff.mpr hop) right, rfl, rfl⟩
    | none =>
      simp only [hop] at h
      obtain ⟨⟨left, more⟩, hleft, h⟩ := bind_eq_ok.mp h
      obtain ⟨d, htokens, rfl⟩ := call_sound (t :: ts) hts hleft
      obtain ⟨signs, hsigns, htree⟩ := plainSteps_sound more d.tree
      injection h with h
      rw [h] at hsigns htree
      refine ⟨.behind d signs, ?_, htree⟩
      rw [Unary.tokens, htokens, List.append_assoc, ← hsigns]
termination_by ts => (ts.length, 2)

theorem call_sound (ts : List Token) (hts : Lexical ts) {e : TagScript.Expr}
    {rest : List Token} (h : plain (Parse.call ts) = .ok (e, rest)) :
    ∃ d : Call, ts = d.tokens ++ rest ∧ d.tree = e := by
  rw [Parse.plain_call] at h
  obtain ⟨⟨callee, more⟩, hcallee, h⟩ := bind_eq_ok.mp h
  have hlt := rest_lt hcallee
  obtain ⟨d, htokens, rfl⟩ := primary_sound ts hts hcallee
  obtain ⟨others, hothers, rfl⟩ := calls_sound _ more (hts.behind htokens) h
  refine ⟨.mk d others, ?_, rfl⟩
  rw [Call.tokens, htokens, hothers, List.append_assoc]
termination_by (ts.length, 1)

/-- The argument lists that are read behind what is called are derived. -/
theorem calls_sound (callee : TagScript.Expr) (ts : List Token) (hts : Lexical ts)
    {e : TagScript.Expr} {rest : List Token}
    (h : plain (Parse.calls callee ts) = .ok (e, rest)) :
    ∃ d : Calls, ts = d.tokens ++ rest ∧ d.onto callee = e := by
  rw [Parse.plain_calls] at h
  cases ts with
  | nil =>
    cases h
    exact ⟨.nil, rfl, rfl⟩
  | cons t ts =>
    dsimp only at h
    split at h
    next hparen =>
      obtain ⟨⟨args, more⟩, hargs, h⟩ := bind_eq_ok.mp h
      have hlt := rest_lt hargs
      obtain ⟨d, right, hright, htokens, rfl⟩ := items_sound .rparen .argsNext ts hts.tail hargs
      have hmore : Lexical more := (hts.tail.behind htokens).tail
      obtain ⟨others, hothers, rfl⟩ := calls_sound _ more hmore h
      refine ⟨.cons ⟨t, hparen⟩ d ⟨right, hright⟩ others, ?_, rfl⟩
      rw [Calls.tokens, htokens, hothers, List.cons_append, List.cons_append, List.append_assoc,
        List.cons_append]
    next =>
      cases h
      exact ⟨.nil, rfl, rfl⟩
termination_by (ts.length, 1)

/-- The items that are read are derived up to the token that closes the list. -/
theorem items_sound (close : Token.Kind) (problem : Parse.Problem) :
    (ts : List Token) → Lexical ts → ∀ {es : List TagScript.Expr} {rest : List Token},
      plain (Parse.items close problem ts) = .ok (es, rest) →
      ∃ (d : Exprs) (t : Token), t.kind = close ∧ ts = d.tokens ++ t :: rest ∧ d.trees = es
  | [], _, _, _, h => by
    rw [Parse.plain_items] at h
    cases h
  | t :: ts, hts, _, _, h => by
    rw [Parse.plain_items] at h
    dsimp only at h
    split at h
    next hclose =>
      cases h
      exact ⟨.none, t, hclose, rfl, rfl⟩
    next =>
      obtain ⟨d, u, hu, htokens, htrees⟩ := moreItems_sound close problem (t :: ts) hts h
      exact ⟨.some d, u, hu, htokens, htrees⟩
termination_by ts => (ts.length, 13)

/-- One item and the others, up to the token that closes the list. -/
theorem moreItems_sound (close : Token.Kind) (problem : Parse.Problem) (ts : List Token)
    (hts : Lexical ts) {es : List TagScript.Expr} {rest : List Token}
    (h : plain (Parse.moreItems close problem ts) = .ok (es, rest)) :
    ∃ (d : MoreExprs) (t : Token), t.kind = close ∧ ts = d.tokens ++ t :: rest ∧
      d.trees = es := by
  rw [Parse.plain_moreItems] at h
  obtain ⟨⟨item, more⟩, hitem, h⟩ := bind_eq_ok.mp h
  have hlt := rest_lt hitem
  obtain ⟨d, htokens, rfl⟩ := expr_sound ts hts hitem
  cases more with
  | nil => cases h
  | cons t more =>
    dsimp only at h
    split at h
    next hcomma =>
      obtain ⟨⟨others, rest⟩, hothers, h⟩ := bind_eq_ok.mp h
      cases h
      obtain ⟨ds, u, hu, hds, rfl⟩ :=
        moreItems_sound close problem more (hts.behind htokens).tail hothers
      refine ⟨.cons d ⟨t, hcomma⟩ ds, u, hu, ?_, rfl⟩
      rw [MoreExprs.tokens, htokens, hds, List.append_assoc, List.cons_append]
    next =>
      split at h
      next hclose =>
        cases h
        exact ⟨.last d, t, hclose, htokens, rfl⟩
      next => cases h
termination_by (ts.length, 12)
decreasing_by
  · decreasing_tactic
  · simp only [List.length_cons] at hlt
    decreasing_with omega

/-- The token that comes first tells which primary expression was read. -/
theorem primary_sound (ts : List Token) (hts : Lexical ts) {e : TagScript.Expr}
    {rest : List Token} (h : plain (Parse.primary ts) = .ok (e, rest)) :
    ∃ d : Primary, ts = d.tokens ++ rest ∧ d.tree = e := by
  rw [Parse.plain_primary] at h
  cases ts with
  | nil => cases h
  | cons t ts =>
    have ht : Written t := hts t (.head ts)
    dsimp only at h
    split at h
    next hk =>
      obtain ⟨e, he, h⟩ := bind_eq_ok.mp h
      cases h
      exact ⟨.atom t e ((atom_sound ht).1 e hk he), rfl, rfl⟩
    next hk =>
      obtain ⟨e, he, h⟩ := bind_eq_ok.mp h
      cases h
      exact ⟨.atom t e ((atom_sound ht).2 e hk he), rfl, rfl⟩
    next hk =>
      cases h
      exact ⟨.atom t _ (.string hk), rfl, rfl⟩
    next hk =>
      cases h
      exact ⟨.atom t _ (.trueWord hk), rfl, rfl⟩
    next hk =>
      cases h
      exact ⟨.atom t _ (.falseWord hk), rfl, rfl⟩
    next hk =>
      cases h
      exact ⟨.atom t _ (.nullWord hk), rfl, rfl⟩
    next hk =>
      cases h
      exact ⟨.atom t _ (.name hk), rfl, rfl⟩
    next hk =>
      obtain ⟨⟨inner, more⟩, hinner, h⟩ := bind_eq_ok.mp h
      obtain ⟨⟨right, rest⟩, hright, h⟩ := bind_eq_ok.mp h
      cases h
      obtain ⟨hclose, rfl⟩ := Parse.expect_eq_ok hright
      obtain ⟨d, rfl, rfl⟩ := expr_sound ts hts.tail hinner
      refine ⟨.paren ⟨t, hk⟩ d ⟨right, hclose⟩, ?_, rfl⟩
      simp [Primary.tokens]
    next hk =>
      obtain ⟨⟨items, more⟩, hitems, h⟩ := bind_eq_ok.mp h
      cases h
      obtain ⟨d, right, hright, rfl, rfl⟩ := items_sound .rbracket .itemsNext ts hts.tail hitems
      refine ⟨.array ⟨t, hk⟩ d ⟨right, hright⟩, ?_, rfl⟩
      simp [Primary.tokens]
    next => cases h
    next => cases h
termination_by (ts.length, 0)

end

end TagScript.Grammar
