import TagScript.Proofs.Grammar.Complete.Expr

/-!
# Expressions Have One Derivation

Two derivations with the same tokens are the same derivation. Where the tokens of a phrase are
followed by others, completeness says where the phrase ends: the parser reads both derivations from
the same tokens and leaves one rest, so the phrases have the same tokens too (`eq_of_reads`).
Everything else is decided by the first token of what follows.
-/

namespace TagScript.Grammar

open Parse (Level plain)

/-- Phrases that a parser tells from what follows them are equal where the tokens are. -/
theorem eq_of_reads {α : Type} (f : List Token → Except Parse.ParseError (α × List Token))
    {ts ts' rest rest' : List Token} {a a' : α} (h : f (ts ++ rest) = .ok (a, rest))
    (h' : f (ts' ++ rest') = .ok (a', rest')) (htokens : ts ++ rest = ts' ++ rest') :
    ts = ts' ∧ rest = rest' := by
  rw [htokens, h'] at h
  cases h
  exact ⟨List.append_cancel_right htokens, rfl⟩

/-- Phrases that a closing token follows are equal where the tokens are. -/
theorem eq_of_closed {ts ts' rest : List Token} {t t' : Token}
    (h : ts ++ t :: rest = ts' ++ t' :: rest) : ts = ts' ∧ t = t' := by
  -- the same tokens follow, so the phrases with their closing tokens are equal
  have hfront : ts ++ [t] = ts' ++ [t'] := List.append_cancel_right (by simpa using h)
  simpa using List.append_inj' hfront rfl

section Tokens

variable {kind : Token.Kind}

/-- A terminal is its token. -/
theorem Terminal.unique {t t' : Terminal kind} (h : t.token = t'.token) : t = t' := by
  cases t
  cases h
  rfl

/-- The token of a sign tells which sign it is. -/
theorem StepSign.unique {s s' : StepSign} (h : s.token = s'.token) : s = s' := by
  obtain ⟨t, op, hop⟩ := s
  obtain ⟨t', op', hop'⟩ := s'
  cases h
  rw [behind_iff] at hop hop'
  rw [hop] at hop'
  cases hop'
  rfl

/-- A token is one expression at most. -/
theorem Atom.unique {t : Token} {e e' : TagScript.Expr} (h : Atom t e) (h' : Atom t e') :
    e = e' := by
  have hread := h.complete []
  rw [h'.complete []] at hread
  cases hread
  rfl

/-- Where a target ends is determined by the tokens. -/
theorem Target.split (d d' : Target) {rest rest' : List Token} (h : Stops 5 rest)
    (h' : Stops 5 rest') (htokens : d.tokens ++ rest = d'.tokens ++ rest') :
    d.tokens = d'.tokens ∧ rest = rest' :=
  eq_of_reads (fun ts => plain (Parse.operation .equality ts)) (d.complete rest h)
    (d'.complete rest' h') htokens

/-- The tokens of a target tell how many parentheses it has. -/
theorem Target.unique (d d' : Target) (h : d.tokens = d'.tokens) : d = d' := by
  induction d generalizing d' with
  | name word =>
    cases d' with
    | name word' =>
      rw [Terminal.unique (List.head_eq_of_cons_eq h)]
    | paren left' inner' right' =>
      have hlength := congrArg List.length h
      simp [tokens] at hlength
  | paren left inner right ih =>
    cases d' with
    | name word' =>
      have hlength := congrArg List.length h
      simp [tokens] at hlength
    | paren left' inner' right' =>
      obtain ⟨hleft, hrest⟩ := List.cons_eq_cons.mp h
      obtain ⟨hinner, hright⟩ := eq_of_closed hrest
      rw [Terminal.unique hleft, ih inner' hinner, Terminal.unique hright]

end Tokens

section Split

variable {rest rest' : List Token}

/-- Where an expression ends is determined by the tokens, if nothing behind it goes on with one. -/
theorem Expr.split (d d' : Expr) (h : Stops 6 rest) (h' : Stops 6 rest')
    (htokens : d.tokens ++ rest = d'.tokens ++ rest') : d.tokens = d'.tokens ∧ rest = rest' :=
  eq_of_reads (fun ts => plain (Parse.expr ts)) (d.complete rest h) (d'.complete rest' h') htokens

/-- Where a first operand ends is determined by the tokens. -/
theorem Operand.split {level : Level} (d d' : Operand level) (more more' : Operations level)
    (h : d.tokens ++ more.tokens = d'.tokens ++ more'.tokens) :
    d.tokens = d'.tokens ∧ more.tokens = more'.tokens := by
  have hstops (m : Operations level) : Stops (level.rank + 1) m.tokens := by
    have := m.stops (show Stops (level.rank + 2) [] from trivial)
    rwa [List.append_nil] at this
  exact eq_of_reads (fun ts => plain (Parse.operand level ts)) (d.complete _ (hstops more))
    (d'.complete _ (hstops more')) h

/-- Where a call ends and its signs begin is determined by the tokens. -/
theorem Call.split (d d' : Call) (signs signs' : List StepSign)
    (h : d.tokens ++ signs.map StepSign.token = d'.tokens ++ signs'.map StepSign.token) :
    d.tokens = d'.tokens ∧ signs.map StepSign.token = signs'.map StepSign.token := by
  have hstops (signs : List StepSign) : Stops 0 (signs.map StepSign.token) := by
    have := steps_stop signs (show Stops 1 [] from trivial)
    rwa [List.append_nil] at this
  exact eq_of_reads (fun ts => plain (Parse.call ts)) (d.complete _ (hstops signs))
    (d'.complete _ (hstops signs')) h

/-- Where a primary expression ends is determined by the tokens, whatever follows. -/
theorem Primary.split (d d' : Primary) (h : d.tokens ++ rest = d'.tokens ++ rest') :
    d.tokens = d'.tokens ∧ rest = rest' :=
  eq_of_reads (fun ts => plain (Parse.primary ts)) (d.complete rest) (d'.complete rest') h

/-- A list of expressions ends at the parenthesis that closes it. -/
theorem Exprs.split (d d' : Exprs) (right right' : Terminal .rparen)
    (h : d.tokens ++ right.token :: rest = d'.tokens ++ right'.token :: rest') :
    d.tokens = d'.tokens ∧ right = right' ∧ rest = rest' := by
  have hd := d.complete .argsNext right.token (.inl right.kind_eq) rest
  have hd' := d'.complete .argsNext right'.token (.inl right'.kind_eq) rest'
  rw [right.kind_eq, h] at hd
  rw [right'.kind_eq, hd] at hd'
  -- both lists are read from the same tokens and leave the same rest
  obtain rfl : rest = rest' := congrArg Prod.snd (Except.ok.inj hd')
  obtain ⟨htokens, hright⟩ := eq_of_closed h
  exact ⟨htokens, Terminal.unique hright, rfl⟩

/-- What is assigned to is no operation with the sign `=` in it. -/
theorem Operation.ne_assign (d : Operation .equality) (target : Target) (sign : Terminal .assign)
    (value : Expr) : (Expr.assign target sign value).tokens ≠ (Expr.equality d).tokens := by
  intro h
  -- the parser would stop in front of the sign on one side and read everything on the other
  have hd := d.complete [] trivial
  have htarget := target.complete _ (sign.stops (by decide) value.tokens)
  rw [Expr.tokens, Expr.tokens] at h
  rw [List.append_nil, ← h, htarget] at hd
  cases congrArg Prod.snd (Except.ok.inj hd)

/-- A call does not start with a sign in front of an operand. -/
theorem Call.ne_front (d : Call) {token : Token} {op : UnaryOp} {right : Unary}
    (sign : InFront token.kind op) (signs : List StepSign) :
    (Unary.front token op sign right).tokens ≠ (Unary.behind d signs).tokens := by
  -- the first token of a call is no sign that stands in front of an operand
  obtain ⟨t, rest, htokens, -, hunary⟩ := d.first
  rw [Unary.tokens, Unary.tokens, htokens, List.cons_append]
  intro h
  rw [← List.head_eq_of_cons_eq h, inFront_iff.mp sign] at hunary
  cases hunary

/-- An expression does not go on behind a comma. -/
theorem Expr.ne_cons (d item : Expr) (comma : Terminal .comma) (more : MoreExprs) :
    (MoreExprs.last d).tokens ≠ (MoreExprs.cons item comma more).tokens := by
  intro h
  rw [MoreExprs.tokens, MoreExprs.tokens, ← List.append_nil d.tokens] at h
  obtain ⟨-, hrest⟩ := d.split item (show Stops 6 [] from trivial)
    (comma.stops (by decide) more.tokens) h
  cases hrest

end Split

mutual

/-- The tokens of an expression have one derivation. Each case compares two derivations that begin
alike; those that begin in different ways have different tokens. -/
theorem Expr.unique : (d d' : Expr) → d.tokens = d'.tokens → d = d'
  | .assign target sign value, .assign target' sign' value', h => by
    obtain ⟨htarget, hrest⟩ := target.split target' (sign.stops (by decide) _)
      (sign'.stops (by decide) _) h
    obtain ⟨hsign, hvalue⟩ := List.cons_eq_cons.mp hrest
    rw [target.unique target' htarget, Terminal.unique hsign, Expr.unique value value' hvalue]
  | .assign target sign value, .equality o, h => (o.ne_assign target sign value h).elim
  | .equality o, .assign target sign value, h => (o.ne_assign target sign value h.symm).elim
  | .equality o, .equality o', h => congrArg Expr.equality (Operation.unique o o' h)
termination_by structural d => d

theorem Operation.unique {level : Level} :
    (d d' : Operation level) → d.tokens = d'.tokens → d = d'
  | .mk first more, .mk first' more', h => by
    obtain ⟨hfirst, hmore⟩ := first.split first' more more' h
    rw [Operand.unique first first' hfirst, Operations.unique more more' hmore]
termination_by structural d => d

/-- Operators and operands group in one way. -/
theorem Operations.unique {level : Level} :
    (d d' : Operations level) → d.tokens = d'.tokens → d = d'
  | .nil, .nil, _ => rfl
  | .nil, .cons .., h => nomatch h
  | .cons .., .nil, h => nomatch h
  | .cons token op sign right more, .cons token' op' sign' right' more', h => by
    -- a token is the sign of one operator of the level
    obtain ⟨rfl, hrest⟩ := List.cons_eq_cons.mp h
    obtain rfl : op = op' := by
      rw [between_iff] at sign sign'
      rw [sign] at sign'
      exact Option.some.inj sign'
    obtain ⟨hright, hmore⟩ := right.split right' more more' hrest
    rw [Operand.unique right right' hright, Operations.unique more more' hmore]
termination_by structural d => d

/-- At each level there is one way to derive an operand. -/
theorem Operand.unique {level : Level} :
    (d d' : Operand level) → d.tokens = d'.tokens → d = d'
  | .comparison o, .comparison o', h => congrArg Operand.comparison (Operation.unique o o' h)
  | .term o, .term o', h => congrArg Operand.term (Operation.unique o o' h)
  | .factor o, .factor o', h => congrArg Operand.factor (Operation.unique o o' h)
  | .unary u, .unary u', h => congrArg Operand.unary (Unary.unique u u' h)
termination_by structural d => d

/-- A sign stands in front of its operand or behind it, and the first token tells which. -/
theorem Unary.unique : (d d' : Unary) → d.tokens = d'.tokens → d = d'
  | .front token op sign right, .front token' op' sign' right', h => by
    obtain ⟨rfl, hright⟩ := List.cons_eq_cons.mp h
    obtain rfl : op = op' := by
      rw [inFront_iff] at sign sign'
      rw [sign] at sign'
      exact Option.some.inj sign'
    rw [Unary.unique right right' hright]
  | .front token op sign right, .behind left signs, h => (left.ne_front sign signs h).elim
  | .behind left signs, .front token op sign right, h => (left.ne_front sign signs h.symm).elim
  | .behind left signs, .behind left' signs', h => by
    obtain ⟨hleft, hsigns⟩ := left.split left' signs signs' h
    rw [Call.unique left left' hleft,
      (List.map_inj_right fun _ _ => StepSign.unique).mp hsigns]
termination_by structural d => d

/-- Where the argument lists begin is determined by the tokens. -/
theorem Call.unique : (d d' : Call) → d.tokens = d'.tokens → d = d'
  | .mk callee more, .mk callee' more', h => by
    obtain ⟨hcallee, hmore⟩ := callee.split callee' h
    rw [Primary.unique callee callee' hcallee, Calls.unique more more' hmore]
termination_by structural d => d

/-- Argument lists end at their parentheses. -/
theorem Calls.unique : (d d' : Calls) → d.tokens = d'.tokens → d = d'
  | .nil, .nil, _ => rfl
  | .nil, .cons .., h => nomatch h
  | .cons .., .nil, h => nomatch h
  | .cons left args right more, .cons left' args' right' more', h => by
    obtain ⟨hleft, hrest⟩ := List.cons_eq_cons.mp h
    obtain ⟨hargs, hright, hmore⟩ := args.split args' right right' hrest
    rw [Terminal.unique hleft, Exprs.unique args args' hargs, hright,
      Calls.unique more more' hmore]
termination_by structural d => d

/-- An empty list has no tokens, and no other list has none. -/
theorem Exprs.unique : (d d' : Exprs) → d.tokens = d'.tokens → d = d'
  | .none, .none, _ => rfl
  | .none, .some items, h => (items.starts.ne_nil h.symm).elim
  | .some items, .none, h => (items.starts.ne_nil h).elim
  | .some items, .some items', h => congrArg Exprs.some (MoreExprs.unique items items' h)
termination_by structural d => d

theorem MoreExprs.unique : (d d' : MoreExprs) → d.tokens = d'.tokens → d = d'
  | .last item, .last item', h => congrArg MoreExprs.last (Expr.unique item item' h)
  | .last item, .cons item' comma' more', h => (item.ne_cons item' comma' more' h).elim
  | .cons item comma more, .last item', h => (item'.ne_cons item comma more h.symm).elim
  | .cons item comma more, .cons item' comma' more', h => by
    obtain ⟨hitem, hrest⟩ := item.split item' (comma.stops (by decide) _)
      (comma'.stops (by decide) _) h
    obtain ⟨hcomma, hmore⟩ := List.cons_eq_cons.mp hrest
    rw [Expr.unique item item' hitem, Terminal.unique hcomma, MoreExprs.unique more more' hmore]
termination_by structural d => d

/-- The first token tells which primary expression this is. -/
theorem Primary.unique : (d d' : Primary) → d.tokens = d'.tokens → d = d'
  | .atom token tree hatom, .atom token' tree' hatom', h => by
    obtain rfl := List.head_eq_of_cons_eq h
    obtain rfl := hatom.unique hatom'
    rfl
  | .atom token tree hatom, .paren left e right, h => by
    have hlength := congrArg List.length h
    simp [Primary.tokens] at hlength
  | .atom token tree hatom, .array left items right, h => by
    have hlength := congrArg List.length h
    simp [Primary.tokens] at hlength
  | .paren left e right, .atom token tree hatom, h => by
    have hlength := congrArg List.length h
    simp [Primary.tokens] at hlength
  | .paren left e right, .paren left' e' right', h => by
    obtain ⟨hleft, hrest⟩ := List.cons_eq_cons.mp h
    obtain ⟨he, hright⟩ := eq_of_closed hrest
    rw [Terminal.unique hleft, Expr.unique e e' he, Terminal.unique hright]
  | .paren left e right, .array left' items right', h => by
    -- a parenthesis is no bracket
    have hkind := congrArg Token.kind (List.head_eq_of_cons_eq h)
    rw [left.kind_eq, left'.kind_eq] at hkind
    cases hkind
  | .array left items right, .atom token tree hatom, h => by
    have hlength := congrArg List.length h
    simp [Primary.tokens] at hlength
  | .array left items right, .paren left' e right', h => by
    have hkind := congrArg Token.kind (List.head_eq_of_cons_eq h)
    rw [left.kind_eq, left'.kind_eq] at hkind
    cases hkind
  | .array left items right, .array left' items' right', h => by
    obtain ⟨hleft, hrest⟩ := List.cons_eq_cons.mp h
    obtain ⟨hitems, hright⟩ := eq_of_closed hrest
    rw [Terminal.unique hleft, Exprs.unique items items' hitems, Terminal.unique hright]
termination_by structural d => d

end

end TagScript.Grammar
