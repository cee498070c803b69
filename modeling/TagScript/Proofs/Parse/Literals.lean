import TagScript.Proofs.Eval.Literals
import TagScript.Proofs.Grammar.Complete.Expr
import TagScript.Proofs.Token.Words

/-!
# Reading Values

Some words are read as a value (`Reads`) if the parser makes of them an expression that evaluates to
that value, wherever they stand in front of tokens that cannot go on with an expression. They are
read as nothing if the parser rejects them there. A whole number is rejected if it is beyond 64
bits; what is written around it is rejected with it.
-/

namespace TagScript.Parse

open Eval (Yields)
open Grammar (Stops startsExpr)
open Token (Word word)

/-- What comes of reading: an error, or a tree that stands in a relation to what was to be read,
with the rest of the tokens behind it. -/
def Gives {α β : Type} (R : α → β → Prop) (x : Except ParseError (α × List Token))
    (rest : List Token) : Option β → Prop
  | none => ∃ e, x = .error e
  | some b => ∃ a, x = .ok (a, rest) ∧ R a b

/-- The words are an expression that evaluates to the value, or are rejected if there is none. -/
structure Reads (ws : List Word) (v? : Option Value) : Prop where
  /-- The first word starts an expression. -/
  starts : ∃ w more, ws = w :: more ∧ startsExpr w.1 = true
  /-- The words are read up to the last one. -/
  gives : ∀ ts rest, ts.map word = ws → Stops 6 rest →
    Gives Yields (plain (expr (ts ++ rest))) rest v?

section Levels

variable {t : Token} {ts rest : List Token} {v? : Option Value}

/-- Going on from one parser to the next, where that keeps what was read and what went wrong. -/
theorem Gives.imp {α β γ : Type} {R : α → γ → Prop} {S : β → γ → Prop}
    {x : Except ParseError (α × List Token)} {y : Except ParseError (β × List Token)}
    {rest rest' : List Token} {c? : Option γ} (h : Gives R x rest c?)
    (herror : ∀ e, x = .error e → y = .error e)
    (hok : ∀ a, x = .ok (a, rest) → ∀ c, R a c → ∃ b, y = .ok (b, rest') ∧ S b c) :
    Gives S y rest' c? := by
  cases c? with
  | none =>
    obtain ⟨e, he⟩ := h
    exact ⟨e, herror e he⟩
  | some c =>
    obtain ⟨a, ha, hR⟩ := h
    exact hok a ha c hR

/-- An operation without its first operand fails as the operand does. -/
theorem operation_of_error {level : Level} {e : ParseError}
    (h : plain (operand level ts) = .error e) :
    plain (operation level ts) = .error e := by
  rw [plain_operation, h]
  rfl

/-- What goes wrong in an operand goes wrong in the expression. -/
theorem expr_of_error {e : ParseError} (h : plain (unary ts) = .error e) :
    plain (expr ts) = .error e := by
  have hfactor : plain (operation .factor ts) = .error e :=
    operation_of_error (by rw [plain_operand]; exact h)
  have hterm : plain (operation .term ts) = .error e :=
    operation_of_error (by rw [plain_operand]; exact hfactor)
  have hcomparison : plain (operation .comparison ts) = .error e :=
    operation_of_error (by rw [plain_operand]; exact hterm)
  have hequality : plain (operation .equality ts) = .error e :=
    operation_of_error (by rw [plain_operand]; exact hcomparison)
  rw [plain_expr, hequality]
  rfl

/-- What a unary operand gives, an expression gives, if nothing behind it goes on with one. -/
theorem Gives.expr (h : Gives Yields (plain (unary ts)) rest v?) (hrest : Stops 6 rest) :
    Gives Yields (plain (Parse.expr ts)) rest v? := by
  refine h.imp (fun _ => expr_of_error) fun e he v hv => ⟨e, ?_, hv⟩
  have hfive : Stops 5 rest := hrest.mono (by decide)
  have hoperand : plain (operand .factor ts) = .ok (e, rest) := by
    rw [plain_operand]
    exact he
  have hfactor := Grammar.operation_of_operand hoperand (hrest.mono (by decide))
  exact Grammar.expr_of_operation (Grammar.equality_of_level .factor hfactor hfive) hrest

/-- What a call gives, an operand without a sign gives. -/
theorem Gives.unary (h : Gives Yields (plain (call (t :: ts))) rest v?)
    (ht : unaryOp? t.kind = none) (hrest : Stops 1 rest) :
    Gives Yields (plain (Parse.unary (t :: ts))) rest v? := by
  refine h.imp (fun e he => ?_) fun e he v hv => ⟨e, ?_, hv⟩
  · rw [plain_unary]
    simp only [ht, he]
    rfl
  · rw [plain_unary]
    simp only [ht, he, ok_bind]
    exact congrArg Except.ok (Grammar.plainSteps_complete [] e hrest)

/-- What a primary expression gives, a call without an argument list gives. -/
theorem Gives.call (h : Gives Yields (plain (primary ts)) rest v?) (hrest : Stops 0 rest) :
    Gives Yields (plain (Parse.call ts)) rest v? := by
  refine h.imp (fun e he => ?_) fun e he v hv => ⟨e, ?_, hv⟩
  · rw [plain_call, he]
    rfl
  · simp only [plain_call, he, ok_bind]
    exact Grammar.Calls.complete .nil e rest hrest

end Levels

section Items

variable {wss : List (List Word)} {vs? : List (Option Value)} {ts rest : List Token}

/-- Words with commas between them are read one after the other, up to the closing token. -/
theorem gives_moreItems (h : List.Forall₂ Reads wss vs?) (hne : wss ≠ []) (problem : Problem)
    {close : Token} (hclose : close.kind = .rparen ∨ close.kind = .rbracket)
    (hts : ts.map word = [(.comma, ",")].intercalate wss) (rest : List Token) :
    Gives (List.Forall₂ Yields) (plain (moreItems close.kind problem (ts ++ close :: rest))) rest
      (vs?.mapM id) := by
  induction h generalizing ts with
  | nil => exact absurd rfl hne
  | @cons ws v? wss vs? hitem hmore ih =>
    cases hmore with
    | nil =>
      -- behind the last item stands the closing token, which goes on with no expression
      rw [List.intercalate_singleton] at hts
      have hstops : Stops 6 (close :: rest) := by
        rcases hclose with hk | hk <;> simp [Stops, hk, Grammar.reach]
      have hcomma : close.kind ≠ .comma := by
        rcases hclose with hk | hk <;> simp [hk]
      have hread := hitem.gives ts (close :: rest) hts hstops
      rw [plain_moreItems]
      cases v? with
      | none =>
        obtain ⟨e, he⟩ := hread
        exact ⟨e, by rw [he]; rfl⟩
      | some v =>
        obtain ⟨e, he, hv⟩ := hread
        refine ⟨[e], ?_, .cons hv .nil⟩
        simp only [he, ok_bind, if_neg hcomma, if_true]
    | @cons next next? wss vs? hnext hrest =>
      -- the first item ends at its comma; the induction is about what stands behind it
      rw [List.intercalate_cons_cons] at hts
      obtain ⟨tsComma, ts₂, rfl, hcomma, hts₂⟩ := List.map_eq_append_iff.mp hts
      obtain ⟨ts₁, ts₀, rfl, hts₁, hts₀⟩ := List.map_eq_append_iff.mp hcomma
      obtain ⟨comma, rfl, hword⟩ := List.map_eq_singleton_iff.mp hts₀
      have hkind : comma.kind = .comma := congrArg Prod.fst hword
      have hstops (more : List Token) : Stops 6 (comma :: more) := by
        simp [Stops, hkind, Grammar.reach]
      have hread := hitem.gives ts₁ _ hts₁ (hstops (ts₂ ++ close :: rest))
      have hitems := ih (List.cons_ne_nil _ _) hts₂
      have htext :
          ts₁ ++ [comma] ++ ts₂ ++ close :: rest = ts₁ ++ comma :: (ts₂ ++ close :: rest) := by
        simp
      rw [htext, plain_moreItems, List.mapM_cons]
      cases v? with
      | none =>
        obtain ⟨e, he⟩ := hread
        exact ⟨e, by rw [he]; rfl⟩
      | some v =>
        obtain ⟨e, he, hv⟩ := hread
        generalize (next? :: vs?).mapM id = more? at hitems ⊢
        cases more? with
        | none =>
          obtain ⟨problem, hproblem⟩ := hitems
          refine ⟨problem, ?_⟩
          simp only [he, ok_bind, if_pos hkind, hproblem]
          rfl
        | some more =>
          obtain ⟨es, hes, hmore⟩ := hitems
          refine ⟨e :: es, ?_, .cons hv hmore⟩
          simp only [he, ok_bind, if_pos hkind, hes]

/-- Words with commas between them, or none. -/
theorem gives_items (h : List.Forall₂ Reads wss vs?) (problem : Problem)
    {close : Token} (hclose : close.kind = .rparen ∨ close.kind = .rbracket)
    (hts : ts.map word = [(.comma, ",")].intercalate wss) (rest : List Token) :
    Gives (List.Forall₂ Yields) (plain (items close.kind problem (ts ++ close :: rest))) rest
      (vs?.mapM id) := by
  cases h with
  | nil =>
    obtain rfl := List.map_eq_nil_iff.mp hts
    refine ⟨[], ?_, .nil⟩
    rw [List.nil_append, plain_items]
    exact if_pos rfl
  | @cons ws v? wss vs? hitem hmore =>
    have hitems :=
      gives_moreItems (.cons hitem hmore) (List.cons_ne_nil _ _) problem hclose hts rest
    -- the first word closes no list
    obtain ⟨w, more, rfl, hstarts⟩ := hitem.starts
    rw [List.intercalate_cons_cons_left] at hts
    obtain ⟨t, ts, rfl, ht, -⟩ := List.map_eq_cons_iff.mp hts
    have hkind : t.kind ≠ close.kind := by
      rw [← congrArg Prod.fst ht] at hstarts
      refine Grammar.kind_ne hstarts ?_
      rcases hclose with hk | hk <;> rw [hk] <;> rfl
    rw [List.cons_append] at hitems ⊢
    rw [plain_items]
    simp only [if_neg hkind]
    exact hitems

end Items

section Values

/-- The literal of a single word. -/
theorem Reads.atom {w : Word} {v : Value} (hstarts : startsExpr w.1 = true)
    (hunary : unaryOp? w.1 = none)
    (h : ∀ t : Token, t.word = w → ∃ e, Grammar.Atom t e ∧ Yields e v) : Reads [w] (some v) where
  starts := ⟨w, [], rfl, hstarts⟩
  gives := by
    intro ts rest hts hrest
    obtain ⟨t, rfl, ht⟩ := List.map_eq_singleton_iff.mp hts
    obtain ⟨e, hatom, hyields⟩ := h t ht
    rw [← congrArg Prod.fst ht] at hunary
    have hprimary : Gives Yields (plain (primary (t :: rest))) rest (some v) :=
      ⟨e, hatom.complete rest, hyields⟩
    have hcall := hprimary.call (hrest.mono (by decide))
    exact (hcall.unary hunary (hrest.mono (by decide))).expr hrest

theorem reads_null : Reads [(.kwNull, "null")] (some .null) :=
  .atom rfl rfl fun _ ht => ⟨_, .nullWord (congrArg Prod.fst ht), .null _⟩

theorem reads_true : Reads [(.kwTrue, "true")] (some (.bool true)) :=
  .atom rfl rfl fun _ ht => ⟨_, .trueWord (congrArg Prod.fst ht), .bool _ _⟩

theorem reads_false : Reads [(.kwFalse, "false")] (some (.bool false)) :=
  .atom rfl rfl fun _ ht => ⟨_, .falseWord (congrArg Prod.fst ht), .bool _ _⟩

/-- A text reads as itself, as its word is the text between the quotes. -/
theorem reads_string (s : String) : Reads [(.string, s)] (some (.string s)) := by
  refine .atom rfl rfl fun t ht => ⟨_, .string (congrArg Prod.fst ht), ?_⟩
  rw [show t.text = s from congrArg Prod.snd ht]
  exact .string _ _

/-- A whole number without a sign is rejected if it is beyond 64 bits. -/
theorem gives_magnitude (n : Nat) {t : Token}
    (ht : t.word = (.int, String.ofList (Nat.toDigits 10 n))) {rest : List Token}
    (hrest : Stops 1 rest) :
    Gives Yields (plain (unary (t :: rest))) rest
      (if n < 2 ^ 63 then some (.int (Int64.ofNat n)) else none) := by
  have hkind : t.kind = .int := congrArg Prod.fst ht
  have hdigits : t.text.toList = Nat.toDigits 10 n := by
    rw [show t.text = _ from congrArg Prod.snd ht, String.toList_ofList]
  have hprimary : Gives Yields (plain (primary (t :: rest))) rest
      (if n < 2 ^ 63 then some (.int (Int64.ofNat n)) else none) := by
    rw [plain_primary]
    simp only [hkind, integer, hdigits, Decimal.int64?_toDigits]
    have hlimit : Decimal.signedLimit = 2 ^ 63 := rfl
    by_cases hn : n < 2 ^ 63
    · rw [hlimit, if_pos hn, if_pos hn]
      exact ⟨_, rfl, .int _ _⟩
    · rw [hlimit, if_neg hn, if_neg hn]
      exact ⟨_, rfl⟩
  exact (hprimary.call (hrest.mono (by decide))).unary (by rw [hkind]; rfl) hrest

/-- An integer that is not negative is its magnitude. -/
theorem ofNat_natAbs {n : Int64} (h : ¬ n.toInt < 0) : Int64.ofNat n.toInt.natAbs = n := by
  rw [← Int64.ofInt_eq_ofNat, show (n.toInt.natAbs : Int) = n.toInt by omega, Int64.ofInt_toInt]

/-- A negative integer is the opposite of its magnitude. -/
theorem neg_ofNat_natAbs {n : Int64} (h : n.toInt < 0) : -Int64.ofNat n.toInt.natAbs = n := by
  rw [Int64.neg_ofNat, show -(n.toInt.natAbs : Int) = n.toInt by omega, Int64.ofInt_toInt]

/-- The integer that is read where an integer is written: all are read as themselves but the least
one, whose magnitude is beyond 64 bits. -/
def readInteger (n : Int64) : Option Value :=
  if n = .minValue then none else some (.int n)

/-- A whole number reads as itself, or is refused if it is the least one: the digits behind its sign
are beyond 64 bits. -/
theorem reads_integer (n : Int64) : Reads (Token.integerWords n.toInt) (readInteger n) := by
  have hlow : -2 ^ 63 ≤ n.toInt := n.le_toInt
  have hhigh : n.toInt < 2 ^ 63 := n.toInt_lt
  have hleast : n = .minValue ↔ n.toInt = -2 ^ 63 := by
    rw [← Int64.toInt_inj, Int64.toInt_minValue]
  unfold Token.integerWords readInteger
  by_cases hneg : n.toInt < 0
  · -- the sign is an operator, and its operand is read before it is negated
    rw [if_pos hneg]
    refine ⟨⟨_, _, rfl, rfl⟩, fun ts rest hts hrest => ?_⟩
    obtain ⟨sign, more, rfl, hsign, hmore⟩ := List.map_eq_cons_iff.mp hts
    obtain ⟨t, rfl, ht⟩ := List.map_eq_singleton_iff.mp hmore
    have hkind : sign.kind = .minus := congrArg Prod.fst hsign
    have hmagnitude := gives_magnitude _ ht (hrest.mono (by decide))
    refine Gives.expr ?_ hrest
    rw [List.cons_append, List.singleton_append, plain_unary]
    simp only [hkind, unaryOp?]
    by_cases hn : n = .minValue
    · have hbeyond : ¬ n.toInt.natAbs < 2 ^ 63 := by
        rw [hleast.mp hn]
        decide
      rw [if_neg hbeyond] at hmagnitude
      obtain ⟨e, he⟩ := hmagnitude
      rw [if_pos hn]
      exact ⟨e, by rw [he]; rfl⟩
    · have hwithin : n.toInt.natAbs < 2 ^ 63 := by
        rw [hleast] at hn
        omega
      rw [if_pos hwithin] at hmagnitude
      obtain ⟨e, he, hyields⟩ := hmagnitude
      rw [if_neg hn]
      refine ⟨_, by rw [he]; rfl, ?_⟩
      have hnegative := hyields.negative sign.position
      rwa [neg_ofNat_natAbs hneg] at hnegative
  · have hn : n ≠ .minValue := by
      rw [Ne, hleast]
      omega
    have hwithin : n.toInt.natAbs < 2 ^ 63 := by omega
    rw [if_neg hneg, if_neg hn]
    refine ⟨⟨_, _, rfl, rfl⟩, fun ts rest hts hrest => ?_⟩
    obtain ⟨t, rfl, ht⟩ := List.map_eq_singleton_iff.mp hts
    have hmagnitude := gives_magnitude _ ht (hrest.mono (by decide))
    rw [if_pos hwithin, ofNat_natAbs hneg] at hmagnitude
    exact hmagnitude.expr hrest

variable {wss : List (List Word)} {vs? : List (Option Value)}

/-- Items of one tag in brackets are read as an array. -/
theorem reads_array (h : List.Forall₂ Reads wss vs?) {elem : Tag}
    (htag : ∀ vs, vs?.mapM id = some vs →
      (∀ v ∈ vs, v.tag = elem) ∧ (vs = [] → elem = .unknown)) :
    Reads ((.lbracket, "[") :: [(.comma, ",")].intercalate wss ++ [(.rbracket, "]")])
      ((vs?.mapM id).map (.array elem)) := by
  refine ⟨⟨_, _, rfl, rfl⟩, fun ts rest hts hrest => ?_⟩
  rw [List.cons_append] at hts
  obtain ⟨left, more, rfl, hleft, hmore⟩ := List.map_eq_cons_iff.mp hts
  obtain ⟨ts, last, rfl, hitems, hlast⟩ := List.map_eq_append_iff.mp hmore
  obtain ⟨right, rfl, hright⟩ := List.map_eq_singleton_iff.mp hlast
  have hkind : left.kind = .lbracket := congrArg Prod.fst hleft
  have hclose : right.kind = .rbracket := congrArg Prod.fst hright
  have hgives := gives_items h .itemsNext (.inr hclose) hitems rest
  rw [hclose] at hgives
  have hprimary : Gives Yields (plain (primary (left :: (ts ++ right :: rest)))) rest
      ((vs?.mapM id).map (.array elem)) := by
    rw [plain_primary]
    simp only [hkind]
    cases hvs : vs?.mapM id with
    | none =>
      rw [hvs] at hgives
      obtain ⟨e, he⟩ := hgives
      exact ⟨e, by rw [he]; rfl⟩
    | some vs =>
      rw [hvs] at hgives
      obtain ⟨es, hes, hyields⟩ := hgives
      obtain ⟨htags, hempty⟩ := htag vs hvs
      exact ⟨_, by rw [hes]; rfl, .array hyields htags hempty _⟩
  have htext : left :: (ts ++ [right]) ++ rest = left :: (ts ++ right :: rest) := by simp
  rw [htext]
  refine ((hprimary.call (hrest.mono (by decide))).unary ?_ (hrest.mono (by decide))).expr hrest
  rw [hkind]
  rfl

/-- What is read where a range is written. -/
def readRange (r : Range) : Option Value :=
  if r.start = .minValue ∨ r.stop = .minValue ∨ r.step = .minValue then none else some (.range r)

/-- The numbers of a range are read if none of them is the least one. -/
theorem mapM_readInteger (r : Range) :
    [readInteger r.start, readInteger r.stop, readInteger r.step].mapM id =
      if r.start = .minValue ∨ r.stop = .minValue ∨ r.step = .minValue then none
      else some [.int r.start, .int r.stop, .int r.step] := by
  unfold readInteger
  by_cases hstart : r.start = .minValue
  · simp [hstart]
  by_cases hstop : r.stop = .minValue
  · simp [hstart, hstop]
  by_cases hstep : r.step = .minValue
  · simp [hstart, hstop, hstep]
  · simp [hstart, hstop, hstep]

/-- The call that is written for a range is read as that range. -/
theorem reads_range (r : Range) :
    Reads ((.ident, "range") :: (.lparen, "(") :: [(.comma, ",")].intercalate
      [Token.integerWords r.start.toInt, Token.integerWords r.stop.toInt,
        Token.integerWords r.step.toInt] ++ [(.rparen, ")")]) (readRange r) := by
  refine ⟨⟨_, _, rfl, rfl⟩, fun ts rest hts hrest => ?_⟩
  rw [List.cons_append, List.cons_append] at hts
  obtain ⟨callee, more, rfl, hcallee, hmore⟩ := List.map_eq_cons_iff.mp hts
  obtain ⟨left, more, rfl, hleft, hmore⟩ := List.map_eq_cons_iff.mp hmore
  obtain ⟨ts, last, rfl, hitems, hlast⟩ := List.map_eq_append_iff.mp hmore
  obtain ⟨right, rfl, hright⟩ := List.map_eq_singleton_iff.mp hlast
  -- the tokens are the callee, the parentheses, and what stands between them
  have hname : Grammar.Atom callee (.name callee.position callee.text) :=
    .name (congrArg Prod.fst hcallee)
  have htext : callee.text = "range" := congrArg Prod.snd hcallee
  have hkind : left.kind = .lparen := congrArg Prod.fst hleft
  have hclose : right.kind = .rparen := congrArg Prod.fst hright
  have hnumbers := gives_items (.cons (reads_integer r.start) (.cons (reads_integer r.stop)
    (.cons (reads_integer r.step) .nil))) .argsNext (.inl hclose) hitems rest
  rw [hclose, mapM_readInteger] at hnumbers
  have hcall : Gives Yields (plain (call (callee :: left :: (ts ++ right :: rest)))) rest
      (readRange r) := by
    simp only [plain_call, hname.complete, ok_bind]
    rw [plain_calls, readRange]
    simp only [if_pos hkind]
    -- the least integer among the bounds fails as an argument, and with it the call
    split
    next hleast =>
      rw [if_pos hleast] at hnumbers
      obtain ⟨e, he⟩ := hnumbers
      exact ⟨e, by rw [he]; rfl⟩
    next hleast =>
      rw [if_neg hleast] at hnumbers
      obtain ⟨es, hes, hyields⟩ := hnumbers
      have hcalls := Grammar.Calls.complete .nil
        (.call callee.position (.name callee.position callee.text) es) rest (hrest.mono (by decide))
      refine ⟨_, by rw [hes]; exact hcalls, ?_⟩
      rw [htext]
      exact .range hyields _ _
  have htokens : callee :: left :: (ts ++ [right]) ++ rest =
      callee :: left :: (ts ++ right :: rest) := by simp
  rw [htokens]
  refine (hcall.unary ?_ (hrest.mono (by decide))).expr hrest
  rw [show callee.kind = .ident from congrArg Prod.fst hcallee]
  rfl

end Values

end TagScript.Parse
