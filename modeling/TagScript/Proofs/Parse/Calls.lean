import TagScript.Proofs.Grammar.Pinpoints.Expr
import TagScript.Proofs.Parse.Unrolling

/-!
# What a Parser Does With Its Calls

A parser does its task as long as the parsers it calls do theirs (`Does`): it gives the reply it
should, within its tokens, and where it succeeds it has consumed a token. The parsers it calls are
those with fewer tokens left, and those with as many tokens but of a lower rank (`DoesBelow`). Each
lemma is one parser read from its first call to its last; `Follows` carries along that both sides
are the same and how many tokens may be left.
-/

namespace TagScript.Parse

variable {α β : Type} {ts rest : List Token}

/-- A reply to the tokens `ts` stays within them: what was read is the front of them, and no token
at all only where `idle` says so; or they are refused at one of them or at their end. -/
inductive Stays (idle : α → Prop) (ts : List Token) : Except ParseError (α × List Token) → Prop
  | reads {a : α} {rest : List Token} (front : List Token) (split : ts = front ++ rest)
      (moved : front = [] → idle a) : Stays idle ts (.ok (a, rest))
  | refuses {e : ParseError} {rest : List Token} (front : List Token) (split : ts = front ++ rest)
      (found : e.found = rest.head?) : Stays idle ts (.error e)

/-- `x` is the reply `y`, which stays within the tokens. -/
structure Follows (idle : α → Prop) (ts : List Token) (x y : Except ParseError (α × List Token)) :
    Prop where
  same : x = y
  stays : Stays idle ts y

section Follows

variable {idle idle₁ : α → Prop} {idle' : β → Prop} {x y : Except ParseError (α × List Token)}
  {f g : α × List Token → Except ParseError (β × List Token)}

/-- A reply to the tokens behind others that have been consumed. -/
theorem Stays.behind (front : List Token) (h : Stays idle rest y)
    (moved : front = [] → ∀ a, idle a → idle₁ a) : Stays idle₁ (front ++ rest) y := by
  cases h with
  | reads right split moved' =>
    rw [split, ← List.append_assoc]
    refine .reads (front ++ right) rfl fun hnil => ?_
    obtain ⟨hfront, hright⟩ := List.append_eq_nil_iff.mp hnil
    exact moved hfront _ (moved' hright)
  | refuses right split found =>
    rw [split, ← List.append_assoc]
    exact .refuses (front ++ right) rfl found

/-- A weaker condition on readers that consume nothing. -/
theorem Follows.mono (h : Follows idle ts x y) (himp : ∀ a, idle a → idle₁ a) :
    Follows idle₁ ts x y :=
  ⟨h.same, h.stays.behind [] fun _ => himp⟩

/-- A reader that consumes nothing has to be allowed to. -/
theorem Follows.ok {a : α} (h : idle a) : Follows idle ts (.ok (a, ts)) (.ok (a, ts)) :=
  ⟨rfl, .reads [] rfl fun _ => h⟩

/-- A complaint about the next token, or about the end, stays within the tokens. -/
theorem Follows.fail (problem : Problem) :
    Follows idle ts (Parse.fail problem ts) (Parse.fail problem ts) :=
  ⟨rfl, .refuses [] rfl rfl⟩

/-- Behind a token that has been consumed, nothing more needs to be. -/
theorem Follows.cons {t : Token} (h : Follows (fun _ => True) ts x y) :
    Follows idle (t :: ts) x y :=
  ⟨h.same, h.stays.behind [t] fun hnil => absurd hnil (List.cons_ne_nil t [])⟩

/-- One parser behind another. -/
theorem Follows.bind (h : Follows idle ts x y)
    (hg : ∀ a rest, rest.length ≤ ts.length → (rest.length = ts.length → idle a) →
      Follows (fun b => idle a → idle' b) rest (f (a, rest)) (g (a, rest))) :
    Follows idle' ts (x >>= f) (y >>= g) := by
  obtain ⟨rfl, stays⟩ := h
  cases stays with
  | refuses front split found => exact ⟨rfl, .refuses front split found⟩
  | @reads a rest front split moved =>
    -- the tokens consumed by both are those of the one in front of those of the other
    subst split
    have hle : rest.length ≤ (front ++ rest).length := by simp
    have hb := hg a rest hle fun hlen => moved (by simpa using hlen)
    exact ⟨hb.same, hb.stays.behind front fun hnil _ hidle => hidle (moved hnil)⟩

/-- Behind a parser that consumes a token, nothing more needs to be. -/
theorem Follows.before (h : Follows (fun _ => False) ts x y)
    (hg : ∀ a rest, rest.length < ts.length →
      Follows (fun _ => True) rest (f (a, rest)) (g (a, rest))) :
    Follows idle' ts (x >>= f) (y >>= g) := by
  refine h.bind fun a rest hle hlt => ?_
  exact (hg a rest (Nat.lt_of_le_of_ne hle hlt)).mono fun _ _ => False.elim

/-- One parser behind another where neither needs to consume a token. -/
theorem Follows.andThen (h : Follows idle ts x y)
    (hg : ∀ a rest, rest.length ≤ ts.length →
      Follows (fun _ => True) rest (f (a, rest)) (g (a, rest))) :
    Follows (fun _ => True) ts (x >>= f) (y >>= g) := by
  refine h.bind fun a rest hle _ => ?_
  exact (hg a rest hle).mono fun _ _ _ => trivial

/-- A single token is consumed, or refused itself. -/
theorem follows_expect (kind : Token.Kind) (problem : Problem) (ts : List Token) :
    Follows (fun _ => False) ts (plain (expect kind problem ts))
      (plain (expect kind problem ts)) := by
  rw [plain_expect]
  cases ts with
  | nil => exact .fail problem
  | cons t rest =>
    dsimp only
    split
    next => exact .cons (.ok trivial)
    next => exact .fail problem

end Follows

/-- A token that is read as an expression or refused. -/
theorem follows_atom {idle : Expr → Prop} {t : Token} {atom : Except ParseError Expr}
    (hfound : ∀ e, atom = .error e → e.found = some t) :
    Follows idle (t :: rest) (do
      let e ← atom
      .ok (e, rest)) (do
      let e ← atom
      .ok (e, rest)) := by
  cases atom with
  | ok e => exact .cons (.ok trivial)
  | error e => exact ⟨rfl, .refuses [] rfl (hfound e rfl)⟩

/-- `P` does a task as the parsers do it, and within its tokens. -/
def Does (P : {α : Type} → Task α → Reader α) (task : Task α) (ts : List Token) : Prop :=
  Follows (fun _ => task.Idle) ts (P task ts) (task.read ts)

/-- `P` does the tasks with fewer than `n` tokens, and with `n` tokens those of a rank below `r`. -/
structure DoesBelow (P : {α : Type} → Task α → Reader α) (n r : Nat) : Prop where
  later : ∀ {α : Type} (task : Task α) {ts : List Token}, ts.length < n → Does P task ts
  here : ∀ {α : Type} (task : Task α) {ts : List Token}, ts.length = n → task.rank < r →
    Does P task ts

section Expressions

variable {P : {α : Type} → Task α → Reader α}

/-- An expression calls for an operation, and behind the sign of an assignment for another
expression, with at least two tokens fewer. -/
theorem expr_does (h : DoesBelow P ts.length (Task.rank .expr)) :
    Does (Task.body P) .expr ts := by
  unfold Does
  rw [Task.read, plain_expr]
  refine .before (h.here (.operation .equality) rfl (by decide)) fun left rest hlt => ?_
  cases rest with
  | nil => exact .ok trivial
  | cons t rest =>
    dsimp only
    split
    next =>
      cases left with
      | name position x =>
        -- the sign is consumed on top of the left side
        rw [List.length_cons] at hlt
        exact .cons (.andThen (h.later .expr (by omega)) fun _ _ _ => .ok trivial)
      | _ => exact .fail .assignmentTarget
    next => exact .ok trivial

/-- An operation calls for an operand, which has a lower rank, and then for the operators behind it.
-/
theorem operation_does (level : Level) (h : DoesBelow P ts.length (Task.rank (.operation level))) :
    Does (Task.body P) (.operation level) ts := by
  unfold Does
  rw [Task.read, plain_operation]
  refine .before (h.here (.operand level) rfl (Nat.lt_succ_self _)) fun left rest hlt => ?_
  exact h.later (.loop (.operations level left)) hlt

/-- An operand is an operation of a tighter level, and that has a lower rank. -/
theorem operand_does (level : Level) (h : DoesBelow P ts.length (Task.rank (.operand level))) :
    Does (Task.body P) (.operand level) ts := by
  unfold Does
  rw [Task.read, plain_operand]
  simp only [Task.body]
  cases hnext : level.next? with
  | some next =>
    have hrank := Level.rank_next hnext
    exact h.here (.operation next) rfl (by simp only [Task.rank]; omega)
  | none => exact h.here .unary rfl (by simp only [Task.rank]; omega)

/-- Behind a sign there is a token less. -/
theorem unary_does (h : DoesBelow P ts.length (Task.rank .unary)) :
    Does (Task.body P) .unary ts := by
  unfold Does
  rw [Task.read, plain_unary]
  cases ts with
  | nil => exact .fail .expression
  | cons t rest =>
    simp only [Task.body]
    cases unaryOp? t.kind with
    | some op =>
      exact .cons (.andThen (h.later .unary (Nat.lt_succ_self _)) fun _ _ _ => .ok trivial)
    | none => exact h.here .stepped rfl (by decide)

/-- The signs behind a call are read in a loop, without any call. -/
theorem stepped_does (h : DoesBelow P ts.length (Task.rank .stepped)) :
    Does (Task.body P) .stepped ts := by
  refine Follows.before (h.here .call rfl (by decide)) fun left rest hlt => ?_
  exact h.later (.loop (.steps left)) hlt

/-- A call starts with a primary expression. -/
theorem call_does (h : DoesBelow P ts.length (Task.rank .call)) :
    Does (Task.body P) .call ts := by
  unfold Does
  rw [Task.read, plain_call]
  refine .before (h.here .primary rfl (by decide)) fun callee rest hlt => ?_
  exact h.later (.loop (.calls callee)) hlt

/-- The items of a list are expressions with the same tokens or with fewer. -/
theorem items_does (close : Token.Kind) (problem : Problem)
    (h : DoesBelow P ts.length (Task.rank (.items close problem))) :
    Does (Task.body P) (.items close problem) ts := by
  unfold Does
  rw [Task.read, plain_items]
  cases ts with
  | nil => exact .fail .expression
  | cons t rest =>
    simp only [Task.body]
    split
    next => exact .cons (.ok trivial)
    next => exact h.here (.loop (.items close problem)) rfl (Nat.lt_succ_self _)

/-- Behind a parenthesis or a bracket there is a token less. -/
theorem primary_does (h : DoesBelow P ts.length (Task.rank .primary)) :
    Does (Task.body P) .primary ts := by
  unfold Does
  rw [Task.read, plain_primary]
  cases ts with
  | nil => exact .fail .expression
  | cons t rest =>
    simp only [Task.body]
    cases t.kind with
    | int => exact follows_atom fun _ => Grammar.found_of_integer
    | float => exact follows_atom fun _ => Grammar.found_of_double
    | lparen =>
      refine .cons (.andThen (h.later .expr (Nat.lt_succ_self _)) fun e rest _ => ?_)
      exact .andThen (follows_expect .rparen .parenClose rest) fun _ _ _ => .ok trivial
    | lbracket =>
      exact .cons (.andThen (h.later (.items .rbracket .itemsNext) (Nat.lt_succ_self _))
        fun _ _ _ => .ok trivial)
    | illegal => exact .fail (.illegal t.text)
    | string | kwTrue | kwFalse | kwNull | ident => exact .cons (.ok trivial)
    | _ => exact .fail .expression

end Expressions

section Statements

variable {P : {α : Type} → Task α → Reader α} (start : Token)

/-- A type is one token. -/
theorem follows_typeName (ts : List Token) :
    Follows (fun _ => False) ts (plain (typeName ts)) (plain (typeName ts)) := by
  rw [plain_typeName]
  cases ts with
  | nil => exact .fail .typeName
  | cons t rest =>
    dsimp only
    split
    next =>
      cases TypeName.ofWord? t.text with
      | some found => exact .cons (.ok trivial)
      | none => exact .fail (.unknownType t.text)
    next => exact .fail .typeName

/-- A declared type consumes nothing where there is none. -/
theorem optionalType_does (h : DoesBelow P ts.length (Task.rank .optionalType)) :
    Does (Task.body P) .optionalType ts := by
  unfold Does
  rw [Task.read, plain_optionalType]
  cases ts with
  | nil => exact .ok trivial
  | cons t rest =>
    simp only [Task.body]
    split
    next => exact .cons (.andThen (h.later .typeName (Nat.lt_succ_self _)) fun _ _ _ => .ok trivial)
    next => exact .ok trivial

/-- The first parameter has all tokens, and the others have fewer. -/
theorem params_does (h : DoesBelow P ts.length (Task.rank .params)) :
    Does (Task.body P) .params ts := by
  unfold Does
  rw [Task.read, plain_params]
  cases ts with
  | nil => exact .fail .paramName
  | cons t rest =>
    simp only [Task.body]
    split
    next => exact .cons (.ok trivial)
    next => exact h.here (.loop .params) rfl (by decide)

/-- The value of a declaration comes behind its name. -/
theorem declaration_does (h : DoesBelow P ts.length (Task.rank (.declaration start))) :
    Does (Task.body P) (.declaration start) ts := by
  unfold Does
  rw [Task.read, plain_declaration]
  refine .before (follows_expect .ident _ ts) fun name rest hname => ?_
  refine .andThen (h.later .optionalType hname) fun type rest htype => ?_
  refine .andThen (follows_expect .assign _ rest) fun _ rest hsign => ?_
  refine .andThen (h.later .expr (by omega)) fun value rest _ => ?_
  exact .andThen (follows_expect .semicolon _ rest) fun _ _ _ => .ok trivial

/-- A returned value is an expression with all tokens. -/
theorem returned_does (h : DoesBelow P ts.length (Task.rank (.returned start))) :
    Does (Task.body P) (.returned start) ts := by
  unfold Does
  rw [Task.read, plain_returned]
  cases ts with
  | nil => exact .fail .expression
  | cons t rest =>
    simp only [Task.body]
    split
    next => exact .cons (.ok trivial)
    next =>
      refine .before (h.here .expr rfl (Nat.lt_succ_self _)) fun value rest _ => ?_
      exact .andThen (follows_expect .semicolon _ rest) fun _ _ _ => .ok trivial

/-- An expression that is a statement has all tokens. -/
theorem expression_does (h : DoesBelow P ts.length (Task.rank .expression)) :
    Does (Task.body P) .expression ts := by
  unfold Does
  rw [Task.read, plain_expression]
  cases ts with
  | nil => exact .fail .expression
  | cons t rest =>
    refine .before (h.here .expr rfl (by decide)) fun value rest _ => ?_
    exact .andThen (follows_expect .semicolon _ rest) fun _ _ _ => .ok trivial

/-- Most statements start with a word, behind which there is a token less. -/
theorem stmt_does (h : DoesBelow P ts.length (Task.rank .stmt)) :
    Does (Task.body P) .stmt ts := by
  unfold Does
  rw [Task.read, plain_stmt]
  cases ts with
  | nil => exact .fail .expression
  | cons t rest =>
    -- every statement but an expression is read behind its first word
    have hbehind (task : Task Stmt) :
        Follows (fun _ => False) (t :: rest) (P task rest) (task.read rest) :=
      .cons ((h.later task (Nat.lt_succ_self _)).mono fun _ _ => trivial)
    simp only [Task.body]
    cases t.kind with
    | kwLet | kwConst => exact hbehind (.declaration t)
    | kwFn => exact hbehind (.function t)
    | kwReturn => exact hbehind (.returned t)
    | kwIf => exact hbehind (.branch t)
    | kwFor => exact hbehind (.iteration t)
    | _ => exact h.here .expression rfl (by decide)

/-- The parameters and the body of a function come behind its name. -/
theorem function_does (h : DoesBelow P ts.length (Task.rank (.function start))) :
    Does (Task.body P) (.function start) ts := by
  unfold Does
  rw [Task.read, plain_function]
  refine .before (follows_expect .ident _ ts) fun name rest hname => ?_
  refine .andThen (follows_expect .lparen _ rest) fun _ rest hopen => ?_
  refine .andThen (h.later .params (by omega)) fun ps rest hps => ?_
  refine .andThen (h.later .optionalType (by omega)) fun returns rest hreturns => ?_
  exact .andThen (h.later .block (by omega)) fun _ _ _ => .ok trivial

/-- What a choice makes of the tokens behind its first block. -/
theorem otherwise_follows (h : ∀ {α : Type} (task : Task α) {rest : List Token},
      rest.length < ts.length → Does P task rest)
    (p : Position) (condition : Expr) (yes : List Stmt) :
    Follows (fun _ => True) ts (otherwise P p condition yes ts)
      (plainOtherwise p condition yes ts) := by
  match ts with
  | [] => exact .ok trivial
  | [t] =>
    simp only [otherwise, plainOtherwise]
    split
    next => exact .cons (.fail .blockOpen)
    next => exact .ok trivial
  | t :: u :: rest =>
    simp only [otherwise, plainOtherwise]
    split
    next =>
      split
      next =>
        have hlt : rest.length < (t :: u :: rest).length := Nat.lt_add_of_pos_right Nat.two_pos
        exact .cons (.cons (.andThen (h (.branch u) hlt) fun _ _ _ => .ok trivial))
      next => exact .cons (.andThen (h .block (Nat.lt_succ_self _)) fun _ _ _ => .ok trivial)
    next => exact .ok trivial

/-- The condition of a choice has all tokens, and its parts have fewer. -/
theorem branch_does (h : DoesBelow P ts.length (Task.rank (.branch start))) :
    Does (Task.body P) (.branch start) ts := by
  unfold Does
  rw [Task.read, plain_branch]
  refine .before (h.here .expr rfl (Nat.lt_succ_self _)) fun condition rest hlt => ?_
  refine .andThen (h.later .block hlt) fun yes rest hle => ?_
  exact otherwise_follows (fun task _ hless => h.later task (by omega)) start.position condition yes

/-- The range and the body of a loop come behind its cursor. -/
theorem iteration_does (h : DoesBelow P ts.length (Task.rank (.iteration start))) :
    Does (Task.body P) (.iteration start) ts := by
  unfold Does
  rw [Task.read, plain_loop]
  refine .before (follows_expect .ident _ ts) fun cursor rest hcursor => ?_
  refine .andThen (follows_expect .kwIn _ rest) fun _ rest hin => ?_
  refine .andThen (h.later .expr (by omega)) fun range rest hrange => ?_
  exact .andThen (h.later .block (by omega)) fun _ _ _ => .ok trivial

/-- The statements of a block come behind its brace. -/
theorem block_does (h : DoesBelow P ts.length (Task.rank .block)) :
    Does (Task.body P) .block ts := by
  unfold Does
  rw [Task.read, plain_block]
  exact .before (follows_expect .lbrace _ ts) fun _ rest hlt =>
    (h.later (.loop .block) hlt).mono fun _ _ => trivial

end Statements

end TagScript.Parse
