import TagScript.Proofs.Parse.Calls

/-!
# Progress of the Parsers

The parsers come to an end because a call either has fewer tokens left or binds tighter than the
parser that makes it. So the calls are no deeper than a multiple of the number of tokens
(`unroll_does`), no parser reads beyond its tokens (`read_stays`), and each pass through a loop
consumes a token (`Loop.Passes.moves`). None of it asks for the tokens to be a program.

## Main results

* `body_does`: a parser does its task where those it calls do theirs;
* `unroll_does`: how deep the calls go;
* `parsing_progresses`: reading ends, and each step of it consumes tokens.
-/

namespace TagScript.Parse

variable {α β : Type} {ts rest : List Token}

section Loops

variable {P : {α : Type} → Task α → Reader α}

/-- A pass of the loop `l` that consumes no token is the end of a loop that may read nothing. -/
def Turn.Idle (l : Loop α) : Turn α → Prop
  | .done _ => l.Idle
  | .last _ | .again _ _ => False

theorem separator_follows {idle : Turn (List β) → Prop} (l : Loop (List β)) (item : β)
    (close : Token.Kind) (problem : Problem) (ts : List Token) :
    Follows idle ts (separator l item close problem ts) (separator l item close problem ts) := by
  cases ts with
  | nil => exact .fail problem
  | cons t rest =>
    simp only [separator]
    split
    next => exact .cons (.ok trivial)
    next =>
      split
      next => exact .cons (.ok trivial)
      next => exact .fail problem

/-- A pass of a loop consumes a token, with any parsers that do what they are called for. -/
theorem pass_follows (l : Loop α) (h : DoesBelow P ts.length l.rank) :
    Follows (Turn.Idle l) ts (l.pass P ts) (l.pass Task.read ts) := by
  cases l with
  | operations level left =>
    cases ts with
    | nil => exact .ok trivial
    | cons t rest =>
      simp only [Loop.pass]
      cases level.op? t.kind with
      | none => exact .ok trivial
      | some op =>
        exact .cons (.andThen (h.later (.operand level) (Nat.lt_succ_self _))
          fun _ _ _ => .ok trivial)
  | steps left =>
    cases ts with
    | nil => exact .ok trivial
    | cons t rest =>
      simp only [Loop.pass]
      cases stepOp? t.kind with
      | none => exact .ok trivial
      | some op => exact .cons (.ok trivial)
  | calls callee =>
    cases ts with
    | nil => exact .ok trivial
    | cons t rest =>
      simp only [Loop.pass]
      split
      next =>
        exact .cons (.andThen (h.later (.items .rparen .argsNext) (Nat.lt_succ_self _))
          fun _ _ _ => .ok trivial)
      next => exact .ok trivial
  | items close problem =>
    -- the loop has no condition: a pass starts with an item, or there is an error
    exact .before (h.here .expr rfl (Nat.lt_succ_self _)) fun item rest _ =>
      separator_follows (.items close problem) item close problem rest
  | params =>
    refine .before (follows_expect .ident _ ts) fun name rest hlt => ?_
    exact .andThen (h.later .optionalType hlt) fun type rest _ =>
      separator_follows .params ⟨name.text, type⟩ .rparen .paramsNext rest
  | block =>
    cases ts with
    | nil => exact .fail .blockClose
    | cons t rest =>
      simp only [Loop.pass]
      split
      next => exact .cons (.ok trivial)
      next => exact .before (h.here .stmt rfl (by decide)) fun _ _ _ => .ok trivial
  | program =>
    cases ts with
    | nil => exact .ok trivial
    | cons t rest => exact .before (h.here .stmt rfl (by decide)) fun _ _ _ => .ok trivial

/-- What follows a parser in two steps. -/
theorem bind_of_steps {γ : Type} {x : Except ParseError (α × List Token)}
    {f : α × List Token → Except ParseError (γ × List Token)}
    {g : α × List Token → Except ParseError (β × List Token)}
    {k : β × List Token → Except ParseError (γ × List Token)}
    (h : ∀ a rest, f (a, rest) = g (a, rest) >>= k) : x >>= f = x >>= g >>= k := by
  cases x with
  | error e => rfl
  | ok p => exact h p.1 p.2

/-- A pass that leaves its part to the passes behind it. -/
theorem follow_id (l : Loop α) (ts : List Token) :
    l.read ts = (Turn.again l id).follow Task.read ts := by
  rw [Turn.follow, Task.read]
  cases l.read ts <;> rfl

/-- A pass through a list and the passes behind it. -/
theorem separator_follow (l : Loop (List β)) (item : β) (close : Token.Kind) (problem : Problem)
    (ts : List Token) :
    Grammar.separated item close problem l.read ts = (do
      let (turn, rest) ← separator l item close problem ts
      turn.follow Task.read rest) := by
  cases ts with
  | nil => rfl
  | cons t rest =>
    simp only [Grammar.separated, separator]
    split
    next => rfl
    next => split <;> rfl

/-- What a loop reads is what its next pass and those behind it read. -/
theorem Loop.read_eq (l : Loop α) (ts : List Token) :
    l.read ts = (do
      let (turn, rest) ← l.pass Task.read ts
      turn.follow Task.read rest) := by
  cases l with
  | operations level left =>
    rw [read, plain_operations]
    cases ts with
    | nil => rfl
    | cons t rest =>
      simp only [pass]
      cases level.op? t.kind with
      | none => rfl
      | some op =>
        exact bind_of_steps fun right rest =>
          follow_id (.operations level (.binary t.position left op right)) rest
  | steps left =>
    cases ts with
    | nil => rfl
    | cons t rest =>
      simp only [read, pass, plainSteps_cons]
      cases stepOp? t.kind <;> rfl
  | calls callee =>
    rw [read, plain_calls]
    cases ts with
    | nil => rfl
    | cons t rest =>
      simp only [pass]
      split
      next =>
        exact bind_of_steps fun args rest =>
          follow_id (.calls (.call callee.position callee args)) rest
      next => rfl
  | items close problem =>
    rw [read, plain_moreItems]
    exact bind_of_steps fun item rest =>
      separator_follow (.items close problem) item close problem rest
  | params =>
    rw [read, plain_moreParams]
    exact bind_of_steps fun name rest => bind_of_steps fun type rest =>
      separator_follow .params ⟨name.text, type⟩ .rparen .paramsNext rest
  | block =>
    rw [read, plain_blockRest]
    cases ts with
    | nil => rfl
    | cons t rest =>
      simp only [pass]
      split
      next => rfl
      next => exact bind_of_steps fun _ _ => rfl
  | program =>
    rw [read, program_eq]
    cases ts with
    | nil => rfl
    | cons t rest =>
      simp only [pass, Task.read]
      cases plain (stmt (t :: rest)) with
      | error e => rfl
      | ok p =>
        -- nothing is left behind a program, whatever its statements leave to each other
        simp only [ok_bind, Turn.follow, Task.read, read]
        cases Parse.program p.2 <;> rfl

/-- A loop does its task pass by pass: a pass that goes on has consumed a token, so the loop goes on
with fewer. -/
theorem loop_does (l : Loop α) (h : DoesBelow P ts.length l.rank) :
    Does (Task.body P) (.loop l) ts := by
  unfold Does
  rw [Task.read, Loop.read_eq]
  refine .bind (pass_follows l h) fun turn rest hle hidle => ?_
  cases turn with
  | done a => exact .ok id
  | last a => exact .ok False.elim
  | again next make =>
    -- this is where the loop would not end if a pass could go on without consuming a token
    have hlt : rest.length < ts.length := Nat.lt_of_le_of_ne hle hidle
    exact .mono (.andThen (h.later (.loop next) hlt) fun _ _ _ => .ok trivial) fun _ _ => False.elim

end Loops

/-- One parser does its task where the parsers it calls do theirs. -/
theorem body_does {P : {α : Type} → Task α → Reader α} (task : Task α)
    (h : DoesBelow P ts.length task.rank) : Does (Task.body P) task ts := by
  cases task with
  | loop l => exact loop_does l h
  | expr => exact expr_does h
  | operation level => exact operation_does level h
  | operand level => exact operand_does level h
  | unary => exact unary_does h
  | stepped => exact stepped_does h
  | call => exact call_does h
  | items close problem => exact items_does close problem h
  | primary => exact primary_does h
  | typeName => exact follows_typeName ts
  | optionalType => exact optionalType_does h
  | params => exact params_does h
  | declaration start => exact declaration_does start h
  | returned start => exact returned_does start h
  | expression => exact expression_does h
  | stmt => exact stmt_does h
  | function start => exact function_does start h
  | branch start => exact branch_does start h
  | iteration start => exact iteration_does start h
  | block => exact block_does h

/-- Carried out to a depth of sixteen calls for each token and some for the task, a task is done: no
call goes deeper, whatever `P` would do there. -/
theorem unroll_does (P : {α : Type} → Task α → Reader α) {n : Nat} (task : Task α)
    (h : 16 * ts.length + task.rank < n) : Does (unroll P n) task ts := by
  induction n generalizing α ts with
  | zero => exact absurd h (Nat.not_lt_zero _)
  | succ n ih =>
    refine body_does task ⟨fun other rest hlt => ?_, fun other rest heq hrank => ?_⟩
    -- a token less makes up for any rank
    · have hother := other.rank_lt
      exact ih other (by omega)
    · exact ih other (by omega)

/-- Every parser stays within its tokens. -/
theorem read_stays (task : Task α) (ts : List Token) :
    Stays (fun _ => task.Idle) ts (task.read ts) :=
  (unroll_does Task.read task (Nat.lt_succ_self _)).stays

section Passes

/-- Every pass of a loop stays within its tokens, and consumes one unless the loop is over. -/
theorem pass_stays (l : Loop α) (ts : List Token) :
    Stays (Turn.Idle l) ts (l.pass Task.read ts) := by
  have hread {β : Type} (task : Task β) {rest : List Token} : Does Task.read task rest :=
    ⟨rfl, read_stays task rest⟩
  exact (pass_follows l ⟨fun task _ _ => hread task, fun task _ _ _ => hread task⟩).stays

/-- The passes of a loop through `ts`, by the tokens that each consumes, and the reply they come
to. A pass that meets a problem is the last, and there is no pass where the loop is over. -/
inductive Loop.Passes : Loop α → List Token → List (List Token) →
    Except ParseError (α × List Token) → Prop
  | done {l : Loop α} {ts rest : List Token} {a : α}
      (h : l.pass Task.read ts = .ok (.done a, rest)) : Passes l ts [] (.ok (a, rest))
  | refused {l : Loop α} {ts : List Token} {e : ParseError}
      (h : l.pass Task.read ts = .error e) : Passes l ts [] (.error e)
  | last {l : Loop α} {front rest : List Token} {a : α}
      (h : l.pass Task.read (front ++ rest) = .ok (.last a, rest)) :
      Passes l (front ++ rest) [front] (.ok (a, rest))
  | again {l next : Loop α} {make : α → α} {front rest : List Token} {fronts : List (List Token)}
      {reply : Except ParseError (α × List Token)}
      (h : l.pass Task.read (front ++ rest) = .ok (.again next make, rest))
      (more : Passes next rest fronts reply) :
      Passes l (front ++ rest) (front :: fronts) (do
        let (a, rest) ← reply
        .ok (make a, rest))

variable {l : Loop α} {front : List Token} {turn : Turn α}

/-- A pass that does not find the loop over consumes a token. -/
theorem pass_moves (h : l.pass Task.read (front ++ rest) = .ok (turn, rest))
    (hturn : ¬ Turn.Idle l turn) : front ≠ [] := by
  have hstays := pass_stays l (front ++ rest)
  rw [h] at hstays
  cases hstays with
  | reads left split moved =>
    rw [List.append_cancel_right split]
    exact fun hnil => hturn (moved hnil)

/-- The passes of a loop come to what the loop reads, and each of them consumes a token. -/
theorem Loop.Passes.moves {fronts : List (List Token)} {reply : Except ParseError (α × List Token)}
    (h : l.Passes ts fronts reply) : reply = l.read ts ∧ ∀ front ∈ fronts, front ≠ [] := by
  induction h with
  | done h =>
    rw [Loop.read_eq, h]
    exact ⟨rfl, List.forall_mem_nil _⟩
  | refused h =>
    rw [Loop.read_eq, h]
    exact ⟨rfl, List.forall_mem_nil _⟩
  | last h =>
    rw [Loop.read_eq, h]
    exact ⟨rfl, List.forall_mem_singleton.mpr (pass_moves h id)⟩
  | @again l next make front rest fronts reply h more ih =>
    obtain ⟨rfl, hmoves⟩ := ih
    rw [Loop.read_eq l, h]
    exact ⟨rfl, List.forall_mem_cons.mpr ⟨pass_moves h id, hmoves⟩⟩

/-- A loop comes to an end. -/
theorem Loop.exists_passes (l : Loop α) (ts : List Token) :
    ∃ fronts, l.Passes ts fronts (l.read ts) := by
  rw [Loop.read_eq]
  have hstays := pass_stays l ts
  cases hpass : l.pass Task.read ts with
  | error e => exact ⟨[], .refused hpass⟩
  | ok p =>
    rw [hpass] at hstays
    cases hstays with
    | @reads turn rest front split moved =>
      subst split
      -- the induction is on the number of tokens, which a pass that goes on makes smaller
      cases turn with
      | done a => exact ⟨[], .done hpass⟩
      | last a => exact ⟨[front], .last hpass⟩
      | again next make =>
        have hfront := List.length_pos_iff.mpr moved
        obtain ⟨fronts, hmore⟩ := exists_passes next rest
        exact ⟨front :: fronts, .again hpass hmore⟩
termination_by ts.length
decreasing_by
  rw [split, List.length_append]
  omega

end Passes

/-- Reading comes to an end, and each step of it consumes tokens, be these a program or not. The
calls that read the program of a text are no deeper than sixteen for each token and sixteen more,
whatever `P` would do below. A parser never goes past the end of its tokens, and it has
consumed a token where it succeeds; only a type that may be left out and a loop without a pass are
read off no token. Each loop makes passes until it has its reply, and each of them consumes a
token. -/
theorem parsing_progresses :
    (∀ (bytes : Bytes) (P : {α : Type} → Task α → Reader α) (n : Nat),
      let ts := (Token.tokenize bytes.decode).tokens
      unroll P (16 * (ts.length + 1) + n) (.loop .program) ts =
        (source bytes).map fun stmts => (stmts, [])) ∧
    (∀ {α : Type} (task : Task α) (ts : List Token),
      Stays (fun _ => task.Idle) ts (task.read ts)) ∧
    ∀ {α : Type} (l : Loop α) (ts : List Token),
      (∃ fronts, l.Passes ts fronts (l.read ts)) ∧
      ∀ fronts reply, l.Passes ts fronts reply →
        reply = l.read ts ∧ ∀ front ∈ fronts, front ≠ [] := by
  refine ⟨fun bytes P n => ?_, read_stays, fun l ts => ⟨l.exists_passes ts, fun _ _ h => h.moves⟩⟩
  refine (unroll_does P (.loop .program) ?_).same
  have hrank := (Task.loop .program).rank_lt
  omega

end TagScript.Parse
