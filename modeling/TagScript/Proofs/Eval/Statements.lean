import TagScript.Proofs.Machine.Changes

/-!
# How the Statements of a Program Complete

The value of a program does not tell whether its last statement had that value or whether some
statement returned it, which ends the program early. `Eval.statements` runs a program like
`Eval.program` and tells how the last statement that ran completed; the value of this completion is
the value of the program (`program_eq`). So programs run one after the other are one program as long
as the first one comes to its end (`statements_append`).
-/

namespace TagScript.Eval

variable (ctx : Context)

/-- Whether a completion returns a value. -/
def Completion.returns : Completion → Bool
  | .returning _ => true
  | _ => false

/-- Runs the statements of a program in the outermost scope, given how the statement before them
completed. A statement that returns is the last one. -/
def statements (last : Completion) : Program → Eval Completion
  | [] => return last
  | s :: rest => do
    Machine.note ctx fun _ => .statement s.kindName s.position.line
    match ← stmt ctx (invoke ctx) ctx.global s with
    | .returning v => return .returning v
    | c => statements c rest

/-- The value of a program is that of the completion of its last statement. -/
theorem program_eq (last : Completion) (p : Program) :
    program ctx last.value? p = Completion.value? <$> statements ctx last p := by
  induction p generalizing last with
  | nil => simp [program, statements]
  | cons s rest ih =>
    simp only [program, statements, map_bind]
    congr 1
    funext _
    congr 1
    funext c
    cases c with
    | returning v => simp [Completion.value?]
    | empty => exact ih .empty
    | value v => exact ih (.value v)

variable {ctx}

/-- Where the statements of a program come to their end, what stands behind them goes on from
there. -/
theorem statements_append {last c : Completion} {p : Program} {m n : Machine}
    (h : statements ctx last p m = .ok c n) (hc : c.returns = false) (q : Program) :
    statements ctx last (p ++ q) m = statements ctx c q n := by
  induction p generalizing last m with
  | nil =>
    cases h
    rfl
  | cons s rest ih =>
    rw [statements] at h
    obtain ⟨_, m₁, hnote, h⟩ := bind_eq_ok.mp h
    obtain ⟨c₁, m₂, hstmt, h⟩ := bind_eq_ok.mp h
    rw [List.cons_append, statements, bind_apply, hnote]
    dsimp only
    rw [bind_apply, hstmt]
    cases c₁ with
    | returning v =>
      -- a statement that returns would have been the last one
      cases h
      cases hc
    | empty => exact ih h
    | value v => exact ih h

/-- The last statement decides how some statements complete. -/
theorem statements_of_ne_nil {p : Program} (hp : p ≠ []) (last last' : Completion) :
    statements ctx last p = statements ctx last' p := by
  cases p with
  | nil => exact absurd rfl hp
  | cons s rest => rfl

end TagScript.Eval
