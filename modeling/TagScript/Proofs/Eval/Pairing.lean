import TagScript.Proofs.Eval.Statements
import TagScript.Proofs.Machine.Pairing

/-!
# The Evaluator on Two Sides

Of two paired runs of one program, at any two positions, the right one does what the left one does
(`Pairing.follows_statements`). The proof follows the recursion of the evaluator: each function of
it is put together from operations that are followed, and a call of a declared function, whose body
comes from the stored scopes, is followed by induction on the calls that may still become active.
Only there do the two limits play a part.
-/

namespace TagScript

open Eval (Completion)

/-- The completion after a relocation. -/
def Eval.Completion.relocate (r : Relocation) : Completion → Completion
  | .empty => .empty
  | .value v => .value (v.relocate r)
  | .returning v => .returning (v.relocate r)

theorem Eval.Completion.value?_relocate (r : Relocation) (c : Completion) :
    (c.relocate r).value? = c.value?.map (Value.relocate r) := by
  cases c <;> rfl

namespace Pairing

variable (w : Pairing)

/-- How both sides call declared functions. -/
def Invokes (invoke invoke' : Eval.Invoke) : Prop :=
  ∀ c args p, w.Follows (Value.relocate w.carry) (invoke c args p)
    (invoke' (c.relocate w.carry) (args.map (Arg.relocate w.carry)) (w.move p))

section Expressions

variable {w} {invoke invoke' : Eval.Invoke}

/-- Both call the same function, or neither value can be called. -/
theorem follows_callValue (hi : w.Invokes invoke invoke') (p : Position) (callee : Value)
    (args : List Arg) :
    w.Follows (Value.relocate w.carry) (Eval.callValue w.left invoke p callee args)
      (Eval.callValue w.right invoke' (w.move p) (callee.relocate w.carry)
        (args.map (Arg.relocate w.carry))) := by
  cases callee with
  | builtin b => exact w.follows_callBuiltin p b args
  | function c => exact hi c args p
  | _ => exact .fail p _

mutual

/-- An expression. -/
theorem follows_expr (hi : w.Invokes invoke invoke') (scope : ScopeId) (e : Expr) :
    w.Follows (Value.relocate w.carry) (Eval.expr w.left invoke scope e)
      (Eval.expr w.right invoke' (w.number scope) (e.relocate w.move)) := by
  cases e with
  | int p n => exact .pure (Value.int n)
  | float p x => exact .pure (Value.float x)
  | string p s => exact .pure (Value.string s)
  | bool p b => exact .pure (Value.bool b)
  | null p => exact .pure Value.null
  | array p es =>
    simp only [Expr.relocate, Eval.expr]
    refine .bind (follows_items hi scope none es) fun (elem, vs) => ?_
    simp only [Prod.map, id, ← Value.relocateItems_eq_map]
    exact .pure (Value.array elem vs)
  | name p x =>
    simp only [Expr.relocate, Eval.expr]
    exact .bind (w.follows_bindingOf scope p x) fun b => .pure b.value
  | assign p x e =>
    simp only [Expr.relocate, Eval.expr, Expr.position_relocate]
    refine .bind (w.follows_requireDeclared scope p x) fun _ => ?_
    refine .bind (follows_expr hi scope e) fun v => ?_
    exact .bind (w.follows_assignValue scope p x e.position v) fun _ => .pure Value.null
  | call p callee es =>
    simp only [Expr.relocate, Eval.expr, Expr.position_relocate]
    refine .bind (follows_expr hi scope callee) fun f => ?_
    refine .bind (w.follows_checkCallable callee.position f) fun _ => ?_
    exact .bind (follows_args hi scope es) fun args => follows_callValue hi p f args
  | binary p left op right =>
    simp only [Expr.relocate, Eval.expr]
    refine .bind (follows_expr hi scope left) fun u => ?_
    refine .bind (follows_expr hi scope right) fun v => ?_
    -- an operator makes its value out of numbers and texts, in which no position stands
    rw [BinaryOp.apply_relocate]
    exact w.follows_accept p fun _ h => (BinaryOp.formed_apply h).relocate_eq
  | unary p op right =>
    simp only [Expr.relocate, Eval.expr]
    refine .bind (follows_expr hi scope right) fun v => ?_
    rw [UnaryOp.apply_relocate]
    exact w.follows_accept p fun _ h => (UnaryOp.formed_apply h).relocate_eq
  | step p left op =>
    simp only [Expr.relocate, Eval.expr]
    refine .bind (follows_expr hi scope left) fun v => ?_
    rw [StepOp.apply_relocate]
    exact w.follows_accept p fun _ h => (StepOp.formed_apply h).relocate_eq

/-- The items of an array, and the tag that they have. -/
theorem follows_items (hi : w.Invokes invoke invoke') (scope : ScopeId) (elem : Option Tag)
    (es : List Expr) :
    w.Follows (Prod.map id (List.map (Value.relocate w.carry)))
      (Eval.items w.left invoke scope elem es)
      (Eval.items w.right invoke' (w.number scope) elem (Expr.relocateAll w.move es)) := by
  cases es with
  | nil => exact .pure (elem.getD .unknown, [])
  | cons e rest =>
    simp only [Expr.relocateAll, Eval.items, Expr.position_relocate]
    refine .bind (follows_expr hi scope e) fun v => ?_
    rw [Value.tag_relocate]
    refine .bind (w.follows_checkItem e.position _ v) fun _ => ?_
    exact .bind (follows_items hi scope _ rest) fun (tag, vs) => .pure (tag, v :: vs)

/-- The arguments of a call. -/
theorem follows_args (hi : w.Invokes invoke invoke') (scope : ScopeId) (es : List Expr) :
    w.Follows (List.map (Arg.relocate w.carry)) (Eval.args w.left invoke scope es)
      (Eval.args w.right invoke' (w.number scope) (Expr.relocateAll w.move es)) := by
  cases es with
  | nil => exact .pure []
  | cons e rest =>
    have hrest := follows_args hi scope rest
    have he := follows_expr hi scope e
    -- of a name, the tag of its binding is tracked
    cases e with
    | name p x =>
      simp only [Expr.relocateAll, Expr.relocate, Eval.args]
      refine .bind (w.follows_bindingOf scope p x) fun b => ?_
      exact .bind hrest fun more => .pure (⟨b.value, b.tag⟩ :: more)
    | _ =>
      simp only [Expr.relocateAll, Expr.relocate, Eval.args] at he ⊢
      refine .bind he fun v => ?_
      rw [Value.tag_relocate]
      exact .bind hrest fun more => .pure (⟨v, v.tag⟩ :: more)

end

end Expressions

section Statements

variable {w} {invoke invoke' : Eval.Invoke}

/-- Both passes end the loop, or both go on with the next number. -/
theorem follows_endPass (outer : ScopeId) (cursor : String) (step : Int64) (c : Completion) :
    w.Follows (Completion.relocate w.carry) (Eval.endPass outer cursor step c)
      (Eval.endPass (w.number outer) cursor step (c.relocate w.carry)) := by
  have hmove : w.Follows (Completion.relocate w.carry)
      (do Eval.moveCursor outer cursor step; return .empty)
      (do Eval.moveCursor (w.number outer) cursor step; return .empty) :=
    .bind (w.follows_moveCursor outer cursor step) fun _ => .pure Completion.empty
  cases c with
  | returning v => exact .pure (Completion.returning v)
  | empty => exact hmove
  | value v => exact hmove

/-- The passes of a loop. -/
theorem follows_passes {pass pass' : Eval Completion}
    (hpass : w.Follows (Completion.relocate w.carry) pass pass') (count : Nat) :
    w.Follows (Completion.relocate w.carry) (Eval.passes count pass) (Eval.passes count pass') := by
  induction count with
  | zero => exact .pure Completion.empty
  | succ count ih =>
    rw [Eval.passes, Eval.passes]
    refine .bind hpass fun c => ?_
    cases c with
    | returning v => exact .pure (Completion.returning v)
    | empty => exact ih
    | value v => exact ih

/-- A block of a choice, in a scope of its own. -/
theorem follows_arm (scope : ScopeId) {body : List Stmt}
    (hbody : ∀ inner, w.Follows (Completion.relocate w.carry)
      (Eval.block w.left invoke inner .empty body)
      (Eval.block w.right invoke' (w.number inner) .empty (Stmt.relocateAll w.move body))) :
    w.Follows (Completion.relocate w.carry)
      (do
        let inner ← Machine.openScope .branch scope
        Eval.block w.left invoke inner .empty body)
      (do
        let inner ← Machine.openScope .branch (w.number scope)
        Eval.block w.right invoke' inner .empty (Stmt.relocateAll w.move body)) :=
  .bind (w.follows_openScope .branch scope) hbody

mutual

/-- A statement. -/
theorem follows_stmt (hi : w.Invokes invoke invoke') (scope : ScopeId) (s : Stmt) :
    w.Follows (Completion.relocate w.carry) (Eval.stmt w.left invoke scope s)
      (Eval.stmt w.right invoke' (w.number scope) (s.relocate w.move)) := by
  cases s with
  | declare p constant x type e =>
    simp only [Stmt.relocate, Eval.stmt, Expr.position_relocate]
    refine .bind (follows_expr hi scope e) fun v => ?_
    exact .bind (w.follows_declareValue scope p constant x type e.position v) fun _ =>
      .pure Completion.empty
  | function p x params returns body =>
    simp only [Stmt.relocate, Eval.stmt]
    exact .bind (w.follows_declareFunction scope p x params returns body) fun _ =>
      .pure Completion.empty
  | ret p value =>
    cases value with
    | none => exact .pure (Completion.returning .null)
    | some e =>
      simp only [Stmt.relocate, Eval.stmt]
      exact .bind (follows_expr hi scope e) fun v => .pure (Completion.returning v)
  | expr p e =>
    simp only [Stmt.relocate, Eval.stmt, Expr.isAssign_relocate]
    refine .bind (follows_expr hi scope e) fun v => ?_
    cases e.isAssign with
    | true => exact .pure Completion.empty
    | false => exact .pure (Completion.value v)
  | branch p condition yes no =>
    cases no with
    | none =>
      simp only [Stmt.relocate, Eval.stmt]
      refine .bind (follows_expr hi scope condition) fun v => ?_
      rw [Value.truthy_relocate]
      exact .ite Iff.rfl (follows_arm scope fun inner => follows_block hi inner .empty yes)
        (.pure Completion.empty)
    | some no =>
      simp only [Stmt.relocate, Eval.stmt]
      refine .bind (follows_expr hi scope condition) fun v => ?_
      rw [Value.truthy_relocate]
      exact .ite Iff.rfl (follows_arm scope fun inner => follows_block hi inner .empty yes)
        (follows_arm scope fun inner => follows_block hi inner .empty no)
  | loop p cursor e body =>
    simp only [Stmt.relocate, Eval.stmt, Expr.position_relocate]
    refine .bind (follows_expr hi scope e) fun v => ?_
    refine .bind (w.follows_loopRange e.position v) fun r => ?_
    refine .bind (w.follows_openScope .loop scope) fun outer => ?_
    refine .bind (w.follows_define outer ⟨cursor, .int r.start, .int, true⟩) fun _ => ?_
    -- the range tells no place, so both loops have the same number of passes
    refine follows_passes ?_ r.length.toNat
    refine .bind (w.follows_openScope .block outer) fun inner => ?_
    exact .bind (follows_block hi inner .empty body) fun c => follows_endPass outer cursor r.step c

/-- The statements of a block. -/
theorem follows_block (hi : w.Invokes invoke invoke') (scope : ScopeId) (last : Completion)
    (ss : List Stmt) :
    w.Follows (Completion.relocate w.carry) (Eval.block w.left invoke scope last ss)
      (Eval.block w.right invoke' (w.number scope) (last.relocate w.carry)
        (Stmt.relocateAll w.move ss)) := by
  cases ss with
  | nil => exact .pure last
  | cons s rest =>
    simp only [Stmt.relocateAll, Eval.block]
    refine .bind (follows_stmt hi scope s) fun c => ?_
    cases c with
    | returning v => exact .pure (Completion.returning v)
    | empty => exact follows_block hi scope .empty rest
    | value v => exact follows_block hi scope (.value v) rest

end

end Statements

/-- Both results have the declared type, or neither has. -/
theorem follows_resultOf (c : Closure) (p : Position) (last : Completion) :
    w.Follows (Value.relocate w.carry) (Eval.resultOf w.left c p last)
      (Eval.resultOf w.right (c.relocate w.carry) (w.move p) (last.relocate w.carry)) := by
  obtain ⟨name, params, returns, body, scope⟩ := c
  have hvalue : (last.relocate w.carry).value?.getD .null =
      (last.value?.getD .null).relocate w.carry := by
    rw [Completion.value?_relocate]
    cases last.value? <;> rfl
  simp only [Closure.relocate, Eval.resultOf, hvalue, Value.tag_relocate]
  cases returns with
  | none => exact .pure _
  | some t =>
    cases t with
    | void => exact .pure Value.null
    | _ => exact .ite Iff.rfl (.fail p _) (.pure _)

/-- Calls of declared functions, where the right run has `extra` more room. With no call to spare
the left run comes to its limit; the right one does too only if it has no more room. -/
theorem invokes_call {extra : Nat} (hextra : w.right.limit = w.left.limit + extra) (spare : Nat) :
    w.Invokes (Eval.call w.left spare) (Eval.call w.right (spare + extra)) := by
  induction spare with
  | zero =>
    intro c args p
    rw [Eval.call]
    cases extra with
    | zero =>
      -- both errors name the same limit
      rw [Eval.call, hextra, Nat.add_zero]
      exact .bind (w.follows_checkArity p c args) fun _ => .fail p _
    | succ extra =>
      rw [Nat.zero_add, Eval.call]
      refine .bind (w.follows_checkArity p c args) fun _ m n _ => ?_
      -- what the right run does from here on does not matter
      exact .cut ⟨by omega, _, rfl, rfl⟩
  | succ spare ih =>
    intro c args p
    rw [Nat.add_right_comm, Eval.call, Eval.call]
    refine .bind (w.follows_checkArity p c args) fun _ => ?_
    refine .bind (w.follows_openCall p c args) fun scope => ?_
    refine .bind (.inFrame c.name ?_) fun last => w.follows_resultOf c p last
    refine .bind (w.follows_noteCall scope c) fun _ => ?_
    -- the body is no part of the calling tree, and has one call less to spare
    exact follows_block ih scope .empty c.body

/-- Calls follow each other, by induction on the calls that the left run has room for. -/
theorem invokes : w.Invokes (Eval.invoke w.left) (Eval.invoke w.right) := by
  obtain ⟨extra, hextra⟩ := Nat.exists_eq_add_of_le w.limit_le
  have hcall := w.invokes_call hextra w.left.limit
  rw [← hextra] at hcall
  exact hcall

/-- The statements of a program. -/
theorem follows_statements (last : Completion) (p : Program) :
    w.Follows (Completion.relocate w.carry) (Eval.statements w.left last p)
      (Eval.statements w.right (last.relocate w.carry) (Stmt.relocateAll w.move p)) := by
  induction p generalizing last with
  | nil => exact .pure last
  | cons s rest ih =>
    rw [Stmt.relocateAll, Eval.statements, Eval.statements, Stmt.kindName_relocate,
      Stmt.position_relocate]
    refine .bind (w.follows_note fun _ _ _ => .statement s.kindName s.position) fun _ => ?_
    rw [w.global]
    refine .bind (follows_stmt w.invokes w.left.global s) fun c => ?_
    cases c with
    | returning v => exact .pure (Completion.returning v)
    | empty => exact ih .empty
    | value v => exact ih (.value v)

/-- A program. -/
theorem follows_program (p : Program) :
    w.Follows (Option.map (Value.relocate w.carry)) (Eval.program w.left none p)
      (Eval.program w.right none (Stmt.relocateAll w.move p)) := by
  -- a program without a value before it is one after an empty completion
  change w.Follows _ (Eval.program w.left Completion.empty.value? p)
    (Eval.program w.right Completion.empty.value? _)
  rw [Eval.program_eq, Eval.program_eq, map_eq_pure_bind, map_eq_pure_bind]
  refine .bind (w.follows_statements .empty p) fun c => ?_
  rw [Completion.value?_relocate]
  exact .pure c.value?

end Pairing

end TagScript
