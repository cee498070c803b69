import Mathlib.Logic.Relation
import TagScript.Eval.Program
import TagScript.Proofs.Random.Bounds

/-!
# What Operations Do to the Machine

The operations that the evaluator is made of change the machine in few ways: an event is noticed, a
random number is drawn, a scope is opened, a name is bound or assigned to. `Machine.Change` lists
them, and each operation is a sequence of such changes (`Eval.Changing`), however it ends. So
whatever survives the single changes survives every operation. No operation touches the active
calls: only `Machine.inFrame` does.

An operation that stops does so with an error, with a division by zero, or because the host ends a
run whose requests to exit end it (`Stop.Possible`). The other fault never arises: bounds without a
number between them are refused as an error.
-/

namespace TagScript

/-- The ways in which a run may be stopped. -/
def Stop.Possible (ctx : Context) : Stop → Prop
  | .error _ => True
  | .fault f => f = .divisionByZero
  | .halt _ => ctx.exitEnds = true

/-- Where one answer depends on another, either that one is refused or what follows it decides. -/
theorem Builtin.bind_cases {α β : Type} {x : Except Cause α} {f : α → Except Cause β}
    {r : Except Cause β} (h : (x >>= f) = r) :
    (∃ c, x = .error c ∧ r = .error c) ∨ ∃ a, x = .ok a ∧ f a = r := by
  cases x with
  | error c => exact .inl ⟨c, rfl, h.symm⟩
  | ok a => exact .inr ⟨a, rfl, h⟩

namespace Machine

/-- The machine after a computation, however it ends. -/
def after {α : Type} (x : Eval α) (m : Machine) : Machine :=
  match x m with
  | .ok _ m => m
  | .error _ m => m

/-- One change of the machine. -/
inductive Change : Machine → Machine → Prop
  /-- An event is noticed. -/
  | notice (m : Machine) (e : Event) : Change m { m with events := m.events.push e }
  /-- The random numbers go on. -/
  | draw (m : Machine) (g : Random.Generator) : Change m { m with random := g }
  /-- A scope is opened. -/
  | openScope (m : Machine) (kind : ScopeKind) (parent : ScopeId) :
      Change m { m with store := (m.store.openScope kind parent).2 }
  /-- A binding is added to a scope, or refused. -/
  | define (m : Machine) (id : ScopeId) (b : Binding) :
      Change m { m with store := (m.store.define id b).2 }
  /-- A value is assigned to a name, or refused. -/
  | assign (m : Machine) (id : ScopeId) (name : String) (v : Value) :
      Change m { m with store := (m.store.assign id name v).2 }

/-- Some changes of the machine, one after the other. -/
abbrev Changes : Machine → Machine → Prop :=
  Relation.ReflTransGen Change

/-- No change touches the active calls. -/
theorem Changes.frames_eq {m n : Machine} (h : Changes m n) : n.frames = m.frames := by
  induction h with
  | refl => rfl
  -- a change is an update of some other field
  | tail _ hc ih => cases hc <;> exact ih

end Machine

namespace Eval

open Machine (Changes Change after)

variable {α β : Type} (ctx : Context)

/-- What two computations in a row do to a machine. -/
theorem bind_apply (x : Eval α) (f : α → Eval β) (m : Machine) :
    (x >>= f) m = match x m with
      | .ok a m => f a m
      | .error s m => .error s m := by
  change EStateM.bind x f m = _
  unfold EStateM.bind
  cases x m <;> rfl

/-- Two computations one after the other succeed where each does. -/
theorem bind_eq_ok {x : Eval α} {f : α → Eval β} {m n : Machine} {b : β} :
    (x >>= f) m = .ok b n ↔ ∃ a m', x m = .ok a m' ∧ f a m' = .ok b n := by
  rw [bind_apply]
  cases x m with
  | ok a m' =>
    constructor
    · exact fun h => ⟨a, m', rfl, h⟩
    · rintro ⟨_, _, ⟨⟩, h⟩
      exact h
  | error s m' =>
    refine iff_of_false (by rintro ⟨⟩) ?_
    rintro ⟨_, _, ⟨⟩, _⟩

/-- A name is looked up and the machine is left as it was. -/
theorem bindingOf_apply (scope : ScopeId) (p : Position) (name : String) (m : Machine) :
    bindingOf ctx scope p name m =
      match m.store.resolve? scope name with
      | some b => .ok b m
      | none => .error (.error (ctx.errorAt p (.undeclared name))) m := by
  have hresolve : Machine.resolve? scope name m = .ok (m.store.resolve? scope name) m := rfl
  rw [bindingOf, bind_apply, hresolve]
  cases m.store.resolve? scope name <;> rfl

/-- A computation that is made of changes of the machine and stops only in a possible way. -/
structure Changing (ctx : Context) (x : Eval α) : Prop where
  /-- Whatever the machine, changes lead to the machine after the computation. -/
  changes : ∀ m, Changes m (after x m)
  /-- Where the computation stops, the stop is a possible one. -/
  stops : ∀ m s n, x m = .error s n → s.Possible ctx

namespace Changing

variable {ctx}

/-- One change of the machine that always succeeds. -/
theorem of_change {x : Eval α} (hx : ∀ m, ∃ a n, x m = .ok a n ∧ Change m n) :
    Changing ctx x := by
  constructor
  · intro m
    -- the machine afterwards is the one that the change leads to
    obtain ⟨a, n, hr, hc⟩ := hx m
    unfold after
    rw [hr]
    exact .single hc
  · intro m s n hs
    obtain ⟨a, n', hr, -⟩ := hx m
    rw [hr] at hs
    cases hs

theorem pure (a : α) : Changing ctx (Pure.pure a : Eval α) :=
  ⟨fun _ => .refl, fun _ _ _ h => by cases h⟩

/-- A computation may be stopped by anything that is possible in the context. -/
theorem throw {s : Stop} (hs : s.Possible ctx) : Changing ctx (MonadExcept.throw s : Eval α) :=
  ⟨fun _ => .refl, fun _ _ _ h => by cases h; exact hs⟩

/-- An error of the program is possible in every context. -/
theorem fail (p : Position) (c : Cause) : Changing ctx (ctx.fail p c : Eval α) :=
  .throw trivial

/-- Nothing is done after a failure. -/
theorem fail_bind (p : Position) (c : Cause) (f : α → Eval β) :
    Changing ctx (ctx.fail p c >>= f) :=
  ⟨fun _ => .refl, fun _ _ _ h => by cases h; trivial⟩

/-- A computation, and another one for each of the results that it can have. -/
theorem bind_of {x : Eval α} {f : α → Eval β} (hx : Changing ctx x)
    (hf : ∀ m a n, x m = .ok a n → Changing ctx (f a)) : Changing ctx (x >>= f) := by
  constructor
  · intro m
    have hm := hx.changes m
    unfold after at hm ⊢
    rw [bind_apply]
    cases hr : x m with
    | ok a n =>
      rw [hr] at hm
      exact hm.trans ((hf m a n hr).changes n)
    | error s n =>
      rw [hr] at hm
      exact hm
  · intro m s n h
    rw [bind_apply] at h
    cases hr : x m with
    | ok a n' =>
      rw [hr] at h
      exact (hf m a n' hr).stops n' s n h
    | error s' n' =>
      rw [hr] at h
      cases h
      exact hx.stops m s n hr

/-- The changes of two computations in a row are changes of one run. -/
theorem bind {x : Eval α} {f : α → Eval β} (hx : Changing ctx x) (hf : ∀ a, Changing ctx (f a)) :
    Changing ctx (x >>= f) :=
  hx.bind_of fun _ a _ _ => hf a

/-- Reading the machine is no change of it. -/
theorem get : Changing ctx (MonadState.get : Eval Machine) :=
  ⟨fun _ => .refl, fun _ _ _ h => by cases h⟩

/-- The changes of a choice are those of the branch that is taken. -/
theorem ite {c : Prop} [Decidable c] {x y : Eval α} (hx : c → Changing ctx x)
    (hy : Changing ctx y) : Changing ctx (if c then x else y) := by
  split
  next hc => exact hx hc
  next => exact hy

end Changing

/-- The only fault of an operator is a division by zero. -/
theorem fault_binary {op : BinaryOp} {v w : Value} {f : Fault}
    (h : op.apply v w = .error (.fault f)) : f = .divisionByZero := by
  -- needed twice, since truth values are compared as integers
  have hints : ∀ a b, op.onInts a b = .error (.fault f) → f = .divisionByZero := by
    intro a b h
    unfold BinaryOp.onInts at h
    split at h
    all_goals try (split at h)
    all_goals cases h
    all_goals rfl
  unfold BinaryOp.apply at h
  split at h
  · exact hints _ _ h
  · unfold BinaryOp.onFloats at h
    split at h <;> cases h
  · unfold BinaryOp.onStrings at h
    split at h <;> cases h
  · unfold BinaryOp.onBools at h
    split at h
    · exact hints _ _ h
    · cases h
  · split at h <;> cases h

/-- No sign in front of an operand makes the machine fail. -/
theorem fault_unary {op : UnaryOp} {v : Value} {f : Fault} :
    op.apply v ≠ .error (.fault f) := by
  unfold UnaryOp.apply
  split <;> rintro ⟨⟩

/-- No step of a number makes the machine fail. -/
theorem fault_step {op : StepOp} {v : Value} {f : Fault} : op.apply v ≠ .error (.fault f) := by
  unfold StepOp.apply
  split <;> rintro ⟨⟩

section Random

variable {σ : Type} {src : Random.Source σ} (hsrc : src.Lawful)
include hsrc

/-- Bounds in order have a number between them. -/
theorem fault_draw {lo hi : Int64} (hlo : 0 ≤ lo) (hle : lo ≤ hi) (s : σ) (f : Fault) :
    (Builtin.drawAnswer src lo hi s).1 ≠ .fault f := by
  obtain ⟨n, s', hdraw, -⟩ := hsrc.inclusive hlo hle s
  unfold Builtin.drawAnswer
  rw [hdraw]
  rintro ⟨⟩

/-- Bounds that are not in order are refused before anything is drawn. -/
theorem fault_random (args : List Arg) (s : σ) (f : Fault) :
    (Builtin.randomAnswer src args s).1 ≠ .ok (.fault f) := by
  unfold Builtin.randomAnswer
  split
  · rintro ⟨⟩
  · split
    · rintro ⟨⟩
    next hneg =>
      exact fun h => fault_draw hsrc (by decide) (Int64.not_lt.mp hneg) s f (Except.ok.inj h)
  · rintro ⟨⟩
  · split
    · rintro ⟨⟩
    -- a negative bound is refused before the order of the two is looked at
    next lo _ hi _ hneg =>
      have hlo : 0 ≤ lo := Int64.not_lt.mp fun h => hneg (.inl h)
      split
      · rintro ⟨⟩
      next horder =>
        exact fun h => fault_draw hsrc hlo (Int64.not_lt.mp horder) s f (Except.ok.inj h)
  · rintro ⟨⟩
  · rintro ⟨⟩

end Random

/-- No function that every script finds faults. -/
theorem fault_builtin (b : Builtin) (args : List Arg) (g : Random.Generator) (f : Fault) :
    (b.answer args g).1 ≠ .ok (.fault f) := by
  cases b with
  | random => exact fault_random Random.Generator.lawful_source args g f
  | print => rintro ⟨⟩
  | exit =>
    change Builtin.exitAnswer args ≠ _
    unfold Builtin.exitAnswer
    split <;> rintro ⟨⟩
  | len =>
    change Builtin.lenAnswer args ≠ _
    unfold Builtin.lenAnswer
    split <;> rintro ⟨⟩
  | typeof =>
    change Builtin.typeofAnswer args ≠ _
    unfold Builtin.typeofAnswer
    split <;> rintro ⟨⟩
  | range =>
    change Builtin.rangeAnswer args ≠ _
    unfold Builtin.rangeAnswer
    split
    · rintro ⟨⟩
    · intro h
      obtain ⟨c, -, hc⟩ | ⟨bs, -, h⟩ := Builtin.bind_cases h
      · cases hc
      · split at h <;> cases h

variable (scope : ScopeId) (p : Position)

variable {ctx} in
/-- To notice an event is one change. -/
theorem changing_notice (e : Event) : Changing ctx (Machine.notice e) :=
  .of_change fun m => ⟨_, _, rfl, .notice m e⟩

theorem changing_note (step : Machine → Note) : Changing ctx (Machine.note ctx step) :=
  .ite (fun _ => .bind .get fun _ => changing_notice _) (.pure _)

variable {ctx} in
/-- To open a scope is one change. -/
theorem changing_openScope (kind : ScopeKind) (parent : ScopeId) :
    Changing ctx (Machine.openScope kind parent) :=
  .of_change fun m => ⟨_, _, rfl, .openScope m kind parent⟩

variable {ctx} in
/-- To add a binding is one change, also if it is refused. -/
theorem changing_define (b : Binding) : Changing ctx (Machine.define scope b) :=
  .of_change fun m => ⟨_, _, rfl, .define m scope b⟩

variable {ctx} in
/-- To assign is one change, also if it is refused. -/
theorem changing_assign (name : String) (v : Value) : Changing ctx (Machine.assign scope name v) :=
  .of_change fun m => ⟨_, _, rfl, .assign m scope name v⟩

variable {ctx} in
/-- To look a name up changes nothing. -/
theorem changing_resolve (name : String) : Changing ctx (Machine.resolve? scope name) :=
  .bind .get fun _ => .pure _

/-- An operator may fail by a division by zero, and by no other fault. -/
theorem changing_accept {r : Except Refusal α}
    (hr : ∀ f, r = .error (.fault f) → f = .divisionByZero) : Changing ctx (ctx.accept p r) := by
  unfold Context.accept
  split
  · exact .pure _
  · exact .fail _ _
  next f => exact .throw (hr f rfl)

theorem changing_bindingOf (name : String) : Changing ctx (bindingOf ctx scope p name) := by
  refine .bind (changing_resolve scope name) fun b => ?_
  split
  · exact .pure _
  · exact .fail _ _

theorem changing_requireDeclared (name : String) :
    Changing ctx (requireDeclared ctx scope p name) :=
  .bind .get fun _ => .ite (fun _ => .fail _ _) (.pure _)

/-- An assignment is one change, unless the name resolves to nothing. -/
theorem changing_assignValue (name : String) (valueAt : Position) (v : Value) :
    Changing ctx (assignValue ctx scope p name valueAt v) := by
  refine .bind (changing_assign scope name v) fun outcome => ?_
  split
  · exact .pure _
  · exact .fail _ _
  · exact .fail _ _
  · exact .bind (changing_resolve scope name) fun _ => .fail _ _

theorem changing_checkCallable (v : Value) : Changing ctx (checkCallable ctx p v) :=
  .ite (fun _ => .fail _ _) (.pure _)

theorem changing_checkItem (want : Tag) (v : Value) : Changing ctx (checkItem ctx p want v) :=
  .ite (fun _ => .fail _ _) (.pure _)

/-- The function may draw a random number; it can fail only where no number can be drawn. -/
theorem changing_builtin (b : Builtin) (args : List Arg) : Changing ctx (b.call ctx args p) := by
  refine .bind_of (.of_change fun m => ⟨_, _, rfl, .draw m _⟩) fun m result n hresult => ?_
  -- the result is the answer to these arguments, which is no fault
  obtain rfl : (b.answer args m.random).1 = result := by cases hresult; rfl
  split
  · exact .fail _ _
  · exact .pure _
  next f hf => exact absurd hf (fault_builtin b args m.random f)
  · exact .bind (changing_notice _) fun _ => .pure _
  · exact .bind (changing_notice _) fun _ =>
      .ite (fun hexit => .bind (.throw hexit) fun _ => .pure _) (.pure _)

/-- A call of a function that every script finds notices itself and then does what the function
does. -/
theorem changing_callBuiltin (b : Builtin) (args : List Arg) :
    Changing ctx (callBuiltin ctx b args p) :=
  .bind (changing_note ctx _) fun _ => changing_builtin ctx p b args

theorem changing_declare (b : Binding) : Changing ctx (declare ctx scope p b) :=
  .bind (changing_define scope b) fun _ => .ite (fun _ => .fail _ _) (.pure _)

/-- The declaration of a value is one more binding, unless the declared type refuses it. -/
theorem changing_declareValue (constant : Bool) (name : String) (type : Option TypeName)
    (valueAt : Position) (v : Value) :
    Changing ctx (declareValue ctx scope p constant name type valueAt v) := by
  unfold declareValue
  split
  · exact .ite (fun _ => .bind (.fail _ _) fun _ => changing_declare ctx scope p _)
      (changing_declare ctx scope p _)
  · exact changing_declare ctx scope p _

/-- The declaration of a function is one more binding. -/
theorem changing_declareFunction (name : String) (params : List Param)
    (returns : Option TypeName) (body : List Stmt) :
    Changing ctx (declareFunction ctx scope p name params returns body) := by
  -- there are two checks, of the name and of the parameters
  refine .bind .get fun _ => .ite (fun _ => .fail_bind _ _ _) ?_
  split
  · exact .fail_bind _ _ _
  · exact .bind (changing_define scope _) fun _ => .pure _

variable {ctx} in
/-- The cursor is assigned its next value. -/
theorem changing_moveCursor (cursor : String) (step : Int64) :
    Changing ctx (moveCursor scope cursor step) := by
  refine .bind (changing_resolve scope cursor) fun b => ?_
  split
  · exact .bind (changing_assign scope cursor _) fun _ => .pure _
  · exact .pure _

theorem changing_loopRange (v : Value) : Changing ctx (loopRange ctx p v) := by
  unfold loopRange
  split
  · exact .ite (fun _ => .fail _ _) (.pure _)
  · exact .fail _ _

/-- Each parameter is one more binding. -/
theorem changing_bindParams (function : String) (params : List Param) (args : List Arg) :
    Changing ctx (bindParams ctx function scope p params args) := by
  induction params generalizing args with
  | nil => exact .pure _
  | cons param params ih =>
    cases args with
    | nil => exact .pure _
    | cons arg args =>
      -- what is done once the type of the argument is accepted
      have hrest : Changing ctx (do
          declare ctx scope p ⟨param.name, arg.value, arg.value.tag, true⟩
          bindParams ctx function scope p params args) :=
        .bind (changing_declare ctx scope p _) fun _ => ih args
      unfold bindParams
      split
      · exact .ite (fun _ => .bind (.fail _ _) fun _ => hrest) hrest
      · exact hrest

theorem changing_checkArity (f : Closure) (args : List Arg) :
    Changing ctx (checkArity ctx f args p) :=
  .ite (fun _ => .fail _ _) (.pure _)

/-- A call opens its scope and binds its parameters. -/
theorem changing_openCall (f : Closure) (args : List Arg) : Changing ctx (openCall ctx f args p) :=
  .bind (changing_openScope _ _) fun _ =>
    .bind (changing_bindParams ctx _ p _ _ _) fun _ => .pure _

theorem changing_noteCall (f : Closure) : Changing ctx (noteCall ctx f scope) :=
  changing_note ctx _

/-- The check of a result changes nothing. -/
theorem changing_resultOf (f : Closure) (c : Completion) : Changing ctx (resultOf ctx f p c) := by
  unfold resultOf
  split
  · exact .pure _
  · exact .pure _
  · exact .ite (fun _ => .fail _ _) (.pure _)

end Eval

end TagScript
