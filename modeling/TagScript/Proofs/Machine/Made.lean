import Mathlib.Data.Set.Insert
import TagScript.Proofs.Machine.Changes

/-!
# What Operations Are Made Of

Each operation of the evaluator is made of a few primitive ones, and it is said once how
(`Eval.Made`): in which scopes it binds names, and which errors it raises. The operations bind names
only in scopes that they are given or that they open themselves. Two causes of errors are about
calls as such, the limit of active calls and the type of a result (`Cause.ofCall`); the evaluator
raises them where a call begins and where it ends, and the operations in between raise only others.

An error is raised without a trace: the functions it passes through are added on its way out. So
what is made in this way raises plain errors only (`Made.plain`).
-/

namespace TagScript

/-- Whether a cause is about a call as such: its depth, or the type of its result. -/
def Cause.ofCall : Cause → Bool
  | .depth _ | .returnMismatch .. => true
  | _ => false

/-- An error that passed through no function yet and is not about a call as such. -/
structure RuntimeError.Plain (e : RuntimeError) : Prop where
  /-- It passed through no function. -/
  stack : e.stack = []
  /-- Its cause is not about a call as such. -/
  cause : e.cause.ofCall = false

section Operators

variable {c : Cause}

/-- An operator between whole numbers refuses with a cause that is not about a call. -/
theorem BinaryOp.ofCall_onInts {op : BinaryOp} {a b : Int64}
    (h : op.onInts a b = .error (.cause c)) : c.ofCall = false := by
  unfold onInts at h
  split at h
  all_goals try (split at h)
  all_goals cases h
  all_goals rfl

/-- An operator between values refuses with a cause that is not about a call. -/
theorem BinaryOp.ofCall_apply {op : BinaryOp} {v w : Value}
    (h : op.apply v w = .error (.cause c)) : c.ofCall = false := by
  unfold apply at h
  split at h
  · exact ofCall_onInts h
  · unfold onFloats at h
    split at h <;> cases h
    rfl
  · unfold onStrings at h
    split at h <;> cases h
    rfl
  · unfold onBools at h
    split at h
    · exact ofCall_onInts h
    · cases h
      rfl
  · split at h <;> cases h <;> rfl

/-- A sign in front of an operand refuses with a cause that is not about a call. -/
theorem UnaryOp.ofCall_apply {op : UnaryOp} {v : Value}
    (h : op.apply v = .error (.cause c)) : c.ofCall = false := by
  unfold apply at h
  split at h <;> cases h <;> rfl

/-- A step refuses with a cause that is not about a call. -/
theorem StepOp.ofCall_apply {op : StepOp} {v : Value}
    (h : op.apply v = .error (.cause c)) : c.ofCall = false := by
  unfold apply at h
  split at h <;> cases h
  rfl

end Operators

namespace Builtin

variable {args : List Arg} {c : Cause}

/-- `range` complains about its arguments only. -/
theorem ofCall_bounds {index : Nat} (h : bounds index args = .error c) : c.ofCall = false := by
  fun_induction bounds index args with
  | case1 => cases h
  | case2 index n rest ih =>
    -- the first argument is a whole number, so one of the others is refused
    rcases bind_cases h with ⟨c', hrest, hc⟩ | ⟨more, -, hmore⟩
    · cases hc
      exact ih hrest
    · cases hmore
  | case3 =>
    cases h
    rfl

theorem ofCall_rangeAnswer (h : rangeAnswer args = .error c) : c.ofCall = false := by
  unfold rangeAnswer at h
  split at h
  · cases h
    rfl
  · rcases bind_cases h with ⟨c', hb, hc⟩ | ⟨bs, -, h⟩
    · cases hc
      exact ofCall_bounds hb
    · split at h <;> cases h
      rfl

/-- `random` complains about its arguments only. -/
theorem ofCall_randomAnswer {σ : Type} {src : Random.Source σ} {s : σ}
    (h : (randomAnswer src args s).1 = .error c) : c.ofCall = false := by
  unfold randomAnswer at h
  split at h
  · cases h
  · split at h <;> cases h
    rfl
  · cases h
    rfl
  · split at h
    · cases h
      rfl
    · split at h <;> cases h
      rfl
  · cases h
    rfl
  · cases h
    rfl

/-- A built-in function refuses its arguments with a cause that is not about a call. -/
theorem ofCall_answer {b : Builtin} {g : Random.Generator} (h : (b.answer args g).1 = .error c) :
    c.ofCall = false := by
  cases b with
  | print => cases h
  | exit =>
    simp only [answer, exitAnswer] at h
    split at h <;> cases h <;> rfl
  | len =>
    simp only [answer, lenAnswer] at h
    split at h <;> cases h <;> rfl
  | random => exact ofCall_randomAnswer h
  | typeof =>
    simp only [answer, typeofAnswer] at h
    split at h <;> cases h
    rfl
  | range => exact ofCall_rangeAnswer h

end Builtin

namespace Eval

variable {α β : Type}

/-- A computation that is made of primitive operations. It binds names only in the scopes `owned`
and in scopes that it opens itself, and raises no error about a call as such. -/
inductive Made (ctx : Context) : Set ScopeId → {α : Type} → Eval α → Prop
  /-- Nothing is done. -/
  | pure {owned : Set ScopeId} {α : Type} (a : α) : Made ctx owned (Pure.pure a)
  /-- The machine is read. -/
  | get {owned : Set ScopeId} : Made ctx owned MonadState.get
  /-- An error is raised. -/
  | fail {owned : Set ScopeId} {α : Type} (p : Position) {c : Cause} (hc : c.ofCall = false) :
      Made ctx owned (ctx.fail p c : Eval α)
  /-- The run is stopped without an error. -/
  | stop {owned : Set ScopeId} {α : Type} {s : Stop} (hs : ∀ e, s ≠ .error e) :
      Made ctx owned (throw s : Eval α)
  /-- An event is noticed. -/
  | notice {owned : Set ScopeId} (e : Event) : Made ctx owned (Machine.notice e)
  /-- Random numbers are drawn. -/
  | draw {owned : Set ScopeId} {α : Type} (f : Random.Generator → α × Random.Generator) :
      Made ctx owned (modifyGet fun m : Machine =>
        ((f m.random).1, { m with random := (f m.random).2 }))
  /-- A value is assigned to a name, wherever that is bound. -/
  | assign {owned : Set ScopeId} (id : ScopeId) (name : String) (v : Value) :
      Made ctx owned (Machine.assign id name v)
  /-- A name is bound in one of the scopes. -/
  | define {owned : Set ScopeId} {id : ScopeId} (hid : id ∈ owned) (b : Binding) :
      Made ctx owned (Machine.define id b)
  /-- A scope is opened, and names may be bound in it. -/
  | opened {owned : Set ScopeId} {α : Type} {f : ScopeId → Eval α} (kind : ScopeKind)
      (parent : ScopeId) (hf : ∀ id, Made ctx (insert id owned) (f id)) :
      Made ctx owned (Machine.openScope kind parent >>= f)
  /-- A computation is done, and another one for each of the results that it can have. -/
  | bind_of {owned : Set ScopeId} {α β : Type} {x : Eval α} {f : α → Eval β} (hx : Made ctx owned x)
      (hf : ∀ m a n, x m = .ok a n → Made ctx owned (f a)) : Made ctx owned (x >>= f)

namespace Made

variable {ctx : Context} {owned : Set ScopeId}

/-- One made computation after the other. -/
theorem bind {x : Eval α} {f : α → Eval β} (hx : Made ctx owned x)
    (hf : ∀ a, Made ctx owned (f a)) : Made ctx owned (x >>= f) :=
  hx.bind_of fun _ a _ _ => hf a

theorem ite {c : Prop} [Decidable c] {x y : Eval α} (hx : Made ctx owned x)
    (hy : Made ctx owned y) : Made ctx owned (if c then x else y) := by
  split
  · exact hx
  · exact hy

/-- Nothing is done after a failure. -/
theorem fail_bind (p : Position) {c : Cause} (hc : c.ofCall = false) (f : α → Eval β) :
    Made ctx owned (ctx.fail p c >>= f) :=
  .bind_of (.fail p hc) (by rintro m a n ⟨⟩)

end Made

/-- What is made of primitive operations raises plain errors only. -/
theorem Made.plain {ctx : Context} {owned : Set ScopeId} {x : Eval α} (hx : Made ctx owned x)
    {m n : Machine} {e : RuntimeError} (h : x m = .error (.error e) n) : e.Plain := by
  induction hx generalizing m n with
  | fail p hc =>
    cases h
    exact ⟨rfl, hc⟩
  | stop hs =>
    cases h
    exact absurd rfl (hs e)
  -- opening a scope cannot fail, so the error is one of what follows
  | opened kind parent hf ih => exact ih _ h
  | @bind_of owned α β x f hx hf ihx ihf =>
    -- the error is one of the first computation, or one of the second after the first succeeded
    rw [bind_apply] at h
    cases hr : x m with
    | ok a m' =>
      rw [hr] at h
      exact ihf m a m' hr h
    | error s m' =>
      rw [hr] at h
      cases h
      exact ihx hr
  -- everything else succeeds
  | _ => cases h

variable {owned : Set ScopeId} (ctx : Context) (scope : ScopeId) (p : Position)

theorem made_note (step : Machine → Note) : Made ctx owned (Machine.note ctx step) :=
  .ite (.bind .get fun _ => .notice _) (.pure _)

theorem made_resolve (name : String) : Made ctx owned (Machine.resolve? scope name) :=
  .bind .get fun _ => .pure _

/-- A new scope is one that is opened here. -/
theorem made_openScope (kind : ScopeKind) (parent : ScopeId) :
    Made ctx owned (Machine.openScope kind parent) := by
  rw [← bind_pure (Machine.openScope kind parent)]
  exact .opened kind parent fun id => .pure id

/-- The one error is that the name is not declared. -/
theorem made_bindingOf (name : String) : Made ctx owned (bindingOf ctx scope p name) := by
  refine .bind (made_resolve ctx scope name) fun found => ?_
  cases found with
  | some b => exact .pure b
  | none => exact .fail p rfl

theorem made_requireDeclared (name : String) :
    Made ctx owned (requireDeclared ctx scope p name) :=
  .bind .get fun _ => .ite (.fail p rfl) (.pure _)

/-- To assign binds nothing. -/
theorem made_assignValue (name : String) (valueAt : Position) (v : Value) :
    Made ctx owned (assignValue ctx scope p name valueAt v) := by
  refine .bind (.assign scope name v) fun outcome => ?_
  cases outcome with
  | ok => exact .pure _
  | undeclared => exact .fail p rfl
  | immutable => exact .fail p rfl
  | typeMismatch => exact .bind (made_resolve ctx scope name) fun _ => .fail valueAt rfl

theorem made_checkCallable (v : Value) : Made ctx owned (checkCallable ctx p v) :=
  .ite (.fail p rfl) (.pure _)

theorem made_checkItem (want : Tag) (v : Value) : Made ctx owned (checkItem ctx p want v) :=
  .ite (.fail p rfl) (.pure _)

/-- An operator raises what it refuses with. -/
theorem made_accept {r : Except Refusal α} (hr : ∀ c, r = .error (.cause c) → c.ofCall = false) :
    Made ctx owned (ctx.accept p r) := by
  unfold Context.accept
  split
  · exact .pure _
  next c => exact .fail p (hr c rfl)
  · exact .stop (by rintro e ⟨⟩)

/-- A function that every script finds binds nothing; its errors are about its arguments. -/
theorem made_callBuiltin (b : Builtin) (args : List Arg) :
    Made ctx owned (callBuiltin ctx b args p) := by
  refine .bind (made_note ctx _) fun _ => ?_
  refine .bind_of (.draw fun g => b.answer args g) fun m result n hresult => ?_
  -- the result is the answer to these arguments, and the answer decides what follows
  obtain rfl : (b.answer args m.random).1 = result := by
    cases hresult
    rfl
  split
  next cause hcause => exact .fail p (Builtin.ofCall_answer hcause)
  next => exact .pure _
  next f _ => exact .stop (by rintro e ⟨⟩)
  next => exact .bind (.notice _) fun _ => .pure _
  next code _ =>
    -- whether the request ends the run is a setting of it
    have hhalt : Made ctx owned (throw (.halt code) : Eval PUnit) := .stop (by rintro e ⟨⟩)
    exact .bind (.notice _) fun _ => .ite (.bind hhalt fun _ => .pure _) (.pure _)

/-- To move a cursor binds nothing. -/
theorem made_moveCursor (cursor : String) (step : Int64) :
    Made ctx owned (moveCursor scope cursor step) := by
  refine .bind (made_resolve ctx scope cursor) fun found => ?_
  split
  · exact .bind (.assign scope cursor _) fun _ => .pure _
  · exact .pure _

theorem made_loopRange (v : Value) : Made ctx owned (loopRange ctx p v) := by
  unfold loopRange
  split
  · exact .ite (.fail p rfl) (.pure _)
  · exact .fail p rfl

theorem made_checkArity (f : Closure) (args : List Arg) :
    Made ctx owned (checkArity ctx f args p) :=
  .ite (.fail p rfl) (.pure _)

section Declarations

variable {scope} (hscope : scope ∈ owned)
include hscope

theorem made_declare (b : Binding) : Made ctx owned (declare ctx scope p b) :=
  .bind (.define hscope b) fun _ => .ite (.fail p rfl) (.pure _)

/-- A value is declared in a scope that is given. -/
theorem made_declareValue (constant : Bool) (name : String) (type : Option TypeName)
    (valueAt : Position) (v : Value) :
    Made ctx owned (declareValue ctx scope p constant name type valueAt v) := by
  have hdeclare := made_declare ctx p hscope ⟨name, v, v.tag, !constant⟩
  unfold declareValue
  split
  · exact .ite (.fail_bind _ rfl _) hdeclare
  · exact hdeclare

/-- A function is declared in a scope that is given. -/
theorem made_declareFunction (name : String) (params : List Param) (returns : Option TypeName)
    (body : List Stmt) :
    Made ctx owned (declareFunction ctx scope p name params returns body) := by
  -- there are two checks, of the name and of the parameters
  refine .bind .get fun _ => .ite (.fail_bind _ rfl _) ?_
  split
  · exact .fail_bind _ rfl _
  · exact .bind (.define hscope _) fun _ => .pure _

/-- Parameters are bound in a scope that is given. -/
theorem made_bindParams (function : String) (params : List Param) (args : List Arg) :
    Made ctx owned (bindParams ctx function scope p params args) := by
  induction params generalizing args with
  | nil => exact .pure _
  | cons param params ih =>
    cases args with
    | nil => exact .pure _
    | cons arg args =>
      have hrest : Made ctx owned (do
          declare ctx scope p ⟨param.name, arg.value, arg.value.tag, true⟩
          bindParams ctx function scope p params args) :=
        .bind (made_declare ctx p hscope _) fun _ => ih args
      unfold bindParams
      split
      · exact .ite (.fail_bind _ rfl _) hrest
      · exact hrest

end Declarations

/-- Parameters are bound in the scope that the call opens, and in no other. -/
theorem made_openCall (f : Closure) (args : List Arg) : Made ctx owned (openCall ctx f args p) :=
  .opened .function f.scope fun scope =>
    .bind (made_bindParams ctx p (Set.mem_insert scope owned) f.name f.params args) fun _ => .pure _

end Eval

end TagScript
