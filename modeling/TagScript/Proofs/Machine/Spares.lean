import TagScript.Proofs.Machine.Safe
import TagScript.Proofs.Store.Kept

/-!
# Operations Spare a Binding

`Eval.Spares` says that a computation leaves a cell of the stored scopes as it is, where it
succeeds, and that it stores no function that could change the cell later. It is proved for each of
the operations that the evaluator is made of. What they are given, values and code, must not be able
to change the cell either; what they answer then is not.

The cursor of a loop moves by an assignment that no program has written. It is to a name that the
scope of the loop binds itself, so it changes no cell of another scope.
-/

namespace TagScript

/-- A built-in function answers with no function. -/
theorem Builtin.sparedBy_answer {cell : Cell} {s : Store} {f : Builtin} {args : List Arg}
    {g : Random.Generator} {v : Value} (h : (f.answer args g).1 = .ok (.value v)) :
    cell.SparedBy s v := by
  cases f with
  | print => cases h
  | exit =>
    simp only [answer, exitAnswer] at h
    split at h <;> cases h
  | len =>
    simp only [answer, lenAnswer] at h
    split at h <;> cases h
    exact Cell.sparedBy_of_formed (.int _)
  | random => exact Cell.sparedBy_of_formed (formed_randomAnswer h)
  | typeof =>
    simp only [answer, typeofAnswer] at h
    split at h <;> cases h
    -- whatever tag is tracked for the argument
    rintro f ⟨⟩
  | range => exact Cell.sparedBy_of_formed (formed_rangeAnswer h)

/-- No function in the value of a completion can change the cell. -/
def Eval.Completion.SparedBy (cell : Cell) (s : Store) (c : Completion) : Prop :=
  ∀ v, c.value? = some v → cell.SparedBy s v

theorem Eval.Completion.sparedBy_empty {cell : Cell} {s : Store} : empty.SparedBy cell s := by
  rintro v ⟨⟩

namespace Eval

variable {α β : Type} {cell : Cell} {b : Binding}

/-- Where the computation `x` succeeds on the machine `m`, the cell still holds the binding `b` and
no stored function can change it. The scopes have only grown, and the result satisfies `Q`. -/
def Spares (cell : Cell) (b : Binding) (x : Eval α) (m : Machine) (Q : α → Store → Prop) : Prop :=
  ∀ a n, x m = .ok a n → cell.Kept b n.store ∧ m.store.Extends n.store ∧ Q a n.store

namespace Spares

variable {x : Eval α} {f : α → Eval β} {m : Machine} {Q : α → Store → Prop}
  {R : β → Store → Prop}

/-- A computation that does not touch the scopes. -/
theorem of_store_eq (hm : cell.Kept b m.store)
    (h : ∀ a n, x m = .ok a n → n.store = m.store ∧ Q a m.store) : Spares cell b x m Q := by
  intro a n hx
  obtain ⟨hstore, hq⟩ := h a n hx
  rw [hstore]
  exact ⟨hm, .refl _, hq⟩

/-- A result that satisfies `Q` as it is. -/
theorem pure {a : α} (hm : cell.Kept b m.store) (h : Q a m.store) :
    Spares cell b (Pure.pure a) m Q := by
  rintro _ _ ⟨⟩
  exact ⟨hm, .refl _, h⟩

/-- A stop asks nothing of the scopes. -/
theorem throw {s : Stop} : Spares cell b (MonadExcept.throw s) m Q := by
  rintro _ _ ⟨⟩

theorem fail {ctx : Context} {p : Position} {c : Cause} : Spares cell b (ctx.fail p c) m Q := by
  rintro _ _ ⟨⟩

/-- What would come after an error is not run. -/
theorem fail_bind {ctx : Context} {p : Position} {c : Cause} :
    Spares cell b (ctx.fail p c >>= f) m R := by
  rintro _ _ ⟨⟩

/-- What comes after `x` may rely on the binding, which `x` has kept, and on what holds of its
result. -/
theorem bind (hx : Spares cell b x m Q)
    (hf : ∀ a n, cell.Kept b n.store → m.store.Extends n.store → Q a n.store →
      Spares cell b (f a) n R) : Spares cell b (x >>= f) m R := by
  intro r o h
  obtain ⟨a, n, ha, h⟩ := bind_eq_ok.mp h
  obtain ⟨hn, hext, hq⟩ := hx a n ha
  obtain ⟨ho, hext', hr⟩ := hf a n hn hext hq r o h
  exact ⟨ho, hext.trans hext', hr⟩

/-- Each branch may rely on its condition. -/
theorem ite {c : Prop} [Decidable c] {x y : Eval α} (hx : c → Spares cell b x m Q)
    (hy : ¬c → Spares cell b y m Q) : Spares cell b (if c then x else y) m Q := by
  split
  next hc => exact hx hc
  next hc => exact hy hc

/-- Reading the machine first. -/
theorem get_bind {f : Machine → Eval β} (h : Spares cell b (f m) m R) :
    Spares cell b (MonadState.get >>= f) m R :=
  h

/-- A check fails or does nothing. -/
theorem check {c : Prop} [Decidable c] {ctx : Context} {p : Position} {cause : Cause}
    (hm : cell.Kept b m.store) :
    Spares cell b (if c then ctx.fail p cause else Pure.pure PUnit.unit) m fun _ _ => True :=
  .ite (fun _ => .fail) fun _ => .pure hm trivial

/-- Less may be asked of the result. -/
theorem mono {Q' : α → Store → Prop} (hx : Spares cell b x m Q) (h : ∀ a s, Q a s → Q' a s) :
    Spares cell b x m Q' := by
  intro a n ha
  obtain ⟨hn, hext, hq⟩ := hx a n ha
  exact ⟨hn, hext, h a n.store hq⟩

/-- The body of a function is run as an active call. -/
theorem inFrame {function : String}
    (hx : Spares cell b x { m with frames := function :: m.frames } Q) :
    Spares cell b (Machine.inFrame function x) m Q := by
  intro a n h
  unfold Machine.inFrame at h
  split at h
  next hr =>
    have hend := hx _ _ hr
    cases h
    exact hend
  all_goals cases h

end Spares

section Operations

variable (ctx : Context) {m : Machine} (hm : cell.Kept b m.store) (p : Position)
include hm

theorem spares_notice (e : Event) : Spares cell b (Machine.notice e) m fun _ _ => True := by
  refine .of_store_eq hm ?_
  rintro _ _ ⟨⟩
  exact ⟨rfl, trivial⟩

theorem spares_note (step : Machine → Note) :
    Spares cell b (Machine.note ctx step) m fun _ _ => True :=
  .ite (fun _ => .get_bind (spares_notice hm _)) fun _ => .pure hm trivial

/-- A new scope is another one than the owner of the binding. -/
theorem spares_openScope (kind : ScopeKind) {scope : ScopeId} {a : Bool}
    (hs : cell.Spared m.store scope a) :
    Spares cell b (Machine.openScope kind scope) m fun inner s =>
      cell.Spared s inner a ∧ inner ≠ cell.owner := by
  rintro _ _ ⟨⟩
  exact ⟨hm.openScope kind scope, .openScope _ kind scope, hs.openScope hm.owner_lt kind,
    (Nat.ne_of_lt hm.owner_lt).symm⟩

/-- To bind a name does not touch a name that is bound already. -/
theorem spares_define (scope : ScopeId) {d : Binding} (hd : cell.SparedBy m.store d.value) :
    Spares cell b (Machine.define scope d) m fun _ s =>
      scope < m.store.scopes.size → s.find? scope d.name ≠ none := by
  rintro _ _ ⟨⟩
  exact ⟨hm.define scope hd, .define _ scope d, fun h => Store.find?_define_ne_none h d⟩

/-- What a name resolves to is a stored value, so it spares the binding as all of them do. -/
theorem spares_resolve (scope : ScopeId) (x : String) :
    Spares cell b (Machine.resolve? scope x) m fun found s =>
      ∀ d, found = some d → cell.SparedBy s d.value :=
  .get_bind (.pure hm fun _ hd => hm.sparedBy_of_resolve? hd)

/-- The value of a name spares the binding. -/
theorem spares_bindingOf (scope : ScopeId) (x : String) :
    Spares cell b (bindingOf ctx scope p x) m fun d s => cell.SparedBy s d.value := by
  refine .bind (spares_resolve hm scope x) fun found n hn _ hfound => ?_
  cases found with
  | some d => exact .pure hn (hfound d rfl)
  | none => exact .fail

theorem spares_requireDeclared (scope : ScopeId) (x : String) :
    Spares cell b (requireDeclared ctx scope p x) m fun _ _ => True :=
  .get_bind (.check hm)

/-- An assignment from a scope that spares the name of the binding goes to another binding. -/
theorem spares_assignValue {scope : ScopeId} {x : String} (valueAt : Position) {v : Value}
    (hx : cell.Spared m.store scope (x == cell.name)) (hv : cell.SparedBy m.store v) :
    Spares cell b (assignValue ctx scope p x valueAt v) m fun _ _ => True := by
  have hassign : Spares cell b (Machine.assign scope x v) m fun _ _ => True := by
    rintro _ _ ⟨⟩
    exact ⟨hm.assign_of_spared hv hx, .assign _ scope x v, trivial⟩
  refine .bind hassign fun outcome n hn _ _ => ?_
  cases outcome with
  | ok => exact .pure hn trivial
  | undeclared => exact .fail
  | immutable => exact .fail
  | typeMismatch => exact .bind (spares_resolve hn scope x) fun _ _ _ _ _ => .fail

theorem spares_declare (scope : ScopeId) {d : Binding} (hd : cell.SparedBy m.store d.value) :
    Spares cell b (declare ctx scope p d) m fun _ _ => True :=
  .bind (spares_define hm scope hd) fun _ _ hn _ _ => .check hn

/-- To declare a value does not touch the binding. -/
theorem spares_declareValue (scope : ScopeId) (constant : Bool) (x : String)
    (type : Option TypeName) (valueAt : Position) {v : Value} (hv : cell.SparedBy m.store v) :
    Spares cell b (declareValue ctx scope p constant x type valueAt v) m fun _ _ => True := by
  unfold declareValue
  split
  · exact .ite (fun _ => .fail_bind) fun _ => spares_declare ctx hm p scope hv
  · exact spares_declare ctx hm p scope hv

/-- A function whose body spares the binding may be declared. -/
theorem spares_declareFunction {scope : ScopeId} (x : String) (params : List Param)
    (returns : Option TypeName) {body : List Stmt}
    (hbody : cell.Spared m.store scope (Stmt.assignsAny cell.name body)) :
    Spares cell b (declareFunction ctx scope p x params returns body) m fun _ _ => True := by
  -- the function keeps the scope that it is declared in, where its body was known not to assign
  have hf : cell.SparedBy m.store (.function ⟨x, params, returns, body, scope⟩) :=
    Cell.sparedBy_function hbody
  have hdefine : Spares cell b (do
      let _ ← Machine.define scope ⟨x, .function ⟨x, params, returns, body, scope⟩,
        .function, false⟩
      Pure.pure PUnit.unit) m fun _ _ => True :=
    .bind (spares_define hm scope hf) fun _ _ hn _ _ => .pure hn trivial
  refine .get_bind (.ite (fun _ => .fail_bind) fun _ => ?_)
  split
  · exact .fail_bind
  · exact hdefine

theorem spares_loopRange (v : Value) :
    Spares cell b (loopRange ctx p v) m fun _ _ => True := by
  unfold loopRange
  split
  · exact .ite (fun _ => .fail) fun _ => .pure hm trivial
  · exact .fail

/-- What an operator makes mentions no scope. -/
theorem spares_accept {r : Except Refusal Value} (hr : ∀ v, r = .ok v → v.Formed 0) :
    Spares cell b (ctx.accept p r) m fun v s => cell.SparedBy s v := by
  unfold Context.accept
  split
  next v => exact .pure hm (Cell.sparedBy_of_formed (hr v rfl))
  next => exact .fail
  next => exact .throw

/-- What a function that every script finds answers mentions no scope. -/
theorem spares_callBuiltin (f : Builtin) (args : List Arg) :
    Spares cell b (callBuiltin ctx f args p) m fun v s => cell.SparedBy s v := by
  refine .bind (spares_note ctx hm _) fun _ n hn _ _ => ?_
  have hanswer : Spares cell b (modifyGet fun m : Machine =>
      ((f.answer args m.random).1, { m with random := (f.answer args m.random).2 })) n
      fun result s => ∀ v, result = .ok (.value v) → cell.SparedBy s v := by
    refine .of_store_eq hn ?_
    rintro _ _ ⟨⟩
    exact ⟨rfl, fun v hv => Builtin.sparedBy_answer hv⟩
  have hnull {o : Machine} (ho : cell.Kept b o.store) :
      Spares cell b (Pure.pure Value.null) o fun v s => cell.SparedBy s v :=
    .pure ho (Cell.sparedBy_of_formed .null)
  refine .bind hanswer fun result o ho _ hresult => ?_
  split
  next => exact .fail
  next v => exact .pure ho (hresult v rfl)
  next => exact .throw
  next => exact .bind (spares_notice ho _) fun _ _ hk _ _ => hnull hk
  next =>
    refine .bind (spares_notice ho _) fun _ k hk _ _ => .ite (fun _ => ?_) fun _ => hnull hk
    rintro _ _ ⟨⟩

/-- The arguments of a call are bound to the parameters. -/
theorem spares_bindParams (function : String) (scope : ScopeId) (params : List Param)
    {args : List Arg} (ha : ∀ a ∈ args, cell.SparedBy m.store a.value) :
    Spares cell b (bindParams ctx function scope p params args) m fun _ _ => True := by
  induction params generalizing args m with
  | nil => exact .pure hm trivial
  | cons param params ih =>
    cases args with
    | nil => exact .pure hm trivial
    | cons arg args =>
      have hrest : Spares cell b (do
          declare ctx scope p ⟨param.name, arg.value, arg.value.tag, true⟩
          bindParams ctx function scope p params args) m fun _ _ => True := by
        refine .bind (spares_declare ctx hm p scope (ha arg (by simp))) fun _ n hn hext _ => ?_
        -- the other arguments are still values that cannot change the cell
        exact ih hn fun a h => (ha a (by simp [h])).mono hext
      unfold bindParams
      split
      · exact .ite (fun _ => .fail_bind) fun _ => hrest
      · exact hrest

/-- The scope of a call lies where the function was declared. -/
theorem spares_openCall (f : Closure) {args : List Arg}
    (hf : cell.Spared m.store f.scope (Stmt.assignsAny cell.name f.body))
    (ha : ∀ a ∈ args, cell.SparedBy m.store a.value) :
    Spares cell b (openCall ctx f args p) m fun scope s =>
      cell.Spared s scope (Stmt.assignsAny cell.name f.body) := by
  refine .bind (spares_openScope hm .function hf) fun scope n hn hext hscope => ?_
  have hargs : ∀ a ∈ args, cell.SparedBy n.store a.value := fun a h => (ha a h).mono hext
  refine .bind (spares_bindParams ctx hn p f.name scope f.params hargs) fun _ o ho hext' _ => ?_
  exact .pure ho (hscope.1.mono hext')

/-- The result of a call is the value that the body returns, or `null`. -/
theorem spares_resultOf (f : Closure) {c : Completion} (hc : c.SparedBy cell m.store) :
    Spares cell b (resultOf ctx f p c) m fun v s => cell.SparedBy s v := by
  have hv : cell.SparedBy m.store (c.value?.getD .null) := by
    cases h : c.value? with
    | none => exact Cell.sparedBy_of_formed .null
    | some v => exact hc v h
  unfold resultOf
  split
  · exact .pure hm hv
  · exact .pure hm (Cell.sparedBy_of_formed .null)
  · exact .ite (fun _ => .fail) fun _ => .pure hm hv

/-- A loop that has a scope of its own for its cursor. -/
theorem spares_moveCursor {scope : ScopeId} {cursor : String} (step : Int64)
    (hne : scope ≠ cell.owner) (hfind : m.store.find? scope cursor ≠ none) :
    Spares cell b (moveCursor scope cursor step) m fun _ _ => True := by
  refine .bind (spares_resolve hm scope cursor) fun found n hn hext _ => ?_
  split
  next k _ _ _ =>
    have hassign : Spares cell b (Machine.assign scope cursor (.int (k + step))) n
        fun _ _ => True := by
      rintro _ _ ⟨⟩
      exact ⟨hn.assign_own (Cell.sparedBy_of_formed (.int _)) hne (hext.find?_ne_none hfind),
        .assign _ scope cursor _, trivial⟩
    exact .bind hassign fun _ _ ho _ _ => .pure ho trivial
  next => exact .pure hn trivial

end Operations

end Eval

end TagScript
