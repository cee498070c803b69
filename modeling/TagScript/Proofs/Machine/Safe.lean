import TagScript.Proofs.Machine.Changes
import TagScript.Proofs.Store.Formed

/-!
# Operations Keep the Scopes Well Formed

`Eval.Safe x m Q` says that the computation `x`, done on the machine `m`, ends with well-formed
scopes however it ends, that no scope is lost, and that its result satisfies `Q`. It is proved for
each of the operations that the evaluator is made of, from what each one is given.
-/

namespace TagScript

/-- An argument of a call that is well formed among `n` stored scopes: its tracked tag is that of
its value. -/
def Arg.Formed (n : Nat) (a : Arg) : Prop :=
  a.tag = a.value.tag ∧ a.value.Formed n

/-- An argument stays well formed when scopes are opened. -/
theorem Arg.Formed.mono {n k : Nat} {a : Arg} (h : a.Formed n) (hk : n ≤ k) : a.Formed k :=
  ⟨h.1, h.2.mono hk⟩

section Operators

variable {n : Nat} {u : Value}

/-- What an operator makes of whole numbers mentions no scope. -/
theorem BinaryOp.formed_onInts {op : BinaryOp} {a b : Int64} (h : op.onInts a b = .ok u) :
    u.Formed n := by
  -- only a quotient and a remainder can be refused; everything else is a value at once
  cases op with
  | div =>
    rw [onInts] at h
    split at h <;> cases h
    exact .int _
  | rem =>
    rw [onInts] at h
    split at h <;> cases h
    exact .int _
  | _ => cases h <;> constructor

/-- What an operator makes of doubles mentions no scope. -/
theorem BinaryOp.formed_onFloats {op : BinaryOp} {x y : Float} (h : op.onFloats x y = .ok u) :
    u.Formed n := by
  unfold onFloats at h
  split at h <;> cases h <;> constructor

/-- What an operator makes of texts mentions no scope. -/
theorem BinaryOp.formed_onStrings {op : BinaryOp} {s t : String} (h : op.onStrings s t = .ok u) :
    u.Formed n := by
  unfold onStrings at h
  split at h <;> cases h <;> constructor

/-- What an operator between values computes is well formed. -/
theorem BinaryOp.formed_apply {op : BinaryOp} {v w : Value} (h : op.apply v w = .ok u) :
    u.Formed n := by
  unfold apply at h
  split at h
  · exact formed_onInts h
  · exact formed_onFloats h
  · exact formed_onStrings h
  · unfold onBools at h
    split at h
    · exact formed_onInts h
    · cases h
  · split at h <;> cases h

/-- What an operator in front of a value computes is well formed. -/
theorem UnaryOp.formed_apply {op : UnaryOp} {v : Value} (h : op.apply v = .ok u) :
    u.Formed n := by
  unfold apply at h
  split at h <;> cases h <;> constructor

/-- What an operator behind a value computes is well formed. -/
theorem StepOp.formed_apply {op : StepOp} {v : Value} (h : op.apply v = .ok u) : u.Formed n := by
  unfold apply at h
  split at h <;> cases h
  exact .int _

end Operators

namespace Builtin

variable {n : Nat} {args : List Arg} {v : Value}

/-- A drawn number mentions no scope. -/
theorem formed_drawAnswer {σ : Type} {src : Random.Source σ} {lo hi : Int64} {s : σ}
    (h : (drawAnswer src lo hi s).1 = .value v) : v.Formed n := by
  unfold drawAnswer at h
  split at h <;> cases h
  exact .int _

/-- Whatever its arguments, `random` answers a number. -/
theorem formed_randomAnswer {σ : Type} {src : Random.Source σ} {s : σ}
    (h : (randomAnswer src args s).1 = .ok (.value v)) : v.Formed n := by
  unfold randomAnswer at h
  split at h
  · cases h
    exact .float _
  · split at h
    · cases h
    · exact formed_drawAnswer (Except.ok.inj h)
  · cases h
  · split at h
    · cases h
    · split at h
      · cases h
      · exact formed_drawAnswer (Except.ok.inj h)
  · cases h
  · cases h

/-- Whatever its arguments, `range` answers a range. -/
theorem formed_rangeAnswer (h : rangeAnswer args = .ok (.value v)) : v.Formed n := by
  unfold rangeAnswer at h
  split at h
  · cases h
  · obtain ⟨c, -, hc⟩ | ⟨bs, -, h⟩ := bind_cases h
    · cases hc
    · split at h <;> cases h <;> exact .range _

/-- A value that a built-in function answers to well-formed arguments is well formed. The type that
`typeof` answers is that of a value, since the tracked tag of an argument is the tag of its value.
-/
theorem formed_answer {b : Builtin} {g : Random.Generator} (ha : ∀ a ∈ args, a.Formed n)
    (h : (b.answer args g).1 = .ok (.value v)) : v.Formed n := by
  cases b with
  | print => cases h
  | exit =>
    simp only [answer, exitAnswer] at h
    split at h <;> cases h
  | len =>
    simp only [answer, lenAnswer] at h
    split at h <;> cases h
    exact .int _
  | random => exact formed_randomAnswer h
  | typeof =>
    simp only [answer, typeofAnswer] at h
    split at h <;> cases h
    next w tag =>
      -- what is answered is the tracked tag, so it has to be the tag of some value
      obtain ⟨htag, -⟩ := ha ⟨w, tag⟩ (by simp)
      obtain rfl : tag = w.tag := htag
      exact .type _ w.tag_ne_void_unknown.1 w.tag_ne_void_unknown.2
  | range => exact formed_rangeAnswer h

end Builtin

/-- The number of stored scopes. -/
def Machine.size (m : Machine) : Nat :=
  m.store.scopes.size

namespace Eval

variable {α β : Type}

/-- From `m`, the computation `x` ends with well-formed scopes, at least as many as before, and its
result satisfies `Q` among them. -/
def Safe (x : Eval α) (m : Machine) (Q : α → Nat → Prop) : Prop :=
  match x m with
  | .ok a n => n.store.Formed ∧ m.size ≤ n.size ∧ Q a n.size
  | .error _ n => n.store.Formed ∧ m.size ≤ n.size

namespace Safe

variable {x : Eval α} {f : α → Eval β} {m : Machine} {Q : α → Nat → Prop} {R : β → Nat → Prop}

/-- A result that satisfies `Q` as it is. -/
theorem pure {a : α} (hm : m.store.Formed) (h : Q a m.size) : Safe (Pure.pure a) m Q :=
  ⟨hm, Nat.le_refl _, h⟩

/-- A stop leaves the scopes as they are. -/
theorem throw {s : Stop} (hm : m.store.Formed) : Safe (MonadExcept.throw s) m Q :=
  ⟨hm, Nat.le_refl _⟩

/-- An error of the program leaves the scopes as they are. -/
theorem fail {ctx : Context} {p : Position} {c : Cause} (hm : m.store.Formed) :
    Safe (ctx.fail p c) m Q :=
  ⟨hm, Nat.le_refl _⟩

/-- What comes after `x` may rely on what `x` has left behind: well-formed scopes, none fewer, and a
result that satisfies `Q`. -/
theorem bind (hx : Safe x m Q)
    (hf : ∀ a n, n.store.Formed → m.size ≤ n.size → Q a n.size → Safe (f a) n R) :
    Safe (x >>= f) m R := by
  unfold Safe at hx ⊢
  rw [bind_apply]
  cases hr : x m with
  | error s n =>
    rw [hr] at hx
    exact hx
  | ok a n =>
    rw [hr] at hx
    obtain ⟨hn, hle, hq⟩ := hx
    -- the second computation starts among the scopes that the first one leaves
    have hsafe := hf a n hn hle hq
    unfold Safe at hsafe
    dsimp only
    cases hr' : f a n with
    | ok b o =>
      rw [hr'] at hsafe
      exact ⟨hsafe.1, Nat.le_trans hle hsafe.2.1, hsafe.2.2⟩
    | error s o =>
      rw [hr'] at hsafe
      exact ⟨hsafe.1, Nat.le_trans hle hsafe.2⟩

/-- Reading the machine first. -/
theorem get_bind {f : Machine → Eval β} (h : Safe (f m) m R) : Safe (MonadState.get >>= f) m R :=
  h

/-- Nothing is done after a failure. -/
theorem fail_bind {ctx : Context} {p : Position} {c : Cause} (hm : m.store.Formed) :
    Safe (ctx.fail p c >>= f) m R :=
  ⟨hm, Nat.le_refl _⟩

/-- Each branch may rely on its condition. -/
theorem ite {c : Prop} [Decidable c] {x y : Eval α} (hx : c → Safe x m Q)
    (hy : ¬c → Safe y m Q) : Safe (if c then x else y) m Q := by
  split
  next hc => exact hx hc
  next hc => exact hy hc

/-- A check: it fails, or nothing happens and the condition does not hold. -/
theorem check {c : Prop} [Decidable c] {ctx : Context} {p : Position} {cause : Cause}
    (hm : m.store.Formed) :
    Safe (if c then ctx.fail p cause else Pure.pure PUnit.unit) m fun _ _ => ¬c :=
  .ite (fun _ => .fail hm) fun hc => .pure hm hc

end Safe

variable (ctx : Context) {m : Machine} (hm : m.store.Formed) (scope : ScopeId) (p : Position)
include hm

theorem safe_notice (e : Event) : Safe (Machine.notice e) m fun _ _ => True :=
  ⟨hm, Nat.le_refl _, trivial⟩

theorem safe_note (step : Machine → Note) : Safe (Machine.note ctx step) m fun _ _ => True :=
  .ite (fun _ => .get_bind (safe_notice hm _)) fun _ => .pure hm trivial

/-- A new scope has a number of its own, which is a scope from then on. -/
theorem safe_openScope (kind : ScopeKind) {parent : ScopeId} (hp : parent < m.size) :
    Safe (Machine.openScope kind parent) m fun id n => id < n := by
  refine ⟨hm.openScope kind hp, ?_, ?_⟩
  · change m.store.scopes.size ≤ (m.store.openScope kind parent).2.scopes.size
    simp
  · change m.store.scopes.size < (m.store.openScope kind parent).2.scopes.size
    simp

/-- A binding may be added if its tag is that of its value and the value mentions stored scopes
only. -/
theorem safe_define {b : Binding} (ht : b.tag = b.value.tag) (hv : b.value.Formed m.size) :
    Safe (Machine.define scope b) m fun _ _ => True :=
  ⟨hm.define scope ht hv, Nat.le_of_eq (Store.size_define m.store scope b).symm, trivial⟩

/-- A value may be assigned if it mentions stored scopes only; its tag is compared with that of the
binding. -/
theorem safe_assign (name : String) {v : Value} (hv : v.Formed m.size) :
    Safe (Machine.assign scope name v) m fun _ _ => True :=
  ⟨hm.assign scope name hv, Nat.le_of_eq (Store.size_assign m.store scope name v).symm, trivial⟩

/-- A name resolves to a binding that has the tag of its well-formed value. -/
theorem safe_resolve (name : String) :
    Safe (Machine.resolve? scope name) m fun found n =>
      ∀ b, found = some b → b.tag = b.value.tag ∧ b.value.Formed n := by
  refine .get_bind (.pure hm fun b hb => ?_)
  -- whichever scope the name is found in, its bindings are well formed
  obtain ⟨owner, holder, hholder, hfind⟩ := Store.resolve?_mem hb
  exact hm.binding owner holder b hholder (Scope.mem_of_find? hfind).1

/-- What a name resolves to has the tag of its value, and the value is well formed. -/
theorem safe_bindingOf (name : String) :
    Safe (bindingOf ctx scope p name) m fun b n => b.tag = b.value.tag ∧ b.value.Formed n := by
  refine .bind (safe_resolve hm scope name) fun found n hn _ hfound => ?_
  cases found with
  | some b => exact .pure hn (hfound b rfl)
  | none => exact .fail hn

theorem safe_requireDeclared (name : String) :
    Safe (requireDeclared ctx scope p name) m fun _ _ => True :=
  .get_bind (.ite (fun _ => .fail hm) fun _ => .pure hm trivial)

/-- An assignment keeps the scopes well formed, be it accepted or refused. -/
theorem safe_assignValue (name : String) (valueAt : Position) {v : Value}
    (hv : v.Formed m.size) :
    Safe (assignValue ctx scope p name valueAt v) m fun _ _ => True := by
  refine .bind (safe_assign hm scope name hv) fun outcome n hn _ _ => ?_
  cases outcome with
  | ok => exact .pure hn trivial
  | undeclared => exact .fail hn
  | immutable => exact .fail hn
  | typeMismatch => exact .bind (safe_resolve hn scope name) fun _ _ ho _ _ => .fail ho

/-- A declaration keeps the scopes well formed, be it accepted or refused. -/
theorem safe_declare {b : Binding} (ht : b.tag = b.value.tag) (hv : b.value.Formed m.size) :
    Safe (declare ctx scope p b) m fun _ _ => True :=
  .bind (safe_define hm scope ht hv) fun _ _ hn _ _ =>
    .ite (fun _ => .fail hn) fun _ => .pure hn trivial

/-- A declared value gets its own tag. -/
theorem safe_declareValue (constant : Bool) (name : String) (type : Option TypeName)
    (valueAt : Position) {v : Value} (hv : v.Formed m.size) :
    Safe (declareValue ctx scope p constant name type valueAt v) m fun _ _ => True := by
  unfold declareValue
  split
  · exact .ite (fun _ => .fail_bind hm) fun _ => safe_declare ctx hm scope p rfl hv
  · exact safe_declare ctx hm scope p rfl hv

/-- A declared function mentions the scope in which it is declared, which is a stored one. -/
theorem safe_declareFunction (name : String) (params : List Param) (returns : Option TypeName)
    (body : List Stmt) (hs : scope < m.size) :
    Safe (declareFunction ctx scope p name params returns body) m fun _ _ => True := by
  have hdefine : Safe (do
      let _ ← Machine.define scope ⟨name, .function ⟨name, params, returns, body, scope⟩,
        .function, false⟩
      Pure.pure PUnit.unit) m fun _ _ => True :=
    .bind (safe_define hm scope rfl (.function _ hs)) fun _ _ hn _ _ => .pure hn trivial
  refine .get_bind (.ite (fun _ => .fail_bind hm) fun _ => ?_)
  split
  · exact .fail_bind hm
  · exact hdefine

/-- An item that passes the check has the tag that is wanted. -/
theorem safe_checkItem (want : Tag) (v : Value) :
    Safe (checkItem ctx p want v) m fun _ _ => v.tag = want :=
  .ite (fun _ => .fail hm) fun h => .pure hm (Decidable.not_not.mp h)

theorem safe_checkCallable (v : Value) : Safe (checkCallable ctx p v) m fun _ _ => True :=
  .ite (fun _ => .fail hm) fun _ => .pure hm trivial

theorem safe_loopRange (v : Value) : Safe (loopRange ctx p v) m fun _ _ => True := by
  unfold loopRange
  split
  · exact .ite (fun _ => .fail hm) fun _ => .pure hm trivial
  · exact .fail hm

theorem safe_checkArity (f : Closure) (args : List Arg) :
    Safe (checkArity ctx f args p) m fun _ _ => True :=
  .ite (fun _ => .fail hm) fun _ => .pure hm trivial

/-- Parameters are bound to their arguments under the tags of these. -/
theorem safe_bindParams (function : String) (params : List Param) (args : List Arg)
    (ha : ∀ a ∈ args, a.Formed m.size) :
    Safe (bindParams ctx function scope p params args) m fun _ _ => True := by
  induction params generalizing args m with
  | nil => exact .pure hm trivial
  | cons param params ih =>
    cases args with
    | nil => exact .pure hm trivial
    | cons arg args =>
      have hrest : Safe (do
          declare ctx scope p ⟨param.name, arg.value, arg.value.tag, true⟩
          bindParams ctx function scope p params args) m fun _ _ => True := by
        refine .bind (safe_declare ctx hm scope p rfl (ha arg (by simp)).2) fun _ n hn hle _ => ?_
        -- binding this parameter may have stored scopes, so the other arguments are moved along
        exact ih hn args fun a h => (ha a (by simp [h])).mono hle
      unfold bindParams
      split
      · exact .ite (fun _ => .fail_bind hm) fun _ => hrest
      · exact hrest

/-- A call opens the scope for its parameters inside the one in which the function was declared. -/
theorem safe_openCall (f : Closure) (args : List Arg) (hf : f.scope < m.size)
    (ha : ∀ a ∈ args, a.Formed m.size) :
    Safe (openCall ctx f args p) m fun scope n => scope < n := by
  refine .bind (safe_openScope hm .function hf) fun scope n hn hle hscope => ?_
  refine .bind (safe_bindParams ctx hn scope p f.name f.params args fun a h =>
    (ha a h).mono hle) fun _ o ho hle' _ => ?_
  exact .pure ho (Nat.lt_of_lt_of_le hscope hle')

/-- The result of a function is the value that its body returns, or `null`. -/
theorem safe_resultOf (f : Closure) {c : Completion}
    (hc : ∀ v, c.value? = some v → v.Formed m.size) :
    Safe (resultOf ctx f p c) m fun v n => v.Formed n := by
  -- a body that completes without a value answers `null`
  have hv : (c.value?.getD .null).Formed m.size := by
    cases h : c.value? with
    | none => exact .null
    | some v => exact hc v h
  unfold resultOf
  split
  · exact .pure hm hv
  · exact .pure hm .null
  · exact .ite (fun _ => .fail hm) fun _ => .pure hm hv

/-- An operator that succeeds gives the value that it is said to give. -/
theorem safe_accept {r : Except Refusal Value} (hr : ∀ v, r = .ok v → v.Formed m.size) :
    Safe (ctx.accept p r) m fun v n => v.Formed n := by
  unfold Context.accept
  split
  next v => exact .pure hm (hr v rfl)
  next => exact .fail hm
  next => exact .throw hm

/-- A function that every script finds answers a well-formed value. -/
theorem safe_callBuiltin (b : Builtin) {args : List Arg} (ha : ∀ a ∈ args, a.Formed m.size) :
    Safe (callBuiltin ctx b args p) m fun v n => v.Formed n := by
  refine .bind (safe_note ctx hm _) fun _ n hn hle _ => ?_
  -- drawing random numbers and answering are one update of the machine
  have hanswer : Safe (modifyGet fun m : Machine =>
      ((b.answer args m.random).1, { m with random := (b.answer args m.random).2 })) n
      fun result k => ∀ v, result = .ok (.value v) → v.Formed k :=
    ⟨hn, Nat.le_refl _, fun v hv => Builtin.formed_answer (fun a h => (ha a h).mono hle) hv⟩
  refine .bind hanswer fun result o ho _ hresult => ?_
  split
  next => exact .fail ho
  next v => exact .pure ho (hresult v rfl)
  next => exact .throw ho
  next => exact .bind (safe_notice ho _) fun _ _ hk _ _ => .pure hk .null
  next =>
    refine .bind (safe_notice ho _) fun _ k hk _ _ => .ite (fun _ => ?_) fun _ => .pure hk .null
    exact ⟨hk, Nat.le_refl _⟩

/-- The cursor gets another whole number, so its tag stays. -/
theorem safe_moveCursor (cursor : String) (step : Int64) :
    Safe (moveCursor scope cursor step) m fun _ _ => True := by
  refine .bind (safe_resolve hm scope cursor) fun found n hn _ _ => ?_
  split
  · exact .bind (safe_assign hn scope cursor (.int _)) fun _ _ ho _ _ => .pure ho trivial
  · exact .pure hn trivial

end Eval

end TagScript
