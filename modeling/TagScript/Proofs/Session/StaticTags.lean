import TagScript.Proofs.Eval.Literals
import TagScript.Proofs.Session.Depth
import TagScript.Proofs.Session.Typing

/-!
# Tags Before and After Evaluation

The tag of an expression can be told in three ways: from its form without evaluating it
(`Eval.staticTag`), from the binding of a name, and from the value. They agree at every moment of
every session (`static_tags_agree`), because there each binding has the tag of its value.

What `typeof` answers is the tag tracked for its argument: that of the binding for a name, and that
of the value for anything else. So it answers the tag of the value in both cases.
-/

namespace TagScript

/-- The binding that a name resolves to has the tag of its value. -/
theorem Store.Formed.tag_of_resolve? {s : Store} (hs : s.Formed) {scope : ScopeId} {x : String}
    {b : Binding} (h : s.resolve? scope x = some b) : b.tag = b.value.tag := by
  obtain ⟨owner, holder, hholder, hfind⟩ := Store.resolve?_mem h
  exact (hs.binding owner holder b hholder (Scope.mem_of_find? hfind).1).1

namespace Eval

variable {ctx : Context} {invoke : Invoke} {scope : ScopeId} {m n : Machine} {x : String}
  {p q : Position} {e : Expr} {v w : Value}

/-- A name has the value of the binding that it resolves to. -/
theorem expr_name_apply : expr ctx invoke scope (.name p x) m =
    match m.store.resolve? scope x with
    | some b => .ok b.value m
    | none => .error (.error (ctx.errorAt p (.undeclared x))) m := by
  rw [expr, bind_apply, bindingOf_apply]
  cases m.store.resolve? scope x <;> rfl

/-- The form of an expression tells no tag for one reason only: it is a name that is not
declared. -/
theorem staticTag_eq_error_iff {s : Store} {cause : Cause} :
    staticTag s scope e = .error cause ↔
      ∃ p x, e = .name p x ∧ s.resolve? scope x = none ∧ cause = .undeclared x := by
  constructor
  · intro h
    cases e with
    | name p x =>
      rw [staticTag] at h
      cases hx : s.resolve? scope x with
      | some b =>
        rw [hx] at h
        cases h
      | none =>
        rw [hx] at h
        cases h
        exact ⟨p, x, rfl, hx, rfl⟩
    | _ => cases h
  · rintro ⟨p, x, rfl, hx, rfl⟩
    rw [staticTag, hx]

/-- A tag that the form tells is that of the value. -/
theorem tag_of_staticTag (hm : m.store.Formed) {t : Tag}
    (ht : staticTag m.store scope e = .ok t) (hknown : t ≠ .unknown)
    (h : expr ctx invoke scope e m = .ok v n) : v.tag = t := by
  cases e with
  | name p x =>
    rw [staticTag] at ht
    cases hx : m.store.resolve? scope x with
    | none =>
      rw [hx] at ht
      cases ht
    | some b =>
      rw [hx] at ht
      rw [expr_name_apply, hx] at h
      cases ht
      cases h
      exact (hm.tag_of_resolve? hx).symm
  | array p es =>
    cases ht
    -- whatever the items are and do, the value is an array
    rw [expr] at h
    obtain ⟨vs, n', -, hdone⟩ := bind_eq_ok.mp h
    cases hdone
    rfl
  | int p k | float p k | string p k | bool p k =>
    cases ht
    cases h
    rfl
  | null p =>
    cases ht
    cases h
    rfl
  | _ =>
    cases ht
    exact absurd rfl hknown

/-- The tag tracked for a single argument is that of its value. -/
theorem args_singleton_ok (hm : m.store.Formed) {as : List Arg}
    (h : args ctx invoke scope [e] m = .ok as n) :
    ∃ v, expr ctx invoke scope e m = .ok v n ∧ as = [⟨v, v.tag⟩] := by
  cases e with
  | name p x =>
    rw [args, bind_apply, bindingOf_apply] at h
    rw [expr_name_apply]
    cases hx : m.store.resolve? scope x with
    | none =>
      rw [hx] at h
      cases h
    | some b =>
      rw [hx] at h
      obtain ⟨rest, n', hrest, hdone⟩ := bind_eq_ok.mp h
      cases hrest
      cases hdone
      -- the tag tracked for a name is that of its binding
      exact ⟨b.value, rfl, by rw [hm.tag_of_resolve? hx]⟩
  | _ =>
    rw [args] at h
    · obtain ⟨v, n', hexpr, hrest⟩ := bind_eq_ok.mp h
      obtain ⟨rest, n'', hnone, hdone⟩ := bind_eq_ok.mp hrest
      cases hnone
      cases hdone
      exact ⟨v, hexpr, rfl⟩
    · rintro p x ⟨⟩

/-- `typeof` answers the tag tracked for its argument. -/
theorem callBuiltin_typeof {a : Arg} (h : callBuiltin ctx .typeof [a] p m = .ok w n) :
    w = .type a.tag := by
  obtain ⟨_, m', -, hcall⟩ := bind_eq_ok.mp h
  cases hcall
  rfl

/-- A call of `typeof` with one argument answers the tag of the value that this argument has. -/
theorem expr_typeof_ok (hm : m.store.Formed) {b : Binding}
    (hb : m.store.resolve? scope x = some b) (htypeof : b.value = .builtin .typeof)
    (h : expr ctx invoke scope (.call p (.name q x) [e]) m = .ok w n) :
    ∃ v n', expr ctx invoke scope e m = .ok v n' ∧ w = .type v.tag := by
  have hcallee : expr ctx invoke scope (.name q x) m = .ok (.builtin .typeof) m := by
    rw [expr_name_apply, hb, ← htypeof]
  -- the function is looked up before the argument is evaluated
  rw [expr] at h
  obtain ⟨f, m', hf, hrest⟩ := bind_eq_ok.mp h
  rw [hcallee] at hf
  cases hf
  obtain ⟨_, m'', hcheck, hcall⟩ := bind_eq_ok.mp hrest
  cases hcheck
  obtain ⟨as, n', hargs, hanswer⟩ := bind_eq_ok.mp hcall
  obtain ⟨v, hv, rfl⟩ := args_singleton_ok hm hargs
  exact ⟨v, n', hv, callBuiltin_typeof hanswer⟩

end Eval

namespace Session

open Steps (State)

/-- Tags told before and after evaluation agree, at every moment of every session. The form of an
expression tells no tag exactly where it is a name and evaluating it fails with an error about the
name. A tag that is told and known is the tag of the value, if there is one. What `typeof` answers
is the tag of the value of its argument. -/
theorem static_tags_agree {s : Session} {p : Program} {c : State} (hs : s.Reachable)
    (hc : s.Moment p c) (scope : ScopeId) (e : Expr) :
    let m := c.machine
    let told := Eval.staticTag m.store scope e
    let evaluate := Eval.expr s.context (Eval.call s.context (m.spare s.context)) scope
    ((∃ cause, told = .error cause ∧ cause.kind = .name) ↔
      (∃ q x, e = .name q x) ∧ ∃ err n, evaluate e m = .error (.error err) n ∧
        err.cause.kind = .name) ∧
    (∀ cause, told = .error cause → cause.kind = .name) ∧
    (∀ t v n, told = .ok t → t ≠ .unknown → evaluate e m = .ok v n → v.tag = t) ∧
    ∀ q r x b w n, m.store.resolve? scope x = some b → b.value = .builtin .typeof →
      evaluate (.call q (.name r x) [e]) m = .ok w n →
        ∃ v n', evaluate e m = .ok v n' ∧ w = .type v.tag := by
  intro m told evaluate
  have hm : m.store.Formed := (moment_formed hs hc).store
  refine ⟨⟨?_, ?_⟩, ?_, ?_, ?_⟩
  · rintro ⟨cause, htold, -⟩
    obtain ⟨q, x, rfl, hx, -⟩ := Eval.staticTag_eq_error_iff.mp htold
    have hfails : evaluate (.name q x) m =
        .error (.error (s.context.errorAt q (.undeclared x))) m := by
      show Eval.expr _ _ _ _ _ = _
      rw [Eval.expr_name_apply, hx]
    exact ⟨⟨q, x, rfl⟩, _, m, hfails, rfl⟩
  · rintro ⟨⟨q, x, rfl⟩, err, n, hfails, -⟩
    -- the name itself failed, so nothing binds it, and the static tag fails for the same reason
    change Eval.expr _ _ _ _ _ = _ at hfails
    rw [Eval.expr_name_apply] at hfails
    cases hx : m.store.resolve? scope x with
    | some b =>
      rw [hx] at hfails
      cases hfails
    | none => exact ⟨_, Eval.staticTag_eq_error_iff.mpr ⟨q, x, rfl, hx, rfl⟩, rfl⟩
  · intro cause htold
    obtain ⟨q, x, -, -, rfl⟩ := Eval.staticTag_eq_error_iff.mp htold
    rfl
  · intro t v n htold hknown hv
    exact Eval.tag_of_staticTag hm htold hknown hv
  · intro q r x b w n hb htypeof hw
    exact Eval.expr_typeof_ok hm hb htypeof hw

/-- An array whose item is printed while it is computed. -/
theorem static_tags_agree_array :
    let s := new ⟨2, .plain, 0, false, false⟩
    let c := State.start [] s.machine
    let e : Expr := .array .start
      [.call .start (.name .start "print") [.name .start "true"]]
    let evaluate := Eval.expr s.context (Eval.call s.context (c.machine.spare s.context)) 0
    let printed := { c.machine with events := #[.printed "true\n"] }
    s.Reachable ∧ s.Moment [] c ∧
      evaluate (.call .start (.name .start "typeof") [e]) c.machine = .ok (.type .array) printed ∧
      ∃ v n, evaluate e c.machine = .ok v n ∧ v.tag = .array := by
  intro s c e evaluate printed
  have hs : s.Reachable := .new _
  have hc : s.Moment [] c := .refl
  have hb : c.machine.store.resolve? 0 "typeof" =
      some ⟨"typeof", .builtin .typeof, .function, false⟩ := by
    with_unfolding_all rfl
  have hw : evaluate (.call .start (.name .start "typeof") [e]) c.machine =
      .ok (.type .array) printed := by
    dsimp only [evaluate, e, printed]
    with_unfolding_all rfl
  obtain ⟨-, -, -, htypeof⟩ := static_tags_agree hs hc 0 e
  obtain ⟨v, n, hv, htag⟩ := htypeof .start .start "typeof" _ _ _ hb rfl hw
  exact ⟨hs, hc, hw, v, n, hv, (Value.type.inj htag).symm⟩

end Session

end TagScript
