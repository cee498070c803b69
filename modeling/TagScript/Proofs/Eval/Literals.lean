import Mathlib.Data.List.Forall2
import TagScript.Eval.Stmt
import TagScript.Proofs.Machine.Changes

/-!
# Expressions That Write a Value Down

An expression writes a value down (`Yields`) if it evaluates to that value wherever `range` is the
function that every script finds, and does nothing else that is seen without a trace. Literals do
so, and from them negative numbers, arrays and ranges are made.
-/

namespace TagScript.Eval

/-- The name `range` is bound to the function that every script finds. -/
def FindsRange (store : Store) (scope : ScopeId) : Prop :=
  (store.resolve? scope "range").map Binding.value = some (.builtin .range)

/-- The expression evaluates to the value, and the machine is left as it was but for the trace. -/
structure Yields (e : Expr) (v : Value) : Prop where
  /-- It is no name, so the tag of its value is the one that counts in a call. -/
  ne_name : ∀ p x, e ≠ .name p x
  /-- It is no assignment, so it has a value as a statement. -/
  isAssign : e.isAssign = false
  /-- The value. -/
  result : ∀ (ctx : Context) (invoke : Invoke) (scope : ScopeId) (m : Machine),
    FindsRange m.store scope →
      ∃ events, expr ctx invoke scope e m = .ok v { m with events }

/-- A note leaves the machine as it was but for the trace. -/
theorem note_eq (ctx : Context) (step : Machine → Note) (m : Machine) :
    ∃ events, Machine.note ctx step m = .ok () { m with events } := by
  unfold Machine.note
  cases ctx.traced with
  | true => exact ⟨_, rfl⟩
  | false => exact ⟨m.events, rfl⟩

/-- What the function answers to three numbers. -/
theorem callBuiltin_range (ctx : Context) (start stop step : Int64) (p : Position) (m : Machine) :
    ∃ events,
      callBuiltin ctx .range [⟨.int start, .int⟩, ⟨.int stop, .int⟩, ⟨.int step, .int⟩] p m =
      .ok (.range ⟨start, stop, step⟩) { m with events } := by
  obtain ⟨events, hnote⟩ := note_eq ctx (fun m => .builtin Builtin.range.name (Arg.describe
    [⟨.int start, .int⟩, ⟨.int stop, .int⟩, ⟨.int step, .int⟩]) m.caller) m
  exact ⟨events, bind_eq_ok.mpr ⟨(), _, hnote, rfl⟩⟩

namespace Yields

variable {es : List Expr} {vs : List Value}

theorem null (p : Position) : Yields (.null p) .null :=
  ⟨nofun, rfl, fun _ _ _ m _ => ⟨m.events, rfl⟩⟩

theorem bool (p : Position) (b : Bool) : Yields (.bool p b) (.bool b) :=
  ⟨nofun, rfl, fun _ _ _ m _ => ⟨m.events, rfl⟩⟩

theorem int (p : Position) (n : Int64) : Yields (.int p n) (.int n) :=
  ⟨nofun, rfl, fun _ _ _ m _ => ⟨m.events, rfl⟩⟩

theorem string (p : Position) (s : String) : Yields (.string p s) (.string s) :=
  ⟨nofun, rfl, fun _ _ _ m _ => ⟨m.events, rfl⟩⟩

/-- A number behind a minus sign. -/
theorem negative {e : Expr} {n : Int64} (h : Yields e (.int n)) (p : Position) :
    Yields (.unary p .minus e) (.int (-n)) where
  ne_name := nofun
  isAssign := rfl
  result := by
    intro ctx invoke scope m hm
    obtain ⟨events, hresult⟩ := h.result ctx invoke scope m hm
    rw [expr]
    exact ⟨events, bind_eq_ok.mpr ⟨.int n, _, hresult, rfl⟩⟩

/-- Items of one tag are evaluated to their values, and their tag is given with them. -/
theorem items {tag : Tag} (h : List.Forall₂ Yields es vs) (htag : ∀ v ∈ vs, v.tag = tag)
    {expected : Option Tag} (hexpected : ∀ want, expected = some want → want = tag)
    (hempty : expected = none → vs = [] → tag = .unknown) (ctx : Context) (invoke : Invoke)
    (scope : ScopeId) (m : Machine) (hm : FindsRange m.store scope) :
    ∃ events, Eval.items ctx invoke scope expected es m = .ok (tag, vs) { m with events } := by
  induction h generalizing expected m with
  | nil =>
    have hunknown : expected.getD .unknown = tag := by
      cases expected with
      | none => exact (hempty rfl rfl).symm
      | some want => exact hexpected want rfl
    rw [Eval.items, hunknown]
    exact ⟨m.events, rfl⟩
  | @cons e v es vs hitem _ ih =>
    rw [List.forall_mem_cons] at htag
    obtain ⟨events, hresult⟩ := hitem.result ctx invoke scope m hm
    -- the item has the tag that is expected, be it by the item before or by itself
    have hwant : expected.getD v.tag = tag := by
      cases expected with
      | none => exact htag.1
      | some want => exact hexpected want rfl
    have hcheck (n : Machine) : checkItem ctx e.position (expected.getD v.tag) v n = .ok () n := by
      rw [hwant, checkItem, if_neg (not_not.mpr htag.1)]
      rfl
    have hnext : ∀ want, some (expected.getD v.tag) = some want → want = tag := by
      rintro _ ⟨⟩
      exact hwant
    obtain ⟨events', hmore⟩ := ih htag.2 hnext nofun { m with events } hm
    rw [Eval.items]
    exact ⟨events', bind_eq_ok.mpr ⟨v, _, hresult, bind_eq_ok.mpr ⟨(), _, hcheck _,
      bind_eq_ok.mpr ⟨(tag, vs), _, hmore, rfl⟩⟩⟩⟩

/-- An array of items of one tag, which it keeps. -/
theorem array {elem : Tag} (h : List.Forall₂ Yields es vs) (htag : ∀ v ∈ vs, v.tag = elem)
    (hempty : vs = [] → elem = .unknown) (p : Position) :
    Yields (.array p es) (.array elem vs) where
  ne_name := nofun
  isAssign := rfl
  result := by
    intro ctx invoke scope m hm
    have hnone : ∀ want, none = some want → want = elem := nofun
    obtain ⟨events, hitems⟩ := items h htag hnone (fun _ => hempty) ctx invoke scope m hm
    rw [expr]
    exact ⟨events, bind_eq_ok.mpr ⟨(elem, vs), _, hitems, rfl⟩⟩

/-- Arguments are evaluated to their values, with the tags of these. -/
theorem args (h : List.Forall₂ Yields es vs) (ctx : Context) (invoke : Invoke) (scope : ScopeId)
    (m : Machine) (hm : FindsRange m.store scope) :
    ∃ events, Eval.args ctx invoke scope es m =
      .ok (vs.map fun v => ⟨v, v.tag⟩) { m with events } := by
  induction h generalizing m with
  | nil => exact ⟨m.events, by rw [Eval.args]; rfl⟩
  | @cons e v es vs harg _ ih =>
    obtain ⟨events, hresult⟩ := harg.result ctx invoke scope m hm
    obtain ⟨events', hmore⟩ := ih { m with events } hm
    rw [Eval.args]
    · exact ⟨events', bind_eq_ok.mpr ⟨v, _, hresult, bind_eq_ok.mpr ⟨_, _, hmore, rfl⟩⟩⟩
    · exact fun p x he => harg.ne_name p x he

/-- A call of `range` with three numbers. -/
theorem range {start stop step : Int64}
    (h : List.Forall₂ Yields es [.int start, .int stop, .int step]) (p q : Position) :
    Yields (.call p (.name q "range") es) (.range ⟨start, stop, step⟩) where
  ne_name := nofun
  isAssign := rfl
  result := by
    intro ctx invoke scope m hm
    -- the callee is looked up first, while `range` still is what it was
    obtain ⟨b, hb, hvalue⟩ := Option.map_eq_some_iff.mp hm
    have hcallee : expr ctx invoke scope (.name q "range") m = .ok (.builtin .range) m := by
      rw [expr, bind_apply, bindingOf_apply, hb, ← hvalue]
      rfl
    obtain ⟨events, hargs⟩ := args h ctx invoke scope m hm
    obtain ⟨events', hcall⟩ := callBuiltin_range ctx start stop step p { m with events }
    rw [expr]
    exact ⟨events', bind_eq_ok.mpr ⟨.builtin .range, m, hcallee, bind_eq_ok.mpr ⟨(), m, rfl,
      bind_eq_ok.mpr ⟨_, _, hargs, hcall⟩⟩⟩⟩

end Yields

end TagScript.Eval
