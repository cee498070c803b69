import TagScript.Proofs.Eval.Unseen

/-!
# Pure Expressions

An expression without calls and assignments is pure. What its names stand for settles how it ends
(`Settles`): with a value, or with an objection of an operator or of a name at some position. The
machine is left as it was, and nothing else that a machine has in store plays a part
(`exists_settles_expr`).

So two machines give a pure expression the same end wherever its names stand for the same values,
except that an error names the script that runs and quotes its line (`pure_reads_names_only`).
-/

namespace TagScript

mutual

/-- Whether an expression has neither a call nor an assignment in it. -/
def Expr.isPure : Expr → Bool
  | .int .. | .float .. | .string .. | .bool .. | .null _ | .name .. => true
  | .array _ items => arePure items
  | .assign .. | .call .. => false
  | .binary _ left _ right => left.isPure && right.isPure
  | .unary _ _ right => right.isPure
  | .step _ left _ => left.isPure

/-- Whether none of some expressions has a call or an assignment in it. -/
def Expr.arePure : List Expr → Bool
  | [] => true
  | e :: rest => e.isPure && arePure rest

end

mutual

/-- The names in an expression. -/
def Expr.names : Expr → List String
  | .int .. | .float .. | .string .. | .bool .. | .null _ => []
  | .name _ x => [x]
  | .array _ items => namesAll items
  | .assign _ x value => x :: value.names
  | .call _ callee args => callee.names ++ namesAll args
  | .binary _ left _ right => left.names ++ right.names
  | .unary _ _ right => right.names
  | .step _ left _ => left.names

/-- The names in some expressions. -/
def Expr.namesAll : List Expr → List String
  | [] => []
  | e :: rest => e.names ++ namesAll rest

end

/-- The value that a name stands for in a scope, if it resolves to a binding there. -/
def Store.value? (s : Store) (scope : ScopeId) (name : String) : Option Value :=
  (s.resolve? scope name).map Binding.value

/-- The stop as a run of another script would have it: an error names that script and quotes its
line. -/
def Stop.inScript (ctx : Context) : Stop → Stop
  | .error e => .error { e with file := ctx.file, line := ctx.lineAt e.position }
  | s => s

namespace Eval

/-- Why a pure expression has no value, and where this shows. -/
structure Objection where
  /-- Where. -/
  position : Position
  /-- Why. -/
  refusal : Refusal

/-- The end that a value or an objection means. -/
def conclude {α : Type} (ctx : Context) : Except Objection α → Eval α
  | .ok a => pure a
  | .error o => ctx.accept o.position (.error o.refusal)

/-- What an operator at a position computes. -/
def judge {α : Type} (p : Position) : Except Refusal α → Except Objection α
  | .ok a => .ok a
  | .error r => .error ⟨p, r⟩

/-- Where names stand for the values that `look` gives them, the computation concludes with `r` and
leaves the machine as it was. -/
structure Settles {α : Type} (names : List String) (look : String → Option Value)
    (x : Context → Invoke → ScopeId → Eval α) (r : Except Objection α) : Prop where
  /-- The only fault is a division by zero. -/
  fault : ∀ p f, r = .error ⟨p, .fault f⟩ → f = .divisionByZero
  /-- The end. -/
  result : ∀ ctx invoke scope (m : Machine), (∀ y ∈ names, m.store.value? scope y = look y) →
    x ctx invoke scope m = conclude ctx r m

section Settles

variable {α β : Type} {names more : List String} {look : String → Option Value}
  {x : Context → Invoke → ScopeId → Eval α}

/-- More names may be looked at. -/
theorem Settles.mono {r : Except Objection α} (h : Settles names look x r) (hsub : names ⊆ more) :
    Settles more look x r :=
  ⟨h.fault, fun ctx invoke scope m hm => h.result ctx invoke scope m fun y hy => hm y (hsub hy)⟩

theorem settles_pure (a : α) : Settles names look (fun _ _ _ => pure a) (.ok a) :=
  ⟨nofun, fun _ _ _ _ _ => rfl⟩

/-- A computation, and another one that goes on from its value. -/
theorem Settles.bind {f : α → Context → Invoke → ScopeId → Eval β} {r : Except Objection α}
    {g : α → Except Objection β} (hx : Settles names look x r)
    (hf : ∀ a, Settles names look (f a) (g a)) :
    Settles names look
      (fun ctx invoke scope => x ctx invoke scope >>= fun a => f a ctx invoke scope)
      (r >>= g) := by
  cases r with
  | ok a =>
    refine ⟨(hf a).fault, fun ctx invoke scope m hm => ?_⟩
    rw [bind_apply, hx.result ctx invoke scope m hm]
    exact (hf a).result ctx invoke scope m hm
  | error o =>
    obtain ⟨p, refusal⟩ := o
    refine ⟨fun q f h => hx.fault q f (congrArg Except.error (Except.error.inj h)), ?_⟩
    intro ctx invoke scope m hm
    rw [bind_apply, hx.result ctx invoke scope m hm]
    cases refusal <;> rfl

/-- An operator looks at its operands only. -/
theorem settles_accept (p : Position) {r : Except Refusal α}
    (hr : ∀ f, r = .error (.fault f) → f = .divisionByZero) :
    Settles names look (fun ctx _ _ => ctx.accept p r) (judge p r) := by
  refine ⟨fun q f h => hr f ?_, fun ctx _ _ m _ => ?_⟩
  · cases r with
    | ok a => cases h
    | error refusal =>
      cases h
      rfl
  · cases r <;> rfl

theorem settles_fail (p : Position) (cause : Cause) :
    Settles names look (fun ctx _ _ => (ctx.fail p cause : Eval α)) (.error ⟨p, .cause cause⟩) :=
  ⟨nofun, fun _ _ _ _ _ => rfl⟩

/-- Whether an item has the tag that is wanted depends on the item only. -/
theorem settles_checkItem (p : Position) (want : Tag) (v : Value) :
    Settles names look (fun ctx _ _ => checkItem ctx p want v)
      (if v.tag ≠ want then .error ⟨p, .cause (.itemMismatch want v.tag)⟩ else .ok ()) := by
  unfold checkItem
  by_cases h : v.tag ≠ want
  · simp only [if_pos h]
    exact settles_fail p _
  · simp only [if_neg h]
    exact settles_pure ()

/-- A name is looked up, and nothing else is. -/
theorem settles_name (look : String → Option Value) (p : Position) (y : String) :
    Settles [y] look (fun ctx invoke scope => expr ctx invoke scope (.name p y))
      (match look y with
        | some v => .ok v
        | none => .error ⟨p, .cause (.undeclared y)⟩) := by
  constructor
  · intro q f hf
    cases hy : look y with
    | some v =>
      rw [hy] at hf
      cases hf
    | none =>
      rw [hy] at hf
      cases hf
  · intro ctx invoke scope m hm
    rw [← hm y (List.mem_singleton_self y), Store.value?, expr, bind_apply, bindingOf_apply]
    cases m.store.resolve? scope y with
    | some b => rfl
    | none => rfl

end Settles

mutual

/-- What its names stand for settles how a pure expression ends. -/
theorem exists_settles_expr (look : String → Option Value) {e : Expr} (he : e.isPure = true) :
    ∃ r, Settles e.names look (fun ctx invoke scope => expr ctx invoke scope e) r := by
  cases e with
  | array p es =>
    obtain ⟨r, hr⟩ := exists_settles_items look none he
    simp only [expr]
    exact ⟨_, hr.bind fun found => settles_pure (Value.array found.1 found.2)⟩
  | name p y => exact ⟨_, settles_name look p y⟩
  | assign p y e => cases he
  | call p callee es => cases he
  | binary p l op r =>
    obtain ⟨hl, hr⟩ := (Bool.and_eq_true _ _).mp he
    obtain ⟨rl, hrl⟩ := exists_settles_expr look hl
    obtain ⟨rr, hrr⟩ := exists_settles_expr look hr
    have hleft := hrl.mono (List.subset_append_left l.names r.names)
    have hright := hrr.mono (List.subset_append_right l.names r.names)
    simp only [expr]
    exact ⟨_, hleft.bind fun v => hright.bind fun w => settles_accept p fun _ => fault_binary⟩
  | unary p op r =>
    have hr : r.isPure = true := he
    obtain ⟨rr, hrr⟩ := exists_settles_expr look hr
    simp only [expr]
    exact ⟨_, hrr.bind fun v => settles_accept p fun _ h => absurd h fault_unary⟩
  | step p l op =>
    have hl : l.isPure = true := he
    obtain ⟨rl, hrl⟩ := exists_settles_expr look hl
    simp only [expr]
    exact ⟨_, hrl.bind fun v => settles_accept p fun _ h => absurd h fault_step⟩
  | _ =>
    simp only [expr]
    exact ⟨_, settles_pure _⟩

/-- What their names stand for settles how the items of an array end. -/
theorem exists_settles_items (look : String → Option Value) (expected : Option Tag)
    {es : List Expr} (hes : Expr.arePure es = true) :
    ∃ r, Settles (Expr.namesAll es) look
      (fun ctx invoke scope => items ctx invoke scope expected es) r := by
  cases es with
  | nil =>
    simp only [items]
    exact ⟨_, settles_pure _⟩
  | cons e rest =>
    obtain ⟨he, hrest⟩ := (Bool.and_eq_true _ _).mp hes
    obtain ⟨r, hr⟩ := exists_settles_expr look he
    -- the items behind the first one are checked against a tag that the first one may decide
    choose more hmore using fun want => exists_settles_items look want hrest
    have hfirst := hr.mono (List.subset_append_left e.names (Expr.namesAll rest))
    have hothers := fun want =>
      (hmore want).mono (List.subset_append_right e.names (Expr.namesAll rest))
    simp only [items]
    exact ⟨_, hfirst.bind fun v => (settles_checkItem e.position (expected.getD v.tag) v).bind
      fun _ => (hothers _).bind fun found => settles_pure (found.1, v :: found.2)⟩

end

/-- A conclusion is the same in every context and on every machine, but for the script. -/
theorem conclude_eq_mapEnd {α : Type} (ctx ctx' : Context) (r : Except Objection α)
    (m m' : Machine) :
    conclude ctx' r m' = mapEnd id (Stop.inScript ctx') (fun _ => m') (conclude ctx r m) := by
  cases r with
  | ok a => rfl
  | error o =>
    obtain ⟨p, refusal⟩ := o
    cases refusal <;> rfl

/-- A pure expression changes nothing, whether it ends with a value, with an error or with a
division by zero. It reads its names only: on any other machine and in any other scope, where the
names stand for the same values or for none as well, it ends in the same way, except that an error
is one of the script that runs there. -/
theorem pure_reads_names_only {e : Expr} (he : e.isPure = true) (ctx : Context) (invoke : Invoke)
    (scope : ScopeId) (m : Machine) :
    ((∃ v, expr ctx invoke scope e m = .ok v m) ∨
      (∃ err, expr ctx invoke scope e m = .error (.error err) m) ∨
      expr ctx invoke scope e m = .error (.fault .divisionByZero) m) ∧
    ∀ ctx' invoke' scope' (m' : Machine),
      (∀ x ∈ e.names, m'.store.value? scope' x = m.store.value? scope x) →
        expr ctx' invoke' scope' e m' =
          mapEnd id (Stop.inScript ctx') (fun _ => m') (expr ctx invoke scope e m) := by
  obtain ⟨r, hr⟩ := exists_settles_expr (m.store.value? scope) he
  have hm : expr ctx invoke scope e m = conclude ctx r m :=
    hr.result ctx invoke scope m fun _ _ => rfl
  constructor
  · rw [hm]
    match r, hr.fault with
    | .ok v, _ => exact .inl ⟨v, rfl⟩
    | .error ⟨p, .cause c⟩, _ => exact .inr (.inl ⟨_, rfl⟩)
    | .error ⟨p, .fault f⟩, hfault =>
      obtain rfl := hfault p f rfl
      exact .inr (.inr rfl)
  · intro ctx' invoke' scope' m' hnames
    rw [hm, hr.result ctx' invoke' scope' m' hnames]
    exact conclude_eq_mapEnd ctx ctx' r m m'

/-- A step from a name is pure: the name stays bound as it is. -/
example (p q : Position) (x : String) (op : StepOp) : (Expr.step p (.name q x) op).isPure = true :=
  rfl

/-- A step is taken from a variable and, in another script, from a constant of the same value in an
inner scope. Both times a text is added to the number, which is the error. -/
theorem pure_reads_names_only_step :
    let e : Expr := .binary ⟨1, 5⟩ (.step ⟨1, 2⟩ (.name ⟨1, 1⟩ "x") .increment) .add
      (.string ⟨1, 7⟩ "a")
    let line := Bytes.ofString "x++ + \"a\""
    let ctx (file : String) : Context := ⟨0, 2, file, [line], false, false⟩
    let err (file : String) : RuntimeError :=
      ⟨.operandMismatch .add .int .string, file, ⟨1, 5⟩, line, []⟩
    let outermost : Store := (Store.empty.push (.empty .global none)).2
    let m : Machine := ⟨(outermost.define 0 ⟨"x", .int 6, .int, true⟩).2, [], #[], .ofSeed 0⟩
    let m' : Machine :=
      ⟨((outermost.openScope .branch 0).2.define 1 ⟨"x", .int 6, .int, false⟩).2, ["f"], #[],
        .ofSeed 1⟩
    e.isPure = true ∧ (∀ x ∈ e.names, m'.store.value? 1 x = m.store.value? 0 x) ∧
      expr (ctx "second") (call (ctx "second") 1) 1 e m' = .error (.error (err "second")) m' := by
  intro e line ctx err outermost m m'
  have he : e.isPure = true := rfl
  have hnames : ∀ x ∈ e.names, m'.store.value? 1 x = m.store.value? 0 x := by
    intro x hx
    obtain rfl : x = "x" := List.mem_singleton.mp hx
    with_unfolding_all rfl
  -- whatever the random numbers
  have hfirst (g : Random.Generator) :
      expr (ctx "first") (call (ctx "first") 2) 0 e { m with random := g } =
        .error (.error (err "first")) { m with random := g } := by
    dsimp only [e, ctx, err, m, outermost]
    with_unfolding_all rfl
  obtain ⟨-, hsame⟩ := pure_reads_names_only he (ctx "first") (call (ctx "first") 2) 0 m
  refine ⟨he, hnames, ?_⟩
  rw [hsame (ctx "second") _ 1 m' hnames, hfirst]
  rfl

end Eval

end TagScript
