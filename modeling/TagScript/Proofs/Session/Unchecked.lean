import TagScript.Proofs.Session.Bindings
import TagScript.Proofs.Steps.Cursors
import TagScript.Proofs.Store.Listing

/-!
# Results That Nobody Checks

The evaluator drops the results of some operations on the scopes, as these cannot be refused there.
At every moment of every session they are not (`unchecked_results_succeed`):

* a function is bound, once its name has been found to be free;
* a loop binds its cursor, and after each pass it finds its own binding of the cursor, which holds a
  whole number, and moves it on;
* an assignment whose target was declared before its value was computed finds this very binding
  again, whatever happened in between: it sets the value of that binding, or the binding refuses it.

Between a check and the use of what was checked any code may run. No name that it finds is lost or
gets another tag, as scopes only grow, and no name is declared in a scope from before, as what an
expression declares it declares in scopes that are opened for it. So a name is looked up in the same
scope afterwards (`Store.lookup?_of_extends`).
-/

namespace TagScript

namespace Store

variable {s t : Store} {id owner : ScopeId} {x : String} {b : Binding}

/-- Where the scopes have only grown and those from before declare nothing more, a name is looked up
in the same scope, and found there with its tag. -/
theorem lookup?_of_extends (hextends : s.Extends t) (hkeeps : s.Keeps ∅ t)
    (h : s.lookup? id x = some (owner, b)) :
    ∃ c, t.lookup? id x = some (owner, c) ∧ b.Continues c := by
  fun_induction lookup? s id x with
  | case1 id c hfind =>
    cases h
    obtain ⟨c', hfind', hcontinues⟩ := hextends.find? hfind
    exact ⟨c', by rw [lookup?, hfind'], hcontinues⟩
  | case2 id hfind p hlt hparent ih =>
    -- the scope does not bind the name now either, and lies inside the same scope
    have hid : id < s.scopes.size := lt_size_of_parent? hparent
    obtain ⟨scope, hscope⟩ := scope?_eq_some hid
    obtain ⟨scope', hscope', hgrown⟩ := hextends id scope hscope
    have hfind' : t.find? id x = none := by
      rw [← not_ne_iff, ← mem_keys_iff] at hfind ⊢
      rwa [(hkeeps.sameNames id hid (Set.notMem_empty id)).keys]
    have hparent' : t.parent? id = some ⟨p, hlt⟩ := by
      rw [← hparent]
      refine parent?_congr ?_
      rw [hscope, hscope', Option.map_some, Option.map_some, hgrown.parent]
    obtain ⟨c, hlookup, hcontinues⟩ := ih h
    exact ⟨c, by rw [lookup?, hfind', hparent']; exact hlookup, hcontinues⟩
  | case3 => cases h

/-- An assignment to a name is one to the binding `b` of the scope `owner`: either it sets the value
of this binding and nothing else, or it changes nothing, as the tag is not that of the binding or
the binding is not mutable. -/
def AssignsTo (s : Store) (id : ScopeId) (x : String) (v : Value) (owner : ScopeId)
    (b : Binding) : Prop :=
  ((s.assign id x v).1 = .ok ∧ s.Sets (s.assign id x v).2 owner { b with value := v }) ∨
    (s.assign id x v).2 = s ∧
      ((s.assign id x v).1 = .typeMismatch ∧ v.tag ≠ b.tag ∨
        (s.assign id x v).1 = .immutable ∧ b.mutable = false)

/-- An assignment is one to the binding that the name is looked up as. -/
theorem assignsTo_of_lookup? (v : Value) (h : s.lookup? id x = some (owner, b)) :
    s.AssignsTo id x v owner b := by
  rcases assign_cases s id x v with ⟨hne, hsame⟩ | ⟨owner', b', hlookup, -, -, hwrite⟩
  · refine .inr ⟨hsame, ?_⟩
    rw [assign_fst, resolve?, h] at hne ⊢
    dsimp only [Option.map_some] at hne ⊢
    split_ifs at hne ⊢ with htag hmutable
    · exact .inl ⟨rfl, htag⟩
    · exact .inr ⟨rfl, by simpa using hmutable⟩
    · exact absurd rfl hne
  · obtain ⟨rfl, rfl⟩ := Prod.mk.inj (Option.some.inj (h.symm.trans hlookup))
    rw [AssignsTo, hwrite]
    exact .inl ⟨rfl, sets_assign v (lookup?_eq_some_iff.mp h).2⟩

/-- Such an assignment is not refused for want of a declaration. -/
theorem AssignsTo.ne_undeclared {v : Value} (h : s.AssignsTo id x v owner b) :
    (s.assign id x v).1 ≠ .undeclared := by
  rcases h with ⟨h, -⟩ | ⟨-, ⟨h, -⟩ | ⟨h, -⟩⟩ <;> simp [h]

end Store

namespace Steps

variable {ctx : Context} {c : State}

/-- What the evaluator takes to succeed does succeed at the moment `c`. -/
structure State.Assured (ctx : Context) (c : State) : Prop where
  /-- A function whose name the scope does not bind is bound. -/
  function : ∀ {scope p x params returns body},
    c.control = .stmt scope (.function p x params returns body) →
    c.machine.store.has scope x = false →
    c.machine.store.Accepts scope
      ⟨x, .function ⟨x, params, returns, body, scope⟩, .function, false⟩
  /-- A loop that has its range binds its cursor. -/
  cursor : ∀ {r scope x rangeAt body k},
    c.control = .value (.range r) → c.stack = .loop scope x rangeAt body :: k →
    (c.machine.store.openScope .loop scope).2.Accepts (c.machine.store.openScope .loop scope).1
      ⟨x, .int r.start, .int, true⟩
  /-- A loop that has completed a pass finds its own binding of the cursor, and moves it on. -/
  move : ∀ {done outer x stride body count k},
    c.control = .completed done → c.stack = .pass outer x stride body count :: k →
    ∃ i, c.machine.store.lookup? outer x = some (outer, ⟨x, .int i, .int, true⟩) ∧
      (c.machine.store.assign outer x (.int (i + stride))).1 = .ok
  /-- An assignment whose target is declared, and whose value is then computed as `v`, is one to the
  binding that was found before. -/
  target : ∀ {scope p x e v n}, c.control = .expr scope (.assign p x e) →
    c.machine.store.isDeclared scope x = true →
    Eval.expr ctx (Eval.call ctx (c.machine.spare ctx)) scope e c.machine = .ok v n →
    Reaches ctx c ⟨.value v, .assign scope p x e.position :: c.stack, n⟩ ∧
    ∃ owner b b', c.machine.store.lookup? scope x = some (owner, b) ∧
      n.store.lookup? scope x = some (owner, b') ∧ b.Continues b' ∧
      (n.store.assign scope x v).1 ≠ .undeclared ∧ n.store.AssignsTo scope x v owner b'

/-- The steps check that the target of an assignment is declared, and compute its value. -/
theorem reaches_assign {scope : ScopeId} {p : Position} {x : String} {e : Expr} {k : List Frame}
    {m n : Machine} {v : Value} (hm : m.frames.length ≤ ctx.limit)
    (hdeclared : m.store.isDeclared scope x = true)
    (he : Eval.expr ctx (Eval.call ctx (m.spare ctx)) scope e m = .ok v n) :
    Reaches ctx ⟨.expr scope (.assign p x e), k, m⟩
      ⟨.value v, .assign scope p x e.position :: k, n⟩ := by
  have hcheck : Eval.requireDeclared ctx scope p x m = .ok () m := by
    rw [Eval.requireDeclared, Eval.bind_apply]
    show (if _ then _ else _ : Eval Unit) m = _
    rw [hdeclared]
    rfl
  have hstep : step ctx ⟨.expr scope (.assign p x e), k, m⟩ =
      some ⟨.expr scope e, .assign scope p x e.position :: k, m⟩ :=
    congrArg some (proceed_ok hcheck)
  obtain ⟨hsteps, -⟩ :=
    does_expr (invokes_spare hm) scope e (.assign scope p x e.position :: k) m rfl
  rw [he] at hsteps
  exact .head hstep hsteps

/-- A name is looked up in the same scope after an expression was evaluated. -/
theorem lookup?_of_expr {scope id owner : ScopeId} {x : String} {e : Expr} {m n : Machine}
    {v : Value} {b : Binding} (hm : m.frames.length ≤ ctx.limit)
    (he : Eval.expr ctx (Eval.call ctx (m.spare ctx)) scope e m = .ok v n)
    (h : m.store.lookup? id x = some (owner, b)) :
    ∃ b', n.store.lookup? id x = some (owner, b') ∧ b.Continues b' := by
  have hextends := (does_expr (invokes_spare hm) scope e).grows.kept
  have hkeeps : m.store.Keeps ∅
      (Machine.after (Eval.expr ctx (Eval.call ctx (m.spare ctx)) scope e) m).store :=
    Eval.keeping_expr (Eval.quiet_call ctx (m.spare ctx)) scope e m
  rw [after_eq_of_ok he] at hextends hkeeps
  exact Store.lookup?_of_extends hextends hkeeps h

/-- Where a moment is well formed, its loops have their cursors and the limit of calls is kept,
nothing is refused that the evaluator takes to succeed. -/
theorem State.assured (hformed : c.Formed) (hcursors : c.HasCursors)
    (hlimit : c.machine.frames.length ≤ ctx.limit) : c.Assured ctx := by
  obtain ⟨control, k, m⟩ := c
  refine ⟨?_, ?_, ?_, ?_⟩
  · rintro scope p x params returns body rfl hfree
    exact Store.accepts_of_fresh hformed.control hfree
  · intro r scope x rangeAt body k' _ _
    exact Store.accepts_openScope m.store .loop scope _
  · rintro done outer x stride body count k' rfl rfl
    have hcursor : m.store.HoldsCursor outer x := hcursors (outer, x) List.mem_cons_self
    obtain ⟨i, hlookup, hassign⟩ := hcursor.lookup?_eq hformed.store
    exact ⟨i, hlookup, hassign (i + stride)⟩
  · rintro scope p x e v n rfl hdeclared he
    refine ⟨reaches_assign hlimit hdeclared he, ?_⟩
    obtain ⟨⟨owner, b⟩, hlookup⟩ := Option.isSome_iff_exists.mp hdeclared
    obtain ⟨b', hlookup', hcontinues⟩ := lookup?_of_expr hlimit he hlookup
    have hassigns := Store.assignsTo_of_lookup? v hlookup'
    exact ⟨owner, b, b', hlookup, hlookup', hcontinues, hassigns.ne_undeclared, hassigns⟩

end Steps

namespace Session

open Steps (State)

/-- Results that nobody checks are successes, at every moment of every session. -/
theorem unchecked_results_succeed {s : Session} {p : Program} {c : State} (hs : s.Reachable)
    (hc : s.Moment p c) : c.Assured s.context := by
  have hcursors : c.HasCursors := (State.HasCursors.start p s.machine).steps hc
  exact State.assured (moment_formed hs hc) hcursors (moment_counted hs.frames_eq_nil hc).le_limit

/-- A session with a variable and a function that assigns to it before it returns. -/
def assigningSession : Session :=
  ((new ⟨2, .plain, 0, false, false⟩).run
    [.declare .start false "x" none (.int .start 1),
      .function .start "g" [] none
        [.expr .start (.assign .start "x" (.int .start 5)), .ret .start (some (.int .start 7))]]).2

/-- The variable is assigned what the function returns. -/
def assignment : Expr :=
  .assign .start "x" (.call .start (.name .start "g") [])

/-- The assignment finds its target again after the function has assigned to it. -/
theorem unchecked_results_succeed_reassigned :
    let s := assigningSession
    let c : State := ⟨.expr s.global assignment, [.expr true, .program []], s.machine⟩
    s.Reachable ∧ s.Moment [.expr .start assignment] c ∧
      s.machine.store.isDeclared s.global "x" = true ∧
      ∃ v n, Eval.expr s.context (Eval.call s.context (s.machine.spare s.context)) s.global
          (.call .start (.name .start "g") []) s.machine = .ok v n ∧
        ∃ owner b b', s.machine.store.lookup? s.global "x" = some (owner, b) ∧
          n.store.lookup? s.global "x" = some (owner, b') ∧ b.Continues b' ∧
          n.store.AssignsTo s.global "x" v owner b' := by
  intro s c
  have hs : s.Reachable := .run _ (.new _)
  have hcontext : s.context = ⟨0, 2, "", [], false, false⟩ := by
    show assigningSession.context = _
    rw [assigningSession, run_eq]
    rfl
  have hc : s.Moment [.expr .start assignment] c := by
    unfold Moment
    rw [hcontext]
    exact .head rfl (.single rfl)
  have hends : (match Eval.expr assigningSession.context
      (Eval.call assigningSession.context
        (assigningSession.machine.spare assigningSession.context)) assigningSession.global
      (.call .start (.name .start "g") []) assigningSession.machine with
    | .ok _ _ => true
    | .error _ _ => false) = true := by with_unfolding_all rfl
  have hdeclared : assigningSession.machine.store.isDeclared
      assigningSession.global "x" = true := by with_unfolding_all rfl
  refine ⟨hs, hc, hdeclared, ?_⟩
  cases he : Eval.expr s.context (Eval.call s.context (s.machine.spare s.context)) s.global
    (.call .start (.name .start "g") []) s.machine with
  | ok v n =>
    obtain ⟨-, owner, b, b', hbefore, hafter, hcontinues, -, hassigns⟩ :=
      (unchecked_results_succeed hs hc).target rfl hdeclared he
    exact ⟨v, n, rfl, owner, b, b', hbefore, hafter, hcontinues, hassigns⟩
  | error stop n =>
    rw [he] at hends
    cases hends

end Session

end TagScript
