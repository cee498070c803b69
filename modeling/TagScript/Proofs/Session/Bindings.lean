import TagScript.Proofs.Session.Annotations
import TagScript.Proofs.Session.Declarations
import TagScript.Proofs.Session.Depth

/-!
# Bindings Persist

Nothing that is bound is lost. Whatever is evaluated or run at a moment of a session, and however it
ends, each scope is there afterwards with its kind, its parent and its names in the order of
declaration, and each name in it is bound with the tag from before (`bindings_persist`). A name that
could not be assigned to cannot be assigned to afterwards, and is bound to the same value. What
every script finds is bound in this way, and so are constants and functions.

The steps only extend the scopes; what the evaluator computes is what steps come to, so this holds
of expressions, statements and blocks by themselves too.
-/

namespace TagScript

/-- A binding that cannot be assigned to stays as it is. -/
theorem Binding.Continues.eq_of_immutable {b c : Binding} (h : b.Continues c)
    (hb : b.mutable = false) : c = b := by
  obtain ⟨hname, htag, hmutable, hvalue⟩ := h
  cases b
  cases c
  rw [Binding.mk.injEq]
  exact ⟨hname, hvalue hb, htag, hmutable⟩

/-- Nothing that every script finds can be assigned to. -/
theorem Builtin.seeded_immutable : ∀ b ∈ Builtin.seeded, b.mutable = false := by
  intro b hb
  rcases List.mem_append.mp hb with hb | hb
  · obtain ⟨f, -, rfl⟩ := List.mem_map.mp hb
    rfl
  · simp only [List.mem_cons, List.not_mem_nil, or_false] at hb
    rcases hb with rfl | rfl | rfl
    · rfl
    · rfl
    · rfl

/-- The name that a statement binds for good: that of a constant or of a function. -/
def Stmt.fixed? : Stmt → Option String
  | .declare _ true x _ _ | .function _ x _ _ _ => some x
  | _ => none

open Machine (after)

namespace Steps

variable {ctx : Context} {scope : ScopeId} {p : Position} {m n : Machine}

/-- The moment at which a computation has ended has the machine after it. -/
theorem machine_ofResult {α : Type} (x : Eval α) (inject : α → Control) (k : List Frame)
    (m : Machine) : (State.ofResult inject k (x m)).machine = after x m := by
  unfold State.ofResult after
  cases x m with
  | ok a n => rfl
  | error s n => rfl

/-- A computation that the steps do only extends the scopes. -/
theorem Does.grows {α : Type} {control : Control} {x : Eval α} {inject : α → Control}
    (hx : Does ctx m.frames.length (fun k m => ⟨control, k, m⟩) x inject) :
    m.store.Grows (after x m).store := by
  obtain ⟨hsteps, -, -⟩ := hx [] m rfl
  rw [← machine_ofResult x inject [] m]
  exact steps_grows hsteps

/-- A variable or a constant that is declared is bound. -/
theorem declareValue_find? {constant : Bool} {name : String} {type : Option TypeName}
    {valueAt : Position} {v : Value} (hscope : scope < m.size)
    (h : Eval.declareValue ctx scope p constant name type valueAt v m = .ok () n) :
    n.store.find? scope name = some ⟨name, v, v.tag, !constant⟩ := by
  cases type with
  | none => exact declare_ok hscope h
  | some t =>
    -- with the wrong tag the declaration would have failed
    change (if _ then _ else _ : Eval Unit) m = _ at h
    by_cases ht : Tag.ofTypeName t = v.tag
    · rw [if_neg (not_not_intro ht)] at h
      exact declare_ok hscope h
    · rw [if_pos ht] at h
      cases h

/-- A function that is declared is bound. -/
theorem declareFunction_find? {name : String} {params : List Param} {returns : Option TypeName}
    {body : List Stmt} (hscope : scope < m.size)
    (h : Eval.declareFunction ctx scope p name params returns body m = .ok () n) :
    n.store.find? scope name =
      some ⟨name, .function ⟨name, params, returns, body, scope⟩, .function, false⟩ := by
  rw [Eval.declareFunction_apply] at h
  by_cases hhas : m.store.has scope name = true
  · rw [if_pos hhas] at h
    cases h
  · rw [if_neg hhas] at h
    cases hrepeated : Eval.repeated? (params.map Param.name) with
    | some param =>
      rw [hrepeated] at h
      cases h
    | none =>
      rw [hrepeated] at h
      cases h
      have hfresh : m.store.has scope name = false := Bool.eq_false_of_not_eq_true hhas
      exact Store.find?_define (b := ⟨name, _, .function, false⟩) hscope hfresh

/-- A constant or a function that is declared in a stored scope cannot be assigned to. -/
theorem stmt_fixed {invoke : Eval.Invoke} (hi : invoke.Quiet) {s : Stmt} {name : String}
    {done : Eval.Completion} (hscope : scope < m.size) (hfixed : s.fixed? = some name)
    (h : Eval.stmt ctx invoke scope s m = .ok done n) :
    ∃ b, n.store.find? scope name = some b ∧ b.mutable = false := by
  cases s with
  | declare p constant x type e =>
    cases constant with
    | false => cases hfixed
    | true =>
      cases hfixed
      rw [Eval.stmt] at h
      obtain ⟨v, m', hexpr, hrest⟩ := Eval.bind_eq_ok.mp h
      obtain ⟨_, n', hdeclare, hdone⟩ := Eval.bind_eq_ok.mp hrest
      cases hdone
      -- evaluating the value has not lost the scope
      have hkept : m.store.Keeps ∅ (after (Eval.expr ctx invoke scope e) m).store :=
        Eval.keeping_expr hi scope e m
      rw [after_eq_of_ok hexpr] at hkept
      have hscope' : scope < m'.size := Nat.lt_of_lt_of_le hscope hkept.size_le
      exact ⟨_, declareValue_find? hscope' hdeclare, rfl⟩
  | function p x params returns body =>
    cases hfixed
    rw [Eval.stmt] at h
    obtain ⟨_, n', hdeclare, hdone⟩ := Eval.bind_eq_ok.mp h
    cases hdone
    exact ⟨_, declareFunction_find? hscope hdeclare, rfl⟩
  | _ => cases hfixed

end Steps

/-- On the machine `m` nothing is lost, whatever is evaluated or run there and however it ends. -/
structure Machine.Persisting (ctx : Context) (m : Machine) : Prop where
  /-- Nothing is lost at any moment of what is evaluated or run by itself. -/
  moments : ∀ control : Steps.Control, control.IsTask → ∀ d, Steps.Reaches ctx ⟨control, [], m⟩ d →
    m.store.Extends d.machine.store
  /-- Nothing is lost when an expression has been evaluated. -/
  expr : ∀ scope e, m.store.Extends
    (after (Eval.expr ctx (Eval.call ctx (m.spare ctx)) scope e) m).store
  /-- Nothing is lost when a statement has been run. -/
  stmt : ∀ scope s, m.store.Extends
    (after (Eval.stmt ctx (Eval.call ctx (m.spare ctx)) scope s) m).store
  /-- Nothing is lost when a block has been run. -/
  block : ∀ scope last ss, m.store.Extends
    (after (Eval.block ctx (Eval.call ctx (m.spare ctx)) scope last ss) m).store
  /-- Nothing is lost when a program has been run. -/
  program : m.frames = [] → ∀ last p, m.store.Extends (after (Eval.program ctx last p) m).store
  /-- A constant or a function that has been declared in a stored scope cannot be assigned to. -/
  fixed : ∀ scope s name done n, scope < m.size → s.fixed? = some name →
    Eval.stmt ctx (Eval.call ctx (m.spare ctx)) scope s m = .ok done n →
    ∃ b, n.store.find? scope name = some b ∧ b.mutable = false

/-- Where the limit of calls is kept, nothing is lost. -/
theorem Machine.persisting {ctx : Context} {m : Machine} (hm : m.frames.length ≤ ctx.limit) :
    m.Persisting ctx := by
  -- as many calls are to spare as the limit leaves, so the steps do what the evaluator computes
  have hi := Steps.invokes_spare hm
  refine ⟨?_, ?_, ?_, ?_, ?_, ?_⟩
  · intro control _ d hd
    exact (Steps.steps_grows hd).kept
  · intro scope e
    exact (Steps.does_expr hi scope e).grows.kept
  · intro scope s
    exact (Steps.does_stmt hi scope s).grows.kept
  · intro scope last ss
    exact (Steps.does_block hi scope last ss).grows.kept
  · intro hnone last p
    have hprogram : Steps.Does ctx m.frames.length (fun k m => ⟨.program last p, k, m⟩)
        (Eval.program ctx last p) .finished := by
      rw [hnone]
      exact Steps.does_program last p
    exact hprogram.grows.kept
  · intro scope s name done n hscope hfixed hok
    exact Steps.stmt_fixed (Eval.quiet_call _ _) hscope hfixed hok

namespace Session

open Steps (State)

variable {s : Session} {p : Program} {c : State}

/-- The outermost scope of every session has grown from one in which what every script finds has
been declared. -/
theorem Reachable.extends_seeded (hs : s.Reachable) :
    ∃ scope, s.machine.store.scope? s.global = some scope ∧ Scope.seeded.Extends scope := by
  refine hs.machine_induction
    (fun g m => ∃ scope, m.store.scope? g = some scope ∧ Scope.seeded.Extends scope)
    (fun _ => ⟨_, Store.scope?_seed _, .refl _⟩) (fun _ _ _ => ⟨_, Store.scope?_seed _, .refl _⟩)
    (fun _ _ _ h => h) ?_
  rintro s p hs ⟨scope, hscope, hextends⟩
  obtain ⟨scope', hscope', hgrown⟩ := (grows_run hs (.refl : s.Moment p _)).kept _ _ hscope
  exact ⟨scope', hscope', hextends.trans hgrown⟩

/-- At every moment of a session, what every script finds is bound as at its start. -/
theorem moment_seeded (hs : s.Reachable) (hc : s.Moment p c) {b : Binding}
    (hb : b ∈ Builtin.seeded) : c.machine.store.find? s.global b.name = some b := by
  have hstart : Scope.seeded.find? b.name = some b := by
    refine Scope.consistent_seeded.find?_of_mem ?_
    rwa [Scope.seeded_values, List.mem_reverse]
  -- the outermost scope at this moment extends that of the session, and that extends the first one
  obtain ⟨scope, hscope, hextends⟩ := hs.extends_seeded
  obtain ⟨scope', hscope', hgrown⟩ := (Steps.steps_grows hc).kept _ _ hscope
  obtain ⟨b', hb', hcontinues⟩ := (hextends.trans hgrown).binding _ _ hstart
  rw [Store.find?, hscope', Option.bind_some, hb',
    hcontinues.eq_of_immutable (Builtin.seeded_immutable b hb)]

/-- A function that the host binds is one more binding, and nothing is lost. -/
theorem defineFunction_grows (s : Session) (name : String) (params : List Param)
    (returns : Option TypeName) (body : List Stmt) :
    s.machine.store.Grows (s.defineFunction name params returns body).2.machine.store :=
  (Machine.Change.define s.machine s.global
    ⟨name, .function ⟨name, params, returns, body, s.global⟩, .function, false⟩).grows

/-- Bindings persist. Whatever is evaluated or run on a machine that keeps the limit of calls, and
however it ends, no scope is lost or changes its kind or its parent, and no binding is lost, gets
another tag or becomes assignable; one that is not assignable keeps its value. The machine keeps the
limit at every moment of every session, and nothing is lost where the host binds a function or the
session is reset. What every script finds is not assignable and bound at every moment. -/
theorem bindings_persist {ctx : Context} {m : Machine} (hm : m.frames.length ≤ ctx.limit) :
    m.Persisting ctx ∧
    (∀ (s : Session) name params returns body,
      s.machine.store.Grows (s.defineFunction name params returns body).2.machine.store) ∧
    ∀ s : Session, s.Reachable → ∀ p c, s.Moment p c →
      c.machine.store.Consistent ∧ c.machine.Persisting s.context ∧
      (∀ d, s.Later p c d → c.machine.store.Extends d.machine.store) ∧
      ∀ b ∈ Builtin.seeded, b.mutable = false ∧
        c.machine.store.find? s.global b.name = some b := by
  refine ⟨Machine.persisting hm, defineFunction_grows, ?_⟩
  intro s hs p c hc
  have hlimit := (moment_counted hs.frames_eq_nil hc).le_limit
  refine ⟨(moment_formed hs hc).store.consistent, Machine.persisting hlimit, ?_, ?_⟩
  · intro d hd
    obtain ⟨-, hgrows⟩ := hd.grows hs hc
    exact hgrows.kept
  · intro b hb
    exact ⟨Builtin.seeded_immutable b hb, moment_seeded hs hc hb⟩

/-- A constant is declared, and the next program tries to assign to it. -/
theorem bindings_persist_constant :
    let s := ((new ⟨2, .plain, 0, false, false⟩).run
      [.declare .start true "k" none (.int .start 1)]).2
    let p : Program := [.expr .start (.assign .start "k" (.int .start 2))]
    s.machine.frames.length ≤ s.context.limit ∧ s.machine.Persisting s.context ∧
      s.machine.store.Extends (after (Eval.program s.context none p) s.machine).store := by
  intro s p
  have hs : s.Reachable := .run _ (.new _)
  have hm : s.machine.frames.length ≤ s.context.limit := by
    rw [hs.frames_eq_nil]
    exact Nat.zero_le _
  obtain ⟨hpersisting, -, -⟩ := bindings_persist hm
  exact ⟨hm, hpersisting, hpersisting.program hs.frames_eq_nil none p⟩

end Session

end TagScript
