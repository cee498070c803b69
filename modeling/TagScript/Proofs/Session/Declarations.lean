import TagScript.Proofs.Machine.Made
import TagScript.Proofs.Session.Moments
import TagScript.Proofs.Store.Names

/-!
# Declarations Are Local

Evaluating an expression and calling a function declare nothing in any scope from before. A
statement that declares a name declares it in the scope that it runs in, once it succeeds; every
other statement, and one that fails, declares nothing there or anywhere else. So a block declares in
its scope some of the names that its own statements declare, the first ones, and none in another
scope (`declarations_local`). Blocks of choices and loops, cursors and parameters have scopes of
their own, which were opened after whatever came before.

Two judgements on computations carry this through the evaluator: `Eval.Keeping` for what declares
names only in certain scopes, and `Eval.Declares` for what declares certain names in one scope and
in no other. The first holds of each operation for what it is made of.
-/

namespace TagScript

/-- The name that a statement declares in the scope that it runs in. -/
def Stmt.declared? : Stmt → Option String
  | .declare _ _ x _ _ | .function _ x _ _ _ => some x
  | _ => none

/-- A statement declares at most one name, in front of those declared by the others. -/
theorem Stmt.declared_cons (s : Stmt) (rest : List Stmt) :
    (s :: rest).filterMap declared? = s.declared?.toList ++ rest.filterMap declared? := by
  rw [List.filterMap_cons]
  cases s.declared? with
  | none => rfl
  | some x => rfl

namespace Eval

open Machine (after)

variable {α β : Type} {ctx : Context}

/-- A computation that declares names in no scope from before, except for those in `owned`. -/
def Keeping (owned : Set ScopeId) (x : Eval α) : Prop :=
  ∀ m : Machine, m.store.Keeps owned (after x m).store

namespace Keeping

variable {owned owned' : Set ScopeId}

/-- More scopes may be given. -/
theorem mono {x : Eval α} (hx : Keeping owned x) (hsub : owned ⊆ owned') : Keeping owned' x :=
  fun m => (hx m).mono hsub

/-- A computation that does not touch the scopes. -/
theorem of_store_eq {x : Eval α} (hx : ∀ m, (after x m).store = m.store) : Keeping owned x := by
  intro m
  rw [hx m]
  exact .refl _

/-- Nothing is declared where nothing is done. -/
theorem pure (a : α) : Keeping owned (Pure.pure a : Eval α) :=
  of_store_eq fun _ => rfl

/-- A name is bound in a scope that is given. -/
theorem define {id : ScopeId} (hid : id ∈ owned) (b : Binding) :
    Keeping owned (Machine.define id b) :=
  fun m => .define m.store hid b

/-- Two computations in a row, where the second may depend on what the first one comes to. -/
theorem bind_of {x : Eval α} {f : α → Eval β} (hx : Keeping owned x)
    (hf : ∀ m a n, x m = .ok a n → Keeping owned (f a)) : Keeping owned (x >>= f) := by
  intro m
  have hm := hx m
  unfold after at hm ⊢
  rw [bind_apply]
  cases hr : x m with
  | ok a n =>
    rw [hr] at hm
    exact hm.trans (hf m a n hr n)
  | error s n =>
    rw [hr] at hm
    exact hm

/-- Two computations in a row. -/
theorem bind {x : Eval α} {f : α → Eval β} (hx : Keeping owned x)
    (hf : ∀ a, Keeping owned (f a)) : Keeping owned (x >>= f) :=
  hx.bind_of fun _ a _ _ => hf a

/-- What is declared in a scope that the computation opens does not count. -/
theorem opened {f : ScopeId → Eval α} (kind : ScopeKind) (parent : ScopeId)
    (hf : ∀ id, Keeping (insert id owned) (f id)) :
    Keeping owned (Machine.openScope kind parent >>= f) := by
  intro m
  have hrest := hf m.store.scopes.size { m with store := (m.store.openScope kind parent).2 }
  exact .of_opened hrest

/-- Names are bound in the given scopes only, whatever an operation is made of. -/
theorem of_made {x : Eval α} (hx : Made ctx owned x) : Keeping owned x := by
  induction hx with
  | assign id name v => exact fun m => .assign m.store id name v
  | define hid b => exact .define hid b
  | opened kind parent _ ih => exact .opened kind parent ih
  | bind_of _ _ ihx ihf => exact ihx.bind_of ihf
  | _ => exact of_store_eq fun _ => rfl

/-- Making a call active and ending it touches no scope. -/
theorem inFrame {x : Eval α} (hx : Keeping owned x) (function : String) :
    Keeping owned (Machine.inFrame function x) := by
  intro m
  have hbody := hx { m with frames := function :: m.frames }
  unfold after at hbody ⊢
  unfold Machine.inFrame
  -- however the body ends, the scopes are those that it leaves
  cases hr : x { m with frames := function :: m.frames } with
  | ok a n =>
    rw [hr] at hbody
    exact hbody
  | error s n =>
    rw [hr] at hbody
    cases s with
    | error e => exact hbody
    | fault f => exact hbody
    | halt code => exact hbody

/-- All passes of a loop, by induction on their number. -/
theorem passes {pass : Eval Completion} (hpass : Keeping owned pass) (n : Nat) :
    Keeping owned (passes n pass) := by
  induction n with
  | zero => exact .pure _
  | succ n ih =>
    rw [Eval.passes]
    refine .bind hpass fun c => ?_
    cases c with
    | returning v => exact .pure _
    | empty => exact ih
    | value v => exact ih

end Keeping

/-- A computation that, if it succeeds, declares certain names in the scope `owner` and none in any
other scope from before. If it stops, it declares none. -/
def Declares (owner : ScopeId) (names : List String) (x : Eval α) : Prop :=
  ∀ m, match x m with
    | .ok _ n => m.store.Adds owner names n.store
    | .error _ n => m.store.Keeps ∅ n.store

/-- A computation that declares some of certain names, the first ones, in the scope `owner` and none
in any other scope from before. -/
def DeclaresSome (owner : ScopeId) (names : List String) (x : Eval α) : Prop :=
  ∀ m : Machine, ∃ first, first <+: names ∧ m.store.Adds owner first (after x m).store

namespace Declares

variable {owner : ScopeId} {names more : List String}

/-- A computation that declares nothing declares an empty list of names. -/
theorem of_keeping {x : Eval α} (hx : Keeping ∅ x) : Declares owner [] x := by
  intro m
  have hm := hx m
  unfold after at hm
  cases hr : x m with
  | ok a n =>
    rw [hr] at hm
    exact .nil hm owner
  | error s n =>
    rw [hr] at hm
    exact hm

/-- First something that declares nothing. -/
theorem keeping_bind {x : Eval α} {f : α → Eval β} (hx : Keeping ∅ x)
    (hf : ∀ a, Declares owner names (f a)) : Declares owner names (x >>= f) := by
  intro m
  have hm := hx m
  unfold after at hm
  rw [bind_apply]
  cases hr : x m with
  | error s n =>
    rw [hr] at hm
    exact hm
  | ok a n =>
    rw [hr] at hm
    have hrest := hf a n
    dsimp only
    cases hr' : f a n with
    | ok b o =>
      rw [hr'] at hrest
      exact (Store.Adds.nil hm owner).trans hrest
    | error s o =>
      rw [hr'] at hrest
      exact hm.trans hrest

/-- Then something that cannot fail and declares nothing. -/
theorem bind_pure {x : Eval α} (hx : Declares owner names x) (b : β) :
    Declares owner names (x >>= fun _ => pure b) := by
  intro m
  have hm := hx m
  rw [bind_apply]
  cases hr : x m with
  | ok a n =>
    rw [hr] at hm
    exact hm
  | error s n =>
    rw [hr] at hm
    exact hm

/-- Then something that declares some more names in the same scope. -/
theorem bind_some {x : Eval α} {f : α → Eval β} (hx : Declares owner names x)
    (hf : ∀ a, DeclaresSome owner more (f a)) : DeclaresSome owner (names ++ more) (x >>= f) := by
  intro m
  have hm := hx m
  unfold after
  rw [bind_apply]
  cases hr : x m with
  | error s n =>
    rw [hr] at hm
    exact ⟨[], List.nil_prefix, .nil hm owner⟩
  | ok a n =>
    rw [hr] at hm
    -- all the names of the first computation, and then some of the second
    obtain ⟨first, hfirst, hadds⟩ := hf a n
    exact ⟨names ++ first, (List.prefix_append_right_inj names).mpr hfirst, hm.trans hadds⟩

end Declares

namespace DeclaresSome

variable {owner : ScopeId} {names : List String}

theorem pure (a : α) : DeclaresSome owner names (Pure.pure a : Eval α) :=
  fun m => ⟨[], List.nil_prefix, .nil (.refl m.store) owner⟩

/-- A computation that declares some names in a scope is given that scope. -/
theorem keeping {x : Eval α} (hx : DeclaresSome owner names x) : Keeping {owner} x := by
  intro m
  obtain ⟨first, -, hadds⟩ := hx m
  exact hadds.toKeeps

end DeclaresSome

section Declarations

variable (ctx) (scope : ScopeId) (p : Position)

/-- A declaration fails exactly where its scope binds the name already. -/
theorem declare_apply (b : Binding) (m : Machine) :
    declare ctx scope p b m =
      if m.store.has scope b.name then .error (.error (ctx.errorAt p (.redeclared b.name))) m
      else .ok () { m with store := (m.store.define scope b).2 } := by
  unfold declare
  rw [bind_apply]
  have hdefine : Machine.define scope b m =
      .ok (m.store.define scope b).1 { m with store := (m.store.define scope b).2 } := rfl
  rw [hdefine]
  -- the definition reports that it was refused exactly if the scope has the name
  rcases Store.define_cases m.store scope b with ⟨hhas, hrefused⟩ | ⟨hfresh, hbound⟩
  · rw [hrefused, if_pos hhas]
    rfl
  · rw [hbound, if_neg (by rw [hfresh]; exact Bool.false_ne_true)]
    rfl

/-- A function is refused where its scope binds its name already, and where two of its parameters
have one name. -/
theorem declareFunction_apply (name : String) (params : List Param) (returns : Option TypeName)
    (body : List Stmt) (m : Machine) :
    declareFunction ctx scope p name params returns body m =
      if m.store.has scope name then .error (.error (ctx.errorAt p (.redeclared name))) m
      else match repeated? (params.map Param.name) with
        | some param => .error (.error (ctx.errorAt p (.redeclared param))) m
        | none => .ok () { m with
            store := (m.store.define scope
              ⟨name, .function ⟨name, params, returns, body, scope⟩, .function, false⟩).2 } := by
  change (if _ then _ else _ : Eval Unit) m = _
  split
  · rfl
  · cases repeated? (params.map Param.name) with
    | some param => rfl
    | none => rfl

/-- A declaration adds its name, or it fails and adds none. -/
theorem declares_declare (b : Binding) : Declares scope [b.name] (declare ctx scope p b) := by
  intro m
  rw [declare_apply]
  by_cases hhas : m.store.has scope b.name = true
  · rw [if_pos hhas]
    exact .refl _
  · rw [if_neg hhas]
    exact .define (Bool.eq_false_of_not_eq_true hhas)

/-- The declaration of a value adds its name, or it fails and adds none. -/
theorem declares_declareValue (constant : Bool) (name : String) (type : Option TypeName)
    (valueAt : Position) (v : Value) :
    Declares scope [name] (declareValue ctx scope p constant name type valueAt v) := by
  have hdeclare := declares_declare ctx scope p ⟨name, v, v.tag, !constant⟩
  unfold declareValue
  split
  · -- a value of the wrong type is refused before anything is declared
    split
    · exact fun m => .refl m.store
    · exact hdeclare
  · exact hdeclare

/-- The declaration of a function adds its name, or it fails and adds none. -/
theorem declares_declareFunction (name : String) (params : List Param) (returns : Option TypeName)
    (body : List Stmt) :
    Declares scope [name] (declareFunction ctx scope p name params returns body) := by
  intro m
  rw [declareFunction_apply]
  by_cases hhas : m.store.has scope name = true
  · rw [if_pos hhas]
    exact .refl _
  · rw [if_neg hhas]
    cases repeated? (params.map Param.name) with
    | some param => exact .refl _
    | none =>
      have hfresh : m.store.has scope name = false := Bool.eq_false_of_not_eq_true hhas
      exact Store.Adds.define (b := ⟨name, .function ⟨name, params, returns, body, scope⟩,
        .function, false⟩) hfresh

end Declarations

section Evaluator

variable {invoke : Invoke}

/-- A way of calling declared functions that declares nothing in any scope from before. -/
def Invoke.Quiet (invoke : Invoke) : Prop :=
  ∀ f args p, Keeping ∅ (invoke f args p)

/-- A call declares nothing in a scope from before: its parameters are declared in a new one. -/
theorem keeping_callValue (hi : invoke.Quiet) (p : Position) (callee : Value) (args : List Arg) :
    Keeping ∅ (callValue ctx invoke p callee args) := by
  cases callee with
  | function f => exact hi f args p
  | builtin b => exact .of_made (made_callBuiltin ctx p b args)
  | _ => exact .of_store_eq fun _ => rfl

mutual

/-- Evaluating an expression declares nothing. -/
theorem keeping_expr (hi : invoke.Quiet) (scope : ScopeId) (e : Expr) :
    Keeping ∅ (expr ctx invoke scope e) := by
  cases e with
  | array p es =>
    rw [expr]
    exact .bind (keeping_items hi scope none es) fun vs => .pure _
  | name p x =>
    rw [expr]
    exact .bind (.of_made (made_bindingOf ctx scope p x)) fun b => .pure _
  | assign p x e =>
    rw [expr]
    refine .bind (.of_made (made_requireDeclared ctx scope p x)) fun _ => ?_
    refine .bind (keeping_expr hi scope e) fun v => ?_
    exact .bind (.of_made (made_assignValue ctx scope p x _ v)) fun _ => .pure _
  | call p callee es =>
    rw [expr]
    refine .bind (keeping_expr hi scope callee) fun f => ?_
    refine .bind (.of_made (made_checkCallable ctx _ f)) fun _ => ?_
    exact .bind (keeping_args hi scope es) fun args => keeping_callValue hi p f args
  | binary p l op r =>
    rw [expr]
    refine .bind (keeping_expr hi scope l) fun v => .bind (keeping_expr hi scope r) fun w => ?_
    exact .of_made (made_accept ctx p fun _ => BinaryOp.ofCall_apply)
  | unary p op r =>
    rw [expr]
    refine .bind (keeping_expr hi scope r) fun v => ?_
    exact .of_made (made_accept ctx p fun _ => UnaryOp.ofCall_apply)
  | step p l op =>
    rw [expr]
    refine .bind (keeping_expr hi scope l) fun v => ?_
    exact .of_made (made_accept ctx p fun _ => StepOp.ofCall_apply)
  | _ => exact .of_store_eq fun _ => rfl

/-- Evaluating the items of an array declares nothing. -/
theorem keeping_items (hi : invoke.Quiet) (scope : ScopeId) (expected : Option Tag)
    (es : List Expr) : Keeping ∅ (items ctx invoke scope expected es) := by
  cases es with
  | nil => exact .pure _
  | cons e rest =>
    rw [items]
    refine .bind (keeping_expr hi scope e) fun v => ?_
    refine .bind (.of_made (made_checkItem ctx _ _ v)) fun _ => ?_
    exact .bind (keeping_items hi scope _ rest) fun vs => .pure _

/-- Evaluating the arguments of a call declares nothing. -/
theorem keeping_args (hi : invoke.Quiet) (scope : ScopeId) (es : List Expr) :
    Keeping ∅ (args ctx invoke scope es) := by
  cases es with
  | nil => exact .pure []
  | cons e rest =>
    have hrest (a : Arg) : Keeping ∅ (do
        let more ← args ctx invoke scope rest
        return a :: more) :=
      .bind (keeping_args hi scope rest) fun more => .pure _
    -- a name is looked up for its tag, every other argument is evaluated
    cases e with
    | name p x =>
      rw [args]
      exact .bind (.of_made (made_bindingOf ctx scope p x)) fun b => hrest ⟨b.value, b.tag⟩
    | _ =>
      rw [args]
      · exact .bind (keeping_expr hi scope _) fun v => hrest ⟨v, v.tag⟩
      · intro p x h
        cases h

end

/-- What a computation declares in a scope of its own is declared nowhere else. -/
theorem keeping_inner {names : List String} (kind : ScopeKind) (parent : ScopeId)
    {body : ScopeId → Eval α} (hbody : ∀ inner, DeclaresSome inner names (body inner)) :
    Keeping ∅ (Machine.openScope kind parent >>= body) := by
  refine .opened kind parent fun inner => (hbody inner).keeping.mono ?_
  exact Set.singleton_subset_iff.mpr (Set.mem_insert inner ∅)

/-- A loop declares its cursor in a scope of its own, and each pass has one inside of that. -/
theorem keeping_loop (ctx : Context) {names : List String} (scope : ScopeId) (cursor : String)
    (r : Range) {body : ScopeId → Eval Completion}
    (hbody : ∀ inner, DeclaresSome inner names (body inner)) :
    Keeping ∅ (do
      let outer ← Machine.openScope .loop scope
      let _ ← Machine.define outer ⟨cursor, .int r.start, .int, true⟩
      passes r.length.toNat do
        let inner ← Machine.openScope .block outer
        let c ← body inner
        endPass outer cursor r.step c) := by
  refine .opened .loop scope fun outer => ?_
  refine .bind (.define (Set.mem_insert outer ∅) _) fun _ => .passes ?_ _
  -- one pass: its block declares in the inner scope, and the cursor is only assigned to
  refine .opened .block outer fun inner => ?_
  have hinner : Keeping (insert inner (insert outer ∅)) (body inner) :=
    (hbody inner).keeping.mono (Set.singleton_subset_iff.mpr (Set.mem_insert inner _))
  refine .bind hinner fun c => ?_
  have hmove : Keeping (insert inner (insert outer ∅)) (moveCursor outer cursor r.step) :=
    .of_made (made_moveCursor ctx outer cursor r.step)
  cases c with
  | returning v => exact .pure _
  | empty => exact .bind hmove fun _ => .pure _
  | value v => exact .bind hmove fun _ => .pure _

mutual

/-- A statement declares its own name in the scope that it runs in, and nothing else. -/
theorem declares_stmt (hi : invoke.Quiet) (scope : ScopeId) (s : Stmt) :
    Declares scope s.declared?.toList (stmt ctx invoke scope s) := by
  cases s with
  | declare p constant x type e =>
    rw [stmt]
    refine .keeping_bind (keeping_expr hi scope e) fun v => ?_
    exact (declares_declareValue ctx scope p constant x type _ v).bind_pure _
  | function p x params returns body =>
    rw [stmt]
    exact (declares_declareFunction ctx scope p x params returns body).bind_pure _
  | ret p value =>
    cases value with
    | none => exact .of_keeping (.pure _)
    | some e =>
      rw [stmt]
      exact .of_keeping (.bind (keeping_expr hi scope e) fun v => .pure _)
  | expr p e =>
    rw [stmt]
    exact .of_keeping (.bind (keeping_expr hi scope e) fun v => .pure _)
  | branch p condition yes no =>
    -- whichever block is run, it is run in a scope that is opened for it
    have hyes : Keeping ∅ (do
        let inner ← Machine.openScope .branch scope
        block ctx invoke inner .empty yes) :=
      keeping_inner .branch scope fun inner => declares_block hi inner .empty yes
    cases no with
    | none =>
      rw [stmt]
      refine .of_keeping (.bind (keeping_expr hi scope condition) fun v => ?_)
      split
      · exact hyes
      · exact .pure _
    | some no =>
      rw [stmt]
      refine .of_keeping (.bind (keeping_expr hi scope condition) fun v => ?_)
      split
      · exact hyes
      · exact keeping_inner .branch scope fun inner => declares_block hi inner .empty no
  | loop p cursor e body =>
    rw [stmt]
    refine .of_keeping (.bind (keeping_expr hi scope e) fun v => ?_)
    refine .bind (.of_made (made_loopRange ctx _ v)) fun r => ?_
    exact keeping_loop ctx scope cursor r fun inner => declares_block hi inner .empty body

/-- A block declares in its scope names that its statements declare, and nothing else. -/
theorem declares_block (hi : invoke.Quiet) (scope : ScopeId) (last : Completion)
    (ss : List Stmt) :
    DeclaresSome scope (ss.filterMap Stmt.declared?) (block ctx invoke scope last ss) := by
  cases ss with
  | nil => exact .pure last
  | cons s rest =>
    rw [block, Stmt.declared_cons]
    refine (declares_stmt hi scope s).bind_some fun c => ?_
    -- a statement that returns ends the block, and the names after it are not declared
    cases c with
    | returning v => exact .pure _
    | empty => exact declares_block hi scope .empty rest
    | value v => exact declares_block hi scope (.value v) rest

end

/-- The check of a result declares nothing. -/
theorem keeping_resultOf (f : Closure) (p : Position) (c : Completion) :
    Keeping ∅ (resultOf ctx f p c) := by
  unfold resultOf
  split
  · exact .pure _
  · exact .pure _
  · dsimp only
    split
    · exact .of_store_eq fun _ => rfl
    · exact .pure _

/-- A call declares the parameters in a scope that is opened for it, and its body runs there. -/
theorem quiet_call (ctx : Context) (spare : Nat) : Invoke.Quiet (call ctx spare) := by
  -- the body is run with one call fewer to spare
  induction spare with
  | zero =>
    intro f args p
    rw [call]
    exact .bind (.of_made (made_checkArity ctx p f args)) fun _ => .of_store_eq fun _ => rfl
  | succ spare ih =>
    intro f args p
    rw [call, openCall]
    simp only [bind_assoc, pure_bind]
    refine .bind (.of_made (made_checkArity ctx p f args)) fun _ => ?_
    refine .opened .function f.scope fun scope => ?_
    have hscope : scope ∈ insert scope (∅ : Set ScopeId) := Set.mem_insert scope ∅
    have hbody : Keeping (insert scope ∅) (block ctx (call ctx spare) scope .empty f.body) :=
      (declares_block ih scope .empty f.body).keeping.mono (Set.singleton_subset_iff.mpr hscope)
    refine .bind (.of_made (made_bindParams ctx p hscope f.name f.params args)) fun _ => ?_
    refine .bind (.inFrame (.bind (.of_made (made_note ctx _)) fun _ => hbody) f.name) fun c => ?_
    exact (keeping_resultOf f p c).mono (Set.empty_subset _)

end Evaluator

/-- Runs a statement of a program, which is noted first. -/
def noted (ctx : Context) (s : Stmt) : Eval Completion := do
  Machine.note ctx fun _ => .statement s.kindName s.position.line
  stmt ctx (invoke ctx) ctx.global s

/-- A program runs its first statement, and then the rest unless that one returns. -/
theorem program_cons (ctx : Context) (last : Option Value) (s : Stmt) (rest : Program) :
    program ctx last (s :: rest) = noted ctx s >>= fun c => match c with
      | .returning v => pure (some v)
      | .value v => program ctx (some v) rest
      | .empty => program ctx none rest := by
  rw [noted, bind_assoc]
  rfl

/-- A statement of a program declares its own name in the outermost scope: noting it declares
nothing. -/
theorem declares_noted (ctx : Context) (s : Stmt) :
    Declares ctx.global s.declared?.toList (noted ctx s) :=
  .keeping_bind (.of_made (made_note ctx _)) fun _ =>
    declares_stmt (quiet_call ctx ctx.limit) ctx.global s

/-- A program declares in the outermost scope names that its statements declare, and nothing
else. -/
theorem declares_program (ctx : Context) (last : Option Value) (p : Program) :
    DeclaresSome ctx.global (p.filterMap Stmt.declared?) (program ctx last p) := by
  induction p generalizing last with
  | nil => exact .pure last
  | cons s rest ih =>
    rw [program_cons, Stmt.declared_cons]
    refine (declares_noted ctx s).bind_some fun c => ?_
    cases c with
    | returning v => exact .pure _
    | value v => exact ih (some v)
    | empty => exact ih none

end Eval

namespace Session

open Machine (after)

/-- Declarations are local, on every machine and however many calls are to spare. Expressions and
calls declare nothing in any scope from before. A statement that succeeds declares its own name, if
it has one, in the scope that it runs in; one that stops declares nothing. A block declares in its
scope some of the names that its own statements declare, and a program does so in the outermost
scope. -/
theorem declarations_local (ctx : Context) (spare : Nat) (m : Machine) :
    (∀ scope e, m.store.Keeps ∅ (after (Eval.expr ctx (Eval.call ctx spare) scope e) m).store) ∧
    (∀ f args p, m.store.Keeps ∅ (after (Eval.call ctx spare f args p) m).store) ∧
    (∀ scope s c n, Eval.stmt ctx (Eval.call ctx spare) scope s m = .ok c n →
      m.store.Adds scope s.declared?.toList n.store) ∧
    (∀ scope s stop n, Eval.stmt ctx (Eval.call ctx spare) scope s m = .error stop n →
      m.store.Keeps ∅ n.store) ∧
    (∀ scope last ss, ∃ names, names <+: ss.filterMap Stmt.declared? ∧
      m.store.Adds scope names
        (after (Eval.block ctx (Eval.call ctx spare) scope last ss) m).store) ∧
    (∀ last p, ∃ names, names <+: p.filterMap Stmt.declared? ∧
      m.store.Adds ctx.global names (after (Eval.program ctx last p) m).store) ∧
    ∀ (s : Session) p, ∃ names, names <+: p.filterMap Stmt.declared? ∧
      s.machine.store.Adds s.global names (s.run p).2.machine.store := by
  have hi := Eval.quiet_call ctx spare
  have hstmts (scope : ScopeId) (s : Stmt) : Eval.Declares scope s.declared?.toList
      (Eval.stmt ctx (Eval.call ctx spare) scope s) := Eval.declares_stmt hi scope s
  refine ⟨?_, ?_, ?_, ?_, ?_, ?_, ?_⟩
  · intro scope e
    exact Eval.keeping_expr hi scope e m
  · intro f args p
    exact hi f args p m
  · intro scope s c n hok
    have hstmt := hstmts scope s m
    rw [hok] at hstmt
    exact hstmt
  · intro scope s stop n herror
    have hstmt := hstmts scope s m
    rw [herror] at hstmt
    exact hstmt
  · intro scope last ss
    exact Eval.declares_block hi scope last ss m
  · intro last p
    exact Eval.declares_program ctx last p m
  · intro s p
    rw [run_eq]
    exact Eval.declares_program s.context none p s.machine

/-- A name that is declared in a block of a choice is declared in the scope of the block only. -/
theorem declarations_local_branch :
    let s := new ⟨2, .plain, 0, false, false⟩
    let branch : Stmt := .branch .start (.bool .start true)
      [.declare .start false "x" none (.int .start 1)] none
    ∃ c n, Eval.stmt s.context (Eval.call s.context 2) s.global branch s.machine = .ok c n ∧
      s.machine.store.Adds s.global [] n.store ∧ n.store.declared 1 = ["x"] := by
  intro s branch
  obtain ⟨-, -, hstmt, -⟩ := declarations_local s.context 2 s.machine
  have hok : Eval.stmt s.context (Eval.call s.context 2) s.global branch s.machine =
      .ok .empty { s.machine with
        store := ((s.machine.store.openScope .branch 0).2.define 1 ⟨"x", .int 1, .int, true⟩).2 } :=
    rfl
  exact ⟨_, _, hok, hstmt s.global branch _ _ hok, rfl⟩

end Session

end TagScript
