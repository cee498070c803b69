import TagScript.Proofs.Machine.Changes
import TagScript.Proofs.Steps.Basic

/-!
# The Steps Do What the Evaluator Computes

The evaluator and the steps agree: from the start of a program, the steps come to the end that the
evaluator computes, with the same machine (`steps_program`). The evaluator hands down how many more
calls may become active, the steps count the active calls; the two agree because every computation
leaves the active calls as it found them.

`Does` says this of one computation, in front of any frames that wait for it. It is proved for each
function of the evaluator by the recursion of that function, and put together by a few rules.
-/

namespace TagScript.Steps

open Eval (Completion Changing)
open Machine (after)

variable {ctx : Context} {depth : Nat} {α β : Type}

/-- The moment at which a computation has ended, with `k` waiting for it. -/
def State.ofResult (inject : α → Control) (k : List Frame) :
    EStateM.Result Stop Machine α → State
  | .ok a m => ⟨inject a, k, m⟩
  | .error s m => ⟨.stopped s, k, m⟩

/-- From `start`, the steps do the computation `x` while `depth` calls are active. They end with the
same active calls, and are stopped only in a possible way. -/
def Does (ctx : Context) (depth : Nat) (start : List Frame → Machine → State) (x : Eval α)
    (inject : α → Control) : Prop :=
  ∀ k m, m.frames.length = depth →
    Reaches ctx (start k m) (.ofResult inject k (x m)) ∧ (after x m).frames = m.frames ∧
      ∀ s n, x m = .error s n → s.Possible ctx

/-- An operation that succeeds goes on with its result. -/
theorem proceed_ok {x : Eval α} {k : List Frame} {m m' : Machine} {a : α}
    {next : α → Machine → State} (h : x m = .ok a m') : proceed x k m next = next a m' := by
  rw [proceed, h]

/-- An operation that stops leaves the rest undone. -/
theorem proceed_error {x : Eval α} {k : List Frame} {m m' : Machine} {s : Stop}
    {next : α → Machine → State} (h : x m = .error s m') :
    proceed x k m next = ⟨.stopped s, k, m'⟩ := by
  rw [proceed, h]

/-- Two operations in a row are one. -/
theorem proceed_bind (x : Eval α) (f : α → Eval β) (k : List Frame) (m : Machine)
    (next : β → Machine → State) :
    proceed (x >>= f) k m next = proceed x k m fun a m => proceed (f a) k m next := by
  unfold proceed
  rw [Eval.bind_apply]
  cases x m <;> rfl

/-- An operation with nothing behind it gives the state that its result is injected into. -/
theorem proceed_eq_ofResult (x : Eval α) (inject : α → Control) (k : List Frame) (m : Machine) :
    (proceed x k m fun a m => ⟨inject a, k, m⟩) = .ofResult inject k (x m) := by
  unfold proceed State.ofResult
  cases x m <;> rfl

/-- An operation on the machine leaves the active calls alone. -/
theorem frames_after {x : Eval α} (hx : Changing ctx x) (m : Machine) :
    (after x m).frames = m.frames :=
  (hx.changes m).frames_eq

namespace Does

variable {start start' : List Frame → Machine → State} {x : Eval α} {f : α → Eval β}
  {inject : α → Control} {inject' : β → Control}

/-- A first step that leads to a start. -/
theorem of_step (hs : ∀ k m, step ctx (start k m) = some (start' k m))
    (h : Does ctx depth start' x inject) : Does ctx depth start x inject := by
  intro k m hm
  obtain ⟨hsteps, hkept⟩ := h k m hm
  exact ⟨.head (hs k m) hsteps, hkept⟩

/-- A computation that is one operation on the machine. -/
theorem of_changing (hx : Changing ctx x)
    (hs : ∀ k m, step ctx (start k m) = some (proceed x k m fun a m => ⟨inject a, k, m⟩)) :
    Does ctx depth start x inject := by
  intro k m _
  refine ⟨.single ?_, frames_after hx m, hx.stops m⟩
  rw [hs, proceed_eq_ofResult]

/-- An operation on the machine, and another computation after it. -/
theorem changing_bind {next : α → List Frame → Machine → State} (hx : Changing ctx x)
    (hs : ∀ k m, m.frames.length = depth →
      step ctx (start k m) = some (proceed x k m fun a m => next a k m))
    (hf : ∀ a, Does ctx depth (next a) (f a) inject') :
    Does ctx depth start (x >>= f) inject' := by
  -- after the operation the active calls are the same, so that the rest is done at this depth too
  intro k m hm
  have hframes := frames_after hx m
  have hstep := hs k m hm
  unfold after at hframes ⊢
  rw [Eval.bind_apply]
  cases hr : x m with
  | ok a n =>
    rw [hr] at hframes
    rw [proceed_ok hr] at hstep
    obtain ⟨hsteps, hkept, hstops⟩ := hf a k n (by rw [hframes, hm])
    exact ⟨.head hstep hsteps, hkept.trans hframes, hstops⟩
  | error s n =>
    rw [hr] at hframes
    rw [proceed_error hr] at hstep
    refine ⟨.single hstep, hframes, ?_⟩
    rintro _ _ ⟨⟩
    exact hx.stops m s n hr

/-- A computation that a frame waits for, and what the frame does with its result. -/
theorem bind {c : Control} {frame : Frame}
    (hx : Does ctx depth (fun k m => ⟨c, k, m⟩) x inject)
    (hu : ∀ s k m, unwind s k m frame = ⟨.stopped s, k, m⟩)
    (hf : ∀ a, Does ctx depth (fun k m => ⟨inject a, frame :: k, m⟩) (f a) inject') :
    Does ctx depth (fun k m => ⟨c, frame :: k, m⟩) (x >>= f) inject' := by
  intro k m hm
  obtain ⟨hsteps, hframes, hstops⟩ := hx (frame :: k) m hm
  unfold after at hframes ⊢
  rw [Eval.bind_apply]
  cases hr : x m with
  | ok a n =>
    rw [hr] at hframes hsteps
    obtain ⟨hmore, hkept, hmoreStops⟩ := hf a k n (by rw [hframes, hm])
    exact ⟨hsteps.trans hmore, hkept.trans hframes, hmoreStops⟩
  | error s n =>
    rw [hr] at hframes hsteps
    -- the frame lets the stop through in one step
    refine ⟨hsteps.tail ?_, hframes, ?_⟩
    · change some (unwind s k n frame) = _
      rw [hu]
      rfl
    · rintro _ _ ⟨⟩
      exact hstops s n hr

/-- Nothing is left to compute. -/
theorem pure (a : α) : Does ctx depth (fun k m => ⟨inject a, k, m⟩) (Pure.pure a) inject :=
  fun _ _ _ => ⟨.refl, rfl, by rintro _ _ ⟨⟩⟩

end Does

/-- How the steps call declared functions while `depth` calls are active. -/
def Invokes (ctx : Context) (depth : Nat) (invoke : Eval.Invoke) : Prop :=
  ∀ f args p, Does ctx depth (fun k m => ⟨.apply p (.function f) args, k, m⟩) (invoke f args p)
    .value

section Expressions

variable {invoke : Eval.Invoke}

/-- A call in small steps does what the evaluator does in one. -/
theorem does_callValue (hi : Invokes ctx depth invoke) (p : Position) (callee : Value)
    (args : List Arg) :
    Does ctx depth (fun k m => ⟨.apply p callee args, k, m⟩)
      (Eval.callValue ctx invoke p callee args) .value := by
  cases callee with
  | function f => exact hi f args p
  | builtin b => exact .of_changing (Eval.changing_callBuiltin ctx p b args) fun _ _ => rfl
  | _ => exact .of_changing (.fail _ _) fun _ _ => rfl

mutual

/-- Evaluating an expression. -/
theorem does_expr (hi : Invokes ctx depth invoke) (scope : ScopeId) (e : Expr) :
    Does ctx depth (fun k m => ⟨.expr scope e, k, m⟩) (Eval.expr ctx invoke scope e) .value := by
  cases e with
  | int p n => exact .of_step (fun _ _ => rfl) (.pure _)
  | float p x => exact .of_step (fun _ _ => rfl) (.pure _)
  | string p s => exact .of_step (fun _ _ => rfl) (.pure _)
  | bool p b => exact .of_step (fun _ _ => rfl) (.pure _)
  | null p => exact .of_step (fun _ _ => rfl) (.pure _)
  | array p es =>
    rw [Eval.expr]
    exact .of_step (fun _ _ => rfl) (does_items hi scope none [] es)
  | name p x =>
    rw [Eval.expr]
    exact .changing_bind (Eval.changing_bindingOf ctx scope p x) (fun _ _ _ => rfl) fun b => .pure _
  | assign p x e =>
    rw [Eval.expr]
    refine .changing_bind (Eval.changing_requireDeclared ctx scope p x) (fun _ _ _ => rfl)
      fun _ => ?_
    refine .bind (does_expr hi scope e) (fun _ _ _ => rfl) fun v => ?_
    exact .changing_bind (Eval.changing_assignValue ctx scope p x _ v) (fun _ _ _ => rfl) fun _ =>
      .pure _
  | call p callee es =>
    rw [Eval.expr]
    refine .of_step (fun _ _ => rfl)
      (.bind (does_expr hi scope callee) (fun _ _ _ => rfl) fun f => ?_)
    refine .changing_bind (Eval.changing_checkCallable ctx _ f) (fun _ _ _ => rfl) fun _ => ?_
    exact does_args hi scope p f [] es
  | binary p l op r =>
    rw [Eval.expr]
    refine .of_step (fun _ _ => rfl) (.bind (does_expr hi scope l) (fun _ _ _ => rfl) fun v => ?_)
    refine .of_step (fun _ _ => rfl) (.bind (does_expr hi scope r) (fun _ _ _ => rfl) fun w => ?_)
    exact .of_changing (Eval.changing_accept ctx p fun _ => Eval.fault_binary) fun _ _ => rfl
  | unary p op r =>
    rw [Eval.expr]
    refine .of_step (fun _ _ => rfl) (.bind (does_expr hi scope r) (fun _ _ _ => rfl) fun v => ?_)
    exact .of_changing (Eval.changing_accept ctx p fun _ h => absurd h Eval.fault_unary)
      fun _ _ => rfl
  | step p l op =>
    rw [Eval.expr]
    refine .of_step (fun _ _ => rfl) (.bind (does_expr hi scope l) (fun _ _ _ => rfl) fun v => ?_)
    exact .of_changing (Eval.changing_accept ctx p fun _ h => absurd h Eval.fault_step)
      fun _ _ => rfl

/-- Evaluating the other items of an array literal. -/
theorem does_items (hi : Invokes ctx depth invoke) (scope : ScopeId) (elem : Option Tag)
    (done : List Value) (es : List Expr) :
    Does ctx depth (fun k m => ⟨.items scope elem done es, k, m⟩)
      (do
        let (tag, vs) ← Eval.items ctx invoke scope elem es
        return .array tag (done ++ vs))
      .value := by
  cases es with
  | nil =>
    rw [Eval.items, pure_bind]
    simp only [List.append_nil]
    exact .of_step (fun _ _ => rfl) (.pure _)
  | cons e rest =>
    rw [Eval.items]
    simp only [bind_assoc, pure_bind]
    refine .of_step (fun _ _ => rfl) (.bind (does_expr hi scope e) (fun _ _ _ => rfl) fun v => ?_)
    refine .changing_bind (Eval.changing_checkItem ctx _ _ v) (fun _ _ _ => rfl) fun _ => ?_
    -- the first item fixes the tag that all the others are checked against
    have h := does_items hi scope (some (elem.getD v.tag)) (done ++ [v]) rest
    simpa only [List.append_assoc, List.cons_append, List.nil_append] using h

/-- Evaluating the other arguments of a call, and calling the function. -/
theorem does_args (hi : Invokes ctx depth invoke) (scope : ScopeId) (p : Position)
    (callee : Value) (done : List Arg) (es : List Expr) :
    Does ctx depth (fun k m => ⟨.args scope p callee done es, k, m⟩)
      (do
        let args ← Eval.args ctx invoke scope es
        Eval.callValue ctx invoke p callee (done ++ args))
      .value := by
  cases es with
  | nil =>
    rw [Eval.args, pure_bind, List.append_nil]
    exact .of_step (fun _ _ => rfl) (does_callValue hi p callee done)
  | cons e rest =>
    have hrest (a : Arg) := does_args hi scope p callee (done ++ [a]) rest
    simp only [List.append_assoc, List.cons_append, List.nil_append] at hrest
    -- a name is looked up in the step that takes the argument; every other argument is evaluated
    cases e with
    | name q x =>
      rw [Eval.args]
      simp only [bind_assoc, pure_bind]
      exact .changing_bind (Eval.changing_bindingOf ctx scope q x) (fun _ _ _ => rfl) fun b =>
        hrest ⟨b.value, b.tag⟩
    | _ =>
      rw [Eval.args]
      · simp only [bind_assoc, pure_bind]
        exact .of_step (fun _ _ => rfl) (.bind (does_expr hi scope _) (fun _ _ _ => rfl) fun v =>
          .of_step (fun _ _ => rfl) (hrest ⟨v, v.tag⟩))
      · intro q x h
        cases h

end

end Expressions

section Statements

variable {invoke : Eval.Invoke}

/-- Running a block of a choice in a scope of its own. -/
theorem does_startBranch (scope : ScopeId) {body : List Stmt}
    {start : List Frame → Machine → State}
    (hb : ∀ inner, Does ctx depth (fun k m => ⟨.block inner .empty body, k, m⟩)
      (Eval.block ctx invoke inner .empty body) .completed)
    (hs : ∀ k m, step ctx (start k m) = some (startBranch scope k m (some body))) :
    Does ctx depth start
      (do
        let inner ← Machine.openScope .branch scope
        Eval.block ctx invoke inner .empty body)
      .completed := by
  have hstep (k : List Frame) (m : Machine) (_ : m.frames.length = depth) :
      step ctx (start k m) = some (proceed (Machine.openScope .branch scope) k m fun inner m =>
        ⟨.block inner .empty body, k, m⟩) := hs k m
  exact .changing_bind (Eval.changing_openScope .branch scope) hstep hb

/-- To open a loop is to open a scope and to bind the cursor. -/
theorem changing_openLoop (scope : ScopeId) (cursor : String) (rangeAt : Position) (v : Value) :
    Changing ctx (openLoop ctx scope cursor rangeAt v) :=
  .bind (Eval.changing_loopRange ctx rangeAt v) fun _ =>
    .bind (Eval.changing_openScope .loop scope) fun outer =>
      .bind (Eval.changing_define outer _) fun _ => .pure _

/-- The step into a loop. -/
theorem step_loop (scope : ScopeId) (cursor : String) (rangeAt : Position) (body : List Stmt)
    (v : Value) (k : List Frame) (m : Machine) :
    step ctx ⟨.value v, .loop scope cursor rangeAt body :: k, m⟩ =
      some (proceed (openLoop ctx scope cursor rangeAt v) k m fun opened m =>
        ⟨.passes opened.1 cursor opened.2.step body opened.2.length.toNat, k, m⟩) := rfl

/-- The step into one more pass. -/
theorem step_passes (outer : ScopeId) (cursor : String) (stride : Int64) (body : List Stmt)
    (n : Nat) (k : List Frame) (m : Machine) :
    step ctx ⟨.passes outer cursor stride body (n + 1), k, m⟩ =
      some (proceed (Machine.openScope .block outer) k m fun inner m =>
        ⟨.block inner .empty body, .pass outer cursor stride body n :: k, m⟩) := rfl

/-- Running the other passes of a loop. -/
theorem does_passes {outer : ScopeId} {cursor : String} {stride : Int64} {body : List Stmt}
    (hb : ∀ inner, Does ctx depth (fun k m => ⟨.block inner .empty body, k, m⟩)
      (Eval.block ctx invoke inner .empty body) .completed) (n : Nat) :
    Does ctx depth (fun k m => ⟨.passes outer cursor stride body n, k, m⟩)
      (Eval.passes n do
        let inner ← Machine.openScope .block outer
        let c ← Eval.block ctx invoke inner .empty body
        Eval.endPass outer cursor stride c)
      .completed := by
  induction n with
  | zero => exact .of_step (fun _ _ => rfl) (.pure _)
  | succ n ih =>
    rw [Eval.passes]
    simp only [bind_assoc]
    refine .changing_bind (Eval.changing_openScope .block outer)
      (fun k m _ => step_passes outer cursor stride body n k m) fun inner => ?_
    refine .bind (hb inner) (fun _ _ _ => rfl) fun c => ?_
    cases c with
    | returning v => exact .of_step (fun _ _ => rfl) (.pure _)
    | _ =>
      simp only [Eval.endPass, bind_assoc, pure_bind]
      exact .changing_bind (Eval.changing_moveCursor outer cursor stride) (fun _ _ _ => rfl)
        fun _ => ih

mutual

/-- Running a statement. -/
theorem does_stmt (hi : Invokes ctx depth invoke) (scope : ScopeId) (s : Stmt) :
    Does ctx depth (fun k m => ⟨.stmt scope s, k, m⟩) (Eval.stmt ctx invoke scope s)
      .completed := by
  cases s with
  | declare p constant x type e =>
    rw [Eval.stmt]
    refine .of_step (fun _ _ => rfl) (.bind (does_expr hi scope e) (fun _ _ _ => rfl) fun v => ?_)
    exact .changing_bind (Eval.changing_declareValue ctx scope p constant x type _ v)
      (fun _ _ _ => rfl) fun _ => .pure _
  | function p x params returns body =>
    rw [Eval.stmt]
    exact .changing_bind (Eval.changing_declareFunction ctx scope p x params returns body)
      (fun _ _ _ => rfl) fun _ => .pure _
  | ret p value =>
    cases value with
    | none => exact .of_step (fun _ _ => rfl) (.pure _)
    | some e =>
      simp only [Eval.stmt]
      exact .of_step (fun _ _ => rfl) (.bind (does_expr hi scope e) (fun _ _ _ => rfl) fun v =>
        .of_step (fun _ _ => rfl) (.pure _))
  | expr p e =>
    rw [Eval.stmt]
    exact .of_step (fun _ _ => rfl) (.bind (does_expr hi scope e) (fun _ _ _ => rfl) fun v =>
      .of_step (fun _ _ => rfl) (.pure _))
  | branch p condition yes no =>
    cases no with
    | none =>
      rw [Eval.stmt]
      refine .of_step (fun _ _ => rfl)
        (.bind (does_expr hi scope condition) (fun _ _ _ => rfl) fun v => ?_)
      split
      next hv =>
        exact does_startBranch scope (fun inner => does_block hi inner .empty yes) fun _ _ => by
          rw [step, resume, if_pos hv]
      next hv => exact .of_step (fun _ _ => by rw [step, resume, if_neg hv]; rfl) (.pure _)
    | some no =>
      rw [Eval.stmt]
      refine .of_step (fun _ _ => rfl)
        (.bind (does_expr hi scope condition) (fun _ _ _ => rfl) fun v => ?_)
      split
      next hv =>
        exact does_startBranch scope (fun inner => does_block hi inner .empty yes) fun _ _ => by
          rw [step, resume, if_pos hv]
      next hv =>
        exact does_startBranch scope (fun inner => does_block hi inner .empty no) fun _ _ => by
          rw [step, resume, if_neg hv]
  | loop p cursor e body =>
    rw [Eval.stmt]
    refine .of_step (fun _ _ => rfl) (.bind (does_expr hi scope e) (fun _ _ _ => rfl) fun v => ?_)
    -- what the evaluator does in three operations is one step into the loop
    have h := Does.changing_bind (changing_openLoop scope cursor e.position v)
      (fun k m _ => step_loop scope cursor e.position body v k m)
      fun opened => does_passes (fun inner => does_block hi inner .empty body) _
    simpa only [openLoop, bind_assoc, pure_bind] using h

/-- Running the other statements of a block. -/
theorem does_block (hi : Invokes ctx depth invoke) (scope : ScopeId) (last : Completion)
    (ss : List Stmt) :
    Does ctx depth (fun k m => ⟨.block scope last ss, k, m⟩) (Eval.block ctx invoke scope last ss)
      .completed := by
  cases ss with
  | nil =>
    rw [Eval.block]
    exact .of_step (fun _ _ => rfl) (.pure _)
  | cons s rest =>
    rw [Eval.block]
    refine .of_step (fun _ _ => rfl) (.bind (does_stmt hi scope s) (fun _ _ _ => rfl) fun c => ?_)
    cases c with
    | returning v => exact .of_step (fun _ _ => rfl) (.pure _)
    | empty => exact .of_step (fun _ _ => rfl) (does_block hi scope .empty rest)
    | value v => exact .of_step (fun _ _ => rfl) (does_block hi scope (.value v) rest)

end

end Statements

section Calls

variable (f : Closure) (args : List Arg) (p : Position)

/-- What a stop is outside the call of a function. -/
def Stop.outside (function : String) : Stop → Stop
  | .error e => .error (e.unwind function)
  | s => s

/-- A stop that passes through a function stays possible. -/
theorem possible_outside {function : String} {s : Stop} (h : s.Possible ctx) :
    (Stop.outside function s).Possible ctx := by
  cases s with
  | error e => trivial
  | _ => exact h

/-- A function is active while its body runs, and the error of the body passes through it. -/
theorem inFrame_apply (function : String) (x : Eval α) (m : Machine) :
    Machine.inFrame function x m =
      match x { m with frames := function :: m.frames } with
      | .ok a m => .ok a { m with frames := m.frames.tail }
      | .error s m => .error (Stop.outside function s) { m with frames := m.frames.tail } := by
  -- only an error is told about the call it leaves
  unfold Machine.inFrame
  rcases x { m with frames := function :: m.frames } with ⟨a, n⟩ | ⟨s, n⟩
  · rfl
  · cases s <;> rfl

/-- A stop that comes to a call passes through the function, which is left. -/
theorem unwind_body (s : Stop) (k : List Frame) (m : Machine) :
    unwind s k m (.body f p) =
      ⟨.stopped (Stop.outside f.name s), k, { m with frames := m.frames.tail }⟩ := by
  cases s <;> rfl

/-- A note never stops a run. -/
theorem noteCall_apply (scope : ScopeId) (m : Machine) :
    Eval.noteCall ctx f scope m = .ok () (after (Eval.noteCall ctx f scope) m) := by
  unfold after Eval.noteCall Machine.note
  split <;> rfl

/-- The machine on which the body of a function starts. -/
def entered (ctx : Context) (f : Closure) (scope : ScopeId) (m : Machine) : Machine :=
  after (Eval.noteCall ctx f scope) { m with frames := f.name :: m.frames }

/-- The function is the innermost active one once it has been entered. -/
theorem entered_frames (ctx : Context) (scope : ScopeId) (m : Machine) :
    (entered ctx f scope m).frames = f.name :: m.frames :=
  frames_after (Eval.changing_noteCall ctx scope f) _

/-- The body of a function runs on the machine on which the call has been entered. -/
theorem inFrame_entered (scope : ScopeId) (x : Eval α) (m : Machine) :
    Machine.inFrame f.name (do Eval.noteCall ctx f scope; x) m =
      match x (entered ctx f scope m) with
      | .ok a m => .ok a { m with frames := m.frames.tail }
      | .error s m => .error (Stop.outside f.name s) { m with frames := m.frames.tail } := by
  rw [inFrame_apply, Eval.bind_apply, noteCall_apply]
  rfl

/-- The body of a function runs as an active call, and its result is checked outside the call. -/
theorem does_body {scope : ScopeId} {x : Eval Completion}
    (hx : Does ctx (depth + 1) (fun k m => ⟨.block scope .empty f.body, k, m⟩) x .completed) :
    Does ctx depth
      (fun k m => ⟨.block scope .empty f.body, .body f p :: k, entered ctx f scope m⟩)
      (do
        let c ← Machine.inFrame f.name do
          Eval.noteCall ctx f scope
          x
        Eval.resultOf ctx f p c)
      .value := by
  intro k m hm
  have hentered := entered_frames f ctx scope m
  obtain ⟨hsteps, hframes, hstops⟩ :=
    hx (.body f p :: k) (entered ctx f scope m) (by simp [hentered, hm])
  rw [hentered] at hframes
  unfold after at hframes ⊢
  rw [Eval.bind_apply, inFrame_entered]
  -- however the body ends, its call is no longer active and the frame is gone
  cases hr : x (entered ctx f scope m) with
  | ok c n =>
    rw [hr] at hsteps hframes
    have hresult := Eval.changing_resultOf ctx p f c
    have hkept := frames_after hresult { n with frames := n.frames.tail }
    refine ⟨hsteps.tail ?_, hkept.trans (congrArg List.tail hframes), hresult.stops _⟩
    rw [← proceed_eq_ofResult]
    rfl
  | error s n =>
    rw [hr] at hsteps hframes
    refine ⟨hsteps.tail ?_, congrArg List.tail hframes, ?_⟩
    · exact congrArg some (unwind_body f p s k n)
    · rintro _ _ ⟨⟩
      exact possible_outside (hstops s n hr)

/-- A call needs as many arguments as the function has parameters. -/
theorem checkArity_apply (ctx : Context) (m : Machine) :
    Eval.checkArity ctx f args p m =
      if args.length ≠ f.params.length then
        .error (.error (ctx.errorAt p (.arity f.name f.params.length args.length))) m
      else .ok () m := by
  unfold Eval.checkArity
  split <;> rfl

/-- A call needs room below the limit. -/
theorem checkDepth_apply (m : Machine) :
    checkDepth ctx p m =
      if ctx.limit ≤ m.frames.length then .error (.error (ctx.errorAt p (.depth ctx.limit))) m
      else .ok () m := by
  unfold checkDepth
  change (if _ then _ else _ : Eval Unit) m = _
  split <;> rfl

/-- Where one more call may become active, entering a function is checking and binding its
arguments. -/
theorem proceed_enter {k : List Frame} {m : Machine} {next : ScopeId → Machine → State}
    (hm : m.frames.length < ctx.limit) :
    proceed (enter ctx f args p) k m next =
      proceed (do Eval.checkArity ctx f args p; Eval.openCall ctx f args p) k m
        fun scope m => next scope (entered ctx f scope m) := by
  -- making the call active and noting it cannot stop
  have hbody (scope : ScopeId) (n : Machine) :
      proceed (do pushFrame f.name; Eval.noteCall ctx f scope; return scope) k n next =
        next scope (entered ctx f scope n) := by
    have hpush : pushFrame f.name n = .ok () { n with frames := f.name :: n.frames } := rfl
    rw [proceed_bind, proceed_ok hpush, proceed_bind, proceed_ok (noteCall_apply f scope _)]
    rfl
  have hdepth : checkDepth ctx p m = .ok () m := by
    rw [checkDepth_apply, if_neg (by omega)]
  rw [enter, proceed_bind, proceed_bind]
  -- the number of arguments is checked first on both sides
  by_cases ha : args.length ≠ f.params.length
  · have harity := checkArity_apply f args p ctx m
    rw [if_pos ha] at harity
    rw [proceed_error harity, proceed_error harity]
  · have harity := checkArity_apply f args p ctx m
    rw [if_neg ha] at harity
    rw [proceed_ok harity, proceed_ok harity, proceed_bind, proceed_ok hdepth, proceed_bind]
    simp only [hbody]

/-- Where no more call may become active, entering a function fails. -/
theorem proceed_enter_full {k : List Frame} {m : Machine} {next : ScopeId → Machine → State}
    {next' : Value → Machine → State} (hm : ctx.limit ≤ m.frames.length) :
    proceed (enter ctx f args p) k m next =
      proceed (do Eval.checkArity ctx f args p; ctx.fail p (.depth ctx.limit)) k m next' := by
  have hdepth : checkDepth ctx p m = .error (.error (ctx.errorAt p (.depth ctx.limit))) m := by
    rw [checkDepth_apply, if_pos hm]
  rw [enter, proceed_bind, proceed_bind]
  by_cases ha : args.length ≠ f.params.length
  · have harity := checkArity_apply f args p ctx m
    rw [if_pos ha] at harity
    rw [proceed_error harity, proceed_error harity]
  · have harity := checkArity_apply f args p ctx m
    rw [if_neg ha] at harity
    rw [proceed_ok harity, proceed_ok harity, proceed_bind, proceed_error hdepth]
    rfl

/-- Calling a declared function when `spare` more calls may become active. -/
theorem invokes_call (spare : Nat) (h : depth + spare = ctx.limit) :
    Invokes ctx depth (Eval.call ctx spare) := by
  -- inside the body one more call is active and one fewer may become so
  induction spare generalizing depth with
  | zero =>
    intro f args p k m hm
    have hx : Changing ctx
        (do Eval.checkArity ctx f args p; ctx.fail p (.depth ctx.limit) : Eval Value) :=
      .bind (Eval.changing_checkArity ctx p f args) fun _ => .fail _ _
    rw [Eval.call]
    refine ⟨.single ?_, frames_after hx m, hx.stops m⟩
    rw [← proceed_eq_ofResult]
    exact congrArg some (proceed_enter_full f args p (by omega))
  | succ spare ih =>
    intro f args p
    rw [Eval.call]
    rw [← bind_assoc]
    refine .changing_bind (.bind (Eval.changing_checkArity ctx p f args) fun _ =>
      Eval.changing_openCall ctx p f args) (fun k m hm => ?_) fun scope =>
        does_body f p (does_block (ih (by omega)) scope .empty f.body)
    exact congrArg some (proceed_enter f args p (by omega))

end Calls

/-- Running the other statements of a program on a machine without active calls. -/
theorem does_program (last : Option Value) (p : Program) :
    Does ctx 0 (fun k m => ⟨.program last p, k, m⟩) (Eval.program ctx last p) .finished := by
  -- between the statements no call is active, so all calls of the limit are to spare
  have hi : Invokes ctx 0 (Eval.invoke ctx) := invokes_call ctx.limit (Nat.zero_add _)
  induction p generalizing last with
  | nil => exact .of_step (fun _ _ => rfl) (.pure _)
  | cons s rest ih =>
    rw [Eval.program]
    refine .changing_bind (Eval.changing_note ctx _) (fun _ _ _ => rfl) fun _ => ?_
    refine .bind (does_stmt hi ctx.global s) (fun _ _ _ => rfl) fun c => ?_
    cases c with
    | returning v => exact .of_step (fun _ _ => rfl) (.pure _)
    | value v => exact .of_step (fun _ _ => rfl) (ih (some v))
    | empty => exact .of_step (fun _ _ => rfl) (ih none)

/-- From its start, a program comes to the end that the evaluator computes. The active calls are as
they were, and a program is stopped only in a possible way. -/
theorem steps_program (p : Program) {m : Machine} (hm : m.frames = []) :
    Reaches ctx (.start p m) (.ofResult .finished [] (Eval.program ctx none p m)) ∧
      (after (Eval.program ctx none p) m).frames = [] ∧
      ∀ s n, Eval.program ctx none p m = .error s n → s.Possible ctx := by
  obtain ⟨hsteps, hframes, hstops⟩ := does_program none p [] m (by rw [hm]; rfl)
  exact ⟨hsteps, hframes.trans hm, hstops⟩

end TagScript.Steps
