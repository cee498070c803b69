import TagScript.Proofs.Machine.Made
import TagScript.Proofs.Steps.Simulation

/-!
# Active Calls and Errors, Step by Step

What one step does to the active calls, and how an error comes up in it, is said once
(`CallStep`, `step_calls`): a step leaves the active calls alone, enters a function while the limit
leaves room for it, or leaves the innermost one. Two facts about whole runs follow.

* The active calls of the machine are the calls that wait on the stack, in front of those from
  before the run, and they are never more than the limit (`State.Counted`).
* A run that is stopped passes through every call on the stack, and an error takes their names
  along in this order (`steps_unwind`).
-/

namespace TagScript

/-- How many more calls may become active on a machine. -/
def Machine.spare (ctx : Context) (m : Machine) : Nat :=
  ctx.limit - m.frames.length

namespace Steps

open Eval (Completion Changing Made)
open Machine (after)

variable {ctx : Context} {α : Type}

/-- The function whose body a frame waits for. -/
def Frame.call? : Frame → Option String
  | .body f _ => some f.name
  | _ => none

/-- The functions whose bodies are waited for, innermost first. -/
def activeCalls (k : List Frame) : List String :=
  k.filterMap Frame.call?

/-- What the step from `c` to `d` does to the active calls, and where an error at `d` comes from. -/
inductive CallStep (ctx : Context) (c d : State) : Prop
  /-- The active calls stay. An error is the one from before or has just been raised; if it is about
  the limit, no more call may become active. -/
  | stay (frames : d.machine.frames = c.machine.frames)
      (calls : activeCalls d.stack = activeCalls c.stack)
      (error : ∀ e, d.control = .stopped (.error e) → c.control = .stopped (.error e) ∨ e.Plain ∨
        e.stack = [] ∧ e.cause = .depth ctx.limit ∧ ctx.limit ≤ c.machine.frames.length) :
      CallStep ctx c d
  /-- The function `f` is entered, and the limit allows it. -/
  | enter (f : String) (room : c.machine.frames.length < ctx.limit)
      (frames : d.machine.frames = f :: c.machine.frames)
      (calls : activeCalls d.stack = f :: activeCalls c.stack)
      (running : ∀ s, d.control ≠ .stopped s) : CallStep ctx c d
  /-- The function `f` is left. An error passes through it, or is about the type of its result. -/
  | leave (f : String) (frames : d.machine.frames = c.machine.frames.tail)
      (calls : activeCalls c.stack = f :: activeCalls d.stack)
      (error : ∀ e, d.control = .stopped (.error e) →
        (∃ e', c.control = .stopped (.error e') ∧ e = e'.unwind f) ∨
        e.stack = [] ∧ ∃ want got, e.cause = .returnMismatch f want got) : CallStep ctx c d

section Parts

variable {c : State} {k : List Frame} {m : Machine}

/-- A step that does not touch the machine and does not stop. -/
theorem CallStep.of_running {d : State} (hmachine : d.machine = c.machine)
    (hcalls : activeCalls d.stack = activeCalls c.stack)
    (hrunning : ∀ s, d.control ≠ .stopped s) : CallStep ctx c d := by
  refine .stay (congrArg Machine.frames hmachine) hcalls fun e he => ?_
  exact absurd he (hrunning _)

/-- A step that does one operation, and goes on with the same calls waiting where it succeeds. -/
theorem CallStep.proceed {x : Eval α} {next : α → Machine → State} (hx : Changing ctx x)
    (hmade : Made ctx Set.univ x) (hmachine : c.machine = m)
    (hcalls : activeCalls k = activeCalls c.stack)
    (hnext : ∀ a n, (next a n).machine = n ∧ activeCalls (next a n).stack = activeCalls k ∧
      ∀ s, (next a n).control ≠ .stopped s) :
    CallStep ctx c (proceed x k m next) := by
  have hframes := frames_after hx m
  unfold after at hframes
  unfold Steps.proceed
  cases hr : x m with
  | ok a n =>
    rw [hr] at hframes
    obtain ⟨hn, hk, hrunning⟩ := hnext a n
    refine .stay ?_ (hk.trans hcalls) fun e he => absurd he (hrunning _)
    show (next a n).machine.frames = c.machine.frames
    rw [hn, hframes, hmachine]
  | error s n =>
    rw [hr] at hframes
    refine .stay ?_ hcalls fun e he => ?_
    · show n.frames = c.machine.frames
      rw [hframes, hmachine]
    · -- the operation itself has raised the error
      cases he
      exact .inr (.inl (hmade.plain hr))

/-- An operation whose result is what is done next. -/
theorem CallStep.proceed_control {x : Eval α} {next : α → Control} (hx : Changing ctx x)
    (hmade : Made ctx Set.univ x) (hmachine : c.machine = m)
    (hcalls : activeCalls k = activeCalls c.stack)
    (hnext : ∀ a s, next a ≠ .stopped s) :
    CallStep ctx c (Steps.proceed x k m fun a m => ⟨next a, k, m⟩) :=
  .proceed hx hmade hmachine hcalls fun a _ => ⟨rfl, rfl, hnext a⟩

/-- A call of a declared function is entered, or fails before it is. -/
theorem callStep_enter (f : Closure) (args : List Arg) (p : Position) (hmachine : c.machine = m)
    (hcalls : activeCalls k = activeCalls c.stack) :
    CallStep ctx c (proceed (enter ctx f args p) k m fun scope m =>
      ⟨.block scope .empty f.body, .body f p :: k, m⟩) := by
  by_cases hroom : m.frames.length < ctx.limit
  · -- with room for the call, only its arguments are checked and bound
    have hx : Changing ctx (do Eval.checkArity ctx f args p; Eval.openCall ctx f args p) :=
      .bind (Eval.changing_checkArity ctx p f args) fun _ => Eval.changing_openCall ctx p f args
    have hmade : Made ctx ∅ (do Eval.checkArity ctx f args p; Eval.openCall ctx f args p) :=
      .bind (Eval.made_checkArity ctx p f args) fun _ => Eval.made_openCall ctx p f args
    have hframes := frames_after hx m
    unfold after at hframes
    rw [proceed_enter f args p hroom]
    cases hr : (do Eval.checkArity ctx f args p; Eval.openCall ctx f args p) m with
    | ok scope n =>
      rw [hr] at hframes
      rw [proceed_ok hr]
      refine .enter f.name ?_ ?_ ?_ ?_
      · rw [hmachine]
        exact hroom
      · show (entered ctx f scope n).frames = f.name :: c.machine.frames
        rw [entered_frames, hframes, hmachine]
      · show f.name :: activeCalls k = _
        rw [hcalls]
      · rintro s ⟨⟩
    | error s n =>
      rw [hr] at hframes
      rw [proceed_error hr]
      refine .stay ?_ hcalls fun e he => ?_
      · show n.frames = c.machine.frames
        rw [hframes, hmachine]
      · cases he
        exact .inr (.inl (hmade.plain hr))
  · -- without room the call fails, unless the number of its arguments is wrong already
    have hfull : ctx.limit ≤ m.frames.length := Nat.not_lt.mp hroom
    have hfails : (proceed (enter ctx f args p) k m fun scope m =>
          ⟨.block scope .empty f.body, .body f p :: k, m⟩) =
        proceed (do Eval.checkArity ctx f args p; ctx.fail p (.depth ctx.limit)) k m
          fun v m => ⟨.value v, k, m⟩ := proceed_enter_full f args p hfull
    rw [hfails, proceed_bind]
    have harity := checkArity_apply f args p ctx m
    by_cases hlength : args.length ≠ f.params.length
    · rw [if_pos hlength] at harity
      rw [proceed_error harity]
      refine .stay (congrArg Machine.frames hmachine.symm) hcalls fun e he => ?_
      cases he
      exact .inr (.inl ⟨rfl, rfl⟩)
    · rw [if_neg hlength] at harity
      rw [proceed_ok harity]
      refine .stay (congrArg Machine.frames hmachine.symm) hcalls fun e he => ?_
      cases he
      exact .inr (.inr ⟨rfl, rfl, hmachine ▸ hfull⟩)

/-- A result is refused for its type only. -/
theorem resultOf_error {f : Closure} {p : Position} {done : Completion} {n : Machine}
    {e : RuntimeError} (h : Eval.resultOf ctx f p done m = .error (.error e) n) :
    e.stack = [] ∧ ∃ want got, e.cause = .returnMismatch f.name want got := by
  obtain ⟨x, hx⟩ : ∃ x, Eval.resultOf ctx f p done = x := ⟨_, rfl⟩
  rw [hx] at h
  unfold Eval.resultOf at hx
  split at hx
  · subst hx
    cases h
  · subst hx
    cases h
  · dsimp only at hx
    split at hx
    · subst hx
      cases h
      exact ⟨rfl, _, _, rfl⟩
    · subst hx
      cases h

/-- The body of a function has completed, and the type of its result is checked. -/
theorem callStep_leave (f : Closure) (p : Position) (done : Completion) :
    CallStep ctx ⟨.completed done, .body f p :: k, m⟩
      (proceed (leave ctx f p done) k m fun v m => ⟨.value v, k, m⟩) := by
  have hpop : popFrame m = .ok () { m with frames := m.frames.tail } := rfl
  rw [leave, proceed_bind, proceed_ok hpop]
  have hframes := frames_after (Eval.changing_resultOf ctx p f done)
    { m with frames := m.frames.tail }
  unfold after at hframes
  cases hr : Eval.resultOf ctx f p done { m with frames := m.frames.tail } with
  | ok v n =>
    rw [hr] at hframes
    rw [proceed_ok hr]
    refine .leave f.name hframes rfl fun e he => ?_
    cases he
  | error s n =>
    rw [hr] at hframes
    rw [proceed_error hr]
    refine .leave f.name hframes rfl fun e he => ?_
    cases he
    exact .inr (resultOf_error hr)

/-- To open a loop raises no error about a call as such. -/
theorem made_openLoop {owned : Set ScopeId} (scope : ScopeId) (cursor : String)
    (rangeAt : Position) (v : Value) : Made ctx owned (openLoop ctx scope cursor rangeAt v) :=
  .bind (Eval.made_loopRange ctx rangeAt v) fun _ =>
    .opened .loop scope fun outer =>
      .bind (.define (Set.mem_insert outer owned) _) fun _ => .pure _

end Parts

section Steps

variable (scope : ScopeId) (k : List Frame) (m : Machine)

/-- To begin an expression neither enters a call nor leaves one. -/
theorem callStep_expr (e : Expr) :
    CallStep ctx ⟨.expr scope e, k, m⟩ (startExpr ctx scope k m e) := by
  cases e with
  | name p x =>
    exact .proceed_control (Eval.changing_bindingOf ctx scope p x)
      (Eval.made_bindingOf ctx scope p x) rfl rfl (by rintro b s ⟨⟩)
  | assign p x e =>
    refine .proceed (Eval.changing_requireDeclared ctx scope p x)
      (Eval.made_requireDeclared ctx scope p x) rfl rfl fun _ n => ⟨rfl, rfl, ?_⟩
    rintro s ⟨⟩
  | _ => exact .of_running rfl rfl (by rintro s ⟨⟩)

/-- To go on with the arguments neither enters a call nor leaves one. -/
theorem callStep_args (p : Position) (f : Value) (done : List Arg) (es : List Expr) :
    CallStep ctx ⟨.args scope p f done es, k, m⟩ (nextArg ctx scope p f done k m es) := by
  cases es with
  | nil => exact .of_running rfl rfl (by rintro s ⟨⟩)
  | cons e rest =>
    cases e with
    | name q x =>
      exact .proceed_control (Eval.changing_bindingOf ctx scope q x)
        (Eval.made_bindingOf ctx scope q x) rfl rfl (by rintro b s ⟨⟩)
    | _ => exact .of_running rfl rfl (by rintro s ⟨⟩)

/-- To call a declared function enters it, unless an error about the call comes first. -/
theorem callStep_apply (p : Position) (args : List Arg) (f : Value) :
    CallStep ctx ⟨.apply p f args, k, m⟩ (startCall ctx p args k m f) := by
  -- what is no function was refused before the arguments were evaluated, and is refused again here
  have hrefused (tag : Tag) : CallStep ctx ⟨.apply p f args, k, m⟩
      (proceed (ctx.fail p (.notCallable tag)) k m fun v m => ⟨.value v, k, m⟩) := by
    have hfail : Changing ctx (ctx.fail p (.notCallable tag) : Eval Value) := .fail p _
    exact .proceed_control hfail (.fail p rfl) rfl rfl (by rintro v s ⟨⟩)
  cases f with
  | builtin b =>
    exact .proceed_control (Eval.changing_callBuiltin ctx p b args)
      (Eval.made_callBuiltin ctx p b args) rfl rfl (by rintro v s ⟨⟩)
  | function f => exact callStep_enter f args p rfl rfl
  | _ => exact hrefused _

/-- To begin a statement neither enters a call nor leaves one. -/
theorem callStep_stmt (s : Stmt) :
    CallStep ctx ⟨.stmt scope s, k, m⟩ (startStmt ctx scope k m s) := by
  cases s with
  | function p x params returns body =>
    exact .proceed_control (Eval.changing_declareFunction ctx scope p x params returns body)
      (Eval.made_declareFunction ctx p (Set.mem_univ scope) x params returns body) rfl rfl
      (by rintro v s ⟨⟩)
  | ret p value =>
    cases value with
    | none => exact .of_running rfl rfl (by rintro s ⟨⟩)
    | some e => exact .of_running rfl rfl (by rintro s ⟨⟩)
  | _ => exact .of_running rfl rfl (by rintro s ⟨⟩)

/-- To begin a part of a choice neither enters a call nor leaves one. -/
theorem callStep_branch {c : State} (hmachine : c.machine = m)
    (hcalls : activeCalls k = activeCalls c.stack) (body : Option (List Stmt)) :
    CallStep ctx c (startBranch scope k m body) := by
  cases body with
  | none => exact .of_running hmachine.symm hcalls (by rintro s ⟨⟩)
  | some body =>
    rw [startBranch]
    exact .proceed_control (Eval.changing_openScope .branch scope)
      (Eval.made_openScope ctx .branch scope) hmachine hcalls (by rintro v s ⟨⟩)

/-- What waits for a value goes on within the same calls, or begins a call. -/
theorem callStep_resume {v : Value} {frame : Frame} {d : State}
    (h : resume ctx v k m frame = some d) : CallStep ctx ⟨.value v, frame :: k, m⟩ d := by
  -- no frame that waits for a value is a call, so the calls on the stack stay
  cases frame with
  | item scope elem done p rest =>
    cases h
    exact .proceed_control (Eval.changing_checkItem ctx p _ v) (Eval.made_checkItem ctx p _ v) rfl
      rfl (by rintro v s ⟨⟩)
  | assign scope p x valueAt =>
    cases h
    exact .proceed_control (Eval.changing_assignValue ctx scope p x valueAt v)
      (Eval.made_assignValue ctx scope p x valueAt v) rfl rfl (by rintro v s ⟨⟩)
  | callee scope p calleeAt es =>
    cases h
    exact .proceed_control (Eval.changing_checkCallable ctx calleeAt v)
      (Eval.made_checkCallable ctx calleeAt v) rfl rfl (by rintro v s ⟨⟩)
  | right p left op =>
    cases h
    exact .proceed_control (Eval.changing_accept ctx p fun _ => Eval.fault_binary)
      (Eval.made_accept ctx p fun _ => BinaryOp.ofCall_apply) rfl rfl (by rintro v s ⟨⟩)
  | unary p op =>
    cases h
    exact .proceed_control (Eval.changing_accept ctx p fun _ h => absurd h Eval.fault_unary)
      (Eval.made_accept ctx p fun _ => UnaryOp.ofCall_apply) rfl rfl (by rintro v s ⟨⟩)
  | step p op =>
    cases h
    exact .proceed_control (Eval.changing_accept ctx p fun _ h => absurd h Eval.fault_step)
      (Eval.made_accept ctx p fun _ => StepOp.ofCall_apply) rfl rfl (by rintro v s ⟨⟩)
  | declare scope p constant x type valueAt =>
    cases h
    exact .proceed_control (Eval.changing_declareValue ctx scope p constant x type valueAt v)
      (Eval.made_declareValue ctx p (Set.mem_univ scope) constant x type valueAt v) rfl rfl
      (by rintro v s ⟨⟩)
  | branch scope yes no =>
    cases h
    exact callStep_branch scope k m rfl rfl _
  | loop scope cursor rangeAt body =>
    cases h
    refine .proceed (changing_openLoop scope cursor rangeAt v)
      (made_openLoop scope cursor rangeAt v) rfl rfl fun opened n => ⟨rfl, rfl, ?_⟩
    rintro s ⟨⟩
  | arg => cases h; exact .of_running rfl rfl (by rintro s ⟨⟩)
  | left => cases h; exact .of_running rfl rfl (by rintro s ⟨⟩)
  | ret => cases h; exact .of_running rfl rfl (by rintro s ⟨⟩)
  | expr => cases h; exact .of_running rfl rfl (by rintro s ⟨⟩)
  | _ => cases h

/-- A body that completes leaves its function; anything else goes on within the same calls. -/
theorem callStep_complete {done : Completion} {frame : Frame} {d : State}
    (h : complete ctx done k m frame = some d) :
    CallStep ctx ⟨.completed done, frame :: k, m⟩ d := by
  cases frame with
  | block scope rest =>
    cases done <;> cases h <;> exact .of_running rfl rfl (by rintro s ⟨⟩)
  | pass outer cursor stride body count =>
    have hmove : CallStep ctx ⟨.completed done, .pass outer cursor stride body count :: k, m⟩
        (proceed (Eval.moveCursor outer cursor stride) k m fun _ m =>
          ⟨.passes outer cursor stride body count, k, m⟩) :=
      .proceed_control (Eval.changing_moveCursor outer cursor stride)
        (Eval.made_moveCursor ctx outer cursor stride) rfl rfl (by rintro v s ⟨⟩)
    cases done with
    | returning v =>
      cases h
      exact .of_running rfl rfl (by rintro s ⟨⟩)
    | empty =>
      cases h
      exact hmove
    | value v =>
      cases h
      exact hmove
  | body f p =>
    cases h
    exact callStep_leave f p done
  | program rest =>
    cases done <;> cases h <;> exact .of_running rfl rfl (by rintro s ⟨⟩)
  | _ => cases h

/-- A stop leaves the function whose body it comes from. -/
theorem callStep_unwind (s : Stop) (frame : Frame) :
    CallStep ctx ⟨.stopped s, frame :: k, m⟩ (unwind s k m frame) := by
  cases frame with
  | body f p =>
    rw [unwind_body]
    refine .leave f.name rfl rfl fun e he => ?_
    -- only an error is still an error outside the call
    cases s with
    | error e' =>
      cases he
      exact .inl ⟨e', rfl, rfl⟩
    | fault _ => cases he
    | halt _ => cases he
  | _ => exact .stay rfl rfl fun e he => .inl he

end Steps

/-- Every step leaves the active calls alone, enters a function or leaves one. -/
theorem step_calls {c d : State} (h : step ctx c = some d) : CallStep ctx c d := by
  obtain ⟨control, k, m⟩ := c
  cases control with
  | expr scope e =>
    cases h
    exact callStep_expr scope k m e
  | items scope elem done es =>
    cases h
    cases es <;> exact .of_running rfl rfl (by rintro s ⟨⟩)
  | args scope p f done es =>
    cases h
    exact callStep_args scope k m p f done es
  | apply p f args =>
    cases h
    exact callStep_apply k m p args f
  | stmt scope s =>
    cases h
    exact callStep_stmt scope k m s
  | block scope last ss =>
    cases h
    cases ss <;> exact .of_running rfl rfl (by rintro s ⟨⟩)
  | passes outer cursor stride body n =>
    cases h
    cases n with
    | zero => exact .of_running rfl rfl (by rintro s ⟨⟩)
    | succ n =>
      rw [nextPass]
      refine .proceed (Eval.changing_openScope .block outer)
        (Eval.made_openScope ctx .block outer) rfl rfl fun inner n => ⟨rfl, rfl, ?_⟩
      rintro s ⟨⟩
  | program last ss =>
    cases h
    cases ss with
    | nil => exact .of_running rfl rfl (by rintro s ⟨⟩)
    | cons s rest =>
      refine .proceed (Eval.changing_note ctx _) (Eval.made_note ctx _) rfl rfl
        fun _ n => ⟨rfl, rfl, ?_⟩
      rintro s ⟨⟩
  | value v =>
    cases k with
    | nil => cases h
    | cons frame k => exact callStep_resume k m h
  | completed done =>
    cases k with
    | nil => cases h
    | cons frame k => exact callStep_complete k m h
  | finished v => cases h
  | stopped s =>
    cases k with
    | nil => cases h
    | cons frame k =>
      cases h
      exact callStep_unwind k m s frame

/-- The active calls at a moment are those that wait on the stack, in front of `base`, and they are
no more than the limit. -/
structure State.Counted (ctx : Context) (base : List String) (c : State) : Prop where
  /-- The calls on the stack are active, innermost first. -/
  frames : c.machine.frames = activeCalls c.stack ++ base
  /-- The limit is kept. -/
  le_limit : c.machine.frames.length ≤ ctx.limit

namespace State.Counted

variable {base : List String} {c d : State}

/-- Where nothing waits, the active calls are those from before. -/
theorem start (control : Control) {m : Machine} (hm : m.frames.length ≤ ctx.limit) :
    State.Counted ctx m.frames ⟨control, [], m⟩ :=
  ⟨rfl, hm⟩

/-- Each step keeps the count, as it enters a call, leaves one or does neither. -/
theorem step (hc : c.Counted ctx base) (h : step ctx c = some d) : d.Counted ctx base := by
  obtain ⟨hframes, hle⟩ := hc
  cases step_calls h with
  | stay frames calls error =>
    constructor
    · rw [frames, calls, hframes]
    · rw [frames]
      exact hle
  | enter f room frames calls running =>
    constructor
    · rw [frames, calls, hframes]
      rfl
    · rw [frames]
      exact room
  | leave f frames calls error =>
    -- the innermost active call is the one that is left
    rw [calls] at hframes
    have hd : d.machine.frames = activeCalls d.stack ++ base := by
      rw [frames, hframes]
      rfl
    refine ⟨hd, ?_⟩
    rw [frames, List.length_tail]
    omega

/-- Any number of steps keeps the count, by induction on their number. -/
theorem steps (hc : c.Counted ctx base) (h : Reaches ctx c d) : d.Counted ctx base := by
  induction h with
  | refl => exact hc
  | tail _ hstep ih => exact ih.step hstep

end State.Counted

/-- A stop after passing through some calls, from the innermost one outward: an error takes their
names along. -/
def Stop.through (functions : List String) : Stop → Stop
  | .error e => .error { e with stack := e.stack ++ functions }
  | s => s

theorem through_nil (s : Stop) : Stop.through [] s = s := by
  cases s with
  | error e => simp [Stop.through]
  | fault f => rfl
  | halt code => rfl

/-- A stop passes through the innermost function first. -/
theorem through_outside (function : String) (functions : List String) (s : Stop) :
    Stop.through functions (Stop.outside function s) = Stop.through (function :: functions) s := by
  cases s with
  | error e => simp [Stop.through, Stop.outside, RuntimeError.unwind]
  | fault f => rfl
  | halt code => rfl

/-- A stopped run passes through every call on the stack until nothing waits any more. -/
theorem steps_unwind (s : Stop) (k : List Frame) (m : Machine) :
    ∃ n, Reaches ctx ⟨.stopped s, k, m⟩ ⟨.stopped (Stop.through (activeCalls k) s), [], n⟩ := by
  induction k generalizing s m with
  | nil => exact ⟨m, by rw [show activeCalls [] = [] from rfl, through_nil]⟩
  | cons frame k ih =>
    cases frame with
    | body f p =>
      obtain ⟨n, hn⟩ := ih (Stop.outside f.name s) { m with frames := m.frames.tail }
      rw [through_outside] at hn
      exact ⟨n, .head (congrArg some (unwind_body f p s k m)) hn⟩
    | _ =>
      -- every other frame lets the stop through as it is
      obtain ⟨n, hn⟩ := ih s m
      exact ⟨n, .head rfl hn⟩

end Steps

end TagScript
