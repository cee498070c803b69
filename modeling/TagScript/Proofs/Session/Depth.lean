import TagScript.Proofs.Session.Moments
import TagScript.Proofs.Steps.Calls

/-!
# Calls Keep to the Limit and Are Balanced

Whatever is evaluated or run, on a machine with no more active calls than the limit, there are at
no moment more of them, and at the end they are exactly those from before (`calls_balanced`). It
does not matter how it ends: with a value, with a value that is being returned, with an error or
with a fault. So between the programs of a session no call is active, and each program has the
whole limit to itself, whatever became of the programs before it.
-/

namespace TagScript

namespace Steps

open Machine (after)

variable {ctx : Context} {m : Machine}

/-- What can be evaluated or run by itself. -/
inductive Control.IsTask : Control → Prop
  /-- An expression in a scope. -/
  | expr (scope : ScopeId) (e : Expr) : IsTask (.expr scope e)
  /-- A statement in a scope. -/
  | stmt (scope : ScopeId) (s : Stmt) : IsTask (.stmt scope s)
  /-- The statements of a block in a scope. -/
  | block (scope : ScopeId) (last : Eval.Completion) (ss : List Stmt) :
      IsTask (.block scope last ss)
  /-- A program. -/
  | program (last : Option Value) (p : Program) : IsTask (.program last p)

/-- On the machine `m`, the steps of `control` never have more active calls than the limit, and they
come to an end with the active calls from before. -/
structure Balanced (ctx : Context) (m : Machine) (control : Control) : Prop where
  /-- The limit is kept at every moment. -/
  le_limit : ∀ d, Reaches ctx ⟨control, [], m⟩ d → d.machine.frames.length ≤ ctx.limit
  /-- The last moment has the active calls from before. -/
  ends : ∃ last, Reaches ctx ⟨control, [], m⟩ last ∧ step ctx last = none ∧
    last.machine.frames = m.frames

/-- The steps of a control are balanced if they come to a moment at which nothing waits. -/
theorem Balanced.of_end {control : Control} (hm : m.frames.length ≤ ctx.limit) {last : State}
    (hsteps : Reaches ctx ⟨control, [], m⟩ last) (hlast : step ctx last = none)
    (hstack : last.stack = []) : Balanced ctx m control := by
  have hcounted := State.Counted.start control hm
  refine ⟨fun d hd => (hcounted.steps hd).le_limit, last, hsteps, hlast, ?_⟩
  -- the calls on the empty stack are none, so only those from before are left
  have hframes := (hcounted.steps hsteps).frames
  rw [hstack] at hframes
  exact hframes

/-- The steps that do a computation are balanced. -/
theorem Balanced.of_does {α : Type} {control : Control} {x : Eval α} {inject : α → Control}
    (hm : m.frames.length ≤ ctx.limit) (hend : ∀ a n, step ctx ⟨inject a, [], n⟩ = none)
    (hx : Does ctx m.frames.length (fun k m => ⟨control, k, m⟩) x inject) :
    Balanced ctx m control := by
  have hsteps := (hx [] m rfl).1
  cases hr : x m with
  | ok a n =>
    rw [hr] at hsteps
    exact .of_end hm hsteps (hend a n) rfl
  | error s n =>
    rw [hr] at hsteps
    exact .of_end hm hsteps rfl rfl

/-- Functions are called as the limit allows: as many calls as are to spare may become active. -/
theorem invokes_spare (hm : m.frames.length ≤ ctx.limit) :
    Invokes ctx m.frames.length (Eval.call ctx (m.spare ctx)) := by
  refine invokes_call (m.spare ctx) ?_
  unfold Machine.spare
  omega

/-- The steps of a program come to a moment at which nothing waits, also on a machine with active
calls. -/
theorem program_ends (hm : m.frames.length ≤ ctx.limit) (last : Option Value) (p : Program) :
    ∃ c n, Reaches ctx ⟨.program last p, [], m⟩ ⟨c, [], n⟩ ∧ step ctx ⟨c, [], n⟩ = none := by
  induction p generalizing last m with
  | nil => exact ⟨.finished last, m, .single rfl, rfl⟩
  | cons s rest ih =>
    -- the statement is noted, which never fails, and then run in front of the others
    have hnote := Eval.changing_note ctx fun _ => .statement s.kindName s.position.line
    have hnoted := frames_after hnote m
    obtain ⟨m', hm'⟩ : ∃ m', Machine.note ctx (fun _ => .statement s.kindName s.position.line) m =
        .ok () m' := by
      unfold Machine.note
      split <;> exact ⟨_, rfl⟩
    unfold after at hnoted
    rw [hm'] at hnoted
    have hfirst : step ctx ⟨.program last (s :: rest), [], m⟩ =
        some ⟨.stmt ctx.global s, [.program rest], m'⟩ := congrArg some (proceed_ok hm')
    have hle : m'.frames.length ≤ ctx.limit := by rw [hnoted]; exact hm
    obtain ⟨hsteps, hframes, -⟩ :=
      does_stmt (invokes_spare hle) ctx.global s [.program rest] m' rfl
    unfold after at hframes
    cases hr : Eval.stmt ctx (Eval.call ctx (m'.spare ctx)) ctx.global s m' with
    | error stop n =>
      rw [hr] at hsteps
      exact ⟨.stopped stop, n, .head hfirst (hsteps.tail rfl), rfl⟩
    | ok c n =>
      rw [hr] at hsteps hframes
      have hn : n.frames.length ≤ ctx.limit := by rw [hframes]; exact hle
      cases c with
      | returning v => exact ⟨.finished (some v), n, .head hfirst (hsteps.tail rfl), rfl⟩
      | value v =>
        obtain ⟨c, o, hmore, hend⟩ := ih hn (some v)
        exact ⟨c, o, .head hfirst ((hsteps.tail rfl).trans hmore), hend⟩
      | empty =>
        obtain ⟨c, o, hmore, hend⟩ := ih hn none
        exact ⟨c, o, .head hfirst ((hsteps.tail rfl).trans hmore), hend⟩

/-- Whatever is evaluated or run by itself is balanced. -/
theorem Control.IsTask.balanced {control : Control} (h : control.IsTask)
    (hm : m.frames.length ≤ ctx.limit) : Balanced ctx m control := by
  cases h with
  | expr scope e => exact .of_does hm (fun _ _ => rfl) (does_expr (invokes_spare hm) scope e)
  | stmt scope s => exact .of_does hm (fun _ _ => rfl) (does_stmt (invokes_spare hm) scope s)
  | block scope last ss =>
    exact .of_does hm (fun _ _ => rfl) (does_block (invokes_spare hm) scope last ss)
  | program last p =>
    obtain ⟨c, n, hsteps, hend⟩ := program_ends hm last p
    exact .of_end hm hsteps hend rfl

end Steps

namespace Session

open Machine (after)
open Steps (Control Balanced)

/-- At each moment of a program on a machine without active calls, those that wait on the stack are
active, and they are no more than the limit. -/
theorem moment_counted {s : Session} {p : Program} {c : Steps.State} (hs : s.machine.frames = [])
    (hc : s.Moment p c) : c.Counted s.context [] := by
  have hstart : (Steps.State.start p s.machine).Counted s.context s.machine.frames := by
    refine .start _ ?_
    rw [hs]
    exact Nat.zero_le _
  rw [hs] at hstart
  exact hstart.steps hc

/-- Between programs each session has the whole limit to spare. -/
theorem Reachable.spare_eq {s : Session} (hs : s.Reachable) :
    s.machine.spare s.context = s.settings.limit := by
  unfold Machine.spare
  rw [hs.frames_eq_nil]
  rfl

/-- Calls keep to the limit and are balanced: in the steps of whatever is run, and in what the
evaluator makes of expressions, statements and blocks. Between the programs of a session no call is
active, and a program leaves as many calls to spare as it found, however it ends. -/
theorem calls_balanced {ctx : Context} {m : Machine} (hm : m.frames.length ≤ ctx.limit) :
    (∀ control : Control, control.IsTask → Balanced ctx m control) ∧
    (∀ scope e, (after (Eval.expr ctx (Eval.call ctx (m.spare ctx)) scope e) m).frames =
      m.frames) ∧
    (∀ scope s, (after (Eval.stmt ctx (Eval.call ctx (m.spare ctx)) scope s) m).frames =
      m.frames) ∧
    (∀ scope last ss,
      (after (Eval.block ctx (Eval.call ctx (m.spare ctx)) scope last ss) m).frames = m.frames) ∧
    (m.frames = [] → ∀ last p, (after (Eval.program ctx last p) m).frames = m.frames) ∧
    ∀ s : Session, s.Reachable → s.machine.frames = [] ∧
      ∀ p, (s.run p).2.machine.frames = [] ∧
        (s.run p).2.machine.spare (s.run p).2.context = s.machine.spare s.context := by
  have hi := Steps.invokes_spare hm
  refine ⟨fun control h => h.balanced hm, ?_, ?_, ?_, ?_, ?_⟩
  · intro scope e
    exact (Steps.does_expr hi scope e [] m rfl).2.1
  · intro scope s
    exact (Steps.does_stmt hi scope s [] m rfl).2.1
  · intro scope last ss
    exact (Steps.does_block hi scope last ss [] m rfl).2.1
  · intro hnone last p
    exact (Steps.does_program last p [] m (congrArg List.length hnone)).2.1
  · intro s hs
    refine ⟨hs.frames_eq_nil, fun p => ⟨(hs.run p).frames_eq_nil, ?_⟩⟩
    have hsettings : (s.run p).2.settings = s.settings := by rw [run_eq]
    rw [(hs.run p).spare_eq, hs.spare_eq, hsettings]

/-- A function calls itself on a machine with one of two calls active. -/
theorem calls_balanced_recursion :
    let s := ((new ⟨2, .plain, 0, false, false⟩).run
      [.function .start "f" [] none
        [.expr .start (.call .start (.name .start "f") [])]]).2
    let m := { s.machine with frames := ["f"] }
    let e : Expr := .call .start (.name .start "f") []
    m.frames.length ≤ s.context.limit ∧ Balanced s.context m (.expr 0 e) ∧
      (after (Eval.expr s.context (Eval.call s.context (m.spare s.context)) 0 e) m).frames =
        ["f"] := by
  intro s m e
  have hm : m.frames.length ≤ s.context.limit := by
    have hlimit : s.context.limit = 2 := by
      show (Session.run _ _).2.settings.limit = 2
      rw [run_eq]
      rfl
    rw [hlimit]
    decide
  obtain ⟨htask, hexpr, -⟩ := calls_balanced hm
  exact ⟨hm, htask _ (.expr 0 e), hexpr 0 e⟩

end Session

end TagScript
