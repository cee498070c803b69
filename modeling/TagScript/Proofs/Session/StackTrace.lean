import TagScript.Proofs.Session.Depth

/-!
# Errors Carry the Calls They Were Raised In

A program that ends with an error has raised it at some moment, and the trace of the error is the
list of calls that were active at this moment, innermost first (`stack_exact`). There is one
exception: an error about the type of a result is raised about the innermost call, when its body is
already done, and does not pass through it.

No trace is longer than the limit of active calls, and that of an error about the limit has exactly
this length.

## Main definitions

* `Steps.Raises`: a step raises an error.
* `Cause.trace`: the trace of an error with some cause, from the active calls.
-/

namespace TagScript

/-- The functions that an error passes through if it is raised while the calls `frames` are active,
innermost first. An error about the type of a result does not pass through the call that it is
about. -/
def Cause.trace (cause : Cause) (frames : List String) : List String :=
  match cause with
  | .returnMismatch .. => frames.tail
  | _ => frames

theorem Cause.trace_of_ofCall {cause : Cause} (h : cause.ofCall = false) (frames : List String) :
    cause.trace frames = frames := by
  cases cause with
  | returnMismatch f want got => cases h
  | _ => rfl

theorem Cause.length_trace_le (cause : Cause) (frames : List String) :
    (cause.trace frames).length ≤ frames.length := by
  unfold trace
  split
  · rw [List.length_tail]
    omega
  · exact Nat.le_refl _

namespace Steps

variable {ctx : Context}

/-- The step at the moment `c` raises the error `e`: it stops a run that was not stopped. -/
def Raises (ctx : Context) (c : State) (e : RuntimeError) : Prop :=
  (∀ s, c.control ≠ .stopped s) ∧ ∃ d, step ctx c = some d ∧ d.control = .stopped (.error e)

/-- A run that comes to a stop has come to it in one of its steps. -/
theorem exists_stopping_step {c last : State} (h : Reaches ctx c last)
    (hc : ∀ s, c.control ≠ .stopped s) {stop : Stop} (hlast : last.control = .stopped stop) :
    ∃ c' d stop', Reaches ctx c c' ∧ (∀ s, c'.control ≠ .stopped s) ∧ step ctx c' = some d ∧
      d.control = .stopped stop' := by
  induction h generalizing stop with
  | refl => exact absurd hlast (hc stop)
  | @tail b d hsteps hstep ih =>
    -- either the run was stopped before its last step, or this step stops it
    by_cases hb : ∃ s, b.control = .stopped s
    · obtain ⟨s, hs⟩ := hb
      exact ih hs
    · exact ⟨b, d, stop, hsteps, fun s hs => hb ⟨s, hs⟩, hstep, hlast⟩

/-- What is known about an error where it is raised. -/
structure RaisedAt (ctx : Context) (c d : State) (e : RuntimeError) : Prop where
  /-- It passed through no function yet. -/
  stack : e.stack = []
  /-- The calls that it will pass through are those that were active, up to the exception. -/
  calls : activeCalls d.stack = e.cause.trace c.machine.frames
  /-- An error about the type of a result is about the innermost call. -/
  result : ∀ f want got, e.cause = .returnMismatch f want got →
    c.machine.frames = f :: c.machine.frames.tail
  /-- An error about the limit is raised when as many calls are active. -/
  depth : ∀ limit, e.cause = .depth limit →
    limit = ctx.limit ∧ c.machine.frames.length = ctx.limit

/-- What is known about an error that a step raises. -/
theorem raisedAt_of_step {c d : State} {e : RuntimeError} (hc : c.Counted ctx [])
    (hrunning : ∀ s, c.control ≠ .stopped s) (hstep : step ctx c = some d)
    (he : d.control = .stopped (.error e)) : RaisedAt ctx c d e := by
  have hd : activeCalls d.stack = d.machine.frames := by
    rw [(hc.step hstep).frames, List.append_nil]
  cases step_calls hstep with
  | stay frames calls error =>
    rcases error e he with hold | hplain | ⟨hstack, hcause, hfull⟩
    · exact absurd hold (hrunning _)
    · -- an error that is not about a call
      have htrace := Cause.trace_of_ofCall hplain.cause c.machine.frames
      refine ⟨hplain.stack, by rw [hd, frames, htrace], ?_, ?_⟩
      · intro f want got h
        have hcall := hplain.cause
        rw [h] at hcall
        cases hcall
      · intro limit h
        have hcall := hplain.cause
        rw [h] at hcall
        cases hcall
    · -- an error about the limit
      refine ⟨hstack, ?_, ?_, ?_⟩
      · rw [hd, frames, hcause]
        rfl
      · intro f want got h
        rw [hcause] at h
        cases h
      · intro limit h
        rw [hcause] at h
        cases h
        exact ⟨rfl, Nat.le_antisymm hc.le_limit hfull⟩
  | enter f room frames calls running => exact absurd he (running _)
  | leave f frames calls error =>
    rcases error e he with ⟨e', hold, -⟩ | ⟨hstack, want, got, hcause⟩
    · exact absurd hold (hrunning _)
    · -- an error about the type of a result, raised when the call is no longer active
      have hinnermost : c.machine.frames = f :: activeCalls d.stack := by
        rw [hc.frames, calls, List.append_nil]
      refine ⟨hstack, ?_, ?_, ?_⟩
      · rw [hd, frames, hcause]
        rfl
      · intro f' want' got' h
        rw [hcause] at h
        cases h
        rw [hinnermost]
        rfl
      · intro limit h
        rw [hcause] at h
        cases h

end Steps

namespace Session

open Steps (State Reaches step Raises activeCalls)

variable {s : Session} {p : Program}

/-- On a machine without active calls, a moment without a next one shows the outcome of the run. -/
theorem outcome_of_end (hs : s.machine.frames = []) {d : State} (hd : s.Moment p d)
    (hend : step s.context d = none) : d.control.outcome? = some (s.run p).1 := by
  obtain ⟨hsteps, -, -⟩ := Steps.steps_program p hs
  -- the moment that the evaluator's result belongs to is reached from `d`, so it is `d`
  have hlast : step s.context (.ofResult .finished [] (Eval.program s.context none p s.machine)) =
      none := by
    cases Eval.program s.context none p s.machine <;> rfl
  have hreaches := Steps.steps_to_end hsteps hlast hd
  rcases hreaches.cases_head with heq | ⟨c, hc, -⟩
  · rw [heq, outcome?_ofResult, run_eq]
  · rw [hend] at hc
    cases hc

/-- A run that is stopped at some moment ends with this stop, which has passed through the calls on
the stack. -/
theorem outcome_of_stopped (hs : s.machine.frames = []) {d : State} (hd : s.Moment p d)
    {stop : Stop} (hstop : d.control = .stopped stop) :
    (Steps.Control.stopped (Steps.Stop.through (activeCalls d.stack) stop)).outcome? =
      some (s.run p).1 := by
  obtain ⟨control, k, m⟩ := d
  obtain rfl : control = .stopped stop := hstop
  obtain ⟨n, hn⟩ : ∃ n, Reaches s.context ⟨.stopped stop, k, m⟩
      ⟨.stopped (Steps.Stop.through (activeCalls k) stop), [], n⟩ := Steps.steps_unwind stop k m
  exact outcome_of_end hs (hd.trans hn) rfl

/-- An error that is raised at a moment of a program is the one that the program ends with, with the
calls from that moment in its trace. -/
theorem run_of_raises (hs : s.machine.frames = []) {c : State} {e : RuntimeError}
    (hc : s.Moment p c) (h : Raises s.context c e) :
    (s.run p).1 = .error { e with stack := e.cause.trace c.machine.frames } := by
  obtain ⟨hrunning, d, hstep, he⟩ := h
  have hraised := Steps.raisedAt_of_step (moment_counted hs hc) hrunning hstep he
  have houtcome := outcome_of_stopped hs (hc.tail hstep) he
  rw [hraised.calls] at houtcome
  have hrun := Option.some.inj houtcome
  rw [← hrun, hraised.stack]
  rfl

/-- A program that ends with an error has raised it at some moment. -/
theorem raises_of_run (hs : s.machine.frames = []) {e : RuntimeError} (h : (s.run p).1 = .error e) :
    ∃ c e₀, s.Moment p c ∧ Raises s.context c e₀ ∧
      e = { e₀ with stack := e₀.cause.trace c.machine.frames } := by
  -- the last moment of the program is stopped by the error
  obtain ⟨hsteps, -, -⟩ := Steps.steps_program p hs
  have hlast : (State.ofResult .finished []
      (Eval.program s.context none p s.machine)).control = .stopped (.error e) := by
    rw [run_eq] at h
    cases hr : Eval.program s.context none p s.machine with
    | ok v m =>
      rw [hr] at h
      cases h
    | error stop m =>
      rw [hr] at h
      cases stop with
      | error e' =>
        cases h
        rfl
      | fault f => cases h
      | halt code => cases h
  obtain ⟨c, d, stop, hc, hrunning, hstep, hd⟩ :=
    Steps.exists_stopping_step hsteps (by rintro s ⟨⟩) hlast
  -- a fault would have stayed one, so what stopped the program is an error
  have houtcome := outcome_of_stopped hs (hc.tail hstep) hd
  rw [h] at houtcome
  cases stop with
  | error e₀ =>
    have hraises : Raises s.context c e₀ := ⟨hrunning, d, hstep, hd⟩
    have hrun := run_of_raises hs hc hraises
    rw [h] at hrun
    exact ⟨c, e₀, hc, hraises, Outcome.error.inj hrun⟩
  | fault f => cases houtcome
  | halt code => cases houtcome

/-- Traces are exact. A program ends with an error exactly if it raises it at some moment, and its
trace consists of the calls that were active then; an error about the type of a result is about the
innermost one of these and leaves it out. A trace is no longer than the limit, and that of an error
about the limit has this length. -/
theorem stack_exact (hs : s.machine.frames = []) (p : Program) :
    (∀ e, (s.run p).1 = .error e ↔ ∃ c e₀, s.Moment p c ∧ Raises s.context c e₀ ∧
      e = { e₀ with stack := e₀.cause.trace c.machine.frames }) ∧
    (∀ c e₀ f want got, s.Moment p c → Raises s.context c e₀ →
      e₀.cause = .returnMismatch f want got → c.machine.frames = f :: c.machine.frames.tail) ∧
    ∀ e, (s.run p).1 = .error e → e.stack.length ≤ s.settings.limit ∧
      ∀ limit, e.cause = .depth limit →
        limit = s.settings.limit ∧ e.stack.length = s.settings.limit := by
  refine ⟨fun e => ⟨raises_of_run hs, ?_⟩, ?_, fun e h => ?_⟩
  · rintro ⟨c, e₀, hc, hraises, rfl⟩
    exact run_of_raises hs hc hraises
  · rintro c e₀ f want got hc ⟨hrunning, d, hstep, he⟩
    exact (Steps.raisedAt_of_step (moment_counted hs hc) hrunning hstep he).result f want got
  · obtain ⟨c, e₀, hc, ⟨hrunning, d, hstep, he⟩, rfl⟩ := raises_of_run hs h
    have hcounted := moment_counted hs hc
    have hraised := Steps.raisedAt_of_step hcounted hrunning hstep he
    -- the calls that were active kept to the limit, and the trace is no longer than they are
    refine ⟨Nat.le_trans (e₀.cause.length_trace_le _) hcounted.le_limit, fun limit hlimit => ?_⟩
    obtain ⟨hl, hlength⟩ := hraised.depth limit hlimit
    refine ⟨hl, ?_⟩
    show (e₀.cause.trace c.machine.frames).length = _
    rw [show e₀.cause = .depth limit from hlimit]
    exact hlength

/-- A function that calls itself is stopped at the limit, with its name in the trace as often. -/
theorem stack_exact_endless_recursion :
    let s := new ⟨3, .plain, 0, false, false⟩
    let p : Program :=
      [.function .start "f" [] none [.expr .start (.call .start (.name .start "f") [])],
        .expr .start (.call .start (.name .start "f") [])]
    let e : RuntimeError := ⟨.depth 3, "", .start, [], ["f", "f", "f"]⟩
    s.machine.frames = [] ∧ (s.run p).1 = .error e ∧
      (∃ c e₀, s.Moment p c ∧ Raises s.context c e₀ ∧
        e = { e₀ with stack := e₀.cause.trace c.machine.frames }) ∧
      e.stack.length = s.settings.limit := by
  intro s p e
  have hs : s.machine.frames = [] := rfl
  have hrun : (s.run p).1 = .error e := by with_unfolding_all rfl
  obtain ⟨hexact, -, hlength⟩ := stack_exact hs p
  exact ⟨hs, hrun, (hexact e).mp hrun, ((hlength e hrun).2 3 rfl).2⟩

end Session

end TagScript
