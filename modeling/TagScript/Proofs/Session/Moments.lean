import TagScript.Proofs.Steps.Simulation

/-!
# Histories of a Session

A session is reachable if it comes from a new one by running and evaluating programs, naming
scripts, clearing errors, resetting and taking events, in any order and with any programs. The
moments of a program in a session are those that the steps of its run come to; the first is the
session itself, and the last has the machine of the session after the run (`moment_run`). A later
moment is one of the same program or of a program after it, also where the session is reset in
between: the scopes from before a reset are still stored.
-/

namespace TagScript

namespace Steps

/-- The outcome of a program that has come to its end. -/
def Control.outcome? : Control → Option Outcome
  | .finished v => some (.value v)
  | .stopped (.error e) => some (.error e)
  | .stopped (.fault f) => some (.fault f)
  | .stopped (.halt code) => some (.halt code)
  | _ => none

theorem Control.outcome?_eq_value {control : Control} {v : Option Value}
    (h : control.outcome? = some (.value v)) : control = .finished v := by
  cases control with
  | finished w =>
    cases h
    rfl
  | stopped stop => cases stop <;> cases h
  | _ => cases h

/-- Steps that come to an end come to it from every moment on the way. -/
theorem steps_to_end {ctx : Context} {start mid last : State} (h : Reaches ctx start last)
    (hlast : step ctx last = none) (hmid : Reaches ctx start mid) : Reaches ctx mid last := by
  -- a moment has one next moment, so two runs from one start lie on one line
  have hunique : Relator.RightUnique fun c d => step ctx c = some d := by
    intro c d d' hd hd'
    exact Option.some.inj (hd.symm.trans hd')
  obtain hm | hl := Relation.ReflTransGen.total_of_right_unique hunique hmid h
  · exact hm
  · -- the last moment has no step, so the other one is the last moment too
    obtain rfl | ⟨e, he, -⟩ := hl.cases_head
    · exact .refl
    · rw [hlast] at he
      cases he

end Steps

namespace Session

open Steps (State Reaches step)

/-- A session that some history of operations leads to. -/
inductive Reachable : Session → Prop
  | new (settings : Settings) : Reachable (.new settings)
  | setSource {s : Session} (file : String) (source : Bytes) :
      Reachable s → Reachable (s.setSource file source)
  | run {s : Session} (p : Program) : Reachable s → Reachable (s.run p).2
  | evaluate {s : Session} (p : Program) : Reachable s → Reachable (s.evaluate p).2.2
  | clear {s : Session} : Reachable s → Reachable s.clear
  | reset {s : Session} : Reachable s → Reachable s.reset
  | takeEvents {s : Session} : Reachable s → Reachable s.takeEvents.2

/-- The program `p`, run in the session `s`, comes to the moment `c`. -/
def Moment (s : Session) (p : Program) (c : State) : Prop :=
  Reaches s.context (.start p s.machine) c

/-- The session `t` comes after `s` by some history of operations. -/
inductive LeadsTo (s : Session) : Session → Prop
  | refl : LeadsTo s s
  | setSource {t : Session} (file : String) (source : Bytes) :
      LeadsTo s t → LeadsTo s (t.setSource file source)
  | run {t : Session} (p : Program) : LeadsTo s t → LeadsTo s (t.run p).2
  | evaluate {t : Session} (p : Program) : LeadsTo s t → LeadsTo s (t.evaluate p).2.2
  | clear {t : Session} : LeadsTo s t → LeadsTo s t.clear
  | reset {t : Session} : LeadsTo s t → LeadsTo s t.reset
  | takeEvents {t : Session} : LeadsTo s t → LeadsTo s t.takeEvents.2

/-- Where `s` runs or evaluates `p`, the moment `d` comes after the moment `c` of `p`, or is that
moment. It may be a moment of a later program. -/
inductive Later (s : Session) (p : Program) (c : State) : State → Prop
  /-- Both are moments of the same program. -/
  | steps {d : State} : Reaches s.context c d → Later s p c d
  /-- The program was run, and `d` is a moment of a program after it. -/
  | run {t : Session} {q : Program} {d : State} :
      (s.run p).2.LeadsTo t → t.Moment q d → Later s p c d
  /-- The program was evaluated, and `d` is a moment of a program after it. -/
  | evaluate {t : Session} {q : Program} {d : State} :
      (s.evaluate p).2.2.LeadsTo t → t.Moment q d → Later s p c d

/-- How the end of a computation shows in the outcome of a program. -/
def outcomeOf : EStateM.Result Stop Machine (Option Value) → Outcome
  | .ok v _ => .value v
  | .error (.error e) _ => .error e
  | .error (.fault f) _ => .fault f
  | .error (.halt code) _ => .halt code

/-- A run is that of the evaluator on the machine of the session. -/
theorem run_eq (s : Session) (p : Program) :
    s.run p = (outcomeOf (Eval.program s.context none p s.machine),
      { s with machine := Machine.after (Eval.program s.context none p) s.machine }) := by
  unfold run perform Machine.after
  cases Eval.program s.context none p s.machine with
  | ok v m => rfl
  | error stop m => cases stop <;> rfl

/-- Running a program does not open another outermost scope. -/
theorem run_global (s : Session) (p : Program) : (s.run p).2.global = s.global := by
  rw [run_eq]

/-- Evaluating a program, in terms of running it. An error that was pending before is of no
account. -/
theorem evaluate_eq (s : Session) (p : Program) :
    s.evaluate p =
      match (s.run p).1 with
      | .error e => (.error e, (Failure.runtime e).report s.settings.painter,
          { (s.run p).2 with pending := ⟨some (.runtime e)⟩ })
      | outcome => (outcome, [], { (s.run p).2 with pending := .none }) := by
  -- evaluating clears pending errors first, which no program can see
  have hcontext : { s with pending := Pending.none }.context = s.context := rfl
  rw [evaluate, run_eq, run_eq, hcontext]
  cases Eval.program s.context none p s.machine with
  | ok v m => rfl
  | error stop m => cases stop <;> rfl

/-- Evaluating a program leaves the machine as running it does. -/
theorem evaluate_machine (s : Session) (p : Program) :
    (s.evaluate p).2.2.machine = (s.run p).2.machine := by
  rw [evaluate_eq]
  cases (s.run p).1 <;> rfl

/-- Evaluating a program does not open another outermost scope. -/
theorem evaluate_global (s : Session) (p : Program) : (s.evaluate p).2.2.global = s.global := by
  rw [← run_global s p, evaluate_eq]
  cases (s.run p).1 <;> rfl

/-- Evaluating a program has the outcome of running it. -/
theorem evaluate_outcome (s : Session) (p : Program) : (s.evaluate p).1 = (s.run p).1 := by
  rw [evaluate_eq]
  cases (s.run p).1 <;> rfl

/-- A property of the outermost scope and the machine holds in every reachable session if it holds
at the start, survives that an outermost scope is opened and every program, and does not depend on
the events. -/
theorem Reachable.machine_induction (P : ScopeId → Machine → Prop)
    (hnew : ∀ random, P Store.empty.seed.1 ⟨Store.empty.seed.2, [], #[], random⟩)
    (hreset : ∀ g m, P g m → P m.store.seed.1 { m with store := m.store.seed.2, frames := [] })
    (hevents : ∀ g m events, P g m → P g { m with events })
    (hrun : ∀ (s : Session) (p : Program), s.Reachable → P s.global s.machine →
      P s.global (s.run p).2.machine)
    {s : Session} (hs : s.Reachable) : P s.global s.machine := by
  induction hs with
  | new settings => exact hnew _
  | setSource file source _ ih => exact ih
  | run p hs ih =>
    rw [run_global]
    exact hrun _ p hs ih
  | evaluate p hs ih =>
    rw [evaluate_machine, evaluate_global]
    exact hrun _ p hs ih
  | clear _ ih => exact ih
  | reset _ ih => exact hreset _ _ ih
  | takeEvents _ ih => exact hevents _ _ _ ih

/-- Between programs no call is active. -/
theorem Reachable.frames_eq_nil {s : Session} (hs : s.Reachable) : s.machine.frames = [] := by
  refine hs.machine_induction (fun _ m => m.frames = []) (fun _ => rfl) (fun _ _ _ => rfl)
    (fun _ _ _ h => h) fun s p _ h => ?_
  rw [run_eq]
  exact (Steps.steps_program p h).2.1

/-- The last moment has the outcome of the run. -/
theorem outcome?_ofResult (r : EStateM.Result Stop Machine (Option Value)) :
    (State.ofResult .finished [] r).control.outcome? = some (outcomeOf r) := by
  cases r with
  | ok v m => rfl
  | error stop m => cases stop <;> rfl

/-- What a reachable session leads to is reachable. -/
theorem LeadsTo.reachable {s t : Session} (h : s.LeadsTo t) (hs : s.Reachable) : t.Reachable := by
  induction h with
  | refl => exact hs
  | setSource file source _ ih => exact ih.setSource file source
  | run p _ ih => exact ih.run p
  | evaluate p _ ih => exact ih.evaluate p
  | clear _ ih => exact ih.clear
  | reset _ ih => exact ih.reset
  | takeEvents _ ih => exact ih.takeEvents

/-- From each moment of a program the steps come to its last one, which has the outcome of the run
and the machine of the session after it. -/
theorem moment_run {s : Session} (hs : s.Reachable) (p : Program) :
    ∃ c, c.control.outcome? = some (s.run p).1 ∧ c.machine = (s.run p).2.machine ∧
      step s.context c = none ∧ ∀ d, s.Moment p d → Reaches s.context d c := by
  obtain ⟨hsteps, -, -⟩ := Steps.steps_program p hs.frames_eq_nil
  -- nothing waits when the program has ended, so there is no step
  have hlast : step s.context (.ofResult .finished [] (Eval.program s.context none p s.machine)) =
      none := by
    cases Eval.program s.context none p s.machine <;> rfl
  have hmachine : (State.ofResult .finished []
      (Eval.program s.context none p s.machine)).machine = (s.run p).2.machine := by
    rw [run_eq]
    unfold Machine.after
    cases Eval.program s.context none p s.machine <;> rfl
  refine ⟨_, ?_, hmachine, hlast, fun d hd => Steps.steps_to_end hsteps hlast hd⟩
  rw [outcome?_ofResult, run_eq]

end Session

end TagScript
