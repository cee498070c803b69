import TagScript.Proofs.Session.Typing

/-!
# Every Program Comes to an End

No run takes steps forever (`run_terminates`): from each of its moments the steps come to one last
moment, which shows the outcome of the run. The outcome is a value or none, an error, a division by
zero, or the end that the host makes where requests to exit end the run. Nothing is assumed of the
program, so a function may call itself through any value; a call is one more active call, and these
are limited. The scopes around a scope were opened before it at every moment, so that looking a
name up ends as well.
-/

namespace TagScript

namespace Steps

/-- Where some steps come to an end, no sequence of steps goes on forever. -/
theorem no_endless_steps {ctx : Context} {c last : State} (h : Reaches ctx c last)
    (hlast : step ctx last = none) (f : Nat → State) (hf : f 0 = c) :
    ∃ i, step ctx (f i) ≠ some (f (i + 1)) := by
  -- the run is followed from its first step, with the sequence shifted by one each time
  induction h using Relation.ReflTransGen.head_induction_on generalizing f with
  | refl =>
    refine ⟨0, ?_⟩
    rw [hf, hlast]
    rintro ⟨⟩
  | head hstep _ ih =>
    -- a step has one result, so the sequence takes the step of the run or stops here
    by_cases hfirst : step ctx (f 0) = some (f 1)
    · rw [hf, hstep] at hfirst
      obtain ⟨i, hi⟩ := ih (fun i => f (i + 1)) (Option.some.inj hfirst).symm
      exact ⟨i + 1, hi⟩
    · exact ⟨0, hfirst⟩

end Steps

namespace Session

open Steps (State Reaches step)

/-- The ways in which a program of the session may end. -/
def PossibleOutcome (s : Session) : Outcome → Prop
  | .value _ => True
  | .error _ => True
  | .fault f => f = .divisionByZero
  | .halt _ => s.settings.exitEnds = true

/-- A program ends in a possible way. -/
theorem run_possible {s : Session} (hs : s.Reachable) (p : Program) :
    s.PossibleOutcome (s.run p).1 := by
  obtain ⟨-, -, hstops⟩ := Steps.steps_program p hs.frames_eq_nil
  rw [run_eq]
  -- the evaluator comes to the same end as the steps, and these stop only in possible ways
  cases hr : Eval.program s.context none p s.machine with
  | ok v m => trivial
  | error stop m =>
    have hstop := hstops stop m hr
    cases stop with
    | error e => trivial
    | fault f => exact hstop
    | halt code => exact hstop

/-- Every program comes to an end. No sequence of steps from its start is endless, the steps lead
from each moment to the last one, and at none of them is a scope around itself. -/
theorem run_terminates {s : Session} (hs : s.Reachable) (p : Program) :
    (∀ f : Nat → State, f 0 = .start p s.machine →
      ∃ i, step s.context (f i) ≠ some (f (i + 1))) ∧
    (∃ last, (∀ c, s.Moment p c → Reaches s.context c last) ∧ step s.context last = none ∧
      last.control.outcome? = some (s.run p).1 ∧ last.machine = (s.run p).2.machine) ∧
    s.PossibleOutcome (s.run p).1 ∧
    ∀ c, s.Moment p c → ∀ id scope parent, c.machine.store.scope? id = some scope →
      scope.parent = some parent → parent < id := by
  obtain ⟨last, houtcome, hmachine, hlast, hsteps⟩ := moment_run hs p
  refine ⟨?_, ⟨last, hsteps, hlast, houtcome, hmachine⟩, run_possible hs p, ?_⟩
  · intro f hf
    exact Steps.no_endless_steps (hsteps _ .refl) hlast f hf
  · intro c hc
    exact (moment_formed hs hc).store.parent_lt

/-- A function that calls whatever it is given is given itself. -/
theorem run_terminates_self_application :
    let s := new ⟨3, .plain, 0, false, false⟩
    let p : Program :=
      [.function .start "f" [⟨"g", none⟩] none
        [.ret .start (some (.call .start (.name .start "g") [.name .start "g"]))],
      .expr .start (.call .start (.name .start "f") [.name .start "f"])]
    s.Reachable ∧
    (∀ f : Nat → State, f 0 = .start p s.machine →
      ∃ i, step s.context (f i) ≠ some (f (i + 1))) ∧
    (∃ last, (∀ c, s.Moment p c → Reaches s.context c last) ∧ step s.context last = none ∧
      last.control.outcome? = some (s.run p).1 ∧ last.machine = (s.run p).2.machine) ∧
    s.PossibleOutcome (s.run p).1 ∧
    ∀ c, s.Moment p c → ∀ id scope parent, c.machine.store.scope? id = some scope →
      scope.parent = some parent → parent < id :=
  ⟨.new _, run_terminates (.new _) _⟩

end Session

end TagScript
