import TagScript.Proofs.Diagnostic.Report
import TagScript.Proofs.Session.Moments

/-!
# Running and Evaluating

A host runs a program and gets its error, or has it evaluated and finds the error pending and
reported. Both do the same to the session, and what evaluating does beyond that follows from the
outcome of the run (`evaluate_eq`).
-/

namespace TagScript

/-- What evaluating a program hands back: the value of its last statement, if the program has come
to its end and that statement has one. -/
def Outcome.value? : Outcome → Option Value
  | .value v => v
  | _ => none

namespace Session

/-- Evaluating a program is running it and reporting its error. The session is left as after the
run, with the same scopes, events and random numbers to come; only the pending error may differ.

Where the run comes to an end, so does the evaluation, with the same value; nothing is reported and
no error is pending. Where the run fails, the evaluation hands no value back, the error is pending
whatever was pending before, and without styles the report is the text of the error and a line feed,
unless the headline ends in a line feed. Styles are not written where colours are off. A fault and
an exit are handed on, and leave no error pending. -/
theorem evaluate_is_run_with_report (s : Session) (p : Program) :
    let outcome := (s.evaluate p).1
    let report := (s.evaluate p).2.1
    let t := (s.evaluate p).2.2
    t.machine = (s.run p).2.machine ∧ { t with pending := s.pending } = (s.run p).2 ∧
      (∀ v, (s.run p).1 = .value v → outcome = .value v ∧ outcome.value? = v ∧ report = [] ∧
        t.pending.failure = none) ∧
      (∀ e, (s.run p).1 = .error e → outcome.value? = none ∧ t.pending.failure = some (.runtime e) ∧
        (s.settings.painter.Plain → e.headline.toList.getLast? ≠ some '\n' →
          report = e.text ++ [0x0A])) ∧
      (∀ paint : Paint, paint.enabled = false → paint.painter.Plain) ∧
      (∀ f, (s.run p).1 = .fault f → outcome = .fault f ∧ report = [] ∧ t.pending.failure = none) ∧
      ∀ code, (s.run p).1 = .halt code →
        outcome = .halt code ∧ report = [] ∧ t.pending.failure = none := by
  have hmachine := evaluate_machine s p
  have heq := evaluate_eq s p
  have hpending : (s.run p).2.pending = s.pending := by rw [run_eq]
  -- from here on only the outcome of the run counts, and the session after it
  generalize s.evaluate p = evaluated at heq hmachine ⊢
  generalize s.run p = ran at heq hmachine hpending ⊢
  obtain ⟨o, after⟩ := ran
  subst heq
  refine ⟨hmachine, ?_, ?_, ?_, fun _ => Paint.plain_painter, ?_, ?_⟩
  · rw [← hpending]
    cases o <;> rfl
  · rintro v rfl
    exact ⟨rfl, rfl, rfl, rfl⟩
  · rintro e rfl
    exact ⟨rfl, rfl, fun hplain hheadline => Failure.report_runtime hplain e hheadline⟩
  · rintro f rfl
    exact ⟨rfl, rfl, rfl⟩
  · rintro code rfl
    exact ⟨rfl, rfl, rfl⟩

/-- A name that is not declared, in a session with an older error and without colours. -/
theorem evaluate_is_run_with_report_undeclared :
    let painter := Paint.painter ⟨.never, true⟩
    let s : Session := { new ⟨Settings.defaultLimit, painter, 0, false, false⟩ with
      pending := ⟨some (.plain (Bytes.ofString "older"))⟩ }
    let p : Program := [.expr ⟨1, 1⟩ (.name ⟨1, 1⟩ "x")]
    let e : RuntimeError := ⟨.undeclared "x", "", ⟨1, 1⟩, [], []⟩
    (s.run p).1 = .error e ∧ (s.evaluate p).2.2.pending.failure = some (.runtime e) ∧
      (s.evaluate p).2.1 = Bytes.ofString "NameError: 'x' is not declared\n  at 1:1\n" := by
  intro painter s p e
  have hrun : (s.run p).1 = .error e := by with_unfolding_all rfl
  obtain ⟨-, -, -, herror, hoff, -⟩ := evaluate_is_run_with_report s p
  obtain ⟨-, hpending, hreport⟩ := herror e hrun
  refine ⟨hrun, hpending, (hreport (hoff _ rfl) (by decide)).trans ?_⟩
  decide +kernel

end Session

end TagScript
