import TagScript.Proofs.Eval.Unseen
import TagScript.Proofs.Session.Moments

/-!
# The Limit of Active Calls Only Cuts Off

A program that ends under some limit for another reason than this limit ends in the same way under
every larger one, and leaves the same machine (`run_withLimit`). So the limit decides whether a
program is stopped, but never what it computes.
-/

namespace TagScript

/-- Whether a program ended with the error that the maximum call depth was exceeded. -/
def Outcome.isCutOff : Outcome → Bool
  | .error { cause := .depth _, .. } => true
  | _ => false

namespace Session

/-- The session with another limit of active calls. -/
def withLimit (s : Session) (limit : Nat) : Session :=
  { s with settings := { s.settings with limit } }

/-- The error that ends a program is not about the limit unless the program is cut off. -/
theorem cause_ne_depth {s : Session} {p : Program} (h : (s.run p).1.isCutOff = false)
    {e : RuntimeError} {n : Machine}
    (hr : Eval.program s.context none p s.machine = .error (.error e) n) (limit : Nat) :
    e.cause ≠ .depth limit := by
  intro hcause
  obtain ⟨cause, file, position, line, stack⟩ := e
  obtain rfl : cause = .depth limit := hcause
  rw [run_eq, hr] at h
  cases h

/-- The limit only cuts off. A program that ends under a limit without being cut off has the same
outcome under every larger limit, and leaves the session with the same scopes, events and random
numbers. -/
theorem run_withLimit (s : Session) (p : Program) {limit larger : Nat} (hle : limit ≤ larger)
    (h : ((s.withLimit limit).run p).1.isCutOff = false) :
    (s.withLimit larger).run p =
      (((s.withLimit limit).run p).1, ((s.withLimit limit).run p).2.withLimit larger) := by
  have hcut : ∀ e n, Eval.program (s.withLimit limit).context none p s.machine =
      .error (.error e) n → e.cause ≠ .depth limit :=
    fun e n hr => cause_ne_depth h hr limit
  have hsame : Eval.program (s.withLimit larger).context none p s.machine =
      Eval.program (s.withLimit limit).context none p s.machine :=
    Eval.program_of_le (s.withLimit limit).context hle p s.machine hcut
  -- the machine afterwards is part of how the program ends
  have hafter : Machine.after (Eval.program (s.withLimit larger).context none p) s.machine =
      Machine.after (Eval.program (s.withLimit limit).context none p) s.machine := by
    rw [Machine.after, Machine.after, hsame]
  rw [run_eq, run_eq]
  exact Prod.ext (congrArg outcomeOf hsame)
    (congrArg (fun machine => { s with machine }.withLimit larger) hafter)

/-- Two nested calls need a limit of two, under which the error inside them is the outcome; a limit
of one cuts the program off. -/
theorem run_withLimit_nested_calls :
    let s := new ⟨Settings.defaultLimit, .plain, 0, false, false⟩
    let p : Program :=
      [.function .start "g" [] none
          [.expr .start (.call .start (.name .start "print") [.int .start 1]),
            .expr .start (.name .start "x")],
        .function .start "f" [] none [.expr .start (.call .start (.name .start "g") [])],
        .expr .start (.call .start (.name .start "f") [])]
    let e : RuntimeError := ⟨.undeclared "x", "", .start, [], ["g", "f"]⟩
    ((s.withLimit 1).run p).1.isCutOff = true ∧ ((s.withLimit 2).run p).1.isCutOff = false ∧
      ((s.withLimit 1000).run p).1 = .error e ∧
      ((s.withLimit 1000).run p).2.machine = ((s.withLimit 2).run p).2.machine := by
  intro s p e
  have hshort : ((s.withLimit 1).run p).1.isCutOff = true := by with_unfolding_all rfl
  have hrun : ((s.withLimit 2).run p).1 = .error e := by with_unfolding_all rfl
  have hended : ((s.withLimit 2).run p).1.isCutOff = false := by rw [hrun]; rfl
  have hsame := run_withLimit s p (show 2 ≤ 1000 by decide) hended
  exact ⟨hshort, hended, by rw [hsame, hrun], by rw [hsame]; rfl⟩

end Session

end TagScript
