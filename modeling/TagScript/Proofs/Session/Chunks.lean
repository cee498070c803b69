import TagScript.Proofs.Grammar.Append
import TagScript.Proofs.Session.Unplaced

/-!
# Chunks of a Script

A script may be run in one chunk or in several, cut at the end of a line, and does the same: it
prints the same, asks for the same exit codes, draws the same random numbers, leaves the same
declarations and has the same outcome, up to the place of an error (`evaluate_chunks`). The first
chunk must come to its end, for a script that fails or returns does not go on, while a session takes
the next chunk in any case.

The functions that the first chunk declares have the same bodies in both cases, but those of the
second one stand further down in the script as a whole. So the two runs are compared without places.
-/

namespace TagScript

open Eval (Completion)

/-- Whether an outcome is no value. -/
def Gist.isFailure : Gist → Bool
  | .value _ => false
  | _ => true

namespace Session

/-- The program comes to its end in the session: nothing stops it and no statement of it returns. -/
def Completes (s : Session) (p : Program) : Prop :=
  ∃ c n, s.ending p = .ok c n ∧ c.returns = false

/-- Evaluating a program differs from running it in the pending error only. -/
theorem unplaced_evaluate (s : Session) (p : Program) :
    (s.evaluate p).2.2.unplaced = (s.run p).2.unplaced := by
  rw [evaluate_eq]
  cases (s.run p).1 <;> rfl

theorem standing_evaluate (s : Session) (p : Program) :
    (s.evaluate p).2.2.standing =
      { s.unplaced with machine := Eval.machineOf (unplacedEnd (s.ending p)) }.standing := by
  rw [← standing_unplaced, unplaced_evaluate, unplaced_run]

theorem gist_evaluate (s : Session) (p : Program) :
    (s.evaluate p).1.gist =
      (outcomeOf (Eval.mapEnd Completion.value? id id (unplacedEnd (s.ending p)))).gist := by
  rw [evaluate_outcome, gist_run]

section Parts

variable {one first second : Session} {p₁ : Program} {c : Completion} {n : Machine}
  (hend : first.ending p₁ = .ok c n) (hone : one.unplaced = first.unplaced)
  (hsecond : second.unplaced = { first.unplaced with machine := n.unplaced })
include hend hone

/-- Where a program comes to its end, what stands behind it goes on from there. -/
theorem unplacedEnd_append (hc : c.returns = false) (f : Position → Position) (p₂ : Program) :
    unplacedEnd (one.ending (p₁ ++ Stmt.relocateAll f p₂)) =
      Eval.statements first.unplaced.context c.unplaced (Stmt.unplaced p₂) n.unplaced := by
  have hfirst : first.unplaced.ending (Stmt.unplaced p₁) = .ok c.unplaced n.unplaced := by
    rw [ending_unplaced, hend]
    rfl
  have hreturns : c.unplaced.returns = false := by
    rw [← hc]
    cases c <;> rfl
  rw [← ending_unplaced, Stmt.unplaced_append, Stmt.unplaced_relocateAll, hone]
  exact Eval.statements_append hfirst hreturns _

include hsecond

/-- The last statement behind a program that comes to its end decides how both complete. -/
theorem unplacedEnd_append_cons (hc : c.returns = false) (f : Position → Position) (s : Stmt)
    (rest : Program) :
    unplacedEnd (one.ending (p₁ ++ Stmt.relocateAll f (s :: rest))) =
      unplacedEnd (second.ending (s :: rest)) := by
  have hne : Stmt.unplaced (s :: rest) ≠ [] := List.cons_ne_nil _ _
  rw [unplacedEnd_append hend hone hc, Eval.statements_of_ne_nil hne c.unplaced .empty,
    ← ending_unplaced, hsecond]
  rfl

end Parts

/-- A program in two parts, of which the first one comes to its end. -/
theorem evaluate_append {one first second : Session} {p₁ : Program} (hends : first.Completes p₁)
    (hone : one.unplaced = first.unplaced)
    (hsecond : second.unplaced = (first.evaluate p₁).2.2.unplaced) (f : Position → Position)
    (p₂ : Program) :
    let whole := one.evaluate (p₁ ++ Stmt.relocateAll f p₂)
    whole.2.2.standing = (second.evaluate p₂).2.2.standing ∧
      whole.1.gist = (if p₂.isEmpty then (first.evaluate p₁).1 else (second.evaluate p₂).1).gist ∧
      (whole.1.gist.isFailure ∨ (second.evaluate p₂).1.gist.isFailure →
        whole.1.gist = (second.evaluate p₂).1.gist) := by
  intro whole
  obtain ⟨c, n, hend, hc⟩ := hends
  have hsecond : second.unplaced = { first.unplaced with machine := n.unplaced } := by
    rw [hsecond, unplaced_evaluate, unplaced_run, hend]
    rfl
  cases p₂ with
  | nil =>
    -- nothing is run in the second part, and the whole is the first part
    have hwhole : unplacedEnd (one.ending (p₁ ++ Stmt.relocateAll f [])) =
        unplacedEnd (first.ending p₁) := by
      rw [unplacedEnd_append hend hone hc, hend]
      rfl
    have hgist : whole.1.gist = (first.evaluate p₁).1.gist := by
      rw [gist_evaluate, gist_evaluate, hwhole]
    have hvalue : (first.evaluate p₁).1.gist.isFailure = false := by
      rw [gist_evaluate, hend]
      rfl
    refine ⟨?_, hgist, ?_⟩
    · rw [standing_evaluate, standing_evaluate, hwhole, hend, hone]
      change _ = second.unplaced.standing
      rw [hsecond]
      rfl
    · rw [hgist, hvalue, gist_evaluate]
      rintro (h | h) <;> cases h
  | cons s rest =>
    have hwhole := unplacedEnd_append_cons hend hone hsecond hc f s rest
    have hgist : whole.1.gist = (second.evaluate (s :: rest)).1.gist := by
      rw [gist_evaluate, gist_evaluate, hwhole]
    refine ⟨?_, hgist, fun _ => hgist⟩
    rw [standing_evaluate, standing_evaluate, hwhole, hone, hsecond]

/-- Splitting a script into chunks does not change what it does. Where a script without NUL ends in
a line feed and comes to its end in a session, and another script is read as a program, both in a
row are read as a program too. Run as one chunk, it prints the same, asks for the same exit codes,
draws the same random numbers and leaves the same names, bound to the same, as the two chunks one
after the other. It has the value of the second chunk, or that of the first one if the second one
has no statement; and it fails just when the second chunk does, and in the same way. -/
theorem evaluate_chunks {src₁ src₂ : Bytes} {p₁ p₂ : Program} (hnul : 0 ∉ src₁)
    (hline : src₁.getLast? = some 0x0A) (h₁ : Parse.source src₁ = .ok p₁)
    (h₂ : Parse.source src₂ = .ok p₂) (s : Session) (file file₁ file₂ : String)
    (hends : (s.setSource file₁ src₁).Completes p₁) :
    ∃ p, Parse.source (src₁ ++ src₂) = .ok p ∧
      let whole := (s.setSource file (src₁ ++ src₂)).evaluate p
      let first := (s.setSource file₁ src₁).evaluate p₁
      let second := (first.2.2.setSource file₂ src₂).evaluate p₂
      whole.2.2.standing = second.2.2.standing ∧
        whole.1.gist = (if p₂.isEmpty then first.1 else second.1).gist ∧
        (whole.1.gist.isFailure ∨ second.1.gist.isFailure → whole.1.gist = second.1.gist) := by
  have hsource : Parse.source (src₁ ++ src₂) =
      .ok (p₁ ++ Stmt.relocateAll (Position.below (src₁.count 0x0A)) p₂) := by
    rw [Parse.source, Grammar.tokens_append hnul hline h₁ src₂]
    exact Grammar.program_append (Grammar.lexical_tokenize _) (Grammar.lexical_tokenize _) h₁ h₂ _
  have hone : (s.setSource file (src₁ ++ src₂)).unplaced = (s.setSource file₁ src₁).unplaced := rfl
  have hsecond : (((s.setSource file₁ src₁).evaluate p₁).2.2.setSource file₂ src₂).unplaced =
      ((s.setSource file₁ src₁).evaluate p₁).2.2.unplaced := rfl
  exact ⟨_, hsource, evaluate_append hends hone hsecond _ p₂⟩

/-- The second chunk calls a function of the first one, in which an error arises. -/
theorem evaluate_chunks_failing_call :
    let s := new ⟨Settings.defaultLimit, .plain, 0, false, false⟩
    let src₁ := Bytes.ofString "fn f() \x7b x; \x7d\n"
    let src₂ := Bytes.ofString "f();"
    0 ∉ src₁ ∧ src₁.getLast? = some 0x0A ∧
      ∃ p₁, Parse.source src₁ = .ok p₁ ∧ (s.setSource "first" src₁).Completes p₁ ∧
        ∃ p, Parse.source (src₁ ++ src₂) = .ok p ∧
          ((s.setSource "both" (src₁ ++ src₂)).evaluate p).1.gist =
            .error .name "'x' is not declared" ["f"] := by
  intro s src₁ src₂
  have hnul : 0 ∉ src₁ := by decide
  have hline : src₁.getLast? = some 0x0A := by decide
  -- both chunks are derived from the grammar
  let expr (c : Grammar.Call) : Grammar.Expr :=
    (Grammar.Operation.mk (.unary (.behind c [])) .nil : Grammar.Operation .factor).expr
  let x : Token := ⟨.ident, "x", ⟨1, 10⟩⟩
  let f : Token := ⟨.ident, "f", ⟨1, 1⟩⟩
  let declaration : Grammar.Stmt := .function ⟨⟨.kwFn, "fn", ⟨1, 1⟩⟩, rfl⟩
    ⟨⟨.ident, "f", ⟨1, 4⟩⟩, rfl⟩ ⟨⟨.lparen, "(", ⟨1, 5⟩⟩, rfl⟩ .none
    ⟨⟨.rparen, ")", ⟨1, 6⟩⟩, rfl⟩ .none
    (.mk ⟨⟨.lbrace, "\x7b", ⟨1, 8⟩⟩, rfl⟩
      (.cons (.expr (expr (.mk (.atom x _ (.name rfl)) .nil))
        ⟨⟨.semicolon, ";", ⟨1, 11⟩⟩, rfl⟩) .nil)
      ⟨⟨.rbrace, "\x7d", ⟨1, 13⟩⟩, rfl⟩)
  let call : Grammar.Stmt := .expr
    (expr (.mk (.atom f _ (.name rfl))
      (.cons ⟨⟨.lparen, "(", ⟨1, 2⟩⟩, rfl⟩ .none ⟨⟨.rparen, ")", ⟨1, 3⟩⟩, rfl⟩ .nil)))
    ⟨⟨.semicolon, ";", ⟨1, 4⟩⟩, rfl⟩
  have h₁ := (Grammar.source_eq_ok_iff src₁ [declaration.tree]).mpr
    ⟨.cons declaration .nil, by with_unfolding_all rfl, rfl⟩
  have h₂ := (Grammar.source_eq_ok_iff src₂ [call.tree]).mpr
    ⟨.cons call .nil, by with_unfolding_all rfl, rfl⟩
  have hends : (s.setSource "first" src₁).Completes [declaration.tree] := ⟨.empty, _, rfl, rfl⟩
  obtain ⟨p, hp, -, hgist, -⟩ := evaluate_chunks hnul hline h₁ h₂ s "both" "first" "second" hends
  refine ⟨hnul, hline, _, h₁, hends, p, hp, hgist.trans ?_⟩
  with_unfolding_all rfl

end Session

end TagScript
