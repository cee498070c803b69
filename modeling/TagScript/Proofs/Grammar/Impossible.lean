import Mathlib.Data.List.Basic
import TagScript.Proofs.Grammar.Pinpoints.Stmt

/-!
# Parse Errors Point at the First Impossible Token

The error about some tokens names the token that makes a program impossible: what stands in front
of it goes on to a program, and no program starts with it and what stands in front of it
(`error_at_first_impossible`). The end of the text counts as a token here, the last one of every
text, so that a text can also be impossible by its end.
-/

namespace TagScript.Parse

open Grammar (afterStmt completes_stmt rest_lt stmt_precise)

/-- The parser of programs, which leaves no tokens. -/
def wholeProgram : Reader Program :=
  fun ts => (program ts).map fun p => (p, [])

/-- No kind: nothing but the end. -/
def noKind (_ : Token.Kind) : Prop := False

/-- If no kind may come next, the tokens are at their end. -/
theorem ahead_noKind {ts : List Token} (h : Ahead noKind ts) : ts = [] := by
  cases ts with
  | nil => rfl
  | cons t ts => exact (ahead_cons.mp h).elim

/-- A program that is not empty starts with a statement. -/
theorem wholeProgram_cons (t : Token) (ts : List Token) :
    wholeProgram (t :: ts) = (do
      let (s, rest) ← plain (stmt (t :: ts))
      let (more, rest) ← wholeProgram rest
      .ok (s :: more, rest)) := by
  unfold wholeProgram
  rw [program_eq]
  dsimp only
  cases plain (stmt (t :: ts)) with
  | error e => rfl
  | ok p =>
    simp only [ok_bind]
    cases program p.2 <;> rfl

/-- A program is refused as a whole where it is refused. -/
theorem wholeProgram_eq_error {ts : List Token} {e : ParseError} :
    wholeProgram ts = .error e ↔ program ts = .error e := by
  unfold wholeProgram
  cases program ts <;> simp [Except.map]

/-- A program is read up to the end of its tokens. -/
theorem wholeProgram_eq_ok {ts rest : List Token} {p : Program} :
    wholeProgram ts = .ok (p, rest) ↔ program ts = .ok p ∧ rest = [] := by
  unfold wholeProgram
  cases program ts <;> simp [Except.map, eq_comm]

/-- The empty program. -/
theorem wholeProgram_nil : wholeProgram [] = .ok ([], []) :=
  wholeProgram_eq_ok.mpr ⟨program_eq [], rfl⟩

/-- A program may end behind each of its statements. -/
theorem completes_wholeProgram : Completes afterStmt noKind wholeProgram := by
  refine ⟨[], [], fun k hk => ?_⟩
  rw [ahead_noKind hk]
  exact ⟨wholeProgram_nil, ahead_nil⟩

/-- Programs are read statement by statement, so their errors are those of the statements. -/
theorem wholeProgram_pinpoints (ts : List Token) :
    Pinpoints afterStmt noKind wholeProgram ts := by
  cases ts with
  | nil =>
    refine .reads [] [] [] rfl (fun k hk => ?_) fun _ _ hkind => hkind.elim
    have hnil : k = [] := hk.elim List.head?_eq_none_iff.mp ahead_noKind
    rw [hnil]
    exact wholeProgram_nil
  | cons t ts =>
    have hstmt := (stmt_precise (t :: ts).length).pinpoints (t :: ts) (Nat.le_refl _)
    refine .peek (.bind hstmt (fun s => ?_) fun s rest hs => ?_) (wholeProgram_cons t)
      completes_wholeProgram fun p rest h => ?_
    · exact completes_wholeProgram.map fun _ _ => rfl
    · have hlt := rest_lt hs
      exact (wholeProgram_pinpoints rest).map fun _ _ => rfl
    · obtain ⟨-, rfl⟩ := wholeProgram_eq_ok.mp ((wholeProgram_cons t ts).trans h)
      exact Nat.succ_pos _
termination_by ts.length
decreasing_by exact hlt

section End

/-- The tokens of a text and its end. -/
def withEnd (ts : List Token) : List (Option Token) := ts.map some ++ [none]

/-- The tokens and the end behind them are a program. -/
def Accepted (us : List (Option Token)) : Prop :=
  ∃ ts p, us = withEnd ts ∧ program ts = .ok p

/-- A text has `u`, a token or its end, where the text becomes impossible: what stands in front of
`u` goes on to a program, and no program starts with it and `u`. -/
def FirstImpossible (ts : List Token) (u : Option Token) : Prop :=
  ∃ before after, withEnd ts = before ++ u :: after ∧
    (∃ us, Accepted us ∧ before <+: us ∧ before ≠ us) ∧
    ∀ us, Accepted us → ¬ before ++ [u] <+: us

variable {front ts : List Token} {u : Option Token}

/-- Only behind the last token there is the end. -/
theorem withEnd_append (front rest : List Token) :
    withEnd (front ++ rest) = front.map some ++ withEnd rest := by
  rw [withEnd, withEnd, List.map_append, List.append_assoc]

/-- What comes next, a token or the end. -/
theorem withEnd_eq_cons (ts : List Token) : ∃ after, withEnd ts = ts.head? :: after := by
  cases ts with
  | nil => exact ⟨[], rfl⟩
  | cons t ts => exact ⟨withEnd ts, rfl⟩

/-- The end stands behind all tokens. -/
theorem map_some_ne_withEnd (front ts : List Token) : front.map some ≠ withEnd ts := by
  intro h
  have hend : none ∈ front.map some := by
    rw [h]
    exact List.mem_append_right _ (List.mem_singleton_self none)
  obtain ⟨t, -, ht⟩ := List.mem_map.mp hend
  cases ht

/-- Texts that start alike have the same tokens in front and the same token or the end behind. -/
theorem exists_of_prefix_withEnd (h : front.map some ++ [u] <+: withEnd ts) :
    ∃ k, ts = front ++ k ∧ k.head? = u := by
  induction front generalizing ts with
  | nil =>
    obtain ⟨after, hafter⟩ := withEnd_eq_cons ts
    rw [hafter] at h
    exact ⟨ts, rfl, (List.cons_prefix_cons.mp h).1.symm⟩
  | cons t front ih =>
    cases ts with
    | nil => cases (List.cons_prefix_cons.mp h).1
    | cons t' ts =>
      obtain ⟨ht, hmore⟩ := List.cons_prefix_cons.mp h
      cases ht
      obtain ⟨k, rfl, hk⟩ := ih hmore
      exact ⟨k, rfl, hk⟩

end End

/-- The message gives the place of the token, or says that it is the end. -/
theorem ParseError.message_eq (e : ParseError) :
    e.message = e.problem.text ++
      match e.found with
      | none => " at end of file"
      | some t => " at " ++ t.position.text ++ " (got " ++ t.kind.name ++ ")" := by
  cases e with
  | mk problem found => cases found <;> simp [message, String.append_assoc]

/-- The error about tokens that are no program is about the first impossible one, and the message
names it. -/
theorem error_at_first_impossible {ts : List Token} {e : ParseError}
    (h : program ts = .error e) :
    FirstImpossible ts e.found ∧
      e.message = e.problem.text ++
        match e.found with
        | none => " at end of file"
        | some t => " at " ++ t.position.text ++ " (got " ++ t.kind.name ++ ")" := by
  refine ⟨?_, e.message_eq⟩
  rw [← wholeProgram_eq_error] at h
  cases wholeProgram_pinpoints ts with
  | reads p front rest split same absent =>
    rw [split, same rest (.inl rfl)] at h
    cases h
  | rejects e' front rest split found same viable =>
    rw [split, same rest rfl] at h
    cases h
    obtain ⟨after, hafter⟩ := withEnd_eq_cons rest
    refine ⟨front.map some, after, ?_, ?_, ?_⟩
    · rw [split, withEnd_append, hafter, found]
    · obtain ⟨more, p, hmore⟩ := viable
      obtain ⟨hp, -⟩ := wholeProgram_eq_ok.mp (hmore [] ahead_nil).1
      rw [List.append_nil] at hp
      refine ⟨withEnd (front ++ more), ⟨_, p, rfl, hp⟩, ?_, map_some_ne_withEnd front _⟩
      rw [withEnd_append]
      exact List.prefix_append _ _
    · rintro us ⟨ts', p, rfl, hp⟩ hstart
      obtain ⟨k, rfl, hk⟩ := exists_of_prefix_withEnd hstart
      -- behind the same tokens the parser fails at the same token
      have herror := wholeProgram_eq_error.mp (same k (hk.trans found))
      rw [hp] at herror
      cases herror

/-- The tokens of `if 1 == x = 2` and an empty block. -/
def assignedComparison : List Token :=
  [⟨.kwIf, "if", ⟨1, 1⟩⟩, ⟨.int, "1", ⟨1, 4⟩⟩, ⟨.eq, "==", ⟨1, 6⟩⟩, ⟨.ident, "x", ⟨1, 9⟩⟩,
    ⟨.assign, "=", ⟨1, 11⟩⟩, ⟨.int, "2", ⟨1, 13⟩⟩, ⟨.lbrace, "\x7b", ⟨1, 15⟩⟩,
    ⟨.rbrace, "\x7d", ⟨1, 16⟩⟩]

/-- A comparison cannot be assigned to, which shows at the sign `=`. -/
theorem error_at_first_impossible_comparison :
    program assignedComparison = .error ⟨.assignmentTarget, some ⟨.assign, "=", ⟨1, 11⟩⟩⟩ ∧
      FirstImpossible assignedComparison (some ⟨.assign, "=", ⟨1, 11⟩⟩) := by
  have herror :
      program assignedComparison = .error ⟨.assignmentTarget, some ⟨.assign, "=", ⟨1, 11⟩⟩⟩ := by
    cbv
  exact ⟨herror, (error_at_first_impossible herror).1⟩

end TagScript.Parse
