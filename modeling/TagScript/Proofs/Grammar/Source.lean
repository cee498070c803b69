import TagScript.Proofs.Grammar.Sound.Stmt
import TagScript.Proofs.Grammar.Complete.Stmt

/-!
# Scripts and the Grammar

The tokens of a text are written as the grammar asks for: a number is digits, or digits on both
sides of a point. So a script is read as a program if and only if the grammar derives its tokens
(`source_eq_ok_iff`).
-/

namespace TagScript.Grammar

open Token (Lexeme Piece)

section Scanning

variable {c : Char} {rest : List Char}

/-- The digits that are cut off a text that starts with one. -/
theorem digits_takeWhile (h : Decimal.isDigit c = true) :
    Digits ((c :: rest).takeWhile Decimal.isDigit) :=
  ⟨by simp [h], List.all_eq_true.mp List.all_takeWhile⟩

/-- A token that is no number is written in no special way. -/
theorem written_of_ne {kind : Token.Kind} (h : kind ≠ .int ∧ kind ≠ .float) (text : String)
    (p : Position) : Written ⟨kind, text, p⟩ :=
  ⟨fun hint => absurd hint h.1, fun hfloat => absurd hfloat h.2⟩

/-- A word is no number. -/
theorem ofWord_ne (word : String) :
    Token.Kind.ofWord word ≠ .int ∧ Token.Kind.ofWord word ≠ .float := by
  unfold Token.Kind.ofWord
  split <;> exact ⟨nofun, nofun⟩

/-- A sign is no number. -/
theorem sign?_ne {next : Option Char} {kind : Token.Kind} {long : Bool}
    (h : Token.sign? c next = some (kind, long)) : kind ≠ .int ∧ kind ≠ .float := by
  unfold Token.sign? at h
  split at h <;> try split at h
  all_goals cases h
  all_goals exact ⟨nofun, nofun⟩

/-- A number is cut off a text that starts with a digit as it should be written. -/
theorem written_scanNumber (h : Decimal.isDigit c = true) (p : Position) :
    Written ⟨(Token.scanNumber (c :: rest)).1.kind, (Token.scanNumber (c :: rest)).1.text, p⟩ := by
  -- without a digit behind the point the number ends in front of it
  have hwhole : Written ⟨.int, String.ofList ((c :: rest).takeWhile Decimal.isDigit), p⟩ := by
    refine ⟨fun _ => ?_, nofun⟩
    rw [String.toList_ofList]
    exact digits_takeWhile h
  unfold Token.scanNumber
  split
  next d more hd =>
    split
    next hdigit =>
      refine ⟨nofun, fun _ => ⟨(c :: rest).takeWhile Decimal.isDigit,
        (d :: more).takeWhile Decimal.isDigit, ?_, digits_takeWhile h, digits_takeWhile hdigit⟩⟩
      exact String.toList_ofList
    next => exact hwhole
  next => exact hwhole

/-- A token is cut off a text as it should be written. -/
theorem written_lexeme (c : Char) (rest : List Char) (p : Position) :
    Written ⟨(Token.lexeme c rest).1.kind, (Token.lexeme c rest).1.text, p⟩ := by
  unfold Token.lexeme
  split
  next => exact written_of_ne (ofWord_ne _) _ p
  next =>
    split
    next hdigit => exact written_scanNumber hdigit p
    next =>
      split
      next =>
        -- a string literal is a string or, where it does not end well, no token at all
        cases hending : (Token.scanString rest).ending <;> simp only [hending]
        all_goals exact ⟨nofun, nofun⟩
      next =>
        split
        next hsign => exact written_of_ne (sign?_ne hsign) _ p
        next hsign => exact written_of_ne (sign?_ne hsign) _ p
        next => exact ⟨nofun, nofun⟩

end Scanning

theorem pieces_lexeme (cs : List Char) :
    ∀ piece ∈ (Token.pieces cs).1, ∃ c rest, piece.lexeme = (Token.lexeme c rest).1 := by
  fun_induction Token.pieces cs with
  | case1 cs gap h => simp
  -- a piece is cut off at the first character behind the gap
  | case2 cs gap c rest h more last hpieces ih =>
    rw [hpieces] at ih
    intro piece hpiece
    obtain rfl | hmore := List.mem_cons.mp hpiece
    · exact ⟨c, rest, rfl⟩
    · exact ih piece hmore

theorem lexical_place (ps : List Piece) (p : Position)
    (h : ∀ piece ∈ ps, ∃ c rest, piece.lexeme = (Token.lexeme c rest).1) :
    Lexical (Token.place p ps).1 := by
  induction ps generalizing p with
  | nil => exact nofun
  | cons piece ps ih =>
    intro t ht
    obtain rfl | hmore := List.mem_cons.mp ht
    · obtain ⟨c, rest, heq⟩ := h piece (.head ps)
      rw [heq]
      exact written_lexeme c rest _
    · exact ih _ (fun piece hpiece => h piece (.tail _ hpiece)) t hmore

/-- The tokens of a text are written as they should be. -/
theorem lexical_tokenize (cs : List Char) : Lexical (Token.tokenize cs).tokens :=
  lexical_place _ .start (pieces_lexeme (Token.scanned cs))

/-- A script is read as a program if and only if the grammar derives its tokens. -/
theorem source_eq_ok_iff (bytes : Bytes) (t : Program) :
    Parse.source bytes = .ok t ↔
      ∃ d : Stmts, d.tokens = (Token.tokenize bytes.decode).tokens ∧ d.trees = t := by
  constructor
  · exact program_sound _ (lexical_tokenize bytes.decode)
  · rintro ⟨d, htokens, rfl⟩
    rw [Parse.source, ← htokens]
    exact d.program_complete

end TagScript.Grammar
