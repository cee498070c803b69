import TagScript.Proofs.Token.Layout

/-!
# Tokens Without Their Places

What a token is does not depend on where it stands. `lexemes` is the list of the tokens of a text
without their positions; it can be read off the front of the text, one blank (`lexemes_space`), one
comment (`lexemes_comment`) or one token (`lexemes_token`) at a time.
-/

namespace TagScript.Token

/-- The tokens of a text, without their places. -/
def lexemes (cs : List Char) : List Lexeme :=
  (pieces cs).1.map Piece.lexeme

variable {c : Char} {cs gap rest : List Char}

theorem lexemes_of_gap (h : splitGap false cs = (gap, [])) : lexemes cs = [] := by
  unfold lexemes pieces
  split
  next => rfl
  next hsplit =>
    rw [h] at hsplit
    cases hsplit

theorem lexemes_of_token (h : splitGap false cs = (gap, c :: rest)) :
    lexemes cs = (lexeme c rest).1 :: lexemes (lexeme c rest).2 := by
  rw [lexemes, pieces]
  split
  next hsplit =>
    rw [h] at hsplit
    cases hsplit
  next hsplit =>
    rw [h] at hsplit
    cases hsplit
    rfl

@[simp]
theorem lexemes_nil : lexemes [] = [] :=
  lexemes_of_gap rfl

/-- Texts with the same text behind their gaps have the same tokens. -/
theorem lexemes_congr {cs ds : List Char} (h : (splitGap false cs).2 = (splitGap false ds).2) :
    lexemes cs = lexemes ds := by
  cases hrest : (splitGap false cs).2 with
  | nil =>
    rw [lexemes_of_gap (Prod.ext rfl hrest), lexemes_of_gap (Prod.ext rfl (h.symm.trans hrest))]
  | cons c rest =>
    rw [lexemes_of_token (Prod.ext rfl hrest), lexemes_of_token (Prod.ext rfl (h.symm.trans hrest))]

/-- A blank is no part of a token. -/
theorem lexemes_space (h : isSpace c = true) (cs : List Char) : lexemes (c :: cs) = lexemes cs := by
  apply lexemes_congr
  rw [splitGap, if_neg Bool.false_ne_true, if_pos h]

/-- A text that starts neither with a blank nor with a comment starts with a token. -/
theorem lexemes_token (hspace : isSpace c = false)
    (hslash : ¬ (c = '/' ∧ rest.head? = some '/')) :
    lexemes (c :: rest) = (lexeme c rest).1 :: lexemes (lexeme c rest).2 :=
  lexemes_of_token (splitGap_of_start hspace hslash)

/-- Inside a comment everything up to the end of the line is passed over. -/
theorem splitGap_comment {body tail : List Char} (hbody : '\n' ∉ body)
    (htail : ∀ d, tail.head? = some d → d = '\n') :
    (splitGap true (body ++ tail)).2 = (splitGap false tail).2 := by
  induction body with
  | nil =>
    cases tail with
    | nil => rfl
    | cons d tail =>
      -- the line feed ends the comment, and is a blank behind it
      obtain rfl := htail d rfl
      rfl
  | cons c body ih =>
    rw [List.mem_cons, not_or] at hbody
    have hc : decide (c ≠ '\n') = true := decide_eq_true fun h => hbody.1 h.symm
    rw [List.cons_append, splitGap, if_pos rfl, hc]
    exact ih hbody.2

/-- A comment is no part of a token. It ends with its line. -/
theorem lexemes_comment {body tail : List Char} (hbody : '\n' ∉ body)
    (htail : ∀ d, tail.head? = some d → d = '\n') :
    lexemes ('/' :: '/' :: (body ++ tail)) = lexemes tail := by
  apply lexemes_congr
  have hslash : '\n' ∉ '/' :: body := by simp [hbody]
  have hcomment := splitGap_comment hslash htail
  rw [splitGap, if_neg Bool.false_ne_true, if_neg (by decide), if_pos ⟨rfl, rfl⟩]
  exact hcomment

/-- Tokens are placed as they were cut off. -/
theorem map_place {α : Type} (f : Kind → String → α) (p : Position) (ps : List Piece) :
    (place p ps).1.map (fun t => f t.kind t.text) =
      ps.map fun piece => f piece.lexeme.kind piece.lexeme.text := by
  induction ps generalizing p with
  | nil => rfl
  | cons piece ps ih =>
    rw [place, List.map_cons, List.map_cons]
    exact congrArg _ (ih _)

/-- What the tokens of a text are, apart from their places. -/
theorem map_tokens_tokenize {α : Type} (f : Kind → String → α) (cs : List Char) :
    (tokenize cs).tokens.map (fun t => f t.kind t.text) =
      (lexemes (scanned cs)).map fun l => f l.kind l.text := by
  rw [lexemes, List.map_map]
  exact map_place f .start _

/-- A text without NUL is scanned as a whole. -/
theorem scanned_eq_self {cs : List Char} (h : Char.ofNat 0 ∉ cs) : scanned cs = cs := by
  refine List.takeWhile_eq_self_iff.mpr fun c hc => decide_eq_true ?_
  rintro rfl
  exact h hc

end TagScript.Token
