import TagScript.Proofs.Grammar.Exact
import TagScript.Proofs.Grammar.Relocate
import TagScript.Proofs.Grammar.Source
import TagScript.Proofs.Text.Decode

/-!
# Reading Line after Line

A program is a sequence of statements, and each of them is complete by itself: no token behind a
program is taken to be part of it. So the tokens of two programs are read as one program
(`program_append`). A script that ends in a line feed can be read by itself, and what stands below
it too: the script as a whole is read as both, one after the other (`source_append`).
-/

namespace TagScript.Grammar

theorem Stmts.exists_append (d e : Stmts) :
    ∃ d' : Stmts, d'.tokens = d.tokens ++ e.tokens ∧ d'.trees = d.trees ++ e.trees := by
  cases d with
  | nil => exact ⟨e, rfl, rfl⟩
  | cons s more =>
    obtain ⟨more', htokens, htrees⟩ := Stmts.exists_append more e
    refine ⟨.cons s more', ?_, ?_⟩
    · rw [tokens, tokens, htokens, List.append_assoc]
    · rw [trees, trees, htrees, List.cons_append]

/-- The tokens of two programs are read as one, wherever those of the second one stand. -/
theorem program_append {ts us : List Token} {p q : Program} (hts : Lexical ts) (hus : Lexical us)
    (hp : Parse.program ts = .ok p) (hq : Parse.program us = .ok q) (f : Position → Position) :
    Parse.program (ts ++ us.map (Token.relocate f)) = .ok (p ++ Stmt.relocateAll f q) := by
  obtain ⟨d, rfl, rfl⟩ := program_sound ts hts hp
  obtain ⟨e, rfl, rfl⟩ := program_sound us hus hq
  obtain ⟨e', htokens, htrees⟩ := e.exists_relocate f
  obtain ⟨both, hbothTokens, hbothTrees⟩ := d.exists_append e'
  rw [← htokens, ← htrees, ← hbothTokens, ← hbothTrees]
  exact both.program_complete

/-- The tokens of a script that is read as a program, and of what stands below it. -/
theorem tokens_append {src₁ : Bytes} {p : Program} (hnul : 0 ∉ src₁)
    (hline : src₁.getLast? = some 0x0A) (hp : Parse.source src₁ = .ok p) (src₂ : Bytes) :
    (Token.tokenize (src₁ ++ src₂).decode).tokens = (Token.tokenize src₁.decode).tokens ++
      (Token.tokenize src₂.decode).tokens.map
        (Token.relocate (Position.below (src₁.count 0x0A))) := by
  have hend : EndsIn '\n' src₁.decode := by
    intro c hc
    rw [Bytes.getLast?_decode hline] at hc
    exact (Option.some.inj hc).symm
  -- NUL and line feeds are counted alike in bytes and in characters
  have hchars : Char.ofNat 0 ∉ src₁.decode := by
    rw [← List.count_eq_zero] at hnul ⊢
    exact (Bytes.count_decode (a := 0) (by decide) src₁).trans hnul
  have hcount : src₁.decode.count '\n' = src₁.count 0x0A :=
    Bytes.count_decode (a := 0x0A) (by decide) src₁
  -- a program has no token outside the language
  have hlegal : Legal (Token.tokenize src₁.decode).tokens := by
    obtain ⟨d, htokens, -⟩ := program_sound _ (lexical_tokenize _) hp
    rw [← htokens]
    exact d.legal
  rw [Bytes.decode_append hline, Token.tokens_tokenize_append hchars hend hlegal, hcount]

/-- Reading is compositional. Where a script without NUL ends in a line feed and is read as a
program, and another script is read as a program too, the two scripts in a row are read as both
programs in a row: every position of the second one is as many lines further down as the first
script has line feeds, in the same column. -/
theorem source_append {src₁ src₂ : Bytes} {p₁ p₂ : Program} (hnul : 0 ∉ src₁)
    (hline : src₁.getLast? = some 0x0A) (h₁ : Parse.source src₁ = .ok p₁)
    (h₂ : Parse.source src₂ = .ok p₂) :
    Parse.source (src₁ ++ src₂) =
      .ok (p₁ ++ Stmt.relocateAll (Position.below (src₁.count 0x0A)) p₂) := by
  rw [Parse.source, tokens_append hnul hline h₁ src₂]
  exact program_append (lexical_tokenize _) (lexical_tokenize _) h₁ h₂ _

/-- A choice without a second part stays one, although a sign follows it, and a line feed inside a
string counts as well. -/
theorem source_append_sign_below_choice :
    let src₁ := Bytes.ofString "if \"\\\n\" \x7b\x7d // x\n"
    let src₂ := Bytes.ofString "-y;"
    0 ∉ src₁ ∧ src₁.getLast? = some 0x0A ∧
      Parse.source (src₁ ++ src₂) =
        .ok [.branch ⟨1, 1⟩ (.string ⟨1, 4⟩ "\n") [] none,
          .expr ⟨3, 1⟩ (.unary ⟨3, 1⟩ .minus (.name ⟨3, 2⟩ "y"))] := by
  intro src₁ src₂
  have hnul : 0 ∉ src₁ := by decide
  have hline : src₁.getLast? = some 0x0A := by decide
  have hcount : src₁.count 0x0A = 2 := by decide
  -- both scripts are derived from the grammar
  let expr (u : Unary) : Expr := (Operation.mk (.unary u) .nil : Operation .factor).expr
  let text : Token := ⟨.string, "\n", ⟨1, 4⟩⟩
  let name : Token := ⟨.ident, "y", ⟨1, 2⟩⟩
  let choice : Stmt := .branch (.mk ⟨⟨.kwIf, "if", ⟨1, 1⟩⟩, rfl⟩
    (expr (.behind (.mk (.atom text _ (.string rfl)) .nil) []))
    (.mk ⟨⟨.lbrace, "\x7b", ⟨2, 3⟩⟩, rfl⟩ .nil ⟨⟨.rbrace, "\x7d", ⟨2, 4⟩⟩, rfl⟩) .none)
  let negation : Stmt := .expr
    (expr (.front ⟨.minus, "-", ⟨1, 1⟩⟩ .minus .minus
      (.behind (.mk (.atom name _ (.name rfl)) .nil) [])))
    ⟨⟨.semicolon, ";", ⟨1, 3⟩⟩, rfl⟩
  have h₁ := (source_eq_ok_iff src₁ [choice.tree]).mpr
    ⟨.cons choice .nil, by with_unfolding_all rfl, rfl⟩
  have h₂ := (source_eq_ok_iff src₂ [negation.tree]).mpr
    ⟨.cons negation .nil, by with_unfolding_all rfl, rfl⟩
  have hboth := source_append hnul hline h₁ h₂
  rw [hcount] at hboth
  exact ⟨hnul, hline, hboth⟩

end TagScript.Grammar
