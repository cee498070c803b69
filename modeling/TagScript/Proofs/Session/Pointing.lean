import TagScript.Proofs.Grammar.Append
import TagScript.Proofs.Session.Origin
import TagScript.Proofs.Token.Numbering

/-!
# Errors Point at Tokens

The nodes of a tree stand where tokens of the script stand (`relocateAll_of_source`), and a token is
found in the lines of the script at its position (`Token.exists_line_of_token`). So an error that
arises in a script quotes the line of a token, and its column is that of the first character of the
token (`error_points_at_token`).
-/

namespace TagScript

/-- What leaves alone the tokens of a script leaves alone the program it is read as. -/
theorem Grammar.relocateAll_of_source {f : Position → Position} {src : Bytes} {p : Program}
    (h : Parse.source src = .ok p)
    (hf : ∀ t ∈ (Token.tokenize src.decode).tokens, f t.position = t.position) :
    TagScript.Stmt.relocateAll f p = p := by
  obtain ⟨d, htokens, rfl⟩ := (source_eq_ok_iff src p).mp h
  obtain ⟨d', htokens', htrees⟩ := d.exists_relocate f
  have hsame : d.tokens.map (Token.relocate f) = d.tokens := by
    refine (List.map_congr_left fun t ht => ?_).trans (List.map_id _)
    rw [Token.relocate, hf t (htokens ▸ ht), id]
  -- the tokens are derived with the new tree too, but they are read as one tree only
  have hagain := (source_eq_ok_iff src _).mpr ⟨d', htokens'.trans (hsame.trans htokens), htrees⟩
  exact Except.ok.inj (hagain.symm.trans h)

namespace Session

/-- An error of a script that is run first stands at a position that is found in its program. -/
theorem position_runScript {f : Position → Position} {settings : Settings} {c : Script}
    {e : RuntimeError} (hf : Stmt.relocateAll f c.program = c.program)
    (h : ((new settings).runScript c).1 = .error e) : f e.position = e.position :=
  position_run (s := (new settings).setSource c.file c.source) hf (Store.relocate_new f) h

/-- An error of a script that is run first points at a token of it. The error stands at a node of
the program and at the token, and has the name of the script. Where each CR of the script stands
right before an LF, the line it quotes is the one of its position, with CR LF read as LF, and the
character at its column is the first one that the token is written with. -/
theorem error_points_at_token (settings : Settings) (c : Script) (hcr : c.source.CrBeforeLf)
    {e : RuntimeError} (h : ((new settings).runScript c).1 = .error e) :
    e.position ∈ Stmt.positionsAll c.program ∧ e.file = c.file ∧
      1 ≤ e.position.line ∧ 1 ≤ e.position.column ∧
      (c.source.readCrLf.splitOn 0x0A)[(e.position.line - 1).toNat]? = some e.line ∧
      ∃ t ∈ (Token.tokenize c.source.decode).tokens, t.position = e.position ∧
        ∃ first more, Token.Spells (first :: more) t.kind t.text ∧
          e.line.decode[(e.position.column - 1).toNat]? = some first := by
  obtain ⟨hfile, hquote⟩ := script_run h
  -- the nodes are left alone by what leaves alone the nodes, and by what leaves alone the tokens
  have hnode : e.position.keep (Stmt.positionsAll c.program) = e.position :=
    position_runScript (Stmt.relocateAll_eq_self c.program
      fun p hp => Position.keep_eq_self_iff.mpr hp) h
  have htoken : e.position.keep ((Token.tokenize c.source.decode).tokens.map Token.position) =
      e.position :=
    position_runScript (Grammar.relocateAll_of_source c.reads
      fun t ht => Position.keep_eq_self_iff.mpr (List.mem_map_of_mem ht)) h
  obtain ⟨t, ht, hposition⟩ := List.mem_map.mp (Position.keep_eq_self_iff.mp htoken)
  obtain ⟨hline, hcolumn, hlines, line, first, more, hget, hspells, hchar⟩ :=
    Token.exists_line_of_token hcr ht
  rw [hposition] at hline hcolumn hget hchar
  obtain rfl : e.line = line := by
    rw [hquote, Context.lineAt, if_pos (by omega)]
    show (c.source.lines[(e.position.line - 1).toNat]?).getD [] = line
    rw [hget]
    rfl
  exact ⟨Position.keep_eq_self_iff.mp hnode, hfile, hline, hcolumn, hlines ▸ hget, t, ht,
    hposition, first, more, hspells, hchar⟩

/-- A script with a function that uses a name which is not declared, behind a character of two
bytes on a line that ends in CR LF. -/
def undeclaredScript : Script where
  file := "main"
  source := Bytes.ofString "fn f() \x7b\r\n  \"é\"; x;\r\n\x7d\r\nf();"
  program :=
    [.function ⟨1, 1⟩ "f" [] none
      [.expr ⟨2, 3⟩ (.string ⟨2, 3⟩ "é"), .expr ⟨2, 8⟩ (.name ⟨2, 8⟩ "x")],
      .expr ⟨4, 1⟩ (.call ⟨4, 1⟩ (.name ⟨4, 1⟩ "f") [])]
  reads := by
    have htokens :
        (Token.tokenize (Bytes.ofString "fn f() \x7b\r\n  \"é\"; x;\r\n\x7d\r\nf();").decode).tokens =
        [⟨.kwFn, "fn", ⟨1, 1⟩⟩, ⟨.ident, "f", ⟨1, 4⟩⟩, ⟨.lparen, "(", ⟨1, 5⟩⟩,
          ⟨.rparen, ")", ⟨1, 6⟩⟩, ⟨.lbrace, "\x7b", ⟨1, 8⟩⟩, ⟨.string, "é", ⟨2, 3⟩⟩,
          ⟨.semicolon, ";", ⟨2, 6⟩⟩, ⟨.ident, "x", ⟨2, 8⟩⟩, ⟨.semicolon, ";", ⟨2, 9⟩⟩,
          ⟨.rbrace, "\x7d", ⟨3, 1⟩⟩, ⟨.ident, "f", ⟨4, 1⟩⟩, ⟨.lparen, "(", ⟨4, 2⟩⟩,
          ⟨.rparen, ")", ⟨4, 3⟩⟩, ⟨.semicolon, ";", ⟨4, 4⟩⟩] := by decide +kernel
    rw [Parse.source, htokens]
    cbv

/-- The error that arises where the function is called. -/
def undeclaredError : RuntimeError :=
  ⟨.undeclared "x", "main", ⟨2, 8⟩, Bytes.ofString "  \"é\"; x;", ["f"]⟩

/-- The error points at the name on the second line. -/
theorem error_points_at_token_undeclared :
    let s := new ⟨Settings.defaultLimit, .plain, 0, false, false⟩
    undeclaredScript.source.CrBeforeLf ∧
      (s.runScript undeclaredScript).1 = .error undeclaredError ∧
      (undeclaredScript.source.readCrLf.splitOn 0x0A)[1]? = some undeclaredError.line ∧
      ∃ t ∈ (Token.tokenize undeclaredScript.source.decode).tokens, t.position = ⟨2, 8⟩ ∧
        ∃ first more, Token.Spells (first :: more) t.kind t.text ∧
          undeclaredError.line.decode[7]? = some first := by
  intro s
  have hcr : undeclaredScript.source.CrBeforeLf := by decide
  have hrun : (s.runScript undeclaredScript).1 = .error undeclaredError := by
    with_unfolding_all rfl
  obtain ⟨-, -, -, -, hline, htoken⟩ := error_points_at_token _ undeclaredScript hcr hrun
  exact ⟨hcr, hrun, hline, htoken⟩

end Session

end TagScript
