import TagScript.Proofs.Text.Lines
import TagScript.Proofs.Token.Layout

/-!
# Tokens in the Quoted Lines

A token carries the line that the scanner counted, and a diagnostic quotes a line of the script by
that number. The scanner takes a line to end at each line feed, and the lines of a script end at the
CRs that stand alone too. So the token is found as many lines further down as CRs stand alone in
front of it (`found_below_lone_crs`), and right at its position where there is none
(`exists_line_of_token`).
-/

namespace TagScript.Token

/-- The place of a token in the lines of a script: `before` stands in front of the token and `first`
is the first character it is written with. -/
structure FoundIn (src : Bytes) (t : Token) (before : List Char) (first : Char) : Prop where
  /-- The character stands behind the others in the text. -/
  text : ∃ after, src.decode = before ++ first :: after
  /-- The token is written with that character first. -/
  spells : ∃ more, Spells (first :: more) t.kind t.text
  /-- The character ends no line. -/
  inLine : first ≠ '\n' ∧ first ≠ '\r'
  /-- The scanner counts the line feeds. -/
  line : t.position.line = 1 + before.count '\n'
  /-- The scanner counts the characters behind the last line feed. -/
  column : t.position.column = 1 + (before.reverse.takeWhile (· ≠ '\n')).length
  /-- The character is in the line that many lines below, behind what stands before it there. -/
  found : ∃ line, src.lines[(t.position.line - 1).toNat + Bytes.loneCrs before]? = some line ∧
    line.decode[(Bytes.lastLine before).length]? = some first

variable {src : Bytes} {t : Token} {before : List Char} {first : Char}

/-- A script with a character in it is not empty. -/
theorem ne_nil_of_decode {after : List Char} (h : src.decode = before ++ first :: after) :
    src ≠ [] := by
  rintro rfl
  simp [Bytes.decode] at h

/-- A token is found in the lines of the script. -/
theorem exists_foundIn (ht : t ∈ (tokenize src.decode).tokens) :
    ∃ before first, FoundIn src t before first := by
  obtain ⟨before, c, more, after, hdecode, hline, hcolumn, hspells, hspace⟩ := exists_place ht
  -- a token starts with no blank, so its first character ends no line
  have hlf : c ≠ '\n' := by
    rintro rfl
    cases hspace
  have hcr : c ≠ '\r' := by
    rintro rfl
    cases hspace
  have hnumber : (t.position.line - 1).toNat = before.count '\n' := by
    omega
  have hfound := Bytes.exists_line hdecode hlf hcr
  rw [Bytes.lineEnds, ← Bytes.lines_eq_splitLines (ne_nil_of_decode hdecode), ← hnumber]
    at hfound
  exact ⟨before, c, ⟨after, hdecode⟩, ⟨more, hspells⟩, ⟨hlf, hcr⟩, hline, hcolumn, hfound⟩

namespace FoundIn

theorem one_le (h : FoundIn src t before first) :
    1 ≤ t.position.line ∧ 1 ≤ t.position.column := by
  have hline := h.line
  have hcolumn := h.column
  omega

theorem ne_nil (h : FoundIn src t before first) : src ≠ [] := by
  obtain ⟨after, hdecode⟩ := h.text
  exact ne_nil_of_decode hdecode

/-- The script has the line that the token carries. -/
theorem line_le_length (h : FoundIn src t before first) :
    t.position.line ≤ src.lines.length := by
  obtain ⟨line, hget, -⟩ := h.found
  obtain ⟨hlt, -⟩ := List.getElem?_eq_some_iff.mp hget
  have hone := h.one_le.1
  omega

/-- Where no CR stands alone in front of it, the token is found at its position. -/
theorem at_position (h : FoundIn src t before first) (hlone : Bytes.loneCrs before = 0) :
    ∃ line, src.lines[(t.position.line - 1).toNat]? = some line ∧
      line.decode[(t.position.column - 1).toNat]? = some first := by
  obtain ⟨line, hget, hchar⟩ := h.found
  have hcolumn : (t.position.column - 1).toNat = (Bytes.lastLine before).length := by
    rw [Bytes.lastLine_of_loneCrs hlone, h.column]
    omega
  exact ⟨line, by rwa [hlone] at hget, by rwa [hcolumn]⟩

/-- Where each CR of the script stands right before an LF, none stands alone in front of a token. -/
theorem loneCrs_eq_zero (h : FoundIn src t before first) (hcr : src.CrBeforeLf) :
    Bytes.loneCrs before = 0 := by
  obtain ⟨after, hdecode⟩ := h.text
  have hle := Bytes.loneCrs_le_append h.inLine.1 before after
  rw [← hdecode, Bytes.loneCrs_of_crBeforeLf hcr] at hle
  exact Nat.le_zero.mp hle

end FoundIn

/-- Where each CR of the script stands right before an LF, a token is found at its position. -/
theorem exists_line_of_token (hcr : src.CrBeforeLf) (ht : t ∈ (tokenize src.decode).tokens) :
    1 ≤ t.position.line ∧ 1 ≤ t.position.column ∧ src.lines = src.readCrLf.splitOn 0x0A ∧
      ∃ (line : Bytes) (c : Char) (more : List Char),
        src.lines[(t.position.line - 1).toNat]? = some line ∧ Spells (c :: more) t.kind t.text ∧
        line.decode[(t.position.column - 1).toNat]? = some c := by
  obtain ⟨before, first, h⟩ := exists_foundIn ht
  obtain ⟨line, hget, hchar⟩ := h.at_position (h.loneCrs_eq_zero hcr)
  obtain ⟨more, hspells⟩ := h.spells
  refine ⟨h.one_le.1, h.one_le.2, ?_, line, first, more, hget, hspells, hchar⟩
  rw [Bytes.lines_eq_splitLines h.ne_nil, Bytes.splitLines_eq_splitOn hcr]

/-- A script has the line that a token carries, and the token is found in its lines as many lines
further down as CRs stand alone in front of it. Where there is no such CR, the first character of
the token is the one at its position. -/
theorem found_below_lone_crs (ht : t ∈ (tokenize src.decode).tokens) :
    t.position.line ≤ src.lines.length ∧
      ∃ before first, FoundIn src t before first ∧
        (Bytes.loneCrs before = 0 →
          ∃ line, src.lines[(t.position.line - 1).toNat]? = some line ∧
            line.decode[(t.position.column - 1).toNat]? = some first) := by
  obtain ⟨before, first, h⟩ := exists_foundIn ht
  exact ⟨h.line_le_length, before, first, h, h.at_position⟩

/-- A script with a line that ends in CR LF and one that ends in a CR. -/
def mixedSource : Bytes :=
  Bytes.ofString "a;\r\nb;\rc;"

/-- The name behind the CR is on the second line as the scanner counts, and found on the third. -/
theorem found_below_lone_crs_mixed :
    (⟨.ident, "c", ⟨2, 4⟩⟩ : Token) ∈ (tokenize mixedSource.decode).tokens ∧
      mixedSource.lines = ["a;", "b;", "c;"].map Bytes.ofString ∧
      (2 : Int) ≤ mixedSource.lines.length ∧
      ∃ before first, FoundIn mixedSource ⟨.ident, "c", ⟨2, 4⟩⟩ before first := by
  have htokens : (tokenize mixedSource.decode).tokens =
      [⟨.ident, "a", ⟨1, 1⟩⟩, ⟨.semicolon, ";", ⟨1, 2⟩⟩, ⟨.ident, "b", ⟨2, 1⟩⟩,
        ⟨.semicolon, ";", ⟨2, 2⟩⟩, ⟨.ident, "c", ⟨2, 4⟩⟩, ⟨.semicolon, ";", ⟨2, 5⟩⟩] := by decide +kernel
  have ht : ⟨.ident, "c", ⟨2, 4⟩⟩ ∈ (tokenize mixedSource.decode).tokens := by
    rw [htokens]
    simp
  obtain ⟨hline, before, first, hfound, -⟩ := found_below_lone_crs ht
  exact ⟨ht, by decide +kernel, hline, before, first, hfound⟩

/-- Behind a CR that stands alone, the line that a token carries is not the one it stands in: it has
not even the column of the token. -/
theorem quoted_line_misses_token :
    (⟨.ident, "x", ⟨1, 4⟩⟩ : Token) ∈ (tokenize (Bytes.ofString "1;\rx;").decode).tokens ∧
      (Bytes.ofString "1;\rx;").lines[0]? = some (Bytes.ofString "1;") ∧
      (Bytes.ofString "1;").decode[3]? = none := by
  have htokens : (tokenize (Bytes.ofString "1;\rx;").decode).tokens =
      [⟨.int, "1", ⟨1, 1⟩⟩, ⟨.semicolon, ";", ⟨1, 2⟩⟩, ⟨.ident, "x", ⟨1, 4⟩⟩,
        ⟨.semicolon, ";", ⟨1, 5⟩⟩] := by decide +kernel
  refine ⟨?_, by decide +kernel, by decide +kernel⟩
  rw [htokens]
  simp

end TagScript.Token
