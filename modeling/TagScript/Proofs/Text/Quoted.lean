import TagScript.Proofs.Token.Lexemes
import TagScript.Text.Quoted

/-!
# Reading Quoted Texts

A quoted text is one string literal for the scanner (`lexemes_quoted`), but the scanner knows fewer
escapes than there are. Behind a backslash it takes a character without a meaning of its own for
itself, so that a character may come back as others (`readBack`). It comes back as itself if it is
written without an escape or with one that the scanner knows (`readBack_eq_iff`), and a text comes
back as itself if all its characters do (`flatMap_readBack_eq_iff`).
-/

namespace TagScript.Text

open Token (StringScan scanString unescape)

/-- What the scanner reads where one character is written in a literal. -/
def readEscape : List Char → List Char
  | '\\' :: d :: more => unescape d :: more
  | cs => cs

/-- What the scanner reads where a character is written inside a quoted text. -/
def readBack (c : Char) : List Char :=
  readEscape (escape c)

/-- The escapes that the scanner reads as the characters they are written for. -/
def knownEscapes : List (List Char) :=
  [['\\', 'n'], ['\\', 't'], ['\\', 'r'], ['\\', '"'], ['\\', '\\']]

/-- The character is written as it is or with a known escape. -/
def IsReadable (c : Char) : Prop :=
  escape c = [c] ∨ escape c ∈ knownEscapes

instance (c : Char) : Decidable (IsReadable c) :=
  inferInstanceAs (Decidable (_ ∨ _))

section Escapes

/-- The digits of escapes. -/
def isHexDigit (c : Char) : Bool :=
  c ∈ "0123456789abcdef".toList

/-- A digit to the base of sixteen is written as one. -/
theorem isHexDigit_hexChar {d : Nat} (h : d < 16) : isHexDigit (hexChar d) = true := by
  have hall : ∀ d : Fin 16, isHexDigit (hexChar d) = true := by decide
  exact hall ⟨d, h⟩

/-- All digits of an escape are digits to the base of sixteen. -/
theorem isHexDigit_of_mem_hexDigits {k n : Nat} {c : Char} (h : c ∈ hexDigits k n) :
    isHexDigit c = true := by
  induction k generalizing n with
  | zero => cases h
  | succ k ih =>
    rw [hexDigits, List.mem_append, List.mem_singleton] at h
    rcases h with hfront | rfl
    · exact ih hfront
    · exact isHexDigit_hexChar (Nat.mod_lt _ (by decide))

/-- An escape has as many digits as its letter asks for. -/
theorem length_hexDigits (k n : Nat) : (hexDigits k n).length = k := by
  induction k generalizing n with
  | zero => rfl
  | succ k ih => rw [hexDigits, List.length_append, ih, List.length_singleton]

/-- The ways to write a character. -/
inductive Escape (c : Char) : List Char → Prop
  /-- The quote and the backslash. -/
  | sign (h : c = '"' ∨ c = '\\') : Escape c ['\\', c]
  /-- As it is. -/
  | plain (hquote : c ≠ '"') (hback : c ≠ '\\') (h : isPrintable c = true) : Escape c [c]
  /-- A control with a letter of its own. -/
  | letter {d : Char} (h : controlLetter? c = some d) : Escape c ['\\', d]
  /-- With digits. -/
  | digits {d : Char} {more : List Char} (hd : d ∈ ['x', 'u', 'U']) (hlength : 2 ≤ more.length)
      (h : ∀ e ∈ more, isHexDigit e = true) : Escape c ('\\' :: d :: more)

/-- A character is written as one of the four forms. -/
theorem escape_spec (c : Char) : Escape c (escape c) := by
  have hdigits (d : Char) (hd : d ∈ ['x', 'u', 'U']) (k : Nat) (hk : 2 ≤ k) :
      Escape c ('\\' :: d :: hexDigits k c.toNat) :=
    .digits hd (by rwa [length_hexDigits]) fun _ => isHexDigit_of_mem_hexDigits
  unfold escape
  by_cases hsign : c = '"' ∨ c = '\\'
  · rw [if_pos hsign]
    exact .sign hsign
  rw [if_neg hsign]
  by_cases hprintable : isPrintable c = true
  · rw [if_pos hprintable]
    exact .plain (fun h => hsign (.inl h)) (fun h => hsign (.inr h)) hprintable
  rw [if_neg hprintable]
  cases hletter : controlLetter? c with
  | some d => exact .letter hletter
  | none =>
    dsimp only
    split
    · exact hdigits 'x' (by decide) 2 (by decide)
    · split
      · exact hdigits 'u' (by decide) 4 (by decide)
      · exact hdigits 'U' (by decide) 8 (by decide)

/-- The controls with letters of their own. -/
theorem controlLetter?_cases {c d : Char} (h : controlLetter? c = some d) :
    (c, d) ∈ [(Char.ofNat 0x07, 'a'), (Char.ofNat 0x08, 'b'), (Char.ofNat 0x0C, 'f'), ('\n', 'n'),
      ('\r', 'r'), ('\t', 't'), (Char.ofNat 0x0B, 'v')] := by
  have hc : Char.ofNat c.toNat = c := Char.ofNat_toNat c
  unfold controlLetter? at h
  split at h
  next hnat => rw [← hc, hnat, ← Option.some.inj h]; decide
  next hnat => rw [← hc, hnat, ← Option.some.inj h]; decide
  next hnat => rw [← hc, hnat, ← Option.some.inj h]; decide
  next hnat => rw [← hc, hnat, ← Option.some.inj h]; decide
  next hnat => rw [← hc, hnat, ← Option.some.inj h]; decide
  next hnat => rw [← hc, hnat, ← Option.some.inj h]; decide
  next hnat => rw [← hc, hnat, ← Option.some.inj h]; decide
  next => cases h

/-- No control is written as it is. -/
theorem isPrintable_control {c : Char} (h : c.toNat < 0x20) : isPrintable c = false := by
  have hranges : ∀ range ∈ printableRanges, 0x20 ≤ range.1 := by decide +kernel
  rw [isPrintable, List.any_eq_false]
  intro range hrange hboth
  simp only [Bool.and_eq_true, decide_eq_true_eq] at hboth
  have := hranges range hrange
  omega

/-- A printable character is no control. -/
theorem ne_of_isPrintable {c d : Char} (h : isPrintable c = true) (hd : d.toNat < 0x20) :
    c ≠ d := by
  rintro rfl
  rw [isPrintable_control hd] at h
  cases h

theorem ne_of_isHexDigit {c d : Char} (h : isHexDigit c = true) (hd : isHexDigit d = false) :
    c ≠ d := by
  rintro rfl
  rw [hd] at h
  cases h

/-- No NUL stands in a quoted text. -/
theorem nul_not_mem_escape (c : Char) : Char.ofNat 0 ∉ escape c := by
  intro h
  have hspec := escape_spec c
  generalize escape c = cs at h hspec
  cases hspec with
  | sign hsign =>
    rcases hsign with rfl | rfl <;> revert h <;> decide
  | plain _ _ hprintable =>
    exact ne_of_isPrintable hprintable (by decide) (List.mem_singleton.mp h).symm
  | @letter d hletter =>
    have hd : d ∈ ['a', 'b', 'f', 'n', 'r', 't', 'v'] :=
      List.mem_map_of_mem (f := Prod.snd) (controlLetter?_cases hletter)
    rcases List.mem_cons.mp h with h | h
    · exact absurd h (by decide)
    · obtain rfl := List.mem_singleton.mp h
      exact absurd hd (by decide)
  | digits hd _ hmore =>
    rcases List.mem_cons.mp h with h | h
    · exact absurd h (by decide)
    rcases List.mem_cons.mp h with rfl | h
    · exact absurd hd (by decide)
    · exact absurd (hmore _ h) (by decide)

end Escapes

section Scanning

variable {cs more : List Char}

/-- Characters that neither end a literal nor start an escape are read as they are. -/
theorem scanString_plain_append (h : ∀ c ∈ cs, c ≠ '"' ∧ c ≠ '\n' ∧ c ≠ '\\') (more : List Char) :
    scanString (cs ++ more) =
      { scanString more with
        content := cs ++ (scanString more).content, slice := cs ++ (scanString more).slice } := by
  induction cs with
  | nil => rfl
  | cons c cs ih =>
    rw [List.forall_mem_cons] at h
    obtain ⟨⟨hquote, hline, hback⟩, hcs⟩ := h
    rw [List.cons_append, Token.scanString_plain hquote hline hback, ih hcs]
    rfl

theorem readEscape_singleton (c : Char) : readEscape [c] = [c] := by
  unfold readEscape
  split
  next heq => simp at heq
  next => rfl

/-- One character of a quoted text. -/
theorem scanString_escape (c : Char) (more : List Char) :
    scanString (escape c ++ more) =
      { scanString more with
        content := readBack c ++ (scanString more).content
        slice := escape c ++ (scanString more).slice } := by
  have hspec := escape_spec c
  unfold readBack
  generalize escape c = cs at hspec
  cases hspec with
  | sign hsign => rfl
  | plain hquote hback hprintable =>
    have hline : c ≠ '\n' := ne_of_isPrintable hprintable (by decide)
    rw [scanString_plain_append (by simp [hquote, hback, hline]), readEscape_singleton]
  | letter hletter => rfl
  | digits hd _ hmore =>
    have hplain : ∀ e ∈ _, e ≠ '"' ∧ e ≠ '\n' ∧ e ≠ '\\' := fun e he =>
      have hhex := hmore e he
      ⟨ne_of_isHexDigit hhex (by decide), ne_of_isHexDigit hhex (by decide),
        ne_of_isHexDigit hhex (by decide)⟩
    rw [List.cons_append, List.cons_append, scanString, scanString_plain_append hplain]
    rfl

/-- A quoted text is read up to its closing quote. -/
theorem scanString_quoted (cs more : List Char) :
    scanString (cs.flatMap escape ++ '"' :: more) =
      ⟨cs.flatMap readBack, cs.flatMap escape ++ ['"'], more, .closed⟩ := by
  induction cs with
  | nil => rfl
  | cons c cs ih =>
    rw [List.flatMap_cons, List.append_assoc, scanString_escape, ih, List.flatMap_cons,
      List.append_assoc]

/-- A quoted text is one token. -/
theorem lexemes_quoted (s : String) (more : List Char) :
    ∃ slice, Token.lexemes ((quote s).toList ++ more) =
      ⟨.string, String.ofList (s.toList.flatMap readBack), slice⟩ :: Token.lexemes more := by
  have hquote : (quote s).toList ++ more = '"' :: (s.toList.flatMap escape ++ '"' :: more) := by
    simp [quote]
  rw [hquote, Token.lexemes_token (by decide) (by simp)]
  have hlexeme : Token.lexeme '"' (s.toList.flatMap escape ++ '"' :: more) =
      (⟨.string, String.ofList (s.toList.flatMap readBack),
        '"' :: (s.toList.flatMap escape ++ ['"'])⟩, more) := by
    unfold Token.lexeme
    rw [if_neg (by decide), if_neg (by decide), if_pos rfl]
    simp only [scanString_quoted]
  rw [hlexeme]
  exact ⟨_, rfl⟩

end Scanning

section ReadingBack

/-- Every character is read back as at least one. -/
theorem readBack_ne_nil (c : Char) : readBack c ≠ [] := by
  have hspec := escape_spec c
  unfold readBack
  generalize escape c = cs at hspec
  cases hspec with
  | plain => rw [readEscape_singleton]; simp
  | _ => simp [readEscape]

/-- A character comes back as itself if it is written as it is or with a known escape. -/
theorem readBack_eq_iff (c : Char) : readBack c = [c] ↔ IsReadable c := by
  have hspec := escape_spec c
  unfold readBack IsReadable
  generalize escape c = cs at hspec
  cases hspec with
  | sign hsign => rcases hsign with rfl | rfl <;> decide
  | plain => rw [readEscape_singleton]; simp
  | letter hletter =>
    -- three of the letters are known to the scanner
    have hall : ∀ pair ∈ [(Char.ofNat 0x07, 'a'), (Char.ofNat 0x08, 'b'), (Char.ofNat 0x0C, 'f'),
        ('\n', 'n'), ('\r', 'r'), ('\t', 't'), (Char.ofNat 0x0B, 'v')],
        readEscape ['\\', pair.2] = [pair.1] ↔
          ['\\', pair.2] = [pair.1] ∨ ['\\', pair.2] ∈ knownEscapes := by decide
    exact hall _ (controlLetter?_cases hletter)
  | digits hd hlength hmore =>
    -- too much is written and read
    refine iff_of_false ?_ ?_
    · intro h
      have := congrArg List.length h
      simp only [readEscape, List.length_cons, List.length_nil] at this
      omega
    · rintro (h | h)
      · have := congrArg List.length h
        simp only [List.length_cons, List.length_nil] at this
        omega
      · have hall : ∀ cs ∈ knownEscapes, cs.length = 2 := by decide
        have := hall _ h
        simp only [List.length_cons] at this
        omega

/-- Where every character comes back as one or more, a text comes back as itself only if each of its
characters does. -/
theorem flatMap_eq_self_iff {α : Type} {f : α → List α} (hf : ∀ a, f a ≠ []) (l : List α) :
    l.flatMap f = l ↔ ∀ a ∈ l, f a = [a] := by
  have hlength (l : List α) : l.length ≤ (l.flatMap f).length := by
    induction l with
    | nil => exact Nat.le_refl 0
    | cons a l ih =>
      have hpos := List.length_pos_iff.mpr (hf a)
      rw [List.flatMap_cons, List.length_append, List.length_cons]
      omega
  induction l with
  | nil => simp
  | cons a l ih =>
    rw [List.flatMap_cons, List.forall_mem_cons]
    constructor
    · intro h
      obtain ⟨b, bs, hb⟩ := List.exists_cons_of_ne_nil (hf a)
      rw [hb] at h ⊢
      rw [List.cons_append, List.cons.injEq] at h
      obtain ⟨rfl, htail⟩ := h
      -- what is left is as long as the text, so no more of it belongs to the first character
      have hbs : bs = [] := by
        have htotal := congrArg List.length htail
        have hrest := hlength l
        rw [List.length_append] at htotal
        exact List.eq_nil_of_length_eq_zero (by omega)
      subst hbs
      exact ⟨rfl, ih.mp htail⟩
    · rintro ⟨ha, hl⟩
      rw [ha, ih.mpr hl]
      rfl

/-- A text comes back as itself if its characters do. -/
theorem flatMap_readBack_eq_iff (cs : List Char) :
    cs.flatMap readBack = cs ↔ ∀ c ∈ cs, IsReadable c := by
  rw [flatMap_eq_self_iff readBack_ne_nil]
  exact forall₂_congr fun c _ => readBack_eq_iff c

end ReadingBack

end TagScript.Text
