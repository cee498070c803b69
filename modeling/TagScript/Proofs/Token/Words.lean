import Mathlib.Data.List.Forall2
import TagScript.Proofs.Decimal.Numerals
import TagScript.Proofs.Text.Quoted

/-!
# The Words of a Text

A word is a token without its place and without the way it is written. Some characters are scanned
as some words (`Scans`) if these are the words in front of whatever closes a value: a comma, a
semicolon or a closing bracket or parenthesis. Integers, reserved words, names and quoted texts are
scanned as words of their own, and phrases with commas between them are scanned one after the other
(`Scans.separated`).
-/

namespace TagScript.Token

/-- A token without its place: its kind and its text. -/
abbrev Word := Kind × String

/-- The token as a word. -/
def word (t : Token) : Word :=
  (t.kind, t.text)

/-- The words of a text. -/
def words (cs : List Char) : List Word :=
  (lexemes cs).map fun l => (l.kind, l.text)

/-- The tokens of a text are its words. -/
theorem map_word_tokenize {cs : List Char} (h : Char.ofNat 0 ∉ cs) :
    (tokenize cs).tokens.map word = words cs := by
  rw [words, ← scanned_eq_self h, ← map_tokens_tokenize (fun kind text => (kind, text)),
    scanned_eq_self h]
  rfl

/-- The text starts with a character that may follow a value, or is empty. -/
def Closing (tail : List Char) : Prop :=
  ∀ d, tail.head? = some d → d ∈ [',', ';', ')', ']']

/-- In front of what closes a value the characters are scanned as the words. -/
def Scans (cs : List Char) (ws : List Word) : Prop :=
  ∀ tail, Closing tail → words (cs ++ tail) = ws ++ words tail

section Signs

variable {c : Char} {rest : List Char}

theorem words_nil : words [] = [] := by
  rw [words, lexemes_nil, List.map_nil]

/-- A blank adds no word. -/
theorem words_space (h : isSpace c = true) (rest : List Char) : words (c :: rest) = words rest := by
  rw [words, lexemes_space h, words]

/-- What starts with neither a blank nor a slash starts with a lexeme. -/
theorem words_token {l : Lexeme} {more : List Char} (hspace : isSpace c = false)
    (hslash : c ≠ '/') (h : lexeme c rest = (l, more)) :
    words (c :: rest) = (l.kind, l.text) :: words more := by
  rw [words, lexemes_token hspace (fun hboth => hslash hboth.1), h, List.map_cons, words]

/-- A sign of one character. -/
theorem words_sign {kind : Kind} (hletter : isLetter c = false) (hdigit : Decimal.isDigit c = false)
    (hspace : isSpace c = false) (hslash : c ≠ '/') (hquote : c ≠ '"')
    (h : sign? c rest.head? = some (kind, false)) :
    words (c :: rest) = (kind, String.singleton c) :: words rest := by
  have hlexeme : lexeme c rest = (.verbatim kind [c], rest) := by
    unfold lexeme
    rw [if_neg (by simp [hletter]), if_neg (by simp [hdigit]), if_neg hquote]
    simp only [h]
  rw [words_token hspace hslash hlexeme]
  rfl

/-- The signs that no other character goes on with. -/
def singleSigns : List (Char × Kind) :=
  [(',', .comma), (';', .semicolon), ('(', .lparen), (')', .rparen), ('[', .lbracket),
    (']', .rbracket)]

/-- A sign of one character is a word, whatever follows. -/
theorem words_single {kind : Kind} (h : (c, kind) ∈ singleSigns) (rest : List Char) :
    words (c :: rest) = (kind, String.singleton c) :: words rest := by
  have hall : ∀ sign ∈ singleSigns, isLetter sign.1 = false ∧ Decimal.isDigit sign.1 = false ∧
      isSpace sign.1 = false ∧ sign.1 ≠ '/' ∧ sign.1 ≠ '"' := by decide
  obtain ⟨hletter, hdigit, hspace, hslash, hquote⟩ := hall _ h
  refine words_sign hletter hdigit hspace hslash hquote ?_
  simp only [singleSigns, List.mem_cons, List.not_mem_nil, or_false, Prod.mk.injEq] at h
  rcases h with ⟨rfl, rfl⟩ | ⟨rfl, rfl⟩ | ⟨rfl, rfl⟩ | ⟨rfl, rfl⟩ | ⟨rfl, rfl⟩ | ⟨rfl, rfl⟩ <;> rfl

/-- A minus sign in front of a number. -/
theorem words_minus (h : rest.head? ≠ some '-') :
    words ('-' :: rest) = (.minus, "-") :: words rest := by
  refine words_sign (by decide) (by decide) (by decide) (by decide) (by decide) ?_
  simp [sign?, h]

end Signs

section Phrases

variable {tail : List Char}

/-- What closes a word is no part of one. -/
theorem Closing.cons {d : Char} (h : d ∈ [',', ';', ')', ']']) (tail : List Char) :
    Closing (d :: tail) := by
  rintro _ ⟨⟩
  exact h

/-- Nothing that closes a value goes on with a word or a number. -/
theorem Closing.takeWhile_append (h : Closing tail) {p : Char → Bool}
    (hp : [',', ';', ')', ']'].any p = false) {cs : List Char} (hcs : ∀ c ∈ cs, p c = true) :
    (cs ++ tail).takeWhile p = cs ∧ (cs ++ tail).dropWhile p = tail := by
  rw [List.takeWhile_append_of_pos hcs, List.dropWhile_append_of_pos hcs]
  cases tail with
  | nil => simp
  | cons d tail => simp [List.any_eq_false.mp hp d (h d rfl)]

/-- A letter is part of a word. -/
theorem isWordChar_of_isLetter {c : Char} (h : isLetter c = true) : isWordChar c = true := by
  rw [isWordChar, h, Bool.true_or]

/-- A digit is part of a word. -/
theorem isWordChar_of_isDigit {c : Char} (h : Decimal.isDigit c = true) : isWordChar c = true := by
  rw [isWordChar, h, Bool.or_true]

/-- A digit is no letter, so no word starts with it. -/
theorem isLetter_of_isDigit {c : Char} (h : Decimal.isDigit c = true) : isLetter c = false := by
  rw [← Bool.not_eq_true]
  simp only [isLetter, Decimal.isDigit, Bool.or_eq_true, Bool.and_eq_true, decide_eq_true_eq,
    Char.le_def, UInt32.le_iff_toNat_le] at h ⊢
  rintro ((hlower | hupper) | rfl)
  · exact absurd (Nat.le_trans hlower.1 h.2) (by decide)
  · exact absurd (Nat.le_trans hupper.1 h.2) (by decide)
  · exact absurd h (by decide)

/-- A word starts neither with a blank nor with a slash. -/
theorem start_of_isWordChar {c : Char} (h : isWordChar c = true) : isSpace c = false ∧ c ≠ '/' := by
  have hne {d : Char} (hd : isWordChar d = false) : c ≠ d := by
    rintro rfl
    rw [hd] at h
    cases h
  refine ⟨?_, hne rfl⟩
  simp [isSpace, hne (d := ' ') rfl, hne (d := '\t') rfl, hne (d := '\r') rfl, hne (d := '\n') rfl]

/-- Letters and digits are scanned as one word. -/
theorem words_letters {c : Char} {cs tail : List Char} (hletter : isLetter c = true)
    (htake : (c :: cs ++ tail).takeWhile isWordChar = c :: cs)
    (hdrop : (c :: cs ++ tail).dropWhile isWordChar = tail) :
    words (c :: cs ++ tail) =
      (.ofWord (String.ofList (c :: cs)), String.ofList (c :: cs)) :: words tail := by
  obtain ⟨hspace, hslash⟩ := start_of_isWordChar (isWordChar_of_isLetter hletter)
  have hlexeme : lexeme c (cs ++ tail) =
      (.verbatim (.ofWord (String.ofList (c :: cs))) (c :: cs), tail) := by
    unfold lexeme
    rw [if_pos hletter]
    simp only [← List.cons_append, htake, hdrop]
  exact words_token hspace hslash hlexeme

/-- A word is scanned as one, up to what closes it. -/
theorem Scans.letters {c : Char} {cs : List Char} (hletter : isLetter c = true)
    (hcs : cs.all isWordChar = true) :
    Scans (c :: cs) [(.ofWord (String.ofList (c :: cs)), String.ofList (c :: cs))] := by
  intro tail htail
  have hword : ∀ d ∈ c :: cs, isWordChar d = true :=
    List.forall_mem_cons.mpr ⟨isWordChar_of_isLetter hletter, List.all_eq_true.mp hcs⟩
  obtain ⟨htake, hdrop⟩ := htail.takeWhile_append (by decide) hword
  exact words_letters hletter htake hdrop

/-- Digits are scanned as one number. -/
theorem Scans.digits {ds : List Char} (hne : ds ≠ []) (hds : ∀ d ∈ ds, Decimal.isDigit d = true) :
    Scans ds [(.int, String.ofList ds)] := by
  intro tail htail
  obtain ⟨htake, hdrop⟩ := htail.takeWhile_append (by decide) hds
  have hscan : scanNumber (ds ++ tail) = (.verbatim .int ds, tail) := by
    unfold scanNumber
    rw [htake, hdrop]
    split
    -- a fraction would start with a point, which closes nothing
    next d rest => exact absurd (htail '.' rfl) (by decide)
    next => rfl
  obtain ⟨c, cs, rfl⟩ := List.exists_cons_of_ne_nil hne
  have hc : Decimal.isDigit c = true := hds c List.mem_cons_self
  obtain ⟨hspace, hslash⟩ := start_of_isWordChar (isWordChar_of_isDigit hc)
  have hlexeme : lexeme c (cs ++ tail) = (.verbatim .int (c :: cs), tail) := by
    unfold lexeme
    rw [if_neg (by simp [isLetter_of_isDigit hc]), if_pos hc]
    exact hscan
  exact words_token hspace hslash hlexeme

/-- The words of an integer: its magnitude, behind a sign if it is negative. -/
def integerWords (i : Int) : List Word :=
  (if i < 0 then [(.minus, "-")] else []) ++ [(.int, String.ofList (Nat.toDigits 10 i.natAbs))]

/-- A whole number is scanned as its digits, with a sign in front if it is negative. -/
theorem Scans.integer (i : Int) : Scans (toString i).toList (integerWords i) := by
  intro tail htail
  have hdigits : ∀ d ∈ Nat.toDigits 10 i.natAbs, Decimal.isDigit d = true :=
    fun _ => Decimal.isDigit_of_mem_toDigits
  have hmagnitude := Scans.digits Nat.toDigits_ne_nil hdigits tail htail
  rw [Decimal.toList_toString_int, integerWords, List.append_assoc, List.append_assoc]
  by_cases hneg : i < 0
  · rw [if_pos hneg, if_pos hneg, List.singleton_append, List.singleton_append, words_minus,
      hmagnitude]
    -- the first digit is no other sign
    obtain ⟨d, ds, hd⟩ := List.exists_cons_of_ne_nil (Nat.toDigits_ne_nil (n := i.natAbs) (b := 10))
    have hdigit := hdigits d (by rw [hd]; exact List.mem_cons_self)
    rw [hd]
    rintro ⟨⟩
    exact absurd hdigit (by decide)
  · rw [if_neg hneg, if_neg hneg, List.nil_append, List.nil_append, hmagnitude]

/-- A quoted text is scanned as a string. -/
theorem Scans.quoted (s : String) :
    Scans (Text.quote s).toList [(.string, String.ofList (s.toList.flatMap Text.readBack))] := by
  intro tail _
  obtain ⟨slice, hlexemes⟩ := Text.lexemes_quoted s tail
  rw [words, hlexemes]
  rfl

/-- Phrases with commas between them. -/
theorem Scans.separated {css : List (List Char)} {wss : List (List Word)}
    (h : List.Forall₂ Scans css wss) :
    Scans (", ".toList.intercalate css) ([(.comma, ",")].intercalate wss) := by
  induction h with
  | nil => exact fun tail _ => rfl
  | @cons cs ws css wss hscans hmore ih =>
    cases hmore with
    | nil => rwa [List.intercalate_singleton, List.intercalate_singleton]
    | cons hnext hrest =>
      intro tail htail
      have hclosing (rest : List Char) : Closing (", ".toList ++ rest) := .cons (by decide) _
      have hcomma (rest : List Char) :
          words (", ".toList ++ rest) = (.comma, ",") :: words rest := by
        have hblank : words (' ' :: rest) = words rest := words_space (by decide) rest
        have hsign : words (',' :: ' ' :: rest) = (.comma, ",") :: words (' ' :: rest) :=
          words_single (by decide) _
        rw [hblank] at hsign
        exact hsign
      rw [List.intercalate_cons_cons, List.intercalate_cons_cons]
      simp only [List.append_assoc]
      rw [hscans _ (hclosing _), hcomma, ih tail htail]
      rfl

/-- What is scanned as some words is so in brackets, too. -/
theorem Scans.bracketed {cs : List Char} {ws : List Word} (h : Scans cs ws) :
    Scans ('[' :: cs ++ [']']) ((.lbracket, "[") :: ws ++ [(.rbracket, "]")]) := by
  intro tail _
  have hclosing : Closing (']' :: tail) := .cons (by decide) tail
  have hleft : words ('[' :: (cs ++ ']' :: tail)) = (.lbracket, "[") :: words (cs ++ ']' :: tail) :=
    words_single (by decide) _
  have hright : words (']' :: tail) = (.rbracket, "]") :: words tail :=
    words_single (by decide) tail
  simp only [List.cons_append, List.append_assoc, List.nil_append]
  rw [hleft, h _ hclosing, hright]

/-- What is scanned as some words is so as the arguments of `range`, too. -/
theorem Scans.ranged {cs : List Char} {ws : List Word} (h : Scans cs ws) :
    Scans ("range(".toList ++ cs ++ [')'])
      ((.ident, "range") :: (.lparen, "(") :: ws ++ [(.rparen, ")")]) := by
  intro tail _
  have hclosing : Closing (')' :: tail) := .cons (by decide) tail
  have hname : words ("range".toList ++ '(' :: (cs ++ ')' :: tail)) =
      (.ident, "range") :: words ('(' :: (cs ++ ')' :: tail)) :=
    words_letters (c := 'r') (by decide) rfl rfl
  have hleft : words ('(' :: (cs ++ ')' :: tail)) = (.lparen, "(") :: words (cs ++ ')' :: tail) :=
    words_single (by decide) _
  have hright : words (')' :: tail) = (.rparen, ")") :: words tail := words_single (by decide) tail
  have htext : "range(".toList ++ cs ++ [')'] ++ tail =
      "range".toList ++ '(' :: (cs ++ ')' :: tail) := by simp
  rw [htext, hname, hleft, h _ hclosing, hright]
  simp

end Phrases

end TagScript.Token
