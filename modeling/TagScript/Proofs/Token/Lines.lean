import Mathlib.Data.List.TakeWhile
import TagScript.Proofs.Tree.Relocate
import TagScript.Token.Scan

/-!
# Scanning Line after Line

No token of the language and no comment reaches from one line into the next, except for a string
with a line feed behind a backslash, and such a string has a quote behind the line feed. So where
some lines are all scanned into tokens of the language, what stands below them is scanned as if it
stood alone, only at positions below these lines (`tokens_tokenize_append`).
-/

namespace TagScript

/-- A list that has no last element other than `a`. -/
def EndsIn {α : Type} (a : α) (l : List α) : Prop :=
  ∀ x, l.getLast? = some x → x = a

namespace EndsIn

variable {α : Type} {a x : α} {l l' : List α}

/-- The end of a list is the end of what stands at its end. -/
theorem of_append (h : EndsIn a (l ++ l')) : EndsIn a l' := by
  intro x hx
  exact h x (by simp [List.getLast?_append, hx])

/-- A list without its head ends as before. -/
theorem tail (h : EndsIn a (x :: l)) : EndsIn a l :=
  of_append (l := [x]) h

/-- Behind something else the last element is still to come. -/
theorem ne_nil (h : EndsIn a (x :: l)) (hx : x ≠ a) : l ≠ [] := by
  rintro rfl
  exact hx (h x rfl)

/-- The last element is one of the list. -/
theorem mem (h : EndsIn a l) (hl : l ≠ []) : a ∈ l := by
  rw [← h _ (List.getLast?_eq_some_getLast hl)]
  exact List.getLast_mem hl

end EndsIn

section Prefixes

variable {α : Type} {p : α → Bool} {a : α} {l : List α}

/-- What is taken stops within the list, whatever comes behind it. -/
theorem takeWhile_append_of_mem (ha : a ∈ l) (hp : p a = false) (l' : List α) :
    (l ++ l').takeWhile p = l.takeWhile p := by
  rw [List.takeWhile_append, if_neg]
  intro h
  have hself : l.takeWhile p = l := (List.takeWhile_prefix p).eq_of_length h
  have hall := List.takeWhile_eq_self_iff.mp hself
  simp [hall a ha] at hp

/-- What is dropped stops within the list, whatever comes behind it. -/
theorem dropWhile_append_of_mem (ha : a ∈ l) (hp : p a = false) (l' : List α) :
    (l ++ l').dropWhile p = l.dropWhile p ++ l' := by
  rw [List.dropWhile_append, if_neg]
  intro h
  have hall := List.dropWhile_eq_nil_iff.mp (List.isEmpty_iff.mp h)
  simp [hall a ha] at hp

end Prefixes

attribute [ext] Position

namespace Position

variable (n : Nat) (p : Position)

/-- To move down by whole lines and over a character may be done in either order. -/
theorem next_below (c : Char) : (p.below n).next c = (p.next c).below n := by
  unfold next below
  split
  · simp [Int.add_right_comm]
  · rfl

/-- To move down by whole lines and over a text may be done in either order. -/
theorem advance_below (cs : List Char) : (p.below n).advance cs = (p.advance cs).below n := by
  induction cs generalizing p with
  | nil => rfl
  | cons c cs ih => rw [advance_cons, advance_cons, next_below, ih]

/-- A text moves down by its line feeds. -/
theorem line_advance (cs : List Char) : (p.advance cs).line = p.line + cs.count '\n' := by
  induction cs generalizing p with
  | nil => simp
  | cons c cs ih =>
    rw [advance_cons, ih, List.count_cons, next]
    by_cases hc : c = '\n'
    · simp [hc]
      omega
    · simp [hc]

/-- Behind some lines the next line starts. -/
theorem advance_start {cs : List Char} (hcs : EndsIn '\n' cs) :
    start.advance cs = start.below (cs.count '\n') := by
  have hline := line_advance start cs
  rcases List.eq_nil_or_concat cs with rfl | ⟨body, c, rfl⟩
  · rfl
  · obtain rfl : c = '\n' := hcs c (by simp)
    rw [List.concat_eq_append] at hline ⊢
    have hcolumn : (start.advance (body ++ ['\n'])).column = 1 := by
      rw [advance_append]
      rfl
    exact Position.ext hline hcolumn

end Position

namespace Token

/-- The token with its position `p` replaced by `f p`. -/
def relocate (f : Position → Position) (t : Token) : Token :=
  { t with position := f t.position }

/-- Behind a line, the blanks and comments in front of a token go on as at the start of a text. -/
theorem splitGap_line (comment : Bool) {cs : List Char} (hcs : EndsIn '\n' cs)
    (hcomment : comment = true → cs ≠ []) (ds : List Char) :
    splitGap comment (cs ++ ds) =
      if (splitGap comment cs).2 = [] then
        ((splitGap comment cs).1 ++ (splitGap false ds).1, (splitGap false ds).2)
      else ((splitGap comment cs).1, (splitGap comment cs).2 ++ ds) := by
  induction cs generalizing comment with
  | nil =>
    cases comment with
    | true => exact absurd rfl (hcomment rfl)
    | false => simp [splitGap]
  | cons c rest ih =>
    have hrest := hcs.tail
    cases comment with
    | true =>
      -- the comment goes on unless this character ends the line
      have hgo := ih (c ≠ '\n') hrest (fun h => hcs.ne_nil (of_decide_eq_true h))
      simp only [List.cons_append, splitGap, if_true, hgo]
      split <;> rfl
    | false =>
      -- a slash is not the last character of the line, so the next one is the same
      have hslash :
          c = '/' ∧ (rest ++ ds).head? = some '/' ↔ c = '/' ∧ rest.head? = some '/' := by
        refine and_congr_right fun hc => ?_
        obtain ⟨d, more, rfl⟩ := List.exists_cons_of_ne_nil (hcs.ne_nil (by rw [hc]; decide))
        rfl
      simp only [List.cons_append, splitGap, Bool.false_eq_true, if_false, hslash]
      by_cases hspace : isSpace c = true
      · have hgo := ih false hrest (by simp)
        simp only [if_pos hspace, hgo]
        split <;> rfl
      · simp only [if_neg hspace]
        split
        next hc =>
          have hgo := ih true hrest fun _ => hcs.ne_nil (by rw [hc.1]; decide)
          simp only [hgo]
          split <;> rfl
        next => simp

/-- A character that starts no escape, neither at the end of a text nor before it, is no
backslash. -/
theorem ne_backslash {c : Char} {rest : List Char} (hback : c = '\\' → rest = [] → False)
    (hescape : ∀ d more, c = '\\' → rest = d :: more → False) : c ≠ '\\' := by
  intro hc
  cases rest with
  | nil => exact hback hc rfl
  | cons d more => exact hescape d more hc rfl

/-- A character that neither ends a string nor starts an escape denotes itself. -/
theorem scanString_plain {c : Char} (hquote : c ≠ '"') (hline : c ≠ '\n') (hback : c ≠ '\\')
    (rest : List Char) : scanString (c :: rest) = (scanString rest).cons c [c] := by
  rw [scanString]
  · exact hquote
  · exact hline
  · exact fun hc => absurd hc hback
  · exact fun _ _ hc => absurd hc hback

/-- Behind its closing quote a string has ended. -/
theorem scanString_append_of_closed {cs : List Char} (h : (scanString cs).ending = .closed)
    (ds : List Char) :
    scanString (cs ++ ds) = { scanString cs with rest := (scanString cs).rest ++ ds } := by
  fun_induction scanString cs with
  | case2 rest => simp [scanString]
  | case5 c rest ih => simp [scanString, ih h, StringScan.cons]
  | case6 c rest hquote hline hback hescape ih =>
    have hplain := ne_backslash hback hescape
    rw [List.cons_append, scanString_plain hquote hline hplain, ih h]
    rfl
  | _ => cases h

/-- A number ends with its line. -/
theorem scanNumber_line {cs : List Char} (hcs : EndsIn '\n' cs) (hne : cs ≠ []) (ds : List Char) :
    scanNumber (cs ++ ds) = ((scanNumber cs).1, (scanNumber cs).2 ++ ds) := by
  have hmem := hcs.mem hne
  have htake := takeWhile_append_of_mem hmem (p := Decimal.isDigit) rfl ds
  have hdrop := dropWhile_append_of_mem hmem (p := Decimal.isDigit) rfl ds
  have hend : EndsIn '\n' (cs.dropWhile Decimal.isDigit) := by
    rw [← List.takeWhile_append_dropWhile (p := Decimal.isDigit) (l := cs)] at hcs
    exact hcs.of_append
  have hstop : cs.dropWhile Decimal.isDigit ≠ [] := by
    intro h
    exact absurd (List.dropWhile_eq_nil_iff.mp h '\n' hmem) (by decide)
  obtain ⟨c, more, hmore⟩ := List.exists_cons_of_ne_nil hstop
  rw [hmore] at hend hdrop
  unfold scanNumber
  rw [htake, hdrop, hmore, List.cons_append]
  by_cases hc : c = '.'
  · -- a point is not the last character of the line
    subst hc
    obtain ⟨d, more, rfl⟩ := List.exists_cons_of_ne_nil (hend.ne_nil (by decide))
    have hmem := hend.tail.mem (List.cons_ne_nil d more)
    have htake := takeWhile_append_of_mem hmem (p := Decimal.isDigit) rfl ds
    have hdrop := dropWhile_append_of_mem hmem (p := Decimal.isDigit) rfl ds
    rw [List.cons_append] at htake hdrop ⊢
    simp only [htake, hdrop]
    split <;> rfl
  · split
    next heq => exact absurd (List.cons.inj heq).1 hc
    next =>
      split
      next heq => exact absurd (List.cons.inj heq).1 hc
      next => rfl

/-- A token of the language ends with its line. -/
theorem lexeme_line {c : Char} {rest : List Char} (hcs : EndsIn '\n' (c :: rest))
    (hlegal : (lexeme c rest).1.kind ≠ .illegal) (ds : List Char) :
    lexeme c (rest ++ ds) = ((lexeme c rest).1, (lexeme c rest).2 ++ ds) := by
  -- a word and a number end before the line feed, which is no part of them
  have hmem := hcs.mem (List.cons_ne_nil c rest)
  have htake := takeWhile_append_of_mem hmem (p := isWordChar) rfl ds
  have hdrop := dropWhile_append_of_mem hmem (p := isWordChar) rfl ds
  have hnumber := scanNumber_line hcs (List.cons_ne_nil c rest) ds
  rw [List.cons_append] at htake hdrop hnumber
  unfold lexeme at hlegal ⊢
  split
  · rw [htake, hdrop]
  · split
    · exact hnumber
    · split
      next hletter hdigit hquote =>
        -- a string without its closing quote is no token of the language
        have hclosed : (scanString rest).ending = .closed := by
          simp only [if_neg hletter, if_neg hdigit, if_pos hquote] at hlegal
          cases hending : (scanString rest).ending <;> simp_all
        simp only [scanString_append_of_closed hclosed, hclosed]
      next hletter hdigit hquote =>
        simp only [if_neg hletter, if_neg hdigit, if_neg hquote] at hlegal
        -- a line feed is no sign, so a sign has a character of its line behind it
        have hne : rest ≠ [] := by
          refine hcs.ne_nil ?_
          rintro rfl
          exact hlegal rfl
        obtain ⟨d, more, rfl⟩ := List.exists_cons_of_ne_nil hne
        rw [List.cons_append, List.head?_cons, List.head?_cons]
        split <;> simp_all

/-- The tokens of a text that starts at `p`. -/
def tokensFrom (p : Position) (cs : List Char) : List Token :=
  (place p (pieces cs).1).1

/-- A text that is one gap has no tokens. -/
theorem tokensFrom_of_gap {cs gap : List Char} (h : splitGap false cs = (gap, [])) (p : Position) :
    tokensFrom p cs = [] := by
  unfold tokensFrom pieces
  split
  next => rfl
  next hsplit =>
    rw [h] at hsplit
    cases hsplit

/-- Behind a gap there is one token, and then the tokens of the rest. -/
theorem tokensFrom_of_token {cs gap rest : List Char} {c : Char}
    (h : splitGap false cs = (gap, c :: rest)) (p : Position) :
    tokensFrom p cs =
      ⟨(lexeme c rest).1.kind, (lexeme c rest).1.text, p.advance gap⟩ ::
        tokensFrom (p.advance (gap ++ (lexeme c rest).1.slice)) (lexeme c rest).2 := by
  rw [tokensFrom, pieces]
  split
  next hsplit =>
    rw [h] at hsplit
    cases hsplit
  next hsplit =>
    rw [h] at hsplit
    cases hsplit
    rw [Position.advance_append]
    rfl

theorem tokens_tokenize (cs : List Char) :
    (tokenize cs).tokens = tokensFrom .start (scanned cs) := rfl

/-- What stands below some lines of tokens of the language is scanned as if it stood alone. -/
theorem tokensFrom_append {cs : List Char} (hcs : EndsIn '\n' cs) {p : Position}
    (hlegal : ∀ t ∈ tokensFrom p cs, t.kind ≠ .illegal) (ds : List Char) :
    tokensFrom p (cs ++ ds) = tokensFrom p cs ++ tokensFrom (p.advance cs) ds := by
  fun_induction pieces cs generalizing p with
  | case1 cs gap h =>
    have hcut := splitGap_append false cs
    have hline := splitGap_line false hcs (by simp) ds
    rw [h, List.append_nil] at hcut
    rw [h, if_pos rfl] at hline
    obtain rfl : gap = cs := hcut
    rw [tokensFrom_of_gap h, List.nil_append]
    -- the lines are part of the gap in front of the next token
    cases hds : splitGap false ds with
    | mk gap' rest =>
      rw [hds] at hline
      cases rest with
      | nil => rw [tokensFrom_of_gap hline, tokensFrom_of_gap hds]
      | cons c rest =>
        rw [tokensFrom_of_token hline, tokensFrom_of_token hds]
        simp only [Position.advance_append]
  | case2 cs gap c rest h more last hpieces ih =>
    have hcut := splitGap_append false cs
    have hline := splitGap_line false hcs (by simp) ds
    rw [h] at hcut
    rw [h, if_neg (List.cons_ne_nil c rest)] at hline
    rw [tokensFrom_of_token h] at hlegal ⊢
    have hrest : EndsIn '\n' (c :: rest) := by
      rw [← hcut] at hcs
      exact hcs.of_append
    have hlexeme := lexeme_line hrest (hlegal _ List.mem_cons_self) ds
    have hafter : EndsIn '\n' (lexeme c rest).2 := by
      rw [← lexeme_append c rest] at hrest
      exact hrest.of_append
    have hposition : p.advance cs =
        (p.advance (gap ++ (lexeme c rest).1.slice)).advance (lexeme c rest).2 := by
      rw [← Position.advance_append, List.append_assoc, lexeme_append, hcut]
    have hmore := ih hafter fun t ht => hlegal t (List.mem_cons_of_mem _ ht)
    rw [List.cons_append] at hline
    rw [tokensFrom_of_token hline, hlexeme, hmore, hposition, List.cons_append]

/-- Further down the pieces have the same places, as many lines below. -/
theorem place_below (n : Nat) (p : Position) (ps : List Piece) :
    (place (p.below n) ps).1 = (place p ps).1.map (relocate (Position.below n)) := by
  induction ps generalizing p with
  | nil => rfl
  | cons piece ps ih => simp [place, Position.advance_below, ih, relocate]

/-- A text that has `n` lines in front has the same tokens, `n` lines further down. -/
theorem tokensFrom_below (n : Nat) (p : Position) (cs : List Char) :
    tokensFrom (p.below n) cs = (tokensFrom p cs).map (relocate (Position.below n)) :=
  place_below n p (pieces cs).1

/-- The tokens of some lines of the language and of a text below them are those of the lines and
those of the text, which stand that much further down. -/
theorem tokens_tokenize_append {cs : List Char} (hnul : Char.ofNat 0 ∉ cs) (hcs : EndsIn '\n' cs)
    (hlegal : ∀ t ∈ (tokenize cs).tokens, t.kind ≠ .illegal) (ds : List Char) :
    (tokenize (cs ++ ds)).tokens = (tokenize cs).tokens ++
      (tokenize ds).tokens.map (relocate (Position.below (cs.count '\n'))) := by
  -- without NUL all the lines are scanned
  have hall : ∀ c ∈ cs, (c ≠ Char.ofNat 0 : Bool) = true := by
    intro c hc
    refine decide_eq_true ?_
    rintro rfl
    exact hnul hc
  have hscanned : scanned cs = cs := List.takeWhile_eq_self_iff.mpr hall
  have hboth : scanned (cs ++ ds) = cs ++ scanned ds := List.takeWhile_append_of_pos hall
  simp only [tokens_tokenize, hscanned, hboth] at hlegal ⊢
  rw [tokensFrom_append hcs hlegal, Position.advance_start hcs, tokensFrom_below]

end Token

end TagScript
