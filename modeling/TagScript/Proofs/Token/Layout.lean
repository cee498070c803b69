import Mathlib.Data.List.Induction
import TagScript.Proofs.Token.Lines

/-!
# How Tokens Lie in a Text

A text is nothing but its tokens and the gaps between them (`tokenize_cuts`). Each token has a slice
of the text, in the order of the text, and stands at the line and the column of the first character
of its slice. The slice is the text of the token, except for a string, of which it is known to start
with a quote; and scanned by itself it is that token again.

A gap consists of blanks and comments. A comment in front of a token is closed by a line feed, and
only the last one may run up to the end of the text.
-/

namespace TagScript

/-- The column behind a text counts the characters of its last line. -/
theorem Position.column_advance_start (cs : List Char) :
    (start.advance cs).column = 1 + (cs.reverse.takeWhile (· ≠ '\n')).length := by
  induction cs using List.reverseRecOn with
  | nil => rfl
  | append_singleton cs c ih =>
    rw [advance_append, advance_cons, advance_nil, next, List.reverse_concat, List.takeWhile_cons]
    by_cases hc : c = '\n'
    · simp [hc]
    · simp [hc, ih]
      omega

namespace Token

section Definitions

/-- Blanks and comments, as they stand between tokens or, where `last` holds, at the end of a
text. -/
inductive Gap (last : Bool) : List Char → Prop
  | nil : Gap last []
  | blank {c : Char} {rest : List Char} :
      c = ' ' ∨ c = '\t' ∨ c = '\r' ∨ c = '\n' → Gap last rest → Gap last (c :: rest)
  /-- A comment that is closed by a line feed. -/
  | comment {body rest : List Char} :
      '\n' ∉ body → Gap last rest → Gap last ('/' :: '/' :: (body ++ '\n' :: rest))
  /-- A comment that runs up to the end of the text. -/
  | openComment {body : List Char} : last = true → '\n' ∉ body → Gap last ('/' :: '/' :: body)

/-- The slice with which a token of the given kind and text may be written. Text that is no token is
a single character, or else it starts as a string and the token says what is wrong with it. -/
def Spells (slice : List Char) (kind : Kind) (text : String) : Prop :=
  match kind with
  | .string => slice.head? = some '"'
  | .illegal => (∃ c, slice = [c] ∧ text.toList = [c]) ∨
      slice.head? = some '"' ∧ (text = "Unterminated string" ∨ text = "Bad escape")
  | _ => slice = text.toList

/-- A token, the slice of the text it is written with, and the gap in front of it. -/
structure Cut where
  /-- The blanks and comments before the token. -/
  gap : List Char
  /-- The characters the token is written with. -/
  slice : List Char
  /-- The token. -/
  token : Token

/-- The text that was cut. -/
def Cut.text (cuts : List Cut) : List Char :=
  cuts.flatMap fun cut => cut.gap ++ cut.slice

/-- A token is cut off right where `before` is the text before its gap. -/
structure Cut.Sound (before : List Char) (cut : Cut) : Prop where
  /-- Nothing but blanks and comments is passed over. -/
  gap : Gap false cut.gap
  /-- The token is written with at least one character. -/
  slice_ne_nil : cut.slice ≠ []
  /-- Its line is one more than the line feeds before it. -/
  line : cut.token.position.line = 1 + (before ++ cut.gap).count '\n'
  /-- Its column is one more than the characters behind the last of them. -/
  column : cut.token.position.column =
    1 + ((before ++ cut.gap).reverse.takeWhile (· ≠ '\n')).length
  /-- It does not start with a blank. -/
  start : ∀ c, cut.slice.head? = some c → isSpace c = false
  /-- It is written as its kind asks for. -/
  spells : Spells cut.slice cut.token.kind cut.token.text
  /-- By itself the slice is the same token and nothing else. -/
  alone : (tokenize cut.slice).tokens = [⟨cut.token.kind, cut.token.text, .start⟩]

end Definitions

section Gaps

/-- The part of a gap behind the slashes of a comment. -/
def GoesOn (last : Bool) (gap : List Char) : Prop :=
  (∃ body rest, gap = body ++ '\n' :: rest ∧ '\n' ∉ body ∧ Gap last rest) ∨
    last = true ∧ '\n' ∉ gap

/-- A comment goes on with anything but a line feed. -/
theorem GoesOn.cons {last : Bool} {gap : List Char} {c : Char} (hc : c ≠ '\n')
    (h : GoesOn last gap) : GoesOn last (c :: gap) := by
  rcases h with ⟨body, rest, rfl, hbody, hrest⟩ | ⟨hlast, hgap⟩
  · exact .inl ⟨c :: body, rest, rfl, by simp [hbody, Ne.symm hc], hrest⟩
  · exact .inr ⟨hlast, by simp [hgap, Ne.symm hc]⟩

/-- A comment with its slashes is a gap. -/
theorem GoesOn.gap {last : Bool} {gap : List Char} (h : GoesOn last ('/' :: gap)) :
    Gap last ('/' :: '/' :: gap) := by
  rcases h with ⟨body, rest, heq, hbody, hrest⟩ | ⟨hlast, hgap⟩
  · cases body with
    | nil => cases heq
    | cons c body =>
      obtain ⟨rfl, rfl⟩ := List.cons.inj heq
      exact .comment (fun h => hbody (.tail _ h)) hrest
  · exact .openComment hlast fun h => hgap (.tail _ h)

/-- The four blanks. -/
theorem isSpace_iff {c : Char} :
    isSpace c = true ↔ c = ' ' ∨ c = '\t' ∨ c = '\r' ∨ c = '\n' := by
  simp [isSpace, or_assoc]

/-- What is passed over in front of a token is a gap. A comment that is begun goes on. -/
theorem splitGap_gap (comment : Bool) (cs : List Char) :
    if comment then GoesOn (splitGap comment cs).2.isEmpty (splitGap comment cs).1
    else Gap (splitGap comment cs).2.isEmpty (splitGap comment cs).1 := by
  induction cs generalizing comment with
  | nil =>
    cases comment with
    | true => exact .inr ⟨rfl, List.not_mem_nil⟩
    | false => exact .nil
  | cons c rest ih =>
    cases comment with
    | true =>
      by_cases hc : c = '\n'
      · -- the line feed closes the comment
        have hgap := ih false
        simp only [splitGap, if_true, hc, ne_eq, not_true_eq_false, decide_false] at hgap ⊢
        exact .inl ⟨[], _, rfl, List.not_mem_nil, hgap⟩
      · have hgo := ih true
        simp only [splitGap, if_true, hc, ne_eq, not_false_eq_true, decide_true] at hgo ⊢
        exact hgo.cons hc
    | false =>
      simp only [splitGap, Bool.false_eq_true, if_false]
      split
      next hspace => exact .blank (isSpace_iff.mp hspace) (ih false)
      next =>
        split
        next hslash =>
          obtain ⟨rfl, hhead⟩ := hslash
          obtain ⟨more, rfl⟩ := List.head?_eq_some_iff.mp hhead
          exact GoesOn.gap (ih true)
        next => exact .nil

/-- A token starts neither with a blank nor with a comment. -/
theorem splitGap_start {comment : Bool} {cs gap rest : List Char} {c : Char}
    (h : splitGap comment cs = (gap, c :: rest)) :
    isSpace c = false ∧ ¬ (c = '/' ∧ rest.head? = some '/') := by
  induction cs generalizing comment gap with
  | nil => cases h
  | cons d more ih =>
    unfold splitGap at h
    split at h
    · obtain ⟨-, hafter⟩ := Prod.mk.inj h
      exact ih (Prod.ext rfl hafter)
    · split at h
      · obtain ⟨-, hafter⟩ := Prod.mk.inj h
        exact ih (Prod.ext rfl hafter)
      · split at h
        · obtain ⟨-, hafter⟩ := Prod.mk.inj h
          exact ih (Prod.ext rfl hafter)
        next hspace hslash =>
          obtain ⟨rfl, rfl⟩ := List.cons.inj (Prod.mk.inj h).2
          exact ⟨eq_false_of_ne_true hspace, hslash⟩

end Gaps

section Slices

variable {c : Char} {rest : List Char}

/-- Some digits are a whole number. -/
theorem scanNumber_whole {ds : List Char} (h : ∀ d ∈ ds, Decimal.isDigit d = true) :
    scanNumber ds = (.verbatim .int ds, []) := by
  have htake : ds.takeWhile Decimal.isDigit = ds := List.takeWhile_eq_self_iff.mpr h
  have hdrop : ds.dropWhile Decimal.isDigit = [] := List.dropWhile_eq_nil_iff.mpr h
  unfold scanNumber
  rw [htake, hdrop]

/-- Digits on both sides of a point are a number with a fraction. -/
theorem scanNumber_fraction {ds es : List Char} (hds : ∀ d ∈ ds, Decimal.isDigit d = true)
    (hes : ∀ e ∈ es, Decimal.isDigit e = true) (hne : es ≠ []) :
    scanNumber (ds ++ '.' :: es) = (.verbatim .float (ds ++ '.' :: es), []) := by
  have hpoint : Decimal.isDigit '.' = false := rfl
  obtain ⟨e, es, rfl⟩ := List.exists_cons_of_ne_nil hne
  have htake : (ds ++ '.' :: e :: es).takeWhile Decimal.isDigit = ds := by
    rw [List.takeWhile_append_of_pos hds, List.takeWhile_cons_of_neg (by simp [hpoint]),
      List.append_nil]
  have hdrop : (ds ++ '.' :: e :: es).dropWhile Decimal.isDigit = '.' :: e :: es := by
    rw [List.dropWhile_append_of_pos hds, List.dropWhile_cons_of_neg (by simp [hpoint])]
  unfold scanNumber
  rw [htake, hdrop]
  simp only [hes e List.mem_cons_self, if_true, List.takeWhile_eq_self_iff.mpr hes,
    List.dropWhile_eq_nil_iff.mpr hes]

/-- By itself the slice of a number is the number. -/
theorem scanNumber_alone (cs : List Char) :
    scanNumber (scanNumber cs).1.slice = ((scanNumber cs).1, []) := by
  have hdigits (ds : List Char) : ∀ d ∈ ds.takeWhile Decimal.isDigit, Decimal.isDigit d = true :=
    fun _ => List.mem_takeWhile_imp
  conv_rhs => unfold scanNumber
  conv_lhs => arg 1; unfold scanNumber
  split
  next d more hd =>
    split
    next hdigit =>
      exact scanNumber_fraction (hdigits cs) (hdigits (d :: more)) (by simp [hdigit])
    next => exact scanNumber_whole (hdigits cs)
  next => exact scanNumber_whole (hdigits cs)

/-- By itself the slice of a string is the string. -/
theorem scanString_alone (cs : List Char) :
    scanString (scanString cs).slice = { scanString cs with rest := [] } := by
  fun_induction scanString cs with
  | case5 c rest ih => simp [scanString, StringScan.cons, ih]
  | case6 c rest hquote hline hback hescape ih =>
    have hplain := ne_backslash hback hescape
    rw [StringScan.cons, List.singleton_append, scanString_plain hquote hline hplain, ih]
    rfl
  | _ => rfl

/-- A sign of one character does not need the next one. -/
theorem sign?_none {next : Option Char} {kind : Kind} (h : sign? c next = some (kind, false)) :
    sign? c none = some (kind, false) := by
  unfold sign? at h ⊢
  split at h <;> try split at h
  all_goals cases h
  all_goals rfl

/-- A character that starts no sign with the next one is no sign by itself. -/
theorem sign?_eq_none {next : Option Char} (h : sign? c next = none) : sign? c none = none := by
  unfold sign? at h ⊢
  split at h <;> cases h
  rfl

/-- A sign of two characters has a second one. -/
theorem sign?_two {kind : Kind} (h : sign? c none = some (kind, true)) : False := by
  unfold sign? at h
  split at h <;> cases h

/-- A token is written with the first character of the text it is cut off. -/
theorem lexeme_slice (c : Char) (rest : List Char) :
    ∃ more, (lexeme c rest).1.slice = c :: more ∧ more <+: rest := by
  obtain ⟨d, more, hslice⟩ := List.exists_cons_of_ne_nil (lexeme_slice_ne_nil c rest)
  have hcut := lexeme_append c rest
  rw [hslice] at hcut
  obtain ⟨rfl, hrest⟩ := List.cons.inj hcut
  exact ⟨more, hslice, _, hrest⟩

/-- By itself the slice of a token is the token. -/
theorem lexeme_alone {more : List Char} (h : (lexeme c rest).1.slice = c :: more) :
    lexeme c more = ((lexeme c rest).1, []) := by
  unfold lexeme at h ⊢
  split
  next hletter =>
    simp only [if_pos hletter, Lexeme.verbatim] at h ⊢
    have hword : ∀ d ∈ c :: more, isWordChar d = true := by
      rw [← h]
      exact fun _ => List.mem_takeWhile_imp
    rw [h, List.takeWhile_eq_self_iff.mpr hword, List.dropWhile_eq_nil_iff.mpr hword]
  next hletter =>
    split
    next hdigit =>
      simp only [if_neg hletter, if_pos hdigit] at h ⊢
      rw [← h, scanNumber_alone]
    next hdigit =>
      split
      next hquote =>
        simp only [if_neg hletter, if_neg hdigit, if_pos hquote] at h ⊢
        obtain ⟨-, rfl⟩ := List.cons.inj h
        rw [scanString_alone]
      next hquote =>
        simp only [if_neg hletter, if_neg hdigit, if_neg hquote] at h ⊢
        cases hsign : sign? c rest.head? with
        | none =>
          simp only [hsign, Lexeme.verbatim] at h ⊢
          obtain ⟨-, rfl⟩ := List.cons.inj h
          rw [List.head?_nil, sign?_eq_none hsign]
        | some sign =>
          obtain ⟨kind, long⟩ := sign
          cases long with
          | false =>
            simp only [hsign, Lexeme.verbatim] at h ⊢
            obtain ⟨-, rfl⟩ := List.cons.inj h
            rw [List.head?_nil, sign?_none hsign]
          | true =>
            -- the second character of the sign is the next one of the text
            cases rest with
            | nil => exact (sign?_two hsign).elim
            | cons d tail =>
              simp only [hsign, Lexeme.verbatim] at h ⊢
              obtain ⟨-, rfl⟩ := List.cons.inj h
              rw [List.head?_cons] at hsign ⊢
              rw [hsign]

/-- A word is a name or reserved, so it is written as its text. -/
theorem spells_ofWord (word : List Char) :
    Spells word (.ofWord (String.ofList word)) (String.ofList word) := by
  have htext : word = (String.ofList word).toList := String.toList_ofList.symm
  unfold Kind.ofWord
  split <;> exact htext

/-- A sign is spelled by its characters. -/
theorem spells_sign {next : Option Char} {kind : Kind} {long : Bool}
    (h : sign? c next = some (kind, long)) (slice : List Char) :
    Spells slice kind (String.ofList slice) := by
  have htext : slice = (String.ofList slice).toList := String.toList_ofList.symm
  unfold sign? at h
  split at h <;> try split at h
  all_goals cases h
  all_goals exact htext

/-- A token is written as its kind asks for. -/
theorem spells_lexeme (c : Char) (rest : List Char) :
    Spells (lexeme c rest).1.slice (lexeme c rest).1.kind (lexeme c rest).1.text := by
  unfold lexeme
  split
  next => exact spells_ofWord _
  next =>
    split
    next =>
      unfold scanNumber
      split
      · split <;> exact String.toList_ofList.symm
      · exact String.toList_ofList.symm
    next =>
      split
      next hquote =>
        subst hquote
        cases hending : (scanString rest).ending <;> simp only [hending]
        · exact rfl
        · exact .inr ⟨rfl, .inl rfl⟩
        · exact .inr ⟨rfl, .inr rfl⟩
      next =>
        split
        next hsign => exact spells_sign hsign _
        next hsign => exact spells_sign hsign _
        next => exact .inl ⟨c, rfl, String.toList_ofList⟩

end Slices

section Cuts

/-- Where no blank and no comment stands in front, there is no gap. -/
theorem splitGap_of_start {c : Char} {rest : List Char} (hspace : isSpace c = false)
    (hslash : ¬ (c = '/' ∧ rest.head? = some '/')) :
    splitGap false (c :: rest) = ([], c :: rest) := by
  rw [splitGap, if_neg Bool.false_ne_true, if_neg (by simp [hspace]), if_neg hslash]

variable {cs gap rest : List Char} {c : Char} (h : splitGap false cs = (gap, c :: rest))
include h

/-- By itself the slice of a token is scanned as the token. -/
theorem tokens_tokenize_slice (hnul : Char.ofNat 0 ∉ (lexeme c rest).1.slice) :
    (tokenize (lexeme c rest).1.slice).tokens =
      [⟨(lexeme c rest).1.kind, (lexeme c rest).1.text, .start⟩] := by
  obtain ⟨hspace, hslash⟩ := splitGap_start h
  obtain ⟨more, hslice, hmore⟩ := lexeme_slice c rest
  have hscanned : scanned (lexeme c rest).1.slice = c :: more := by
    rw [scanned, List.takeWhile_eq_self_iff.mpr, hslice]
    intro d hd
    exact decide_eq_true fun hd' => hnul (hd' ▸ hd)
  -- behind a slash no other one stands, neither in the text nor in the slice
  have hstart : ¬ (c = '/' ∧ more.head? = some '/') := by
    rintro ⟨hc, hhead⟩
    obtain ⟨tail, rfl⟩ := hmore
    exact hslash ⟨hc, by rw [List.head?_append, hhead]; rfl⟩
  have hgap := splitGap_of_start hspace hstart
  rw [tokens_tokenize, hscanned, tokensFrom_of_token hgap, lexeme_alone hslice,
    tokensFrom_of_gap (show splitGap false [] = ([], []) from rfl)]
  rfl

/-- The first token of a text behind `before` is cut off right. -/
theorem Cut.sound_first (hnul : Char.ofNat 0 ∉ (lexeme c rest).1.slice) (before : List Char) :
    Cut.Sound before ⟨gap, (lexeme c rest).1.slice, (lexeme c rest).1.kind,
      (lexeme c rest).1.text, Position.start.advance (before ++ gap)⟩ where
  gap := by
    have hgap := splitGap_gap false cs
    rw [h] at hgap
    exact hgap
  slice_ne_nil := lexeme_slice_ne_nil c rest
  line := Position.line_advance .start (before ++ gap)
  column := Position.column_advance_start (before ++ gap)
  start := by
    obtain ⟨more, hslice, -⟩ := lexeme_slice c rest
    intro d hd
    rw [hslice] at hd
    obtain rfl := Option.some.inj hd
    exact (splitGap_start h).1
  spells := spells_lexeme c rest
  alone := tokens_tokenize_slice h hnul

end Cuts

/-- Behind a token that is cut off right, the others are. -/
theorem Cut.sound_cons {first : Cut} {cuts : List Cut} {before : List Char}
    (hfirst : first.Sound before)
    (hcuts : ∀ earlier cut later, cuts = earlier ++ cut :: later →
      cut.Sound (before ++ (first.gap ++ first.slice) ++ text earlier))
    (earlier : List Cut) (cut : Cut) (later : List Cut)
    (heq : first :: cuts = earlier ++ cut :: later) : cut.Sound (before ++ text earlier) := by
  cases earlier with
  | nil =>
    obtain ⟨rfl, -⟩ := List.cons.inj heq
    rwa [text, List.flatMap_nil, List.append_nil]
  | cons head earlier =>
    obtain ⟨rfl, hmore⟩ := List.cons.inj heq
    rw [text, List.flatMap_cons, ← List.append_assoc]
    exact hcuts earlier cut later hmore

/-- The tokens of a text that stands behind `before` are cut off it one after the other. -/
theorem tokensFrom_cuts (cs : List Char) (hnul : Char.ofNat 0 ∉ cs) (before : List Char) :
    ∃ (cuts : List Cut) (last : List Char), cs = Cut.text cuts ++ last ∧ Gap true last ∧
      tokensFrom (Position.start.advance before) cs = cuts.map Cut.token ∧
      ∀ earlier cut later, cuts = earlier ++ cut :: later →
        cut.Sound (before ++ Cut.text earlier) := by
  fun_induction pieces cs generalizing before with
  | case1 cs gap h =>
    have hcut := splitGap_append false cs
    have hgap := splitGap_gap false cs
    rw [h, List.append_nil] at hcut
    rw [h] at hgap
    obtain rfl : gap = cs := hcut
    exact ⟨[], gap, rfl, hgap, tokensFrom_of_gap h _, by simp⟩
  | case2 cs gap c rest h more last hpieces ih =>
    -- the text is the gap, the slice of the first token, and the rest
    have hcut : cs = gap ++ ((lexeme c rest).1.slice ++ (lexeme c rest).2) := by
      have hgap := splitGap_append false cs
      rw [h] at hgap
      rw [lexeme_append, ← hgap]
    rw [hcut] at hnul
    simp only [List.mem_append, not_or] at hnul
    obtain ⟨-, hslice, hrest⟩ := hnul
    obtain ⟨cuts, tail, hcuts, htail, htokens, hsound⟩ :=
      ih hrest (before ++ (gap ++ (lexeme c rest).1.slice))
    refine ⟨_ :: cuts, tail, ?_, htail, ?_,
      Cut.sound_cons (Cut.sound_first h hslice before) hsound⟩
    · rw [hcut, hcuts]
      simp [Cut.text]
    · rw [tokensFrom_of_token h, ← Position.advance_append, ← Position.advance_append, htokens]
      rfl

/-- What is scanned ends before the first NUL. -/
theorem not_mem_scanned (cs : List Char) : Char.ofNat 0 ∉ scanned cs := by
  intro h
  simpa using List.mem_takeWhile_imp h

/-- A token of a text has a place in it: the first character it is written with stands at its line
and its column, and is no blank. -/
theorem exists_place {cs : List Char} {t : Token} (ht : t ∈ (tokenize cs).tokens) :
    ∃ (before : List Char) (c : Char) (more after : List Char), cs = before ++ c :: after ∧
      t.position.line = 1 + before.count '\n' ∧
      t.position.column = 1 + (before.reverse.takeWhile (· ≠ '\n')).length ∧
      Spells (c :: more) t.kind t.text ∧ isSpace c = false := by
  obtain ⟨cuts, last, hcuts, -, htokens, hsound⟩ :=
    tokensFrom_cuts (scanned cs) (not_mem_scanned cs) []
  rw [tokens_tokenize] at ht
  change t ∈ tokensFrom (Position.start.advance []) (scanned cs) at ht
  rw [htokens] at ht
  obtain ⟨cut, hcut, rfl⟩ := List.mem_map.mp ht
  obtain ⟨earlier, later, rfl⟩ := List.append_of_mem hcut
  have hcut := hsound earlier cut later rfl
  rw [List.nil_append] at hcut
  obtain ⟨c, more, hslice⟩ := List.exists_cons_of_ne_nil hcut.slice_ne_nil
  -- what is not scanned is behind the slice
  have hprefix : scanned cs <+: cs := List.takeWhile_prefix _
  obtain ⟨unread, hcs⟩ := hprefix
  refine ⟨Cut.text earlier ++ cut.gap, c, more, more ++ Cut.text later ++ last ++ unread, ?_,
    hcut.line, hcut.column, hslice ▸ hcut.spells, hcut.start c (by rw [hslice]; rfl)⟩
  rw [← hcs, hcuts]
  simp [Cut.text, hslice]

/-- The end of a text is named as no token is. -/
theorem Kind.name_ne_endName (kind : Kind) : kind.name ≠ Listing.endName := by
  cases kind <;> decide

/-- Scanning neither loses nor invents text, and positions are right. The characters of a text up to
the first NUL are the slices of its tokens, in order, with gaps of blanks and comments between them;
the end of the text stands behind the tokens and is none of them. Each token is at the line and the
column of its slice, is written as its kind asks for, and is scanned off its slice alone. -/
theorem tokenize_cuts (src : Bytes) :
    (∀ t ∈ (tokenize src.decode).tokens, t.kind.name ≠ Listing.endName) ∧
      ∃ (cuts : List Cut) (last : List Char),
        src.decode.takeWhile (· ≠ Char.ofNat 0) = Cut.text cuts ++ last ∧ Gap true last ∧
        (tokenize src.decode).tokens = cuts.map Cut.token ∧
        ∀ earlier cut later, cuts = earlier ++ cut :: later → cut.Sound (Cut.text earlier) := by
  exact ⟨fun t _ => t.kind.name_ne_endName,
    tokensFrom_cuts (scanned src.decode) (not_mem_scanned src.decode) []⟩

end Token

end TagScript
