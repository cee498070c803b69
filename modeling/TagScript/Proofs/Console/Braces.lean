import Mathlib.Algebra.Order.Ring.Int
import TagScript.Proofs.Console.Passages
import TagScript.Proofs.Text.Decode
import TagScript.Proofs.Token.Lexemes

/-!
# Braces of a Block and of Its Tokens

The console counts braces in the bytes of each line, and starts every line outside of string
literals. The scanner cuts the characters of the whole text into tokens. On one line both find the
same braces (`exists_lexemes_line`), and so they do on a text as long as no token runs over the end
of a line (`braceBalance_textOf`).

A string literal runs over the end of a line where a backslash stands there. The console does not
know that, and takes what follows in the literal for code (`depth_counts_continued_literal`).
-/

namespace TagScript

namespace Console.Braces

/-- The braces opened less the braces closed by some characters, from a region on. -/
def netFrom : Region → List Char → Int
  | _, [] => 0
  | .escape, _ :: rest => netFrom .literal rest
  | .literal, c :: rest =>
    if c = '\\' then netFrom .escape rest
    else if c = '"' then netFrom .code rest
    else netFrom .literal rest
  | .code, c :: rest =>
    if c = '"' then netFrom .literal rest
    else if c = '/' ∧ rest.head? = some '/' then 0
    else if c = '{' then netFrom .code rest + 1
    else if c = '}' then netFrom .code rest - 1
    else netFrom .code rest

/-- The region behind a character that means nothing to it. -/
def Region.pass : Region → Region
  | .escape => .literal
  | region => region

section Decoding

/-- A byte beyond ASCII counts for nothing; it ends an escape. -/
theorem balanceFrom_beyond {b : UInt8} (hb : 128 ≤ b.toNat) (region : Region) (rest : Bytes) :
    balanceFrom region (b :: rest) = balanceFrom region.pass rest := by
  have hne {a : UInt8} (ha : a.toNat < 128) : b ≠ a := by
    rintro rfl
    omega
  cases region <;> simp [balanceFrom, Region.pass, hne]

/-- Bytes beyond ASCII count for nothing. -/
theorem balanceFrom_append_beyond {region : Region} (hregion : region.pass = region) {bs : Bytes}
    (hbs : ∀ b ∈ bs, 128 ≤ b.toNat) (rest : Bytes) :
    balanceFrom region (bs ++ rest) = balanceFrom region rest := by
  induction bs with
  | nil => rfl
  | cons b bs ih =>
    rw [List.forall_mem_cons] at hbs
    rw [List.cons_append, balanceFrom_beyond hbs.1, hregion, ih hbs.2]

/-- A character beyond ASCII counts for nothing; it ends an escape. -/
theorem netFrom_beyond {c : Char} (hc : 128 ≤ c.toNat) (region : Region) (rest : List Char) :
    netFrom region (c :: rest) = netFrom region.pass rest := by
  have hne {d : Char} (hd : d.toNat < 128) : c ≠ d := by
    rintro rfl
    omega
  cases region <;> simp [netFrom, Region.pass, hne]

/-- A byte and its character mean the same to every region. -/
theorem balanceFrom_ascii {b : UInt8} (hb : b.toNat < 128) {rest : Bytes}
    (ih : ∀ region, balanceFrom region rest = netFrom region rest.decode) (region : Region) :
    balanceFrom region (b :: rest) = netFrom region (Char.ofNat b.toNat :: rest.decode) := by
  have hiff {a : UInt8} (ha : a.toNat < 128) : Char.ofNat b.toNat = Char.ofNat a.toNat ↔ b = a :=
    Bytes.ofNat_toNat_inj ha hb
  have hquote : Char.ofNat b.toNat = '"' ↔ b = 0x22 := hiff (a := 0x22) (by decide)
  have hback : Char.ofNat b.toNat = '\\' ↔ b = 0x5C := hiff (a := 0x5C) (by decide)
  have hslash : Char.ofNat b.toNat = '/' ↔ b = 0x2F := hiff (a := 0x2F) (by decide)
  have hopen : Char.ofNat b.toNat = '{' ↔ b = 0x7B := hiff (a := 0x7B) (by decide)
  have hclose : Char.ofNat b.toNat = '}' ↔ b = 0x7D := hiff (a := 0x7D) (by decide)
  have hnext : rest.decode.head? = some '/' ↔ rest.head? = some 0x2F :=
    Bytes.head?_decode_iff (a := 0x2F) (by decide) rest
  cases region with
  | escape => simp only [balanceFrom, netFrom, ih]
  | literal => simp only [balanceFrom, netFrom, ih, hquote, hback]
  | code => simp only [balanceFrom, netFrom, ih, hquote, hslash, hopen, hclose, hnext]

/-- The bytes of a line count as its characters do. -/
theorem balanceFrom_eq (region : Region) (bs : Bytes) :
    balanceFrom region bs = netFrom region bs.decode := by
  fun_induction Bytes.decode bs generalizing region with
  | case1 => cases region <;> rfl
  | case2 b rest c n hsequence ih =>
    rcases Bytes.sequence?_eq_some hsequence with ⟨hb, rfl, rfl⟩ | ⟨hb, hc, -, htake⟩
    · exact balanceFrom_ascii hb ih region
    · -- the bytes of the sequence mean as little as its character does
      have hpass : region.pass.pass = region.pass := by cases region <;> rfl
      calc balanceFrom region (b :: rest)
          = balanceFrom region.pass (rest.take n ++ rest.drop n) := by
            rw [balanceFrom_beyond hb, List.take_append_drop]
        _ = balanceFrom region.pass (rest.drop n) := balanceFrom_append_beyond hpass htake _
        _ = netFrom region (c :: Bytes.decode (rest.drop n)) := by rw [ih, netFrom_beyond hc]
  | case3 b rest hsequence ih =>
    have hb : 128 ≤ b.toNat := by
      by_contra hb
      simp [Bytes.sequence?, UInt8.lt_iff_toNat_lt, Nat.lt_of_not_le hb] at hsequence
    rw [balanceFrom_beyond hb, netFrom_beyond (by decide), ih]

end Decoding

end Console.Braces

namespace Token

open Console Console.Braces

/-- The opening braces less the closing ones among some kinds. -/
def Kind.braceBalance (kinds : List Kind) : Int :=
  kinds.count .lbrace - kinds.count .rbrace

/-- The opening braces less the closing ones among the tokens of a text. -/
def braceBalance (text : Bytes) : Int :=
  Kind.braceBalance ((tokenize text.decode).tokens.map Token.kind)

/-- The braces of two lists are counted one list after the other. -/
theorem Kind.braceBalance_append (xs ys : List Kind) :
    braceBalance (xs ++ ys) = braceBalance xs + braceBalance ys := by
  simp only [braceBalance, List.count_append]
  omega

section Slices

variable {c : Char} {rest more : List Char}

/-- The characters mean nothing to the count outside of literals. -/
def Plain (c : Char) : Prop :=
  c ≠ '"' ∧ c ≠ '/' ∧ c ≠ '{' ∧ c ≠ '}'

instance (c : Char) : Decidable (Plain c) :=
  inferInstanceAs (Decidable (_ ∧ _))

/-- Characters without a meaning for the count are passed over. -/
theorem netFrom_plain {cs : List Char} (h : ∀ c ∈ cs, Plain c) (more : List Char) :
    netFrom .code (cs ++ more) = netFrom .code more := by
  induction cs with
  | nil => rfl
  | cons c cs ih =>
    rw [List.forall_mem_cons] at h
    obtain ⟨⟨hquote, hslash, hopen, hclose⟩, hcs⟩ := h
    rw [List.cons_append, netFrom, if_neg hquote, if_neg (fun h => hslash h.1), if_neg hopen,
      if_neg hclose, ih hcs]

/-- A letter or a digit has no meaning for the count. -/
theorem plain_of_isWordChar (h : isWordChar c = true) : Plain c := by
  refine ⟨?_, ?_, ?_, ?_⟩ <;> rintro rfl <;> revert h <;> decide

theorem plain_of_isDigit (h : Decimal.isDigit c = true) : Plain c :=
  plain_of_isWordChar (by rw [isWordChar, h, Bool.or_true])

/-- A blank has no meaning for the count. -/
theorem plain_of_isSpace (h : isSpace c = true) : Plain c := by
  refine ⟨?_, ?_, ?_, ?_⟩ <;> rintro rfl <;> revert h <;> decide

/-- A number is written without braces. -/
theorem plain_scanNumber (cs : List Char) :
    (scanNumber cs).1.kind ∈ [Kind.int, .float] ∧ ∀ c ∈ (scanNumber cs).1.slice, Plain c := by
  have hdigits (ds : List Char) : ∀ d ∈ ds.takeWhile Decimal.isDigit, Plain d :=
    fun _ hd => plain_of_isDigit (List.mem_takeWhile_imp hd)
  unfold scanNumber
  split
  next d tail _ =>
    split
    next =>
      refine ⟨by simp [Lexeme.verbatim], fun c hc => ?_⟩
      rcases List.mem_append.mp hc with hwhole | hfraction
      · exact hdigits cs c hwhole
      · rcases List.mem_cons.mp hfraction with rfl | hfraction
        · decide
        · exact hdigits (d :: tail) c hfraction
    next => exact ⟨by simp [Lexeme.verbatim], hdigits cs⟩
  next => exact ⟨by simp [Lexeme.verbatim], hdigits cs⟩

/-- In a literal only the quote and the backslash matter. -/
theorem netFrom_literal (hquote : c ≠ '"') (hback : c ≠ '\\') (rest : List Char) :
    netFrom .literal (c :: rest) = netFrom .literal rest := by
  rw [netFrom, if_neg hback, if_neg hquote]

/-- A string literal is left where it is closed. -/
theorem netFrom_scanString_closed {cs : List Char} (h : (scanString cs).ending = .closed)
    (more : List Char) :
    netFrom .literal ((scanString cs).slice ++ more) = netFrom .code more := by
  fun_induction scanString cs with
  | case2 rest => simp [netFrom]
  | case5 c rest ih => simpa [StringScan.cons, netFrom] using ih h
  | case6 c rest hquote hline hback hescape ih =>
    exact (netFrom_literal hquote (ne_backslash hback hescape) _).trans (ih h)
  | _ => cases h

/-- A string literal that is not closed has no braces outside of it, and ends with its line. -/
theorem netFrom_scanString_open {cs : List Char} (h : (scanString cs).ending ≠ .closed) :
    netFrom .literal (scanString cs).slice = 0 ∧
      ∀ d, (scanString cs).rest.head? = some d → d = '\n' := by
  fun_induction scanString cs with
  | case1 => exact ⟨rfl, by simp⟩
  | case2 rest => exact absurd rfl h
  | case3 rest => exact ⟨rfl, fun d hd => (Option.some.inj hd).symm⟩
  | case4 => exact ⟨by decide, by simp⟩
  | case5 c rest ih => simpa [StringScan.cons, netFrom] using ih h
  | case6 c rest hquote hline hback hescape ih =>
    obtain ⟨hnet, hrest⟩ := ih h
    exact ⟨(netFrom_literal hquote (ne_backslash hback hescape) _).trans hnet, hrest⟩

/-- A sign counts as the brace that it may be. -/
theorem netFrom_sign {next : Option Char} {kind : Kind}
    (h : sign? c next = some (kind, false)) (hslash : ¬ (c = '/' ∧ more.head? = some '/')) :
    netFrom .code (c :: more) = Kind.braceBalance [kind] + netFrom .code more := by
  unfold sign? at h
  split at h <;> try split at h
  all_goals cases h
  all_goals simp_all [netFrom, Kind.braceBalance]
  all_goals omega

/-- A sign of two characters is no brace. -/
theorem plain_long_sign {next : Option Char} {kind : Kind} (h : sign? c next = some (kind, true)) :
    Kind.braceBalance [kind] = 0 ∧ Plain c ∧ ∃ d, next = some d ∧ Plain d := by
  unfold sign? at h
  split at h <;> try split at h
  all_goals cases h
  all_goals exact ⟨by decide, by decide, _, by assumption, by decide⟩

/-- A character that starts no token but is no quote has no meaning for the count. -/
theorem plain_of_sign?_eq_none {next : Option Char} (hquote : c ≠ '"') (h : sign? c next = none) :
    Plain c := by
  refine ⟨hquote, ?_, ?_, ?_⟩ <;> rintro rfl <;> cases h

/-- No word is a brace. -/
theorem Kind.braceBalance_ofWord (word : String) : braceBalance [Kind.ofWord word] = 0 := by
  unfold Kind.ofWord
  split <;> decide

/-- A string is no brace. -/
theorem braceBalance_lexeme_quote (rest : List Char) :
    Kind.braceBalance [(lexeme '"' rest).1.kind] = 0 := by
  unfold lexeme
  rw [if_neg (by decide), if_neg (by decide), if_pos rfl]
  cases hending : (scanString rest).ending <;> simp only [hending] <;> decide

/-- A string that is closed is left behind; another one goes up to the end of its line. -/
theorem netFrom_lexeme_quote {tail : List Char} (hrest : (scanString rest).rest = more ++ tail)
    (hmore : '\n' ∉ more) :
    netFrom .literal ((scanString rest).slice ++ more) = netFrom .code more := by
  by_cases hending : (scanString rest).ending = .closed
  · exact netFrom_scanString_closed hending more
  · obtain ⟨hnet, hend⟩ := netFrom_scanString_open hending
    obtain rfl : more = [] := by
      rw [hrest] at hend
      cases more with
      | nil => rfl
      | cons d more =>
        obtain rfl := hend d rfl
        simp at hmore
    rw [List.append_nil, hnet]
    rfl

/-- What a token counts for: the brace that it is, or nothing. On the rest of its line the count
goes on outside of literals. -/
theorem netFrom_lexeme {tail : List Char} (hrest : (lexeme c rest).2 = more ++ tail)
    (hmore : '\n' ∉ more) (hslash : ¬ (c = '/' ∧ rest.head? = some '/')) :
    netFrom .code ((lexeme c rest).1.slice ++ more) =
      Kind.braceBalance [(lexeme c rest).1.kind] + netFrom .code more := by
  by_cases hquote : c = '"'
  · subst hquote
    rw [braceBalance_lexeme_quote, Int.zero_add]
    exact netFrom_lexeme_quote hrest hmore
  -- all tokens but signs are written with characters that mean nothing to the count
  have hplain {kind : Kind} {slice : List Char} (hkind : Kind.braceBalance [kind] = 0)
      (hslice : ∀ d ∈ slice, Plain d) :
      netFrom .code (slice ++ more) = Kind.braceBalance [kind] + netFrom .code more := by
    rw [netFrom_plain hslice, hkind, Int.zero_add]
  unfold lexeme at hrest ⊢
  split
  next hletter =>
    exact hplain (Kind.braceBalance_ofWord _) fun d hd =>
      plain_of_isWordChar (List.mem_takeWhile_imp hd)
  next hletter =>
    split
    next hdigit =>
      obtain ⟨hkind, hslice⟩ := plain_scanNumber (c :: rest)
      refine hplain ?_ hslice
      rcases List.mem_pair.mp hkind with h | h <;> rw [h] <;> decide
    next hdigit =>
      simp only [if_neg hletter, if_neg hdigit, if_neg hquote] at hrest ⊢
      cases hsign : sign? c rest.head? with
      | none =>
        simp only [Lexeme.verbatim]
        refine hplain (by decide) fun d hd => ?_
        rw [List.mem_singleton.mp hd]
        exact plain_of_sign?_eq_none hquote hsign
      | some sign =>
        obtain ⟨kind, long⟩ := sign
        cases long with
        | false =>
          simp only [hsign, Lexeme.verbatim] at hrest ⊢
          -- the next character of the line is the next one of the text
          have hnext : ¬ (c = '/' ∧ more.head? = some '/') := by
            rintro ⟨hc, hhead⟩
            rw [hrest, List.head?_append, hhead] at hslash
            exact hslash ⟨hc, rfl⟩
          exact netFrom_sign hsign hnext
        | true =>
          obtain ⟨hkind, hc, d, hd, hnext⟩ := plain_long_sign hsign
          obtain ⟨rest, rfl⟩ := List.head?_eq_some_iff.mp hd
          simp only [Lexeme.verbatim]
          refine hplain hkind ?_
          simp [hc, hnext]

end Slices

section Lines

variable {cs tail : List Char}

/-- A token that does not run over the end of a line is part of the line. -/
theorem exists_rest_of_slice {slice rest : List Char} (h : slice ++ rest = cs ++ tail)
    (htail : ∀ d, tail.head? = some d → d = '\n') (hslice : '\n' ∉ slice) :
    ∃ more, cs = slice ++ more ∧ rest = more ++ tail := by
  rcases List.append_eq_append_iff.mp h with ⟨more, hcs, hrest⟩ | ⟨below, hslice', htail'⟩
  · exact ⟨more, hcs, hrest⟩
  · cases below with
    | nil => exact ⟨[], by simpa using hslice'.symm, by simpa using htail'.symm⟩
    | cons d below =>
      -- what the token has of the text below is the line feed
      obtain rfl := htail d (by rw [htail']; rfl)
      exact absurd (by rw [hslice']; simp) hslice

/-- On one line the tokens have the braces that are counted there. -/
theorem exists_lexemes_line (hcs : '\n' ∉ cs) (htail : ∀ d, tail.head? = some d → d = '\n')
    (hslices : ∀ l ∈ lexemes (cs ++ tail), '\n' ∉ l.slice) :
    ∃ ls, lexemes (cs ++ tail) = ls ++ lexemes tail ∧
      Kind.braceBalance (ls.map Lexeme.kind) = netFrom .code cs := by
  -- a token may have any length, so the induction is on how much of the line is left
  induction hlength : cs.length using Nat.strong_induction_on generalizing cs with
  | _ n ih =>
  subst hlength
  cases cs with
  | nil => exact ⟨[], rfl, rfl⟩
  | cons c cs =>
    have hline : '\n' ∉ cs := fun h => hcs (.tail _ h)
    by_cases hspace : isSpace c = true
    · rw [List.cons_append, lexemes_space hspace] at hslices ⊢
      obtain ⟨ls, hls, hbalance⟩ := ih cs.length (Nat.lt_succ_self _) hline hslices rfl
      have hplain : ∀ d ∈ [c], Plain d := by simp [plain_of_isSpace hspace]
      exact ⟨ls, hls, hbalance.trans (netFrom_plain hplain cs).symm⟩
    by_cases hslash : c = '/' ∧ (cs ++ tail).head? = some '/'
    · obtain ⟨rfl, hhead⟩ := hslash
      -- the second slash is not on the next line
      obtain ⟨body, rfl⟩ : ∃ body, cs = '/' :: body := by
        cases cs with
        | nil => exact absurd (htail _ hhead) (by decide)
        | cons d body => exact ⟨body, by rw [Option.some.inj hhead]⟩
      refine ⟨[], ?_, by simp [netFrom, Kind.braceBalance]⟩
      exact lexemes_comment (fun h => hline (.tail _ h)) htail
    · rw [List.cons_append, lexemes_token (eq_false_of_ne_true hspace) hslash,
        List.forall_mem_cons] at hslices
      have hwhole : _ = (c :: cs) ++ tail := lexeme_append c (cs ++ tail)
      obtain ⟨more, hcut, hrest⟩ := exists_rest_of_slice hwhole htail hslices.1
      have hmore : '\n' ∉ more := fun h => hcs (by rw [hcut]; exact List.mem_append_right _ h)
      have hshort : more.length < (c :: cs).length := by
        have hpos := List.length_pos_iff.mpr (lexeme_slice_ne_nil c (cs ++ tail))
        rw [hcut, List.length_append]
        omega
      rw [hrest] at hslices
      obtain ⟨ls, hls, hbalance⟩ := ih more.length hshort hmore hslices.2 rfl
      refine ⟨(lexeme c (cs ++ tail)).1 :: ls, ?_, ?_⟩
      · rw [List.cons_append, lexemes_token (eq_false_of_ne_true hspace) hslash, hrest, hls,
          List.cons_append]
      · rw [hcut, netFrom_lexeme hrest hmore hslash, ← hbalance]
        exact Kind.braceBalance_append [_] _

end Lines

/-- No token of the text runs over the end of a line. -/
def OnOneLine (text : Bytes) : Prop :=
  ∀ l ∈ lexemes (scanned text.decode), '\n' ∉ l.slice

instance (text : Bytes) : Decidable (OnOneLine text) :=
  inferInstanceAs (Decidable (∀ l ∈ _, _))

end Token

namespace Console

open Token

/-- The line has neither NUL nor a line feed. -/
def IsPlainLine (line : Bytes) : Prop :=
  0 ∉ line ∧ 0x0A ∉ line

instance (line : Bytes) : Decidable (IsPlainLine line) :=
  inferInstanceAs (Decidable (_ ∧ _))

/-- The input is no end of the inputs, and has neither NUL nor a line feed in it. -/
def Input.IsPlain : Input → Prop
  | .line text => IsPlainLine text
  | .interrupt => True
  | .finish => False

instance : (input : Input) → Decidable input.IsPlain
  | .line text => inferInstanceAs (Decidable (IsPlainLine text))
  | .interrupt => inferInstanceAs (Decidable True)
  | .finish => inferInstanceAs (Decidable False)

section Texts

/-- Lines are decoded one by one, as no character reaches over a line feed. -/
theorem decode_textOf_cons (line : Bytes) (lines : List Bytes) :
    (textOf (line :: lines)).decode = line.decode ++ '\n' :: (textOf lines).decode := by
  rw [textOf, List.flatMap_cons, Reader.ended, List.append_assoc, List.singleton_append]
  exact Bytes.decode_lineFeed line _

/-- Line by line, the tokens of a text have the braces that are counted there. -/
theorem braceBalance_lexemes {lines : List Bytes} (hlines : ∀ line ∈ lines, IsPlainLine line)
    (hslices : ∀ l ∈ lexemes (textOf lines).decode, '\n' ∉ l.slice) :
    Kind.braceBalance ((lexemes (textOf lines).decode).map Lexeme.kind) =
      (lines.map Braces.balance).sum := by
  induction lines with
  | nil =>
    have hnil : (textOf []).decode = [] := by
      rw [textOf, List.flatMap_nil, Bytes.decode]
    rw [hnil, lexemes_nil]
    rfl
  | cons line lines ih =>
    rw [List.forall_mem_cons] at hlines
    have hline : '\n' ∉ line.decode := Bytes.not_mem_decode (a := 0x0A) (by decide) hlines.1.2
    rw [decode_textOf_cons] at hslices ⊢
    obtain ⟨ls, hls, hbalance⟩ := exists_lexemes_line hline (by simp) hslices
    rw [lexemes_space (by decide)] at hls
    rw [hls] at hslices
    have hrest := ih hlines.2 fun l hl => hslices l (List.mem_append_right _ hl)
    rw [hls, List.map_append, Kind.braceBalance_append, hbalance, hrest, List.map_cons,
      List.sum_cons, Braces.balance, Braces.balanceFrom_eq]

/-- Where no token runs over the end of a line, the tokens of a text have the braces that are
counted in its lines. -/
theorem braceBalance_textOf {lines : List Bytes} (hlines : ∀ line ∈ lines, IsPlainLine line)
    (h : OnOneLine (textOf lines)) :
    braceBalance (textOf lines) = (lines.map Braces.balance).sum := by
  have hnul : Char.ofNat 0 ∉ (textOf lines).decode := by
    refine Bytes.not_mem_decode (a := 0) (by decide) fun hmem => ?_
    obtain ⟨line, hline, hmem⟩ := List.mem_flatMap.mp hmem
    rcases List.mem_append.mp hmem with hmem | hmem
    · exact (hlines line hline).1 hmem
    · simp at hmem
  rw [OnOneLine, scanned_eq_self hnul] at h
  rw [braceBalance, map_tokens_tokenize (fun kind _ => kind), scanned_eq_self hnul]
  exact braceBalance_lexemes hlines h

end Texts

section Depths

/-- There are no more braces than bytes. -/
theorem natAbs_balanceFrom_le (region : Braces.Region) (bs : Bytes) :
    (Braces.balanceFrom region bs).natAbs ≤ bs.length := by
  fun_induction Braces.balanceFrom region bs with
  | case1 => exact Nat.le_refl 0
  | _ =>
    rw [List.length_cons]
    omega

/-- There are no more braces in some lines than bytes in their text. -/
theorem natAbs_sum_balance_le (lines : List Bytes) :
    ((lines.map Braces.balance).sum).natAbs ≤ (textOf lines).length := by
  induction lines with
  | nil => exact Nat.le_refl 0
  | cons line lines ih =>
    have hline := natAbs_balanceFrom_le .code line
    have hlength : (textOf (line :: lines)).length = line.length + 1 + (textOf lines).length := by
      simp [textOf, Reader.ended]
      omega
    rw [List.map_cons, List.sum_cons, hlength, Braces.balance]
    omega

/-- Where nothing overflows, the balance of the line is added, and less than no brace is none. -/
theorem toInt_depthAfter {depth : Int64} {line : Bytes}
    (hlow : -2 ^ 63 ≤ depth.toInt + Braces.balance line)
    (hhigh : depth.toInt + Braces.balance line < 2 ^ 63) :
    (Braces.depthAfter depth line).toInt = max (depth.toInt + Braces.balance line) 0 := by
  have hzero : (0 : Int64).toInt = 0 := rfl
  have hsize : (Int64.size : Int) = 2 ^ 64 := rfl
  have hsum : (depth + Int64.ofInt (Braces.balance line)).toInt =
      depth.toInt + Braces.balance line := by
    rw [Int64.toInt_add, Int64.toInt_ofInt, Int.add_bmod_bmod]
    exact Int.bmod_eq_of_le (by omega) (by omega)
  change (if _ ≤ _ then _ else _ : Int64).toInt = _
  split
  next h =>
    rw [Int64.le_iff_toInt_le] at h
    omega
  next h =>
    rw [Int64.le_iff_toInt_le] at h
    omega

/-- One more line, where their number is the balance of the lines before it. -/
theorem toInt_depthOf_append {lines : List Bytes} {line : Bytes}
    (hdepth : (depthOf lines).toInt = (lines.map Braces.balance).sum)
    (hlength : (textOf (lines ++ [line])).length < 2 ^ 63) :
    (depthOf (lines ++ [line])).toInt = max ((lines ++ [line]).map Braces.balance).sum 0 := by
  have hbound := natAbs_sum_balance_le (lines ++ [line])
  rw [List.map_append, List.sum_append, List.map_singleton, List.sum_singleton, ← hdepth]
    at hbound ⊢
  rw [depthOf_append_singleton]
  exact toInt_depthAfter (by omega) (by omega)

/-- While braces are open, their number is the balance of the lines. -/
theorem toInt_depthOf {lines : List Bytes}
    (hopen : ∀ n < lines.length, 0 < depthOf (lines.take (n + 1)))
    (hlength : (textOf lines).length < 2 ^ 63) :
    (depthOf lines).toInt = (lines.map Braces.balance).sum := by
  induction lines using List.reverseRecOn with
  | nil => rfl
  | append_singleton lines line ih =>
    rw [List.length_append, List.length_singleton] at hopen
    have hbefore : (depthOf lines).toInt = (lines.map Braces.balance).sum := by
      refine ih (fun n hn => ?_) ?_
      · have hn' := hopen n (by omega)
        rwa [List.take_append_of_le_length hn] at hn'
      · rw [textOf_append_singleton, List.length_append] at hlength
        omega
    -- with braces open, none was closed that had not been opened
    have hlast := hopen lines.length (Nat.lt_succ_self _)
    rw [List.take_of_length_le (by simp), Int64.lt_iff_toInt_lt] at hlast
    have hdepth := toInt_depthOf_append hbefore hlength
    have hzero : (0 : Int64).toInt = 0 := rfl
    omega

end Depths

/-- What a block holds, in terms of the tokens of its text. -/
theorem Block.toInt_depthOf_eq (b : Block) (hlines : ∀ line ∈ b.lines, IsPlainLine line)
    (hlength : (textOf b.lines).length < 2 ^ 63) (honeline : OnOneLine (textOf b.lines)) :
    (depthOf b.lines).toInt = braceBalance (textOf b.lines) := by
  rw [braceBalance_textOf hlines honeline]
  exact toInt_depthOf b.opened hlength

/-- A line goes on with a block if the tokens leave a brace open, and closes it otherwise. -/
theorem Block.depthOf_append_pos_iff (b : Block) {line : Bytes}
    (hlines : ∀ l ∈ b.lines ++ [line], IsPlainLine l)
    (hlength : (textOf (b.lines ++ [line])).length < 2 ^ 63)
    (honeline : OnOneLine (textOf (b.lines ++ [line]))) :
    0 < depthOf (b.lines ++ [line]) ↔ 0 < braceBalance (textOf (b.lines ++ [line])) := by
  have hshort : (textOf b.lines).length < 2 ^ 63 := by
    rw [textOf_append_singleton, List.length_append] at hlength
    omega
  have hdepth := toInt_depthOf_append (toInt_depthOf b.opened hshort) hlength
  have hzero : (0 : Int64).toInt = 0 := rfl
  rw [braceBalance_textOf hlines honeline, Int64.lt_iff_toInt_lt]
  omega

/-- The console counts the braces that the scanner finds, unless a token runs over the end of a
line. While a block is being collected, the number of open braces is that of the opening braces less
the closing ones among the tokens of its text, and some are open. The next line is collected as well
if that leaves a brace open. Otherwise the text is handed over, unless it is blank. -/
theorem depth_eq_braceBalance {inputs : List Input} (h : ∀ input ∈ inputs, input.IsPlain) :
    let r := Reader.empty.after inputs
    (r.block ≠ [] → r.block.length < 2 ^ 63 → OnOneLine r.block →
        r.depth.toInt = braceBalance r.block ∧ 0 < braceBalance r.block) ∧
      ∀ line, IsPlainLine line → r.pasting = false → ¬ (r.block = [] ∧ IsCommand line) →
        let text := r.block ++ Reader.ended line
        text.length < 2 ^ 63 → OnOneLine text →
          (0 < braceBalance text →
            (r.step (.line line)).1.block = text ∧ (r.step (.line line)).2 = .nothing) ∧
          (braceBalance text ≤ 0 → (r.step (.line line)).1.block = [] ∧
            (r.step (.line line)).2 =
              if Reader.trimmed text = [] then .nothing else .evaluate (r.chunks + 1) text) := by
  intro r
  have hfinish : Input.finish ∉ inputs := fun hmem => h _ hmem
  -- what is collected at this prompt: a paste has no block, and the lines of a block are inputs
  obtain ⟨passages, left, hinputs, -, hafter⟩ := exists_accounts hfinish
  rw [show r = _ from hafter]
  cases left with
  | paste p => exact ⟨fun hblock => absurd rfl hblock, nofun⟩
  | block b =>
    have hblock : ∀ line ∈ b.lines, IsPlainLine line := by
      intro line hline
      refine h (.line line) ?_
      rw [← hinputs]
      exact List.mem_append_right _ (List.mem_map_of_mem hline)
    simp only [Collecting.reader]
    constructor
    · intro hne hlength honeline
      have hdepth := b.toInt_depthOf_eq hblock hlength honeline
      have hopen := Int64.lt_iff_toInt_lt.mp (b.depthOf_pos (mt textOf_eq_nil_iff.mpr hne))
      exact ⟨hdepth, hdepth ▸ hopen⟩
    · intro line hline _ hcommand hlength honeline
      have hidle : b.lines = [] → ¬ IsCommand line :=
        fun hnil h => hcommand ⟨textOf_eq_nil_iff.mpr hnil, h⟩
      have hstep := step_block b hidle (passages.filterMap Passage.chunk?).length
      rw [Collecting.reader, Reader.append] at hstep
      rw [hstep]
      simp only [← textOf_append_singleton, ← depthOf_append_singleton] at hlength honeline ⊢
      have hopen := b.depthOf_append_pos_iff (List.forall_mem_append.mpr
        ⟨hblock, List.forall_mem_singleton.mpr hline⟩) hlength honeline
      constructor
      · intro hpos
        rw [if_pos (hopen.mpr hpos)]
        exact ⟨rfl, rfl⟩
      · intro hle
        rw [if_neg (mt hopen.mp (Int.not_lt.mpr hle))]
        split <;> exact ⟨rfl, rfl⟩

/-- A block of two lines, the second of which has a brace in a literal and closes the block. -/
theorem depth_eq_braceBalance_closed :
    let inputs : List Input := [.line (Bytes.ofString "if x \x7b")]
    let line := Bytes.ofString "print(\"\x7b\"); \x7d"
    let r := Reader.empty.after inputs
    (∀ input ∈ inputs, input.IsPlain) ∧ IsPlainLine line ∧ r.pasting = false ∧
      r.depth.toInt = braceBalance r.block ∧ 0 < braceBalance r.block ∧
      (r.step (.line line)).2 = .evaluate 1 (r.block ++ Reader.ended line) := by
  intro inputs line r
  have hinputs : ∀ input ∈ inputs, input.IsPlain := by decide +kernel
  have hline : IsPlainLine line := by decide +kernel
  have hblock : r.block ≠ [] ∧ OnOneLine r.block := by decide +kernel
  have hpasting : r.pasting = false := by decide +kernel
  have htext : OnOneLine (r.block ++ Reader.ended line) := by decide +kernel
  have hclosed : braceBalance (r.block ++ Reader.ended line) ≤ 0 := by decide +kernel
  obtain ⟨hprompt, hnext⟩ := depth_eq_braceBalance hinputs
  obtain ⟨hdepth, hopen⟩ := hprompt hblock.1 (by decide +kernel) hblock.2
  obtain ⟨-, hclose⟩ := hnext line hline hpasting (fun h => hblock.1 h.1) (by decide +kernel) htext
  refine ⟨hinputs, hline, hpasting, hdepth, hopen, (hclose hclosed).2.trans ?_⟩
  decide +kernel

/-- A string literal over the end of a line: its brace is counted, although the tokens of the text
have as many closing braces as opening ones. -/
theorem depth_counts_continued_literal :
    let inputs : List Input := [.line (Bytes.ofString "if true \x7b print(\"a\\"),
      .line (Bytes.ofString "\x7b\");\x7d")]
    let r := Reader.empty.after inputs
    (∀ input ∈ inputs, input.IsPlain) ∧ r.block ≠ [] ∧ r.depth = 2 ∧ braceBalance r.block = 0 := by
  decide +kernel

end Console

end TagScript
