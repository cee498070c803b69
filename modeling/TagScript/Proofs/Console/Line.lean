import TagScript.Proofs.Console.Braces

/-!
# Braces of One Line

What the console counts in the bytes of one line is what the scanner finds in it: the number of open
braces after the line is the one before it, and an opening brace more for each token that opens one
and one less for each that closes one, but never below zero (`depthAfter_eq_tokens`). This holds of
all bytes, be they well formed or not. A line has no line feed, so no token runs over its end.
-/

namespace TagScript

namespace Token

/-- The characters of a token are characters of the text. -/
theorem mem_of_mem_lexemes {cs : List Char} {l : Lexeme} (hl : l ∈ lexemes cs) {d : Char}
    (hd : d ∈ l.slice) : d ∈ cs := by
  -- a token may have any length, so the induction is on how much of the text is left
  induction hlength : cs.length using Nat.strong_induction_on generalizing cs with
  | _ n ih =>
  subst hlength
  rcases hsplit : splitGap false cs with ⟨gap, behind⟩
  have hgap := splitGap_append false cs
  have hle := splitGap_rest_le false cs
  rw [hsplit] at hgap hle
  rw [← hgap]
  refine List.mem_append_right gap ?_
  cases behind with
  | nil =>
    rw [lexemes_of_gap hsplit] at hl
    cases hl
  | cons c rest =>
    rw [lexemes_of_token hsplit] at hl
    have hcut := lexeme_append c rest
    have hlt := lexeme_rest_lt c rest
    obtain rfl | hl := List.mem_cons.mp hl
    · rw [← hcut]
      exact List.mem_append_left _ hd
    · rw [← hcut]
      exact List.mem_append_right _ (ih _ (Nat.lt_of_lt_of_le hlt hle) hl rfl)

end Token

namespace Console

open Token

/-- The tokens of a line have the braces that are counted in its bytes. -/
theorem braceBalance_line {line : Bytes} (h : IsPlainLine line) :
    braceBalance line = Braces.balance line := by
  have hnul : Char.ofNat 0 ∉ line.decode := Bytes.not_mem_decode (a := 0) (by decide) h.1
  have hfeed : '\n' ∉ line.decode := Bytes.not_mem_decode (a := 0x0A) (by decide) h.2
  have hslices : ∀ l ∈ lexemes (line.decode ++ []), '\n' ∉ l.slice := by
    intro l hl hmem
    rw [List.append_nil] at hl
    exact hfeed (mem_of_mem_lexemes hl hmem)
  -- behind the line there is nothing
  obtain ⟨ls, hls, hbalance⟩ := exists_lexemes_line hfeed (by simp) hslices
  rw [List.append_nil, lexemes_nil, List.append_nil] at hls
  rw [braceBalance, map_tokens_tokenize (fun kind _ => kind), scanned_eq_self hnul, hls,
    Braces.balance, Braces.balanceFrom_eq]
  exact hbalance

/-- The console counts the braces of a line as the scanner finds them. The number of open braces
after a line is the number before it, with the opening braces among the tokens of the line added and
the closing ones taken away in 64 bits, and zero if that is negative. As long as the numbers have a
place in 64 bits, these are the sum and the difference of integers. -/
theorem depthAfter_eq_tokens (depth : Int64) {line : Bytes} (h : IsPlainLine line) :
    let kinds := (tokenize line.decode).tokens.map Token.kind
    let opened := kinds.count .lbrace
    let closed := kinds.count .rbrace
    Braces.depthAfter depth line = max (depth + Int64.ofNat opened - Int64.ofNat closed) 0 ∧
      (0 ≤ depth → line.length < 2 ^ 63 → depth.toInt + opened - closed < 2 ^ 63 →
        (Braces.depthAfter depth line).toInt = max (depth.toInt + opened - closed) 0) := by
  intro kinds opened closed
  have hbalance : Braces.balance line = opened - closed := (braceBalance_line h).symm
  constructor
  · rw [Braces.depthAfter, hbalance]
    rw [Int64.ofInt_sub, Int64.ofInt_eq_ofNat, Int64.ofInt_eq_ofNat]
    rw [Int64.sub_eq_add_neg, ← Int64.add_assoc, ← Int64.sub_eq_add_neg]
  · intro hdepth hlength hhigh
    have hbound := natAbs_balanceFrom_le .code line
    rw [← Braces.balance, hbalance] at hbound
    rw [Int64.le_iff_toInt_le] at hdepth
    have hzero : (0 : Int64).toInt = 0 := rfl
    have hafter : (Braces.depthAfter depth line).toInt =
        max (depth.toInt + Braces.balance line) 0 :=
      toInt_depthAfter (by omega) (by omega)
    rw [hafter, hbalance, Int.add_sub_assoc]

/-- A line with two braces in code, one in a literal behind an escaped byte that is no character,
and one in a comment. -/
theorem depthAfter_eq_tokens_escaped_byte :
    let line : Bytes := Bytes.ofString "\x7b \"\\" ++ [0xFF] ++ Bytes.ofString "\x7b\" \x7b // \x7d"
    IsPlainLine line ∧ Braces.depthAfter 1 line = 3 ∧ (Braces.depthAfter 1 line).toInt = 3 := by
  intro line
  have hline : IsPlainLine line := by decide +kernel
  obtain ⟨hwords, hintegers⟩ := depthAfter_eq_tokens 1 hline
  have hopened : ((tokenize line.decode).tokens.map Token.kind).count .lbrace = 2 := by
    decide +kernel
  have hclosed : ((tokenize line.decode).tokens.map Token.kind).count .rbrace = 0 := by
    decide +kernel
  rw [hopened, hclosed] at hwords hintegers
  exact ⟨hline, hwords.trans (by decide),
    (hintegers (by decide) (by decide +kernel) (by decide)).trans (by decide)⟩

end Console

end TagScript
