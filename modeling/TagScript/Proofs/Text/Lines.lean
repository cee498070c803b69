import Mathlib.Data.List.TakeWhile
import TagScript.Proofs.Text.Decode

/-!
# Characters and Their Lines

The scanner counts lines and columns in characters, while the lines of a text are cut out of its
bytes. A character is found in the line whose number is how often a line ends before it, behind the
characters that stand between the last such end and itself (`exists_line`). Lines end at the line
feeds and at the CRs that stand alone, so where each CR stands right before an LF these are the line
and the column that the scanner counts (`loneCrs_of_crBeforeLf`, `lastLine_of_loneCrs`); the lines
are then what stands between the line feeds once each CR LF is read as one LF
(`splitLines_eq_splitOn`).
-/

namespace TagScript.Bytes

section Definitions

/-- Each CR stands right before an LF. -/
def CrBeforeLf (bs : Bytes) : Prop :=
  ∀ before after, bs = before ++ 0x0D :: after → after.head? = some 0x0A

/-- The bytes with each CR LF read as one LF. -/
def readCrLf : Bytes → Bytes
  | [] => []
  | 0x0D :: 0x0A :: rest => 0x0A :: readCrLf rest
  | b :: rest => b :: readCrLf rest

/-- What `ends` a line in front of `rest`: an LF, a CR LF, or a CR that no LF follows. -/
def EndsLine {α : Type} (lf cr : α) (ends rest : List α) : Prop :=
  ends = [lf] ∨ ends = [cr, lf] ∨ ends = [cr] ∧ rest.head? ≠ some lf

/-- A text that is made of lines: neither an LF nor a CR is in a line, and each line but the last
one has an end behind it. -/
inductive MadeOf : Bytes → List Bytes → Prop
  | last {line : Bytes} : 0x0A ∉ line → 0x0D ∉ line → MadeOf line [line]
  | line {line ends rest : Bytes} {lines : List Bytes} : 0x0A ∉ line → 0x0D ∉ line →
      EndsLine 0x0A 0x0D ends rest → MadeOf rest lines →
      MadeOf (line ++ (ends ++ rest)) (line :: lines)

/-- How many CRs of a text stand alone, with no LF right behind them. -/
def loneCrs : List Char → Nat
  | [] => 0
  | c :: rest => loneCrs rest + if c = '\r' ∧ rest.head? ≠ some '\n' then 1 else 0

/-- How many lines end in a text. -/
def lineEnds (cs : List Char) : Nat :=
  cs.count '\n' + loneCrs cs

/-- The characters of a text since the last end of a line, the last one first. -/
def lastLine (cs : List Char) : List Char :=
  cs.reverse.takeWhile fun c => c ≠ '\n' ∧ c ≠ '\r'

end Definitions

section Lines

theorem crBeforeLf_nil : CrBeforeLf [] := by
  intro before after h
  simp at h

/-- A carriage return is followed by a line feed, and so on. -/
theorem crBeforeLf_cons {b : UInt8} {bs : Bytes} :
    CrBeforeLf (b :: bs) ↔ (b = 0x0D → bs.head? = some 0x0A) ∧ CrBeforeLf bs := by
  constructor
  · intro h
    refine ⟨fun hb => h [] bs (by rw [hb]; rfl), ?_⟩
    rintro before after rfl
    exact h (b :: before) after rfl
  · rintro ⟨hb, hbs⟩ before after h
    obtain ⟨rfl, hbefore⟩ | ⟨more, rfl, hmore⟩ := List.cons_eq_append_iff.mp h
    · obtain ⟨rfl, rfl⟩ := List.cons.inj hbefore
      exact hb rfl
    · exact hbs more after hmore

theorem CrBeforeLf.tail {b : UInt8} {bs : Bytes} (h : CrBeforeLf (b :: bs)) : CrBeforeLf bs :=
  (crBeforeLf_cons.mp h).2

/-- Behind a carriage return there is a line feed. -/
theorem CrBeforeLf.lf {bs : Bytes} (h : CrBeforeLf (0x0D :: bs)) : ∃ more, bs = 0x0A :: more :=
  List.head?_eq_some_iff.mp (h [] bs rfl)

instance decidableCrBeforeLf : (bs : Bytes) → Decidable bs.CrBeforeLf
  | [] => .isTrue crBeforeLf_nil
  | _ :: bs =>
    have := decidableCrBeforeLf bs
    decidable_of_iff' _ crBeforeLf_cons

/-- Where every carriage return of a text is followed by a line feed, so is every one behind a front
of it. -/
theorem CrBeforeLf.of_append {bs cs : Bytes} (h : CrBeforeLf (bs ++ cs)) : CrBeforeLf cs := by
  induction bs with
  | nil => exact h
  | cons b bs ih => exact ih (CrBeforeLf.tail h)

/-- A byte that ends no line stands at the front of the first one. -/
theorem MadeOf.cons {b : UInt8} {bs line : Bytes} {lines : List Bytes} (hlf : b ≠ 0x0A)
    (hcr : b ≠ 0x0D) (h : MadeOf bs (line :: lines)) : MadeOf (b :: bs) ((b :: line) :: lines) := by
  cases h with
  | last hlf' hcr' =>
    exact .last (List.not_mem_cons_of_ne_of_not_mem hlf.symm hlf')
      (List.not_mem_cons_of_ne_of_not_mem hcr.symm hcr')
  | line hlf' hcr' hends hrest =>
    exact .line (List.not_mem_cons_of_ne_of_not_mem hlf.symm hlf')
      (List.not_mem_cons_of_ne_of_not_mem hcr.symm hcr') hends hrest

/-- A text is made of the lines it is split into. -/
theorem madeOf_splitLines (bs : Bytes) : MadeOf bs bs.splitLines := by
  fun_induction splitLines bs with
  | case1 => exact .last List.not_mem_nil List.not_mem_nil
  | case2 rest ih => exact .line List.not_mem_nil List.not_mem_nil (.inr (.inl rfl)) ih
  | case3 b rest hpair hb ih =>
    show MadeOf ([] ++ ([b] ++ rest)) _
    refine .line List.not_mem_nil List.not_mem_nil ?_ ih
    obtain rfl | rfl := hb
    · exact .inl rfl
    · -- with an LF behind it, the CR would be part of a CR LF
      refine .inr (.inr ⟨rfl, fun hhead => ?_⟩)
      obtain ⟨more, rfl⟩ := List.head?_eq_some_iff.mp hhead
      exact hpair more rfl rfl
  | case4 b rest hpair hb line lines hrest ih =>
    rw [hrest] at ih
    exact ih.cons (fun hlf => hb (.inl hlf)) (fun hcr => hb (.inr hcr))
  | case5 b rest hpair hb hrest ih =>
    rw [hrest] at ih
    cases ih

/-- A line feed in front ends an empty line. -/
theorem splitOn_cons_lineFeed (bs : Bytes) :
    List.splitOn (0x0A : UInt8) (0x0A :: bs) = [] :: List.splitOn 0x0A bs :=
  List.splitOnP_cons_eq_if_modifyHead ..

/-- Another byte in front belongs to the first line. -/
theorem splitOn_cons_of_ne {b : UInt8} (hb : b ≠ 0x0A) (bs : Bytes) :
    List.splitOn 0x0A (b :: bs) = (List.splitOn 0x0A bs).modifyHead (b :: ·) := by
  rw [List.splitOn, List.splitOnP_cons_eq_if_modifyHead, if_neg (by simp [hb])]
  rfl

/-- Where each CR stands right before an LF, the lines are what stands between the line feeds. -/
theorem splitLines_eq_splitOn {bs : Bytes} (h : CrBeforeLf bs) :
    bs.splitLines = bs.readCrLf.splitOn 0x0A := by
  fun_induction splitLines bs with
  | case1 => rfl
  | case2 rest ih => rw [readCrLf, splitOn_cons_lineFeed, ih h.tail.tail]
  | case3 b rest hpair hb ih =>
    obtain rfl | rfl := hb
    · rw [readCrLf, splitOn_cons_lineFeed, ih h.tail]
      exact hpair
    · obtain ⟨more, rfl⟩ := h.lf
      exact absurd rfl (hpair more rfl)
  | case4 b rest hpair hb line lines hrest ih =>
    rw [readCrLf, splitOn_cons_of_ne (fun hlf => hb (.inl hlf)), ← ih h.tail, hrest]
    · rfl
    · exact hpair
  | case5 b rest hpair hb hrest ih =>
    exact absurd ((ih h.tail).symm.trans hrest) (List.splitOn_ne_nil _ _)

/-- A text that is not empty has the lines that it is split into. -/
theorem lines_eq_splitLines {bs : Bytes} (h : bs ≠ []) : bs.lines = bs.splitLines :=
  if_neg (by simpa using h)

end Lines

section Characters

/-- The end of a line is decoded by itself, and ends a line of the characters. -/
theorem EndsLine.exists_decode {ends rest : Bytes} (h : EndsLine 0x0A 0x0D ends rest) :
    ∃ chars, EndsLine '\n' '\r' chars rest.decode ∧ (chars = ['\r'] → ends = [0x0D]) ∧
      ∀ line : Bytes, (line ++ (ends ++ rest)).decode = line.decode ++ (chars ++ rest.decode) := by
  have hcr (line cs : Bytes) : (line ++ 0x0D :: cs).decode = line.decode ++ '\r' :: cs.decode :=
    decode_ascii (a := 0x0D) (by decide) line cs
  rcases h with rfl | rfl | ⟨rfl, hrest⟩
  · exact ⟨['\n'], .inl rfl, by simp, fun line => decode_lineFeed line rest⟩
  · refine ⟨['\r', '\n'], .inr (.inl rfl), by simp, fun line => ?_⟩
    have hlf : decode (0x0A :: rest) = '\n' :: rest.decode := by
      simpa [decode] using decode_lineFeed [] rest
    rw [List.cons_append, hcr, List.singleton_append, hlf]
    rfl
  · have hhead : rest.decode.head? ≠ some '\n' :=
      mt (head?_decode_iff (a := 0x0A) (by decide) rest).mp hrest
    exact ⟨['\r'], .inr (.inr ⟨rfl, hhead⟩), fun _ => rfl, fun line => hcr line rest⟩

/-- What ends a line in front of a text ends it in front of less of the text. -/
theorem EndsLine.of_append {α : Type} {lf cr : α} {ends rest more : List α}
    (h : EndsLine lf cr ends (rest ++ more)) : EndsLine lf cr ends rest := by
  rcases h with h | h | ⟨h, hmore⟩
  · exact .inl h
  · exact .inr (.inl h)
  · refine .inr (.inr ⟨h, fun hhead => hmore ?_⟩)
    obtain ⟨tail, rfl⟩ := List.head?_eq_some_iff.mp hhead
    rfl

/-- A line without carriage returns has no lone one. -/
theorem loneCrs_append_of_not_mem {line : List Char} (h : '\r' ∉ line) (cs : List Char) :
    loneCrs (line ++ cs) = loneCrs cs := by
  induction line with
  | nil => rfl
  | cons c line ih =>
    obtain ⟨hc, hline⟩ := not_or.mp (mt List.mem_cons.mpr h)
    rw [List.cons_append, loneCrs, ih hline, if_neg fun hcr => hc hcr.1.symm, Nat.add_zero]

/-- A CR that stands alone does so whatever the text goes on with, other than a line feed. -/
theorem loneCrs_le_append {c : Char} (hc : c ≠ '\n') (before after : List Char) :
    loneCrs before ≤ loneCrs (before ++ c :: after) := by
  induction before with
  | nil => exact Nat.zero_le _
  | cons d before ih =>
    have hhead : before.head? ≠ some '\n' → (before ++ c :: after).head? ≠ some '\n' := by
      cases before <;> simp [hc]
    rw [List.cons_append, loneCrs, loneCrs]
    split_ifs with hlone hlonger <;> grind

/-- Text in front adds lone carriage returns, if anything. -/
theorem loneCrs_le_append_left (above below : List Char) :
    loneCrs below ≤ loneCrs (above ++ below) := by
  induction above with
  | nil => exact le_rfl
  | cons c above ih => exact ih.trans (Nat.le_add_right _ _)

/-- One line ends at the end of a line. -/
theorem lineEnds_line {line ends rest : List Char} (hlf : '\n' ∉ line) (hcr : '\r' ∉ line)
    (h : EndsLine '\n' '\r' ends rest) : lineEnds (line ++ (ends ++ rest)) = lineEnds rest + 1 := by
  rw [lineEnds, loneCrs_append_of_not_mem hcr, List.count_append, List.count_eq_zero.mpr hlf,
    Nat.zero_add, lineEnds]
  rcases h with rfl | rfl | ⟨rfl, hrest⟩
  · simp [loneCrs]
    omega
  · simp [loneCrs]
    omega
  · simp [loneCrs, hrest]
    omega

/-- In a text of one line no line ends. -/
theorem lineEnds_of_not_mem {cs : List Char} (hlf : '\n' ∉ cs) (hcr : '\r' ∉ cs) :
    lineEnds cs = 0 := by
  have hlone := loneCrs_append_of_not_mem hcr []
  rw [List.append_nil] at hlone
  rw [lineEnds, List.count_eq_zero.mpr hlf, hlone]
  rfl

/-- A text without line ends is its own last line. -/
theorem lastLine_of_not_mem {cs : List Char} (hlf : '\n' ∉ cs) (hcr : '\r' ∉ cs) :
    lastLine cs = cs.reverse := by
  refine List.takeWhile_eq_self_iff.mpr fun c hc => decide_eq_true ⟨?_, ?_⟩
  · rintro rfl
    exact hlf (List.mem_reverse.mp hc)
  · rintro rfl
    exact hcr (List.mem_reverse.mp hc)

/-- Only what stands behind the last end of a line is in the last line. -/
theorem lastLine_line {ends rest : List Char} (h : EndsLine '\n' '\r' ends rest)
    (line : List Char) : lastLine (line ++ (ends ++ rest)) = lastLine rest := by
  obtain ⟨above, c, hends, hc⟩ : ∃ above c, ends = above ++ [c] ∧ (c = '\n' ∨ c = '\r') := by
    rcases h with rfl | rfl | ⟨rfl, -⟩
    · exact ⟨[], '\n', rfl, .inl rfl⟩
    · exact ⟨['\r'], '\n', rfl, .inl rfl⟩
    · exact ⟨[], '\r', rfl, .inr rfl⟩
  have hstop : List.takeWhile (fun c => decide (c ≠ '\n' ∧ c ≠ '\r'))
      (c :: (line ++ above).reverse) = [] := by
    rw [List.takeWhile_cons, if_neg]
    rcases hc with rfl | rfl <;> decide
  have hreverse : (line ++ (ends ++ rest)).reverse =
      rest.reverse ++ c :: (line ++ above).reverse := by
    simp [hends]
  rw [lastLine, lastLine, hreverse, List.takeWhile_append, hstop, List.append_nil]
  split
  next hall => exact ((List.takeWhile_prefix _).eq_of_length hall).symm
  next => rfl

/-- Where no CR stands alone, the last line is what stands behind the last line feed. -/
theorem lastLine_of_loneCrs {cs : List Char} (h : loneCrs cs = 0) :
    lastLine cs = cs.reverse.takeWhile (· ≠ '\n') := by
  have hno : ∀ c ∈ cs.reverse.takeWhile (· ≠ '\n'), c ≠ '\r' := by
    rintro c hc rfl
    -- the CR would stand alone, since no line feed is behind it
    obtain ⟨below, more, hbelow⟩ := List.append_of_mem hc
    obtain ⟨above, hcs⟩ : below ++ '\r' :: more <+: cs.reverse := hbelow ▸ List.takeWhile_prefix _
    have hhead : below.reverse.head? ≠ some '\n' := by
      intro hhead
      have hmem : '\n' ∈ cs.reverse.takeWhile (· ≠ '\n') := by
        rw [hbelow]
        exact List.mem_append_left _ (List.mem_reverse.mp (List.mem_of_mem_head? hhead))
      simpa using List.mem_takeWhile_imp hmem
    have hle := loneCrs_le_append_left (more ++ above).reverse ('\r' :: below.reverse)
    have hreverse : (more ++ above).reverse ++ '\r' :: below.reverse = cs := by
      rw [← List.reverse_reverse cs, ← hcs]
      simp
    rw [hreverse, h, loneCrs, if_pos ⟨rfl, hhead⟩] at hle
    omega
  rw [lastLine, ← List.takeWhile_eq_self_iff.mpr fun c hc => decide_eq_true (hno c hc),
    List.takeWhile_takeWhile]
  congr 1
  ext c
  simp [and_comm]

/-- Where each CR of a text stands right before an LF, no CR of its characters stands alone. -/
theorem loneCrs_of_crBeforeLf {bs : Bytes} (h : CrBeforeLf bs) : loneCrs bs.decode = 0 := by
  have hmade := madeOf_splitLines bs
  generalize bs.splitLines = lines at hmade
  induction hmade with
  | @last line hlf hcr =>
    have hcr' : '\r' ∉ line.decode := not_mem_decode (a := 0x0D) (by decide) hcr
    simpa [loneCrs] using loneCrs_append_of_not_mem hcr' []
  | @line line ends rest lines hlf hcr hends hrest ih =>
    have hcr' : '\r' ∉ line.decode := not_mem_decode (a := 0x0D) (by decide) hcr
    obtain ⟨chars, hchars, hlone, hdecode⟩ := hends.exists_decode
    rw [hdecode, loneCrs_append_of_not_mem hcr']
    have hrest' := ih h.of_append.of_append
    rcases hchars with rfl | rfl | ⟨rfl, -⟩
    · simpa [loneCrs] using hrest'
    · simpa [loneCrs] using hrest'
    · -- a line that ends in a CR has an LF behind it
      obtain rfl := hlone rfl
      obtain ⟨more, rfl⟩ := h.of_append.lf
      rcases hends with hends | hends | ⟨-, hhead⟩
      · cases hends
      · cases hends
      · exact absurd rfl hhead

end Characters

section Places

/-- In a text of one line a character is found behind those before it. -/
theorem getElem?_of_eq_append {text before after : List Char} {c : Char} (hlf : '\n' ∉ text)
    (hcr : '\r' ∉ text) (h : text = before ++ c :: after) :
    lineEnds before = 0 ∧ text[(lastLine before).length]? = some c := by
  have hlf' : '\n' ∉ before := fun hmem => hlf (h ▸ List.mem_append_left _ hmem)
  have hcr' : '\r' ∉ before := fun hmem => hcr (h ▸ List.mem_append_left _ hmem)
  rw [lastLine_of_not_mem hlf' hcr', h]
  exact ⟨lineEnds_of_not_mem hlf' hcr', by simp⟩

/-- A character that ends no line stands in the first line or behind its end. -/
theorem EndsLine.append_eq {line ends rest before after : List Char} {c : Char}
    (hends : EndsLine '\n' '\r' ends rest) (hlf : c ≠ '\n') (hcr : c ≠ '\r')
    (h : line ++ (ends ++ rest) = before ++ c :: after) :
    (∃ more, line = before ++ c :: more) ∨
      ∃ below, before = line ++ (ends ++ below) ∧ rest = below ++ c :: after := by
  have hnotMem : c ∉ ends := by
    rcases hends with rfl | rfl | ⟨rfl, -⟩ <;> simp [hlf, hcr]
  rw [← List.append_assoc] at h
  rcases List.append_eq_append_iff.mp h with ⟨below, rfl, hbelow⟩ | ⟨more, hfront, hmore⟩
  · exact .inr ⟨below, List.append_assoc .., hbelow⟩
  cases more with
  | nil => exact .inr ⟨[], by simpa using hfront.symm, by simpa using hmore.symm⟩
  | cons d more =>
    obtain ⟨rfl, -⟩ := List.cons.inj hmore
    -- the character stands in front of the rest, but it is not in the end of the line
    rcases List.append_eq_append_iff.mp hfront with ⟨part, -, hpart⟩ | ⟨part, hline, hpart⟩
    · exact absurd (hpart ▸ List.mem_append_right _ List.mem_cons_self) hnotMem
    · cases part with
      | nil =>
        obtain rfl : c :: more = ends := hpart
        exact absurd List.mem_cons_self hnotMem
      | cons d part =>
        obtain ⟨rfl, -⟩ := List.cons.inj hpart
        exact .inl ⟨part, hline⟩

/-- A character of a text that ends no line is found in the lines the text is split into: in the
line whose number is how many lines end before it, behind the characters of that line which stand
before it. -/
theorem exists_line {bs : Bytes} {before after : List Char} {c : Char}
    (hdecode : bs.decode = before ++ c :: after) (hlf : c ≠ '\n') (hcr : c ≠ '\r') :
    ∃ line, bs.splitLines[lineEnds before]? = some line ∧
      line.decode[(lastLine before).length]? = some c := by
  have hmade := madeOf_splitLines bs
  generalize bs.splitLines = lines at hmade
  induction hmade generalizing before with
  | @last line hnoLf hnoCr =>
    have hnoLf' : '\n' ∉ line.decode := not_mem_decode (a := 0x0A) (by decide) hnoLf
    have hnoCr' : '\r' ∉ line.decode := not_mem_decode (a := 0x0D) (by decide) hnoCr
    obtain ⟨hnumber, hcolumn⟩ := getElem?_of_eq_append hnoLf' hnoCr' hdecode
    exact ⟨line, by rw [hnumber]; rfl, hcolumn⟩
  | @line line ends rest lines hnoLf hnoCr hends hrest ih =>
    have hnoLf' : '\n' ∉ line.decode := not_mem_decode (a := 0x0A) (by decide) hnoLf
    have hnoCr' : '\r' ∉ line.decode := not_mem_decode (a := 0x0D) (by decide) hnoCr
    obtain ⟨chars, hchars, -, hcut⟩ := hends.exists_decode
    rw [hcut] at hdecode
    rcases hchars.append_eq hlf hcr hdecode with ⟨more, hline⟩ | ⟨below, rfl, hbelow⟩
    · obtain ⟨hnumber, hcolumn⟩ := getElem?_of_eq_append hnoLf' hnoCr' hline
      exact ⟨line, by rw [hnumber]; rfl, hcolumn⟩
    · have hends' : EndsLine '\n' '\r' chars below := (hbelow ▸ hchars).of_append
      obtain ⟨found, hget, hcolumn⟩ := ih hbelow
      rw [lineEnds_line hnoLf' hnoCr' hends', lastLine_line hends']
      exact ⟨found, hget, hcolumn⟩

end Places

end TagScript.Bytes
