import Mathlib.Data.Char
import TagScript.Text.Bytes

/-!
# Decoding and ASCII

An ASCII byte stands for its own character wherever it occurs, and no other byte takes part in such
a character. So a text contains an ASCII character as often as its bytes contain the byte
(`count_decode`), and decoding starts afresh behind such a byte (`decode_ascii`): the characters of
some lines and of a text below them are those of the lines and those of the text (`decode_append`).
-/

namespace TagScript

namespace Bytes

theorem within_iff {lo hi b : UInt8} :
    within lo hi b = true ↔ lo.toNat ≤ b.toNat ∧ b.toNat ≤ hi.toNat := by
  simp [within, UInt8.le_iff_toNat_le]

theorem toNat_ofNat {n : Nat} (h : n < 0xD800 ∨ 0xDFFF < n ∧ n < 0x110000) :
    (Char.ofNat n).toNat = n := by
  have hvalid : n.isValidChar := h
  rw [Char.ofNat, dif_pos hvalid]
  rfl

/-- The bytes that continue a sequence. -/
theorem isTail_iff {b : UInt8} : isTail b = true ↔ 128 ≤ b.toNat ∧ b.toNat ≤ 191 := by
  simp [isTail, within_iff]

/-- What may follow the leading byte `b`, as numbers. -/
theorem secondRange_of_within {b b₁ : UInt8}
    (h : within (secondRange b).1 (secondRange b).2 b₁ = true) :
    128 ≤ b₁.toNat ∧ b₁.toNat ≤ 191 ∧ (b.toNat = 0xE0 → 0xA0 ≤ b₁.toNat) ∧
      (b.toNat = 0xED → b₁.toNat ≤ 0x9F) ∧ (b.toNat = 0xF0 → 0x90 ≤ b₁.toNat) ∧
      (b.toNat = 0xF4 → b₁.toNat ≤ 0x8F) := by
  rw [within_iff] at h
  unfold secondRange at h
  split_ifs at h <;> simp_all [← UInt8.toNat_inj] <;> omega

/-- A sequence is one ASCII byte, or it has no ASCII byte in it and its character is not of
ASCII. -/
theorem sequence?_eq_some {b : UInt8} {rest : Bytes} {c : Char} {n : Nat}
    (h : sequence? b rest = some (c, n)) :
    (b.toNat < 128 ∧ c = Char.ofNat b.toNat ∧ n = 0) ∨
      (128 ≤ b.toNat ∧ 128 ≤ c.toNat ∧ n ≤ rest.length ∧ ∀ x ∈ rest.take n, 128 ≤ x.toNat) := by
  revert h
  fun_cases sequence? b rest with
  | case1 rest hb =>
    intro h
    obtain ⟨rfl, rfl⟩ := Prod.mk.inj (Option.some.inj h)
    exact .inl ⟨hb, rfl, rfl⟩
  | case2 _ htwo b₁ more h₁ =>
    rintro ⟨⟩
    rw [within_iff] at htwo
    rw [isTail_iff] at h₁
    simp only [payload, UInt8.reduceToNat] at htwo ⊢
    exact .inr ⟨by omega, by rw [toNat_ofNat] <;> omega, by simp, by simp; omega⟩
  | case5 _ _ hthree b₁ b₂ more h₁₂ =>
    rintro ⟨⟩
    rw [within_iff] at hthree
    rw [Bool.and_eq_true, isTail_iff] at h₁₂
    have h₁ := secondRange_of_within h₁₂.1
    simp only [payload, UInt8.reduceToNat] at hthree ⊢
    exact .inr ⟨by omega, by rw [toNat_ofNat] <;> omega, by simp, by simp; omega⟩
  | case8 _ _ _ hfour b₁ b₂ b₃ more h₁₂₃ =>
    rintro ⟨⟩
    rw [within_iff] at hfour
    rw [Bool.and_eq_true, Bool.and_eq_true, isTail_iff, isTail_iff] at h₁₂₃
    have h₁ := secondRange_of_within h₁₂₃.1.1
    simp only [payload, UInt8.reduceToNat] at hfour ⊢
    exact .inr ⟨by omega, by rw [toNat_ofNat] <;> omega, by simp, by simp; omega⟩
  | _ => rintro ⟨⟩

/-- No byte of ASCII continues a sequence. -/
theorem isTail_ascii {a : UInt8} (ha : a.toNat < 128) : isTail a = false := by
  rw [← Bool.not_eq_true, isTail_iff]
  omega

/-- No byte of ASCII is the second one of a sequence. -/
theorem secondRange_ascii {a : UInt8} (ha : a.toNat < 128) (b : UInt8) :
    within (secondRange b).1 (secondRange b).2 a = false := by
  rw [← Bool.not_eq_true]
  intro h
  have hle := (secondRange_of_within h).1
  omega

/-- An ASCII byte continues no sequence, so what stands behind it does not matter. -/
theorem sequence?_ascii {a : UInt8} (ha : a.toNat < 128) (b : UInt8) (rest cs : Bytes) :
    sequence? b (rest ++ a :: cs) = sequence? b rest := by
  have htail := isTail_ascii ha
  have hsecond := secondRange_ascii ha b
  -- the longest sequence has three bytes behind its first one
  match rest with
  | [] => cases cs with
    | nil => simp [sequence?, htail]
    | cons c cs => cases cs <;> simp [sequence?, htail, hsecond]
  | [b₁] => cases cs <;> simp [sequence?, htail]
  | [b₁, b₂] => simp [sequence?, htail]
  | b₁ :: b₂ :: b₃ :: more => simp [sequence?]

/-- A sequence does not reach beyond the text. -/
theorem le_length_of_sequence? {b : UInt8} {rest : Bytes} {c : Char} {n : Nat}
    (h : sequence? b rest = some (c, n)) : n ≤ rest.length := by
  rcases sequence?_eq_some h with ⟨-, -, rfl⟩ | ⟨-, -, hn, -⟩
  · exact Nat.zero_le _
  · exact hn

/-- An ASCII byte stands for itself, and decoding starts afresh behind it. -/
theorem decode_ascii {a : UInt8} (ha : a.toNat < 128) (bs cs : Bytes) :
    decode (bs ++ a :: cs) = decode bs ++ Char.ofNat a.toNat :: decode cs := by
  fun_induction decode bs with
  | case1 =>
    have hsequence : sequence? a cs = some (Char.ofNat a.toNat, 0) := by
      simp [sequence?, UInt8.lt_iff_toNat_lt, ha]
    rw [List.nil_append, decode, hsequence]
    rfl
  | case2 b rest c n hsequence ih =>
    -- the sequence lies in front of the byte as a whole
    have hn := le_length_of_sequence? hsequence
    rw [List.cons_append, decode, sequence?_ascii ha, hsequence]
    simp only [List.drop_append_of_le_length hn, ih, List.cons_append]
  | case3 b rest hsequence ih =>
    rw [List.cons_append, decode, sequence?_ascii ha, hsequence]
    simp only [ih, List.cons_append]

/-- A line feed is a character by itself, whatever surrounds it. -/
theorem decode_lineFeed (bs cs : Bytes) :
    decode (bs ++ 0x0A :: cs) = decode bs ++ '\n' :: decode cs :=
  decode_ascii (a := 0x0A) (by decide) bs cs

/-- A text that ends with a line feed is decoded to one that does. -/
theorem getLast?_decode {bs : Bytes} (h : bs.getLast? = some 0x0A) :
    bs.decode.getLast? = some '\n' := by
  obtain ⟨body, rfl⟩ := List.getLast?_eq_some_iff.mp h
  simp [decode_lineFeed, decode]

/-- Lines are decoded by themselves. -/
theorem decode_append {bs : Bytes} (h : bs.getLast? = some 0x0A) (cs : Bytes) :
    (bs ++ cs).decode = bs.decode ++ cs.decode := by
  obtain ⟨body, rfl⟩ := List.getLast?_eq_some_iff.mp h
  rw [List.append_assoc, List.singleton_append, decode_lineFeed, decode_lineFeed]
  simp [decode]

/-- An ASCII byte stands for its own character and for no other one. -/
theorem ofNat_toNat_inj {a b : UInt8} (ha : a.toNat < 128) (hb : b.toNat < 128) :
    Char.ofNat b.toNat = Char.ofNat a.toNat ↔ b = a := by
  constructor
  · intro h
    have hnat := congrArg Char.toNat h
    rw [toNat_ofNat (.inl (by omega)), toNat_ofNat (.inl (by omega))] at hnat
    exact UInt8.toNat_inj.mp hnat
  · rintro rfl
    rfl

/-- A text starts with an ASCII character where it starts with the byte. -/
theorem head?_decode_iff {a : UInt8} (ha : a.toNat < 128) (bs : Bytes) :
    bs.decode.head? = some (Char.ofNat a.toNat) ↔ bs.head? = some a := by
  have hchar : (Char.ofNat a.toNat).toNat = a.toNat := toNat_ofNat (.inl (by omega))
  fun_cases decode bs with
  | case1 => simp
  | case2 b rest c n hsequence =>
    rw [List.head?_cons, List.head?_cons, Option.some_inj, Option.some_inj]
    rcases sequence?_eq_some hsequence with ⟨hb, rfl, -⟩ | ⟨hb, hc, -⟩
    · exact ofNat_toNat_inj ha hb
    · -- neither the byte nor the character is of ASCII
      constructor <;> rintro rfl <;> omega
  | case3 b rest hsequence =>
    rw [List.head?_cons, List.head?_cons, Option.some_inj, Option.some_inj]
    constructor
    · intro h
      rw [← h] at hchar
      have : replacement.toNat = 0xFFFD := rfl
      omega
    · rintro rfl
      simp [sequence?, UInt8.lt_iff_toNat_lt, ha] at hsequence

/-- ASCII characters stand for themselves: they occur as often as their bytes. -/
theorem count_decode {a : UInt8} (ha : a.toNat < 128) (bs : Bytes) :
    (decode bs).count (Char.ofNat a.toNat) = bs.count a := by
  have hchar : (Char.ofNat a.toNat).toNat = a.toNat := toNat_ofNat (.inl (by omega))
  fun_induction decode bs with
  | case1 => rfl
  | case2 b rest c n hsequence ih =>
    rcases sequence?_eq_some hsequence with ⟨hb, rfl, rfl⟩ | ⟨hb, hc, -, htake⟩
    · by_cases hab : b = a
      · rw [hab, List.count_cons_self, List.count_cons_self, ih, List.drop_zero]
      · have hne : Char.ofNat b.toNat ≠ Char.ofNat a.toNat := mt (ofNat_toNat_inj ha hb).mp hab
        rw [List.count_cons_of_ne hne, List.count_cons_of_ne hab, ih, List.drop_zero]
    · -- the bytes of the sequence and its character are all beyond ASCII
      have hne : c ≠ Char.ofNat a.toNat := by
        rintro rfl
        omega
      have hbytes : a ∉ b :: rest.take n := by
        rw [List.mem_cons]
        rintro (rfl | hmem)
        · omega
        · have := htake a hmem
          omega
      have hcount : (b :: rest).count a = (rest.drop n).count a :=
        calc (b :: rest).count a = ((b :: rest.take n) ++ rest.drop n).count a := by simp
          _ = (rest.drop n).count a := by
            rw [List.count_append, List.count_eq_zero.mpr hbytes, Nat.zero_add]
      rw [List.count_cons_of_ne hne, ih, hcount]
  | case3 b rest hsequence ih =>
    -- a byte that is replaced is not of ASCII, and neither is what replaces it
    have hb : b ≠ a := by
      rintro rfl
      simp [sequence?, UInt8.lt_iff_toNat_lt, ha] at hsequence
    have hne : replacement ≠ Char.ofNat a.toNat := by
      intro h
      rw [← h] at hchar
      have : replacement.toNat = 0xFFFD := rfl
      omega
    rw [List.count_cons_of_ne hne, List.count_cons_of_ne hb, ih]

/-- A byte of ASCII that is not in a text is no character of it. -/
theorem not_mem_decode {a : UInt8} (ha : a.toNat < 128) {bs : Bytes} (h : a ∉ bs) :
    Char.ofNat a.toNat ∉ bs.decode := by
  rw [← List.count_eq_zero, count_decode ha, List.count_eq_zero]
  exact h

end Bytes

end TagScript
