import TagScript.Proofs.Text.Decode

/-!
# Encoding and Decoding

Characters are encoded as well-formed sequences (`sequence?_encodeChar`), so decoding gives back the
characters that were encoded (`decode_ofChars`), whatever stands behind them. An ASCII byte occurs
in the bytes of some characters only where it is one of them (`mem_ofChars_iff`).
-/

namespace TagScript.Bytes

theorem toNat_ofNat_byte {n : Nat} (h : n < 256) : (UInt8.ofNat n).toNat = n :=
  UInt8.toNat_ofNat_of_lt' h

/-- The bytes that may follow the leading byte `b`, as numbers. -/
theorem within_secondRange {b b₁ : UInt8} (hlow : 128 ≤ b₁.toNat) (hhigh : b₁.toNat ≤ 191)
    (hE0 : b.toNat = 0xE0 → 0xA0 ≤ b₁.toNat) (hED : b.toNat = 0xED → b₁.toNat ≤ 0x9F)
    (hF0 : b.toNat = 0xF0 → 0x90 ≤ b₁.toNat) (hF4 : b.toNat = 0xF4 → b₁.toNat ≤ 0x8F) :
    within (secondRange b).1 (secondRange b).2 b₁ = true := by
  rw [within_iff]
  unfold secondRange
  split_ifs <;> simp_all [← UInt8.toNat_inj]

/-- The numbers of characters. -/
theorem toNat_char_bounds (c : Char) : c.toNat < 0xD800 ∨ 0xDFFF < c.toNat ∧ c.toNat < 0x110000 :=
  c.valid

section Sequences

variable {b b₁ b₂ b₃ : UInt8} {c : Char} (rest : Bytes)

/-- A character of one byte. -/
theorem sequence?_one (hb : b.toNat < 128) (hc : c.toNat = b.toNat) :
    sequence? b rest = some (c, 0) := by
  rw [← Char.ofNat_toNat c, hc]
  simp [sequence?, UInt8.lt_iff_toNat_lt, hb]

/-- A character of two bytes. -/
theorem sequence?_two (hlow : 0xC2 ≤ b.toNat) (hhigh : b.toNat ≤ 0xDF) (h₁ : isTail b₁ = true)
    (hc : c.toNat = b.toNat % 32 * 64 + payload b₁) :
    sequence? b (b₁ :: rest) = some (c, 1) := by
  have hascii : ¬ b.toNat < 0x80 := by omega
  simp [sequence?, UInt8.lt_iff_toNat_lt, within_iff, hascii, hlow, hhigh, h₁, ← hc]

/-- A character of three bytes. -/
theorem sequence?_three (hlow : 0xE0 ≤ b.toNat) (hhigh : b.toNat ≤ 0xEF)
    (h₁ : within (secondRange b).1 (secondRange b).2 b₁ = true) (h₂ : isTail b₂ = true)
    (hc : c.toNat = (b.toNat % 16 * 64 + payload b₁) * 64 + payload b₂) :
    sequence? b (b₁ :: b₂ :: rest) = some (c, 2) := by
  have hascii : ¬ b.toNat < 0x80 := by omega
  have htwo : ¬ b.toNat ≤ 0xDF := by omega
  simp [sequence?, UInt8.lt_iff_toNat_lt, within_iff, hascii, htwo, hlow, hhigh, h₁, h₂, ← hc]

/-- A character of four bytes. -/
theorem sequence?_four (hlow : 0xF0 ≤ b.toNat) (hhigh : b.toNat ≤ 0xF4)
    (h₁ : within (secondRange b).1 (secondRange b).2 b₁ = true) (h₂ : isTail b₂ = true)
    (h₃ : isTail b₃ = true)
    (hc : c.toNat = ((b.toNat % 8 * 64 + payload b₁) * 64 + payload b₂) * 64 + payload b₃) :
    sequence? b (b₁ :: b₂ :: b₃ :: rest) = some (c, 3) := by
  have hascii : ¬ b.toNat < 0x80 := by omega
  have htwo : ¬ b.toNat ≤ 0xDF := by omega
  have hthree : ¬ b.toNat ≤ 0xEF := by omega
  simp [sequence?, UInt8.lt_iff_toNat_lt, within_iff, hascii, htwo, hthree, hlow, hhigh, h₁, h₂, h₃,
    ← hc]

end Sequences

/-- Six bits of a number, as a byte that continues a sequence. -/
theorem isTail_ofNat (n : Nat) :
    isTail (UInt8.ofNat (n % 64 + 0x80)) = true ∧
      payload (UInt8.ofNat (n % 64 + 0x80)) = n % 64 := by
  rw [isTail_iff, payload, toNat_ofNat_byte (by omega)]
  omega

/-- A character is encoded as a well-formed sequence of its own. -/
theorem sequence?_encodeChar (c : Char) (rest : Bytes) :
    ∃ b bs, String.utf8EncodeChar c = b :: bs ∧ sequence? b (bs ++ rest) = some (c, bs.length) := by
  have hvalid := toNat_char_bounds c
  unfold String.utf8EncodeChar
  rw [show c.val.toNat = c.toNat from rfl]
  dsimp only
  -- the bytes behind the first one have six bits each
  have htail := isTail_ofNat c.toNat
  have htail₆ := isTail_ofNat (c.toNat / 64)
  have htail₁₂ := isTail_ofNat (c.toNat / 4096)
  split_ifs with h₁ h₂ h₃
  · have hb := toNat_ofNat_byte (n := c.toNat) (by omega)
    exact ⟨_, _, rfl, sequence?_one rest (by omega) (by omega)⟩
  · have hb := toNat_ofNat_byte (n := c.toNat / 64 % 32 + 0xC0) (by omega)
    exact ⟨_, _, rfl, sequence?_two rest (by omega) (by omega) htail.1 (by omega)⟩
  · have hb := toNat_ofNat_byte (n := c.toNat / 4096 % 16 + 0xE0) (by omega)
    have hb₁ := toNat_ofNat_byte (n := c.toNat / 64 % 64 + 0x80) (by omega)
    refine ⟨_, _, rfl, sequence?_three rest (by omega) (by omega) ?_ htail.1 (by omega)⟩
    apply within_secondRange <;> omega
  · have hb := toNat_ofNat_byte (n := c.toNat / 262144 % 8 + 0xF0) (by omega)
    have hb₁ := toNat_ofNat_byte (n := c.toNat / 4096 % 64 + 0x80) (by omega)
    refine ⟨_, _, rfl, sequence?_four rest (by omega) (by omega) ?_ htail₆.1 htail.1 (by omega)⟩
    apply within_secondRange <;> omega

/-- Characters are decoded off the front of a text. -/
theorem decode_ofChars_append (cs : List Char) (rest : Bytes) :
    decode (ofChars cs ++ rest) = cs ++ decode rest := by
  induction cs with
  | nil => rfl
  | cons c cs ih =>
    obtain ⟨b, bs, hbytes, hsequence⟩ := sequence?_encodeChar c (ofChars cs ++ rest)
    have hcons : ofChars (c :: cs) ++ rest = b :: (bs ++ (ofChars cs ++ rest)) := by
      simp [ofChars, hbytes]
    rw [hcons, decode, hsequence]
    simp only [List.drop_left, ih, List.cons_append]

/-- Characters are read back from their bytes. -/
@[simp]
theorem decode_ofChars (cs : List Char) : decode (ofChars cs) = cs := by
  have h := decode_ofChars_append cs []
  rwa [List.append_nil, decode, List.append_nil] at h

/-- A text is read back from its bytes. -/
@[simp]
theorem decode_ofString (s : String) : decode (ofString s) = s.toList :=
  decode_ofChars s.toList

/-- An ASCII byte stands for one of the characters. -/
theorem mem_ofChars_iff {a : UInt8} (ha : a.toNat < 128) {cs : List Char} :
    a ∈ ofChars cs ↔ Char.ofNat a.toNat ∈ cs := by
  rw [← List.count_pos_iff, ← count_decode ha, decode_ofChars, List.count_pos_iff]

end TagScript.Bytes
