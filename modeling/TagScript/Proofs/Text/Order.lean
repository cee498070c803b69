import Mathlib.Data.String.Basic
import TagScript.Proofs.Text.Encode

/-!
# The Order of Texts

Texts are put in order by their code points. UTF-8 keeps this order: of two characters the smaller
one has the smaller bytes, whatever stands behind them (`encodeChar_append_lt`), so the bytes of
texts are in the order of the texts (`ofString_lt_ofString`).
-/

namespace TagScript.Bytes

/-- Numbers as bytes are in their order. -/
theorem ofNat_lt_ofNat {m n : Nat} (hm : m < 256) (hn : n < 256) :
    UInt8.ofNat m < UInt8.ofNat n ↔ m < n := by
  rw [UInt8.lt_iff_toNat_lt, toNat_ofNat_byte hm, toNat_ofNat_byte hn]

theorem ofNat_eq_ofNat {m n : Nat} (hm : m < 256) (hn : n < 256) :
    UInt8.ofNat m = UInt8.ofNat n ↔ m = n := by
  rw [← UInt8.toNat_inj, toNat_ofNat_byte hm, toNat_ofNat_byte hn]

/-- Of two characters the smaller one has the smaller bytes, whatever stands behind them. -/
theorem encodeChar_append_lt {c d : Char} (h : c < d) (xs ys : Bytes) :
    String.utf8EncodeChar c ++ xs < String.utf8EncodeChar d ++ ys := by
  have hlt : c.toNat < d.toNat := h
  have hc := toNat_char_bounds c
  have hd := toNat_char_bounds d
  unfold String.utf8EncodeChar
  rw [show c.val.toNat = c.toNat from rfl, show d.val.toNat = d.toNat from rfl]
  dsimp only
  have hdigits (n : Nat) : n / 4096 = n / 64 / 64 ∧ n / 262144 = n / 64 / 64 / 64 := by omega
  rw [(hdigits c.toNat).1, (hdigits c.toNat).2, (hdigits d.toNat).1, (hdigits d.toNat).2]
  -- the first byte tells the number of bytes, and after that the bits are those of the numbers
  split_ifs
  all_goals
    simp (disch := omega) only [List.cons_append, List.nil_append, List.cons_lt_cons_iff,
      ofNat_lt_ofNat, ofNat_eq_ofNat]
    omega

/-- The bytes of texts are in the order of the texts. -/
theorem ofString_lt_ofString {s t : String} (h : s < t) : ofString s < ofString t := by
  have hlex : List.Lex (· < ·) s.toList t.toList := String.lt_iff_toList_lt.mp h
  unfold ofString
  generalize s.toList = cs at hlex
  generalize t.toList = ds at hlex
  -- up to the first difference the bytes are the same, and there the characters decide
  induction hlex with
  | @nil d ds =>
    obtain ⟨b, bs, hbytes, -⟩ := sequence?_encodeChar d []
    rw [ofChars, ofChars, List.flatMap_nil, List.flatMap_cons, hbytes]
    exact List.nil_lt_cons _ _
  | @rel c cs d ds hlt =>
    rw [ofChars, ofChars, List.flatMap_cons, List.flatMap_cons]
    exact encodeChar_append_lt hlt _ _
  | @cons c cs ds _ ih =>
    rw [ofChars, ofChars, List.flatMap_cons, List.flatMap_cons]
    exact List.append_left_lt ih

end TagScript.Bytes
