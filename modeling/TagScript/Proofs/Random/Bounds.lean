import TagScript.Random.Generator

/-!
# Random Numbers Within Bounds

A lawful source answers every pair of bounds that are not negative and in order, and what it draws
lies between them (`Source.Lawful.inclusive`). No sum or difference on the way leaves the 64-bit
integers (`Source.Draws`). The number of candidates overflows for one pair only, which is why that
pair is drawn as a word. The generator of a session is lawful (`Generator.lawful_source`).
-/

namespace TagScript.Random

section Words

variable {a b : Int64}

/-- The difference of two numbers in order, none of which is negative, does not wrap around. -/
theorem toInt_sub_of_le (ha : 0 ≤ a) (hb : a ≤ b) : (b - a).toInt = b.toInt - a.toInt := by
  rw [Int64.le_iff_toInt_le, Int64.toInt_zero] at ha
  rw [Int64.le_iff_toInt_le] at hb
  have hlt := b.toInt_lt
  rw [Int64.toInt_sub]
  exact Int.bmod_eq_of_le (by omega) (by omega)

/-- Only the greatest number has no successor. -/
theorem toInt_add_one_of_ne (ha : a ≠ Int64.maxValue) : (a + 1).toInt = a.toInt + 1 := by
  have hne : a.toInt ≠ 2 ^ 63 - 1 := by
    rw [← Int64.toInt_maxValue]
    exact fun heq => ha (Int64.toInt_inj.mp heq)
  have hlt := a.toInt_lt
  have hle := a.le_toInt
  rw [Int64.toInt_add, Int64.toInt_one]
  exact Int.bmod_eq_of_le (by omega) (by omega)

end Words

/-- The source, from the state `s`, draws the number `n` between two bounds and is left in the
state `s'`. -/
structure Source.Draws {σ : Type} (src : Source σ) (lo hi : Int64) (s : σ) (n : Int64) (s' : σ) :
    Prop where
  /-- The distance of the bounds does not wrap around. -/
  distance : (hi - lo).toInt = hi.toInt - lo.toInt
  /-- Bounds at the greatest distance are answered with a word. For any other distance the number of
  candidates does not wrap around, and neither does what is drawn below it, counted from the lower
  bound. -/
  drawn : hi - lo = Int64.maxValue ∧ src.word s = (n, s') ∨
    ∃ k, src.below (hi - lo + 1) s = some (k, s') ∧
      (hi - lo + 1).toInt = hi.toInt - lo.toInt + 1 ∧ n = lo + k ∧ n.toInt = lo.toInt + k.toInt
  /-- The number is not below the lower bound. -/
  lower : lo ≤ n
  /-- The number is not above the upper bound. -/
  upper : n ≤ hi

/-- A lawful source answers bounds in order with a number between them. -/
theorem Source.Lawful.inclusive {σ : Type} {src : Source σ} (h : src.Lawful) {lo hi : Int64}
    (hlo : 0 ≤ lo) (hle : lo ≤ hi) (s : σ) :
    ∃ n s', src.inclusive lo hi s = some (n, s') ∧ src.Draws lo hi s n s' := by
  have hsub := toInt_sub_of_le hlo hle
  have hlt := hi.toInt_lt
  rw [Int64.le_iff_toInt_le, Int64.toInt_zero] at hlo
  rw [Int64.le_iff_toInt_le] at hle
  unfold Source.inclusive
  split
  next hall =>
    -- only the bounds `0` and `2 ^ 63 - 1` are that far apart, so every word will do
    have hfar : hi.toInt - lo.toInt = 2 ^ 63 - 1 := by
      rw [← hsub, hall, Int64.toInt_maxValue]
    have hword := h.word_nonneg s
    have hwordLt := (src.word s).1.toInt_lt
    rw [Int64.le_iff_toInt_le, Int64.toInt_zero] at hword
    refine ⟨(src.word s).1, (src.word s).2, rfl, hsub, .inl ⟨hall, rfl⟩, ?_, ?_⟩
    · rw [Int64.le_iff_toInt_le]
      omega
    · rw [Int64.le_iff_toInt_le]
      omega
  next hsome =>
    -- one more than the difference is still a 64-bit integer, and positive
    have hcount : (hi - lo + 1).toInt = hi.toInt - lo.toInt + 1 := by
      rw [toInt_add_one_of_ne hsome, hsub]
    have hpos : 0 < hi - lo + 1 := by
      rw [Int64.lt_iff_toInt_lt, hcount, Int64.toInt_zero]
      omega
    obtain ⟨⟨k, s'⟩, hbelow, hk, hkLt⟩ := h.below_lt (hi - lo + 1) s hpos
    replace hk : 0 ≤ k.toInt := by
      rwa [Int64.le_iff_toInt_le, Int64.toInt_zero] at hk
    replace hkLt : k.toInt < hi.toInt - lo.toInt + 1 := by
      rwa [Int64.lt_iff_toInt_lt, hcount] at hkLt
    -- the sum stays below the upper bound, so it does not wrap around either
    have hsum : (lo + k).toInt = lo.toInt + k.toInt := by
      rw [Int64.toInt_add]
      exact Int.bmod_eq_of_le (by omega) (by omega)
    refine ⟨lo + k, s', by rw [hbelow]; rfl, hsub, .inr ⟨k, hbelow, hcount, rfl, hsum⟩, ?_, ?_⟩
    · rw [Int64.le_iff_toInt_le, hsum]
      omega
    · rw [Int64.le_iff_toInt_le, hsum]
      omega

namespace Generator

/-- A word without its highest bit is not negative. -/
theorem word_nonneg (g : Generator) : 0 ≤ g.word.1 := by
  -- the mask clears the bit that would become the sign
  have hlt : (g.next.1 &&& 0x7FFFFFFFFFFFFFFF).toNat < 2 ^ 63 := by
    rw [UInt64.toNat_and]
    exact Nat.lt_of_le_of_lt Nat.and_le_right (by decide)
  have hword : g.word.1 = Int64.ofNat (g.next.1 &&& 0x7FFFFFFFFFFFFFFF).toNat := by
    rw [← UInt64.toInt64_ofNat', UInt64.ofNat_toNat]
    rfl
  rw [hword, Int64.le_iff_toInt_le, Int64.toInt_ofNat_of_lt hlt, Int64.toInt_zero]
  exact Int.natCast_nonneg _

theorem wordUpTo_nonneg (bound : Int64) (attempts : Nat) (g : Generator) :
    0 ≤ (wordUpTo bound attempts g).1 := by
  induction attempts generalizing g with
  | zero => exact g.word_nonneg
  | succ attempts ih =>
    have hword := g.word_nonneg
    rw [wordUpTo]
    cases hg : g.word with
    | mk w g' =>
      rw [hg] at hword
      -- a word that is too large is thrown away, and the next one is tried
      change 0 ≤ (if w ≤ bound then (w, g') else wordUpTo bound attempts g').1
      split
      · exact hword
      · exact ih g'

/-- A number below a positive bound is the remainder of a word. -/
theorem below_eq {n : Int64} (hn : 0 < n) (g : Generator) :
    ∃ w g', 0 ≤ w ∧ below n g = some (w % n, g') := by
  unfold below
  rw [if_pos hn]
  generalize Int64.ofNat _ = bound
  have hword := wordUpTo_nonneg bound 1000 g
  cases hw : wordUpTo bound 1000 g with
  | mk w g' =>
    rw [hw] at hword
    refine ⟨w, g', hword, ?_⟩
    simp only [hw]

/-- The generator of a session is a lawful source. -/
theorem lawful_source : source.Lawful where
  word_nonneg := word_nonneg
  below_lt := by
    intro n g hn
    obtain ⟨w, g', hw, hbelow⟩ := below_eq hn g
    refine ⟨_, hbelow, ?_⟩
    rw [Int64.lt_iff_toInt_lt, Int64.toInt_zero] at hn
    rw [Int64.le_iff_toInt_le, Int64.toInt_zero] at hw
    simp only [Int64.le_iff_toInt_le, Int64.lt_iff_toInt_lt, Int64.toInt_zero, Int64.toInt_mod]
    -- the remainder has the sign of the word, which has none
    exact ⟨Int.tmod_nonneg _ hw, Int.tmod_lt_of_pos _ hn⟩

end Generator

end TagScript.Random
