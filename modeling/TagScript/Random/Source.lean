/-!
# Sources of Random Numbers

Random numbers come from a source: a state from which words and numbers below a bound are drawn. A
source refuses a bound that is not positive, since no number lies below it. `Source.inclusive` draws
between two bounds, both included, without leaving the 64-bit integers; where the number of
candidates itself would leave them, every word is a candidate.
-/

namespace TagScript.Random

/-- A source of random numbers with states in `σ`. -/
structure Source (σ : Type) where
  /-- Draws a number that is not negative. -/
  word : σ → Int64 × σ
  /-- Draws a number from zero up to, but not including, a positive bound. -/
  below : Int64 → σ → Option (Int64 × σ)
  /-- Draws a double from zero up to, but not including, one. -/
  unit : σ → Float × σ

/-- What is expected of a source. -/
structure Source.Lawful {σ : Type} (src : Source σ) : Prop where
  /-- Words are not negative. -/
  word_nonneg : ∀ s, 0 ≤ (src.word s).1
  /-- A positive bound is accepted, and the number drawn lies below it. -/
  below_lt : ∀ n s, 0 < n → ∃ r, src.below n s = some r ∧ 0 ≤ r.1 ∧ r.1 < n

/-- Draws a number from `lo` to `hi`, both included, for bounds that are not negative. -/
def Source.inclusive {σ : Type} (src : Source σ) (lo hi : Int64) (s : σ) : Option (Int64 × σ) :=
  if hi - lo = Int64.maxValue then some (src.word s)
  else (src.below (hi - lo + 1) s).map fun (n, s) => (lo + n, s)

end TagScript.Random
