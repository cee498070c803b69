import Mathlib.Data.Set.Card
import Mathlib.Order.Interval.Set.Nat
import TagScript.Value.Range

/-!
# The Length of a Range Is Exact

The numbers of a range are `start`, `start + step`, `start + 2 * step` and so on, as long as they
are strictly before the end in the direction of the step. Said in integers without bounds
(`Range.nth`, `Range.Before`), the length of a range, which is computed in 64 bits, is how many of
these there are (`Range.length_exact`).

No operation on the way wraps around where it should not (`Range.Exact`). The distance between two
64-bit integers and the size of a step have a place in 64 bits without a sign, also for a step of
`-2 ^ 63`, whose opposite is no 64-bit integer, and for the widest distance, `2 ^ 64 - 1`.
-/

namespace TagScript.Range

/-- The number that `k` steps lead to from the start, in integers without bounds. -/
def nth (r : Range) (k : ℕ) : ℤ :=
  r.start.toInt + k * r.step.toInt

/-- The number `n` is strictly before the end in the direction of the step. -/
def Before (r : Range) (n : ℤ) : Prop :=
  0 < r.step.toInt ∧ n < r.stop.toInt ∨ r.step.toInt < 0 ∧ r.stop.toInt < n

@[simp]
theorem nth_zero (r : Range) : r.nth 0 = r.start.toInt := by
  simp [nth]

theorem nth_succ (r : Range) (k : ℕ) : r.nth (k + 1) = r.nth k + r.step.toInt := by
  rw [nth, nth, Nat.cast_add, Nat.cast_one, add_mul, one_mul, add_assoc]

/-- The count of the steps of size `stride` from `near` until `far` is not before them, one
operation after the other: each has the result that integers without bounds give for the distance
and for the size of the step. -/
structure Exact (near far stride : UInt64) (distance size : ℤ) : Prop where
  /-- The distance. -/
  span : ((far - near).toNat : ℤ) = distance
  /-- The size of a step. -/
  step : (stride.toNat : ℤ) = size
  /-- The distance to the last number that is still before the end. -/
  last : ((far - near - 1).toNat : ℤ) = distance - 1
  /-- How many steps fit behind the first number. -/
  quotient : (((far - near - 1) / stride).toNat : ℤ) = (distance - 1) / size
  /-- The first number and those steps. -/
  count : (((far - near - 1) / stride + 1).toNat : ℤ) = (distance - 1) / size + 1

section Words

variable {a b : Int64}

/-- A 64-bit integer without its sign is its remainder. -/
theorem toNat_toUInt64 (a : Int64) : (a.toUInt64.toNat : ℤ) = a.toInt % 2 ^ 64 := by
  have hbits : a.toInt = (a.toUInt64.toNat : ℤ).bmod (2 ^ 64) :=
    BitVec.toInt_eq_toNat_bmod a.toBitVec
  have hlt := a.toUInt64.toNat_lt
  have hmod := Int.bmod_emod (x := a.toUInt64.toNat) (m := 2 ^ 64)
  rw [← hbits] at hmod
  omega

/-- Two 64-bit integers are at most `2 ^ 64 - 1` apart, which has a place without a sign. -/
theorem toNat_distance (h : a ≤ b) :
    ((b.toUInt64 - a.toUInt64).toNat : ℤ) = b.toInt - a.toInt := by
  have ha := toNat_toUInt64 a
  have hb := toNat_toUInt64 b
  have hale := a.le_toInt
  have hblt := b.toInt_lt
  rw [Int64.le_iff_toInt_le] at h
  rw [UInt64.toNat_sub]
  omega

/-- A positive number is the same without a sign. -/
theorem toNat_of_pos (h : 0 < a) : (a.toUInt64.toNat : ℤ) = a.toInt := by
  have ha := toNat_toUInt64 a
  have halt := a.toInt_lt
  rw [Int64.lt_iff_toInt_lt, Int64.toInt_zero] at h
  omega

/-- The opposite of a negative number has a place without a sign, also where it has none with
one. -/
theorem toNat_of_neg (h : a < 0) : ((-a).toUInt64.toNat : ℤ) = -a.toInt := by
  have ha := toNat_toUInt64 a
  have hale := a.le_toInt
  rw [Int64.lt_iff_toInt_lt, Int64.toInt_zero] at h
  rw [Int64.toUInt64_neg, UInt64.toNat_neg, UInt64.size]
  omega

end Words

/-- Counting over a positive distance wraps around nowhere. -/
theorem exact_of_pos {near far stride : UInt64} {distance size : ℤ}
    (hspan : ((far - near).toNat : ℤ) = distance) (hstride : (stride.toNat : ℤ) = size)
    (hdistance : 0 < distance) : Exact near far stride distance size := by
  have hspanLt := (far - near).toNat_lt
  have hone : (1 : UInt64) ≤ far - near := by
    rw [UInt64.le_iff_toNat_le]
    change 1 ≤ _
    omega
  have hlast : ((far - near - 1).toNat : ℤ) = distance - 1 := by
    rw [UInt64.toNat_sub_of_le _ _ hone]
    change (((far - near).toNat - 1 : ℕ) : ℤ) = _
    omega
  have hquotient : (((far - near - 1) / stride).toNat : ℤ) = (distance - 1) / size := by
    rw [UInt64.toNat_div, Int.natCast_ediv, hlast, hstride]
  -- the quotient is at most the distance less one, so that one more has a place
  have hle : (distance - 1) / size ≤ distance - 1 := Int.ediv_le_self _ (by omega)
  refine ⟨hspan, hstride, hlast, hquotient, ?_⟩
  rw [UInt64.toNat_add]
  change ((((far - near - 1) / stride).toNat + 1 : ℕ) % 2 ^ 64 : ℕ) = (distance - 1) / size + 1
  rw [Nat.mod_eq_of_lt (by omega)]
  omega

variable {r : Range}

/-- The length of a range upwards, in arithmetic without a sign. -/
theorem length_up (hstep : 0 < r.step) (hlt : r.start < r.stop) :
    r.length = (r.stop.toUInt64 - r.start.toUInt64 - 1) / r.step.toUInt64 + 1 :=
  if_pos ⟨hstep, hlt⟩

/-- The length of a range downwards, in arithmetic without a sign. -/
theorem length_down (hstep : r.step < 0) (hlt : r.stop < r.start) :
    r.length = (r.start.toUInt64 - r.stop.toUInt64 - 1) / (-r.step).toUInt64 + 1 := by
  have hnot : ¬(0 < r.step ∧ r.start < r.stop) := fun h => Int64.lt_asymm hstep h.1
  rw [length, if_neg hnot, if_pos ⟨hstep, hlt⟩]

/-- Counting upward wraps around nowhere. -/
theorem exact_up (hstep : 0 < r.step) (hlt : r.start < r.stop) :
    Exact r.start.toUInt64 r.stop.toUInt64 r.step.toUInt64 (r.stop.toInt - r.start.toInt)
      r.step.toInt := by
  refine exact_of_pos (toNat_distance (Int64.le_of_lt hlt)) (toNat_of_pos hstep) ?_
  rw [Int64.lt_iff_toInt_lt] at hlt
  omega

/-- Counting downward wraps around nowhere. -/
theorem exact_down (hstep : r.step < 0) (hlt : r.stop < r.start) :
    Exact r.stop.toUInt64 r.start.toUInt64 (-r.step).toUInt64 (r.start.toInt - r.stop.toInt)
      (-r.step.toInt) := by
  refine exact_of_pos (toNat_distance (Int64.le_of_lt hlt)) (toNat_of_neg hstep) ?_
  rw [Int64.lt_iff_toInt_lt] at hlt
  omega

/-- Steps of a positive size stay below a distance as long as there are no more than fit into the
distance less one. -/
theorem lt_count_iff (distance : ℤ) {size : ℤ} (hsize : 0 < size) (k : ℤ) :
    k < (distance - 1) / size + 1 ↔ k * size < distance := by
  rw [Int.lt_add_one_iff, Int.le_ediv_iff_mul_le hsize, Int.le_sub_one_iff]

/-- The numbers before the end are those that fewer steps lead to than the range is long. -/
theorem before_nth_iff (r : Range) (k : ℕ) : r.Before (r.nth k) ↔ k < r.length.toNat := by
  by_cases hup : 0 < r.step ∧ r.start < r.stop
  · -- upward: steps of size `step` below the distance from the start to the end
    obtain ⟨hstep, hlt⟩ := hup
    have hcount := (exact_up hstep hlt).count
    rw [← length_up hstep hlt] at hcount
    rw [Int64.lt_iff_toInt_lt, Int64.toInt_zero] at hstep
    have hsteps := lt_count_iff (r.stop.toInt - r.start.toInt) hstep k
    rw [← hcount] at hsteps
    unfold Before nth
    omega
  · by_cases hdown : r.step < 0 ∧ r.stop < r.start
    · obtain ⟨hstep, hlt⟩ := hdown
      have hcount := (exact_down hstep hlt).count
      rw [← length_down hstep hlt] at hcount
      rw [Int64.lt_iff_toInt_lt, Int64.toInt_zero] at hstep
      have hsteps := lt_count_iff (r.start.toInt - r.stop.toInt) (Int.neg_pos_of_neg hstep) k
      rw [← hcount, mul_neg] at hsteps
      unfold Before nth
      omega
    · -- the step is zero or leads away from the end, where not even the start is before the end
      have hempty : r.length.toNat = 0 := by
        rw [length, if_neg hup, if_neg hdown]
        rfl
      refine iff_of_false ?_ (by omega)
      simp only [Int64.lt_iff_toInt_lt, Int64.toInt_zero] at hup hdown
      rintro (⟨hstep, hlt⟩ | ⟨hstep, hlt⟩)
      · have hsteps := Int.mul_nonneg (Int.natCast_nonneg k) (Int.le_of_lt hstep)
        unfold nth at hlt
        omega
      · have hsteps := Int.mul_nonneg (Int.natCast_nonneg k)
          (Int.le_of_lt (Int.neg_pos_of_neg hstep))
        rw [mul_neg] at hsteps
        unfold nth at hlt
        omega

/-- From one number of a range to the next, the addition in 64 bits does not wrap around. -/
theorem toInt_add_step {k : ℕ} {i : Int64} (hi : i.toInt = r.nth k)
    (hnext : r.Before (r.nth (k + 1))) : (i + r.step).toInt = r.nth (k + 1) := by
  have hile := i.le_toInt
  have hilt := i.toInt_lt
  have hstople := r.stop.le_toInt
  have hstoplt := r.stop.toInt_lt
  rw [nth_succ, ← hi] at hnext ⊢
  unfold Before at hnext
  rw [Int64.toInt_add, Int.bmod_eq_of_le] <;> omega

/-- The length of a range is how many numbers it has: how many times the step can be taken from the
start with a number as the result that is strictly before the end in the direction of the step. It
is zero for a step of zero. Where there are any numbers, no operation of the count loses
information. -/
theorem length_exact (r : Range) :
    r.length.toNat = {k : ℕ | r.Before (r.nth k)}.ncard ∧
      (∀ k : ℕ, r.Before (r.nth k) ↔ k < r.length.toNat) ∧
      (r.step = 0 → r.length = 0) ∧
      (0 < r.step → r.start < r.stop →
        r.length = (r.stop.toUInt64 - r.start.toUInt64 - 1) / r.step.toUInt64 + 1 ∧
        Exact r.start.toUInt64 r.stop.toUInt64 r.step.toUInt64 (r.stop.toInt - r.start.toInt)
          r.step.toInt) ∧
      (r.step < 0 → r.stop < r.start →
        r.length = (r.start.toUInt64 - r.stop.toUInt64 - 1) / (-r.step).toUInt64 + 1 ∧
        Exact r.stop.toUInt64 r.start.toUInt64 (-r.step).toUInt64 (r.start.toInt - r.stop.toInt)
          (-r.step.toInt)) := by
  refine ⟨?_, r.before_nth_iff, ?_, ?_, ?_⟩
  · have hset : {k : ℕ | r.Before (r.nth k)} = Set.Iio r.length.toNat :=
      Set.ext fun k => r.before_nth_iff k
    rw [hset, Set.ncard_Iio_nat]
  · intro hzero
    simp [length, hzero]
  · exact fun hstep hlt => ⟨length_up hstep hlt, exact_up hstep hlt⟩
  · exact fun hstep hlt => ⟨length_down hstep hlt, exact_down hstep hlt⟩

/-- The two extremes: from the largest number down in steps of `-2 ^ 63` there are two numbers
before the least one, and over the widest distance in steps of one there are `2 ^ 64 - 1`. -/
theorem length_exact_extremes :
    let steep : Range := ⟨Int64.maxValue, Int64.minValue, Int64.minValue⟩
    let wide : Range := ⟨Int64.minValue, Int64.maxValue, 1⟩
    {k : ℕ | steep.Before (steep.nth k)}.ncard = 2 ∧
      {k : ℕ | wide.Before (wide.nth k)}.ncard = 2 ^ 64 - 1 := by
  intro steep wide
  exact ⟨(length_exact steep).1.symm.trans (by decide),
    (length_exact wide).1.symm.trans (by decide)⟩

end TagScript.Range
