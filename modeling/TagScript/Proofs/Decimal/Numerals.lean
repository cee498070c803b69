import Mathlib.Data.List.TakeWhile
import TagScript.Decimal.Reading

/-!
# Writing and Reading Numerals

An integer is written with its digits, and a sign in front if it is negative
(`toList_toString_int`). The digits are read as the number that they were written for
(`value_toDigits`).

Digits by themselves are read as a whole number if that has a place in 64 bits (`int64?_of_digits`),
and digits with a point among them as the double nearest to them (`double?_of_digits`).
-/

namespace TagScript.Decimal

theorem isDigit_of_mem_toDigits {n : Nat} {c : Char} (h : c ∈ Nat.toDigits 10 n) :
    isDigit c = true := by
  have hdigit := Nat.isDigit_of_mem_toDigits (by decide) (by decide) h
  rw [Char.isDigit, Bool.and_eq_true, decide_eq_true_eq, decide_eq_true_eq] at hdigit
  rw [isDigit, Bool.and_eq_true, decide_eq_true_eq, decide_eq_true_eq]
  exact hdigit

/-- Digits are read as they were written. -/
theorem value_toDigits (n : Nat) : value (Nat.toDigits 10 n) = n := by
  have hstep : (fun (n : Nat) (c : Char) => n * 10 + (c.toNat - '0'.toNat)) =
      fun n c => 10 * n + (c.toNat - '0'.toNat) := by
    funext n c
    rw [Nat.mul_comm]
  rw [value, hstep]
  exact Nat.ofDigitChars_ten_toDigits

theorem toList_toString_nat (n : Nat) : (toString n).toList = Nat.toDigits 10 n := by
  rw [Nat.toString_eq_ofList_toDigits, String.toList_ofList]

/-- An integer is written with a sign if it is negative, and with the digits of its magnitude. -/
theorem toList_toString_int (i : Int) :
    (toString i).toList =
      (if i < 0 then ['-'] else []) ++ Nat.toDigits 10 i.natAbs := by
  cases i with
  | ofNat n =>
    rw [if_neg (by simp)]
    exact toList_toString_nat n
  | negSucc n =>
    rw [if_pos (Int.negSucc_lt_zero n)]
    change ("-" ++ toString (n + 1)).toList = _
    rw [String.toList_append, toList_toString_nat]
    rfl

section Reading

variable {ds whole fraction : List Char}

/-- In front of digits there is no sign. -/
theorem sign_of_digits (hne : ds ≠ []) (hds : ∀ c ∈ ds, isDigit c = true) (rest : List Char) :
    sign (ds ++ rest) = (false, ds ++ rest) := by
  obtain ⟨c, more, rfl⟩ := List.exists_cons_of_ne_nil hne
  have hc := hds c List.mem_cons_self
  rw [List.cons_append]
  unfold sign
  split
  -- neither of the signs is a digit
  next heq =>
    obtain rfl : c = '-' := (List.cons.inj heq).1
    cases hc
  next heq =>
    obtain rfl : c = '+' := (List.cons.inj heq).1
    cases hc
  next => rfl

/-- Digits are a whole number that is not too large. -/
theorem int64?_of_digits (hne : ds ≠ []) (hds : ∀ c ∈ ds, isDigit c = true) :
    int64? ds = if value ds < signedLimit then some (Int64.ofNat (value ds)) else none := by
  have hsign := sign_of_digits hne hds []
  rw [List.append_nil] at hsign
  have hall : ds.all isDigit = true := List.all_eq_true.mpr hds
  simp [int64?, hsign, hne, hall]

/-- The digits of a whole number are read as that number unless it is too large. -/
theorem int64?_toDigits (n : Nat) :
    int64? (Nat.toDigits 10 n) = if n < signedLimit then some (Int64.ofNat n) else none := by
  rw [int64?_of_digits Nat.toDigits_ne_nil fun _ => isDigit_of_mem_toDigits, value_toDigits]

/-- The digits in front of a point are all the digits that the text starts with. -/
theorem takeWhile_digits (hwhole : ∀ c ∈ whole, isDigit c = true) :
    (whole ++ '.' :: fraction).takeWhile isDigit = whole := by
  rw [List.takeWhile_append_of_pos hwhole, List.takeWhile_cons_of_neg (by decide), List.append_nil]

theorem dropWhile_digits (hwhole : ∀ c ∈ whole, isDigit c = true) :
    (whole ++ '.' :: fraction).dropWhile isDigit = '.' :: fraction := by
  rw [List.dropWhile_append_of_pos hwhole, List.dropWhile_cons_of_neg (by decide)]

/-- Digits, a point and digits are a numeral. -/
theorem numeral?_of_digits (hne : whole ≠ []) (hwhole : ∀ c ∈ whole, isDigit c = true)
    (hfraction : ∀ c ∈ fraction, isDigit c = true) :
    numeral? (whole ++ '.' :: fraction) = some (fractional whole fraction) := by
  have htake : fraction.takeWhile isDigit = fraction := List.takeWhile_eq_self_iff.mpr hfraction
  have hdrop : fraction.dropWhile isDigit = [] := List.dropWhile_eq_nil_iff.mpr hfraction
  rw [numeral?, sign_of_digits hne hwhole]
  simp [takeWhile_digits hwhole, dropWhile_digits hwhole, htake, hdrop, hne, exponent?, fractional]

/-- Digits, a point and digits are read as the double nearest to them, unless that is no number. -/
theorem double?_of_digits (hne : whole ≠ []) (hwhole : ∀ c ∈ whole, isDigit c = true)
    (hfraction : ∀ c ∈ fraction, isDigit c = true) :
    double? (whole ++ '.' :: fraction) =
      if (fractional whole fraction).toFloat.isInf then none
      else some (fractional whole fraction).toFloat := by
  rw [double?, numeral?_of_digits hne hwhole hfraction]

end Reading

end TagScript.Decimal
