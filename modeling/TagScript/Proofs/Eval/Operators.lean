import Mathlib.Algebra.Order.Group.Unbundled.Int
import Mathlib.Data.Int.ModEq
import TagScript.Proofs.Machine.Changes
import TagScript.Proofs.Value.Equality

/-!
# What Operators Compute

An operator is applied to the values of its operands, on the machine that they leave
(`expr_binary`, `expr_unary`, `expr_step`). So what an expression with an operator comes to is said
by the operator alone.

Between whole numbers, sums, differences and products are those of integers without bounds, reduced
to 64 bits with a sign (`IsReduced`). Quotients and remainders fit together (`IsDivision`): the
quotient is rounded toward zero and the remainder has the sign of the dividend. The one quotient
that is no 64-bit integer is that of the least one by `-1`, which wraps around to the least one.

The operators `==` and `!=` compare whole numbers, texts and truth values with their like and agree
with `Value.equal` there (`equality_agrees`). Truth values are compared as the numbers zero and one.
-/

namespace TagScript

/-- The integer `n` is `z`, reduced to 64 bits with a sign. -/
structure IsReduced (z n : ℤ) : Prop where
  /-- It is not below the least one. -/
  lower : -2 ^ 63 ≤ n
  /-- It is not above the greatest one. -/
  upper : n < 2 ^ 63
  /-- It differs by a multiple of `2 ^ 64`. -/
  congr : n ≡ z [ZMOD 2 ^ 64]

/-- The numbers `q` and `r` are the quotient and the remainder of `a` by `b`. -/
structure IsDivision (a b q r : Int64) : Prop where
  /-- They fit together. -/
  whole : q.toInt * b.toInt + r.toInt ≡ a.toInt [ZMOD 2 ^ 64]
  /-- The remainder is smaller than the divisor. -/
  small : |r.toInt| < |b.toInt|
  /-- The remainder is zero or has the sign of the dividend. -/
  sign : r.toInt = 0 ∨ r.toInt.sign = a.toInt.sign
  /-- The quotient is the one of integers, rounded toward zero, where that has a place. -/
  quotient : ¬(a.toInt = -2 ^ 63 ∧ b.toInt = -1) → q.toInt = a.toInt.tdiv b.toInt
  /-- The one quotient that has no place wraps around. -/
  overflow : a.toInt = -2 ^ 63 → b.toInt = -1 → q.toInt = -2 ^ 63 ∧ r.toInt = 0

section Words

variable {a b : Int64}

/-- The integer of a word that was reduced. -/
theorem isReduced_of_bmod {n : Int64} {z : ℤ} (h : n.toInt = z.bmod (2 ^ 64)) :
    IsReduced z n.toInt := by
  refine ⟨n.le_toInt, n.toInt_lt, ?_⟩
  rw [h]
  exact Int.bmod_emod

theorem toInt_ne_zero (hb : b ≠ 0) : b.toInt ≠ 0 := by
  rw [← Int64.toInt_zero]
  exact fun h => hb (Int64.toInt_inj.mp h)

/-- The quotient of two words is rounded toward zero and then reduced. -/
theorem toInt_div_modEq (a b : Int64) : (a / b).toInt ≡ a.toInt.tdiv b.toInt [ZMOD 2 ^ 64] :=
  (isReduced_of_bmod (Int64.toInt_div a b)).congr

/-- Only the quotient of the least word by `-1` has to be reduced. -/
theorem toInt_div_of_not (h : ¬(a.toInt = -2 ^ 63 ∧ b.toInt = -1)) :
    (a / b).toInt = a.toInt.tdiv b.toInt := by
  by_cases ha : a = Int64.minValue
  · refine Int64.toInt_div_of_ne_right a b fun hb => h ⟨?_, ?_⟩
    · rw [ha]
      exact Int64.toInt_minValue
    · rw [hb]
      rfl
  · exact Int64.toInt_div_of_ne_left a b ha

/-- The quotient and the remainder of two words belong to one division. -/
theorem isDivision_div_mod (a : Int64) (hb : b ≠ 0) : IsDivision a b (a / b) (a % b) where
  whole := by
    rw [Int64.toInt_mod]
    calc (a / b).toInt * b.toInt + a.toInt.tmod b.toInt
        ≡ a.toInt.tdiv b.toInt * b.toInt + a.toInt.tmod b.toInt [ZMOD 2 ^ 64] :=
          ((toInt_div_modEq a b).mul_right _).add_right _
      _ = a.toInt := Int.tdiv_mul_add_tmod _ _
  small := by
    rw [Int64.toInt_mod, Int.abs_eq_natAbs, Int.abs_eq_natAbs, Int.natAbs_tmod, Int.ofNat_lt]
    exact Nat.mod_lt _ (Int.natAbs_pos.mpr (toInt_ne_zero hb))
  sign := by
    rw [Int64.toInt_mod, Int.sign_tmod]
    by_cases h : b.toInt ∣ a.toInt
    · exact .inl (Int.tmod_eq_zero_of_dvd h)
    · exact .inr (if_neg h)
  quotient := toInt_div_of_not
  overflow := by
    intro ha hb
    obtain rfl : a = Int64.minValue := Int64.toInt_inj.mp ha
    obtain rfl : b = -1 := Int64.toInt_inj.mp hb
    decide

end Words

/-- The values have the same tag, which is that of whole numbers, texts or truth values. -/
def Value.Comparable (v w : Value) : Prop :=
  v.tag = w.tag ∧ (v.tag = .int ∨ v.tag = .string ∨ v.tag = .boolean)

section Equality

variable {v w : Value}

/-- Truth values are told apart by their numbers. -/
theorem BinaryOp.rank_inj (a b : Bool) : rank a = rank b ↔ a = b := by
  cases a <;> cases b <;> decide

/-- Values that can be compared are compared as `Value.equal` compares them. -/
theorem BinaryOp.apply_of_comparable (h : v.Comparable w) :
    BinaryOp.eq.apply v w = .ok (.bool (v.equal w)) ∧
      BinaryOp.ne.apply v w = .ok (.bool !(v.equal w)) := by
  obtain ⟨htag, hkind⟩ := h
  cases v with
  | int a =>
    cases w with
    | int b => simp [apply, onInts, Value.equal]
    | _ => cases htag
  | string s =>
    cases w with
    | string t => simp [apply, onStrings, Value.equal]
    | _ => cases htag
  | bool a =>
    cases w with
    | bool b => simp [apply, onBools, isComparison, onInts, rank_inj, Value.equal]
    | _ => cases htag
  | _ => simp [Value.tag] at hkind

/-- Values that cannot be compared are refused as values of the wrong type. -/
theorem BinaryOp.apply_of_not_comparable (hv : v.tag ≠ .float) (h : ¬v.Comparable w)
    (op : BinaryOp) : ∃ cause, op.apply v w = .error (.cause cause) ∧ cause.kind = .type := by
  unfold apply
  split
  · exact absurd ⟨rfl, .inl rfl⟩ h
  · exact absurd rfl hv
  · exact absurd ⟨rfl, .inr (.inl rfl)⟩ h
  · exact absurd ⟨rfl, .inr (.inr rfl)⟩ h
  · split <;> exact ⟨_, rfl, rfl⟩

end Equality

namespace Eval

section Operands

variable {ctx : Context} {invoke : Invoke} {scope : ScopeId} {l r : Expr} {v w : Value}
  {m₀ m₁ m₂ : Machine} (p : Position)

/-- An operator between two operands is applied to their values. -/
theorem expr_binary (op : BinaryOp) (hl : expr ctx invoke scope l m₀ = .ok v m₁)
    (hr : expr ctx invoke scope r m₁ = .ok w m₂) :
    expr ctx invoke scope (.binary p l op r) m₀ = ctx.accept p (op.apply v w) m₂ := by
  rw [expr, bind_apply, hl]
  dsimp only
  rw [bind_apply, hr]

/-- An operator in front of an operand is applied to its value. -/
theorem expr_unary (op : UnaryOp) (hl : expr ctx invoke scope l m₀ = .ok v m₁) :
    expr ctx invoke scope (.unary p op l) m₀ = ctx.accept p (op.apply v) m₁ := by
  rw [expr, bind_apply, hl]

/-- An operator behind an operand is applied to its value. -/
theorem expr_step (op : StepOp) (hl : expr ctx invoke scope l m₀ = .ok v m₁) :
    expr ctx invoke scope (.step p l op) m₀ = ctx.accept p (op.apply v) m₁ := by
  rw [expr, bind_apply, hl]

end Operands

/-- The computation ends with the whole number that `z` is reduced to, on the machine `m`. -/
def Reduces (x : EStateM.Result Stop Machine Value) (z : ℤ) (m : Machine) : Prop :=
  ∃ n, x = .ok (.int n) m ∧ IsReduced z n.toInt

section Numbers

variable {ctx : Context} {invoke : Invoke} {scope : ScopeId} {l r : Expr} {a b : Int64}
  {m₀ m₁ m₂ : Machine} (p : Position)

theorem binary_div_of_ne_zero (hl : expr ctx invoke scope l m₀ = .ok (.int a) m₁)
    (hr : expr ctx invoke scope r m₁ = .ok (.int b) m₂) (hb : b ≠ 0) :
    expr ctx invoke scope (.binary p l .div r) m₀ = .ok (.int (a / b)) m₂ ∧
      expr ctx invoke scope (.binary p l .rem r) m₀ = .ok (.int (a % b)) m₂ := by
  rw [expr_binary p .div hl hr, expr_binary p .rem hl hr]
  simp only [BinaryOp.apply, BinaryOp.onInts, if_neg hb]
  exact ⟨rfl, rfl⟩

/-- A quotient or a remainder is a fault exactly if the divisor is zero. -/
theorem binary_fault_iff (hl : expr ctx invoke scope l m₀ = .ok (.int a) m₁)
    (hr : expr ctx invoke scope r m₁ = .ok (.int b) m₂) {op : BinaryOp}
    (hop : op = .div ∨ op = .rem) :
    expr ctx invoke scope (.binary p l op r) m₀ = .error (.fault .divisionByZero) m₂ ↔ b = 0 := by
  constructor
  · intro hfault
    by_contra hb
    obtain ⟨hdiv, hrem⟩ := binary_div_of_ne_zero p hl hr hb
    obtain rfl | rfl := hop
    · cases hdiv.symm.trans hfault
    · cases hrem.symm.trans hfault
  · rintro rfl
    rw [expr_binary p op hl hr]
    obtain rfl | rfl := hop <;> rfl

/-- Whole numbers are 64-bit integers. Sums, differences, products, opposites and steps are those of
integers without bounds, reduced to 64 bits with a sign. A quotient and a remainder are a fault of
the machine exactly if the divisor is zero; otherwise they belong to one division, which is rounded
toward zero, and only the quotient of the least number by `-1` wraps around. -/
theorem numbers_wrap_and_truncate (hl : expr ctx invoke scope l m₀ = .ok (.int a) m₁)
    (hr : expr ctx invoke scope r m₁ = .ok (.int b) m₂) :
    let value := fun e => expr ctx invoke scope e m₀
    Reduces (value (.binary p l .add r)) (a.toInt + b.toInt) m₂ ∧
    Reduces (value (.binary p l .sub r)) (a.toInt - b.toInt) m₂ ∧
    Reduces (value (.binary p l .mul r)) (a.toInt * b.toInt) m₂ ∧
    Reduces (value (.unary p .minus l)) (-a.toInt) m₁ ∧
    Reduces (value (.step p l .increment)) (a.toInt + 1) m₁ ∧
    Reduces (value (.step p l .decrement)) (a.toInt - 1) m₁ ∧
    (value (.binary p l .div r) = .error (.fault .divisionByZero) m₂ ↔ b = 0) ∧
    (value (.binary p l .rem r) = .error (.fault .divisionByZero) m₂ ↔ b = 0) ∧
    (b ≠ 0 → ∃ q rest, value (.binary p l .div r) = .ok (.int q) m₂ ∧
      value (.binary p l .rem r) = .ok (.int rest) m₂ ∧ IsDivision a b q rest) := by
  intro value
  refine ⟨?_, ?_, ?_, ?_, ?_, ?_, ?_, ?_, ?_⟩
  · exact ⟨a + b, expr_binary p .add hl hr, isReduced_of_bmod (Int64.toInt_add a b)⟩
  · exact ⟨a - b, expr_binary p .sub hl hr, isReduced_of_bmod (Int64.toInt_sub a b)⟩
  · exact ⟨a * b, expr_binary p .mul hl hr, isReduced_of_bmod (Int64.toInt_mul a b)⟩
  · exact ⟨-a, expr_unary p .minus hl, isReduced_of_bmod (Int64.toInt_neg a)⟩
  · exact ⟨a + 1, expr_step p .increment hl, isReduced_of_bmod (Int64.toInt_add a 1)⟩
  · exact ⟨a - 1, expr_step p .decrement hl, isReduced_of_bmod (Int64.toInt_sub a 1)⟩
  · exact binary_fault_iff p hl hr (.inl rfl)
  · exact binary_fault_iff p hl hr (.inr rfl)
  · intro hb
    obtain ⟨hdiv, hrem⟩ := binary_div_of_ne_zero p hl hr hb
    exact ⟨a / b, a % b, hdiv, hrem, isDivision_div_mod a hb⟩

end Numbers

/-- The expression `-9223372036854775807 - 1`, which is how a script writes the least number,
divided by `-1`. -/
theorem numbers_wrap_and_truncate_least :
    let place : Position := ⟨1, 1⟩
    let least : Expr := .binary place (.unary place .minus (.int place Int64.maxValue)) .sub
      (.int place 1)
    let minusOne : Expr := .unary place .minus (.int place 1)
    let ctx : Context := ⟨0, 2, "", [], false, false⟩
    let m : Machine := ⟨Store.empty, [], #[], .ofSeed 0⟩
    let value := fun e => expr ctx (call ctx 2) 0 e m
    value least = .ok (.int Int64.minValue) m ∧ value minusOne = .ok (.int (-1)) m ∧
      value (.binary place least .div minusOne) = .ok (.int Int64.minValue) m ∧
      value (.binary place least .rem minusOne) = .ok (.int 0) m := by
  intro place least minusOne ctx m value
  have hleast : value least = .ok (.int Int64.minValue) m := rfl
  have hone : value minusOne = .ok (.int (-1)) m := rfl
  obtain ⟨-, -, -, -, -, -, -, -, hdivision⟩ := numbers_wrap_and_truncate place hleast hone
  obtain ⟨q, rest, hq, hrest, h⟩ := hdivision (by decide)
  obtain ⟨hqint, hrestint⟩ := h.overflow rfl rfl
  obtain rfl : q = Int64.minValue := Int64.toInt_inj.mp hqint
  obtain rfl : rest = 0 := Int64.toInt_inj.mp hrestint
  exact ⟨hleast, hone, hq, hrest⟩

/-- The computation stops with an error about a type at the position `p`, on the machine `m`. -/
def RefusesType (ctx : Context) (p : Position) (x : EStateM.Result Stop Machine Value)
    (m : Machine) : Prop :=
  ∃ cause, x = .error (.error (ctx.errorAt p cause)) m ∧ cause.kind = .type

/-- Equality of values without doubles is an equivalence, and equal values have one type. The
operators `==` and `!=` either refuse such values, if their tags differ or are of a type that is not
compared, or say whether the values are equal. -/
theorem equality_agrees :
    (Equivalence fun v w : { v : Value // v.FloatFree } => v.1.equal w.1 = true) ∧
    (∀ v w : Value, v.FloatFree → w.FloatFree → v.equal w = true → v.sameType w = true) ∧
    ∀ v w : Value, v.FloatFree → w.FloatFree →
      ∀ (ctx : Context) (invoke : Invoke) (scope : ScopeId) (p : Position) (l r : Expr)
        (m₀ m₁ m₂ : Machine),
        expr ctx invoke scope l m₀ = .ok v m₁ → expr ctx invoke scope r m₁ = .ok w m₂ →
        let value := fun op => expr ctx invoke scope (.binary p l op r) m₀
        (v.Comparable w ∧ value .eq = .ok (.bool (v.equal w)) m₂ ∧
          value .ne = .ok (.bool !(v.equal w)) m₂) ∨
        (¬v.Comparable w ∧ RefusesType ctx p (value .eq) m₂ ∧
          RefusesType ctx p (value .ne) m₂) := by
  refine ⟨Value.equivalence_equal, ?_, ?_⟩
  · intro v w _ _ h
    exact decide_eq_true (Value.tag_eq_of_equal h)
  · intro v w hv _ ctx invoke scope p l r m₀ m₁ m₂ hl hr value
    have hvalue (op : BinaryOp) : value op = ctx.accept p (op.apply v w) m₂ :=
      expr_binary p op hl hr
    by_cases h : v.Comparable w
    · obtain ⟨heq, hne⟩ := BinaryOp.apply_of_comparable h
      refine .inl ⟨h, ?_, ?_⟩
      · rw [hvalue, heq]
        rfl
      · rw [hvalue, hne]
        rfl
    · have hrefuses (op : BinaryOp) : RefusesType ctx p (value op) m₂ := by
        obtain ⟨cause, hcause, hkind⟩ := BinaryOp.apply_of_not_comparable hv.tag_ne_float h op
        refine ⟨cause, ?_, hkind⟩
        rw [hvalue, hcause]
        rfl
      exact .inr ⟨h, hrefuses .eq, hrefuses .ne⟩

/-- Two truth values are compared, and two arrays are refused although they are equal. -/
theorem equality_agrees_array :
    let place : Position := ⟨1, 1⟩
    let ones : Value := .array .int [.int 1]
    let ctx : Context := ⟨0, 2, "", [], false, false⟩
    let m : Machine := ⟨Store.empty, [], #[], .ofSeed 0⟩
    let value := fun e => expr ctx (call ctx 2) 0 e m
    (Value.bool true).FloatFree ∧ (Value.bool false).FloatFree ∧ ones.FloatFree ∧
      value (.array place [.int place 1]) = .ok ones m ∧
      value (.binary place (.bool place true) .ne (.bool place false)) = .ok (.bool true) m ∧
      ones.equal ones = true ∧
      RefusesType ctx place (value (.binary place (.array place [.int place 1]) .eq
        (.array place [.int place 1]))) m := by
  intro place ones ctx m value
  have htruth (b : Bool) : (Value.bool b).FloatFree := .scalar nofun nofun
  have hones : ones.FloatFree := by
    refine .array fun v hv => ?_
    obtain rfl := List.mem_singleton.mp hv
    exact .scalar nofun nofun
  have hvalue : value (.array place [.int place 1]) = .ok ones m := rfl
  obtain ⟨-, -, hagrees⟩ := equality_agrees
  refine ⟨htruth true, htruth false, hones, hvalue, ?_, by decide, ?_⟩
  · obtain ⟨-, -, hne⟩ | ⟨hnot, -⟩ := hagrees _ _ (htruth true) (htruth false) ctx (call ctx 2) 0
      place (.bool place true) (.bool place false) m m m rfl rfl
    · exact hne
    · exact absurd ⟨rfl, .inr (.inr rfl)⟩ hnot
  · obtain ⟨⟨-, hkind⟩, -⟩ | ⟨-, heq, -⟩ := hagrees _ _ hones hones ctx (call ctx 2) 0 place _ _
      m m m hvalue hvalue
    · simp [ones, Value.tag] at hkind
    · exact heq

end Eval

end TagScript
