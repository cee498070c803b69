import TagScript.Value.Basic

/-!
# Equality of Values

Values without doubles are equal if they are the same once each function is reduced to what tells
functions apart, the scope and the name that it was declared with (`FloatFree.equal_iff_identity`).
So equality of such values is an equivalence. A double may differ from itself, which is why doubles
are left out.

Equal values have one tag, whatever they are (`tag_eq_of_equal`).
-/

namespace TagScript.Value

/-- No double stands in the value, at whatever depth. -/
inductive FloatFree : Value → Prop
  /-- Something else than a double and than an array. -/
  | scalar {v : Value} : v.tag ≠ .float → v.tag ≠ .array → FloatFree v
  /-- An array without doubles. -/
  | array {elem : Tag} {items : List Value} :
    (∀ v ∈ items, FloatFree v) → FloatFree (.array elem items)

mutual

/-- The value with each function in it reduced to its scope and its name, and each array to its
items. -/
def identity : Value → Value
  | .function f => .function ⟨f.name, [], none, [], f.scope⟩
  | .array _ items => .array .unknown (identities items)
  | v => v

/-- Some values with each function in them reduced to its scope and its name. -/
def identities : List Value → List Value
  | [] => []
  | v :: rest => identity v :: identities rest

end

theorem FloatFree.tag_ne_float {v : Value} (h : v.FloatFree) : v.tag ≠ .float := by
  cases h with
  | scalar hfloat _ => exact hfloat
  | array _ => nofun

/-- Lists have equal values at equal places if they are the same up to functions, provided that this
holds for each of the values in the first one. -/
theorem equalItems_iff_identities {vs ws : List Value}
    (h : ∀ v ∈ vs, ∀ w : Value, v.equal w = true ↔ v.identity = w.identity) :
    equalItems vs ws = true ↔ identities vs = identities ws := by
  induction vs generalizing ws with
  | nil => cases ws <;> simp [equalItems, identities]
  | cons v vs ih =>
    rw [List.forall_mem_cons] at h
    cases ws with
    | nil => simp [equalItems, identities]
    | cons w ws =>
      rw [equalItems, identities, identities, Bool.and_eq_true, List.cons_eq_cons, h.1 w, ih h.2]

/-- Values without doubles are equal if and only if they are the same up to functions. -/
theorem FloatFree.equal_iff_identity {v : Value} (hv : v.FloatFree) (w : Value) :
    v.equal w = true ↔ v.identity = w.identity := by
  induction hv generalizing w with
  | @scalar v hfloat harray =>
    cases v with
    | float x => exact absurd rfl hfloat
    | array elem items => exact absurd rfl harray
    | function f => cases w <;> simp [equal, identity, Closure.same, and_comm]
    | _ => cases w <;> simp [equal, identity]
  | array _ ih =>
    cases w with
    | array elem ws =>
      rw [equal, identity, identity, Value.array.injEq, equalItems_iff_identities ih]
      exact (and_iff_right rfl).symm
    | _ => simp [equal, identity]

/-- Equality is an equivalence on values without doubles. -/
theorem equivalence_equal :
    Equivalence fun v w : { v : Value // v.FloatFree } => v.1.equal w.1 = true where
  refl v := (v.2.equal_iff_identity v).mpr rfl
  symm {v w} h := (w.2.equal_iff_identity v).mpr ((v.2.equal_iff_identity w).mp h).symm
  trans {u v w} huv hvw :=
    (u.2.equal_iff_identity w).mpr
      (((u.2.equal_iff_identity v).mp huv).trans ((v.2.equal_iff_identity w).mp hvw))

/-- Equal values have one tag. -/
theorem tag_eq_of_equal {v w : Value} (h : v.equal w = true) : v.tag = w.tag := by
  unfold equal at h
  split at h
  -- two constructors that are not the same
  case h_11 => cases h
  all_goals rfl

end TagScript.Value
