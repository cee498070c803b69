import TagScript.Proofs.Store.Basic

/-!
# Well-Formed Values and Scopes

A value is well formed among `n` stored scopes if its functions were declared in some of these, the
items of its arrays have the tag that the array keeps for them, all the way down, and it holds no
tag that belongs to no value. The stored scopes are well formed if every binding has the tag of its
value, every value is well formed, a scope is consistent and lies inside a scope opened before it.

Storing a scope, binding and assigning keep the stored scopes well formed. For an assignment this
needs that a scope binds a name once: only the binding that the name resolves to is checked.
-/

namespace TagScript

namespace Value

/-- No value has the tag `void` or `unknown`. -/
theorem tag_ne_void_unknown (v : Value) : v.tag ≠ .void ∧ v.tag ≠ .unknown := by
  cases v <;> simp [tag]

/-- Only whole numbers have the tag `int`. -/
theorem tag_eq_int_iff (v : Value) : v.tag = .int ↔ ∃ n, v = .int n := by
  cases v <;> simp [tag]

/-- A value that is well formed among `n` stored scopes. -/
inductive Formed (n : Nat) : Value → Prop
  | null : Formed n .null
  | int (k : Int64) : Formed n (.int k)
  | float (x : Float) : Formed n (.float x)
  | string (s : String) : Formed n (.string s)
  | bool (b : Bool) : Formed n (.bool b)
  | builtin (b : Builtin) : Formed n (.builtin b)
  /-- A function was declared in a stored scope. -/
  | function (f : Closure) : f.scope < n → Formed n (.function f)
  | range (r : Range) : Formed n (.range r)
  /-- The items of an array are well formed and have the tag that the array keeps for them, which is
  unknown if and only if there are none. -/
  | array (elem : Tag) (items : List Value) : (∀ v ∈ items, Formed n v) →
      (∀ v ∈ items, v.tag = elem) → (elem = .unknown ↔ items = []) → Formed n (.array elem items)
  /-- A type is the type of some value. -/
  | type (t : Tag) : t ≠ .void → t ≠ .unknown → Formed n (.type t)

/-- A well-formed value stays so when more scopes are stored. -/
theorem Formed.mono {n k : Nat} {v : Value} (h : v.Formed n) (hk : n ≤ k) : v.Formed k := by
  induction h with
  | function f hf => exact .function f (Nat.lt_of_lt_of_le hf hk)
  | array elem items _ htag hunknown ih => exact .array elem items ih htag hunknown
  | type t hv hu => exact .type t hv hu
  | _ => constructor

end Value

namespace Store

/-- Well-formed stored scopes. -/
structure Formed (s : Store) : Prop where
  /-- A scope lies inside a scope that was opened before it. -/
  parent_lt : ∀ id scope p, s.scope? id = some scope → scope.parent = some p → p < id
  /-- The map and the order of a scope are consistent. -/
  consistent : s.Consistent
  /-- A binding has the tag of its value, and the value is well formed. -/
  binding : ∀ id scope b, s.scope? id = some scope → b ∈ scope.values →
    b.tag = b.value.tag ∧ b.value.Formed s.scopes.size

namespace Formed

variable {s : Store}

/-- One more scope, in which nothing but constants is bound. -/
theorem push (h : s.Formed) {scope : Scope} (hp : ∀ p, scope.parent = some p → p < s.scopes.size)
    (hscope : scope.Consistent)
    (hvalues : ∀ b ∈ scope.values, b.tag = b.value.tag ∧ b.value.Formed 0) :
    (s.push scope).2.Formed where
  parent_lt := by
    intro id found p hs hparent
    rw [scope?_push] at hs
    split at hs
    -- the new scope has the largest number so far
    next hid =>
      cases hs
      rw [hid]
      exact hp p hparent
    next => exact h.parent_lt id found p hs hparent
  consistent := h.consistent.push hscope
  binding := by
    intro id found b hs hb
    rw [scope?_push] at hs
    rw [size_push]
    split at hs
    next =>
      cases hs
      obtain ⟨htag, hvalue⟩ := hvalues b hb
      exact ⟨htag, hvalue.mono (Nat.zero_le _)⟩
    next =>
      -- the values mention scopes by number, and one more is stored now
      obtain ⟨htag, hvalue⟩ := h.binding id found b hs hb
      exact ⟨htag, hvalue.mono (Nat.le_succ _)⟩

theorem openScope (h : s.Formed) (kind : ScopeKind) {parent : ScopeId}
    (hp : parent < s.scopes.size) : (s.openScope kind parent).2.Formed := by
  refine h.push ?_ (.empty kind _) nofun
  rintro _ ⟨⟩
  exact hp

theorem define (h : s.Formed) (id : ScopeId) {b : Binding} (ht : b.tag = b.value.tag)
    (hv : b.value.Formed s.scopes.size) : (s.define id b).2.Formed where
  parent_lt := by
    intro j scope p hs hp
    obtain hold | ⟨old, hold, rfl, -⟩ := scope?_define hs
    · exact h.parent_lt j scope p hold hp
    · exact h.parent_lt j old p hold hp
  consistent := h.consistent.define id b
  binding := by
    intro j scope c hs hc
    rw [size_define]
    obtain hold | ⟨old, hold, rfl, -⟩ := scope?_define hs
    · exact h.binding j scope c hold hc
    -- a binding of the scope is one from before or the new one
    · rw [Scope.bind_values, List.mem_cons] at hc
      obtain rfl | hc := hc
      · exact ⟨ht, hv⟩
      · exact h.binding j old c hold hc

theorem assign (h : s.Formed) (id : ScopeId) (name : String) {v : Value}
    (hv : v.Formed s.scopes.size) : (s.assign id name v).2.Formed where
  parent_lt := by
    intro j scope p hs hp
    obtain hold | ⟨old, b, hold, rfl, -⟩ := scope?_assign hs
    · exact h.parent_lt j scope p hold hp
    · exact h.parent_lt j old p hold hp
  consistent := h.consistent.assign id name v
  binding := by
    intro j scope c hs hc
    rw [size_assign]
    obtain hold | ⟨old, b, hold, rfl, hfind, ht, -⟩ := scope?_assign hs
    · exact h.binding j scope c hold hc
    · obtain ⟨before, hmem, rfl⟩ := List.mem_map.mp hc
      obtain ⟨htag, hformed⟩ := h.binding j old before hold hmem
      split
      next hname =>
        -- the scope binds the name once, so `before` is the binding that was checked
        obtain rfl := (h.consistent j old hold).eq_of_find? hfind hmem hname
        exact ⟨ht.symm, hv⟩
      next => exact ⟨htag, hformed⟩

end Formed

end Store

end TagScript
