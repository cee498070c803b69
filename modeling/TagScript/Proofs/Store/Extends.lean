import TagScript.Proofs.Store.Basic

/-!
# Scopes Only Grow

The stored scopes extend those from before if each scope is still there with its kind and its
parent, its names are the first ones in the order of declaration, and its map binds them. A binding
keeps its name, its tag and whether it is mutable, and one that is not mutable keeps its value.
Storing a scope, binding and assigning extend the scopes.
-/

namespace TagScript

/-- The binding `b` has become `c`. -/
structure Binding.Continues (b c : Binding) : Prop where
  /-- The name is the same. -/
  name : c.name = b.name
  /-- The tag is the same. -/
  tag : c.tag = b.tag
  /-- It can be assigned to as before. -/
  mutable : c.mutable = b.mutable
  /-- The value is the same unless it can be assigned to. -/
  value : b.mutable = false → c.value = b.value

namespace Binding.Continues

theorem refl (b : Binding) : b.Continues b :=
  ⟨rfl, rfl, rfl, fun _ => rfl⟩

theorem trans {b c d : Binding} (h : b.Continues c) (h' : c.Continues d) : b.Continues d where
  name := h'.name.trans h.name
  tag := h'.tag.trans h.tag
  mutable := h'.mutable.trans h.mutable
  value := fun hb => (h'.value (h.mutable.trans hb)).trans (h.value hb)

end Binding.Continues

/-- The scope `s` has become `t`, and has lost nothing. -/
structure Scope.Extends (s t : Scope) : Prop where
  /-- The kind is the same. -/
  kind : t.kind = s.kind
  /-- The scope around it is the same. -/
  parent : t.parent = s.parent
  /-- The names declared before are the first ones, in the same order. -/
  order : s.order <+: t.order
  /-- Each name that the map bound it still binds, with the same tag and as assignable as before. If
  it is not assignable, it is bound to the same value. -/
  binding : ∀ name b, s.find? name = some b → ∃ c, t.find? name = some c ∧ b.Continues c

namespace Scope.Extends

theorem refl (s : Scope) : s.Extends s :=
  ⟨rfl, rfl, List.prefix_refl _, fun _ b hb => ⟨b, hb, .refl b⟩⟩

theorem trans {s t u : Scope} (h : s.Extends t) (h' : t.Extends u) : s.Extends u := by
  refine ⟨h'.kind.trans h.kind, h'.parent.trans h.parent, h.order.trans h'.order, ?_⟩
  intro name b hb
  obtain ⟨c, hc, hbc⟩ := h.binding name b hb
  obtain ⟨d, hd, hcd⟩ := h'.binding name c hc
  exact ⟨d, hd, hbc.trans hcd⟩

/-- A new name hides none that the map binds. -/
theorem bind {s : Scope} {b : Binding} (hfresh : b.name ∉ s.keys) : s.Extends (s.bind b) := by
  refine ⟨rfl, rfl, List.prefix_append _ _, fun name c hc => ⟨c, ?_, .refl c⟩⟩
  obtain ⟨hmem, hname⟩ := Scope.mem_of_find? hc
  have hne : b.name ≠ name := by
    rintro rfl
    exact hfresh (List.mem_map.mpr ⟨c, hmem, hname⟩)
  rw [find?_bind, if_neg hne, hc]

/-- What is written to a mutable binding changes no other one. -/
theorem write {s : Scope} {name : String} {v : Value} {b : Binding}
    (hfind : s.find? name = some b) (hmutable : b.mutable = true) :
    s.Extends (s.write name v) := by
  refine ⟨rfl, rfl, List.prefix_refl _, fun x c hc => ?_⟩
  rw [find?_write]
  by_cases hx : x = name
  · subst hx
    obtain rfl : b = c := Option.some.inj (hfind.symm.trans hc)
    refine ⟨{ b with value := v }, by rw [if_pos rfl, hc, Option.map_some], rfl, rfl, rfl, ?_⟩
    intro himmutable
    rw [hmutable] at himmutable
    cases himmutable
  · exact ⟨c, by rw [if_neg hx, hc], .refl c⟩

end Scope.Extends

namespace Store

/-- The stored scopes `s` have become `t`. -/
def Extends (s t : Store) : Prop :=
  ∀ id scope, s.scope? id = some scope → ∃ scope', t.scope? id = some scope' ∧ scope.Extends scope'

namespace Extends

variable {s t u : Store}

theorem refl (s : Store) : s.Extends s :=
  fun _ scope h => ⟨scope, h, .refl scope⟩

theorem trans (h : s.Extends t) (h' : t.Extends u) : s.Extends u := by
  intro id scope hs
  obtain ⟨scope', ht, hscope⟩ := h id scope hs
  obtain ⟨scope'', hu, hscope'⟩ := h' id scope' ht
  exact ⟨scope'', hu, hscope.trans hscope'⟩

/-- No scope is lost. -/
theorem size_le (h : s.Extends t) : s.scopes.size ≤ t.scopes.size := by
  -- otherwise some scope of `s` would have no counterpart
  by_contra hlt
  obtain ⟨scope, hs⟩ := scope?_eq_some (Nat.not_le.mp hlt)
  obtain ⟨scope', ht, -⟩ := h _ scope hs
  exact Nat.lt_irrefl _ (scope?_lt ht)

/-- A binding that is found is found again, and continued. -/
theorem find? (h : s.Extends t) {id : ScopeId} {name : String} {b : Binding}
    (hb : s.find? id name = some b) : ∃ c, t.find? id name = some c ∧ b.Continues c := by
  obtain ⟨scope, hs, hfind⟩ := Option.bind_eq_some_iff.mp hb
  obtain ⟨scope', ht, hscope⟩ := h id scope hs
  obtain ⟨c, hc, hcontinues⟩ := hscope.binding name b hfind
  exact ⟨c, Option.bind_eq_some_iff.mpr ⟨scope', ht, hc⟩, hcontinues⟩

/-- A scope that is added leaves the others as they are. -/
theorem push (s : Store) (more : Scope) : s.Extends (s.push more).2 := by
  intro id scope hs
  -- the new scope has a number that no scope had before
  have hne : id ≠ s.scopes.size := Nat.ne_of_lt (scope?_lt hs)
  refine ⟨scope, ?_, .refl scope⟩
  rw [scope?_push, if_neg hne, hs]

/-- A new scope leaves the others as they are. -/
theorem openScope (s : Store) (kind : ScopeKind) (parent : ScopeId) :
    s.Extends (s.openScope kind parent).2 :=
  .push s _

/-- A binding is added behind those that its scope has. -/
theorem define (s : Store) (id : ScopeId) (b : Binding) : s.Extends (s.define id b).2 := by
  intro j scope hs
  -- no scope is lost, so there is one to compare with
  obtain ⟨scope', hs'⟩ : ∃ scope', (s.define id b).2.scope? j = some scope' := by
    refine scope?_eq_some ?_
    rw [size_define]
    exact scope?_lt hs
  refine ⟨scope', hs', ?_⟩
  obtain hold | ⟨old, hold, rfl, hfresh, -⟩ := scope?_define hs'
  · obtain rfl : scope = scope' := Option.some.inj (hs.symm.trans hold)
    exact .refl scope
  · obtain rfl : scope = old := Option.some.inj (hs.symm.trans hold)
    exact .bind hfresh

/-- An assignment continues one binding: its value changes, and nothing else. -/
theorem assign (s : Store) (id : ScopeId) (name : String) (v : Value) :
    s.Extends (s.assign id name v).2 := by
  intro j scope hs
  obtain ⟨scope', hs'⟩ : ∃ scope', (s.assign id name v).2.scope? j = some scope' := by
    refine scope?_eq_some ?_
    rw [size_assign]
    exact scope?_lt hs
  refine ⟨scope', hs', ?_⟩
  obtain hold | ⟨old, b, hold, rfl, hfind, -, hmutable⟩ := scope?_assign hs'
  · obtain rfl : scope = scope' := Option.some.inj (hs.symm.trans hold)
    exact .refl scope
  · obtain rfl : scope = old := Option.some.inj (hs.symm.trans hold)
    exact .write hfind hmutable

end Extends

end Store

end TagScript
