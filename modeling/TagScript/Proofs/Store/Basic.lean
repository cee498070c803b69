import Mathlib.Data.List.Nodup
import TagScript.Store.Basic

/-!
# Scopes Before and After

What the operations on the stored scopes do to each of them: storing one more leaves the others
alone, a definition and an assignment change one scope. A name resolves to a binding that stands in
a scope (`lookup?_mem`).

A scope keeps its map and the order of declaration apart, and they are consistent
(`Scope.Consistent`) if no name was declared twice and the declared names are those that the map
binds. This holds of every scope whatever is done to the scopes (`Store.Consistent`): a definition
is refused where the map binds the name, and otherwise adds the name to both; an assignment keeps
the names.
-/

namespace TagScript

namespace Scope

@[simp]
theorem bind_kind (s : Scope) (b : Binding) : (s.bind b).kind = s.kind := rfl

@[simp]
theorem bind_parent (s : Scope) (b : Binding) : (s.bind b).parent = s.parent := rfl

@[simp]
theorem bind_values (s : Scope) (b : Binding) : (s.bind b).values = b :: s.values := rfl

@[simp]
theorem bind_order (s : Scope) (b : Binding) : (s.bind b).order = s.order ++ [b.name] := rfl

@[simp]
theorem bind_keys (s : Scope) (b : Binding) : (s.bind b).keys = b.name :: s.keys := rfl

@[simp]
theorem write_kind (s : Scope) (name : String) (v : Value) : (s.write name v).kind = s.kind := rfl

@[simp]
theorem write_parent (s : Scope) (name : String) (v : Value) :
    (s.write name v).parent = s.parent := rfl

@[simp]
theorem write_order (s : Scope) (name : String) (v : Value) :
    (s.write name v).order = s.order := rfl

/-- An assignment keeps the names that the map binds. -/
@[simp]
theorem write_keys (s : Scope) (name : String) (v : Value) : (s.write name v).keys = s.keys := by
  simp only [keys, write, List.map_map]
  refine List.map_congr_left fun b _ => ?_
  simp only [Function.comp_apply]
  split <;> rfl

/-- A scope binds the names that are keys of its map. -/
theorem has_iff (s : Scope) (name : String) : s.has name = true ↔ name ∈ s.keys := by
  simp [has, keys]

/-- A binding that is found under a name is in the map and has that name. -/
theorem mem_of_find? {s : Scope} {name : String} {b : Binding} (h : s.find? name = some b) :
    b ∈ s.values ∧ b.name = name :=
  ⟨List.mem_of_find?_eq_some h, by simpa using List.find?_some h⟩

/-- A new binding is found under its name, and hides an older one. -/
theorem find?_bind (s : Scope) (b : Binding) (name : String) :
    (s.bind b).find? name = if b.name = name then some b else s.find? name := by
  rw [find?, bind_values, List.find?_cons]
  by_cases h : b.name = name <;> simp [h, find?]

/-- A value is written to the binding that is found under the name. -/
theorem find?_write (s : Scope) (name x : String) (v : Value) :
    (s.write name v).find? x =
      if x = name then (s.find? x).map fun b => { b with value := v } else s.find? x := by
  unfold find? write
  induction s.values with
  | nil => simp
  | cons b bs ih =>
    -- writing keeps the names, so both searches stop at the same place
    by_cases hb : b.name = x
    · by_cases hx : x = name <;> simp [hb, hx]
    · have hmapped : (if b.name = name then { b with value := v } else b).name ≠ x := by
        split <;> exact hb
      simp only [List.map_cons, List.find?_cons, hb, hmapped, decide_false, ih]

/-- The map and the order of a scope are consistent. -/
structure Consistent (s : Scope) : Prop where
  /-- No name was declared twice. -/
  nodup : s.order.Nodup
  /-- The map binds the declared names, each once. -/
  perm : s.keys.Perm s.order

namespace Consistent

variable {s : Scope}

theorem empty (kind : ScopeKind) (parent : Option ScopeId) : (Scope.empty kind parent).Consistent :=
  ⟨List.nodup_nil, .nil⟩

/-- A name that the map does not bind can be declared. -/
theorem bind (h : s.Consistent) {b : Binding} (hfresh : b.name ∉ s.keys) :
    (s.bind b).Consistent where
  nodup := by
    rw [bind_order, ← List.concat_eq_append]
    exact h.nodup.concat fun hmem => hfresh (h.perm.mem_iff.mpr hmem)
  perm := by
    rw [bind_keys, bind_order]
    exact (h.perm.cons b.name).trans (List.perm_append_singleton b.name s.order).symm

theorem write (h : s.Consistent) (name : String) (v : Value) : (s.write name v).Consistent := by
  refine ⟨h.nodup, ?_⟩
  rw [write_keys]
  exact h.perm

/-- No name is twice among the keys, as none is twice in the order. -/
theorem nodup_keys (h : s.Consistent) : s.keys.Nodup :=
  h.perm.nodup_iff.mpr h.nodup

/-- The bindings of a scope with a given name are one. -/
theorem eq_of_find? (h : s.Consistent) {name : String} {b c : Binding}
    (hb : s.find? name = some b) (hc : c ∈ s.values) (hname : c.name = name) : c = b := by
  obtain ⟨hmem, hbname⟩ := mem_of_find? hb
  -- no two bindings of the map have the same name
  exact List.inj_on_of_nodup_map h.nodup_keys hc hmem (hname.trans hbname.symm)

/-- A binding of the map is found under its name. -/
theorem find?_of_mem (h : s.Consistent) {b : Binding} (hb : b ∈ s.values) :
    s.find? b.name = some b := by
  obtain ⟨c, hc⟩ : ∃ c, s.find? b.name = some c :=
    Option.isSome_iff_exists.mp (List.find?_isSome.mpr ⟨b, hb, decide_eq_true rfl⟩)
  obtain rfl := h.eq_of_find? hc hb rfl
  exact hc

end Consistent

end Scope

namespace Store

@[simp]
theorem size_push (s : Store) (scope : Scope) :
    (s.push scope).2.scopes.size = s.scopes.size + 1 := by
  simp [push]

@[simp]
theorem push_fst (s : Store) (scope : Scope) : (s.push scope).1 = s.scopes.size := rfl

/-- Storing one more scope leaves the others alone. -/
theorem scope?_push (s : Store) (scope : Scope) (id : ScopeId) :
    (s.push scope).2.scope? id = if id = s.scopes.size then some scope else s.scope? id := by
  simp [push, scope?, Array.getElem?_push]

/-- A new scope is one scope more. -/
@[simp]
theorem size_openScope (s : Store) (kind : ScopeKind) (parent : ScopeId) :
    (s.openScope kind parent).2.scopes.size = s.scopes.size + 1 :=
  s.size_push _

@[simp]
theorem openScope_fst (s : Store) (kind : ScopeKind) (parent : ScopeId) :
    (s.openScope kind parent).1 = s.scopes.size := rfl

/-- To bind a name opens no scope. -/
@[simp]
theorem size_define (s : Store) (id : ScopeId) (b : Binding) :
    (s.define id b).2.scopes.size = s.scopes.size := by
  unfold define
  split <;> simp

/-- To assign opens no scope. -/
@[simp]
theorem size_assign (s : Store) (id : ScopeId) (name : String) (v : Value) :
    (s.assign id name v).2.scopes.size = s.scopes.size := by
  unfold assign
  split
  · rfl
  · split
    · rfl
    · split <;> simp

/-- A stored scope has a number below the number of scopes. -/
theorem scope?_lt {s : Store} {id : ScopeId} {scope : Scope} (h : s.scope? id = some scope) :
    id < s.scopes.size :=
  (Array.getElem?_eq_some_iff.mp h).1

/-- A new scope is empty, and the others stay as they are. -/
theorem scope?_openScope (s : Store) (kind : ScopeKind) (parent id : ScopeId) :
    (s.openScope kind parent).2.scope? id =
      if id = s.scopes.size then some (.empty kind (some parent)) else s.scope? id :=
  s.scope?_push _ id

/-- What a definition that is not refused does to each scope. -/
theorem scope?_bind (s : Store) (owner id : ScopeId) (b : Binding) :
    (Store.mk (s.scopes.modify owner (·.bind b))).scope? id =
      if owner = id then (s.scope? id).map (·.bind b) else s.scope? id := by
  simp [scope?, Array.getElem?_modify]

/-- What an assignment that is not refused does to each scope. -/
theorem scope?_write (s : Store) (owner id : ScopeId) (name : String) (v : Value) :
    (Store.mk (s.scopes.modify owner (·.write name v))).scope? id =
      if owner = id then (s.scope? id).map (·.write name v) else s.scope? id := by
  simp [scope?, Array.getElem?_modify]

/-- Whether a scope binds a name is read off the scope itself. -/
theorem has_of_scope? {s : Store} {id : ScopeId} {scope : Scope} {name : String}
    (h : s.scope? id = some scope) : s.has id name = scope.has name := by
  rw [has, h]

/-- A definition either is refused and changes nothing, or binds a name that the scope did not
bind. -/
theorem define_cases (s : Store) (id : ScopeId) (b : Binding) :
    s.has id b.name = true ∧ s.define id b = (false, s) ∨
      s.has id b.name = false ∧ s.define id b = (true, ⟨s.scopes.modify id (·.bind b)⟩) := by
  unfold define
  cases h : s.has id b.name with
  | true => exact .inl ⟨rfl, rfl⟩
  | false => exact .inr ⟨rfl, rfl⟩

/-- An assignment either changes nothing, or gives a new value with the right tag to the mutable
binding that the name resolves to. -/
theorem assign_cases (s : Store) (id : ScopeId) (name : String) (v : Value) :
    (s.assign id name v).1 ≠ .ok ∧ (s.assign id name v).2 = s ∨
      ∃ owner b, s.lookup? id name = some (owner, b) ∧ v.tag = b.tag ∧ b.mutable = true ∧
        s.assign id name v = (.ok, ⟨s.scopes.modify owner (·.write name v)⟩) := by
  unfold assign
  cases hl : s.lookup? id name with
  | none => exact .inl ⟨by simp, rfl⟩
  | some found =>
    obtain ⟨owner, b⟩ := found
    -- the tag is checked before the binding is asked whether it may change
    by_cases ht : v.tag = b.tag
    · cases hm : b.mutable with
      | true => exact .inr ⟨owner, b, rfl, ht, hm, by simp [ht, hm]⟩
      | false => exact .inl (by simp [ht, hm])
    · exact .inl (by simp [ht])

/-- A name resolves to a binding of that name in the scope that holds it. -/
theorem lookup?_mem {s : Store} {id owner : ScopeId} {name : String} {b : Binding}
    (h : s.lookup? id name = some (owner, b)) :
    ∃ scope, s.scope? owner = some scope ∧ scope.find? name = some b := by
  fun_induction lookup? s id name with
  -- the lookup goes up the scopes, and stops at the first that has the name
  | case1 id found hf =>
    obtain ⟨rfl, rfl⟩ : id = owner ∧ found = b := by simpa using h
    exact Option.bind_eq_some_iff.mp hf
  | case2 id hf p hp hparent ih => exact ih h
  | case3 id hf hparent => cases h

/-- What a name resolves to is stored in the map of some scope. -/
theorem resolve?_mem {s : Store} {id : ScopeId} {name : String} {b : Binding}
    (h : s.resolve? id name = some b) :
    ∃ owner scope, s.scope? owner = some scope ∧ scope.find? name = some b := by
  obtain ⟨⟨owner, found⟩, hl, rfl⟩ := Option.map_eq_some_iff.mp h
  exact ⟨owner, lookup?_mem hl⟩

/-- Every number below the number of scopes is that of a stored one. -/
theorem scope?_eq_some {s : Store} {id : ScopeId} (h : id < s.scopes.size) :
    ∃ scope, s.scope? id = some scope :=
  ⟨_, Array.getElem?_eq_getElem h⟩

/-- A scope after a definition is one from before, or has the binding in addition. -/
theorem scope?_define {s : Store} {id j : ScopeId} {b : Binding} {scope : Scope}
    (h : (s.define id b).2.scope? j = some scope) :
    s.scope? j = some scope ∨
      ∃ old, s.scope? j = some old ∧ scope = old.bind b ∧ b.name ∉ old.keys ∧ j = id := by
  obtain ⟨-, hd⟩ | ⟨hfresh, hd⟩ := define_cases s id b
  · rw [hd] at h
    exact .inl h
  rw [hd, scope?_bind] at h
  split at h
  next hj =>
    obtain ⟨old, hold, rfl⟩ := Option.map_eq_some_iff.mp h
    refine .inr ⟨old, hold, rfl, ?_, hj.symm⟩
    -- the definition was not refused, so the scope did not have the name
    rw [← Scope.has_iff, ← has_of_scope? hold, ← hj, hfresh]
    exact Bool.false_ne_true
  next => exact .inl h

/-- A scope after an assignment is one from before, or the one that holds the binding with the value
written to it. -/
theorem scope?_assign {s : Store} {id j : ScopeId} {name : String} {v : Value} {scope : Scope}
    (h : (s.assign id name v).2.scope? j = some scope) :
    s.scope? j = some scope ∨
      ∃ old b, s.scope? j = some old ∧ scope = old.write name v ∧ old.find? name = some b ∧
        v.tag = b.tag ∧ b.mutable = true := by
  obtain ⟨-, ha⟩ | ⟨owner, b, hl, ht, hmutable, ha⟩ := assign_cases s id name v
  · rw [ha] at h
    exact .inl h
  rw [ha, scope?_write] at h
  split at h
  next hj =>
    subst hj
    obtain ⟨old, hold, rfl⟩ := Option.map_eq_some_iff.mp h
    -- the scope that is written to is the one the name was found in
    obtain ⟨holder, hholder, hfind⟩ := lookup?_mem hl
    obtain rfl : holder = old := Option.some.inj (hholder.symm.trans hold)
    exact .inr ⟨holder, b, hold, rfl, hfind, ht, hmutable⟩
  next => exact .inl h

/-- The map and the order of every scope are consistent. -/
def Consistent (s : Store) : Prop :=
  ∀ id scope, s.scope? id = some scope → scope.Consistent

namespace Consistent

variable {s : Store}

/-- A consistent scope may be added to consistent ones. -/
theorem push (h : s.Consistent) {scope : Scope} (hscope : scope.Consistent) :
    (s.push scope).2.Consistent := by
  intro id found hs
  rw [scope?_push] at hs
  split at hs
  next =>
    cases hs
    exact hscope
  next => exact h id found hs

/-- An empty scope is consistent, so a new one is. -/
theorem openScope (h : s.Consistent) (kind : ScopeKind) (parent : ScopeId) :
    (s.openScope kind parent).2.Consistent :=
  h.push (.empty kind _)

/-- To bind a name adds it to the map and to the order, or to neither. -/
theorem define (h : s.Consistent) (id : ScopeId) (b : Binding) : (s.define id b).2.Consistent := by
  intro j scope hs
  obtain hold | ⟨old, hold, rfl, hnew, -⟩ := scope?_define hs
  · exact h j scope hold
  · exact (h j old hold).bind hnew

/-- To assign replaces a value in the map, which leaves the keys as they are. -/
theorem assign (h : s.Consistent) (id : ScopeId) (name : String) (v : Value) :
    (s.assign id name v).2.Consistent := by
  intro j scope hs
  obtain hold | ⟨old, b, hold, rfl, -⟩ := scope?_assign hs
  · exact h j scope hold
  · exact (h j old hold).write name v

end Consistent

end Store

end TagScript
