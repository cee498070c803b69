import TagScript.Proofs.Store.Resolution
import TagScript.Proofs.Value.Relocate

/-!
# Scopes at Other Places

`Store.relocate r` stores the scopes behind those of the relocation, each under its new number and
with the places in its values replaced. What the scopes are asked for is the same up to this, and
what is done to them can be done before or after it. The scopes in front are never come to: no scope
behind them has one of them around it.
-/

namespace TagScript

variable (r : Relocation)

/-- The binding after a relocation. -/
def Binding.relocate (b : Binding) : Binding :=
  { b with value := b.value.relocate r }

/-- The scope after a relocation. -/
def Scope.relocate (s : Scope) : Scope :=
  { s with
    parent := s.parent.map r.scope
    values := s.values.map (Binding.relocate r) }

/-- The stored scopes after a relocation, behind those that are stored in front of them. -/
def Store.relocate (s : Store) : Store :=
  ⟨r.older ++ s.scopes.map (Scope.relocate r)⟩

@[simp]
theorem Binding.name_relocate (b : Binding) : (b.relocate r).name = b.name := rfl

namespace Scope

/-- A map is searched by names only. -/
theorem find?_relocate (s : Scope) (name : String) :
    (s.relocate r).find? name = (s.find? name).map (Binding.relocate r) := by
  rw [find?, relocate, List.find?_map]
  rfl

theorem has_relocate (s : Scope) (name : String) : (s.relocate r).has name = s.has name := by
  rw [has, relocate, List.any_map]
  rfl

theorem keys_relocate (s : Scope) : (s.relocate r).keys = s.keys := by
  simp [keys, relocate, Function.comp_def]

/-- A binding is added at its new place as the old one is at its old place. -/
theorem bind_relocate (s : Scope) (b : Binding) :
    (s.relocate r).bind (b.relocate r) = (s.bind b).relocate r := by
  simp [bind, relocate]

/-- A value is written at its new place as the old one is at its old place. -/
theorem write_relocate (s : Scope) (name : String) (v : Value) :
    (s.relocate r).write name (v.relocate r) = (s.write name v).relocate r := by
  simp only [write, relocate, List.map_map, mk.injEq, true_and, and_true]
  refine List.map_congr_left fun b _ => ?_
  by_cases h : b.name = name <;> simp [h, Binding.relocate]

end Scope

namespace Store

/-- Nothing moves where nothing is to be moved. -/
@[simp]
theorem relocate_none (s : Store) : s.relocate .none = s := by
  have hbinding : Binding.relocate .none = id := by
    funext b
    simp [Binding.relocate]
  have hnumber : Relocation.none.scope = id := rfl
  have hscope : Scope.relocate .none = id := by
    funext scope
    simp [Scope.relocate, hbinding, hnumber]
  rw [relocate, hscope, Array.map_id]
  exact congrArg Store.mk (Array.empty_append ..)

/-- The scope under a new number is the one under the old number, at its new place. -/
theorem scope?_relocate (s : Store) (id : ScopeId) :
    (s.relocate r).scope? (r.scope id) = (s.scope? id).map (Scope.relocate r) := by
  have hnumber : r.scope id = r.older.size + id := Nat.add_comm ..
  rw [scope?, relocate, hnumber, Array.getElem?_append_right (Nat.le_add_right ..),
    Nat.add_sub_cancel_left, Array.getElem?_map, scope?]

/-- The next number is the new one of what was the next number. -/
@[simp]
theorem size_relocate (s : Store) : (s.relocate r).scopes.size = r.scope s.scopes.size := by
  simp [relocate, Relocation.scope, Nat.add_comm]

/-- The scope around a scope is the same one, under its new number. -/
theorem parent?_relocate (s : Store) (id : ScopeId) :
    (s.relocate r).parent? (r.scope id) =
      (s.parent? id).map fun p => ⟨r.scope p, r.scope_lt_scope_iff.mpr p.2⟩ := by
  unfold parent?
  rw [scope?_relocate]
  cases s.scope? id with
  | none => rfl
  | some scope =>
    obtain ⟨kind, parent, values, order⟩ := scope
    cases parent with
    | none => rfl
    | some p =>
      simp only [Option.map_some, Scope.relocate, r.scope_lt_scope_iff]
      split <;> rfl

/-- The way up from a scope stays the same, and it never leads to a scope from before. -/
theorem path_relocate (s : Store) (id : ScopeId) :
    (s.relocate r).path (r.scope id) = (s.path id).map r.scope := by
  fun_induction path s id with
  | case1 id p hp h ih =>
    rw [path, parent?_relocate, h]
    exact congrArg (r.scope id :: ·) ih
  | case2 id h =>
    rw [path, parent?_relocate, h]
    rfl

/-- As many scopes lie around a scope as before. -/
theorem depth_relocate (s : Store) (id : ScopeId) :
    (s.relocate r).depth (r.scope id) = s.depth id := by
  rw [depth, depth, path_relocate, List.length_map]

theorem find?_relocate (s : Store) (id : ScopeId) (name : String) :
    (s.relocate r).find? (r.scope id) name = (s.find? id name).map (Binding.relocate r) := by
  rw [find?, find?, scope?_relocate]
  cases s.scope? id with
  | none => rfl
  | some scope => exact scope.find?_relocate r name

/-- A name resolves to the same binding in the same scope. -/
theorem lookup?_relocate (s : Store) (id : ScopeId) (name : String) :
    (s.relocate r).lookup? (r.scope id) name =
      (s.lookup? id name).map fun (owner, b) => (r.scope owner, b.relocate r) := by
  fun_induction lookup? s id name with
  | case1 id b hb =>
    rw [lookup?, find?_relocate, hb]
    rfl
  | case2 id hb p hp h ih =>
    rw [lookup?, find?_relocate, parent?_relocate, hb, h]
    exact ih
  | case3 id hb h =>
    rw [lookup?, find?_relocate, parent?_relocate, hb, h]
    rfl

/-- A name resolves to the same binding, at its new place. -/
theorem resolve?_relocate (s : Store) (id : ScopeId) (name : String) :
    (s.relocate r).resolve? (r.scope id) name = (s.resolve? id name).map (Binding.relocate r) := by
  simp [resolve?, lookup?_relocate, Function.comp_def]

theorem isDeclared_relocate (s : Store) (id : ScopeId) (name : String) :
    (s.relocate r).isDeclared (r.scope id) name = s.isDeclared id name := by
  simp [isDeclared, lookup?_relocate]

theorem has_relocate (s : Store) (id : ScopeId) (name : String) :
    (s.relocate r).has (r.scope id) name = s.has id name := by
  rw [has, has, scope?_relocate]
  cases s.scope? id with
  | none => rfl
  | some scope => exact scope.has_relocate r name

/-- The order of declaration stays the same. -/
theorem declared_relocate (s : Store) (id : ScopeId) :
    (s.relocate r).declared (r.scope id) = s.declared id := by
  rw [declared, declared, scope?_relocate]
  cases s.scope? id <;> rfl

/-- The names of a scope stay the same. -/
theorem names_relocate (s : Store) (id : ScopeId) :
    (s.relocate r).names (r.scope id) = s.names id := by
  rw [names, names, keys, keys, scope?_relocate]
  cases s.scope? id with
  | none => rfl
  | some scope => exact congrArg sortedNames (scope.keys_relocate r)

/-- The bindings of a scope are the same, at their new places. -/
theorem snapshot_relocate (s : Store) (id : ScopeId) :
    (s.relocate r).snapshot (r.scope id) = (s.snapshot id).map (Binding.relocate r) := by
  have hfind : (s.relocate r).find? (r.scope id) =
      fun name => (s.find? id name).map (Binding.relocate r) :=
    funext fun name => s.find?_relocate r id name
  rw [snapshot, snapshot, names_relocate, hfind, List.map_filterMap]

/-- A scope that is added gets the new number of the one it would have got. -/
theorem push_relocate (s : Store) (scope : Scope) :
    (s.relocate r).push (scope.relocate r) =
      (r.scope (s.push scope).1, (s.push scope).2.relocate r) := by
  refine Prod.ext (size_relocate r s) (congrArg Store.mk ?_)
  rw [relocate, push, Array.map_push, Array.append_push]

/-- A new scope gets the new number of the one it would have got. -/
theorem openScope_relocate (s : Store) (kind : ScopeKind) (parent : ScopeId) :
    (s.relocate r).openScope kind (r.scope parent) =
      (r.scope (s.openScope kind parent).1, (s.openScope kind parent).2.relocate r) :=
  s.push_relocate r (.empty kind (some parent))

/-- An outermost scope binds the functions that every script finds, and those mention no scope. -/
theorem seed_relocate (s : Store) :
    (s.relocate r).seed = (r.scope s.seed.1, s.seed.2.relocate r) :=
  s.push_relocate r .seeded

/-- Where there are no scopes, there are afterwards those that are stored in front. -/
theorem relocate_empty : Store.empty.relocate r = ⟨r.older⟩ := by
  rw [relocate, empty, Array.map_empty, Array.append_empty]

/-- In a new outermost scope there are no positions to be replaced. -/
theorem relocate_new (f : Position → Position) :
    Store.empty.seed.2.relocate (.moving f) = Store.empty.seed.2 := by
  have hseed := seed_relocate (.moving f) .empty
  rw [relocate_empty] at hseed
  exact (congrArg Prod.snd hseed).symm

/-- A change of one scope can be made before or after the relocation. -/
theorem modify_relocate (s : Store) (id : ScopeId) (change change' : Scope → Scope)
    (h : ∀ scope : Scope, change' (scope.relocate r) = (change scope).relocate r) :
    (s.relocate r).scopes.modify (r.scope id) change' =
      r.older ++ (s.scopes.modify id change).map (Scope.relocate r) := by
  refine Array.ext_getElem? fun i => ?_
  rw [Array.getElem?_modify, relocate]
  by_cases hi : i < r.older.size
  · -- a scope in front is never the one that is changed
    have hne : r.scope id ≠ i := fun heq => by
      rw [← heq] at hi
      exact absurd hi (Nat.not_lt.mpr (Nat.le_add_left ..))
    rw [if_neg hne, Array.getElem?_append_left hi, Array.getElem?_append_left hi]
  · obtain ⟨j, rfl⟩ := Nat.exists_eq_add_of_le (Nat.not_lt.mp hi)
    have hnumber : r.scope id = r.older.size + j ↔ id = j := by
      rw [Relocation.scope, Nat.add_comm id]
      exact Nat.add_left_cancel_iff
    simp only [Array.getElem?_append_right (Nat.le_add_right ..), Nat.add_sub_cancel_left,
      Array.getElem?_map, Array.getElem?_modify, hnumber]
    split
    · cases s.scopes[j]? with
      | none => rfl
      | some scope => exact congrArg some (h scope)
    · rfl

/-- A binding is accepted or refused as it was. -/
theorem define_relocate (s : Store) (id : ScopeId) (b : Binding) :
    (s.relocate r).define (r.scope id) (b.relocate r) =
      ((s.define id b).1, (s.define id b).2.relocate r) := by
  unfold define
  have hbind := modify_relocate r s id (·.bind b) (·.bind (b.relocate r)) (·.bind_relocate r b)
  rw [has_relocate, Binding.name_relocate, hbind]
  split <;> rfl

/-- An assignment is accepted or refused as it was. -/
theorem assign_relocate (s : Store) (id : ScopeId) (name : String) (v : Value) :
    (s.relocate r).assign (r.scope id) name (v.relocate r) =
      ((s.assign id name v).1, (s.assign id name v).2.relocate r) := by
  unfold assign
  rw [lookup?_relocate]
  cases s.lookup? id name with
  | none => rfl
  | some found =>
    obtain ⟨owner, b⟩ := found
    have hwrite := modify_relocate r s owner (·.write name v) (·.write name (v.relocate r))
      (·.write_relocate r name v)
    -- the tag and the mutability of the binding are the same, so the decision is
    simp only [Option.map_some, Binding.relocate, Value.tag_relocate, hwrite]
    split
    · rfl
    · split <;> rfl

end Store

end TagScript
