import Mathlib.Data.Set.Insert
import TagScript.Proofs.Store.Basic

/-!
# Names That Scopes Declare

Which names each scope declares changes in one way only: a definition adds its name to the order and
to the map of the scope that it is made in. `Store.Keeps owned` says that the scopes from before
declare and bind the same names as before, except for those in `owned`, and `Store.Adds owner names`
that the one scope `owner` declares and binds these names in addition. A scope that was opened in
between is none from before, so what is declared in it does not count (`Keeps.of_opened`).
-/

namespace TagScript.Store

variable {s t u : Store}

/-- The order of declaration is read off the scope itself. -/
theorem declared_of_scope? {id : ScopeId} {scope : Scope} (h : s.scope? id = some scope) :
    s.declared id = scope.order := by
  rw [declared, h]

/-- The keys of the map are read off the scope itself. -/
theorem keys_of_scope? {id : ScopeId} {scope : Scope} (h : s.scope? id = some scope) :
    s.keys id = scope.keys := by
  rw [keys, h]

/-- The scopes `s` have become `t`, and the scope `id` has the same names. -/
structure SameNames (s t : Store) (id : ScopeId) : Prop where
  /-- It declares the same names, in the same order. -/
  declared : t.declared id = s.declared id
  /-- Its map binds the same names. -/
  keys : t.keys id = s.keys id

namespace SameNames

variable {id j : ScopeId}

/-- A scope has the names that it has. -/
theorem refl (s : Store) (id : ScopeId) : s.SameNames s id :=
  ⟨rfl, rfl⟩

/-- Names that are added one after the other are added together. -/
theorem trans (h : s.SameNames t id) (h' : t.SameNames u id) : s.SameNames u id :=
  ⟨h'.declared.trans h.declared, h'.keys.trans h.keys⟩

/-- A scope that stays as it is has the same names. -/
theorem of_scope? (h : t.scope? id = s.scope? id) : s.SameNames t id := by
  refine ⟨?_, ?_⟩
  · rw [Store.declared, Store.declared, h]
  · rw [Store.keys, Store.keys, h]

/-- A scope that is opened leaves those from before alone. -/
theorem openScope (kind : ScopeKind) (parent : ScopeId) (hid : id < s.scopes.size) :
    s.SameNames (s.openScope kind parent).2 id := by
  -- the new scope has a number that no scope had before
  have hne : id ≠ s.scopes.size := Nat.ne_of_lt hid
  exact of_scope? (by rw [scope?_openScope, if_neg hne])

/-- An assignment adds no name to any scope. -/
theorem assign (s : Store) (id : ScopeId) (name : String) (v : Value) (j : ScopeId) :
    s.SameNames (s.assign id name v).2 j := by
  rcases assign_cases s id name v with ⟨-, hsame⟩ | ⟨owner, b, -, -, -, hwrite⟩
  · rw [hsame]
    exact .refl s j
  rw [hwrite]
  by_cases hj : owner = j
  · subst hj
    cases hs : s.scope? owner with
    | none => exact of_scope? (by rw [scope?_write, if_pos rfl, hs, Option.map_none])
    | some scope =>
      -- the scope that is written to keeps its names
      have hscope : (Store.mk (s.scopes.modify owner (·.write name v))).scope? owner =
          some (scope.write name v) := by
        rw [scope?_write, if_pos rfl, hs, Option.map_some]
      refine ⟨?_, ?_⟩
      · rw [declared_of_scope? hscope, declared_of_scope? hs, Scope.write_order]
      · rw [keys_of_scope? hscope, keys_of_scope? hs, Scope.write_keys]
  · exact of_scope? (by rw [scope?_write, if_neg hj])

/-- A definition adds no name to another scope. -/
theorem define_of_ne (b : Binding) (hj : j ≠ id) : s.SameNames (s.define id b).2 j := by
  rcases define_cases s id b with ⟨-, hsame⟩ | ⟨-, hbind⟩
  · rw [hsame]
    exact .refl s j
  · rw [hbind]
    exact of_scope? (by rw [scope?_bind, if_neg hj.symm])

end SameNames

/-- A definition that is not refused binds the name in the scope. -/
theorem scope?_define_self {id : ScopeId} {b : Binding} {scope : Scope}
    (hs : s.scope? id = some scope) (hfresh : s.has id b.name = false) :
    (s.define id b).2.scope? id = some (scope.bind b) := by
  rcases define_cases s id b with ⟨hhas, -⟩ | ⟨-, hbind⟩
  · rw [hfresh] at hhas
    cases hhas
  · rw [hbind, scope?_bind, if_pos rfl, hs, Option.map_some]

/-- The scopes `s` have become `t`, and except for those in `owned` they have the same names. -/
structure Keeps (owned : Set ScopeId) (s t : Store) : Prop where
  /-- No scope is lost. -/
  size_le : s.scopes.size ≤ t.scopes.size
  /-- A scope from before declares and binds the names that it did. -/
  sameNames : ∀ id < s.scopes.size, id ∉ owned → s.SameNames t id

namespace Keeps

variable {owned owned' : Set ScopeId}

theorem refl (s : Store) : s.Keeps owned s :=
  ⟨Nat.le_refl _, fun id _ _ => .refl s id⟩

theorem trans (h : s.Keeps owned t) (h' : t.Keeps owned u) : s.Keeps owned u := by
  refine ⟨Nat.le_trans h.size_le h'.size_le, fun id hid hout => ?_⟩
  have hid' : id < t.scopes.size := Nat.lt_of_lt_of_le hid h.size_le
  exact (h.sameNames id hid hout).trans (h'.sameNames id hid' hout)

/-- What is kept outside some scopes is kept outside more of them. -/
theorem mono (h : s.Keeps owned t) (hsub : owned ⊆ owned') : s.Keeps owned' t :=
  ⟨h.size_le, fun id hid hout => h.sameNames id hid fun hin => hout (hsub hin)⟩

/-- To assign declares no name. -/
theorem assign (s : Store) (id : ScopeId) (name : String) (v : Value) :
    s.Keeps owned (s.assign id name v).2 :=
  ⟨Nat.le_of_eq (size_assign s id name v).symm, fun j _ _ => .assign s id name v j⟩

/-- A name is declared in a scope that is given. -/
theorem define (s : Store) {id : ScopeId} (hid : id ∈ owned) (b : Binding) :
    s.Keeps owned (s.define id b).2 := by
  refine ⟨Nat.le_of_eq (size_define s id b).symm, fun j _ hout => ?_⟩
  have hj : j ≠ id := by
    rintro rfl
    exact hout hid
  exact .define_of_ne b hj

/-- What is declared in a scope that has just been opened is declared in none from before. -/
theorem of_opened {kind : ScopeKind} {parent : ScopeId}
    (h : (s.openScope kind parent).2.Keeps (insert s.scopes.size owned) t) : s.Keeps owned t := by
  have hsize := h.size_le
  rw [size_openScope] at hsize
  refine ⟨by omega, fun id hid hout => ?_⟩
  -- a scope from before is still stored, and is not the new one
  have hid' : id < (s.openScope kind parent).2.scopes.size := by
    rw [size_openScope]
    omega
  have hout' : id ∉ insert s.scopes.size owned := by
    rintro (rfl | hin)
    · exact Nat.lt_irrefl _ hid
    · exact hout hin
  exact (SameNames.openScope kind parent hid).trans (h.sameNames id hid' hout')

end Keeps

/-- The scopes `s` have become `t`, and of those from before only `owner` has more names than it
had: these, declared after those that it declared, and bound by its map. -/
structure Adds (owner : ScopeId) (names : List String) (s t : Store) : Prop
    extends Keeps {owner} s t where
  /-- The scope declares the names in addition. -/
  declared : owner < s.scopes.size → t.declared owner = s.declared owner ++ names
  /-- Its map binds them in addition. -/
  keys : owner < s.scopes.size → (t.keys owner).Perm (s.keys owner ++ names)

namespace Adds

variable {owner : ScopeId} {names more : List String}

/-- Where the names of all scopes are kept, none is added to any. -/
theorem nil (h : s.Keeps ∅ t) (owner : ScopeId) : s.Adds owner [] t := by
  refine ⟨h.mono (Set.empty_subset _), fun hlt => ?_, fun hlt => ?_⟩
  · rw [(h.sameNames owner hlt (Set.notMem_empty owner)).declared, List.append_nil]
  · rw [(h.sameNames owner hlt (Set.notMem_empty owner)).keys, List.append_nil]

theorem trans (h : s.Adds owner names t) (h' : t.Adds owner more u) :
    s.Adds owner (names ++ more) u := by
  have hlt' (hlt : owner < s.scopes.size) : owner < t.scopes.size :=
    Nat.lt_of_lt_of_le hlt h.size_le
  refine ⟨h.toKeeps.trans h'.toKeeps, fun hlt => ?_, fun hlt => ?_⟩
  · rw [h'.declared (hlt' hlt), h.declared hlt, List.append_assoc]
  · rw [← List.append_assoc]
    exact (h'.keys (hlt' hlt)).trans ((h.keys hlt).append_right more)

/-- A definition that is not refused adds its name to the scope that it is made in. -/
theorem define {b : Binding} (hfresh : s.has owner b.name = false) :
    s.Adds owner [b.name] (s.define owner b).2 := by
  refine ⟨.define s (Set.mem_singleton owner) b, fun hlt => ?_, fun hlt => ?_⟩
  · obtain ⟨scope, hs⟩ := scope?_eq_some hlt
    rw [declared_of_scope? (scope?_define_self hs hfresh), declared_of_scope? hs, Scope.bind_order]
  · obtain ⟨scope, hs⟩ := scope?_eq_some hlt
    rw [keys_of_scope? (scope?_define_self hs hfresh), keys_of_scope? hs, Scope.bind_keys]
    exact (List.perm_append_singleton b.name scope.keys).symm

end Adds

end TagScript.Store
