import TagScript.Proofs.Store.Resolution
import TagScript.Proofs.Text.Order

/-!
# Scopes List Their Names

A scope can be looked into in several ways: the declared names are read off the order of
declaration, the names in ascending order and the bindings off the map. Where the order and the map
of every scope are consistent, they all tell of the names that are found in the scope, each once
(`Consistent.lists`).
-/

namespace TagScript

/-- The names are sorted, and none is lost or made up. -/
theorem sortedNames_perm (names : List String) : (sortedNames names).Perm names :=
  List.mergeSort_perm _ _

/-- Different names in ascending order, by their bytes. -/
theorem sortedNames_pairwise {names : List String} (h : names.Nodup) :
    (sortedNames names).Pairwise fun x y => Bytes.ofString x < Bytes.ofString y := by
  have hsorted : (sortedNames names).Pairwise fun x y => (!decide (y < x)) = true := by
    refine List.pairwise_mergeSort (fun x y z hxy hyz => ?_) (fun x y => ?_) names
    · simp only [Bool.not_eq_true', decide_eq_false_iff_not, not_lt] at hxy hyz ⊢
      exact hxy.trans hyz
    · simp only [Bool.or_eq_true, Bool.not_eq_true', decide_eq_false_iff_not, not_lt]
      exact le_total x y
  -- ascending and different, so strictly ascending
  have hconsistent : (sortedNames names).Nodup := (sortedNames_perm names).nodup_iff.mpr h
  refine hsorted.imp₂ (fun x y hle hne => ?_) hconsistent
  simp only [Bool.not_eq_true', decide_eq_false_iff_not, not_lt] at hle
  exact Bytes.ofString_lt_ofString (lt_of_le_of_ne hle hne)

/-- Names under which bindings of these names are found are the names of what is found. -/
theorem Binding.map_name_filterMap {find : String → Option Binding} {names : List String}
    (hname : ∀ x b, find x = some b → b.name = x) (h : ∀ x ∈ names, find x ≠ none) :
    (names.filterMap find).map Binding.name = names := by
  induction names with
  | nil => rfl
  | cons x names ih =>
    rw [List.forall_mem_cons] at h
    obtain ⟨b, hb⟩ := Option.ne_none_iff_exists'.mp h.1
    rw [List.filterMap_cons, hb, List.map_cons, hname x b hb, ih h.2]

namespace Store

variable {s : Store} {id : ScopeId} {x : String}

/-- The names that the map of a scope binds are those that are found in it. -/
theorem mem_keys_iff : x ∈ s.keys id ↔ s.find? id x ≠ none := by
  rw [← has_iff_find?, has, keys]
  cases s.scope? id with
  | none => simp
  | some scope => exact (scope.has_iff x).symm

/-- The names of a scope are those that it binds. -/
theorem mem_names_iff : x ∈ s.names id ↔ s.find? id x ≠ none := by
  rw [← mem_keys_iff]
  exact (sortedNames_perm _).mem_iff

/-- No name is declared twice in a scope. -/
theorem Consistent.nodup_declared (h : s.Consistent) (id : ScopeId) : (s.declared id).Nodup := by
  unfold declared
  cases hs : s.scope? id with
  | none => exact List.nodup_nil
  | some scope => exact (h id scope hs).nodup

/-- Where the scopes are consistent, the map of a scope binds the declared names, each once. -/
theorem Consistent.keys_perm (h : s.Consistent) (id : ScopeId) :
    (s.keys id).Perm (s.declared id) := by
  unfold keys declared
  cases hs : s.scope? id with
  | none => exact .nil
  | some scope => exact (h id scope hs).perm

/-- Where the scopes are consistent, a scope declares the names that are found in it. -/
theorem Consistent.mem_declared_iff (h : s.Consistent) :
    x ∈ s.declared id ↔ s.find? id x ≠ none := by
  rw [← mem_keys_iff, (h.keys_perm id).mem_iff]

/-- What is found under a name has this name. -/
theorem name_of_find? {b : Binding} (h : s.find? id x = some b) : b.name = x := by
  obtain ⟨scope, -, hfind⟩ := Option.bind_eq_some_iff.mp h
  exact (Scope.mem_of_find? hfind).2


/-- What a scope lists, in each of the ways to look into it. -/
structure Lists (s : Store) (id : ScopeId) : Prop where
  /-- No name is declared twice. -/
  nodup : (s.declared id).Nodup
  /-- The declared names are those that the map binds. -/
  keys : (s.keys id).Perm (s.declared id)
  /-- They are those under which a binding is found. -/
  mem_iff : ∀ x, x ∈ s.declared id ↔ s.find? id x ≠ none
  /-- The ascending names are the declared ones. -/
  perm : (s.names id).Perm (s.declared id)
  /-- They ascend strictly, by their bytes. -/
  ascending : (s.names id).Pairwise fun x y => Bytes.ofString x < Bytes.ofString y
  /-- The bindings are listed under these names. -/
  snapshot : (s.snapshot id).map Binding.name = s.names id

/-- Where the scopes are consistent, every scope lists its names. -/
theorem Consistent.lists (h : s.Consistent) (id : ScopeId) : s.Lists id where
  nodup := h.nodup_declared id
  keys := h.keys_perm id
  mem_iff _ := h.mem_declared_iff
  perm := (sortedNames_perm _).trans (h.keys_perm id)
  ascending := sortedNames_pairwise ((h.keys_perm id).nodup_iff.mpr (h.nodup_declared id))
  snapshot := Binding.map_name_filterMap (fun _ _ => name_of_find?) fun _ => mem_names_iff.mp

end Store

end TagScript
