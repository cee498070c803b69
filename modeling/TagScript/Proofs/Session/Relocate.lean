import TagScript.Proofs.Store.Relocate
import TagScript.Session

/-!
# What a Session Shows at Other Places

A session can be looked into: at the names of its outermost scope and at what they are bound to.
Where the scopes of one session are those of another at other places (`Session.Relocated`), both
show the same, up to the places that the values tell.
-/

namespace TagScript

/-- What shows of a binding: the name, the tag, whether it may be assigned to, and the value. -/
def Binding.summary (b : Binding) : String × Tag × Bool × String :=
  (b.name, b.tag, b.mutable, b.value.shown)

/-- No place shows of a binding. -/
theorem Binding.summary_relocate (r : Relocation) (b : Binding) :
    (b.relocate r).summary = b.summary := by
  simp [summary, relocate]

namespace Session

/-- The scopes of the session `t` are those of `s` after the relocation. -/
structure Relocated (r : Relocation) (s t : Session) : Prop where
  /-- The outermost scope is the same one, under its new number. -/
  global : t.global = r.scope s.global
  /-- The scopes are the same. -/
  store : t.machine.store = s.machine.store.relocate r

namespace Relocated

variable {r : Relocation} {s t : Session} (h : Relocated r s t)
include h

/-- The names of the outermost scope, in any order. -/
theorem names_eq : t.names = s.names := by
  rw [names, names, h.global, h.store, Store.names_relocate]

/-- The declared names, in the order of declaration. -/
theorem globalNames_eq : t.globalNames = s.globalNames := by
  rw [globalNames, globalNames, h.global, h.store, Store.declared_relocate]

/-- A name of the outermost scope has the same binding, at its new place. -/
theorem global?_eq (name : String) :
    t.global? name = (s.global? name).map (Binding.relocate r) := by
  rw [global?, global?, h.global, h.store, Store.resolve?_relocate]

/-- The map of the outermost scope has the same bindings, at their new places. -/
theorem globalsSnapshot_eq : t.globalsSnapshot = s.globalsSnapshot.map (Binding.relocate r) := by
  rw [globalsSnapshot, globalsSnapshot, h.global, h.store, Store.snapshot_relocate, List.filter_map]
  rfl

/-- The names are bound to the same values, up to places. -/
theorem globals_eq : t.globals = s.globals.map (Binding.relocate r) := by
  rw [globals, globals, h.globalNames_eq, h.globalsSnapshot_eq, List.map_filterMap]
  congr 1
  funext name
  rw [List.find?_map]
  rfl

/-- What shows of the bindings is the same. -/
theorem summaries_eq : t.globals.map Binding.summary = s.globals.map Binding.summary := by
  rw [h.globals_eq, List.map_map]
  exact List.map_congr_left fun b _ => b.summary_relocate r

/-- Nothing that is said about the bindings in the map tells their places. -/
theorem snapshot_summaries_eq :
    t.globalsSnapshot.map Binding.summary = s.globalsSnapshot.map Binding.summary := by
  rw [h.globalsSnapshot_eq, List.map_map]
  exact List.map_congr_left fun b _ => b.summary_relocate r

/-- A function stays a function, wherever it was declared. -/
theorem functionNames_eq : t.functionNames = s.functionNames := by
  rw [functionNames, functionNames, h.names_eq]
  refine List.filter_congr fun name _ => ?_
  rw [h.global?_eq]
  cases s.global? name with
  | none => rfl
  | some b =>
    obtain ⟨x, v, tag, mutable⟩ := b
    cases v <;> rfl

end Relocated

end Session

end TagScript
