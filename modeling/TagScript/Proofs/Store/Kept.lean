import TagScript.Proofs.Store.Extends
import TagScript.Proofs.Store.Formed
import TagScript.Proofs.Store.Resolution

/-!
# Bindings That Nobody Assigns To

Scopes are shared: a function keeps the scope that it was declared in, and whoever calls it may
assign to the names that are bound there. A binding is safe from this if all that can ever run
inside its scope has no assignment to its name. What can run there is the code at hand and the
bodies of the functions that some stored value holds; where they run is told by the scopes that
they were declared in.

`Cell.Kept` says that a binding is as it was and that no stored function can change it. Opening
scopes and definitions keep it so, and so does every assignment that finds its name elsewhere.
-/

namespace TagScript

section Assignments

variable (x : String)

mutual

/-- Whether an expression has an assignment to the name `x` in it. -/
def Expr.assigns : Expr → Bool
  | .int .. | .float .. | .string .. | .bool .. | .null _ | .name .. => false
  | .array _ items => assignsAny items
  | .assign _ y value => y == x || value.assigns
  | .call _ callee args => callee.assigns || assignsAny args
  | .binary _ left _ right => left.assigns || right.assigns
  | .unary _ _ right => right.assigns
  | .step _ left _ => left.assigns

/-- Whether one of some expressions has an assignment to the name `x` in it. -/
def Expr.assignsAny : List Expr → Bool
  | [] => false
  | e :: rest => e.assigns || assignsAny rest

end

mutual

/-- Whether a statement has an assignment to the name `x` in it, at any depth and also in the bodies
of functions. The cursor of a loop moves without an assignment. -/
def Stmt.assigns : Stmt → Bool
  | .declare _ _ _ _ value => value.assigns x
  | .function _ _ _ _ body => assignsAny body
  | .ret _ none => false
  | .ret _ (some value) => value.assigns x
  | .expr _ value => value.assigns x
  | .branch _ condition yes none => condition.assigns x || assignsAny yes
  | .branch _ condition yes (some no) => condition.assigns x || assignsAny yes || assignsAny no
  | .loop _ _ range body => range.assigns x || assignsAny body

/-- Whether one of some statements has an assignment to the name `x` in it. -/
def Stmt.assignsAny : List Stmt → Bool
  | [] => false
  | s :: rest => s.assigns || assignsAny rest

end

end Assignments

namespace Value

/-- A value is a declared function or has it among its items, at any depth. -/
inductive Holds : Value → Closure → Prop
  | function (f : Closure) : Holds (.function f) f
  | item {elem : Tag} {items : List Value} {v : Value} {f : Closure} :
      v ∈ items → Holds v f → Holds (.array elem items) f

/-- The functions in a well-formed value were declared in stored scopes. -/
theorem Formed.scope_lt {n : Nat} {v : Value} {f : Closure} (h : v.Formed n) (hf : v.Holds f) :
    f.scope < n := by
  induction hf with
  | function f =>
    cases h with
    | function _ hscope => exact hscope
  | item hv _ ih =>
    cases h with
    | array _ _ hitems => exact ih (hitems _ hv)

end Value

namespace Store

variable {s t : Store}

/-- The way outward goes to scopes that were opened earlier. -/
theorem le_of_mem_path {id j : ScopeId} (h : j ∈ s.path id) : j ≤ id := by
  fun_induction path s id with
  | case1 id p hlt _ ih =>
    obtain rfl | h := List.mem_cons.mp h
    · exact Nat.le_refl _
    · exact Nat.le_of_lt (Nat.lt_of_le_of_lt (ih h) hlt)
  | case2 id _ => exact Nat.le_of_eq (List.mem_singleton.mp h)

/-- The scope whose binding is seen lies on the way up. -/
theorem Sees.mem_path {name : String} {id owner : ScopeId} (h : s.Sees name id owner) :
    owner ∈ s.path id := by
  obtain ⟨below, above, hpath, -⟩ := h
  rw [hpath]
  exact List.mem_append_right below List.mem_cons_self

/-- A stored scope stays where it is. -/
theorem Extends.parent? (h : s.Extends t) {id : ScopeId} (hid : id < s.scopes.size) :
    t.parent? id = s.parent? id := by
  obtain ⟨scope, hs⟩ := scope?_eq_some hid
  obtain ⟨scope', ht, hscope⟩ := h id scope hs
  refine parent?_congr ?_
  rw [hs, ht, Option.map_some, Option.map_some, hscope.parent]

/-- The way up from a stored scope stays the same. -/
theorem Extends.path_eq (h : s.Extends t) {id : ScopeId} (hid : id < s.scopes.size) :
    t.path id = s.path id := by
  fun_induction path s id with
  | case1 id p hlt hp ih =>
    rw [path_of_parent ((h.parent? hid).trans hp), ih (Nat.lt_trans hlt hid)]
  | case2 id hp => exact path_of_root ((h.parent? hid).trans hp)

/-- A name that is bound stays bound. -/
theorem Extends.find?_ne_none (h : s.Extends t) {id : ScopeId} {x : String}
    (hx : s.find? id x ≠ none) : t.find? id x ≠ none := by
  obtain ⟨b, hb⟩ := Option.ne_none_iff_exists'.mp hx
  obtain ⟨c, hc, -⟩ := h.find? hb
  rw [hc]
  exact Option.some_ne_none c

/-- What a scope finds it finds after any definition. -/
theorem find?_define_of_some {owner id : ScopeId} {x : String} {b d : Binding}
    (h : s.find? owner x = some b) : (s.define id d).2.find? owner x = some b := by
  obtain ⟨-, hd⟩ | ⟨hfresh, hd⟩ := define_cases s id d
  · rw [hd]
    exact h
  have hlt : id < s.scopes.size ∨ s.scope? id = none := by
    cases hs : s.scope? id with
    | none => exact .inr rfl
    | some scope => exact .inl (scope?_lt hs)
  obtain hlt | hnone := hlt
  · -- the name that is defined is another one, since the scope did not bind it
    rw [hd, (sets_define d hlt).others owner x]
    · exact h
    · rintro ⟨rfl, rfl⟩
      rw [(has_iff_find? s owner d.name).mpr (by rw [h]; exact Option.some_ne_none b)] at hfresh
      cases hfresh
  · rw [hd, find?, scope?_bind]
    split
    next hid =>
      rw [find?, ← hid, hnone] at h
      cases h
    next => exact h

/-- After a definition the scope binds the name, by it or from before. -/
theorem find?_define_ne_none {id : ScopeId} (hid : id < s.scopes.size) (d : Binding) :
    (s.define id d).2.find? id d.name ≠ none := by
  cases hfind : s.find? id d.name with
  | some b =>
    rw [find?_define_of_some hfind]
    exact Option.some_ne_none b
  | none =>
    rw [define_of_true s ((define_eq_true_iff s id d).mpr hfind)]
    rw [(sets_define d hid).found]
    exact Option.some_ne_none d

end Store

/-- A place for a binding: a scope and a name. -/
structure Cell where
  /-- The scope. -/
  owner : ScopeId
  /-- The name. -/
  name : String

namespace Cell

variable {cell : Cell} {s t : Store} {scope : ScopeId} {b : Binding}

/-- Code that is run in a stored scope cannot change the cell by assignments: if the scope lies
inside the one of the cell, the code assigns nothing to the name. -/
def Spared (cell : Cell) (s : Store) (scope : ScopeId) (assigns : Bool) : Prop :=
  scope < s.scopes.size ∧ (cell.owner ∈ s.path scope → assigns = false)

/-- No function in a value can change the cell. -/
def SparedBy (cell : Cell) (s : Store) (v : Value) : Prop :=
  ∀ f, v.Holds f → cell.Spared s f.scope (Stmt.assignsAny cell.name f.body)

/-- No stored function can change the cell. -/
def SparedByAll (cell : Cell) (s : Store) : Prop :=
  ∀ id holder d, s.scope? id = some holder → d ∈ holder.values → cell.SparedBy s d.value

/-- The cell holds the binding `b`, and no stored function can change it. -/
structure Kept (cell : Cell) (b : Binding) (s : Store) : Prop where
  /-- The cell holds the binding. -/
  found : s.find? cell.owner cell.name = some b
  /-- No stored function can change it. -/
  stored : cell.SparedByAll s

section Spared

variable {a a' : Bool}

/-- Code that spares a cell still does so when scopes are opened and names bound. -/
theorem Spared.mono (h : cell.Spared s scope a) (hst : s.Extends t) : cell.Spared t scope a := by
  refine ⟨Nat.lt_of_lt_of_le h.1 hst.size_le, ?_⟩
  rw [hst.path_eq h.1]
  exact h.2

/-- Where two pieces of code spare the cell, the first one does. -/
theorem Spared.left (h : cell.Spared s scope (a || a')) : cell.Spared s scope a :=
  ⟨h.1, fun hmem => (Bool.or_eq_false_iff.mp (h.2 hmem)).1⟩

/-- Where two pieces of code spare the cell, the second one does. -/
theorem Spared.right (h : cell.Spared s scope (a || a')) : cell.Spared s scope a' :=
  ⟨h.1, fun hmem => (Bool.or_eq_false_iff.mp (h.2 hmem)).2⟩

/-- A scope that is opened inside another one lies inside the same scopes, and inside itself. -/
theorem Spared.openScope (h : cell.Spared s scope a) (hcell : cell.owner < s.scopes.size)
    (kind : ScopeKind) : cell.Spared (s.openScope kind scope).2 s.scopes.size a := by
  refine ⟨by simp, fun hmem => h.2 ?_⟩
  rw [Store.path_of_parent (Store.parent?_openScope kind h.1), List.mem_cons] at hmem
  obtain heq | hmem := hmem
  · exact absurd heq (Nat.ne_of_lt hcell)
  · rw [← (Store.Extends.openScope s kind scope).path_eq h.1]
    exact hmem

/-- A value that spares a cell still does so when scopes are opened and names bound. -/
theorem SparedBy.mono {v : Value} (h : cell.SparedBy s v) (hst : s.Extends t) :
    cell.SparedBy t v :=
  fun f hf => (h f hf).mono hst

/-- A value without functions in it, such as a well-formed one among no scopes. -/
theorem sparedBy_of_formed {v : Value} (h : v.Formed 0) : cell.SparedBy s v :=
  fun _ hf => absurd (h.scope_lt hf) (Nat.not_lt_zero _)

/-- The functions in an array are those in its items. -/
theorem sparedBy_array {elem : Tag} {items : List Value} (h : ∀ v ∈ items, cell.SparedBy s v) :
    cell.SparedBy s (.array elem items) := by
  intro f hf
  cases hf with
  | item hv hf => exact h _ hv f hf

/-- A function spares the cell if its body does. -/
theorem sparedBy_function {f : Closure}
    (h : cell.Spared s f.scope (Stmt.assignsAny cell.name f.body)) :
    cell.SparedBy s (.function f) := by
  intro g hg
  cases hg
  exact h

end Spared

namespace SparedByAll

/-- A new scope is empty. -/
theorem openScope (h : cell.SparedByAll s) (kind : ScopeKind) (parent : ScopeId) :
    cell.SparedByAll (s.openScope kind parent).2 := by
  intro id holder d hs hd
  rw [Store.scope?_openScope] at hs
  split at hs
  next =>
    cases hs
    cases hd
  next => exact (h id holder d hs hd).mono (.openScope s kind parent)

/-- A binding may be added if its value spares the cell. -/
theorem define (h : cell.SparedByAll s) (id : ScopeId) {d : Binding}
    (hd : cell.SparedBy s d.value) : cell.SparedByAll (s.define id d).2 := by
  intro j holder c hs hc
  refine SparedBy.mono ?_ (.define s id d)
  obtain hold | ⟨old, hold, rfl, -⟩ := Store.scope?_define hs
  · exact h j holder c hold hc
  · obtain rfl | hc := List.mem_cons.mp hc
    · exact hd
    · exact h j old c hold hc

/-- A value may be assigned if it spares the cell. -/
theorem assign (h : cell.SparedByAll s) (scope : ScopeId) (x : String)
    {v : Value} (hv : cell.SparedBy s v) : cell.SparedByAll (s.assign scope x v).2 := by
  intro j holder c hs hc
  refine SparedBy.mono ?_ (.assign s scope x v)
  obtain hold | ⟨old, d, hold, rfl, -⟩ := Store.scope?_assign hs
  · exact h j holder c hold hc
  · -- a binding has the value from before or the assigned one
    obtain ⟨c', hc', rfl⟩ := List.mem_map.mp hc
    split
    · exact hv
    · exact h j old c' hold hc'

/-- Each stored function was declared in a scope from before, so none lies inside a scope that is
opened now. -/
theorem of_fresh (hs : s.Formed) (name : String) : SparedByAll ⟨s.scopes.size, name⟩ s := by
  intro id holder d hholder hd f hf
  have hlt := (hs.binding id holder d hholder hd).2.scope_lt hf
  exact ⟨hlt, fun hmem => absurd (Store.le_of_mem_path hmem) (Nat.not_le.mpr hlt)⟩

end SparedByAll

namespace Kept

/-- The scope of a cell that holds a binding is a stored one. -/
theorem owner_lt (h : cell.Kept b s) : cell.owner < s.scopes.size := by
  obtain ⟨holder, hs, -⟩ := Option.bind_eq_some_iff.mp h.found
  exact Store.scope?_lt hs

/-- What a name resolves to holds no function that can change the cell. -/
theorem sparedBy_of_resolve? (h : cell.Kept b s) {x : String} {d : Binding}
    (hd : s.resolve? scope x = some d) : cell.SparedBy s d.value := by
  obtain ⟨owner, holder, hs, hfind⟩ := Store.resolve?_mem hd
  exact h.stored owner holder d hs (Scope.mem_of_find? hfind).1

theorem openScope (h : cell.Kept b s) (kind : ScopeKind) (parent : ScopeId) :
    cell.Kept b (s.openScope kind parent).2 where
  found := by
    rw [Store.find?_openScope, if_neg (Nat.ne_of_lt h.owner_lt)]
    exact h.found
  stored := h.stored.openScope kind parent

theorem define (h : cell.Kept b s) (id : ScopeId) {d : Binding} (hd : cell.SparedBy s d.value) :
    cell.Kept b (s.define id d).2 where
  found := Store.find?_define_of_some h.found
  stored := h.stored.define id hd

/-- An assignment that finds its name in another scope, or assigns to another name. -/
theorem assign (h : cell.Kept b s) {x : String} {v : Value} (hv : cell.SparedBy s v)
    (helsewhere : ∀ d, s.lookup? scope x = some (cell.owner, d) → x ≠ cell.name) :
    cell.Kept b (s.assign scope x v).2 where
  found := by
    obtain ⟨-, ha⟩ | ⟨owner, d, hl, -, -, ha⟩ := Store.assign_cases s scope x v
    · rw [ha]
      exact h.found
    · obtain ⟨-, hfind⟩ := Store.lookup?_eq_some_iff.mp hl
      rw [ha, (Store.sets_assign v hfind).others]
      · exact h.found
      · rintro ⟨rfl, hname⟩
        obtain ⟨holder, -, hd⟩ := Store.lookup?_mem hl
        exact helsewhere d hl ((Scope.mem_of_find? hd).2.symm.trans hname.symm)
  stored := h.stored.assign scope x hv

/-- An assignment in code that cannot change the cell. -/
theorem assign_of_spared (h : cell.Kept b s) {x : String} {v : Value} (hv : cell.SparedBy s v)
    (hx : cell.Spared s scope (x == cell.name)) : cell.Kept b (s.assign scope x v).2 := by
  refine h.assign hv fun d hl => ?_
  obtain ⟨hsees, -⟩ := Store.lookup?_eq_some_iff.mp hl
  exact beq_eq_false_iff_ne.mp (hx.2 hsees.mem_path)

/-- An assignment to a name that the scope itself binds. -/
theorem assign_own (h : cell.Kept b s) {x : String} {v : Value} (hv : cell.SparedBy s v)
    (hne : scope ≠ cell.owner) (hfind : s.find? scope x ≠ none) :
    cell.Kept b (s.assign scope x v).2 := by
  obtain ⟨d, hd⟩ := Option.ne_none_iff_exists'.mp hfind
  refine h.assign hv fun d' hl => ?_
  rw [Store.lookup?_eq_some_iff.mpr ⟨.refl s x scope, hd⟩] at hl
  exact absurd (congrArg Prod.fst (Option.some.inj hl)) hne

/-- An assignment to the cell itself. -/
theorem assign_self (h : cell.Kept b s) {v : Value} (hv : cell.SparedBy s v)
    (htag : v.tag = b.tag) (hmutable : b.mutable = true) :
    cell.Kept { b with value := v } (s.assign cell.owner cell.name v).2 where
  found := by
    obtain ⟨owner, x⟩ := cell
    have hl := Store.lookup?_eq_some_iff.mpr ⟨Store.Sees.refl s x owner, h.found⟩
    obtain ⟨holder, -, hb⟩ := Store.lookup?_mem hl
    obtain rfl : b.name = x := (Scope.mem_of_find? hb).2
    have ha : s.assign owner b.name v = (.ok, ⟨s.scopes.modify owner (·.write b.name v)⟩) := by
      simp [Store.assign, hl, htag, hmutable]
    rw [ha]
    exact (Store.sets_assign v h.found).found
  stored := h.stored.assign cell.owner cell.name hv

end Kept

/-- A binding in a scope that was just opened. -/
theorem kept_fresh (hs : s.Formed) (kind : ScopeKind) (parent : ScopeId) (d : Binding)
    (hd : d.value.Formed 0) :
    Kept ⟨s.scopes.size, d.name⟩ d ((s.openScope kind parent).2.define s.scopes.size d).2 where
  found := by
    have hlt : s.scopes.size < (s.openScope kind parent).2.scopes.size := by simp
    have hnone : (s.openScope kind parent).2.find? s.scopes.size d.name = none := by
      rw [Store.find?_openScope, if_pos rfl]
    rw [Store.define_of_true _ ((Store.define_eq_true_iff _ _ d).mpr hnone)]
    exact (Store.sets_define d hlt).found
  stored := ((SparedByAll.of_fresh hs d.name).openScope kind parent).define _
    (sparedBy_of_formed hd)

end Cell

end TagScript
