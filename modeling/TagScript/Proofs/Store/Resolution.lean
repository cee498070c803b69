import TagScript.Proofs.Store.Basic

/-!
# Scopes Are Nested Maps

A name resolves to its binding in the nearest scope that binds it, on the way from a scope outward
(`resolve?_eq_findSome?`). The scopes form a tree, and several scopes share what is around them, so
a change of one scope shows in others: in those from which the way outward comes to it before it
comes to another scope that binds the name (`Store.Sees`). `nested_maps` says what each operation
changes and that it changes nothing else, for scopes that were built in any way:

* a new scope resolves every name as the scope around it;
* a definition is seen as the new binding from the scopes that see its scope, and is refused where
  the scope binds the name already;
* an assignment gives a new value to the binding that the name resolves to, as seen from every
  scope that sees it, or is refused.

A definition and an assignment both change what one scope finds under one name. What this changes
is said once for both (`Store.Sets`).
-/

namespace TagScript

namespace Store

/-- Scopes that come about by opening scopes, inside of others or of none, by definitions and by
assignments. -/
inductive Built : Store → Prop
  | empty : Built .empty
  | root {s : Store} (kind : ScopeKind) : Built s → Built (s.push (.empty kind none)).2
  | openScope {s : Store} (kind : ScopeKind) {parent : ScopeId} :
      parent < s.scopes.size → Built s → Built (s.openScope kind parent).2
  | define {s : Store} (id : ScopeId) (b : Binding) : Built s → Built (s.define id b).2
  | assign {s : Store} (id : ScopeId) (name : String) (v : Value) :
      Built s → Built (s.assign id name v).2

/-- A scope lies inside a scope that was opened before it. -/
theorem Built.parent_lt {s : Store} (h : s.Built) {id p : ScopeId} {scope : Scope}
    (hs : s.scope? id = some scope) (hp : scope.parent = some p) : p < id := by
  induction h generalizing id p scope with
  | empty => exact absurd (scope?_lt hs) (Nat.not_lt_zero _)
  | root kind _ ih =>
    rw [scope?_push] at hs
    split at hs
    next =>
      cases hs
      cases hp
    next => exact ih hs hp
  | openScope kind hparent _ ih =>
    rw [scope?_openScope] at hs
    split at hs
    next hid =>
      cases hs
      cases hp
      rw [hid]
      exact hparent
    next => exact ih hs hp
  | define owner b _ ih =>
    obtain hold | ⟨old, hold, rfl, -⟩ := scope?_define hs
    · exact ih hold hp
    · exact ih hold hp
  | assign owner name v _ ih =>
    obtain hold | ⟨old, b, hold, rfl, -⟩ := scope?_assign hs
    · exact ih hold hp
    · exact ih hold hp

section Path

variable {s : Store}

/-- The way up from a scope goes on with the way up from its parent. -/
theorem path_of_parent {id p : ScopeId} {h : p < id} (hp : s.parent? id = some ⟨p, h⟩) :
    s.path id = id :: s.path p := by
  rw [path, hp]

/-- The way up from a scope without a parent is the scope. -/
theorem path_of_root {id : ScopeId} (hp : s.parent? id = none) : s.path id = [id] := by
  rw [path, hp]

/-- The way outward goes to the scope around a scope, and so on to a scope inside none. -/
theorem Built.path_eq (hs : s.Built) {id : ScopeId} {scope : Scope}
    (h : s.scope? id = some scope) : s.path id = id :: (scope.parent.map s.path).getD [] := by
  obtain ⟨kind, parent, values, order⟩ := scope
  cases parent with
  | none =>
    have hp : s.parent? id = none := by
      simp only [parent?, h]
    rw [path_of_root hp]
    rfl
  | some p =>
    have hlt := hs.parent_lt h rfl
    have hp : s.parent? id = some ⟨p, hlt⟩ := by
      simp only [parent?, h, hlt, dite_true]
    rw [path_of_parent hp]
    rfl

/-- The first scope that binds a name on the way outward. -/
theorem resolve?_eq_findSome? (s : Store) (id : ScopeId) (name : String) :
    s.resolve? id name = (s.path id).findSome? fun id => s.find? id name := by
  unfold resolve?
  fun_induction lookup? s id name with
  | case1 id b hfind =>
    cases hp : s.parent? id with
    | none => simp [path_of_root hp, hfind]
    | some p => simp [path_of_parent hp, hfind]
  | case2 id hfind p hlt hp ih => simp [path_of_parent hp, hfind, ih]
  | case3 id hfind hp => simp [path_of_root hp, hfind]

/-- There is no way outward from an outermost scope, so a name resolves there to what the scope
itself binds. -/
theorem resolve?_of_root {id : ScopeId} (hp : s.parent? id = none) (name : String) :
    s.resolve? id name = s.find? id name := by
  rw [resolve?_eq_findSome?, path_of_root hp, List.findSome?_singleton]

/-- On the way from the scope `id` outward is the scope `owner`, and no scope before it binds the
name. -/
def Sees (s : Store) (name : String) (id owner : ScopeId) : Prop :=
  ∃ below above, s.path id = below ++ owner :: above ∧ ∀ j ∈ below, s.find? j name = none

variable {name : String} {id owner : ScopeId}

/-- A scope sees its own binding. -/
theorem Sees.refl (s : Store) (name : String) (id : ScopeId) : s.Sees name id id := by
  cases hp : s.parent? id with
  | none => exact ⟨[], [], path_of_root hp, by simp⟩
  | some p => exact ⟨[], s.path p, path_of_parent hp, by simp⟩

/-- A scope that does not bind a name sees what its parent sees. -/
theorem Sees.outward {p : ScopeId} {h : p < id} (hp : s.parent? id = some ⟨p, h⟩)
    (hfind : s.find? id name = none) (hsees : s.Sees name p owner) : s.Sees name id owner := by
  obtain ⟨below, above, hpath, hbelow⟩ := hsees
  refine ⟨id :: below, above, by rw [path_of_parent hp, hpath, List.cons_append], ?_⟩
  intro j hj
  obtain rfl | hj := List.mem_cons.mp hj
  · exact hfind
  · exact hbelow j hj

/-- The scope itself comes first, and then the way goes on from the scope around it. -/
theorem Sees.cases (hsees : s.Sees name id owner) :
    owner = id ∨ ∃ p h, s.parent? id = some ⟨p, h⟩ ∧ s.find? id name = none ∧
      s.Sees name p owner := by
  obtain ⟨below, above, hpath, hbelow⟩ := hsees
  cases below with
  | nil =>
    left
    cases hp : s.parent? id with
    | none =>
      rw [path_of_root hp] at hpath
      exact (List.cons.inj hpath).1.symm
    | some p =>
      rw [path_of_parent hp] at hpath
      exact (List.cons.inj hpath).1.symm
  | cons j below =>
    cases hp : s.parent? id with
    | none =>
      rw [path_of_root hp] at hpath
      simp at hpath
    | some p =>
      rw [path_of_parent hp, List.cons_append] at hpath
      obtain ⟨rfl, hrest⟩ := List.cons.inj hpath
      refine .inr ⟨p, p.2, rfl, hbelow id (by simp), below, above, hrest, fun j hj => ?_⟩
      exact hbelow j (List.mem_cons_of_mem _ hj)

/-- A name is looked up in the scope that is seen and binds it. -/
theorem lookup?_eq_some_iff {b : Binding} :
    s.lookup? id name = some (owner, b) ↔ s.Sees name id owner ∧ s.find? owner name = some b := by
  fun_induction lookup? s id name with
  | case1 id c hfind =>
    constructor
    · rintro ⟨⟩
      exact ⟨.refl s name _, hfind⟩
    · rintro ⟨hsees, hb⟩
      obtain rfl | ⟨p, h, -, hnone, -⟩ := hsees.cases
      · rw [Option.some.inj (hfind.symm.trans hb)]
      · rw [hfind] at hnone
        cases hnone
  | case2 id hfind p hlt hp ih =>
    rw [ih]
    refine and_congr_left fun hb => ⟨fun h => h.outward hp hfind, fun h => ?_⟩
    obtain rfl | ⟨q, hq, hparent, -, hsees⟩ := h.cases
    · rw [hfind] at hb
      cases hb
    · obtain rfl : p = q := congrArg Subtype.val (Option.some.inj (hp.symm.trans hparent))
      exact hsees
  | case3 id hfind hp =>
    refine iff_of_false (by rintro ⟨⟩) ?_
    rintro ⟨hsees, hb⟩
    obtain rfl | ⟨q, hq, hparent, -⟩ := hsees.cases
    · rw [hfind] at hb
      cases hb
    · rw [hp] at hparent
      cases hparent

/-- A name resolves to the binding in the scope that is seen. -/
theorem resolve?_eq_some_iff {b : Binding} :
    s.resolve? id name = some b ↔ ∃ owner, s.Sees name id owner ∧ s.find? owner name = some b := by
  unfold resolve?
  constructor
  · intro h
    obtain ⟨⟨owner, c⟩, hl, rfl⟩ := Option.map_eq_some_iff.mp h
    exact ⟨owner, lookup?_eq_some_iff.mp hl⟩
  · rintro ⟨owner, h⟩
    rw [lookup?_eq_some_iff.mpr h]
    rfl

end Path

/-- The scopes `s` have become `t`: the scope `owner` finds the binding `b` under its name, and
nothing else is different. -/
structure Sets (s t : Store) (owner : ScopeId) (b : Binding) : Prop where
  /-- The scopes lie inside each other as before. -/
  parent : ∀ id, t.parent? id = s.parent? id
  /-- The scope finds the binding under its name. -/
  found : t.find? owner b.name = some b
  /-- Everything else is found as before. -/
  others : ∀ id x, ¬(id = owner ∧ x = b.name) → t.find? id x = s.find? id x

namespace Sets

variable {s t : Store} {owner : ScopeId} {b : Binding}

/-- From where the scope is seen, the name resolves to the binding. -/
theorem resolve?_of_sees (h : s.Sets t owner b) (id : ScopeId) (hsees : s.Sees b.name id owner) :
    t.resolve? id b.name = some b := by
  refine resolve?_eq_some_iff.mpr ⟨owner, ?_, h.found⟩
  -- along the way outward; scopes before the owner bind the name as little as they did
  induction id using Nat.strongRecOn with
  | ind id ih =>
    obtain rfl | ⟨p, hlt, hp, hfind, hrest⟩ := hsees.cases
    · exact .refl t b.name _
    · by_cases hid : id = owner
      · rw [hid]
        exact .refl t b.name _
      · have hfind' : t.find? id b.name = none := by
          rw [h.others id b.name fun heq => hid heq.1, hfind]
        exact .outward ((h.parent id).trans hp) hfind' (ih p hlt hrest)

/-- From everywhere else, and under every other name, nothing has changed. -/
theorem resolve?_of_not_sees (h : s.Sets t owner b) {id : ScopeId} {x : String}
    (hsees : ¬(x = b.name ∧ s.Sees b.name id owner)) : t.resolve? id x = s.resolve? id x := by
  unfold resolve?
  fun_induction lookup? s id x with
  | case1 id c hfind =>
    have hother : ¬(id = owner ∧ x = b.name) := by
      rintro ⟨rfl, hx⟩
      exact hsees ⟨hx, .refl s b.name _⟩
    rw [lookup?, h.others id x hother, hfind]
  | case2 id hfind p hlt hp ih =>
    have hother : ¬(id = owner ∧ x = b.name) := by
      rintro ⟨rfl, hx⟩
      exact hsees ⟨hx, .refl s b.name _⟩
    rw [lookup?, h.others id x hother, hfind, h.parent id, hp]
    -- what is seen from the scope around is seen from here
    refine ih ?_
    rintro ⟨rfl, hrest⟩
    exact hsees ⟨rfl, hrest.outward hp hfind⟩
  | case3 id hfind hp =>
    have hother : ¬(id = owner ∧ x = b.name) := by
      rintro ⟨rfl, hx⟩
      exact hsees ⟨hx, .refl s b.name _⟩
    rw [lookup?, h.others id x hother, hfind, h.parent id, hp]

end Sets

section Operations

variable {s : Store}

/-- A name is bound in a scope if and only if it is found there. -/
theorem has_iff_find? (s : Store) (id : ScopeId) (name : String) :
    s.has id name = true ↔ s.find? id name ≠ none := by
  unfold has find?
  cases s.scope? id with
  | none => simp
  | some scope => simp [Scope.has, Scope.find?]

/-- The parent of a scope is read off the scope itself. -/
theorem parent?_congr {t : Store} {id : ScopeId}
    (h : (t.scope? id).map Scope.parent = (s.scope? id).map Scope.parent) :
    t.parent? id = s.parent? id := by
  unfold parent?
  cases hs : s.scope? id with
  | none =>
    rw [hs] at h
    rw [Option.map_eq_none_iff.mp h]
  | some scope =>
    rw [hs] at h
    obtain ⟨scope', ht, hparent⟩ := Option.map_eq_some_iff.mp h
    obtain ⟨kind, parent, values, order⟩ := scope
    obtain ⟨kind', parent', values', order'⟩ := scope'
    obtain rfl : parent' = parent := hparent
    rw [ht]
    cases parent' <;> rfl

/-- What a definition that is not refused changes. -/
theorem sets_define {e : ScopeId} (b : Binding) (he : e < s.scopes.size) :
    s.Sets ⟨s.scopes.modify e (·.bind b)⟩ e b where
  parent id := by
    refine parent?_congr ?_
    rw [scope?_bind]
    split
    · rw [Option.map_map]
      rfl
    · rfl
  found := by
    obtain ⟨scope, hs⟩ := scope?_eq_some he
    rw [find?, scope?_bind, if_pos rfl, hs]
    simp [Scope.find?_bind]
  others id x hother := by
    unfold find?
    rw [scope?_bind]
    split
    next hid =>
      -- the same scope, so the name is another one
      have hx : b.name ≠ x := fun hx => hother ⟨hid.symm, hx.symm⟩
      cases s.scope? id with
      | none => rfl
      | some scope => simp [Scope.find?_bind, hx]
    next => rfl

/-- What an assignment that is not refused changes. -/
theorem sets_assign {owner : ScopeId} {x : String} {b : Binding} (v : Value)
    (hfind : s.find? owner x = some b) :
    s.Sets ⟨s.scopes.modify owner (·.write x v)⟩ owner { b with value := v } := by
  obtain ⟨scope, hs, hb⟩ := Option.bind_eq_some_iff.mp hfind
  obtain rfl : b.name = x := (Scope.mem_of_find? hb).2
  refine ⟨fun id => parent?_congr ?_, ?_, fun id y hother => ?_⟩
  · rw [scope?_write]
    split
    · rw [Option.map_map]
      rfl
    · rfl
  · rw [find?, scope?_write, if_pos rfl, hs]
    simp [Scope.find?_write, hb]
  · unfold find?
    rw [scope?_write]
    split
    next hid =>
      have hy : y ≠ b.name := fun hy => hother ⟨hid.symm, hy⟩
      cases s.scope? id with
      | none => rfl
      | some scope => simp [Scope.find?_write, hy]
    next => rfl

/-- Nothing is bound in a new scope, and the others stay as they are. -/
theorem find?_openScope (kind : ScopeKind) (parent id : ScopeId) (x : String) :
    (s.openScope kind parent).2.find? id x =
      if id = s.scopes.size then none else s.find? id x := by
  rw [find?, scope?_openScope]
  split <;> rfl

/-- A new scope has the parent that it was opened in. -/
theorem parent?_openScope (kind : ScopeKind) {parent : ScopeId} (hp : parent < s.scopes.size) :
    (s.openScope kind parent).2.parent? s.scopes.size = some ⟨parent, hp⟩ := by
  simp only [parent?, scope?_openScope, if_pos, Scope.empty, hp, dite_true]

/-- The other scopes keep their parents. -/
theorem parent?_openScope_of_ne {kind : ScopeKind} {parent id : ScopeId}
    (hid : id ≠ s.scopes.size) : (s.openScope kind parent).2.parent? id = s.parent? id := by
  refine parent?_congr ?_
  rw [scope?_openScope, if_neg hid]

/-- Only a stored scope lies inside another one. -/
theorem lt_size_of_parent? {id : ScopeId} {p : { p : ScopeId // p < id }}
    (h : s.parent? id = some p) : id < s.scopes.size := by
  unfold parent? at h
  split at h
  next scope hs => exact scope?_lt hs
  next => cases h

/-- A new scope resolves names as the scope around it, and the other scopes as before. -/
theorem resolve?_openScope (kind : ScopeKind) {parent : ScopeId} (hp : parent < s.scopes.size)
    (id : ScopeId) (x : String) :
    (s.openScope kind parent).2.resolve? id x =
      if id = s.scopes.size then s.resolve? parent x else s.resolve? id x := by
  have hold {j : ScopeId} (hj : j ≠ s.scopes.size) :
      (s.openScope kind parent).2.lookup? j x = s.lookup? j x := by
    fun_induction lookup? s j x with
    | case1 j b hfind => rw [lookup?, find?_openScope, if_neg hj, hfind]
    | case2 j hfind p hlt hparent ih =>
      -- a scope that has one around it is stored, so the one around is an old one too
      have hp' : p ≠ s.scopes.size := Nat.ne_of_lt (Nat.lt_trans hlt (lt_size_of_parent? hparent))
      rw [lookup?, find?_openScope, if_neg hj, hfind, parent?_openScope_of_ne hj, hparent]
      exact ih hp'
    | case3 j hfind hparent =>
      rw [lookup?, find?_openScope, if_neg hj, hfind, parent?_openScope_of_ne hj, hparent]
  unfold resolve?
  split
  next hid =>
    subst hid
    rw [lookup?, find?_openScope, if_pos rfl, parent?_openScope kind hp]
    exact congrArg (Option.map Prod.snd) (hold (Nat.ne_of_lt hp))
  next hid => rw [hold hid]

end Operations

section Laws

variable (s : Store)

/-- A definition is accepted if and only if the scope does not bind the name. -/
theorem define_eq_true_iff (e : ScopeId) (b : Binding) :
    (s.define e b).1 = true ↔ s.find? e b.name = none := by
  have hhas := has_iff_find? s e b.name
  obtain ⟨hold, hd⟩ | ⟨hfresh, hd⟩ := define_cases s e b
  · rw [hd]
    exact iff_of_false Bool.false_ne_true (hhas.mp hold)
  · rw [hd]
    refine iff_of_true rfl (by_contra fun hne => ?_)
    rw [hhas.mpr hne] at hfresh
    cases hfresh

/-- A binding that is accepted is added to its scope. -/
theorem define_of_true {e : ScopeId} {b : Binding} (h : (s.define e b).1 = true) :
    (s.define e b).2 = ⟨s.scopes.modify e (·.bind b)⟩ := by
  obtain ⟨-, hd⟩ | ⟨-, hd⟩ := define_cases s e b
  · rw [hd] at h
    cases h
  · rw [hd]

/-- A binding that is refused changes nothing. -/
theorem define_of_false {e : ScopeId} {b : Binding} (h : (s.define e b).1 = false) :
    (s.define e b).2 = s := by
  obtain ⟨-, hd⟩ | ⟨-, hd⟩ := define_cases s e b
  · rw [hd]
  · rw [hd] at h
    cases h

/-- The result of an assignment, by what the name resolves to. -/
theorem assign_fst (e : ScopeId) (x : String) (v : Value) :
    (s.assign e x v).1 =
      match s.resolve? e x with
      | none => .undeclared
      | some b =>
        if v.tag ≠ b.tag then .typeMismatch else if !b.mutable then .immutable else .ok := by
  unfold assign resolve?
  cases s.lookup? e x with
  | none => rfl
  | some found =>
    dsimp only [Option.map_some]
    split
    · rfl
    · split <;> rfl

/-- The outcome of an assignment, by what the name resolves to. The tag is checked before the
binding is asked whether it may change. -/
theorem assign_outcomes (e : ScopeId) (x : String) (v : Value) :
    ((s.assign e x v).1 = .ok ↔
      ∃ b, s.resolve? e x = some b ∧ b.mutable = true ∧ b.tag = v.tag) ∧
    ((s.assign e x v).1 = .undeclared ↔ s.resolve? e x = none) ∧
    ((s.assign e x v).1 = .typeMismatch ↔ ∃ b, s.resolve? e x = some b ∧ b.tag ≠ v.tag) ∧
    ((s.assign e x v).1 = .immutable ↔
      ∃ b, s.resolve? e x = some b ∧ b.tag = v.tag ∧ b.mutable = false) := by
  rw [assign_fst]
  cases s.resolve? e x with
  | none => simp
  | some b =>
    by_cases htag : v.tag = b.tag
    · cases hm : b.mutable <;> simp [htag, hm]
    · have htag' : b.tag ≠ v.tag := fun h => htag h.symm
      simp [htag, htag']

/-- An assignment that succeeds sets the value of the binding that the name resolves to. -/
theorem sets_of_assign {e : ScopeId} {x : String} {v : Value} (h : (s.assign e x v).1 = .ok) :
    ∃ owner b, s.Sees x e owner ∧ s.find? owner x = some b ∧
      s.Sets (s.assign e x v).2 owner { b with value := v } := by
  obtain ⟨hne, -⟩ | ⟨owner, b, hl, -, -, ha⟩ := assign_cases s e x v
  · exact absurd h hne
  · obtain ⟨hsees, hfind⟩ := lookup?_eq_some_iff.mp hl
    refine ⟨owner, b, hsees, hfind, ?_⟩
    rw [ha]
    exact sets_assign v hfind

/-- An assignment that is refused changes nothing. -/
theorem assign_of_ne_ok {e : ScopeId} {x : String} {v : Value} (h : (s.assign e x v).1 ≠ .ok) :
    (s.assign e x v).2 = s := by
  obtain ⟨-, ha⟩ | ⟨owner, b, -, -, -, ha⟩ := assign_cases s e x v
  · exact ha
  · rw [ha] at h
    exact absurd rfl h

end Laws

/-- The scopes behave as nested maps, however they were built. The way from a scope outward goes
through the scopes around it, and a name resolves to its binding in the first of them that binds it.
A new scope adds nothing. A definition that is accepted is what its name resolves to wherever its
scope is seen, and one that is refused changes nothing. An assignment succeeds if and only if the
name resolves to a mutable binding with the tag of the value; it changes the value of that binding
wherever it is seen, and nothing else. -/
theorem nested_maps {s : Store} (hs : s.Built) :
    (∀ id scope, s.scope? id = some scope →
      s.path id = id :: (scope.parent.map s.path).getD []) ∧
    (∀ e x, s.resolve? e x = (s.path e).findSome? fun id => s.find? id x) ∧
    (∀ kind parent, parent < s.scopes.size → ∀ e' y,
      (s.openScope kind parent).2.resolve? e' y =
        if e' = (s.openScope kind parent).1 then s.resolve? parent y else s.resolve? e' y) ∧
    (∀ e b, e < s.scopes.size →
      ((s.define e b).1 = true ↔ s.find? e b.name = none) ∧
      ((s.define e b).1 = true → ∀ e' y,
        (y = b.name ∧ s.Sees b.name e' e → (s.define e b).2.resolve? e' y = some b) ∧
        ((s.define e b).2.resolve? e' y ≠ s.resolve? e' y → y = b.name ∧ s.Sees b.name e' e)) ∧
      ((s.define e b).1 = false → (s.define e b).2 = s)) ∧
    (∀ e x v,
      ((s.assign e x v).1 = .ok ↔
        ∃ b, s.resolve? e x = some b ∧ b.mutable = true ∧ b.tag = v.tag) ∧
      ((s.assign e x v).1 = .ok → ∃ owner b, s.Sees x e owner ∧ s.find? owner x = some b ∧
        ∀ e' y,
          (y = x ∧ s.Sees x e' owner → s.resolve? e' y = some b ∧
            (s.assign e x v).2.resolve? e' y = some { b with value := v }) ∧
          ((s.assign e x v).2.resolve? e' y ≠ s.resolve? e' y → y = x ∧ s.Sees x e' owner)) ∧
      ((s.assign e x v).1 = .undeclared ↔ s.resolve? e x = none) ∧
      ((s.assign e x v).1 = .typeMismatch ↔ ∃ b, s.resolve? e x = some b ∧ b.tag ≠ v.tag) ∧
      ((s.assign e x v).1 = .immutable ↔
        ∃ b, s.resolve? e x = some b ∧ b.tag = v.tag ∧ b.mutable = false) ∧
      ((s.assign e x v).1 ≠ .ok → (s.assign e x v).2 = s)) := by
  refine ⟨fun id scope h => hs.path_eq h, s.resolve?_eq_findSome?, ?_, ?_, ?_⟩
  · intro kind parent hp e' y
    exact resolve?_openScope kind hp e' y
  · intro e b he
    refine ⟨s.define_eq_true_iff e b, fun htrue e' y => ?_, s.define_of_false⟩
    -- declaring writes one place, and only scopes that see the place can tell
    have hsets := sets_define b he
    rw [s.define_of_true htrue]
    refine ⟨?_, fun hne => by_contra fun hnot => hne (hsets.resolve?_of_not_sees hnot)⟩
    rintro ⟨rfl, hsees⟩
    exact hsets.resolve?_of_sees e' hsees
  · intro e x v
    obtain ⟨hok, hundeclared, hmismatch, himmutable⟩ := s.assign_outcomes e x v
    refine ⟨hok, fun h => ?_, hundeclared, hmismatch, himmutable, s.assign_of_ne_ok⟩
    -- assigning writes one place too, in the nearest scope that has the name
    obtain ⟨owner, b, hsees, hfind, hsets⟩ := s.sets_of_assign h
    obtain rfl : b.name = x := by
      obtain ⟨scope, -, hb⟩ := Option.bind_eq_some_iff.mp hfind
      exact (Scope.mem_of_find? hb).2
    refine ⟨owner, b, hsees, hfind, fun e' y => ⟨?_, fun hne => ?_⟩⟩
    · rintro ⟨rfl, hsees'⟩
      exact ⟨resolve?_eq_some_iff.mpr ⟨owner, hsees', hfind⟩, hsets.resolve?_of_sees e' hsees'⟩
    · exact by_contra fun hnot => hne (hsets.resolve?_of_not_sees hnot)

/-- Two scopes inside the outermost one: a name that one of them defines anew is seen from the scope
inside it, and from the other one the name resolves as before. -/
theorem nested_maps_shadowed :
    let outermost := (Store.empty.push (.empty .global none)).2
    let s := (((outermost.openScope .function 0).2.openScope .block 1).2.openScope .block 0).2
    let b : Binding := ⟨"x", .int 1, .int, true⟩
    s.Built ∧ (s.define 1 b).2.resolve? 2 "x" = some b ∧
      (s.define 1 b).2.resolve? 3 "x" = s.resolve? 3 "x" := by
  intro outermost s b
  have houtermost : outermost.Built := .root .global .empty
  have hs : s.Built :=
    .openScope .block (by decide) (.openScope .block (by decide) (.openScope .function (by decide)
      houtermost))
  obtain ⟨hpath, -, -, hdefine, -⟩ := nested_maps hs
  obtain ⟨-, hseen, -⟩ := hdefine 1 b (by decide)
  have h0 : s.path 0 = [0] := hpath 0 _ rfl
  have h1 : s.path 1 = [1, 0] := (hpath 1 _ rfl).trans (congrArg (1 :: ·) h0)
  have h2 : s.path 2 = [2, 1, 0] := (hpath 2 _ rfl).trans (congrArg (2 :: ·) h1)
  have h3 : s.path 3 = [3, 0] := (hpath 3 _ rfl).trans (congrArg (3 :: ·) h0)
  refine ⟨hs, (hseen rfl 2 "x").1 ⟨rfl, [2], [0], h2, ?_⟩, by_contra fun hne => ?_⟩
  · intro j hj
    obtain rfl := List.mem_singleton.mp hj
    rfl
  · obtain ⟨-, below, above, hsplit, -⟩ := (hseen rfl 3 "x").2 hne
    have hmem : 1 ∈ s.path 3 := by
      rw [hsplit]
      simp
    rw [h3] at hmem
    exact absurd hmem (by decide)

end Store

end TagScript
