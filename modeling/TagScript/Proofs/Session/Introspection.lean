import TagScript.Proofs.Session.Bindings
import TagScript.Proofs.Store.Listing

/-!
# What a Session Shows of Its Scopes

A session lists the names of its outermost scope, the bindings of these names and the functions
among them. Its outermost scope declares what every script finds, then the names of the statements
that succeeded since the session was new or last reset, in the order in which they were run
(`History.declared_eq`). No scope declares a name twice, so no script can declare a name that every
script finds, and leaving those names out leaves out nothing else (`introspection_exact`).

The listed names are read off the order of declaration, and the snapshot off the map of the scope.
They agree since the map and the order are consistent at every moment (`keys_globalsSnapshot`).

A program stops at the first statement that fails or returns, so the statements of it that succeed
are its first ones (`Eval.succeeded`).
-/

namespace TagScript

namespace Eval

open Machine (after)

/-- The statements of a program that succeed, in the order in which they are run on the machine. A
statement that returns is the last one. -/
def succeeded (ctx : Context) (m : Machine) : Program → List Stmt
  | [] => []
  | s :: rest =>
    match noted ctx s m with
    | .ok (.returning _) _ => [s]
    | .ok _ n => s :: succeeded ctx n rest
    | .error _ _ => []

/-- The first statements of a program succeed. -/
theorem succeeded_prefix (ctx : Context) (m : Machine) (p : Program) : succeeded ctx m p <+: p := by
  induction p generalizing m with
  | nil => exact List.nil_prefix
  | cons s rest ih =>
    unfold succeeded
    -- the statement returns, or the rest is run after it, or it fails
    split
    · exact (List.prefix_cons_inj s).mpr List.nil_prefix
    · exact (List.prefix_cons_inj s).mpr (ih _)
    · exact List.nil_prefix

/-- A program declares in the outermost scope the names that its statements declare, as far as they
succeed, and nothing else. -/
theorem adds_program (ctx : Context) (last : Option Value) (p : Program) (m : Machine) :
    m.store.Adds ctx.global ((succeeded ctx m p).filterMap Stmt.declared?)
      (after (program ctx last p) m).store := by
  -- the rest of the program is run on the machine that the first statement leaves
  induction p generalizing last m with
  | nil => exact .nil (.refl m.store) _
  | cons s rest ih =>
    have hs := declares_noted ctx s m
    rw [program_cons]
    unfold after succeeded
    rw [bind_apply]
    cases hr : noted ctx s m with
    | error stop n =>
      rw [hr] at hs
      exact .nil hs _
    | ok c n =>
      rw [hr] at hs
      cases c with
      | returning v =>
        rw [Stmt.declared_cons, List.filterMap_nil, List.append_nil]
        exact hs
      | value v =>
        rw [Stmt.declared_cons]
        exact hs.trans (ih (some v) n)
      | empty =>
        rw [Stmt.declared_cons]
        exact hs.trans (ih none n)

end Eval

namespace Session

open Steps (State)

/-- The names that a program declares in the outermost scope of the session, in the order in which
the statements that declare them succeed. -/
def declares (s : Session) (p : Program) : List String :=
  (Eval.succeeded s.context s.machine p).filterMap Stmt.declared?

/-- The session comes from a new one by some history of operations, in which the statements that
succeeded since it was new or last reset declared these names in the outermost scope. -/
inductive History : Session → List String → Prop
  | new (settings : Settings) : History (.new settings) []
  | setSource {s : Session} {names : List String} (file : String) (source : Bytes) :
      History s names → History (s.setSource file source) names
  | run {s : Session} {names : List String} (p : Program) :
      History s names → History (s.run p).2 (names ++ s.declares p)
  | evaluate {s : Session} {names : List String} (p : Program) :
      History s names → History (s.evaluate p).2.2 (names ++ s.declares p)
  | clear {s : Session} {names : List String} : History s names → History s.clear names
  | reset {s : Session} {names : List String} : History s names → History s.reset []
  | takeEvents {s : Session} {names : List String} :
      History s names → History s.takeEvents.2 names

variable {s : Session} {names : List String} {p : Program} {c : State}

theorem History.reachable (h : s.History names) : s.Reachable := by
  induction h with
  | new settings => exact .new settings
  | setSource file source _ ih => exact ih.setSource file source
  | run p _ ih => exact ih.run p
  | evaluate p _ ih => exact ih.evaluate p
  | clear _ ih => exact ih.clear
  | reset _ ih => exact ih.reset
  | takeEvents _ ih => exact ih.takeEvents

theorem Reachable.history (hs : s.Reachable) : ∃ names, s.History names := by
  induction hs with
  | new settings => exact ⟨_, .new settings⟩
  | setSource file source _ ih => exact ih.imp fun _ h => h.setSource file source
  | run p _ ih =>
    obtain ⟨names, h⟩ := ih
    exact ⟨_, h.run p⟩
  | evaluate p _ ih =>
    obtain ⟨names, h⟩ := ih
    exact ⟨_, h.evaluate p⟩
  | clear _ ih => exact ih.imp fun _ h => h.clear
  | reset _ ih =>
    obtain ⟨names, h⟩ := ih
    exact ⟨_, h.reset⟩
  | takeEvents _ ih => exact ih.imp fun _ h => h.takeEvents

/-- Running a program adds to the outermost scope the names that the program declares. -/
theorem declared_run (hs : s.Reachable) (p : Program) :
    (s.run p).2.machine.store.declared (s.run p).2.global =
      s.machine.store.declared s.global ++ s.declares p := by
  rw [run_eq]
  exact (Eval.adds_program s.context none p s.machine).declared hs.global_lt

/-- The outermost scope declares what every script finds, and then what the history declared. -/
theorem History.declared_eq (h : s.History names) :
    s.machine.store.declared s.global = Builtin.seededNames ++ names := by
  induction h with
  | new settings => rfl
  | setSource file source _ ih => exact ih
  | run p h ih => rw [declared_run h.reachable, ih, List.append_assoc]
  | evaluate p h ih =>
    rw [evaluate_machine, evaluate_global, ← run_global, declared_run h.reachable, ih,
      List.append_assoc]
  | clear _ ih => exact ih
  -- the scope that a reset opens has not been declared in yet
  | @reset t _ _ _ =>
    rw [List.append_nil]
    exact Store.declared_of_scope? t.machine.store.scope?_seed
  | takeEvents _ ih => exact ih

/-- The bindings in the snapshot of a scope are those that are found in it under their names. -/
theorem find?_of_mem_globalsSnapshot {b : Binding} (hb : b ∈ s.globalsSnapshot) :
    s.machine.store.find? s.global b.name = some b := by
  obtain ⟨hsnapshot, -⟩ := List.mem_filter.mp hb
  obtain ⟨x, -, hx⟩ := List.mem_filterMap.mp hsnapshot
  rwa [Store.name_of_find? hx]

/-- The snapshot has the names of the outermost scope without those that every script finds. -/
theorem map_name_globalsSnapshot (hlists : s.machine.store.Lists s.global) :
    s.globalsSnapshot.map Binding.name = s.names.filter (· ∉ Builtin.seededNames) := by
  rw [names, ← hlists.snapshot, List.filter_map]
  rfl

/-- The keys of the snapshot are the names that the session lists. -/
theorem keys_globalsSnapshot (hlists : s.machine.store.Lists s.global) :
    (s.globalsSnapshot.map Binding.name).Perm s.globalNames := by
  rw [map_name_globalsSnapshot hlists]
  exact hlists.perm.filter _

/-- The binding of the snapshot that is found under a name has this name. -/
theorem name_of_find?_globalsSnapshot {x : String} {b : Binding}
    (h : s.globalsSnapshot.find? (·.name = x) = some b) : b.name = x := by
  simpa using List.find?_some h

/-- Each listed name is a key of the snapshot, so the session shows a binding for it. -/
theorem map_name_globals (hlists : s.machine.store.Lists s.global) :
    s.globals.map Binding.name = s.globalNames := by
  refine Binding.map_name_filterMap (fun x b => name_of_find?_globalsSnapshot) fun x hx => ?_
  have hkey : x ∈ s.globalsSnapshot.map Binding.name :=
    (keys_globalsSnapshot hlists).mem_iff.mpr hx
  obtain ⟨b, hb, rfl⟩ := List.mem_map.mp hkey
  exact Option.isSome_iff_ne_none.mp (List.find?_isSome.mpr ⟨b, hb, decide_eq_true rfl⟩)

/-- Each binding of the snapshot is the one under its key. -/
theorem find?_globalsSnapshot {b : Binding} (hb : b ∈ s.globalsSnapshot) :
    s.globalsSnapshot.find? (·.name = b.name) = some b := by
  obtain ⟨c, hc⟩ : ∃ c, s.globalsSnapshot.find? (·.name = b.name) = some c :=
    Option.isSome_iff_exists.mp (List.find?_isSome.mpr ⟨b, hb, decide_eq_true rfl⟩)
  -- both are what the scope has under this name
  have hfind := find?_of_mem_globalsSnapshot (List.mem_of_find?_eq_some hc)
  rw [name_of_find?_globalsSnapshot hc, find?_of_mem_globalsSnapshot hb] at hfind
  rw [hc, Option.some.inj hfind]

/-- The bindings that the session shows for the names that it lists are those of the snapshot. -/
theorem globalsSnapshot_perm (hlists : s.machine.store.Lists s.global) :
    s.globalsSnapshot.Perm s.globals := by
  let find (name : String) : Option Binding := s.globalsSnapshot.find? (·.name = name)
  have hall : (s.globalsSnapshot.map Binding.name).filterMap find = s.globalsSnapshot := by
    rw [List.filterMap_map]
    have hsome : ∀ b ∈ s.globalsSnapshot, (find ∘ Binding.name) b = some b :=
      fun b hb => find?_globalsSnapshot hb
    rw [List.filterMap_congr hsome, List.filterMap_some]
  have hperm := (keys_globalsSnapshot hlists).filterMap find
  rwa [hall] at hperm

/-- What a session shows of its outermost scope, where `names` were declared in it. -/
structure Shows (s : Session) (names : List String) : Prop where
  /-- It lists these names, in this order. -/
  globalNames : s.globalNames = names
  /-- No name was declared twice. -/
  nodup : names.Nodup
  /-- None is a name that every script finds. -/
  unseeded : ∀ x ∈ names, x ∉ Builtin.seededNames
  /-- They are the keys of the snapshot. -/
  keys : (s.globalsSnapshot.map Binding.name).Perm names
  /-- The snapshot has what the outermost scope binds. -/
  bound : ∀ b ∈ s.globalsSnapshot, s.machine.store.find? s.global b.name = some b
  /-- The bindings that the session shows have these names, each once. -/
  globals : s.globals.map Binding.name = names
  /-- They are the bindings of the snapshot. -/
  snapshot : s.globalsSnapshot.Perm s.globals
  /-- The names of functions ascend strictly, by their bytes. -/
  ascending : s.functionNames.Pairwise fun x y => Bytes.ofString x < Bytes.ofString y
  /-- They are those of the names that are bound to declared functions. -/
  mem_functionNames : ∀ x, x ∈ s.functionNames ↔
    x ∈ names ∧ ∃ b f, s.machine.store.find? s.global x = some b ∧ b.value = .function f

/-- Nothing that every script finds is a declared function. -/
theorem value_of_seeded {b : Binding} (hb : b ∈ Builtin.seeded) (f : Closure) :
    b.value ≠ .function f := by
  rcases List.mem_append.mp hb with hb | hb
  · obtain ⟨g, -, rfl⟩ := List.mem_map.mp hb
    exact Value.noConfusion
  · simp only [List.mem_cons, List.not_mem_nil, or_false] at hb
    rcases hb with rfl | rfl | rfl
    · exact Value.noConfusion
    · exact Value.noConfusion
    · exact Value.noConfusion

/-- The outermost scope of a session lies inside no other one. -/
theorem Reachable.parent?_global (hs : s.Reachable) : s.machine.store.parent? s.global = none := by
  obtain ⟨scope, hscope, hextends⟩ := hs.extends_seeded
  obtain ⟨kind, parent, values, order⟩ := scope
  obtain rfl : parent = none := hextends.parent
  simp only [Store.parent?, hscope]

/-- The names of functions that the session lists are bound to functions in the outermost scope. -/
theorem mem_functionNames_iff (hs : s.Reachable) (x : String) : x ∈ s.functionNames ↔
    ∃ b f, s.machine.store.find? s.global x = some b ∧ b.value = .function f := by
  unfold functionNames global? names
  rw [List.mem_filter, Store.mem_names_iff, Store.resolve?_of_root hs.parent?_global]
  cases s.machine.store.find? s.global x with
  | none => simp
  | some b =>
    obtain ⟨name, value, tag, isMutable⟩ := b
    cases value <;> simp

/-- A declared function in the outermost scope is one that the history declared. -/
theorem History.mem_of_function (h : s.History names) {x : String} {b : Binding} {f : Closure}
    (hb : s.machine.store.find? s.global x = some b) (hf : b.value = .function f) :
    x ∈ names := by
  have hdeclared : x ∈ s.machine.store.declared s.global :=
    h.reachable.formed.consistent.mem_declared_iff.mpr (by rw [hb]; exact Option.some_ne_none b)
  rw [h.declared_eq] at hdeclared
  rcases List.mem_append.mp hdeclared with hseeded | hx
  · -- what every script finds is bound as at the start, and not to such a function
    obtain ⟨b', hb', rfl⟩ := List.mem_map.mp hseeded
    have hstart : s.machine.store.find? s.global b'.name = some b' :=
      moment_seeded h.reachable (.refl : s.Moment [] _) hb'
    rw [hstart] at hb
    cases hb
    exact absurd hf (value_of_seeded hb' f)
  · exact hx

/-- What the history of a session declared is what the session shows. -/
theorem History.shows (h : s.History names) : s.Shows names := by
  have hs : s.Reachable := h.reachable
  have hlists : s.machine.store.Lists s.global := hs.formed.consistent.lists _
  -- the scope declares no name twice, so none of those that every script finds again
  have hnodup := hlists.nodup
  rw [h.declared_eq, List.nodup_append'] at hnodup
  obtain ⟨-, hnames, hdisjoint⟩ := hnodup
  have hunseeded : ∀ x ∈ names, x ∉ Builtin.seededNames := fun x hx hseeded =>
    hdisjoint hseeded hx
  -- leaving out what every script finds leaves out nothing else
  have hglobalNames : s.globalNames = names := by
    have hleft : Builtin.seededNames.filter (· ∉ Builtin.seededNames) = [] :=
      List.filter_eq_nil_iff.mpr fun x hx => by simp [hx]
    have hkept : names.filter (· ∉ Builtin.seededNames) = names :=
      List.filter_eq_self.mpr fun x hx => by simp [hunseeded x hx]
    rw [globalNames, h.declared_eq, List.filter_append, hleft, hkept, List.nil_append]
  -- the rest is what the outermost scope lists, restricted to these names
  refine {
    globalNames := hglobalNames
    nodup := hnames
    unseeded := hunseeded
    keys := hglobalNames ▸ keys_globalsSnapshot hlists
    bound := fun b hb => find?_of_mem_globalsSnapshot hb
    globals := (map_name_globals hlists).trans hglobalNames
    snapshot := globalsSnapshot_perm hlists
    ascending := hlists.ascending.filter _
    mem_functionNames := fun x => ?_ }
  rw [mem_functionNames_iff hs]
  refine ⟨fun hx => ⟨?_, hx⟩, fun ⟨_, hx⟩ => hx⟩
  obtain ⟨b, f, hb, hf⟩ := hx
  exact h.mem_of_function hb hf

/-- A session hides and repeats nothing of its scopes. At every moment of a program in it, the names
in the order of each scope are those in its map, each once, and are listed in ascending order, and
what every script finds is bound as at the start. The names that the session lists are those that
the statements that succeeded since it was new or last reset declared in the outermost scope, in the
order in which these were run and each once. They are the keys of the snapshot, the bindings that it
shows are those of these names, and the functions that it lists are those of them that are bound to
declared functions. -/
theorem introspection_exact (hs : s.Reachable) :
    (∀ p c, s.Moment p c → (∀ id, c.machine.store.Lists id) ∧
      ∀ b ∈ Builtin.seeded, c.machine.store.find? s.global b.name = some b) ∧
    (∀ p, Eval.succeeded s.context s.machine p <+: p) ∧
    (∃ names, s.History names) ∧ ∀ names, s.History names → s.Shows names := by
  refine ⟨?_, Eval.succeeded_prefix _ _, hs.history, fun _ h => h.shows⟩
  intro p c hc
  -- the session itself is the first moment of every program
  exact ⟨(moment_formed hs hc).store.consistent.lists, fun b hb => moment_seeded hs hc hb⟩

/-- A variable and a function are declared and the function is called, then the program fails where
it declares the variable again. The next program declares a constant before one with a name that
every script finds, which is refused. -/
theorem introspection_exact_refused :
    let settings : Settings := ⟨2, .plain, 0, false, false⟩
    let declare (constant : Bool) (x : String) : Stmt :=
      .declare .start constant x none (.int .start 1)
    let f : Stmt := .function .start "area" [] none [declare false "local"]
    let call : Stmt := .expr .start (.call .start (.name .start "area") [])
    let p : Program :=
      [declare false "width", f, call, declare false "width", declare false "lost"]
    let q : Program := [declare true "height", declare true "len"]
    let s := (((new settings).run p).2.evaluate q).2.2
    s.Reachable ∧ s.Shows ["width", "area", "height"] := by
  intro settings declare f call p q s
  have hnames : (new settings).declares p ++ ((new settings).run p).2.declares q =
      ["width", "area", "height"] := by decide +kernel
  have hhistory : s.History ["width", "area", "height"] := by
    rw [← hnames]
    exact .evaluate q (.run p (.new settings))
  obtain ⟨-, -, -, hshows⟩ := introspection_exact hhistory.reachable
  exact ⟨hhistory.reachable, hshows _ hhistory⟩

/-- The names that every script finds. -/
example : Builtin.seededNames =
    ["print", "exit", "len", "random", "typeof", "range", "true", "false", "null"] := rfl

end Session

end TagScript
