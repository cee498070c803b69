import TagScript.Proofs.Steps.Extends
import TagScript.Proofs.Steps.Formed

/-!
# Where Types Are Declared

Two steps bind a name with a declared type: a variable or a constant is declared, and a function is
entered (`Binds`). Both check the type against a tag, for a parameter the tag that is tracked for
the argument, and the binding then has the tag of the type (`Binds.find?`). One step ends a call
with a value (`Returns`), which is one that the function may answer.
-/

namespace TagScript

open Machine (after)

/-- The value is one that a function with this declared type of its result may answer. -/
def Value.Answers (v : Value) (returns : Option TypeName) : Prop :=
  ∀ t, returns = some t → if t = .void then v = .null else v.tag = Tag.ofTypeName t

/-- A definition that is not refused binds the name in a stored scope. -/
theorem Store.find?_define {s : Store} {id : ScopeId} {b : Binding} (hid : id < s.scopes.size)
    (hfresh : s.has id b.name = false) : (s.define id b).2.find? id b.name = some b := by
  obtain ⟨hhas, -⟩ | ⟨-, hd⟩ := define_cases s id b
  · rw [hfresh] at hhas
    cases hhas
  obtain ⟨scope, hs⟩ := scope?_eq_some hid
  rw [hd, Store.find?, scope?_bind, if_pos rfl, hs, Option.map_some, Option.bind_some,
    Scope.find?_bind, if_pos rfl]

namespace Steps

open Eval (Completion)

/-- The step from `c` to `d` binds `name` in the scope `id` with the declared type `t`. -/
inductive Binds (ctx : Context) : State → State → ScopeId → String → TypeName → Prop
  /-- A variable or a constant is declared. -/
  | declare {v : Value} {id : ScopeId} {p valueAt : Position} {constant : Bool} {name : String}
      {t : TypeName} {k : List Frame} {m n : Machine} :
      step ctx ⟨.value v, .declare id p constant name (some t) valueAt :: k, m⟩ =
        some ⟨.completed .empty, k, n⟩ →
      Binds ctx ⟨.value v, .declare id p constant name (some t) valueAt :: k, m⟩
        ⟨.completed .empty, k, n⟩ id name t
  /-- A function is entered, and `param` is one of its parameters. -/
  | param {p : Position} {f : Closure} {args : List Arg} {id : ScopeId} {param : Param}
      {t : TypeName} {k : List Frame} {m n : Machine} :
      step ctx ⟨.apply p (.function f) args, k, m⟩ =
        some ⟨.block id .empty f.body, .body f p :: k, n⟩ →
      param ∈ f.params → param.type = some t →
      Binds ctx ⟨.apply p (.function f) args, k, m⟩
        ⟨.block id .empty f.body, .body f p :: k, n⟩ id param.name t

/-- The step from `c` to `d` ends a call of `f` with the value `v`. -/
inductive Returns (ctx : Context) : State → State → Closure → Value → Prop
  | leave {done : Completion} {f : Closure} {p : Position} {v : Value} {k : List Frame}
      {m n : Machine} :
      step ctx ⟨.completed done, .body f p :: k, m⟩ = some ⟨.value v, k, n⟩ →
      Returns ctx ⟨.completed done, .body f p :: k, m⟩ ⟨.value v, k, n⟩ f v

/-- Where an operation is followed by a moment that is not stopped, it has succeeded. -/
theorem proceed_cases {α : Type} {x : Eval α} {k : List Frame} {m : Machine}
    {next : α → Machine → State} {c : State} (h : proceed x k m next = c)
    (hc : ∀ s, c.control ≠ .stopped s) : ∃ a n, x m = .ok a n ∧ next a n = c := by
  unfold proceed at h
  cases hx : x m with
  | ok a n =>
    rw [hx] at h
    exact ⟨a, n, rfl, h⟩
  | error s n =>
    rw [hx] at h
    -- a failed operation leaves a stopped moment, which `c` is not
    exact absurd (congrArg State.control h).symm (hc s)

variable {ctx : Context}

/-- What only extends the scopes keeps a binding under its name and tag. -/
theorem Growing.find? {α : Type} {x : Eval α} (hx : Growing x) {m : Machine} {id : ScopeId}
    {name : String} {b : Binding} (hb : m.store.find? id name = some b) :
    ∃ c, (after x m).store.find? id name = some c ∧ c.tag = b.tag := by
  obtain ⟨c, hc, hcontinues⟩ := (hx m).kept.find? hb
  exact ⟨c, hc, hcontinues.tag⟩

theorem after_eq_of_ok {α : Type} {x : Eval α} {m n : Machine} {a : α} (h : x m = .ok a n) :
    after x m = n := by
  unfold after
  rw [h]

section Operations

variable {scope : ScopeId} {p : Position} {m n : Machine}

/-- A declaration that succeeds binds the name. -/
theorem declare_ok {b : Binding} (hscope : scope < m.size)
    (h : Eval.declare ctx scope p b m = .ok () n) : n.store.find? scope b.name = some b := by
  obtain ⟨done, m', hdefine, hrest⟩ := Eval.bind_eq_ok.mp h
  -- the declaration reports whether the definition was refused
  have hresult : (m.store.define scope b).1 = done ∧ m'.store = (m.store.define scope b).2 := by
    cases hdefine
    exact ⟨rfl, rfl⟩
  cases done with
  | false => cases hrest
  | true =>
    cases hrest
    obtain ⟨hhas, hd⟩ | ⟨hfresh, -⟩ := Store.define_cases m.store scope b
    · rw [hd] at hresult
      cases hresult.1
    · rw [hresult.2]
      exact Store.find?_define hscope hfresh

/-- A variable or a constant that is declared with a type has the tag of this type. -/
theorem declareValue_ok {constant : Bool} {name : String} {t : TypeName} {valueAt : Position}
    {v : Value} (hscope : scope < m.size)
    (h : Eval.declareValue ctx scope p constant name (some t) valueAt v m = .ok () n) :
    ∃ b, n.store.find? scope name = some b ∧ b.tag = Tag.ofTypeName t := by
  change (if _ then _ else _ : Eval Unit) m = _ at h
  -- with the wrong tag the declaration would have failed before it defined anything
  by_cases ht : Tag.ofTypeName t = v.tag
  · rw [if_neg (not_not_intro ht)] at h
    exact ⟨_, declare_ok hscope h, ht.symm⟩
  · rw [if_pos ht] at h
    cases h

/-- Each parameter with a type has the tag of this type once all are bound. -/
theorem bindParams_ok {function : String} {params : List Param} {args : List Arg}
    (hscope : scope < m.size) (hargs : ∀ a ∈ args, a.tag = a.value.tag)
    (hlength : args.length = params.length)
    (h : Eval.bindParams ctx function scope p params args m = .ok () n) :
    ∀ param ∈ params, ∀ t, param.type = some t →
      ∃ b, n.store.find? scope param.name = some b ∧ b.tag = Tag.ofTypeName t := by
  induction params generalizing args m with
  | nil =>
    intro param hparam
    cases hparam
  | cons first params ih =>
    cases args with
    | nil => cases hlength
    | cons arg args =>
      -- the check of the first argument is passed, so what follows it succeeds
      have hcheck : ∀ t, first.type = some t → Tag.ofTypeName t = arg.tag := by
        intro t ht
        by_contra hne
        unfold Eval.bindParams at h
        rw [ht] at h
        change (if _ then _ else _ : Eval Unit) m = _ at h
        rw [if_pos hne] at h
        cases h
      have hrest : (do
          Eval.declare ctx scope p ⟨first.name, arg.value, arg.value.tag, true⟩
          Eval.bindParams ctx function scope p params args : Eval Unit) m = .ok () n := by
        unfold Eval.bindParams at h
        cases htype : first.type with
        | none =>
          rw [htype] at h
          exact h
        | some t =>
          rw [htype] at h
          change (if _ then _ else _ : Eval Unit) m = _ at h
          rw [if_neg (not_not_intro (hcheck t htype))] at h
          exact h
      obtain ⟨_, m', hdeclare, hmore⟩ := Eval.bind_eq_ok.mp hrest
      -- the binding of the first parameter is there when the others are bound, and stays
      have hgrown := Growing.of_changing (Eval.changing_declare ctx scope p
        ⟨first.name, arg.value, arg.value.tag, true⟩) m
      have hafter := after_eq_of_ok hdeclare
      rw [hafter] at hgrown
      have hscope' : scope < m'.size := Nat.lt_of_lt_of_le hscope hgrown.kept.size_le
      intro param hparam t ht
      obtain rfl | hparam := List.mem_cons.mp hparam
      · have hbound := declare_ok hscope hdeclare
        obtain ⟨c, hc, htag⟩ := (Growing.of_changing
          (Eval.changing_bindParams ctx scope p function params args)).find? hbound
        rw [after_eq_of_ok hmore] at hc
        refine ⟨c, hc, htag.trans ?_⟩
        rw [hcheck t ht]
        exact (hargs arg (by simp)).symm
      · exact ih hscope' (fun a ha => hargs a (by simp [ha])) (by simpa using hlength)
          hmore param hparam t ht

/-- The parameters of a function that is entered have the tags of their types. -/
theorem enter_ok {f : Closure} {args : List Arg} (hargs : ∀ a ∈ args, a.tag = a.value.tag)
    (h : enter ctx f args p m = .ok scope n) :
    ∀ param ∈ f.params, ∀ t, param.type = some t →
      ∃ b, n.store.find? scope param.name = some b ∧ b.tag = Tag.ofTypeName t := by
  obtain ⟨_, m₁, harity, hafterArity⟩ := Eval.bind_eq_ok.mp h
  obtain ⟨_, m₂, hdepth, hafterDepth⟩ := Eval.bind_eq_ok.mp hafterArity
  obtain ⟨id, m₃, hopen, hafterOpen⟩ := Eval.bind_eq_ok.mp hafterDepth
  -- the two checks leave the machine alone
  have hlength : args.length = f.params.length ∧ m₁ = m := by
    rw [checkArity_apply] at harity
    split at harity
    next => cases harity
    next heq =>
      cases harity
      exact ⟨not_not.mp heq, rfl⟩
  obtain ⟨hlength, rfl⟩ := hlength
  obtain rfl : m₂ = m₁ := by
    rw [checkDepth_apply] at hdepth
    split at hdepth <;> cases hdepth
    rfl
  obtain ⟨_, m₄, hfresh, hbind⟩ := Eval.bind_eq_ok.mp hopen
  obtain ⟨_, m₅, hparams, hdone⟩ := Eval.bind_eq_ok.mp hbind
  cases hdone
  -- the parameters are bound in the scope that was just opened
  have hopened : id < m₄.size := by
    cases hfresh
    simp [Machine.size]
  have hbound := bindParams_ok hopened hargs hlength hparams
  -- what is left makes the call active, and gives the scope that was opened
  obtain ⟨_, m₆, hpush, hactive⟩ := Eval.bind_eq_ok.mp hafterOpen
  obtain ⟨_, m₇, hnote, hpure⟩ := Eval.bind_eq_ok.mp hactive
  obtain rfl : id = scope := by
    cases hpure
    rfl
  intro param hparam t ht
  obtain ⟨b, hb, htag⟩ := hbound param hparam t ht
  obtain ⟨c, hc, hctag⟩ := (growing_activate f id).find? hb
  rw [after_eq_of_ok hafterOpen] at hc
  exact ⟨c, hc, hctag.trans htag⟩

theorem resultOf_of_ne_void {f : Closure} {t : TypeName} (hreturns : f.returns = some t)
    (hvoid : t ≠ .void) (c : Completion) :
    Eval.resultOf ctx f p c =
      if Tag.ofTypeName t ≠ (c.value?.getD .null).tag then
        ctx.fail p (.returnMismatch f.name (Tag.ofTypeName t) (c.value?.getD .null).tag)
      else Pure.pure (c.value?.getD .null) := by
  unfold Eval.resultOf
  rw [hreturns]
  cases t with
  | void => exact absurd rfl hvoid
  | _ => rfl

/-- The result of a call is one that the function may answer. -/
theorem resultOf_ok {f : Closure} {c : Completion} {v : Value}
    (h : Eval.resultOf ctx f p c m = .ok v n) : v.Answers f.returns := by
  intro t ht
  split
  next hvoid =>
    unfold Eval.resultOf at h
    rw [ht, hvoid] at h
    cases h
    rfl
  next hvoid =>
    rw [resultOf_of_ne_void ht hvoid] at h
    split at h
    next => cases h
    next htag =>
      cases h
      exact (not_not.mp htag).symm

/-- A call that succeeds has a result that the function may answer. -/
theorem call_ok {spare : Nat} {f : Closure} {args : List Arg} {v : Value}
    (h : Eval.call ctx spare f args p m = .ok v n) : v.Answers f.returns := by
  cases spare with
  -- without a call to spare nothing is answered
  | zero =>
    rw [Eval.call] at h
    obtain ⟨_, _, _, hfail⟩ := Eval.bind_eq_ok.mp h
    cases hfail
  | succ spare =>
    rw [Eval.call] at h
    obtain ⟨_, _, _, hopened⟩ := Eval.bind_eq_ok.mp h
    obtain ⟨_, _, _, hcalled⟩ := Eval.bind_eq_ok.mp hopened
    obtain ⟨_, _, _, hresult⟩ := Eval.bind_eq_ok.mp hcalled
    exact resultOf_ok hresult

end Operations

theorem Binds.step {c d : State} {id : ScopeId} {name : String} {t : TypeName}
    (h : Binds ctx c d id name t) : step ctx c = some d := by
  cases h with
  | declare hstep => exact hstep
  | param hstep => exact hstep

/-- A name that is bound with a declared type has the tag of this type. -/
theorem Binds.find? {c d : State} {id : ScopeId} {name : String} {t : TypeName}
    (h : Binds ctx c d id name t) (hc : c.Formed) :
    ∃ b, d.machine.store.find? id name = some b ∧ b.tag = Tag.ofTypeName t := by
  cases h with
  | declare hstep =>
    obtain ⟨_, _, hok, hnext⟩ := proceed_cases (Option.some.inj hstep) (by rintro s ⟨⟩)
    cases hnext
    have hscope := hc.stack _ List.mem_cons_self
    exact declareValue_ok hscope hok
  | param hstep hparam htype =>
    obtain ⟨_, _, hok, hnext⟩ := proceed_cases (Option.some.inj hstep) (by rintro s ⟨⟩)
    cases hnext
    exact enter_ok (fun a ha => (hc.control.2 a ha).1) hok _ hparam t htype

/-- The value that a call ends with is one that the function may answer. -/
theorem Returns.answers {c d : State} {f : Closure} {v : Value} (h : Returns ctx c d f v) :
    v.Answers f.returns := by
  cases h with
  | leave hstep =>
    obtain ⟨_, _, hok, hnext⟩ := proceed_cases (Option.some.inj hstep) (by rintro s ⟨⟩)
    cases hnext
    obtain ⟨_, _, _, hresult⟩ := Eval.bind_eq_ok.mp hok
    exact resultOf_ok hresult

end Steps

end TagScript
