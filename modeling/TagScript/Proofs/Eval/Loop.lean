import TagScript.Proofs.Eval.Spares
import TagScript.Proofs.Value.Range

/-!
# The Iterations of a Loop

A loop binds its cursor in a scope of its own and runs its body once after the other, each time in a
fresh scope inside that one; after each iteration the cursor moves by one step. `Loop.After k` are
the machines that `k` iterations lead to of which none has returned or stopped.

How the statement ends follows from its iterations: after as many as the range is long it ends
without a value, and an iteration before that which returns or stops is its end (`passes_eq`,
`passes_of_returning`, `passes_of_error`). What the cursor is follows by induction on the iterations
(`After.kept`): the body cannot change it if it has no assignment to its name, and moving it does
not wrap around before the range is at its end.
-/

namespace TagScript

open Eval (Completion Invoke Sparing Spares)

/-- A loop that was entered. -/
structure Loop where
  /-- The scope that binds the cursor. -/
  scope : ScopeId
  /-- The name of the cursor. -/
  cursor : String
  /-- The range that it runs over. -/
  range : Range
  /-- The statements that it repeats. -/
  body : List Stmt

namespace Loop

variable (loop : Loop) (ctx : Context) (invoke : Invoke)

/-- The binding of the cursor at a number. -/
def binding (i : Int64) : Binding :=
  ⟨loop.cursor, .int i, .int, true⟩

/-- The place of the cursor. -/
def cell : Cell :=
  ⟨loop.scope, loop.cursor⟩

/-- The machine on which the loop starts, if it is entered in a scope on the machine `m`. -/
def entered (scope : ScopeId) (m : Machine) : Machine :=
  { m with
    store := ((m.store.openScope .loop scope).2.define loop.scope
      (loop.binding loop.range.start)).2 }

/-- One iteration: the body, in a scope of its own. -/
def iteration : Eval Completion := do
  let inner ← Machine.openScope .block loop.scope
  Eval.block ctx invoke inner .empty loop.body

/-- One pass: an iteration, after which the cursor moves unless it returns. -/
def pass : Eval Completion := do
  let c ← loop.iteration ctx invoke
  Eval.endPass loop.scope loop.cursor loop.range.step c

/-- The iteration that starts on the machine `n` returns a value or stops. -/
def Breaks (n : Machine) : Prop :=
  (∃ v o, loop.iteration ctx invoke n = .ok (.returning v) o) ∨
    ∃ stop o, loop.iteration ctx invoke n = .error stop o

/-- An iteration that starts on the machine `n` finds the cursor at the number `j`. -/
def CursorAt (n : Machine) (j : ℤ) : Prop :=
  ∀ inner o, Machine.openScope .block loop.scope n = .ok inner o →
    ∃ i : Int64, i.toInt = j ∧ o.store.resolve? inner loop.cursor = some (loop.binding i)

/-- From the machine `first`, some number of iterations lead to another one. None of them returns or
stops, and the cursor moves after each. -/
inductive After (first : Machine) : ℕ → Machine → Prop
  | zero : After first 0 first
  | succ {k : ℕ} {n o next : Machine} {c : Completion} : After first k n →
      loop.iteration ctx invoke n = .ok c o → (∀ v, c ≠ .returning v) →
      Eval.moveCursor loop.scope loop.cursor loop.range.step o = .ok () next →
      After first (k + 1) next

variable {loop ctx invoke} {first n o : Machine} {k : ℕ}

/-- The statement enters its loop and makes as many passes as the range is long. -/
theorem stmt_eq_passes {scope : ScopeId} {q : Position} {cursor : String} {e : Expr}
    {body : List Stmt} {r : Range} {m : Machine}
    (he : Eval.expr ctx invoke scope e m = .ok (.range r) n) (hstep : r.step ≠ 0) :
    let loop : Loop := ⟨n.size, cursor, r, body⟩
    Eval.stmt ctx invoke scope (.loop q cursor e body) m =
      Eval.passes r.length.toNat (loop.pass ctx invoke) (loop.entered scope n) := by
  intro loop
  have hpass : loop.pass ctx invoke = (do
      let inner ← Machine.openScope .block loop.scope
      let c ← Eval.block ctx invoke inner .empty body
      Eval.endPass loop.scope cursor r.step c) := bind_assoc _ _ _
  have hrange : Eval.loopRange ctx e.position (.range r) n = .ok r n := by
    simp only [Eval.loopRange, hstep]
    rfl
  -- the range is computed and checked before the scope of the loop is opened
  rw [hpass, Eval.stmt, Eval.bind_apply, he]
  dsimp only
  rw [Eval.bind_apply, hrange]
  rfl

section Passes

/-- Moving a cursor never fails. -/
theorem moveCursor_ok (scope : ScopeId) (cursor : String) (step : Int64) (m : Machine) :
    ∃ n, Eval.moveCursor scope cursor step m = .ok () n := by
  have hresolve : Machine.resolve? scope cursor m = .ok (m.store.resolve? scope cursor) m := rfl
  rw [Eval.moveCursor, Eval.bind_apply, hresolve]
  cases m.store.resolve? scope cursor with
  | none => exact ⟨_, rfl⟩
  | some d =>
    obtain ⟨x, v, tag, mutable⟩ := d
    cases v <;> exact ⟨_, rfl⟩

/-- A pass ends with what its iteration returns. -/
theorem pass_of_returning {v : Value} (h : loop.iteration ctx invoke n = .ok (.returning v) o) :
    loop.pass ctx invoke n = .ok (.returning v) o := by
  rw [pass, Eval.bind_apply, h]
  rfl

/-- A pass stops where its iteration stops. -/
theorem pass_of_error {stop : Stop} (h : loop.iteration ctx invoke n = .error stop o) :
    loop.pass ctx invoke n = .error stop o := by
  rw [pass, Eval.bind_apply, h]

/-- After any other iteration the cursor moves. -/
theorem pass_of_move {c : Completion} (h : loop.iteration ctx invoke n = .ok c o)
    (hc : ∀ v, c ≠ .returning v) {next : Machine}
    (hmove : Eval.moveCursor loop.scope loop.cursor loop.range.step o = .ok () next) :
    loop.pass ctx invoke n = .ok .empty next := by
  have hend : Eval.endPass loop.scope loop.cursor loop.range.step c = (do
      Eval.moveCursor loop.scope loop.cursor loop.range.step
      return .empty) := by
    rw [Eval.endPass]
    exact hc
  rw [pass, Eval.bind_apply, h]
  dsimp only
  rw [hend, Eval.bind_apply, hmove]
  rfl

/-- Some iterations are the first passes. -/
theorem After.passes_eq (h : loop.After ctx invoke first k n) (count : ℕ) :
    Eval.passes (k + count) (loop.pass ctx invoke) first =
      Eval.passes count (loop.pass ctx invoke) n := by
  -- on the iterations; each takes one of the passes that are left
  induction h generalizing count with
  | zero => rw [Nat.zero_add]
  | succ hk h hc hmove ih =>
    rw [Nat.add_right_comm, Nat.add_assoc, ih, Eval.passes, Eval.bind_apply,
      pass_of_move h hc hmove]

/-- The passes end with the first iteration that returns. -/
theorem After.passes_of_returning (h : loop.After ctx invoke first k n) {count : ℕ}
    (hk : k < count) {v : Value} (hv : loop.iteration ctx invoke n = .ok (.returning v) o) :
    Eval.passes count (loop.pass ctx invoke) first = .ok (.returning v) o := by
  obtain ⟨more, rfl⟩ := Nat.exists_eq_add_of_lt hk
  rw [Nat.add_assoc, h.passes_eq, Eval.passes, Eval.bind_apply, pass_of_returning hv]
  rfl

/-- The passes stop with the first iteration that stops. -/
theorem After.passes_of_error (h : loop.After ctx invoke first k n) {count : ℕ}
    (hk : k < count) {stop : Stop} (hs : loop.iteration ctx invoke n = .error stop o) :
    Eval.passes count (loop.pass ctx invoke) first = .error stop o := by
  obtain ⟨more, rfl⟩ := Nat.exists_eq_add_of_lt hk
  rw [Nat.add_assoc, h.passes_eq, Eval.passes, Eval.bind_apply, pass_of_error hs]

/-- An iteration that does not break is followed by a move of the cursor. -/
theorem After.exists_succ (h : loop.After ctx invoke first k n)
    (hn : ¬ loop.Breaks ctx invoke n) : ∃ next, loop.After ctx invoke first (k + 1) next := by
  cases hr : loop.iteration ctx invoke n with
  | error stop o => exact absurd (.inr ⟨stop, o, hr⟩) hn
  | ok c o =>
    obtain ⟨next, hmove⟩ := moveCursor_ok loop.scope loop.cursor loop.range.step o
    refine ⟨next, h.succ hr ?_ hmove⟩
    rintro v rfl
    exact hn (.inl ⟨v, o, hr⟩)

/-- As long as no iteration breaks, there are more of them. -/
theorem exists_after {count : ℕ}
    (h : ∀ k n, k < count → loop.After ctx invoke first k n → ¬ loop.Breaks ctx invoke n) :
    ∃ n, loop.After ctx invoke first count n := by
  induction count with
  | zero => exact ⟨first, .zero⟩
  | succ count ih =>
    obtain ⟨n, hn⟩ := ih fun k n hk => h k n (Nat.lt_succ_of_lt hk)
    exact hn.exists_succ (h count n (Nat.lt_succ_self _) hn)

end Passes

section Cursor

/-- The scope that an iteration opens finds the cursor in the scope of the loop. -/
theorem cursorAt_of_kept {i : Int64} (h : loop.cell.Kept (loop.binding i) n.store) :
    loop.CursorAt n i.toInt := by
  rintro _ _ ⟨⟩
  refine ⟨i, rfl, ?_⟩
  have hresolve := Store.resolve?_openScope .block h.owner_lt n.store.scopes.size loop.cursor
  rw [if_pos rfl] at hresolve
  exact hresolve.trans (Store.resolve?_eq_some_iff.mpr ⟨loop.scope, .refl _ _ _, h.found⟩)

/-- An iteration cannot change the cursor if the body has no assignment to its name. -/
theorem spares_iteration {i : Int64} (hi : Sparing loop.cell (loop.binding i) invoke)
    (hn : loop.cell.Kept (loop.binding i) n.store)
    (hbody : Stmt.assignsAny loop.cursor loop.body = false) :
    Spares loop.cell (loop.binding i) (loop.iteration ctx invoke) n fun _ _ => True := by
  -- the body runs inside the scope of the cursor, so it must not assign to the name
  have hspared : loop.cell.Spared n.store loop.scope (Stmt.assignsAny loop.cell.name loop.body) :=
    ⟨hn.owner_lt, fun _ => hbody⟩
  refine .bind (Eval.spares_openScope hn .block hspared) fun inner o ho _ ⟨hinner, _⟩ => ?_
  exact (Eval.spares_block hi ho Completion.sparedBy_empty loop.body hinner).mono
    fun _ _ _ => trivial

/-- The cursor moves by one step. -/
theorem kept_moveCursor {i : Int64} {next : Machine}
    (h : loop.cell.Kept (loop.binding i) n.store)
    (hmove : Eval.moveCursor loop.scope loop.cursor loop.range.step n = .ok () next) :
    loop.cell.Kept (loop.binding (i + loop.range.step)) next.store := by
  have hresolve : Machine.resolve? loop.scope loop.cursor n = .ok (some (loop.binding i)) n :=
    congrArg (EStateM.Result.ok · n)
      (Store.resolve?_eq_some_iff.mpr ⟨loop.scope, .refl _ _ _, h.found⟩)
  rw [Eval.moveCursor, Eval.bind_apply, hresolve] at hmove
  cases hmove
  exact h.assign_self (Cell.sparedBy_of_formed (.int _)) rfl rfl

/-- The cursor is at the number that the steps so far lead to, and nobody else can change it. -/
theorem After.kept (hi : ∀ b, Sparing loop.cell b invoke)
    (hbody : Stmt.assignsAny loop.cursor loop.body = false)
    (hfirst : loop.cell.Kept (loop.binding loop.range.start) first.store)
    (h : loop.After ctx invoke first k n) :
    ∃ i, loop.cell.Kept (loop.binding i) n.store ∧
      (k < loop.range.length.toNat → i.toInt = loop.range.nth k) := by
  induction h with
  | zero => exact ⟨loop.range.start, hfirst, fun _ => (Range.nth_zero _).symm⟩
  | succ _ hiter _ hmove ih =>
    obtain ⟨i, hn, hnth⟩ := ih
    obtain ⟨ho, -, -⟩ := spares_iteration (hi _) hn hbody _ _ hiter
    refine ⟨i + loop.range.step, kept_moveCursor ho hmove, fun hk => ?_⟩
    -- only the move after the last iteration may wrap around, and no iteration finds its result
    exact Range.toInt_add_step (hnth (Nat.lt_of_succ_lt hk)) ((Range.before_nth_iff _ _).mpr hk)

end Cursor

end Loop

end TagScript
