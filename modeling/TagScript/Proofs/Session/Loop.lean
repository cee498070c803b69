import TagScript.Proofs.Eval.Loop
import TagScript.Proofs.Session.Depth
import TagScript.Proofs.Session.Typing

/-!
# A Loop Visits Exactly Its Range

At any moment of any session, a loop whose body has no assignment to the name of the cursor goes
through the numbers of its range, in order and without a gap (`loop_visits_range`). The body may
call any function that there is, declare functions that see the cursor, keep them beyond the loop
and run loops over cursors of the same name. None of this changes the cursor: a function that is
there when the loop starts was declared outside its scope, and one that is declared in the body has
no assignment to the name.
-/

namespace TagScript.Session

open Steps (State)

/-- The stored scopes are well formed after an expression was evaluated at some moment. -/
theorem formed_of_expr {s : Session} {p : Program} {c : State} (hs : s.Reachable)
    (hc : s.Moment p c) {scope : ScopeId} (hscope : scope < c.machine.size) {e : Expr} {v : Value}
    {m : Machine}
    (he : Eval.expr s.context (Eval.call s.context (c.machine.spare s.context)) scope e c.machine =
      .ok v m) : m.store.Formed := by
  -- the evaluator does what the steps do, and these keep the scopes well formed
  have hlimit := (moment_counted hs.frames_eq_nil hc).le_limit
  have hsteps := (Steps.does_expr (Steps.invokes_spare hlimit) scope e [] c.machine rfl).1
  rw [he] at hsteps
  have hstart : State.Formed ⟨.expr scope e, [], c.machine⟩ :=
    ⟨(moment_formed hs hc).store, hscope, by simp⟩
  exact (hstart.steps (moment_global_lt hs hc) hsteps).store

/-- A loop visits exactly its range, at every moment of every session. The iteration after `k`
others finds the cursor at the number that `k` steps lead to, in integers without bounds, and this
number is strictly before the end. If no iteration returns or stops, the statement ends without a
value after as many iterations as the range is long. If one of them does, that is the end of the
statement, and the machine is left as that iteration leaves it. -/
theorem loop_visits_range {s : Session} {p : Program} {c : State} (hs : s.Reachable)
    (hc : s.Moment p c) {scope : ScopeId} (hscope : scope < c.machine.size) {cursor : String}
    {e : Expr} {body : List Stmt} {r : Range} {m : Machine} (q : Position)
    (he : Eval.expr s.context (Eval.call s.context (c.machine.spare s.context)) scope e c.machine =
      .ok (.range r) m)
    (hstep : r.step ≠ 0) (hbody : Stmt.assignsAny cursor body = false) :
    let invoke := Eval.call s.context (c.machine.spare s.context)
    let loop : Loop := ⟨m.size, cursor, r, body⟩
    let first := loop.entered scope m
    let outcome := Eval.stmt s.context invoke scope (.loop q cursor e body) c.machine
    (∀ k n, loop.After s.context invoke first k n → k < r.length.toNat →
      loop.CursorAt n (r.nth k) ∧ r.Before (r.nth k)) ∧
    ((∀ k n, loop.After s.context invoke first k n → k < r.length.toNat →
        ¬ loop.Breaks s.context invoke n) →
      ∃ n, loop.After s.context invoke first r.length.toNat n ∧ outcome = .ok .empty n) ∧
    ∀ k n, loop.After s.context invoke first k n → k < r.length.toNat →
      (∀ v o, loop.iteration s.context invoke n = .ok (.returning v) o →
        outcome = .ok (.returning v) o) ∧
      ∀ stop o, loop.iteration s.context invoke n = .error stop o → outcome = .error stop o := by
  intro invoke loop first outcome
  have houtcome : outcome =
      Eval.passes r.length.toNat (loop.pass s.context invoke) first := Loop.stmt_eq_passes he hstep
  -- no function that is stored by now was declared inside the scope of the loop
  have hfirst : loop.cell.Kept (loop.binding r.start) first.store :=
    Cell.kept_fresh (formed_of_expr hs hc hscope he) .loop scope (loop.binding r.start) (.int _)
  refine ⟨?_, ?_, ?_⟩
  · intro k n hafter hk
    obtain ⟨i, hkept, hnth⟩ :=
      hafter.kept (fun _ => Eval.sparing_call s.context _) hbody hfirst
    refine ⟨?_, (Range.before_nth_iff r k).mpr hk⟩
    rw [← hnth hk]
    exact Loop.cursorAt_of_kept hkept
  · intro hnone
    obtain ⟨n, hafter⟩ := Loop.exists_after fun k n hk hafter => hnone k n hafter hk
    refine ⟨n, hafter, ?_⟩
    rw [houtcome, ← Nat.add_zero r.length.toNat, hafter.passes_eq 0]
    rfl
  · intro k n hafter hk
    rw [houtcome]
    exact ⟨fun v o hv => hafter.passes_of_returning hk hv,
      fun stop o hstop => hafter.passes_of_error hk hstop⟩

/-- A loop over `0`, `4` and `8`, whose body declares a function that sees the cursor and has a loop
over a cursor of the same name. -/
theorem loop_visits_range_nested :
    let s := new ⟨2, .plain, 0, false, false⟩
    let c := State.start [] s.machine
    let invoke := Eval.call s.context (c.machine.spare s.context)
    let range (bounds : List Int64) : Expr :=
      .call .start (.name .start "range") (bounds.map (.int .start))
    let body : List Stmt :=
      [.function .start "f" [] none [.ret .start (some (.name .start "i"))],
        .loop .start "i" (range [0, 2]) [.expr .start (.call .start (.name .start "f") [])]]
    let loop : Loop := ⟨1, "i", ⟨0, 10, 4⟩, body⟩
    s.Reachable ∧ s.Moment [] c ∧
      Eval.expr s.context invoke 0 (range [0, 10, 4]) c.machine =
        .ok (.range ⟨0, 10, 4⟩) c.machine ∧
      Stmt.assignsAny "i" body = false ∧
      ∀ k n, loop.After s.context invoke (loop.entered 0 c.machine) k n → k < 3 →
        loop.CursorAt n (4 * k) := by
  intro s c invoke range body loop
  have hs : s.Reachable := .new _
  have hc : s.Moment [] c := .refl
  have he : Eval.expr s.context invoke 0 (range [0, 10, 4]) c.machine =
      .ok (.range ⟨0, 10, 4⟩) c.machine := by
    dsimp only [range, invoke]
    with_unfolding_all rfl
  have hbody : Stmt.assignsAny "i" body = false := by decide
  refine ⟨hs, hc, he, hbody, fun k n hafter hk => ?_⟩
  obtain ⟨hvisits, -⟩ := loop_visits_range hs hc (by decide) .start he (by decide) hbody
  have hcursor : loop.CursorAt n (Range.nth ⟨0, 10, 4⟩ k) := (hvisits k n hafter hk).1
  have hnth : Range.nth ⟨0, 10, 4⟩ k = 4 * k := by
    change (0 : ℤ) + k * 4 = 4 * k
    omega
  rw [hnth] at hcursor
  exact hcursor

end TagScript.Session
