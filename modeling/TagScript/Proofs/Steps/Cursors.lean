import TagScript.Proofs.Steps.Annotations
import TagScript.Proofs.Steps.Formed

/-!
# Loops Have Their Cursors

A loop that is under way has a scope of its own, and that scope binds the cursor. Whatever the block
of the loop does, it neither loses this binding nor changes its tag or makes it constant, so at
every moment of a run each loop that is to go on, or that waits for a pass, finds a whole number
under its cursor and may assign to it (`HasCursors.steps`).

The only step that makes a loop is the one that opens its scope and binds its cursor (`step_loops`).
All the others leave it waiting, or end it.
-/

namespace TagScript

namespace Store

/-- A definition in the scope `id` is not refused, and the scope finds it under its name. -/
def Accepts (s : Store) (id : ScopeId) (b : Binding) : Prop :=
  (s.define id b).1 = true ∧ (s.define id b).2.find? id b.name = some b

/-- A stored scope accepts a name that it does not bind yet. -/
theorem accepts_of_fresh {s : Store} {id : ScopeId} {b : Binding} (hid : id < s.scopes.size)
    (hfresh : s.has id b.name = false) : s.Accepts id b := by
  refine ⟨?_, find?_define hid hfresh⟩
  rcases define_cases s id b with ⟨hhas, -⟩ | ⟨-, hd⟩
  · rw [hfresh] at hhas
    cases hhas
  · rw [hd]

/-- A scope that has just been opened accepts every definition. -/
theorem accepts_openScope (s : Store) (kind : ScopeKind) (parent : ScopeId) (b : Binding) :
    (s.openScope kind parent).2.Accepts (s.openScope kind parent).1 b := by
  have hscope : (s.openScope kind parent).2.scope? (s.openScope kind parent).1 =
      some (.empty kind (some parent)) := by
    rw [scope?_openScope, openScope_fst, if_pos rfl]
  exact accepts_of_fresh (scope?_lt hscope) (has_of_scope? hscope)

/-- The scope `id` binds the name to a whole number that may be assigned to. -/
def HoldsCursor (s : Store) (id : ScopeId) (name : String) : Prop :=
  ∃ b, s.find? id name = some b ∧ b.tag = .int ∧ b.mutable = true

/-- A cursor stays one, whatever becomes of the scopes. -/
theorem HoldsCursor.mono {s t : Store} {id : ScopeId} {name : String}
    (h : s.HoldsCursor id name) (hst : s.Extends t) : t.HoldsCursor id name := by
  obtain ⟨b, hb, htag, hmutable⟩ := h
  obtain ⟨c, hc, hcontinues⟩ := hst.find? hb
  exact ⟨c, hc, hcontinues.tag.trans htag, hcontinues.mutable.trans hmutable⟩

/-- A scope that holds a cursor is where the name is looked up from it, and what it finds there is a
whole number, to which another one may be assigned. -/
theorem HoldsCursor.lookup?_eq {s : Store} {id : ScopeId} {name : String}
    (h : s.HoldsCursor id name) (hs : s.Formed) :
    ∃ i, s.lookup? id name = some (id, ⟨name, .int i, .int, true⟩) ∧
      ∀ j, (s.assign id name (.int j)).1 = .ok := by
  obtain ⟨⟨x, v, tag, mutable⟩, hfind, rfl, rfl⟩ := h
  obtain ⟨scope, hscope, hb⟩ := Option.bind_eq_some_iff.mp hfind
  obtain ⟨hmem, rfl⟩ := Scope.mem_of_find? hb
  -- a binding has the tag of its value
  obtain ⟨htag, -⟩ := hs.binding id scope _ hscope hmem
  obtain ⟨i, rfl⟩ := (Value.tag_eq_int_iff v).mp htag.symm
  have hlookup : s.lookup? id x = some (id, ⟨x, .int i, .int, true⟩) := by
    rw [lookup?, hfind]
  refine ⟨i, hlookup, fun j => ?_⟩
  rw [assign, hlookup]
  rfl

end Store

namespace Steps

open Eval (Completion)

variable {ctx : Context} {α : Type}

/-- The scope and the cursor of a loop that waits for a pass. -/
def Frame.loop? : Frame → Option (ScopeId × String)
  | .pass outer cursor _ _ _ => some (outer, cursor)
  | _ => none

/-- The scope and the cursor of a loop that is to go on. -/
def Control.loop? : Control → Option (ScopeId × String)
  | .passes outer cursor _ _ _ => some (outer, cursor)
  | _ => none

/-- The loops among what waits. -/
def loopsOf (k : List Frame) : List (ScopeId × String) :=
  k.filterMap Frame.loop?

/-- The loops that are under way at a moment. -/
def State.loops (c : State) : List (ScopeId × String) :=
  c.control.loop?.toList ++ loopsOf c.stack

section Loops

variable {k : List Frame} {m : Machine}

/-- An operation on the machine makes no loop if what follows its success does not. -/
theorem proceed_loops {x : Eval α} {next : α → Machine → State} {ls : List (ScopeId × String)}
    (hk : loopsOf k ⊆ ls) (hnext : ∀ a n, (next a n).loops ⊆ ls) :
    (proceed x k m next).loops ⊆ ls := by
  unfold proceed
  cases x m with
  | ok a n => exact hnext a n
  | error s n => exact hk

/-- To begin an expression starts no loop. -/
theorem startExpr_loops (scope : ScopeId) (e : Expr) :
    (startExpr ctx scope k m e).loops ⊆ loopsOf k := by
  cases e with
  | name | assign => exact proceed_loops (List.Subset.refl _) fun _ _ => List.Subset.refl _
  | _ => exact List.Subset.refl _

/-- To go on with the arguments starts no loop. -/
theorem nextArg_loops (scope : ScopeId) (p : Position) (f : Value) (done : List Arg)
    (es : List Expr) : (nextArg ctx scope p f done k m es).loops ⊆ loopsOf k := by
  cases es with
  | nil => exact List.Subset.refl _
  | cons e rest =>
    cases e with
    | name => exact proceed_loops (List.Subset.refl _) fun _ _ => List.Subset.refl _
    | _ => exact List.Subset.refl _

/-- To begin a call starts no loop. -/
theorem startCall_loops (p : Position) (args : List Arg) (f : Value) :
    (startCall ctx p args k m f).loops ⊆ loopsOf k := by
  cases f with
  | builtin | function => exact proceed_loops (List.Subset.refl _) fun _ _ => List.Subset.refl _
  | _ => exact List.Subset.refl _

/-- To begin a statement starts no loop: the range comes first. -/
theorem startStmt_loops (scope : ScopeId) (s : Stmt) :
    (startStmt ctx scope k m s).loops ⊆ loopsOf k := by
  cases s with
  | function => exact proceed_loops (List.Subset.refl _) fun _ _ => List.Subset.refl _
  | ret p value => cases value <;> exact List.Subset.refl _
  | _ => exact List.Subset.refl _

/-- To begin a part of a choice starts no loop. -/
theorem startBranch_loops (scope : ScopeId) (body : Option (List Stmt)) :
    (startBranch scope k m body).loops ⊆ loopsOf k := by
  cases body with
  | none => exact List.Subset.refl _
  | some body => exact proceed_loops (List.Subset.refl _) fun _ _ => List.Subset.refl _

/-- Only a loop that waits for its range makes a loop of what it is handed. -/
theorem resume_loops {v : Value} {frame : Frame} {d : State} (h : resume ctx v k m frame = some d)
    (hframe : ∀ scope cursor rangeAt body, frame ≠ .loop scope cursor rangeAt body) :
    d.loops ⊆ loopsOf k := by
  cases frame with
  | loop scope cursor rangeAt body => exact absurd rfl (hframe scope cursor rangeAt body)
  | branch =>
    cases h
    exact startBranch_loops _ _
  | item | assign | callee | right | unary | step | declare =>
    cases h
    exact proceed_loops (List.Subset.refl _) fun _ _ => List.Subset.refl _
  | arg | left | ret | expr =>
    cases h
    exact List.Subset.refl _
  | _ => cases h

/-- To go on behind a statement starts no loop. -/
theorem complete_loops {done : Completion} {frame : Frame} {d : State}
    (h : complete ctx done k m frame = some d) : d.loops ⊆ loopsOf (frame :: k) := by
  cases frame with
  | block | program => cases done <;> cases h <;> exact List.Subset.refl _
  | pass outer cursor stride body count =>
    -- a loop whose pass returns is over, and any other one goes on
    cases done with
    | returning v =>
      cases h
      exact List.subset_cons_self _ _
    | _ =>
      cases h
      exact proceed_loops (List.subset_cons_self _ _) fun _ _ => List.Subset.refl _
  | body =>
    cases h
    exact proceed_loops (List.Subset.refl _) fun _ _ => List.Subset.refl _
  | _ => cases h

/-- Fewer waiting operations run no more loops. -/
theorem loopsOf_tail (frame : Frame) (k : List Frame) : loopsOf k ⊆ loopsOf (frame :: k) := by
  unfold loopsOf
  rw [List.filterMap_cons]
  split
  · exact List.Subset.refl _
  · exact List.subset_cons_self _ _

/-- A stop leaves the loop whose body it comes from. -/
theorem unwind_loops (s : Stop) (frame : Frame) : (unwind s k m frame).loops = loopsOf k := by
  cases frame <;> rfl

end Loops

/-- A step makes no loop unless it hands a value to a loop that waits for its range. -/
theorem step_loops {c d : State} (h : step ctx c = some d) :
    d.loops ⊆ c.loops ∨ ∃ v scope cursor rangeAt body k m,
      c = ⟨.value v, .loop scope cursor rangeAt body :: k, m⟩ := by
  obtain ⟨control, k, m⟩ := c
  cases control with
  | value v =>
    cases k with
    | nil => cases h
    | cons frame k =>
      -- only a value that a loop waits for opens one
      by_cases hframe : ∃ scope cursor rangeAt body, frame = .loop scope cursor rangeAt body
      · obtain ⟨scope, cursor, rangeAt, body, rfl⟩ := hframe
        exact .inr ⟨v, scope, cursor, rangeAt, body, k, m, rfl⟩
      · left
        have hloops : d.loops ⊆ loopsOf k :=
          resume_loops h fun scope cursor rangeAt body heq =>
            hframe ⟨scope, cursor, rangeAt, body, heq⟩
        exact List.Subset.trans hloops (loopsOf_tail frame k)
  | completed done =>
    cases k with
    | nil => cases h
    | cons frame k => exact .inl (complete_loops h)
  | stopped s =>
    cases k with
    | nil => cases h
    | cons frame k =>
      cases h
      left
      rw [unwind_loops]
      exact loopsOf_tail frame k
  | finished v => cases h
  | expr scope e =>
    cases h
    exact .inl (startExpr_loops scope e)
  | items scope elem done es =>
    cases h
    left
    cases es <;> exact List.Subset.refl _
  | args scope p f done es =>
    cases h
    exact .inl (nextArg_loops scope p f done es)
  | apply p f args =>
    cases h
    exact .inl (startCall_loops p args f)
  | stmt scope s =>
    cases h
    exact .inl (startStmt_loops scope s)
  | block scope last ss =>
    cases h
    left
    cases ss <;> exact List.Subset.refl _
  | passes outer cursor stride body n =>
    cases h
    left
    cases n with
    | zero => exact List.subset_cons_self _ _
    | succ n => exact proceed_loops (List.subset_cons_self _ _) fun _ _ => List.Subset.refl _
  | program last ss =>
    cases h
    left
    cases ss with
    | nil => exact List.Subset.refl _
    | cons s rest => exact proceed_loops (List.Subset.refl _) fun _ _ => List.Subset.refl _

/-- A loop is opened with its cursor. -/
theorem holdsCursor_openLoop {scope : ScopeId} {cursor : String} {rangeAt : Position} {v : Value}
    {m n : Machine} {outer : ScopeId} {r : Range}
    (h : openLoop ctx scope cursor rangeAt v m = .ok (outer, r) n) :
    n.store.HoldsCursor outer cursor := by
  unfold openLoop at h
  obtain ⟨r', m', hrange, hrest⟩ := Eval.bind_eq_ok.mp h
  cases hrest
  exact ⟨_, (Store.accepts_openScope m'.store .loop scope _).2, rfl, rfl⟩

/-- Each loop that is under way has its cursor. -/
def State.HasCursors (c : State) : Prop :=
  ∀ l ∈ c.loops, c.machine.store.HoldsCursor l.1 l.2

namespace State.HasCursors

variable {c d : State}

/-- Each step keeps the cursors, as a loop is started with its cursor bound. -/
theorem step (h : c.HasCursors) (hstep : step ctx c = some d) : d.HasCursors := by
  have hextends := (step_grows hstep).kept
  intro l hl
  rcases step_loops hstep with hloops | ⟨v, scope, cursor, rangeAt, body, k, m, rfl⟩
  · exact (h l (hloops hl)).mono hextends
  · cases hstep
    cases hopen : openLoop ctx scope cursor rangeAt v m with
    | ok opened n =>
      obtain ⟨outer, r⟩ := opened
      rw [proceed_ok hopen] at hl hextends ⊢
      -- the new loop is to go on, and the others wait as before
      obtain rfl | hl : l = (outer, cursor) ∨ l ∈ loopsOf k := List.mem_cons.mp hl
      · exact holdsCursor_openLoop hopen
      · exact (h l hl).mono hextends
    | error s n =>
      rw [proceed_error hopen] at hl hextends ⊢
      exact (h l hl).mono hextends

/-- In a run that starts with the cursors of its loops, each loop has its cursor at every moment. -/
theorem steps (h : c.HasCursors) (hsteps : Reaches ctx c d) : d.HasCursors := by
  induction hsteps with
  | refl => exact h
  | tail _ hstep ih => exact ih.step hstep

/-- A program starts without a loop. -/
theorem start (p : Program) (m : Machine) : (State.start p m).HasCursors := by
  intro l hl
  cases hl

end State.HasCursors

end Steps

end TagScript
