import TagScript.Proofs.Steps.Simulation
import TagScript.Proofs.Store.Extends

/-!
# Steps Only Extend the Scopes

Every step leaves the stored scopes as they were or extends them (`step_grows`), and so does every
run (`steps_grows`): bindings are added and assigned to, and none is lost, renamed or given another
tag. This asks nothing of the moment. Scopes that list exactly the names that they bind go on to do
so.
-/

namespace TagScript

/-- Scopes have become those of `t`, which extend them. -/
structure Store.Grows (s t : Store) : Prop where
  /-- The names that are listed are those that are bound, if they were before. -/
  consistent : s.Consistent → t.Consistent
  /-- The scopes extend those from before. -/
  kept : s.Extends t

namespace Store.Grows

variable {s t u : Store}

theorem refl (s : Store) : s.Grows s :=
  ⟨id, .refl s⟩

theorem trans (h : s.Grows t) (h' : t.Grows u) : s.Grows u :=
  ⟨fun hs => h'.consistent (h.consistent hs), h.kept.trans h'.kept⟩

end Store.Grows

namespace Machine

/-- A change of the machine leaves the scopes as they were or extends them. -/
theorem Change.grows {m n : Machine} (h : Change m n) : m.store.Grows n.store := by
  cases h with
  | notice e => exact .refl _
  | draw g => exact .refl _
  | openScope kind parent => exact ⟨fun hm => hm.openScope kind parent, .openScope _ kind parent⟩
  | define id b => exact ⟨fun hm => hm.define id b, .define _ id b⟩
  | assign id name v => exact ⟨fun hm => hm.assign id name v, .assign _ id name v⟩

/-- What an operation does to the machine makes the store grow. -/
theorem Changes.grows {m n : Machine} (h : Changes m n) : m.store.Grows n.store := by
  induction h with
  | refl => exact .refl _
  | tail _ hc ih => exact ih.trans hc.grows

end Machine

namespace Steps

open Eval (Completion Changing)
open Machine (after)

variable {ctx : Context} {α β : Type}

/-- A computation that only extends the scopes. -/
def Growing (x : Eval α) : Prop :=
  ∀ m : Machine, m.store.Grows (after x m).store

namespace Growing

/-- An operation that makes primitive changes only makes the store grow. -/
theorem of_changing {x : Eval α} (hx : Changing ctx x) : Growing x :=
  fun m => (hx.changes m).grows

/-- One operation after the other. -/
theorem bind {x : Eval α} {f : α → Eval β} (hx : Growing x) (hf : ∀ a, Growing (f a)) :
    Growing (x >>= f) := by
  intro m
  have hm := hx m
  unfold after at hm ⊢
  rw [Eval.bind_apply]
  cases hr : x m with
  | ok a n =>
    rw [hr] at hm
    exact hm.trans (hf a n)
  | error s n =>
    rw [hr] at hm
    exact hm

end Growing

theorem growing_openScope (kind : ScopeKind) (parent : ScopeId) :
    Growing (Machine.openScope kind parent) :=
  fun m => (Machine.Change.openScope m kind parent).grows

/-- Making a call active does not touch the scopes. -/
theorem growing_activate (f : Closure) (scope : ScopeId) :
    Growing (do pushFrame f.name; Eval.noteCall ctx f scope; return scope) := by
  -- pushing a frame is no `Change` of the machine, so it is looked at by itself
  have hpush : Growing (pushFrame f.name) := fun m => .refl m.store
  exact .bind hpush fun _ =>
    .of_changing (.bind (Eval.changing_noteCall ctx scope f) fun _ => .pure _)

/-- To enter a call is to bind its parameters in a new scope. -/
theorem growing_enter (f : Closure) (args : List Arg) (p : Position) :
    Growing (enter ctx f args p) := by
  -- the checks come first; only binding the parameters touches the scopes
  have hdepth : Changing ctx (checkDepth ctx p) :=
    .bind .get fun _ => .ite (fun _ => .fail _ _) (.pure _)
  refine .bind (.of_changing (Eval.changing_checkArity ctx p f args)) fun _ => ?_
  refine .bind (.of_changing hdepth) fun _ => ?_
  exact .bind (.of_changing (Eval.changing_openCall ctx p f args)) fun scope =>
    growing_activate f scope

/-- Ending a call does not touch the scopes. -/
theorem growing_leave (f : Closure) (p : Position) (c : Completion) :
    Growing (leave ctx f p c) := by
  have hpop : Growing popFrame := fun m => .refl m.store
  exact .bind hpop fun _ => .of_changing (Eval.changing_resultOf ctx p f c)

/-- An operation that is followed by what keeps the machine. -/
theorem proceed_grows {x : Eval α} {k : List Frame} {m : Machine} {next : α → Machine → State}
    (hx : Growing x) (hnext : ∀ a n, (next a n).machine = n) :
    m.store.Grows (proceed x k m next).machine.store := by
  have hm := hx m
  unfold after at hm
  unfold proceed
  cases hr : x m with
  | ok a n =>
    -- the moment that follows has the machine that the operation leaves
    rw [hr] at hm
    change m.store.Grows (next a n).machine.store
    rw [hnext]
    exact hm
  | error s n =>
    rw [hr] at hm
    exact hm

/-- An operation that is made of changes, followed by what keeps the machine. -/
theorem proceed_grows_of {x : Eval α} {k : List Frame} {m : Machine} {next : α → Machine → State}
    (hx : Changing ctx x) (hnext : ∀ a n, (next a n).machine = n) :
    m.store.Grows (proceed x k m next).machine.store :=
  proceed_grows (.of_changing hx) hnext

section Parts

variable (scope : ScopeId) (k : List Frame) (m : Machine)

/-- To begin an expression binds no name in a stored scope. -/
theorem startExpr_grows (e : Expr) : m.store.Grows (startExpr ctx scope k m e).machine.store := by
  cases e with
  | name p x => exact proceed_grows_of (Eval.changing_bindingOf ctx scope p x) fun _ _ => rfl
  | assign p x e =>
    exact proceed_grows_of (Eval.changing_requireDeclared ctx scope p x) fun _ _ => rfl
  | _ => exact .refl _

/-- To go on with the arguments touches nothing. -/
theorem nextArg_grows (p : Position) (f : Value) (done : List Arg) (es : List Expr) :
    m.store.Grows (nextArg ctx scope p f done k m es).machine.store := by
  cases es with
  | nil => exact .refl _
  | cons e rest =>
    cases e with
    | name q x => exact proceed_grows_of (Eval.changing_bindingOf ctx scope q x) fun _ _ => rfl
    | _ => exact .refl _

/-- To begin a call opens its scope. -/
theorem startCall_grows (p : Position) (args : List Arg) (f : Value) :
    m.store.Grows (startCall ctx p args k m f).machine.store := by
  cases f with
  | builtin b => exact proceed_grows_of (Eval.changing_callBuiltin ctx p b args) fun _ _ => rfl
  | function f => exact proceed_grows (growing_enter f args p) fun _ _ => rfl
  | _ => exact .refl _

/-- To begin a statement may declare a function. -/
theorem startStmt_grows (s : Stmt) : m.store.Grows (startStmt ctx scope k m s).machine.store := by
  cases s with
  | function p x params returns body =>
    exact proceed_grows_of (Eval.changing_declareFunction ctx scope p x params returns body)
      fun _ _ => rfl
  | ret p value => cases value <;> exact .refl _
  | _ => exact .refl _

/-- To begin a part of a choice opens its scope. -/
theorem startBranch_grows (body : Option (List Stmt)) :
    m.store.Grows (startBranch scope k m body).machine.store := by
  cases body with
  | none => exact .refl _
  | some body =>
    exact proceed_grows (growing_openScope .branch scope) fun _ _ => rfl

/-- To go on with a value may declare it or assign it, and both make the store grow. -/
theorem resume_grows {v : Value} {frame : Frame} {d : State}
    (h : resume ctx v k m frame = some d) : m.store.Grows d.machine.store := by
  cases frame with
  | item scope elem done p rest =>
    cases h
    exact proceed_grows_of (Eval.changing_checkItem ctx p _ v) fun _ _ => rfl
  | assign scope p x valueAt =>
    cases h
    exact proceed_grows_of (Eval.changing_assignValue ctx scope p x valueAt v) fun _ _ => rfl
  | callee scope p calleeAt es =>
    cases h
    exact proceed_grows_of (Eval.changing_checkCallable ctx calleeAt v) fun _ _ => rfl
  | right p left op =>
    cases h
    exact proceed_grows_of (Eval.changing_accept ctx p fun _ => Eval.fault_binary) fun _ _ => rfl
  | unary p op =>
    cases h
    exact proceed_grows_of (Eval.changing_accept ctx p fun _ h => absurd h Eval.fault_unary)
      fun _ _ => rfl
  | step p op =>
    cases h
    exact proceed_grows_of (Eval.changing_accept ctx p fun _ h => absurd h Eval.fault_step)
      fun _ _ => rfl
  | declare scope p constant x type valueAt =>
    cases h
    exact proceed_grows_of (Eval.changing_declareValue ctx scope p constant x type valueAt v)
      fun _ _ => rfl
  | branch scope yes no =>
    cases h
    exact startBranch_grows scope k m _
  | loop scope cursor rangeAt body =>
    cases h
    exact proceed_grows_of (changing_openLoop scope cursor rangeAt v) fun _ _ => rfl
  | arg => cases h; exact .refl _
  | left => cases h; exact .refl _
  | ret => cases h; exact .refl _
  | expr => cases h; exact .refl _
  | _ => cases h

/-- To go on behind a statement leaves a call or moves a cursor. -/
theorem complete_grows {done : Completion} {frame : Frame} {d : State}
    (h : complete ctx done k m frame = some d) : m.store.Grows d.machine.store := by
  cases frame with
  | block scope rest => cases done <;> cases h <;> exact .refl _
  | pass outer cursor stride body count =>
    cases done with
    | returning v =>
      cases h
      exact .refl _
    | _ =>
      cases h
      exact proceed_grows_of (Eval.changing_moveCursor outer cursor stride : Changing ctx _)
        fun _ _ => rfl
  | body f p =>
    cases h
    exact proceed_grows (growing_leave f p done) fun _ _ => rfl
  | program rest => cases done <;> cases h <;> exact .refl _
  | _ => cases h

end Parts

/-- A step leaves the scopes as they were or extends them. -/
theorem step_grows {c d : State} (h : step ctx c = some d) :
    c.machine.store.Grows d.machine.store := by
  -- most steps do not touch the scopes; those that do are operations on the machine
  obtain ⟨control, k, m⟩ := c
  cases control with
  | expr scope e =>
    cases h
    exact startExpr_grows scope k m e
  | items scope elem done es =>
    cases h
    cases es <;> exact .refl _
  | args scope p f done es =>
    cases h
    exact nextArg_grows scope k m p f done es
  | apply p f args =>
    cases h
    exact startCall_grows k m p args f
  | stmt scope s =>
    cases h
    exact startStmt_grows scope k m s
  | block scope last ss =>
    cases h
    cases ss <;> exact .refl _
  | passes outer cursor stride body n =>
    cases h
    cases n with
    | zero => exact .refl _
    | succ n =>
      exact proceed_grows (growing_openScope .block outer) fun _ _ => rfl
  | program last ss =>
    cases h
    cases ss with
    | nil => exact .refl _
    | cons s rest => exact proceed_grows_of (Eval.changing_note ctx _) fun _ _ => rfl
  | value v =>
    cases k with
    | nil => cases h
    | cons frame k => exact resume_grows k m h
  | completed done =>
    cases k with
    | nil => cases h
    | cons frame k => exact complete_grows k m h
  | finished v => cases h
  | stopped s =>
    cases k with
    | nil => cases h
    | cons frame k =>
      cases h
      cases frame <;> exact .refl _

/-- A run leaves the scopes as they were or extends them. -/
theorem steps_grows {c d : State} (h : Reaches ctx c d) :
    c.machine.store.Grows d.machine.store := by
  induction h with
  | refl => exact .refl _
  | tail _ hstep ih => exact ih.trans (step_grows hstep)

end Steps

end TagScript
