import Mathlib.Data.List.Forall2
import TagScript.Proofs.Machine.Changes
import TagScript.Proofs.Store.Relocate

/-!
# Two Runs Side by Side

A `Pairing` sets two runs side by side, the left one and the right one. They may differ in what a
program cannot see: the script that diagnostics quote, the positions in the trees, the events from
before, and scopes from before, which give the scopes of the right run other numbers. They may also
differ in the limit of active calls, where the right one may have more room.

`Pairing.Follows` says of two computations that the right one does what the left one does: from
machines that are paired, both succeed with results that differ in places only, or both stop in
the same way; the left one may also stop because it has come to its limit where the right one has
not. This is proved here for the operations that the evaluator is made of, one rule for each way in
which they are put together.
-/

namespace TagScript

/-- The right event is the left one, where the note about a statement at `p` shows the line of
`f p`. -/
inductive Event.Moved (f : Position → Position) : Event → Event → Prop
  /-- A statement was noted at its position. -/
  | statement (kind : String) (p : Position) :
      Moved f (.noted (.statement kind p.line)) (.noted (.statement kind (f p).line))
  /-- No other event has a position. -/
  | same {e : Event} (h : ∀ kind line, e ≠ .noted (.statement kind line)) : Moved f e e

/-- Two runs, of which the right one may have more room for active calls. -/
structure Pairing where
  /-- What stays fixed during the left run. -/
  left : Context
  /-- What stays fixed during the right run. -/
  right : Context
  /-- The positions and the numbers of scopes of the right run, in terms of those of the left
  one. -/
  carry : Relocation
  /-- The events from before the left run. -/
  leftPast : List Event
  /-- The events from before the right run. -/
  rightPast : List Event
  /-- Both programs run in the same outermost scope. -/
  global : right.global = carry.scope left.global
  /-- Both runs are traced, or none is. -/
  traced : right.traced = left.traced
  /-- A request to exit ends both runs, or none. -/
  exitEnds : right.exitEnds = left.exitEnds
  /-- The right run has the room that the left one has. -/
  limit_le : left.limit ≤ right.limit

namespace Pairing

variable {α β γ δ : Type} (w : Pairing)

/-- Where the left tree has the position `p`, the right one has `move p`. -/
abbrev move (p : Position) : Position :=
  w.carry.position p

/-- Where the left run has the scope `id`, the right one has `number id`. -/
abbrev number (id : ScopeId) : ScopeId :=
  w.carry.scope id

/-- Two machines that differ only in places and in the scopes and the events from before. -/
structure Machines (m n : Machine) : Prop where
  /-- The scopes are the same, behind those from before. -/
  store : n.store = m.store.relocate w.carry
  /-- The same calls are active. -/
  frames : n.frames = m.frames
  /-- The same random numbers are to come. -/
  random : n.random = m.random
  /-- Since the runs began, the same events were noticed. -/
  events : ∃ es es', m.events.toList = w.leftPast ++ es ∧ n.events.toList = w.rightPast ++ es' ∧
    List.Forall₂ (Event.Moved w.move) es es'

/-- Two stops of one kind. Errors have one cause and one trace, each at its own position in its own
script. -/
inductive Stops : Stop → Stop → Prop
  | error (p : Position) (cause : Cause) (stack : List String) :
      Stops (.error { w.left.errorAt p cause with stack })
        (.error { w.right.errorAt (w.move p) cause with stack })
  | fault (f : Fault) : Stops (.fault f) (.fault f)
  | halt (code : Int64) : Stops (.halt code) (.halt code)

/-- The left run has come to its limit, and the right one has a larger limit. -/
structure Cut (s : Stop) : Prop where
  /-- The right run has more room. -/
  limit_lt : w.left.limit < w.right.limit
  /-- The stop is an error about the limit. -/
  error : ∃ e, s = .error e ∧ e.cause = .depth w.left.limit

/-- Two ends of computations. -/
inductive Results (g : α → β) :
    EStateM.Result Stop Machine α → EStateM.Result Stop Machine β → Prop
  /-- Both succeed, and the right result is that of `g`. -/
  | ok {a : α} {m n : Machine} (h : w.Machines m n) : Results g (.ok a m) (.ok (g a) n)
  /-- Both stop in the same way. -/
  | stop {s t : Stop} {m n : Machine} (hs : w.Stops s t) (h : w.Machines m n) :
      Results g (.error s m) (.error t n)
  /-- The left one comes to its limit. -/
  | cut {s : Stop} {m : Machine} {r : EStateM.Result Stop Machine β} (hs : w.Cut s) :
      Results g (.error s m) r

/-- The right computation does what the left one does, up to `g` on the results. -/
def Follows (g : α → β) (x : Eval α) (y : Eval β) : Prop :=
  ∀ m n, w.Machines m n → w.Results g (x m) (y n)

namespace Follows

variable {w} {g : α → β} {h : γ → δ}

/-- Both succeed at once. -/
theorem pure (a : α) : w.Follows g (Pure.pure a) (Pure.pure (g a)) :=
  fun _ _ hmn => .ok hmn

/-- Both fail with the same cause, each at its own position. -/
theorem fail (p : Position) (c : Cause) :
    w.Follows g (w.left.fail p c) (w.right.fail (w.move p) c) :=
  fun _ _ hmn => .stop (.error p c []) hmn

/-- Nothing is done after a failure. -/
theorem fail_bind (p : Position) (c : Cause) {k : α → Eval γ} {k' : β → Eval δ} :
    w.Follows h (w.left.fail p c >>= k) (w.right.fail (w.move p) c >>= k') :=
  fun _ _ hmn => .stop (.error p c []) hmn

/-- Both stop with the same fault. -/
theorem fault (f : Fault) : w.Follows g (throw (.fault f)) (throw (.fault f)) :=
  fun _ _ hmn => .stop (.fault f) hmn

/-- Both are ended by the host, whatever would have come next. -/
theorem halt (code : Int64) {k : α → Eval γ} {k' : β → Eval δ} :
    w.Follows h (throw (.halt code) >>= k) (throw (.halt code) >>= k') :=
  fun _ _ hmn => .stop (.halt code) hmn

/-- Both do one thing after the other. -/
theorem bind {x : Eval α} {y : Eval β} {k : α → Eval γ} {k' : β → Eval δ} (hx : w.Follows g x y)
    (hk : ∀ a, w.Follows h (k a) (k' (g a))) : w.Follows h (x >>= k) (y >>= k') := by
  intro m n hmn
  have hr := hx m n hmn
  rw [Eval.bind_apply, Eval.bind_apply]
  generalize x m = r at hr ⊢
  generalize y n = r' at hr ⊢
  cases hr with
  | ok hmn' => exact hk _ _ _ hmn'
  | stop hs hmn' => exact .stop hs hmn'
  | cut hs => exact .cut hs

/-- A computation that goes on with what it reads off the machine. -/
theorem get {k : Machine → Eval γ} {k' : Machine → Eval δ}
    (hk : ∀ m n, w.Machines m n → w.Follows h (k m) (k' n)) :
    w.Follows h (MonadState.get >>= k) (MonadState.get >>= k') :=
  fun m n hmn => hk m n hmn m n hmn

/-- Both take the same branch. -/
theorem ite {c d : Prop} [Decidable c] [Decidable d] {x x' : Eval α} {y y' : Eval β}
    (hcd : d ↔ c) (hx : w.Follows g x y) (hy : w.Follows g x' y') :
    w.Follows g (if c then x else x') (if d then y else y') := by
  by_cases hc : c
  · rw [if_pos hc, if_pos (hcd.mpr hc)]
    exact hx
  · rw [if_neg hc, if_neg (fun hd => hc (hcd.mp hd))]
    exact hy

/-- A computation on the stored scopes. -/
theorem store {x : Eval α} {y : Eval β} (op : Store → α × Store) (op' : Store → β × Store)
    (hx : ∀ m, x m = .ok (op m.store).1 { m with store := (op m.store).2 })
    (hy : ∀ n, y n = .ok (op' n.store).1 { n with store := (op' n.store).2 })
    (hop : ∀ s, op' (s.relocate w.carry) = (g (op s).1, (op s).2.relocate w.carry)) :
    w.Follows g x y := by
  intro m n hmn
  rw [hx, hy, hmn.store, hop]
  exact .ok ⟨rfl, hmn.frames, hmn.random, hmn.events⟩

/-- Random numbers are drawn, and the same ones on both sides. -/
theorem draw (f : Random.Generator → α × Random.Generator) {k : α → Eval γ} {k' : α → Eval δ}
    (hk : ∀ g, w.Follows h (k (f g).1) (k' (f g).1)) :
    w.Follows h
      ((modifyGet fun m : Machine => ((f m.random).1, { m with random := (f m.random).2 })) >>= k)
      ((modifyGet fun n : Machine => ((f n.random).1, { n with random := (f n.random).2 })) >>=
        k') := by
  intro m n hmn
  have hdrawn : w.Machines { m with random := (f m.random).2 }
      { n with random := (f n.random).2 } :=
    ⟨hmn.store, hmn.frames, by rw [hmn.random], hmn.events⟩
  have hnext := hk m.random _ _ hdrawn
  change w.Results h (k (f m.random).1 { m with random := (f m.random).2 })
    (k' (f n.random).1 { n with random := (f n.random).2 })
  rw [hmn.random] at hnext ⊢
  exact hnext

/-- An active call on both sides. -/
theorem inFrame {x : Eval α} {y : Eval β} (function : String) (hx : w.Follows g x y) :
    w.Follows g (Machine.inFrame function x) (Machine.inFrame function y) := by
  intro m n hmn
  have hentered : w.Machines { m with frames := function :: m.frames }
      { n with frames := function :: n.frames } :=
    ⟨hmn.store, congrArg (function :: ·) hmn.frames, hmn.random, hmn.events⟩
  have hleft {m n : Machine} (h : w.Machines m n) :
      w.Machines { m with frames := m.frames.tail } { n with frames := n.frames.tail } :=
    ⟨h.store, congrArg List.tail h.frames, h.random, h.events⟩
  have hr := hx _ _ hentered
  unfold Machine.inFrame
  generalize x { m with frames := function :: m.frames } = r at hr ⊢
  generalize y { n with frames := function :: n.frames } = r' at hr ⊢
  cases hr with
  | ok hmn' => exact .ok (hleft hmn')
  | stop hs hmn' =>
    cases hs with
    | error p cause stack => exact .stop (.error p cause (stack ++ [function])) (hleft hmn')
    | fault f => exact .stop (.fault f) (hleft hmn')
    | halt code => exact .stop (.halt code) (hleft hmn')
  | cut hs =>
    -- an error about the limit is still one outside the call
    obtain ⟨hlt, e, rfl, he⟩ := hs
    exact .cut ⟨hlt, e.unwind function, rfl, he⟩

end Follows

section Operations

variable (scope : ScopeId) (p : Position)

theorem follows_notice {e e' : Event} (h : e.Moved w.move e') :
    w.Follows id (Machine.notice e) (Machine.notice e') := by
  intro m n hmn
  obtain ⟨es, es', hes, hes', hmoved⟩ := hmn.events
  refine .ok ⟨hmn.store, hmn.frames, hmn.random, es ++ [e], es' ++ [e'], ?_, ?_, ?_⟩
  · simp [hes]
  · simp [hes']
  · exact List.rel_append hmoved (.cons h .nil)

/-- Both make their notes, or neither does. -/
theorem follows_note {step step' : Machine → Note}
    (h : ∀ m n, w.Machines m n → Event.Moved w.move (.noted (step m)) (.noted (step' n))) :
    w.Follows id (Machine.note w.left step) (Machine.note w.right step') := by
  refine .ite (by rw [w.traced]) ?_ (.pure _)
  exact .get fun m n hmn => w.follows_notice (h m n hmn)

/-- Both open a scope, under numbers that go together. -/
theorem follows_openScope (kind : ScopeKind) (parent : ScopeId) :
    w.Follows w.number (Machine.openScope kind parent)
      (Machine.openScope kind (w.number parent)) :=
  .store (·.openScope kind parent) (·.openScope kind (w.number parent)) (fun _ => rfl)
    (fun _ => rfl) (·.openScope_relocate w.carry kind parent)

/-- Both add the binding, or both refuse it. -/
theorem follows_define (b : Binding) :
    w.Follows id (Machine.define scope b)
      (Machine.define (w.number scope) (b.relocate w.carry)) :=
  .store (·.define scope b) (·.define (w.number scope) (b.relocate w.carry)) (fun _ => rfl)
    (fun _ => rfl) (·.define_relocate w.carry scope b)

/-- Both assign the value, or both refuse it for the same reason. -/
theorem follows_assign (name : String) (v : Value) :
    w.Follows id (Machine.assign scope name v)
      (Machine.assign (w.number scope) name (v.relocate w.carry)) :=
  .store (·.assign scope name v) (·.assign (w.number scope) name (v.relocate w.carry))
    (fun _ => rfl) (fun _ => rfl) (·.assign_relocate w.carry scope name v)

/-- A name resolves to the same binding in both, as no scope from before is in reach. -/
theorem follows_resolve (name : String) :
    w.Follows (Option.map (Binding.relocate w.carry)) (Machine.resolve? scope name)
      (Machine.resolve? (w.number scope) name) := by
  refine .get fun m n hmn => ?_
  rw [hmn.store, Store.resolve?_relocate]
  exact .pure _

/-- Both find the name, or neither does. -/
theorem follows_bindingOf (name : String) :
    w.Follows (Binding.relocate w.carry) (Eval.bindingOf w.left scope p name)
      (Eval.bindingOf w.right (w.number scope) (w.move p) name) := by
  refine .bind (w.follows_resolve scope name) fun found => ?_
  cases found with
  | none => exact .fail p _
  | some b => exact .pure b

theorem follows_requireDeclared (name : String) :
    w.Follows id (Eval.requireDeclared w.left scope p name)
      (Eval.requireDeclared w.right (w.number scope) (w.move p) name) := by
  refine .get fun m n hmn => ?_
  rw [hmn.store, Store.isDeclared_relocate]
  exact .ite Iff.rfl (.fail p _) (.pure _)

/-- Both assign, or both say why they do not. -/
theorem follows_assignValue (name : String) (valueAt : Position) (v : Value) :
    w.Follows id (Eval.assignValue w.left scope p name valueAt v)
      (Eval.assignValue w.right (w.number scope) (w.move p) name (w.move valueAt)
        (v.relocate w.carry)) := by
  refine .bind (w.follows_assign scope name v) fun outcome => ?_
  cases outcome with
  | ok => exact .pure _
  | undeclared => exact .fail p _
  | immutable => exact .fail p _
  | typeMismatch =>
    refine .bind (w.follows_resolve scope name) fun found => ?_
    -- the message names the tag of the binding and that of the value
    have htag : ((found.map (Binding.relocate w.carry)).map Binding.tag).getD .unknown =
        (found.map Binding.tag).getD .unknown := by
      cases found <;> rfl
    simp only [htag, Value.tag_relocate]
    exact .fail valueAt _

theorem follows_checkCallable (v : Value) :
    w.Follows id (Eval.checkCallable w.left p v)
      (Eval.checkCallable w.right (w.move p) (v.relocate w.carry)) := by
  have hcallable : Eval.isCallable (v.relocate w.carry) = Eval.isCallable v := by
    cases v <;> rfl
  unfold Eval.checkCallable
  rw [hcallable, Value.tag_relocate]
  exact .ite Iff.rfl (.fail p _) (.pure _)

/-- Only the tag of the item matters. -/
theorem follows_checkItem (want : Tag) (v : Value) :
    w.Follows id (Eval.checkItem w.left p want v)
      (Eval.checkItem w.right (w.move p) want (v.relocate w.carry)) := by
  unfold Eval.checkItem
  rw [Value.tag_relocate]
  exact .ite Iff.rfl (.fail p _) (.pure _)

/-- A value without functions is the same on both sides. -/
theorem follows_value {v : Value} (hv : v.relocate w.carry = v) :
    w.Follows (Value.relocate w.carry) (pure v) (pure v) := by
  have hpure : w.Follows (Value.relocate w.carry) (pure v) (pure (v.relocate w.carry)) := .pure v
  rw [hv] at hpure
  exact hpure

/-- What an operator computes, if that holds no functions. -/
theorem follows_accept {r : Except Refusal Value}
    (hr : ∀ v, r = .ok v → v.relocate w.carry = v) :
    w.Follows (Value.relocate w.carry) (w.left.accept p r) (w.right.accept (w.move p) r) := by
  unfold Context.accept
  cases r with
  | ok v => exact w.follows_value (hr v rfl)
  | error refusal =>
    cases refusal with
    | cause c => exact .fail p c
    | fault f => exact .fault f

/-- No function that every script finds looks at a scope, so both get the same answer. -/
theorem follows_builtin (b : Builtin) (args : List Arg) :
    w.Follows (Value.relocate w.carry) (b.call w.left args p)
      (b.call w.right (args.map (Arg.relocate w.carry)) (w.move p)) := by
  unfold Builtin.call
  simp only [Builtin.answer_relocate]
  refine .draw (b.answer args) fun g => ?_
  cases hanswer : (b.answer args g).1 with
  | error cause => exact .fail p cause
  | ok answer =>
    cases answer with
    | value v => exact w.follows_value (Builtin.relocate_of_answer hanswer)
    | fault f => exact .fault f
    | print text =>
      exact .bind (w.follows_notice (.same (by rintro kind line ⟨⟩))) fun _ => .pure Value.null
    | exit code =>
      refine .bind (w.follows_notice (.same (by rintro kind line ⟨⟩))) fun _ => ?_
      exact .ite (by rw [w.exitEnds]) (.halt code) (.pure Value.null)

/-- A call of such a function notices itself on both sides. -/
theorem follows_callBuiltin (b : Builtin) (args : List Arg) :
    w.Follows (Value.relocate w.carry) (Eval.callBuiltin w.left b args p)
      (Eval.callBuiltin w.right b (args.map (Arg.relocate w.carry)) (w.move p)) := by
  refine .bind (w.follows_note fun m n hmn => ?_) fun _ => w.follows_builtin p b args
  -- the note shows the arguments and the innermost active call
  rw [Arg.describe_relocate, Machine.caller, Machine.caller, hmn.frames]
  exact .same (by rintro kind line ⟨⟩)

theorem follows_declare (b : Binding) :
    w.Follows id (Eval.declare w.left scope p b)
      (Eval.declare w.right (w.number scope) (w.move p) (b.relocate w.carry)) :=
  .bind (w.follows_define scope b) fun _ => .ite Iff.rfl (.fail p _) (.pure _)

/-- Both declare the value, or both refuse it. -/
theorem follows_declareValue (constant : Bool) (name : String) (type : Option TypeName)
    (valueAt : Position) (v : Value) :
    w.Follows id (Eval.declareValue w.left scope p constant name type valueAt v)
      (Eval.declareValue w.right (w.number scope) (w.move p) constant name type (w.move valueAt)
        (v.relocate w.carry)) := by
  have hdeclare := w.follows_declare scope p ⟨name, v, v.tag, !constant⟩
  unfold Eval.declareValue
  rw [Value.tag_relocate]
  cases type with
  | none => exact hdeclare
  | some t => exact .ite Iff.rfl (.fail_bind valueAt _) hdeclare

/-- Each function remembers the scope in which it was declared on its side. -/
theorem follows_declareFunction (name : String) (params : List Param) (returns : Option TypeName)
    (body : List Stmt) :
    w.Follows id (Eval.declareFunction w.left scope p name params returns body)
      (Eval.declareFunction w.right (w.number scope) (w.move p) name params returns
        (Stmt.relocateAll w.move body)) := by
  refine .get fun m n hmn => ?_
  rw [hmn.store, Store.has_relocate]
  refine .ite Iff.rfl (.fail_bind p _) ?_
  cases Eval.repeated? (params.map Param.name) with
  | some param => exact .fail_bind p _
  | none =>
    exact .bind (w.follows_define scope
      ⟨name, .function ⟨name, params, returns, body, scope⟩, .function, false⟩) fun _ => .pure _

/-- Both cursors make the same step. -/
theorem follows_moveCursor (cursor : String) (step : Int64) :
    w.Follows id (Eval.moveCursor scope cursor step)
      (Eval.moveCursor (w.number scope) cursor step) := by
  refine .bind (w.follows_resolve scope cursor) fun found => ?_
  cases found with
  | none => exact .pure _
  | some b =>
    obtain ⟨name, v, tag, mutable⟩ := b
    cases v with
    | int n => exact .bind (w.follows_assign scope cursor (.int (n + step))) fun _ => .pure _
    | _ => exact .pure _

/-- Both loops have the same range. -/
theorem follows_loopRange (v : Value) :
    w.Follows id (Eval.loopRange w.left p v)
      (Eval.loopRange w.right (w.move p) (v.relocate w.carry)) := by
  cases v with
  | range r => exact .ite Iff.rfl (.fail p _) (.pure r)
  | _ => exact .fail p _

theorem follows_checkArity (c : Closure) (args : List Arg) :
    w.Follows id (Eval.checkArity w.left c args p)
      (Eval.checkArity w.right (c.relocate w.carry) (args.map (Arg.relocate w.carry))
        (w.move p)) := by
  unfold Eval.checkArity
  rw [List.length_map]
  exact .ite Iff.rfl (.fail p _) (.pure _)

/-- Both bind the parameters, each in its own scope. -/
theorem follows_bindParams (function : String) (params : List Param) (args : List Arg) :
    w.Follows id (Eval.bindParams w.left function scope p params args)
      (Eval.bindParams w.right function (w.number scope) (w.move p) params
        (args.map (Arg.relocate w.carry))) := by
  induction params generalizing args with
  | nil => exact .pure _
  | cons param params ih =>
    cases args with
    | nil => exact .pure _
    | cons arg args =>
      have hrest : w.Follows id
          (do
            Eval.declare w.left scope p ⟨param.name, arg.value, arg.value.tag, true⟩
            Eval.bindParams w.left function scope p params args)
          (do
            Eval.declare w.right (w.number scope) (w.move p)
              ⟨param.name, arg.value.relocate w.carry, arg.value.tag, true⟩
            Eval.bindParams w.right function (w.number scope) (w.move p) params
              (args.map (Arg.relocate w.carry))) :=
        .bind (w.follows_declare scope p ⟨param.name, arg.value, arg.value.tag, true⟩) fun _ =>
          ih args
      simp only [List.map_cons, Eval.bindParams, Arg.relocate, Value.tag_relocate]
      cases param.type with
      | none => exact hrest
      | some t => exact .ite Iff.rfl (.fail_bind p _) hrest

/-- Both open the scope of the call inside the one of the function. -/
theorem follows_openCall (c : Closure) (args : List Arg) :
    w.Follows w.number (Eval.openCall w.left c args p)
      (Eval.openCall w.right (c.relocate w.carry) (args.map (Arg.relocate w.carry))
        (w.move p)) := by
  refine .bind (w.follows_openScope .function c.scope) fun inner => ?_
  exact .bind (w.follows_bindParams inner p c.name c.params args) fun _ => .pure inner

/-- The note about a call counts scopes, and both have as many around the call. -/
theorem follows_noteCall (c : Closure) :
    w.Follows id (Eval.noteCall w.left c scope)
      (Eval.noteCall w.right (c.relocate w.carry) (w.number scope)) := by
  refine w.follows_note fun m n hmn => ?_
  rw [hmn.frames, hmn.store, Store.depth_relocate]
  exact .same (by rintro kind line ⟨⟩)

end Operations

end Pairing

end TagScript
