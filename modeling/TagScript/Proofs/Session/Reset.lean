import TagScript.Proofs.Eval.Unseen
import TagScript.Proofs.Session.Moments
import TagScript.Proofs.Session.Relocate

/-!
# A Reset Session Is as New

After a reset nothing of what a session went through shows any more: whatever is asked of it, one
request after the other, it answers like a new session that has the same settings, the same script
and the same random numbers to come (`watch_reset`).

The scopes from before the reset are still stored, with everything that is bound in them, and so are
the events. The reset session is the new one behind this past (`reset_eq`): its scopes are those of
the new session under larger numbers. What a session does behind a past is what it does without, up
to the numbers of scopes in the values (`serve_behind`), as no name resolves to a binding of the
past and no operation comes to a scope of it. And these numbers do not show (`appearance_behind`).
-/

namespace TagScript

attribute [ext] Session

namespace Outcome

/-- What shows of an outcome: of a value its tag and both of its texts, of anything else all. -/
inductive Shown where
  | value (v : Option (Tag × String × String))
  | error (e : RuntimeError)
  | fault (f : Fault)
  | halt (code : Int64)

/-- What shows of an outcome. -/
def seen : Outcome → Shown
  | .value v => .value (v.map fun v => (v.tag, v.text, v.shown))
  | .error e => .error e
  | .fault f => .fault f
  | .halt code => .halt code

/-- The outcome after a relocation of the value. -/
def relocate (r : Relocation) : Outcome → Outcome
  | .value v => .value (v.map (Value.relocate r))
  | o => o

/-- No place shows of the value. -/
theorem seen_relocate (r : Relocation) (o : Outcome) : (o.relocate r).seen = o.seen := by
  cases o with
  | value v => cases v <;> simp [relocate, seen]
  | _ => rfl

end Outcome

namespace Session

/-- What a host may ask of a session. -/
inductive Request where
  /-- To take the script that is about to run. -/
  | setSource (file : String) (source : Bytes)
  /-- To run a program and hand its error over. -/
  | run (p : Program)
  /-- To run a program and report its error. -/
  | evaluate (p : Program)
  /-- To bind a function in the outermost scope. -/
  | defineFunction (name : String) (params : List Param) (returns : Option TypeName)
      (body : List Stmt)
  /-- To forget the pending error. -/
  | clear
  /-- To forget every declaration. -/
  | reset
  /-- To hand over the events. -/
  | takeEvents

/-- What shows of a session after it has served a request. -/
structure Appearance where
  /-- How the program ended, if the request was to run one. -/
  outcome : Option Outcome.Shown
  /-- The report about its error. -/
  report : Bytes
  /-- What was printed, which exit codes were asked for and what was traced meanwhile. -/
  events : List Event
  /-- The pending error. -/
  pending : Pending
  /-- The names declared in the outermost scope, in the order of declaration. -/
  globalNames : List String
  /-- Their bindings, in that order. -/
  globals : List (String × Tag × Bool × String)
  /-- The bindings in the map of the outermost scope. -/
  snapshot : List (String × Tag × Bool × String)
  /-- The names of declared functions in the outermost scope. -/
  functionNames : List String

/-- Serves a request. The answer is the outcome of the program and the report about its error, where
the request is to run one. -/
def serve (s : Session) : Request → Option Outcome × Bytes × Session
  | .setSource file source => (none, [], s.setSource file source)
  | .run p => (some (s.run p).1, [], (s.run p).2)
  | .evaluate p => (some (s.evaluate p).1, (s.evaluate p).2.1, (s.evaluate p).2.2)
  | .defineFunction name params returns body =>
    (none, [], (s.defineFunction name params returns body).2)
  | .clear => (none, [], s.clear)
  | .reset => (none, [], s.reset)
  | .takeEvents => (none, [], s.takeEvents.2)

/-- What shows of a session after it has served a request. -/
def appearance (s : Session) (request : Request) : Appearance :=
  let (outcome, report, t) := s.serve request
  { outcome := outcome.map Outcome.seen
    report
    events := t.machine.events.toList.drop s.machine.events.size
    pending := t.pending
    globalNames := t.globalNames
    globals := t.globals.map Binding.summary
    snapshot := t.globalsSnapshot.map Binding.summary
    functionNames := t.functionNames }

/-- What shows of a session while it serves some requests, one after the other. -/
def watch (s : Session) : List Request → List Appearance
  | [] => []
  | request :: rest => s.appearance request :: (s.serve request).2.2.watch rest

/-- The new session with the settings, the script and the random numbers of `s`. -/
def anew (s : Session) : Session :=
  { new s.settings with
    file := s.file
    lines := s.lines
    machine := { (new s.settings).machine with random := s.machine.random } }

/-- A session that has only been given its script is new. -/
example (settings : Settings) (file : String) (source : Bytes) :
    ((new settings).setSource file source).anew = (new settings).setSource file source := rfl

/-- The session behind a past: some scopes are stored in front of its own, and some events came
before its own. -/
def behind (older : Array Scope) (past : Array Event) (s : Session) : Session :=
  { s with
    global := Relocation.scope (.behind older) s.global
    machine := s.machine.behind older past }

/-- A reset session is the new one behind the scopes and the events from before. -/
theorem reset_eq (s : Session) :
    s.reset = s.anew.behind s.machine.store.scopes s.machine.events := by
  -- the outermost scope of the new session is the one that the reset pushes behind the older ones
  have hseed : s.machine.store.seed = (Relocation.scope (.behind s.machine.store.scopes)
      Store.empty.seed.1, Store.empty.seed.2.relocate (.behind s.machine.store.scopes)) := by
    rw [← Store.seed_relocate, Store.relocate_empty]
    rfl
  -- and it has no events, so all there are after the reset are those from before
  have hevents : s.machine.events = s.machine.events ++ #[] := Array.append_empty.symm
  exact Session.ext rfl (congrArg Prod.fst hseed) rfl rfl
    (Machine.ext (congrArg Prod.snd hseed) rfl hevents rfl) rfl

section Past

variable (older : Array Scope) (past : Array Event) (s : Session)

theorem relocated_behind : Relocated (.behind older) s (s.behind older past) :=
  ⟨rfl, rfl⟩

/-- A program does behind a past what it does without. -/
theorem run_behind (p : Program) :
    (s.behind older past).run p =
      ((s.run p).1.relocate (.behind older), (s.run p).2.behind older past) := by
  have hend := Eval.program_behind s.context older past p s.machine
  -- the past is part of the machine, and the context has the number of the outermost scope
  have hcontext : (s.behind older past).context =
      { s.context with global := Relocation.scope (.behind older) s.context.global } := rfl
  have hmachine : (s.behind older past).machine = s.machine.behind older past := rfl
  rw [run_eq, run_eq, Machine.after, Machine.after, hcontext, hmachine, hend]
  cases Eval.program s.context none p s.machine with
  | ok v n => rfl
  | error stop n => cases stop <;> rfl

/-- An error is reported behind a past as it is without. -/
theorem evaluate_behind (p : Program) :
    (s.behind older past).evaluate p =
      ((s.evaluate p).1.relocate (.behind older), (s.evaluate p).2.1,
        (s.evaluate p).2.2.behind older past) := by
  have hrun : { s.behind older past with pending := .none }.run p =
      (({ s with pending := .none }.run p).1.relocate (.behind older),
        ({ s with pending := .none }.run p).2.behind older past) :=
    run_behind older past { s with pending := .none } p
  rw [evaluate, evaluate, hrun]
  cases ({ s with pending := Pending.none }.run p) with
  | mk outcome t => cases outcome <;> rfl

/-- A function that the host binds is bound behind a past as it is without. -/
theorem defineFunction_behind (name : String) (params : List Param) (returns : Option TypeName)
    (body : List Stmt) :
    ((s.behind older past).defineFunction name params returns body).2 =
      (s.defineFunction name params returns body).2.behind older past := by
  have hbody : Stmt.relocateAll (Relocation.behind older).position body = body :=
    Stmt.relocateAll_id body
  have hdefine := s.machine.store.define_relocate (.behind older) s.global
    ⟨name, .function ⟨name, params, returns, body, s.global⟩, .function, false⟩
  simp only [Binding.relocate, Value.relocate, Closure.relocate, hbody] at hdefine
  exact Session.ext rfl rfl rfl rfl (Machine.ext (congrArg Prod.snd hdefine) rfl rfl rfl) rfl

/-- A reset opens an outermost scope behind a past as it does without. -/
theorem reset_behind : (s.behind older past).reset = s.reset.behind older past := by
  have hseed := s.machine.store.seed_relocate (.behind older)
  exact Session.ext rfl (congrArg Prod.fst hseed) rfl rfl
    (Machine.ext (congrArg Prod.snd hseed) rfl rfl rfl) rfl

/-- What a session answers behind a past is what it answers without, up to the numbers of scopes.
The events from before stay where they are, unless the request hands all events over. -/
theorem serve_behind (request : Request) :
    ∃ kept, (s.behind older past).serve request =
        ((s.serve request).1.map (Outcome.relocate (.behind older)), (s.serve request).2.1,
          (s.serve request).2.2.behind older kept) ∧
      (kept = past ∨ kept = #[] ∧ (s.serve request).2.2.machine.events = #[]) := by
  cases request with
  | setSource file source => exact ⟨past, rfl, .inl rfl⟩
  | run p => exact ⟨past, by simp only [serve, run_behind, Option.map_some], .inl rfl⟩
  | evaluate p => exact ⟨past, by simp only [serve, evaluate_behind, Option.map_some], .inl rfl⟩
  | defineFunction name params returns body =>
    exact ⟨past, by simp only [serve, defineFunction_behind, Option.map_none], .inl rfl⟩
  | clear => exact ⟨past, rfl, .inl rfl⟩
  | reset => exact ⟨past, by simp only [serve, reset_behind, Option.map_none], .inl rfl⟩
  | takeEvents => exact ⟨#[], rfl, .inr ⟨rfl, rfl⟩⟩

/-- The past does not show. -/
theorem appearance_behind (request : Request) :
    (s.behind older past).appearance request = s.appearance request := by
  obtain ⟨kept, hserve, hkept⟩ := s.serve_behind older past request
  have hshown := (s.serve request).2.2.relocated_behind older kept
  -- the events from before are dropped on both sides
  have hevents : ((s.serve request).2.2.behind older kept).machine.events.toList.drop
      (s.behind older past).machine.events.size =
        (s.serve request).2.2.machine.events.toList.drop s.machine.events.size := by
    obtain rfl | ⟨rfl, hnone⟩ := hkept
    · simp [behind, Machine.behind, List.drop_append]
    · simp [behind, Machine.behind, hnone]
  have hseen : ((s.serve request).1.map (Outcome.relocate (.behind older))).map Outcome.seen =
      (s.serve request).1.map Outcome.seen := by
    rw [Option.map_map]
    exact congrArg (Option.map · _) (funext fun o => o.seen_relocate _)
  unfold appearance
  rw [hserve]
  simp only [hseen, hevents, hshown.globalNames_eq, hshown.summaries_eq,
    hshown.snapshot_summaries_eq, hshown.functionNames_eq]
  rfl

theorem watch_behind (requests : List Request) :
    (s.behind older past).watch requests = s.watch requests := by
  induction requests generalizing past s with
  | nil => rfl
  | cons request rest ih =>
    obtain ⟨kept, hserve, -⟩ := s.serve_behind older past request
    rw [watch, watch, appearance_behind, hserve, ih]

end Past

/-- A reset forgets everything. Whatever a session went through, once it is reset it shows the same,
request after request, as the new session with its settings, its script and its random numbers: the
same outcomes and reports, the same output, exit codes and notes, and the same declarations. -/
theorem watch_reset (s : Session) (requests : List Request) :
    s.reset.watch requests = s.anew.watch requests := by
  rw [reset_eq, watch_behind]

end Session

end TagScript
