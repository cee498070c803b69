import TagScript.Proofs.Session.Unplaced

/-!
# Places Do Not Matter

Two sessions are alike (`Session.Alike`) if they differ only in places: in the script that runs, in
the positions inside stored functions and in the lines of the trace. A program cannot tell them
apart, and neither can it tell where its own nodes stand. So two programs that differ in positions
only, run in two sessions that are alike, have the same outcome up to places and leave sessions that
are alike (`run_alike`). In particular a tree that was built without positions does what it does
when it is read off a script.
-/

namespace TagScript.Session

/-- Two sessions that differ in places only. -/
structure Alike (s t : Session) : Prop where
  /-- The settings are the same. -/
  settings : s.settings = t.settings
  /-- The outermost scope is the same one. -/
  global : s.global = t.global
  /-- The scopes are the same up to the positions inside functions. -/
  store : s.machine.store.relocate .forget = t.machine.store.relocate .forget
  /-- The same calls are active. -/
  frames : s.machine.frames = t.machine.frames
  /-- The same random numbers are to come. -/
  random : s.machine.random = t.machine.random
  /-- The same was noticed, up to the lines of statements in the trace. -/
  events : s.machine.events.map Event.unplaced = t.machine.events.map Event.unplaced
  /-- The same error is pending. -/
  pending : s.pending = t.pending

/-- Sessions are alike if they are the same without places, apart from the pending error, which no
program sees. -/
theorem alike_iff {s t : Session} :
    s.Alike t ↔ s.unplaced = t.unplaced ∧ s.pending = t.pending := by
  constructor
  · rintro ⟨hsettings, hglobal, hstore, hframes, hrandom, hevents, hpending⟩
    have hmachine : s.machine.unplaced = t.machine.unplaced :=
      Machine.ext hstore hframes hevents hrandom
    exact ⟨by rw [unplaced, unplaced, hsettings, hglobal, hmachine], hpending⟩
  · rintro ⟨hunplaced, hpending⟩
    have hmachine : s.machine.unplaced = t.machine.unplaced := congrArg machine hunplaced
    have hsettings : s.unplaced.settings = t.unplaced.settings := congrArg settings hunplaced
    have hglobal : s.unplaced.global = t.unplaced.global := congrArg global hunplaced
    obtain ⟨hstore, hframes, hevents, hrandom⟩ := Machine.ext_iff.mp hmachine
    exact ⟨hsettings, hglobal, hstore, hframes, hrandom, hevents, hpending⟩

/-- Running a program leaves the pending error. -/
theorem pending_run (s : Session) (p : Program) : (s.run p).2.pending = s.pending := by
  rw [run_eq]

/-- Positions never influence a run. Two programs that differ in positions only, run in sessions
that are alike, have the same outcome up to places: the same value, with the same tag and the same
texts, an error of the same kind and wording that passed through the same functions, or the same
fault. They print the same, ask for the same exit codes, leave the same random numbers to come, and
leave sessions that are alike. -/
theorem run_alike {s t : Session} (hst : s.Alike t) {p q : Program}
    (hpq : Stmt.unplaced p = Stmt.unplaced q) :
    (s.run p).1.unplaced = (t.run q).1.unplaced ∧ (s.run p).1.gist = (t.run q).1.gist ∧
      Event.output (s.run p).2.machine.events = Event.output (t.run q).2.machine.events ∧
      Event.exits (s.run p).2.machine.events = Event.exits (t.run q).2.machine.events ∧
      (s.run p).2.machine.random = (t.run q).2.machine.random ∧
      (s.run p).2.Alike (t.run q).2 := by
  obtain ⟨hunplaced, hpending⟩ := alike_iff.mp hst
  -- without places it is one program in one session
  have hend : unplacedEnd (s.ending p) = unplacedEnd (t.ending q) := by
    rw [← ending_unplaced, ← ending_unplaced, hunplaced, hpq]
  have houtcome : (s.run p).1.unplaced = (t.run q).1.unplaced := by
    rw [unplaced_outcome, unplaced_outcome, hend]
  have hsession : (s.run p).2.unplaced = (t.run q).2.unplaced := by
    rw [unplaced_run, unplaced_run, hend, hunplaced]
  have hstanding : (s.run p).2.standing = (t.run q).2.standing := by
    rw [← standing_unplaced, hsession, standing_unplaced]
  refine ⟨houtcome, ?_, congrArg Standing.output hstanding, congrArg Standing.exits hstanding,
    congrArg Standing.random hstanding, alike_iff.mpr ⟨hsession, ?_⟩⟩
  · rw [← Outcome.gist_unplaced, houtcome, Outcome.gist_unplaced]
  · rw [pending_run, pending_run, hpending]

/-- A function is declared in two sessions, by a script and by a tree without positions, and called
in both. The error inside it has a place in the first session only. -/
theorem run_alike_hand_built :
    let line := "fn f(x) \x7b x + \"a\"; \x7d"
    let declaration : Program := [.function ⟨1, 1⟩ "f" [⟨"x", none⟩] none
      [.expr ⟨1, 11⟩ (.binary ⟨1, 13⟩ (.name ⟨1, 11⟩ "x") .add (.string ⟨1, 15⟩ "a"))]]
    let call : Program :=
      [.expr ⟨2, 1⟩ (.call ⟨2, 1⟩ (.name ⟨2, 1⟩ "f") [.int ⟨2, 3⟩ 1])]
    let cause := Cause.operandMismatch .add .int .string
    let t := new ⟨Settings.defaultLimit, .plain, 0, false, false⟩
    let s := t.setSource "script" (Bytes.ofString (line ++ "\nf(1);"))
    let s' := (s.run declaration).2
    let t' := (t.run (Stmt.unplaced declaration)).2
    s.Alike t ∧ s'.Alike t' ∧ (s'.run call).1.gist = (t'.run (Stmt.unplaced call)).1.gist ∧
      (s'.run call).1 = .error ⟨cause, "script", ⟨1, 13⟩, Bytes.ofString line, ["f"]⟩ ∧
      (t'.run (Stmt.unplaced call)).1 = .error ⟨cause, "", .nowhere, [], ["f"]⟩ := by
  intro line declaration call cause t s s' t'
  have hst : s.Alike t := ⟨rfl, rfl, rfl, rfl, rfl, rfl, rfl⟩
  have hdeclared : s'.Alike t' :=
    (run_alike hst (Stmt.unplaced_relocateAll .forget declaration).symm).2.2.2.2.2
  have hcalled := run_alike hdeclared (Stmt.unplaced_relocateAll .forget call).symm
  have hlines : (Bytes.ofString (line ++ "\nf(1);")).lines =
      [Bytes.ofString line, Bytes.ofString "f(1);"] := by decide +kernel
  have hplace :
      (s'.run call).1 = .error ⟨cause, "script", ⟨1, 13⟩, Bytes.ofString line, ["f"]⟩ := by
    dsimp only [s', s, setSource]
    rw [hlines]
    -- the error quotes the first line, whatever it is
    generalize Bytes.ofString line = quoted
    with_unfolding_all rfl
  exact ⟨hst, hdeclared, hcalled.2.1, hplace, by with_unfolding_all rfl⟩

end TagScript.Session
