import TagScript.Parse.Stmt
import TagScript.Proofs.Session.Unplaced
import TagScript.Proofs.Tree.Positions

/-!
# Where Errors Come From

A program cannot make up a position. It finds positions in its own tree and in the functions that
were declared before, and hands them on. So where a replacement of positions changes neither of the
two, it does not change the run, and a position that comes out is one that it leaves alone
(`position_run`): an error stands at a node of one of the scripts that were run so far.

The file and the line of an error are those of the script that runs, whatever script the node is
from (`error_quotes_running_script`). Where the node is from an earlier script, the error points at
a line of the wrong script (`error_misquotes_earlier_script`).
-/

namespace TagScript

namespace Pairing

section Uncut

variable {α β : Type} {w : Pairing} {g : α → β} (hlimit : ¬ w.left.limit < w.right.limit)
include hlimit

/-- Unless the right run has more room, the machines at the end are paired. -/
theorem Results.machines {r : EStateM.Result Stop Machine α} {r' : EStateM.Result Stop Machine β}
    (h : w.Results g r r') : w.Machines (Eval.machineOf r) (Eval.machineOf r') := by
  cases h with
  | ok hm => exact hm
  | stop _ hm => exact hm
  | cut hcut => exact absurd hcut.limit_lt hlimit

theorem Results.stops {s t : Stop} {m n : Machine} (h : w.Results g (.error s m) (.error t n)) :
    w.Stops s t := by
  cases h with
  | stop hs _ => exact hs
  | cut hcut => exact absurd hcut.limit_lt hlimit

end Uncut

/-- An error quotes the script of its own run, and stands at the position that is replaced. -/
theorem Stops.error_eq {w : Pairing} {e e' : RuntimeError} (h : w.Stops (.error e) (.error e')) :
    e.file = w.left.file ∧ e.line = w.left.lineAt e.position ∧ e'.position = w.move e.position := by
  cases h
  exact ⟨rfl, rfl, rfl⟩

end Pairing

namespace Session

section Run

variable {f : Position → Position} {s : Session} {p : Program}

/-- Where a replacement of positions changes neither the program nor the stored scopes, the run set
beside itself does the same. -/
theorem results_beside (hp : Stmt.relocateAll f p = p)
    (hs : s.machine.store.relocate (.moving f) = s.machine.store) :
    (Pairing.beside s.context f s.machine.events).Results (Option.map (Value.relocate (.moving f)))
      (Eval.program s.context none p s.machine) (Eval.program s.context none p s.machine) := by
  have h := (Pairing.beside s.context f s.machine.events).follows_program p _ _
    (Pairing.machines_beside hs)
  -- the tree on the right is the one on the left
  change Pairing.Results _ _ _ (Eval.program s.context none (Stmt.relocateAll f p) _) at h
  rwa [hp] at h

/-- The scopes that a program leaves have no other positions than it found. -/
theorem store_run (hp : Stmt.relocateAll f p = p)
    (hs : s.machine.store.relocate (.moving f) = s.machine.store) :
    (s.run p).2.machine.store.relocate (.moving f) = (s.run p).2.machine.store := by
  have hm := (results_beside hp hs).machines (Nat.lt_irrefl _)
  have hafter : (s.run p).2.machine =
      Eval.machineOf (Eval.program s.context none p s.machine) := by
    rw [run_eq, Machine.after]
    cases Eval.program s.context none p s.machine <;> rfl
  rw [hafter]
  exact hm.store.symm

/-- The error that a program ends with. -/
theorem program_of_run {e : RuntimeError} (h : (s.run p).1 = .error e) :
    ∃ m, Eval.program s.context none p s.machine = .error (.error e) m := by
  rw [run_eq] at h
  generalize Eval.program s.context none p s.machine = r at h ⊢
  match r, h with
  | .error (.error _) m, rfl => exact ⟨m, rfl⟩

/-- An error stands at a position that is found in the program or in the stored scopes. -/
theorem position_run (hp : Stmt.relocateAll f p = p)
    (hs : s.machine.store.relocate (.moving f) = s.machine.store) {e : RuntimeError}
    (h : (s.run p).1 = .error e) : f e.position = e.position := by
  obtain ⟨m, hend⟩ := program_of_run h
  -- the two runs end in one error, which stands at both positions
  have hresults := results_beside hp hs
  rw [hend] at hresults
  exact (hresults.stops (Nat.lt_irrefl _)).error_eq.2.2.symm

/-- An error quotes the script that runs. -/
theorem script_run {e : RuntimeError} (h : (s.run p).1 = .error e) :
    e.file = s.file ∧ e.line = s.context.lineAt e.position := by
  obtain ⟨m, hend⟩ := program_of_run h
  -- here no position need be replaced
  have hresults := results_beside (Stmt.relocateAll_id p) s.machine.store.relocate_none
  rw [hend] at hresults
  obtain ⟨hfile, hline, -⟩ := (hresults.stops (Nat.lt_irrefl _)).error_eq
  exact ⟨hfile, hline⟩

end Run

end Session

/-- A script under a name, and the program it is read as. -/
structure Script where
  /-- The name. -/
  file : String
  /-- The text. -/
  source : Bytes
  /-- The program. -/
  program : Program
  /-- The text is read as the program. -/
  reads : Parse.source source = .ok program

/-- A line of a script, counted from one. -/
def Script.line? (c : Script) (n : Int) : Option Bytes :=
  if 0 < n then c.source.lines[(n - 1).toNat]? else none

namespace Session

/-- Runs a script under its name. -/
def runScript (s : Session) (c : Script) : Outcome × Session :=
  (s.setSource c.file c.source).run c.program

/-- The session after some scripts were run, one after the other, however each of them ended. -/
def afterScripts (s : Session) (scripts : List Script) : Session :=
  scripts.foldl (fun s c => (s.runScript c).2) s

/-- What all scripts leave alone is left alone by the scopes after them. -/
theorem store_afterScripts {f : Position → Position} {s : Session} {scripts : List Script}
    (hs : s.machine.store.relocate (.moving f) = s.machine.store)
    (hscripts : ∀ c ∈ scripts, Stmt.relocateAll f c.program = c.program) :
    (s.afterScripts scripts).machine.store.relocate (.moving f) =
      (s.afterScripts scripts).machine.store := by
  induction scripts generalizing s with
  | nil => exact hs
  | cons c scripts ih =>
    rw [List.forall_mem_cons] at hscripts
    have hrun :
        (s.runScript c).2.machine.store.relocate (.moving f) = (s.runScript c).2.machine.store :=
      store_run (s := s.setSource c.file c.source) hscripts.1 hs
    exact ih hrun hscripts.2

/-- In a session of scripts, each of which is run under its name, an error quotes the name and the
line of the script that runs. It stands at a node of that script or of one that was run before. -/
theorem error_quotes_running_script (settings : Settings) (earlier : List Script) (c : Script)
    {e : RuntimeError} (h : (((new settings).afterScripts earlier).runScript c).1 = .error e) :
    e.file = c.file ∧ e.line = (c.line? e.position.line).getD [] ∧
      ∃ d ∈ earlier ++ [c], e.position ∈ Stmt.positionsAll d.program := by
  obtain ⟨hfile, hline⟩ := script_run h
  refine ⟨hfile, ?_, ?_⟩
  · rw [hline, Script.line?, Context.lineAt]
    split <;> rfl
  · -- what leaves alone just the nodes of all the scripts leaves the error where it is
    let ps := (earlier ++ [c]).flatMap fun d => Stmt.positionsAll d.program
    have hkeep : ∀ d ∈ earlier ++ [c], Stmt.relocateAll (.keep ps) d.program = d.program := by
      intro d hd
      refine Stmt.relocateAll_eq_self d.program fun p hp => ?_
      exact Position.keep_eq_self_iff.mpr (List.mem_flatMap.mpr ⟨d, hd, hp⟩)
    have hstore := store_afterScripts (s := new settings) (Store.relocate_new (.keep ps))
      fun d hd => hkeep d (List.mem_append_left _ hd)
    have hposition := position_run
      (s := ((new settings).afterScripts earlier).setSource c.file c.source)
      (hkeep c (by simp)) hstore h
    exact List.mem_flatMap.mp (Position.keep_eq_self_iff.mp hposition)

/-- A script with a function that uses a name which is not declared. -/
def declaringScript : Script where
  file := "first"
  source := Bytes.ofString "fn f() \x7b x; \x7d"
  program := [.function ⟨1, 1⟩ "f" [] none [.expr ⟨1, 10⟩ (.name ⟨1, 10⟩ "x")]]
  reads := by
    have htokens : (Token.tokenize (Bytes.ofString "fn f() \x7b x; \x7d").decode).tokens =
        [⟨.kwFn, "fn", ⟨1, 1⟩⟩, ⟨.ident, "f", ⟨1, 4⟩⟩, ⟨.lparen, "(", ⟨1, 5⟩⟩,
          ⟨.rparen, ")", ⟨1, 6⟩⟩, ⟨.lbrace, "\x7b", ⟨1, 8⟩⟩, ⟨.ident, "x", ⟨1, 10⟩⟩,
          ⟨.semicolon, ";", ⟨1, 11⟩⟩, ⟨.rbrace, "\x7d", ⟨1, 13⟩⟩] := by decide +kernel
    rw [Parse.source, htokens]
    cbv

/-- A script that calls it. -/
def callingScript : Script where
  file := "second"
  source := Bytes.ofString "f();"
  program := [.expr ⟨1, 1⟩ (.call ⟨1, 1⟩ (.name ⟨1, 1⟩ "f") [])]
  reads := by
    have htokens : (Token.tokenize (Bytes.ofString "f();").decode).tokens =
        [⟨.ident, "f", ⟨1, 1⟩⟩, ⟨.lparen, "(", ⟨1, 2⟩⟩, ⟨.rparen, ")", ⟨1, 3⟩⟩,
          ⟨.semicolon, ";", ⟨1, 4⟩⟩] := by decide +kernel
    rw [Parse.source, htokens]
    cbv

/-- The error that arises in the function where the second script calls it. -/
def misquotedError : RuntimeError :=
  ⟨.undeclared "x", "second", ⟨1, 10⟩, Bytes.ofString "f();", ["f"]⟩

/-- The session in which the second script calls the function of the first one. -/
theorem run_callingScript :
    let s := new ⟨Settings.defaultLimit, .plain, 0, false, false⟩
    ((s.afterScripts [declaringScript]).runScript callingScript).1 = .error misquotedError := by
  with_unfolding_all rfl

/-- The error has the name and the line of the second script. -/
theorem error_quotes_running_script_call :
    let s := new ⟨Settings.defaultLimit, .plain, 0, false, false⟩
    ((s.afterScripts [declaringScript]).runScript callingScript).1 = .error misquotedError ∧
      misquotedError.file = callingScript.file ∧
      misquotedError.line = (callingScript.line? misquotedError.position.line).getD [] := by
  intro s
  obtain ⟨hfile, hline, -⟩ :=
    error_quotes_running_script _ [declaringScript] callingScript run_callingScript
  exact ⟨run_callingScript, hfile, hline⟩

/-- The error stands at a node of the first script and at none of the second one, but it has neither
the name nor the line of the first script. -/
theorem error_misquotes_earlier_script :
    let s := new ⟨Settings.defaultLimit, .plain, 0, false, false⟩
    ((s.afterScripts [declaringScript]).runScript callingScript).1 = .error misquotedError ∧
      misquotedError.position ∈ Stmt.positionsAll declaringScript.program ∧
      misquotedError.position ∉ Stmt.positionsAll callingScript.program ∧
      misquotedError.file ≠ declaringScript.file ∧
      declaringScript.line? misquotedError.position.line ≠ some misquotedError.line := by
  intro s
  have hline : declaringScript.line? 1 = some (Bytes.ofString "fn f() \x7b x; \x7d") := by
    decide +kernel
  refine ⟨run_callingScript, by decide, by decide, by decide, ?_⟩
  show declaringScript.line? 1 ≠ some (Bytes.ofString "f();")
  rw [hline]
  decide

end Session

end TagScript
