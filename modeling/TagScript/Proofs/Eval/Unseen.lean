import TagScript.Proofs.Eval.Pairing

/-!
# What a Program Does Not See

Four things make no difference to what a program does, and follow it only in what comes out at the
end: the scopes and the events from before (`program_behind`), room for more active calls than it
needs (`program_of_le`), and the script and the positions in it (`statements_unplaced`). Each is a
pairing of two runs in which the machine and the stop on the right are functions of those on the
left.

A run may also be set beside itself (`Pairing.beside`), with other positions on the right. Where its
tree and its machine have none of the positions that change, the two runs are one.
-/

namespace TagScript

open Eval (Completion)

attribute [ext] Machine

section Definitions

/-- The machine behind a past: some scopes are stored in front of its own, and some events came
before its own. -/
def Machine.behind (older : Array Scope) (past : Array Event) (m : Machine) : Machine :=
  { m with
    store := m.store.relocate (.behind older)
    events := past ++ m.events }

/-- The event without a line. -/
def Event.unplaced : Event → Event
  | .noted (.statement kind _) => .noted (.statement kind Position.nowhere.line)
  | e => e

/-- The machine without places. -/
def Machine.unplaced (m : Machine) : Machine :=
  { m with
    store := m.store.relocate .forget
    events := m.events.map Event.unplaced }

/-- The error without a place. -/
def RuntimeError.unplaced (e : RuntimeError) : RuntimeError :=
  { e with file := "", position := .nowhere, line := [] }

/-- The stop without a place. -/
def Stop.unplaced : Stop → Stop
  | .error e => .error e.unplaced
  | s => s

/-- The completion without places. -/
def Eval.Completion.unplaced (c : Completion) : Completion :=
  c.relocate .forget

/-- What stays fixed during a run, without a script. -/
def Context.unplaced (ctx : Context) : Context :=
  { ctx with file := "", lines := [] }

/-- The end of a computation with its result, its stop and its machine replaced. -/
def Eval.mapEnd {α β : Type} (result : α → β) (stop : Stop → Stop) (machine : Machine → Machine) :
    EStateM.Result Stop Machine α → EStateM.Result Stop Machine β
  | .ok a m => .ok (result a) (machine m)
  | .error s m => .error (stop s) (machine m)

end Definitions

/-- Every event is itself, at the same position. -/
theorem Event.moved_id (e : Event) : e.Moved id e := by
  match e with
  | .noted (.statement kind line) => exact .statement kind ⟨line, 0⟩
  | .noted (.builtin ..) | .noted (.call ..) | .printed _ | .exited _ =>
    exact .same (by rintro kind line ⟨⟩)

/-- Where positions stay, events stay. -/
theorem Event.Moved.eq_of_id {es es' : List Event} (h : List.Forall₂ (Event.Moved id) es es') :
    es' = es := by
  induction h with
  | nil => rfl
  | cons he _ ih =>
    rw [ih]
    cases he <;> rfl

/-- An event that notes no statement has no line. -/
theorem Event.unplaced_eq {e : Event} (h : ∀ kind line, e ≠ .noted (.statement kind line)) :
    e.unplaced = e := by
  unfold Event.unplaced
  split
  next kind line => exact absurd rfl (h kind line)
  next => rfl

/-- An event without its position is the event, moved to none. -/
theorem Event.moved_unplaced (e : Event) : e.Moved .forget e.unplaced := by
  match e with
  | .noted (.statement kind line) => exact .statement kind ⟨line, 0⟩
  | .noted (.builtin ..) | .noted (.call ..) | .printed _ | .exited _ =>
    exact .same (by rintro kind line ⟨⟩)

/-- Where positions are forgotten, events lose their lines. -/
theorem Event.Moved.eq_of_forget {es es' : List Event}
    (h : List.Forall₂ (Event.Moved .forget) es es') : es' = es.map Event.unplaced := by
  induction h with
  | nil => rfl
  | cons he _ ih =>
    rw [ih, List.map_cons]
    cases he with
    | statement kind p => rfl
    | same hne => rw [unplaced_eq hne]

namespace Pairing

/-- The right end is determined by the left one where machines and stops are. -/
theorem Results.eq_mapEnd {α β : Type} {w : Pairing} {g : α → β}
    {r : EStateM.Result Stop Machine α} {r' : EStateM.Result Stop Machine β}
    (h : w.Results g r r') (hcut : ∀ s m, r = .error s m → ¬ w.Cut s) {stop : Stop → Stop}
    (hstop : ∀ s t, w.Stops s t → t = stop s) {machine : Machine → Machine}
    (hmachine : ∀ m n, w.Machines m n → n = machine m) :
    r' = Eval.mapEnd g stop machine r := by
  cases h with
  | ok hmn => rw [Eval.mapEnd, hmachine _ _ hmn]
  | stop hs hmn => rw [Eval.mapEnd, hstop _ _ hs, hmachine _ _ hmn]
  | cut hs => exact absurd hs (hcut _ _ rfl)

/-- Two runs of one tree in one script. The right run may have more room, and a past: scopes and
events from before. -/
def still (ctx : Context) (older : Array Scope) (past : Array Event) {limit : Nat}
    (h : ctx.limit ≤ limit) : Pairing where
  left := ctx
  right := { ctx with global := Relocation.scope (.behind older) ctx.global, limit }
  carry := .behind older
  leftPast := []
  rightPast := past.toList
  global := rfl
  traced := rfl
  exitEnds := rfl
  limit_le := h

/-- Two runs of which the right one is without places. -/
def forgetful (ctx : Context) : Pairing where
  left := ctx
  right := ctx.unplaced
  carry := .forget
  leftPast := []
  rightPast := []
  global := rfl
  traced := rfl
  exitEnds := rfl
  limit_le := Nat.le_refl _

/-- A run set beside itself, with each position `p` replaced by `f p` on the right. -/
def beside (ctx : Context) (f : Position → Position) (past : Array Event) : Pairing where
  left := ctx
  right := ctx
  carry := .moving f
  leftPast := past.toList
  rightPast := past.toList
  global := rfl
  traced := rfl
  exitEnds := rfl
  limit_le := Nat.le_refl _

section Still

variable {ctx : Context} (older : Array Scope) (past : Array Event) {limit : Nat}
  (h : ctx.limit ≤ limit)

/-- The machine behind a past is paired with the machine itself, and no other is. -/
theorem machines_still (m n : Machine) :
    (still ctx older past h).Machines m n ↔ n = m.behind older past := by
  constructor
  · rintro ⟨hstore, hframes, hrandom, es, es', hes, hes', hmoved⟩
    have hevents : n.events = past ++ m.events := by
      apply Array.toList_inj.mp
      rw [hes', Event.Moved.eq_of_id hmoved, Array.toList_append, hes]
      rfl
    exact Machine.ext hstore hframes hevents hrandom
  · rintro rfl
    refine ⟨rfl, rfl, rfl, m.events.toList, m.events.toList, rfl, ?_, ?_⟩
    · exact Array.toList_append
    · exact List.forall₂_same.mpr fun e _ => e.moved_id

/-- A run behind a past stops as the run itself does. -/
theorem stops_still (s t : Stop) (hst : (still ctx older past h).Stops s t) : t = s := by
  cases hst <;> rfl

/-- Unless it comes to its limit, a program does with more room and behind a past what it does
without. -/
theorem program_still (p : Program) (m : Machine)
    (hcut : ∀ s n, Eval.program ctx none p m = .error s n → ¬ (still ctx older past h).Cut s) :
    Eval.program { ctx with global := Relocation.scope (.behind older) ctx.global, limit } none p
        (m.behind older past) =
      Eval.mapEnd (Option.map (Value.relocate (.behind older))) id (Machine.behind older past)
        (Eval.program ctx none p m) := by
  have hresults := (still ctx older past h).follows_program p m _
    ((machines_still older past h m _).mpr rfl)
  have hend := hresults.eq_mapEnd hcut (stops_still older past h)
    fun m n => (machines_still older past h m n).mp
  have htree : Stmt.relocateAll (still ctx older past h).move p = p := Stmt.relocateAll_id p
  rw [htree] at hend
  exact hend

end Still

section Forgetful

variable {ctx : Context}

/-- The machine without positions is paired with the machine itself, and no other is. -/
theorem machines_forgetful (m n : Machine) :
    (forgetful ctx).Machines m n ↔ n = m.unplaced := by
  constructor
  · rintro ⟨hstore, hframes, hrandom, es, es', hes, hes', hmoved⟩
    have hevents : n.events = m.events.map Event.unplaced := by
      apply Array.toList_inj.mp
      rw [hes', Event.Moved.eq_of_forget hmoved, Array.toList_map, hes]
      rfl
    exact Machine.ext hstore hframes hevents hrandom
  · rintro rfl
    refine ⟨rfl, rfl, rfl, m.events.toList, _, rfl, Array.toList_map, ?_⟩
    exact List.forall₂_map_right_iff.mpr (List.forall₂_same.mpr fun e _ => e.moved_unplaced)

/-- A run without positions stops as the run itself does, without the position. -/
theorem stops_forgetful (s t : Stop) (hst : (forgetful ctx).Stops s t) : t = s.unplaced := by
  cases hst <;> rfl

end Forgetful

section Beside

/-- Both machines are one if no position in the stored scopes is changed. -/
theorem machines_beside {ctx : Context} {f : Position → Position} {m : Machine}
    (h : m.store.relocate (.moving f) = m.store) : (beside ctx f m.events).Machines m m :=
  ⟨h.symm, rfl, rfl, [], [], by simp [beside], by simp [beside], .nil⟩

end Beside

end Pairing

namespace Eval

/-- The scopes and the events from before make no difference. -/
theorem program_behind (ctx : Context) (older : Array Scope) (past : Array Event) (p : Program)
    (m : Machine) :
    program { ctx with global := Relocation.scope (.behind older) ctx.global } none p
        (m.behind older past) =
      mapEnd (Option.map (Value.relocate (.behind older))) id (Machine.behind older past)
        (program ctx none p m) :=
  -- with the same limit no run is cut off
  Pairing.program_still older past (Nat.le_refl ctx.limit) p m fun _ _ _ hcut =>
    Nat.lt_irrefl _ hcut.limit_lt

/-- Unless a program comes to its limit, more room makes no difference. -/
theorem program_of_le (ctx : Context) {limit : Nat} (h : ctx.limit ≤ limit) (p : Program)
    (m : Machine)
    (hcut : ∀ e n, program ctx none p m = .error (.error e) n → e.cause ≠ .depth ctx.limit) :
    program { ctx with limit } none p m = program ctx none p m := by
  -- both runs have the same past
  have hpast (m : Machine) : m.behind #[] #[] = m :=
    Machine.ext m.store.relocate_none rfl (Array.empty_append ..) rfl
  have hvalue : Option.map (Value.relocate (.behind #[])) = id := by
    funext v
    cases v with
    | none => rfl
    | some v => exact congrArg some v.relocate_none
  have hend := Pairing.program_still #[] #[] h p m fun s n hs hcut' => by
    obtain ⟨e, rfl, hcause⟩ := hcut'.error
    exact hcut e n hs hcause
  rw [hpast, hvalue] at hend
  refine hend.trans ?_
  cases program ctx none p m with
  | ok v n => rw [mapEnd, hpast]; rfl
  | error s n => rw [mapEnd, hpast]; rfl

/-- The script and the positions in it make no difference. -/
theorem statements_unplaced (ctx : Context) (last : Completion) (p : Program) (m : Machine) :
    statements ctx.unplaced last.unplaced (Stmt.unplaced p) m.unplaced =
      mapEnd Completion.unplaced Stop.unplaced Machine.unplaced (statements ctx last p m) := by
  have hresults := (Pairing.forgetful ctx).follows_statements last p m _
    ((Pairing.machines_forgetful m _).mpr rfl)
  exact hresults.eq_mapEnd (fun _ _ _ hcut => Nat.lt_irrefl _ hcut.limit_lt)
    Pairing.stops_forgetful fun m n => (Pairing.machines_forgetful m n).mp

end Eval

end TagScript
