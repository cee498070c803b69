import TagScript.Proofs.Session.Typing
import TagScript.Proofs.Steps.Annotations

/-!
# Annotations Are Sound

A name that is declared with a type, or is a parameter with one, holds a value of this type from
then on: in the same run, in every closure that captured the scope, and in later programs, also
where the session is reset in between (`annotations_sound`). The type is checked once, when the name
is bound. After that the tag of the binding stays, and the tag of its value is that of the binding.

A function that declares the type of its result answers a value of this type, and `null` if the
type is `void`. No name is ever declared with the type `void`.
-/

namespace TagScript

/-- The scope `id` binds `name` to a value of the declared type `t`. -/
def Store.Holds (s : Store) (id : ScopeId) (name : String) (t : TypeName) : Prop :=
  ∃ b, s.find? id name = some b ∧ b.value.tag = Tag.ofTypeName t

/-- A name whose binding has the tag of a type holds a value of it, and the type is not `void`. -/
theorem Store.Formed.holds {s : Store} (hs : s.Formed) {id : ScopeId} {name : String} {b : Binding}
    {t : TypeName} (hb : s.find? id name = some b) (ht : b.tag = Tag.ofTypeName t) :
    t ≠ .void ∧ s.Holds id name t := by
  obtain ⟨scope, hscope, hfind⟩ := Option.bind_eq_some_iff.mp hb
  -- a binding has the tag of its value, and no value has the tag `void`
  have hmem := (Scope.mem_of_find? hfind).1
  have htag := (hs.binding id scope b hscope hmem).1
  refine ⟨?_, b, hb, htag.symm.trans ht⟩
  rintro rfl
  exact b.value.tag_ne_void_unknown.1 (htag.symm.trans ht)

namespace Session

open Steps (State Reaches step Binds Returns)

variable {s t : Session} {p : Program} {c d : State}

/-- Opening an outermost scope extends the scopes. -/
theorem grows_seed (s : Store) : s.Grows s.seed.2 :=
  ⟨fun h => h.push Scope.consistent_seeded, .push s _⟩

/-- A session leaves the scopes as they were or extends them, whatever is done in it. -/
theorem LeadsTo.grows (h : s.LeadsTo t) (hs : s.Reachable) :
    s.machine.store.Grows t.machine.store := by
  induction h with
  | refl => exact .refl _
  | setSource file source _ ih => exact ih
  | @run t p ht ih => exact ih.trans (grows_run (ht.reachable hs) (.refl : t.Moment p _))
  | @evaluate t p ht ih =>
    rw [evaluate_machine]
    exact ih.trans (grows_run (ht.reachable hs) (.refl : t.Moment p _))
  | clear _ ih => exact ih
  | reset _ ih => exact ih.trans (grows_seed _)
  | takeEvents _ ih => exact ih

/-- A later moment is well formed, and its scopes are those from before or extend them. -/
theorem Later.grows (h : s.Later p c d) (hs : s.Reachable) (hc : s.Moment p c) :
    d.Formed ∧ c.machine.store.Grows d.machine.store := by
  cases h with
  | steps hsteps => exact ⟨moment_formed hs (hc.trans hsteps), Steps.steps_grows hsteps⟩
  | run hleads hmoment =>
    have hreachable := hs.run p
    refine ⟨moment_formed (hleads.reachable hreachable) hmoment, ?_⟩
    exact ((grows_run hs hc).trans (hleads.grows hreachable)).trans (Steps.steps_grows hmoment)
  | evaluate hleads hmoment =>
    have hreachable := hs.evaluate p
    refine ⟨moment_formed (hleads.reachable hreachable) hmoment, ?_⟩
    -- evaluating leaves the same scopes as running does
    have hprogram := grows_run hs hc
    rw [← evaluate_machine] at hprogram
    exact (hprogram.trans (hleads.grows hreachable)).trans (Steps.steps_grows hmoment)

/-- Annotations are sound. A name that a step binds with a declared type holds a value of this type
at every later moment, and the type is not `void`. A value that a call ends with is one that the
function may answer, in small steps and as the evaluator calls functions. -/
theorem annotations_sound (hs : s.Reachable) (hc : s.Moment p c) :
    (∀ d id name t, Binds s.context c d id name t →
      t ≠ .void ∧ ∀ e, s.Later p d e → e.machine.store.Holds id name t) ∧
    (∀ d f v, Returns s.context c d f v → v.Answers f.returns) ∧
    ∀ spare f args q m v n, Eval.call s.context spare f args q m = .ok v n →
      v.Answers f.returns := by
  refine ⟨?_, fun d f v h => h.answers, fun spare f args q m v n h => Steps.call_ok h⟩
  intro d id name t hbinds
  have hd : s.Moment p d := hc.tail hbinds.step
  obtain ⟨b, hb, htag⟩ := hbinds.find? (moment_formed hs hc)
  refine ⟨((moment_formed hs hd).store.holds hb htag).1, fun e he => ?_⟩
  obtain ⟨heFormed, hgrows⟩ := he.grows hs hd
  -- the binding is found again with its tag, and there it has the tag of its value
  obtain ⟨b', hb', hcontinues⟩ := hgrows.kept.find? hb
  exact (heFormed.store.holds hb' (hcontinues.tag.trans htag)).2

/-- A number is declared with its type. -/
theorem annotations_sound_declared_number :
    let s := new ⟨2, .plain, 0, false, false⟩
    let p : Program := [.declare .start false "n" (some .int) (.int .start 1)]
    let c : State :=
      ⟨.value (.int 1), [.declare 0 .start false "n" (some .int) .start, .program []], s.machine⟩
    let d : State := ⟨.completed .empty, [.program []],
      { s.machine with store := (s.machine.store.define 0 ⟨"n", .int 1, .int, true⟩).2 }⟩
    s.Reachable ∧ s.Moment p c ∧ Binds s.context c d 0 "n" .int ∧
      ∀ e, s.Later p d e → e.machine.store.Holds 0 "n" .int := by
  intro s p c d
  have hs : s.Reachable := .new _
  have hc : s.Moment p c := .head rfl (.head rfl (.head rfl .refl))
  have hbinds : Binds s.context c d 0 "n" .int := .declare rfl
  exact ⟨hs, hc, hbinds, ((annotations_sound hs hc).1 d 0 "n" .int hbinds).2⟩

end Session

end TagScript
