import TagScript.Proofs.Session.Moments
import TagScript.Proofs.Steps.Formed

/-!
# Types in Every Session

At every moment of every session, each binding has the tag of its value, each value at hand has a
tag of its own and is homogeneous all the way down, and the tag tracked for each argument is that
of its value (`moment_typed`). This holds whatever the programs are and however they end, since a
program that stops early has come to a moment too. The outermost scope is among the stored ones,
whether the session was reset or not (`Reachable.global_lt`).
-/

namespace TagScript

/-- A value with a tag of its own, well formed among `n` stored scopes. -/
structure Value.Typed (n : Nat) (v : Value) : Prop where
  tag_ne_void : v.tag ≠ .void
  tag_ne_unknown : v.tag ≠ .unknown
  formed : v.Formed n

/-- What is well formed is well typed: the items of an array have the tag that it keeps for them. -/
theorem Value.Formed.typed {n : Nat} {v : Value} (h : v.Formed n) : v.Typed n :=
  ⟨v.tag_ne_void_unknown.1, v.tag_ne_void_unknown.2, h⟩

/-- The stored scopes are typed: each binding has the tag of its value. -/
def Store.Typed (s : Store) : Prop :=
  ∀ id scope b, s.scope? id = some scope → b ∈ scope.values →
    b.tag = b.value.tag ∧ b.value.Typed s.scopes.size

/-- Well-formed scopes have bindings with the tags of their values. -/
theorem Store.Formed.typed {s : Store} (h : s.Formed) : s.Typed := by
  intro id scope b hs hb
  obtain ⟨htag, hvalue⟩ := h.binding id scope b hs hb
  exact ⟨htag, hvalue.typed⟩

/-- The map of an outermost scope starts with what every script finds. -/
theorem Scope.seeded_values : Scope.seeded.values = Builtin.seeded.reverse := rfl

/-- The names that every script finds are different ones, so all of them are declared. -/
theorem Scope.consistent_seeded : Scope.seeded.Consistent :=
  ⟨by decide, by decide⟩

/-- What every script finds is bound with its own tag, and holds no function of a script. -/
theorem Builtin.formed_seeded {b : Binding} (hb : b ∈ Builtin.seeded) :
    b.tag = b.value.tag ∧ b.value.Formed 0 := by
  -- the built-in functions come first, then the three constants
  obtain hb | hb := List.mem_append.mp hb
  · obtain ⟨f, -, rfl⟩ := List.mem_map.mp hb
    exact ⟨rfl, .builtin f⟩
  · simp only [List.mem_cons, List.not_mem_nil, or_false] at hb
    obtain rfl | rfl | rfl := hb
    · exact ⟨rfl, .bool true⟩
    · exact ⟨rfl, .bool false⟩
    · exact ⟨rfl, .null⟩

namespace Store

theorem formed_empty : Store.empty.Formed :=
  ⟨nofun, nofun, nofun⟩

/-- Opening an outermost scope keeps the scopes well formed. -/
theorem Formed.seed {s : Store} (h : s.Formed) : s.seed.2.Formed := by
  refine h.push nofun Scope.consistent_seeded fun b hb => Builtin.formed_seeded ?_
  rwa [Scope.seeded_values, List.mem_reverse] at hb

/-- An outermost scope that is opened is stored. -/
theorem seed_lt (s : Store) : s.seed.1 < s.seed.2.scopes.size := by
  rw [seed, size_push]
  exact Nat.lt_succ_self _

/-- The outermost scope is the one that has been filled with the functions that every script finds.
-/
theorem scope?_seed (s : Store) : s.seed.2.scope? s.seed.1 = some .seeded := by
  rw [seed, scope?_push, push_fst, if_pos rfl]

end Store

namespace Steps

/-- The values in what is being done. -/
def Control.values : Control → List Value
  | .items _ _ done _ => done
  | .args _ _ f _ _ | .apply _ f _ => [f]
  | .block _ last _ => last.value?.toList
  | .program last _ => last.toList
  | .value v => [v]
  | .completed c => c.value?.toList
  | .finished v => v.toList
  | _ => []

/-- The arguments in what is being done. -/
def Control.arguments : Control → List Arg
  | .args _ _ _ done _ | .apply _ _ done => done
  | _ => []

/-- The values in what waits. -/
def Frame.values : Frame → List Value
  | .item _ _ done _ _ => done
  | .arg _ _ f _ _ => [f]
  | .right _ v _ => [v]
  | _ => []

/-- The arguments in what waits. -/
def Frame.arguments : Frame → List Arg
  | .arg _ _ _ done _ => done
  | _ => []

/-- The types at a moment of a run are right. -/
structure State.Typed (c : State) : Prop where
  /-- Each binding has the tag of its value. -/
  store : c.machine.store.Typed
  /-- Each value that was computed is well formed. -/
  value : ∀ v ∈ c.control.values ++ c.stack.flatMap Frame.values, v.Typed c.machine.size
  /-- The tag tracked for an argument is that of its value. -/
  argument : ∀ a ∈ c.control.arguments ++ c.stack.flatMap Frame.arguments,
    a.tag = a.value.tag ∧ a.value.Typed c.machine.size

/-- The items that are done are well formed, whatever their tag. -/
theorem FormedItems.forall_formed {n : Nat} {elem : Option Tag} {items : List Value}
    (h : FormedItems n elem items) : ∀ v ∈ items, v.Formed n := by
  cases h with
  | array _ _ hitems => exact hitems

/-- The values that the control holds are well formed. -/
theorem Control.Formed.values {n : Nat} {control : Control} (h : control.Formed n) :
    ∀ v ∈ control.values, v.Formed n := by
  intro v hv
  cases control with
  | items => exact h.2.forall_formed v hv
  | args => exact List.mem_singleton.mp hv ▸ h.2.1
  | apply => exact List.mem_singleton.mp hv ▸ h.1
  | block => exact h.2 v (Option.mem_toList.mp hv)
  | program => exact h v (Option.mem_toList.mp hv)
  | value => exact List.mem_singleton.mp hv ▸ h
  | completed => exact h v (Option.mem_toList.mp hv)
  | finished => exact h v (Option.mem_toList.mp hv)
  | _ => cases hv

/-- The arguments that the control holds are well formed. -/
theorem Control.Formed.arguments {n : Nat} {control : Control} (h : control.Formed n) :
    ∀ a ∈ control.arguments, a.Formed n := by
  intro a ha
  cases control with
  | args => exact h.2.2 a ha
  | apply => exact h.2 a ha
  | _ => cases ha

/-- The values that a waiting operation holds are well formed. -/
theorem Frame.Formed.values {n : Nat} {frame : Frame} (h : frame.Formed n) :
    ∀ v ∈ frame.values, v.Formed n := by
  intro v hv
  cases frame with
  | item => exact h.2.forall_formed v hv
  | arg => exact List.mem_singleton.mp hv ▸ h.2.1
  | right => exact List.mem_singleton.mp hv ▸ h
  | _ => cases hv

/-- The arguments that a waiting operation holds are well formed. -/
theorem Frame.Formed.arguments {n : Nat} {frame : Frame} (h : frame.Formed n) :
    ∀ a ∈ frame.arguments, a.Formed n := by
  intro a ha
  cases frame with
  | arg => exact h.2.2 a ha
  | _ => cases ha

/-- The types at a well-formed moment are right. -/
theorem State.Formed.typed {c : State} (h : c.Formed) : c.Typed := by
  refine ⟨h.store.typed, ?_, ?_⟩
  · intro v hv
    obtain hv | hv := List.mem_append.mp hv
    · exact (h.control.values v hv).typed
    · obtain ⟨frame, hframe, hv⟩ := List.mem_flatMap.mp hv
      exact ((h.stack frame hframe).values v hv).typed
  · intro a ha
    -- an argument waits with its call, or stands at the front of the run
    have hformed : a.Formed c.machine.size := by
      obtain ha | ha := List.mem_append.mp ha
      · exact h.control.arguments a ha
      · obtain ⟨frame, hframe, ha⟩ := List.mem_flatMap.mp ha
        exact (h.stack frame hframe).arguments a ha
    exact ⟨hformed.1, hformed.2.typed⟩

/-- A program starts in a well-formed state. -/
theorem State.formed_start (p : Program) {m : Machine} (hm : m.store.Formed) :
    (State.start p m).Formed :=
  ⟨hm, by rintro _ ⟨⟩, by simp [State.start]⟩

end Steps

namespace Session

open Steps (State)

/-- A program leaves the scopes as they were or extends them, from each of its moments on. -/
theorem grows_run {s : Session} {p : Program} {c : State} (hs : s.Reachable) (hc : s.Moment p c) :
    c.machine.store.Grows (s.run p).2.machine.store := by
  obtain ⟨last, -, hmachine, -, hlast⟩ := moment_run hs p
  rw [← hmachine]
  exact Steps.steps_grows (hlast c hc)

/-- The outermost scope of every session is stored. -/
theorem Reachable.global_lt {s : Session} (hs : s.Reachable) : s.global < s.machine.size := by
  refine hs.machine_induction (fun g m => g < m.size) (fun _ => Store.seed_lt _)
    (fun _ m _ => m.store.seed_lt) (fun _ _ _ h => h) fun s p hs h => ?_
  exact Nat.lt_of_lt_of_le h (grows_run hs .refl).kept.size_le

/-- The outermost scope is stored at every moment of a program. -/
theorem moment_global_lt {s : Session} {p : Program} {c : State} (hs : s.Reachable)
    (hc : s.Moment p c) : s.global < c.machine.size :=
  Nat.lt_of_lt_of_le hs.global_lt (Steps.steps_grows hc).kept.size_le

/-- The stored scopes of every session are well formed. -/
theorem Reachable.formed {s : Session} (hs : s.Reachable) : s.machine.store.Formed := by
  refine hs.machine_induction (fun _ m => m.store.Formed) (fun _ => Store.formed_empty.seed)
    (fun _ _ h => h.seed) (fun _ _ _ h => h) fun s p hs h => ?_
  -- the session after a run has the machine of the last moment of the run
  obtain ⟨c, -, hmachine, -, hlast⟩ := moment_run hs p
  rw [← hmachine]
  exact ((State.formed_start p h).steps hs.global_lt (hlast _ .refl)).store

/-- Every moment of every program is well formed. -/
theorem moment_formed {s : Session} {p : Program} {c : State} (hs : s.Reachable)
    (hc : s.Moment p c) : c.Formed :=
  (State.formed_start p hs.formed).steps hs.global_lt hc

/-- In every session the types are right: in the stored scopes between programs, at every moment of
every program, and in the value that a program ends with. -/
theorem moment_typed {s : Session} (hs : s.Reachable) (p : Program) :
    s.machine.store.Typed ∧ (∀ c, s.Moment p c → c.Typed) ∧
      ∀ v, (s.run p).1 = .value (some v) → v.Typed (s.run p).2.machine.size := by
  refine ⟨hs.formed.typed, fun c hc => (moment_formed hs hc).typed, ?_⟩
  intro v hv
  obtain ⟨c, houtcome, hmachine, -, hlast⟩ := moment_run hs p
  -- the value that the program ends with is what is left at its last moment
  have hcontrol := (moment_formed hs (hlast _ .refl)).control
  rw [hv] at houtcome
  rw [hmachine] at hcontrol
  rw [Steps.Control.outcome?_eq_value houtcome] at hcontrol
  exact (hcontrol v rfl).typed

/-- An array is declared, and the next program gives it a value of another type. -/
theorem moment_typed_retyped_array :
    let s := ((new ⟨2, .plain, 0, false, false⟩).run
      [.declare .start false "xs" none (.array .start [.int .start 1])]).2
    let p : Program := [.expr .start (.assign .start "xs" (.int .start 2))]
    s.Reachable ∧ s.machine.store.Typed ∧ (∀ c, s.Moment p c → c.Typed) ∧
      ∀ v, (s.run p).1 = .value (some v) → v.Typed (s.run p).2.machine.size :=
  ⟨.run _ (.new _), moment_typed (.run _ (.new _)) _⟩

end Session

end TagScript
