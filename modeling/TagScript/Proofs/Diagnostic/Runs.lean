import Mathlib.Data.List.Chain
import TagScript.Diagnostic.Error

/-!
# Stacks Are Collapsed Without Loss

The stack of an error is written in lines, one for neighbours of one name, with their number
(`collapse`). The lines say what the stack was: each name as many times as its line says, one line
after the other, give the stack again, and no line could have been joined with the next
(`Collapses`).

The pairs behind the lines are found by a loop over the names with a loop inside that counts. What
the inner loop counts are names like the one at the cursor, and the next name is another one
(`countFrom_spec`). So each pass keeps that the pairs stand for the names in front of the cursor and
that the next name starts a new pair (`Cursor.Ready.pass`). The loop visits every name once and ends
behind the last one (`passes_loop`).
-/

namespace TagScript.RuntimeError

/-- The pairs of a name and a number stand for the names, and neighbours of one name are one
pair. -/
structure Collapses (names : List String) (ps : List (String × Nat)) : Prop where
  /-- Every pair stands for a name. -/
  pos : ∀ p ∈ ps, 1 ≤ p.2
  /-- Neighbours have different names. -/
  apart : ps.IsChain fun p q => p.1 ≠ q.1
  /-- The names that the pairs stand for. -/
  expand : (ps.flatMap fun p => List.replicate p.2 p.1) = names

namespace Collapses

theorem nil : Collapses [] [] :=
  ⟨nofun, .nil, rfl⟩

/-- One more pair stands for some more names, which are not those of the last pair. -/
theorem concat {names : List String} {ps : List (String × Nat)} (h : Collapses names ps) {n : Nat}
    (hn : 1 ≤ n) {x : String} (hx : ∀ p ∈ ps.getLast?, p.1 ≠ x) :
    Collapses (names ++ List.replicate n x) (ps ++ [(x, n)]) where
  pos := by
    simp only [List.forall_mem_append, List.forall_mem_singleton]
    exact ⟨h.pos, hn⟩
  apart := by
    refine List.isChain_append.mpr ⟨h.apart, .singleton _, fun p hp q hq => ?_⟩
    obtain rfl : (x, n) = q := Option.some.inj hq
    exact hx p hp
  expand := by
    rw [List.flatMap_append, h.expand, List.flatMap_singleton]

end Collapses

/-- The names from the place `i` on up to the one that `n` steps lead to are `x`, and that one is
another. -/
structure Counts (names : List String) (i : Nat) (x : String) (n : Nat) : Prop where
  /-- There are as many names. -/
  le : i + n ≤ names.length
  /-- They are `x`. -/
  same : ∀ j < n, names[i + j]? = some x
  /-- The next one is not. -/
  other : names[i + n]? ≠ some x

/-- Counting on from some names that are `x` comes to the end of these names. -/
theorem countFrom_spec {names : List String} {i : Nat} {x : String} {n : Nat}
    (hle : i + n ≤ names.length) (hsame : ∀ j < n, names[i + j]? = some x) :
    Counts names i x (countFrom names i x n) := by
  fun_induction countFrom names i x n with
  | case1 n hlt heq ih =>
    refine ih hlt fun j hj => ?_
    obtain hj | rfl := Nat.lt_succ_iff_lt_or_eq.mp hj
    · exact hsame j hj
    · rw [List.getElem?_eq_getElem hlt, heq]
  | case2 n hlt hne =>
    refine ⟨hle, hsame, ?_⟩
    rw [List.getElem?_eq_getElem hlt]
    exact fun h => hne (Option.some.inj h)
  | case3 n hge =>
    refine ⟨hle, hsame, ?_⟩
    rw [List.getElem?_eq_none (Nat.not_lt.mp hge)]
    exact (Option.some_ne_none x).symm

/-- The names that were counted are as many times the one name. -/
theorem Counts.take_drop {names : List String} {i : Nat} {x : String} {n : Nat}
    (h : Counts names i x n) : (names.drop i).take n = List.replicate n x := by
  have hle := h.le
  refine List.ext_getElem? fun j => ?_
  rw [List.getElem?_take, List.getElem?_replicate, List.getElem?_drop]
  split
  next hj => exact h.same j hj
  next => rfl

namespace Cursor

/-- The loop stands at some place: the pairs so far stand for the names in front of it, and the name
there, if there is one, starts a new pair. -/
structure Ready (names : List String) (c : Cursor) : Prop where
  /-- The place is one of a name, or the one behind the last name. -/
  le : c.next ≤ names.length
  /-- The pairs stand for the names in front of it. -/
  collapses : Collapses (names.take c.next) c.done
  /-- The name there is not that of the last pair. -/
  apart : ∀ p ∈ c.done.getLast?, names[c.next]? ≠ some p.1

theorem ready_start (names : List String) : Ready names ⟨0, []⟩ :=
  ⟨Nat.zero_le _, .nil, nofun⟩

namespace Ready

variable {names : List String} {c d : Cursor}

/-- A pass counts the names from the cursor on and goes behind them. -/
theorem pass (h : c.Ready names) (hpass : c.pass names = some d) : d.Ready names := by
  unfold Cursor.pass at hpass
  split at hpass
  next hlt =>
    cases hpass
    have hfirst : names[c.next]? = some names[c.next] := List.getElem?_eq_getElem hlt
    have hcounts : Counts names c.next names[c.next] (countFrom names c.next names[c.next] 1) := by
      refine countFrom_spec hlt fun j hj => ?_
      obtain rfl : j = 0 := Nat.lt_one_iff.mp hj
      exact hfirst
    refine ⟨hcounts.le, ?_, ?_⟩
    · rw [List.take_add, hcounts.take_drop]
      refine h.collapses.concat (le_countFrom names c.next _ 1) fun p hp heq => ?_
      exact h.apart p hp (by rw [hfirst, heq])
    · intro p hp
      rw [List.getLast?_concat] at hp
      cases hp
      exact hcounts.other
  next => cases hpass

/-- The loop ends behind the last name only. -/
theorem next_eq_length (h : c.Ready names) (hpass : c.pass names = none) :
    c.next = names.length := by
  unfold Cursor.pass at hpass
  split at hpass
  next => cases hpass
  next hge => exact Nat.le_antisymm h.le (Nat.not_lt.mp hge)

end Ready

end Cursor

/-- Some passes of the loop, with the places that they visit. -/
inductive Passes (names : List String) : Cursor → List Nat → Cursor → Prop
  | nil (c : Cursor) : Passes names c [] c
  | cons {c d e : Cursor} {places : List Nat} : c.pass names = some d → Passes names d places e →
      Passes names c (List.range' c.next (d.next - c.next) ++ places) e

/-- From a cursor on the loop visits the places up to the end, each once, and its pairs stand for
all the names. -/
theorem passes_loop {names : List String} {c : Cursor} (h : c.Ready names) :
    Passes names c (List.range' c.next (names.length - c.next)) ⟨names.length, c.loop names⟩ ∧
      Collapses names (c.loop names) := by
  fun_induction Cursor.loop names c with
  | case1 c d hpass ih =>
    have hd := h.pass hpass
    obtain ⟨hmore, hcollapses⟩ := ih hd
    obtain ⟨-, hlt⟩ := Cursor.pass_lt hpass
    have hle := hd.le
    -- the places of this pass and those of the ones behind it
    have hplaces : List.range' c.next (d.next - c.next) ++
        List.range' d.next (names.length - d.next) =
          List.range' c.next (names.length - c.next) := by
      have hnext : d.next = c.next + (d.next - c.next) := by omega
      have hlength : d.next - c.next + (names.length - d.next) = names.length - c.next := by omega
      rw [← hlength, ← List.range'_append_1, ← hnext]
    rw [← hplaces]
    exact ⟨.cons hpass hmore, hcollapses⟩
  | case2 c hpass =>
    have hend := h.next_eq_length hpass
    have hcollapses := h.collapses
    rw [hend, List.take_length] at hcollapses
    rw [hend, Nat.sub_self, ← hend]
    exact ⟨.nil c, hcollapses⟩

/-- The loop over all names visits each place once, and its pairs stand for the names. -/
theorem passes_collapse (names : List String) :
    Passes names ⟨0, []⟩ (List.range names.length) ⟨names.length, collapse names⟩ ∧
      Collapses names (collapse names) := by
  rw [List.range_eq_range']
  exact passes_loop (Cursor.ready_start names)

/-- Behind the last name there is no pass. -/
theorem pass_length (names : List String) (done : List (String × Nat)) :
    Cursor.pass names ⟨names.length, done⟩ = none :=
  dif_neg (Nat.lt_irrefl _)

/-- The line about some calls of one function has their number if there is more than one. -/
theorem frameText_eq {n : Nat} (hn : 1 ≤ n) (function : String) :
    frameText (function, n) =
      if n = 1 then "  at " ++ function ++ "()\n"
      else "  at " ++ function ++ "() x" ++ toString n ++ "\n" := by
  rw [frameText]
  by_cases hone : n = 1
  · subst hone
    simp [String.append_assoc]
  · have hmark : "() x" = "()" ++ " x" := rfl
    rw [if_pos (by omega), if_neg hone, hmark]
    simp only [String.append_assoc]

/-- The stack of an error is written without loss. Below the headline and the place there is a line
for each pair of a name and a number, in order, with the number where it is not one. The pairs stand
for the stack, and neighbours of one name are one pair. They are found by a loop that visits each
place of the stack once and comes to an end. -/
theorem stack_collapses (e : RuntimeError) (h : e.stack ≠ []) :
    Collapses e.stack (collapse e.stack) ∧
      e.detail = Bytes.ofString e.placeText ++ e.lineText ++
        Bytes.ofString ("Stack:\n" ++ String.join ((collapse e.stack).map frameText)) ∧
      (∀ p ∈ collapse e.stack, frameText p =
        if p.2 = 1 then "  at " ++ p.1 ++ "()\n"
        else "  at " ++ p.1 ++ "() x" ++ toString p.2 ++ "\n") ∧
      Passes e.stack ⟨0, []⟩ (List.range e.stack.length)
        ⟨e.stack.length, collapse e.stack⟩ ∧
      Cursor.pass e.stack ⟨e.stack.length, collapse e.stack⟩ = none := by
  obtain ⟨hpasses, hcollapses⟩ := passes_collapse e.stack
  refine ⟨hcollapses, ?_, fun p hp => frameText_eq (hcollapses.pos p hp) p.1, hpasses,
    pass_length e.stack _⟩
  rw [detail, stackText, if_neg h]

/-- Two functions that called each other, one of them also itself. -/
theorem stack_collapses_recursion :
    let e : RuntimeError := ⟨.depth 5, "", .nowhere, [], ["f", "g", "g", "g", "f"]⟩
    e.stack ≠ [] ∧
      e.detail = Bytes.ofString "Stack:\n  at f()\n  at g() x3\n  at f()\n" ∧
      Passes e.stack ⟨0, []⟩ [0, 1, 2, 3, 4] ⟨5, [("f", 1), ("g", 3), ("f", 1)]⟩ := by
  intro e
  have hne : e.stack ≠ [] := nofun
  have hpairs : collapse e.stack = [("f", 1), ("g", 3), ("f", 1)] := by decide +kernel
  obtain ⟨-, hdetail, -, hpasses, -⟩ := stack_collapses e hne
  rw [hpairs] at hdetail hpasses
  refine ⟨hne, ?_, hpasses⟩
  rw [hdetail]
  rfl

end TagScript.RuntimeError
