import TagScript.Proofs.Tree.Relocate

/-!
# The Positions in a Tree

`Expr.positions` and `Stmt.positions` list the positions of all nodes of a tree. A tree is not
changed by what leaves them alone (`Expr.relocate_eq_self`, `Stmt.relocate_eq_self`). Among the
replacements of positions, `Position.keep ps` leaves alone just those in `ps`: what it does not
change has no other positions.
-/

namespace TagScript

namespace Position

/-- The position itself if it is in `ps`, and another one if it is not. -/
def keep (ps : List Position) (p : Position) : Position :=
  if p ∈ ps then p else p.below 1

theorem keep_eq_self_iff {ps : List Position} {p : Position} : p.keep ps = p ↔ p ∈ ps := by
  unfold keep
  split
  next h => exact iff_of_true rfl h
  next h =>
    refine iff_of_false (fun heq => ?_) h
    have hline : p.line + (1 : Nat) = p.line := congrArg line heq
    omega

end Position

section Definitions

mutual

/-- The positions of the nodes of an expression. -/
def Expr.positions : Expr → List Position
  | .int p _ | .float p _ | .string p _ | .bool p _ | .null p | .name p _ => [p]
  | .array p items => p :: positionsAll items
  | .assign p _ value => p :: value.positions
  | .call p callee args => p :: callee.positions ++ positionsAll args
  | .binary p left _ right => p :: left.positions ++ right.positions
  | .unary p _ right => p :: right.positions
  | .step p left _ => p :: left.positions

/-- The positions of the nodes of some expressions. -/
def Expr.positionsAll : List Expr → List Position
  | [] => []
  | e :: rest => e.positions ++ positionsAll rest

end

mutual

/-- The positions of the nodes of a statement. -/
def Stmt.positions : Stmt → List Position
  | .declare p _ _ _ value => p :: value.positions
  | .function p _ _ _ body => p :: positionsAll body
  | .ret p none => [p]
  | .ret p (some value) => p :: value.positions
  | .expr p value => p :: value.positions
  | .branch p condition yes none => p :: condition.positions ++ positionsAll yes
  | .branch p condition yes (some no) =>
    p :: condition.positions ++ positionsAll yes ++ positionsAll no
  | .loop p _ range body => p :: range.positions ++ positionsAll body

/-- The positions of the nodes of some statements. -/
def Stmt.positionsAll : List Stmt → List Position
  | [] => []
  | s :: rest => s.positions ++ positionsAll rest

end

end Definitions

section Lemmas

variable {f : Position → Position}

mutual

/-- An expression whose positions are left alone stays as it is. -/
theorem Expr.relocate_eq_self : (e : Expr) → (∀ p ∈ e.positions, f p = p) → e.relocate f = e
  | .int .. | .float .. | .string .. | .bool .. | .null _ | .name .. => fun h => by
    simp [relocate, h _ List.mem_cons_self]
  | .array _ items => fun h => by
    simp only [positions, List.forall_mem_cons] at h
    simp [relocate, h.1, relocateAll_eq_self items h.2]
  | .assign _ _ value => fun h => by
    simp only [positions, List.forall_mem_cons] at h
    simp [relocate, h.1, relocate_eq_self value h.2]
  | .call _ callee args => fun h => by
    simp only [positions, List.cons_append, List.forall_mem_cons, List.forall_mem_append] at h
    simp [relocate, h.1, relocate_eq_self callee h.2.1, relocateAll_eq_self args h.2.2]
  | .binary _ left _ right => fun h => by
    simp only [positions, List.cons_append, List.forall_mem_cons, List.forall_mem_append] at h
    simp [relocate, h.1, relocate_eq_self left h.2.1, relocate_eq_self right h.2.2]
  | .unary _ _ right => fun h => by
    simp only [positions, List.forall_mem_cons] at h
    simp [relocate, h.1, relocate_eq_self right h.2]
  | .step _ left _ => fun h => by
    simp only [positions, List.forall_mem_cons] at h
    simp [relocate, h.1, relocate_eq_self left h.2]

theorem Expr.relocateAll_eq_self :
    (es : List Expr) → (∀ p ∈ positionsAll es, f p = p) → relocateAll f es = es
  | [] => fun _ => rfl
  | e :: rest => fun h => by
    simp only [positionsAll, List.forall_mem_append] at h
    simp [relocateAll, relocate_eq_self e h.1, relocateAll_eq_self rest h.2]

end

mutual

/-- A statement whose positions are left alone stays as it is. -/
theorem Stmt.relocate_eq_self : (s : Stmt) → (∀ p ∈ s.positions, f p = p) → s.relocate f = s
  | .declare _ _ _ _ value => fun h => by
    simp only [positions, List.forall_mem_cons] at h
    simp [relocate, h.1, value.relocate_eq_self h.2]
  | .function _ _ _ _ body => fun h => by
    simp only [positions, List.forall_mem_cons] at h
    simp [relocate, h.1, relocateAll_eq_self body h.2]
  | .ret _ none => fun h => by
    simp [relocate, h _ List.mem_cons_self]
  | .ret _ (some value) => fun h => by
    simp only [positions, List.forall_mem_cons] at h
    simp [relocate, h.1, value.relocate_eq_self h.2]
  | .expr _ value => fun h => by
    simp only [positions, List.forall_mem_cons] at h
    simp [relocate, h.1, value.relocate_eq_self h.2]
  | .branch _ condition yes none => fun h => by
    simp only [positions, List.cons_append, List.forall_mem_cons, List.forall_mem_append] at h
    simp [relocate, h.1, condition.relocate_eq_self h.2.1, relocateAll_eq_self yes h.2.2]
  | .branch _ condition yes (some no) => fun h => by
    simp only [positions, List.cons_append, List.forall_mem_cons, List.forall_mem_append] at h
    obtain ⟨hp, ⟨hcondition, hyes⟩, hno⟩ := h
    simp [relocate, hp, condition.relocate_eq_self hcondition, relocateAll_eq_self yes hyes,
      relocateAll_eq_self no hno]
  | .loop _ _ range body => fun h => by
    simp only [positions, List.cons_append, List.forall_mem_cons, List.forall_mem_append] at h
    simp [relocate, h.1, range.relocate_eq_self h.2.1, relocateAll_eq_self body h.2.2]

/-- Some statements whose positions are left alone stay as they are. -/
theorem Stmt.relocateAll_eq_self :
    (ss : List Stmt) → (∀ p ∈ positionsAll ss, f p = p) → relocateAll f ss = ss
  | [] => fun _ => rfl
  | s :: rest => fun h => by
    simp only [positionsAll, List.forall_mem_append] at h
    simp [relocateAll, relocate_eq_self s h.1, relocateAll_eq_self rest h.2]

end

end Lemmas

end TagScript
