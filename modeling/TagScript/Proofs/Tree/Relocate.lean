import TagScript.Tree.Show

/-!
# Trees at Other Positions

`Expr.relocate f` and `Stmt.relocate f` replace every position `p` in a tree by `f p` and change
nothing else. Two special cases matter: a tree below some lines of text (`Position.below`), and a
tree without places (`Stmt.unplaced`), in which every position stands for no place at all. Two
programs that differ in nothing but positions are the same program without places.
-/

namespace TagScript

namespace Position

/-- The position in a text that has `n` lines in front. -/
def below (n : Nat) (p : Position) : Position :=
  ⟨p.line + n, p.column⟩

/-- No place, whatever the position. -/
def forget (_ : Position) : Position :=
  .nowhere

end Position

section Definitions

variable (f : Position → Position)

mutual

/-- The expression with each position `p` replaced by `f p`. -/
def Expr.relocate : Expr → Expr
  | .int p n => .int (f p) n
  | .float p x => .float (f p) x
  | .string p s => .string (f p) s
  | .bool p b => .bool (f p) b
  | .null p => .null (f p)
  | .array p items => .array (f p) (relocateAll items)
  | .name p x => .name (f p) x
  | .assign p x value => .assign (f p) x value.relocate
  | .call p callee args => .call (f p) callee.relocate (relocateAll args)
  | .binary p left op right => .binary (f p) left.relocate op right.relocate
  | .unary p op right => .unary (f p) op right.relocate
  | .step p left op => .step (f p) left.relocate op

/-- Some expressions with each position `p` replaced by `f p`. -/
def Expr.relocateAll : List Expr → List Expr
  | [] => []
  | e :: rest => e.relocate :: relocateAll rest

end

mutual

/-- The statement with each position `p` replaced by `f p`. -/
def Stmt.relocate : Stmt → Stmt
  | .declare p constant x type value => .declare (f p) constant x type (value.relocate f)
  | .function p x params returns body => .function (f p) x params returns (relocateAll body)
  | .ret p none => .ret (f p) none
  | .ret p (some value) => .ret (f p) (some (value.relocate f))
  | .expr p value => .expr (f p) (value.relocate f)
  | .branch p condition yes none =>
    .branch (f p) (condition.relocate f) (relocateAll yes) none
  | .branch p condition yes (some no) =>
    .branch (f p) (condition.relocate f) (relocateAll yes) (some (relocateAll no))
  | .loop p cursor range body => .loop (f p) cursor (range.relocate f) (relocateAll body)

/-- Some statements with each position `p` replaced by `f p`. -/
def Stmt.relocateAll : List Stmt → List Stmt
  | [] => []
  | s :: rest => s.relocate :: relocateAll rest

end

end Definitions

/-- The statements of a program without places. -/
def Stmt.unplaced (p : Program) : Program :=
  Stmt.relocateAll Position.forget p

section Lemmas

variable (f g : Position → Position)

/-- An expression at its new position. -/
@[simp]
theorem Expr.position_relocate (e : Expr) : (e.relocate f).position = f e.position := by
  cases e <;> rfl

/-- An assignment stays one. -/
@[simp]
theorem Expr.isAssign_relocate (e : Expr) : (e.relocate f).isAssign = e.isAssign := by
  cases e <;> rfl

/-- A statement at its new position. -/
@[simp]
theorem Stmt.position_relocate (s : Stmt) : (s.relocate f).position = f s.position := by
  cases s with
  | ret p value => cases value <;> rfl
  | branch p condition yes no => cases no <;> rfl
  | _ => rfl

/-- A statement keeps its kind. -/
@[simp]
theorem Stmt.kindName_relocate (s : Stmt) : (s.relocate f).kindName = s.kindName := by
  cases s with
  | ret p value => cases value <;> rfl
  | branch p condition yes no => cases no <;> rfl
  | _ => rfl

/-- Expressions are moved one by one. -/
theorem Expr.relocateAll_eq_map (es : List Expr) : relocateAll f es = es.map (relocate f) := by
  induction es with
  | nil => rfl
  | cons e rest ih => simp [relocateAll, ih]

/-- Statements are moved one by one. -/
theorem Stmt.relocateAll_eq_map (ss : List Stmt) : relocateAll f ss = ss.map (relocate f) := by
  induction ss with
  | nil => rfl
  | cons s rest ih => simp [relocateAll, ih]

mutual

/-- Replacing positions twice is replacing them once. -/
theorem Expr.relocate_relocate : (e : Expr) → (e.relocate f).relocate g = e.relocate (g ∘ f)
  | .int .. | .float .. | .string .. | .bool .. | .null _ | .name .. => rfl
  | .array _ items => by simp [relocate, relocateAll_relocateAll items]
  | .assign _ _ value => by simp [relocate, relocate_relocate value]
  | .call _ callee args => by
    simp [relocate, relocate_relocate callee, relocateAll_relocateAll args]
  | .binary _ left _ right => by
    simp [relocate, relocate_relocate left, relocate_relocate right]
  | .unary _ _ right => by simp [relocate, relocate_relocate right]
  | .step _ left _ => by simp [relocate, relocate_relocate left]

theorem Expr.relocateAll_relocateAll :
    (es : List Expr) → relocateAll g (relocateAll f es) = relocateAll (g ∘ f) es
  | [] => rfl
  | e :: rest => by simp [relocateAll, relocate_relocate e, relocateAll_relocateAll rest]

end

mutual

/-- To move a statement twice is to move it once, by both. -/
theorem Stmt.relocate_relocate : (s : Stmt) → (s.relocate f).relocate g = s.relocate (g ∘ f)
  | .declare _ _ _ _ value => by simp [relocate, value.relocate_relocate]
  | .function _ _ _ _ body => by simp [relocate, relocateAll_relocateAll body]
  | .ret _ none => rfl
  | .ret _ (some value) => by simp [relocate, value.relocate_relocate]
  | .expr _ value => by simp [relocate, value.relocate_relocate]
  | .branch _ condition yes none => by
    simp [relocate, condition.relocate_relocate, relocateAll_relocateAll yes]
  | .branch _ condition yes (some no) => by
    simp [relocate, condition.relocate_relocate, relocateAll_relocateAll yes,
      relocateAll_relocateAll no]
  | .loop _ _ range body => by
    simp [relocate, range.relocate_relocate, relocateAll_relocateAll body]

theorem Stmt.relocateAll_relocateAll :
    (ss : List Stmt) → relocateAll g (relocateAll f ss) = relocateAll (g ∘ f) ss
  | [] => rfl
  | s :: rest => by simp [relocateAll, relocate_relocate s, relocateAll_relocateAll rest]

end

mutual

/-- An expression that is not moved stays as it is. -/
@[simp]
theorem Expr.relocate_id : (e : Expr) → e.relocate id = e
  | .int .. | .float .. | .string .. | .bool .. | .null _ | .name .. => rfl
  | .array _ items => by simp [relocate, relocateAll_id items]
  | .assign _ _ value => by simp [relocate, relocate_id value]
  | .call _ callee args => by simp [relocate, relocate_id callee, relocateAll_id args]
  | .binary _ left _ right => by simp [relocate, relocate_id left, relocate_id right]
  | .unary _ _ right => by simp [relocate, relocate_id right]
  | .step _ left _ => by simp [relocate, relocate_id left]

theorem Expr.relocateAll_id : (es : List Expr) → relocateAll id es = es
  | [] => rfl
  | e :: rest => by simp [relocateAll, relocate_id e, relocateAll_id rest]

end

mutual

/-- A statement that is not moved stays as it is. -/
theorem Stmt.relocate_id : (s : Stmt) → s.relocate id = s
  | .declare .. => by simp [relocate]
  | .function _ _ _ _ body => by simp [relocate, relocateAll_id body]
  | .ret _ none => rfl
  | .ret _ (some _) => by simp [relocate]
  | .expr .. => by simp [relocate]
  | .branch _ _ yes none => by simp [relocate, relocateAll_id yes]
  | .branch _ _ yes (some no) => by simp [relocate, relocateAll_id yes, relocateAll_id no]
  | .loop _ _ _ body => by simp [relocate, relocateAll_id body]

@[simp]
theorem Stmt.relocateAll_id : (ss : List Stmt) → relocateAll id ss = ss
  | [] => rfl
  | s :: rest => by simp [relocateAll, relocate_id s, relocateAll_id rest]

end

/-- A program without places does not tell where it was. -/
theorem Stmt.unplaced_relocateAll (p : Program) :
    Stmt.unplaced (Stmt.relocateAll f p) = Stmt.unplaced p := by
  rw [unplaced, unplaced, relocateAll_relocateAll]
  rfl

/-- Positions are taken from two programs one after the other. -/
theorem Stmt.unplaced_append (p q : Program) :
    Stmt.unplaced (p ++ q) = Stmt.unplaced p ++ Stmt.unplaced q := by
  simp [unplaced, relocateAll_eq_map]

end Lemmas

end TagScript
