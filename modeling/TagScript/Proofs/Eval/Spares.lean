import TagScript.Proofs.Machine.Spares

/-!
# Evaluation Spares a Binding

A cell that no stored function can change stays as it is while code is evaluated that cannot change
it either (`spares_expr`, `spares_block`), and the functions that this code makes cannot change it
later. The calls are included: what is called was held by some value, and every value that comes up
on the way holds only functions that cannot change the cell.

An inner loop moves a cursor of its own, maybe one of the same name; it has a scope of its own for
that.
-/

namespace TagScript.Eval

variable {cell : Cell} {b : Binding}

/-- Calling a function spares a cell, if neither the function nor an argument can change it. -/
def Sparing (cell : Cell) (b : Binding) (invoke : Invoke) : Prop :=
  ∀ (f : Closure) (args : List Arg) (p : Position) (m : Machine), cell.Kept b m.store →
    cell.Spared m.store f.scope (Stmt.assignsAny cell.name f.body) →
    (∀ a ∈ args, cell.SparedBy m.store a.value) →
    Spares cell b (invoke f args p) m fun v s => cell.SparedBy s v

variable {ctx : Context} {invoke : Invoke}

theorem spares_callValue {m : Machine} (hi : Sparing cell b invoke) (hm : cell.Kept b m.store)
    (p : Position) {callee : Value} (hcallee : cell.SparedBy m.store callee) {args : List Arg}
    (hargs : ∀ a ∈ args, cell.SparedBy m.store a.value) :
    Spares cell b (callValue ctx invoke p callee args) m fun v s => cell.SparedBy s v := by
  unfold callValue
  split
  next f => exact spares_callBuiltin ctx hm p f args
  -- the function that is called is held by the value that was called
  next f => exact hi f args p m hm (hcallee f (.function f)) hargs
  next => exact .fail

mutual

/-- An expression that cannot change the cell, with a value that cannot. -/
theorem spares_expr {m : Machine} {scope : ScopeId} (hi : Sparing cell b invoke)
    (hm : cell.Kept b m.store) (e : Expr) (he : cell.Spared m.store scope (e.assigns cell.name)) :
    Spares cell b (expr ctx invoke scope e) m fun v s => cell.SparedBy s v := by
  cases e with
  | int p n => exact .pure hm (Cell.sparedBy_of_formed (.int n))
  | float p x => exact .pure hm (Cell.sparedBy_of_formed (.float x))
  | string p s => exact .pure hm (Cell.sparedBy_of_formed (.string s))
  | bool p x => exact .pure hm (Cell.sparedBy_of_formed (.bool x))
  | null p => exact .pure hm (Cell.sparedBy_of_formed .null)
  | array p es =>
    rw [Expr.assigns] at he
    refine .bind (spares_items hi hm none es he) fun found n hn _ hvs => ?_
    exact .pure hn (Cell.sparedBy_array hvs)
  | name p x => exact .bind (spares_bindingOf ctx hm p scope x) fun _ _ hn _ hd => .pure hn hd
  | assign p x e =>
    rw [Expr.assigns] at he
    refine .bind (spares_requireDeclared ctx hm p scope x) fun _ n hn hext _ => ?_
    refine .bind (spares_expr hi hn e (he.right.mono hext)) fun v o ho hext' hv => ?_
    -- the place that is written is not the cell, also after the right side was computed
    refine .bind (spares_assignValue ctx ho p e.position ?_ hv) fun _ _ hk _ _ => ?_
    · exact (he.left.mono hext).mono hext'
    · exact .pure hk (Cell.sparedBy_of_formed .null)
  | call p callee es =>
    rw [Expr.assigns] at he
    refine .bind (spares_expr hi hm callee he.left) fun f n hn hext hf => ?_
    refine .bind (.check hn) fun _ o ho hext' _ => ?_
    have hes := (he.right.mono hext).mono hext'
    refine .bind (spares_args hi ho es hes) fun args k hk hext'' hargs => ?_
    exact spares_callValue hi hk p ((hf.mono hext').mono hext'') hargs
  | binary p left op right =>
    rw [Expr.assigns] at he
    refine .bind (spares_expr hi hm left he.left) fun v n hn hext _ => ?_
    refine .bind (spares_expr hi hn right (he.right.mono hext)) fun w o ho _ _ => ?_
    exact spares_accept ctx ho p fun _ => BinaryOp.formed_apply
  | unary p op right =>
    rw [Expr.assigns] at he
    refine .bind (spares_expr hi hm right he) fun v n hn _ _ => ?_
    exact spares_accept ctx hn p fun _ => UnaryOp.formed_apply
  | step p left op =>
    rw [Expr.assigns] at he
    refine .bind (spares_expr hi hm left he) fun v n hn _ _ => ?_
    exact spares_accept ctx hn p fun _ => StepOp.formed_apply

/-- The items of an array. -/
theorem spares_items {m : Machine} {scope : ScopeId} (hi : Sparing cell b invoke)
    (hm : cell.Kept b m.store) (expected : Option Tag) (es : List Expr)
    (hes : cell.Spared m.store scope (Expr.assignsAny cell.name es)) :
    Spares cell b (items ctx invoke scope expected es) m fun found s =>
      ∀ v ∈ found.2, cell.SparedBy s v := by
  cases es with
  | nil => exact .pure hm (by simp)
  | cons e rest =>
    rw [Expr.assignsAny] at hes
    refine .bind (spares_expr hi hm e hes.left) fun v n hn hext hv => ?_
    refine .bind (.check hn) fun _ o ho hext' _ => ?_
    have hrest := (hes.right.mono hext).mono hext'
    refine .bind (spares_items hi ho _ rest hrest) fun found k hk hext'' hvs => ?_
    refine .pure hk (List.forall_mem_cons.mpr ⟨?_, hvs⟩)
    exact (hv.mono hext').mono hext''

/-- The arguments of a call. -/
theorem spares_args {m : Machine} {scope : ScopeId} (hi : Sparing cell b invoke)
    (hm : cell.Kept b m.store) (es : List Expr)
    (hes : cell.Spared m.store scope (Expr.assignsAny cell.name es)) :
    Spares cell b (args ctx invoke scope es) m fun vs s =>
      ∀ a ∈ vs, cell.SparedBy s a.value := by
  cases es with
  | nil => exact .pure hm (by simp)
  | cons e rest =>
    rw [Expr.assignsAny] at hes
    have hcons {a : Arg} {n : Machine} (hn : cell.Kept b n.store)
        (hext : m.store.Extends n.store) (ha : cell.SparedBy n.store a.value) :
        Spares cell b (do
          let more ← args ctx invoke scope rest
          return a :: more) n fun vs s => ∀ a ∈ vs, cell.SparedBy s a.value := by
      refine .bind (spares_args hi hn rest (hes.right.mono hext)) fun more k hk hext' hmore => ?_
      exact .pure hk (List.forall_mem_cons.mpr ⟨ha.mono hext', hmore⟩)
    have he := spares_expr hi hm e hes.left
    cases e with
    | name p x =>
      exact .bind (spares_bindingOf ctx hm p scope x) fun _ _ hn hext hd => hcons hn hext hd
    | _ => exact .bind he fun _ _ hn hext hv => hcons hn hext hv

end

/-- The passes of a loop, of which each one spares the cell. -/
theorem spares_passes {m : Machine} {pass : Eval Completion} (count : Nat)
    (hm : cell.Kept b m.store)
    (hpass : ∀ n, cell.Kept b n.store → m.store.Extends n.store →
      Spares cell b pass n fun c s => c.SparedBy cell s) :
    Spares cell b (passes count pass) m fun c s => c.SparedBy cell s := by
  induction count generalizing m with
  | zero => exact .pure hm Completion.sparedBy_empty
  | succ count ih =>
    refine .bind (hpass m hm (.refl _)) fun c n hn hext hc => ?_
    have hrest := ih hn fun o ho hext' => hpass o ho (hext.trans hext')
    cases c with
    | returning v => exact .pure hn hc
    | value v => exact hrest
    | empty => exact hrest

/-- The end of a pass of a loop that has a scope of its own for its cursor. -/
theorem spares_endPass {m : Machine} {scope : ScopeId} (hm : cell.Kept b m.store)
    {cursor : String} (step : Int64) (hne : scope ≠ cell.owner)
    (hfind : m.store.find? scope cursor ≠ none) {c : Completion} (hc : c.SparedBy cell m.store) :
    Spares cell b (endPass scope cursor step c) m fun c s => c.SparedBy cell s := by
  have hmove : Spares cell b (do
      moveCursor scope cursor step
      return Completion.empty) m fun c s => c.SparedBy cell s :=
    .bind (spares_moveCursor hm step hne hfind) fun _ _ hn _ _ => .pure hn Completion.sparedBy_empty
  cases c with
  | returning v => exact .pure hm hc
  | value v => exact hmove
  | empty => exact hmove

mutual

/-- A statement that cannot change the cell. -/
theorem spares_stmt {m : Machine} {scope : ScopeId} (hi : Sparing cell b invoke)
    (hm : cell.Kept b m.store) (s : Stmt) (hs : cell.Spared m.store scope (s.assigns cell.name)) :
    Spares cell b (stmt ctx invoke scope s) m fun c s => c.SparedBy cell s := by
  cases s with
  | declare p constant x type e =>
    rw [Stmt.assigns] at hs
    refine .bind (spares_expr hi hm e hs) fun v n hn _ hv => ?_
    exact .bind (spares_declareValue ctx hn p scope constant x type e.position hv)
      fun _ _ ho _ _ => .pure ho Completion.sparedBy_empty
  | function p x params returns body =>
    rw [Stmt.assigns] at hs
    exact .bind (spares_declareFunction ctx hm p x params returns hs)
      fun _ _ hn _ _ => .pure hn Completion.sparedBy_empty
  | ret p value =>
    cases value with
    | none =>
      refine .pure hm ?_
      rintro v ⟨⟩
      exact Cell.sparedBy_of_formed .null
    | some e =>
      rw [Stmt.assigns] at hs
      refine .bind (spares_expr hi hm e hs) fun v n hn _ hv => .pure hn ?_
      rintro w ⟨⟩
      exact hv
  | expr p e =>
    rw [Stmt.assigns] at hs
    refine .bind (spares_expr hi hm e hs) fun v n hn _ hv => .pure hn ?_
    split
    · rintro w ⟨⟩
    · rintro w ⟨⟩
      exact hv
  | branch p condition yes no =>
    cases no with
    | none =>
      rw [Stmt.assigns] at hs
      refine .bind (spares_expr hi hm condition hs.left) fun v n hn hext _ => .ite (fun _ => ?_)
        fun _ => .pure hn Completion.sparedBy_empty
      refine .bind (spares_openScope hn .branch (hs.right.mono hext)) fun inner o ho _ hin => ?_
      exact spares_block hi ho Completion.sparedBy_empty yes hin.1
    | some no =>
      rw [Stmt.assigns] at hs
      refine .bind (spares_expr hi hm condition hs.left.left) fun v n hn hext _ =>
        .ite (fun _ => ?_) fun _ => ?_
      · refine .bind (spares_openScope hn .branch (hs.left.right.mono hext))
          fun inner o ho _ hin => ?_
        exact spares_block hi ho Completion.sparedBy_empty yes hin.1
      · refine .bind (spares_openScope hn .branch (hs.right.mono hext)) fun inner o ho _ hin => ?_
        exact spares_block hi ho Completion.sparedBy_empty no hin.1
  | loop p cursor e body =>
    rw [Stmt.assigns] at hs
    refine .bind (spares_expr hi hm e hs.left) fun v n hn hext _ => ?_
    refine .bind (spares_loopRange ctx hn e.position v) fun r o ho hext' _ => ?_
    have hbody := (hs.right.mono hext).mono hext'
    -- the cursor is bound in a new scope, so it is not the cell, whatever its name is
    refine .bind (spares_openScope ho .loop hbody) fun outer k hk _ ⟨houter, hne⟩ => ?_
    refine .bind (spares_define hk outer (Cell.sparedBy_of_formed (.int r.start)))
      fun _ first hfirst hext hbound => spares_passes _ hfirst fun n hn hpast => ?_
    have hpass := (houter.mono hext).mono hpast
    refine .bind (spares_openScope hn .block hpass) fun inner n' hn' hext' ⟨hinner, _⟩ => ?_
    refine .bind (spares_block hi hn' Completion.sparedBy_empty body hinner)
      fun c o ho hblock hc => ?_
    -- the cursor stays bound in its scope, and there it moves
    have hcursor := (hpast.trans (hext'.trans hblock)).find?_ne_none (hbound houter.1)
    exact spares_endPass ho r.step hne hcursor hc

/-- A block that cannot change the cell. -/
theorem spares_block {m : Machine} {scope : ScopeId} (hi : Sparing cell b invoke)
    (hm : cell.Kept b m.store) {last : Completion} (hlast : last.SparedBy cell m.store)
    (ss : List Stmt) (hss : cell.Spared m.store scope (Stmt.assignsAny cell.name ss)) :
    Spares cell b (block ctx invoke scope last ss) m fun c s => c.SparedBy cell s := by
  cases ss with
  | nil => exact .pure hm hlast
  | cons s rest =>
    rw [Stmt.assignsAny] at hss
    refine .bind (spares_stmt hi hm s hss.left) fun c n hn hext hc => ?_
    have hrest := spares_block hi hn hc rest (hss.right.mono hext)
    cases c with
    | returning v => exact .pure hn hc
    | value v => exact hrest
    | empty => exact hrest

end

/-- However many more calls may become active. -/
theorem sparing_call (ctx : Context) (spare : Nat) : Sparing cell b (call ctx spare) := by
  induction spare with
  | zero =>
    intro f args p m hm _ _
    exact .bind (.check hm) fun _ _ _ _ _ => .fail
  | succ spare ih =>
    intro f args p m hm hf hargs
    refine .bind (.check hm) fun _ n hn hext _ => ?_
    refine .bind (spares_openCall ctx hn p f (hf.mono hext) fun a h => (hargs a h).mono hext)
      fun scope o ho _ hscope => ?_
    have hbody : Spares cell b (do
        noteCall ctx f scope
        block ctx (call ctx spare) scope .empty f.body) { o with frames := f.name :: o.frames }
        fun c s => c.SparedBy cell s := by
      have hentered : cell.Kept b { o with frames := f.name :: o.frames }.store := ho
      refine .bind (spares_note ctx hentered _) fun _ k hk hext' _ => ?_
      exact spares_block ih hk Completion.sparedBy_empty f.body (hscope.mono hext')
    exact .bind hbody.inFrame fun c k hk _ hc => spares_resultOf ctx hk p f hc

end TagScript.Eval
