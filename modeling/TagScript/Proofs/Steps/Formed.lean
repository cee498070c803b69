import TagScript.Proofs.Machine.Safe
import TagScript.Proofs.Steps.Extends

/-!
# Steps Keep a Run Well Formed

A moment of a run is well formed if the stored scopes are, and so is everything at hand: the values
in what is being done and in what waits for it, the arguments with their tracked tags, and the
scopes in which expressions are evaluated and statements run. Every step leads from a well-formed
moment to a well-formed one (`State.Formed.step`), whether it goes on, fails or faults, and so
does every run (`State.Formed.steps`). The statements of a script are run in its outermost scope,
which must be among those that are stored.
-/

namespace TagScript.Steps

open Eval (Completion Safe)

/-- A completion with a well-formed value. -/
def FormedCompletion (n : Nat) (c : Completion) : Prop :=
  ∀ v, c.value? = some v → v.Formed n

/-- The items of an array that are done, with their tag if there are any, are an array
themselves. -/
def FormedItems (n : Nat) (elem : Option Tag) (done : List Value) : Prop :=
  (Value.array (elem.getD .unknown) done).Formed n

/-- What waits is well formed among `n` stored scopes. -/
def Frame.Formed (n : Nat) : Frame → Prop
  | .item scope elem done _ _ => scope < n ∧ FormedItems n elem done
  | .arg scope _ f done _ => scope < n ∧ f.Formed n ∧ ∀ a ∈ done, a.Formed n
  | .right _ v _ => v.Formed n
  | .assign scope _ _ _ | .callee scope _ _ _ | .left scope _ _ _ | .declare scope _ _ _ _ _
  | .branch scope _ _ | .loop scope _ _ _ | .block scope _ | .pass scope _ _ _ _ => scope < n
  | _ => True

/-- What is being done is well formed among `n` stored scopes. -/
def Control.Formed (n : Nat) : Control → Prop
  | .items scope elem done _ => scope < n ∧ FormedItems n elem done
  | .args scope _ f done _ => scope < n ∧ f.Formed n ∧ ∀ a ∈ done, a.Formed n
  | .apply _ f done => f.Formed n ∧ ∀ a ∈ done, a.Formed n
  | .expr scope _ | .stmt scope _ | .passes scope _ _ _ _ => scope < n
  | .block scope last _ => scope < n ∧ FormedCompletion n last
  | .program last _ => ∀ v, last = some v → v.Formed n
  | .value v => v.Formed n
  | .completed c => FormedCompletion n c
  | .finished v => ∀ w, v = some w → w.Formed n
  | .stopped _ => True

/-- A well-formed moment of a run. -/
structure State.Formed (c : State) : Prop where
  /-- The stored scopes are well formed. -/
  store : c.machine.store.Formed
  /-- What is being done is. -/
  control : c.control.Formed c.machine.size
  /-- What waits for it is. -/
  stack : ∀ frame ∈ c.stack, frame.Formed c.machine.size

/-- A waiting operation stays well formed when scopes are opened. -/
theorem Frame.Formed.mono {n k : Nat} {frame : Frame} (h : frame.Formed n) (hk : n ≤ k) :
    frame.Formed k := by
  cases frame with
  | item => exact ⟨Nat.lt_of_lt_of_le h.1 hk, h.2.mono hk⟩
  | arg => exact ⟨Nat.lt_of_lt_of_le h.1 hk, h.2.1.mono hk, fun a ha => (h.2.2 a ha).mono hk⟩
  | right => exact Value.Formed.mono h hk
  | unary => trivial
  | step => trivial
  | ret => trivial
  | expr => trivial
  | body => trivial
  | program => trivial
  | _ => exact Nat.lt_of_lt_of_le h hk

theorem formedCompletion_empty (n : Nat) : FormedCompletion n .empty := by
  intro v hv
  cases hv

theorem formedCompletion_value {n : Nat} {v : Value} (hv : v.Formed n) :
    FormedCompletion n (.value v) := by
  rintro _ ⟨⟩
  exact hv

theorem formedCompletion_returning {n : Nat} {v : Value} (hv : v.Formed n) :
    FormedCompletion n (.returning v) := by
  rintro _ ⟨⟩
  exact hv

/-- One more item of the tag that the items are checked against, which is its own if it is the first
one. -/
theorem formedItems_append {n : Nat} {elem : Option Tag} {done : List Value} {v : Value}
    (hd : FormedItems n elem done) (hv : v.Formed n) (ht : v.tag = elem.getD v.tag) :
    FormedItems n (some (elem.getD v.tag)) (done ++ [v]) := by
  obtain - | - | - | - | - | - | - | - | ⟨_, _, hitems, htags, hunknown⟩ := hd
  have helem : ((some (elem.getD v.tag)).getD .unknown) = v.tag := ht.symm
  unfold FormedItems
  rw [helem]
  refine .array _ _ ?_ ?_ ?_
  · intro w hw
    rw [List.mem_append, List.mem_singleton] at hw
    obtain hw | rfl := hw
    · exact hitems w hw
    · exact hv
  · intro w hw
    rw [List.mem_append, List.mem_singleton] at hw
    obtain hw | rfl := hw
    · cases elem with
      | some want => exact (htags w hw).trans ht.symm
      | none =>
        -- without a tag there are no items yet
        rw [hunknown.mp rfl] at hw
        cases hw
    · rfl
  · refine iff_of_false v.tag_ne_void_unknown.2 ?_
    simp

/-- The arguments of a call with one more of them. -/
theorem formed_args_append {n : Nat} {done : List Arg} {a : Arg} (hd : ∀ b ∈ done, b.Formed n)
    (ha : a.Formed n) : ∀ b ∈ done ++ [a], b.Formed n := by
  intro b hb
  rw [List.mem_append, List.mem_singleton] at hb
  obtain hb | rfl := hb
  · exact hd b hb
  · exact ha

section Operations

variable {ctx : Context} {m : Machine} (hm : m.store.Formed) (p : Position)
include hm

/-- The scope of a call is a stored one once the call has been entered. -/
theorem safe_enter (f : Closure) (args : List Arg) (hf : f.scope < m.size)
    (ha : ∀ a ∈ args, a.Formed m.size) :
    Safe (enter ctx f args p) m fun scope n => scope < n := by
  refine .bind (Eval.safe_checkArity ctx hm p f args) fun _ n hn hle _ => ?_
  have hdepth : Safe (checkDepth ctx p) n fun _ _ => True :=
    .get_bind (.ite (fun _ => .fail hn) fun _ => .pure hn trivial)
  refine .bind hdepth fun _ n' hn' hle' _ => ?_
  have hle'' := Nat.le_trans hle hle'
  refine .bind (Eval.safe_openCall ctx hn' p f args (Nat.lt_of_lt_of_le hf hle'')
    fun a h => (ha a h).mono hle'') fun scope o ho _ hscope => ?_
  have hpush : Safe (pushFrame f.name) o fun _ n => scope < n := ⟨ho, Nat.le_refl _, hscope⟩
  refine .bind hpush fun _ o' ho' _ hscope' => ?_
  exact .bind (Eval.safe_note ctx ho' _) fun _ o'' ho'' hle _ =>
    .pure ho'' (Nat.lt_of_lt_of_le hscope' hle)

/-- A call is left with a well-formed result. -/
theorem safe_leave (f : Closure) {c : Completion} (hc : FormedCompletion m.size c) :
    Safe (leave ctx f p c) m fun v n => v.Formed n := by
  have hpop : Safe popFrame m fun _ n => FormedCompletion n c := ⟨hm, Nat.le_refl _, hc⟩
  exact .bind hpop fun _ n hn _ hc' => Eval.safe_resultOf ctx hn p f hc'

/-- The scope of a cursor is a stored one once the loop has been opened. -/
theorem safe_openLoop {scope : ScopeId} (cursor : String) (v : Value) (hs : scope < m.size) :
    Safe (openLoop ctx scope cursor p v) m fun opened n => opened.1 < n := by
  refine .bind (Eval.safe_loopRange ctx hm p v) fun r n hn hle _ => ?_
  refine .bind (Eval.safe_openScope hn .loop (Nat.lt_of_lt_of_le hs hle))
    fun outer o ho _ houter => ?_
  exact .bind (Eval.safe_define ho outer rfl (.int _)) fun _ o' ho' hle' _ =>
    .pure ho' (Nat.lt_of_lt_of_le houter hle')

end Operations

namespace State.Formed

variable {ctx : Context} {k : List Frame} {m : Machine} {scope : ScopeId}

/-- All waiting operations stay well formed when scopes are opened. -/
theorem stack_mono {n n' : Nat} (hk : ∀ frame ∈ k, frame.Formed n) (hle : n ≤ n') :
    ∀ frame ∈ k, frame.Formed n' :=
  fun frame h => (hk frame h).mono hle

/-- One more operation waits. -/
theorem stack_cons {n : Nat} {frame : Frame} (hf : frame.Formed n)
    (hk : ∀ frame ∈ k, frame.Formed n) : ∀ frame' ∈ frame :: k, frame'.Formed n := by
  intro frame' h
  rw [List.mem_cons] at h
  obtain rfl | h := h
  · exact hf
  · exact hk frame' h

/-- An operation that keeps the scopes well formed leads to a well-formed moment if what follows its
success does. -/
theorem proceed {α : Type} {x : Eval α} {Q : α → Nat → Prop} {next : α → Machine → State}
    (hk : ∀ frame ∈ k, frame.Formed m.size) (hx : Safe x m Q)
    (hnext : ∀ a n, n.store.Formed → m.size ≤ n.size → Q a n.size → (next a n).Formed) :
    (Steps.proceed x k m next).Formed := by
  unfold Safe at hx
  unfold Steps.proceed
  cases hr : x m with
  | ok a n =>
    rw [hr] at hx
    exact hnext a n hx.1 hx.2.1 hx.2.2
  | error s n =>
    rw [hr] at hx
    exact ⟨hx.1, trivial, stack_mono hk hx.2⟩

/-- An operation whose success gives what is done next. -/
theorem proceed_control {α : Type} {x : Eval α} {Q : α → Nat → Prop} {next : α → Control}
    (hk : ∀ frame ∈ k, frame.Formed m.size) (hx : Safe x m Q)
    (hnext : ∀ a n, m.size ≤ n → Q a n → (next a).Formed n) :
    (Steps.proceed x k m fun a m => ⟨next a, k, m⟩).Formed :=
  proceed hk hx fun a n hn hle hq => ⟨hn, hnext a n.size hle hq, stack_mono hk hle⟩

variable (hm : m.store.Formed) (hk : ∀ frame ∈ k, frame.Formed m.size)
include hm hk

/-- An expression that is begun leaves a well-formed state. -/
theorem startExpr (hs : scope < m.size) (e : Expr) : (startExpr ctx scope k m e).Formed := by
  cases e with
  | int p n => exact ⟨hm, .int n, hk⟩
  | float p x => exact ⟨hm, .float x, hk⟩
  | string p s => exact ⟨hm, .string s, hk⟩
  | bool p b => exact ⟨hm, .bool b, hk⟩
  | null p => exact ⟨hm, .null, hk⟩
  | array p es =>
    -- an array starts without items, and with an element tag that is unknown for that reason
    exact ⟨hm, ⟨hs, .array _ [] nofun nofun (iff_of_true rfl rfl)⟩, hk⟩
  | name p x =>
    exact proceed_control hk (Eval.safe_bindingOf ctx hm scope p x) fun b n _ hb => hb.2
  | assign p x e =>
    refine proceed hk (Eval.safe_requireDeclared ctx hm scope p x) fun _ n hn hle _ => ?_
    -- no scope is lost on the way, so the one of the assignment is still stored
    have hs' := Nat.lt_of_lt_of_le hs hle
    exact ⟨hn, hs', stack_cons hs' (stack_mono hk hle)⟩
  | call p callee es => exact ⟨hm, hs, stack_cons hs hk⟩
  | binary p l op r => exact ⟨hm, hs, stack_cons hs hk⟩
  | unary p op r => exact ⟨hm, hs, stack_cons trivial hk⟩
  | step p l op => exact ⟨hm, hs, stack_cons trivial hk⟩

/-- The next item of an array is begun, or the array is made of well-formed items. -/
theorem nextItem {elem : Option Tag} {done : List Value} (hs : scope < m.size)
    (hd : FormedItems m.size elem done) (es : List Expr) :
    (nextItem scope elem done k m es).Formed := by
  cases es with
  | nil => exact ⟨hm, hd, hk⟩
  | cons e rest => exact ⟨hm, hs, stack_cons ⟨hs, hd⟩ hk⟩

/-- The next argument is begun, or the call is made with well-formed arguments. -/
theorem nextArg {p : Position} {f : Value} {done : List Arg} (hs : scope < m.size)
    (hf : f.Formed m.size) (hd : ∀ a ∈ done, a.Formed m.size) (es : List Expr) :
    (nextArg ctx scope p f done k m es).Formed := by
  cases es with
  | nil => exact ⟨hm, ⟨hf, hd⟩, hk⟩
  | cons e rest =>
    cases e with
    | name q x =>
      exact proceed_control hk (Eval.safe_bindingOf ctx hm scope q x) fun b n hle hb =>
        ⟨Nat.lt_of_lt_of_le hs hle, hf.mono hle,
          formed_args_append (fun a h => (hd a h).mono hle) hb⟩
    | _ => exact ⟨hm, hs, stack_cons ⟨hs, hf, hd⟩ hk⟩

/-- A function is called in the scope in which it was declared, which is a stored one. -/
theorem startCall {p : Position} {f : Value} {args : List Arg} (hf : f.Formed m.size)
    (ha : ∀ a ∈ args, a.Formed m.size) : (startCall ctx p args k m f).Formed := by
  cases hf with
  | builtin b => exact proceed_control hk (Eval.safe_callBuiltin ctx hm p b ha) fun v n _ hv => hv
  -- the scope of a function lies inside the scope it was declared in
  | function g hg =>
    exact proceed hk (safe_enter hm p g args hg ha) fun scope n hn hle hs =>
      ⟨hn, ⟨hs, formedCompletion_empty _⟩, stack_cons trivial (stack_mono hk hle)⟩
  | _ => exact ⟨hm, trivial, hk⟩

/-- A statement that is begun leaves a well-formed state. -/
theorem startStmt (hs : scope < m.size) (s : Stmt) : (startStmt ctx scope k m s).Formed := by
  cases s with
  | declare p constant x type e => exact ⟨hm, hs, stack_cons hs hk⟩
  | function p x params returns body =>
    exact proceed_control hk (Eval.safe_declareFunction ctx hm scope p x params returns body hs)
      fun _ n _ _ => formedCompletion_empty n
  | ret p value =>
    cases value with
    | none => exact ⟨hm, formedCompletion_returning .null, hk⟩
    | some e => exact ⟨hm, hs, stack_cons trivial hk⟩
  | expr p e => exact ⟨hm, hs, stack_cons trivial hk⟩
  | branch p condition yes no => exact ⟨hm, hs, stack_cons hs hk⟩
  | loop p cursor e body => exact ⟨hm, hs, stack_cons hs hk⟩

/-- The next statement of a block is begun, or the block is completed. -/
theorem nextStmt (hs : scope < m.size) {last : Completion} (hl : FormedCompletion m.size last)
    (ss : List Stmt) : (nextStmt scope last k m ss).Formed := by
  cases ss with
  | nil => exact ⟨hm, hl, hk⟩
  | cons s rest => exact ⟨hm, hs, stack_cons hs hk⟩

/-- The next pass is begun, or the loop is completed. -/
theorem nextPass {cursor : String} {stride : Int64} {body : List Stmt} (hs : scope < m.size)
    (count : Nat) : (nextPass scope cursor stride body k m count).Formed := by
  cases count with
  | zero => exact ⟨hm, formedCompletion_empty _, hk⟩
  | succ n =>
    rw [Steps.nextPass]
    refine proceed hk (Eval.safe_openScope hm .block hs) fun inner n hn hle hi => ?_
    exact ⟨hn, ⟨hi, formedCompletion_empty _⟩,
      stack_cons (Nat.lt_of_lt_of_le hs hle) (stack_mono hk hle)⟩

/-- The next statement of a program is begun in the outermost scope, or the program has ended. -/
theorem nextTop {last : Option Value} (hg : ctx.global < m.size)
    (hl : ∀ v, last = some v → v.Formed m.size) (p : Program) :
    (nextTop ctx last k m p).Formed := by
  cases p with
  | nil => exact ⟨hm, hl, hk⟩
  | cons s rest =>
    exact proceed hk (Eval.safe_note ctx hm _) fun _ n hn hle _ =>
      ⟨hn, Nat.lt_of_lt_of_le hg hle, stack_cons trivial (stack_mono hk hle)⟩

/-- A part of a choice is begun in a scope of its own. -/
theorem startBranch (hs : scope < m.size) (body : Option (List Stmt)) :
    (startBranch scope k m body).Formed := by
  cases body with
  | none => exact ⟨hm, formedCompletion_empty _, hk⟩
  | some body =>
    rw [Steps.startBranch]
    exact proceed_control hk (Eval.safe_openScope hm .branch hs) fun inner n _ hi =>
      ⟨hi, formedCompletion_empty n⟩

/-- A value that is handed to the operation waiting for it leaves a well-formed state. -/
theorem resume {v : Value} {frame : Frame} {c : State} (hv : v.Formed m.size)
    (hf : frame.Formed m.size) (h : resume ctx v k m frame = some c) : c.Formed := by
  cases frame with
  | item scope elem done p rest =>
    cases h
    -- the item passed the check of its tag, which keeps the array homogeneous
    exact proceed_control hk (Eval.safe_checkItem ctx hm p _ v) fun _ n hle ht =>
      ⟨Nat.lt_of_lt_of_le hf.1 hle, formedItems_append (hf.2.mono hle) (hv.mono hle) ht⟩
  | assign scope p x valueAt =>
    cases h
    exact proceed_control hk (Eval.safe_assignValue ctx hm scope p x valueAt hv)
      fun _ n _ _ => .null
  | callee scope p calleeAt es =>
    cases h
    exact proceed_control hk (Eval.safe_checkCallable ctx hm calleeAt v) fun _ n hle _ =>
      ⟨Nat.lt_of_lt_of_le hf hle, hv.mono hle, by simp⟩
  | arg scope p f done rest =>
    cases h
    exact ⟨hm, ⟨hf.1, hf.2.1, formed_args_append hf.2.2 ⟨rfl, hv⟩⟩, hk⟩
  | left scope p op right =>
    cases h
    exact ⟨hm, hf, stack_cons hv hk⟩
  | right p left op =>
    cases h
    exact proceed_control hk (Eval.safe_accept ctx hm p fun u hu => BinaryOp.formed_apply hu)
      fun u n _ hu => hu
  | unary p op =>
    cases h
    exact proceed_control hk (Eval.safe_accept ctx hm p fun u hu => UnaryOp.formed_apply hu)
      fun u n _ hu => hu
  | step p op =>
    cases h
    exact proceed_control hk (Eval.safe_accept ctx hm p fun u hu => StepOp.formed_apply hu)
      fun u n _ hu => hu
  | declare scope p constant x type valueAt =>
    cases h
    exact proceed_control hk (Eval.safe_declareValue ctx hm scope p constant x type valueAt hv)
      fun _ n _ _ => formedCompletion_empty n
  | ret =>
    cases h
    exact ⟨hm, formedCompletion_returning hv, hk⟩
  | expr isAssign =>
    cases h
    refine ⟨hm, ?_, hk⟩
    cases isAssign with
    | true => exact formedCompletion_empty _
    | false => exact formedCompletion_value hv
  | branch scope yes no =>
    cases h
    exact startBranch hm hk hf _
  | loop scope cursor rangeAt body =>
    cases h
    exact proceed_control hk (safe_openLoop hm rangeAt cursor v hf) fun opened n _ ho => ho
  | _ => cases h

/-- A statement that completes leaves a well-formed state to the operation around it. -/
theorem complete {done : Completion} {frame : Frame} {c : State}
    (hd : FormedCompletion m.size done) (hf : frame.Formed m.size)
    (h : complete ctx done k m frame = some c) : c.Formed := by
  cases frame with
  | block scope rest =>
    cases done with
    | returning v =>
      cases h
      exact ⟨hm, hd, hk⟩
    | _ =>
      cases h
      exact ⟨hm, ⟨hf, hd⟩, hk⟩
  | pass outer cursor stride body count =>
    cases done with
    | returning v =>
      cases h
      exact ⟨hm, hd, hk⟩
    | _ =>
      cases h
      exact proceed_control hk (Eval.safe_moveCursor hm outer cursor stride) fun _ n hle _ =>
        Nat.lt_of_lt_of_le hf hle
  | body f p =>
    cases h
    exact proceed_control hk (safe_leave hm p f hd) fun v n _ hv => hv
  | program rest =>
    cases done with
    | empty =>
      cases h
      exact ⟨hm, by rintro _ ⟨⟩, hk⟩
    | _ =>
      cases h
      exact ⟨hm, hd, hk⟩
  | _ => cases h

/-- A stop passes through whatever waits. -/
theorem unwind (s : Stop) (frame : Frame) : (unwind s k m frame).Formed := by
  cases frame <;> exact ⟨hm, trivial, hk⟩

omit hm hk in
/-- A step leads from a well-formed moment to a well-formed one. -/
theorem step {c d : State} (hg : ctx.global < c.machine.size) (hc : c.Formed)
    (h : step ctx c = some d) : d.Formed := by
  -- one case for each thing that can be being done, as `step` has them
  obtain ⟨control, k, m⟩ := c
  obtain ⟨hm, hcontrol, hk⟩ := hc
  cases control with
  | expr scope e =>
    cases h
    exact startExpr hm hk hcontrol e
  | items scope elem done es =>
    cases h
    exact nextItem hm hk hcontrol.1 hcontrol.2 es
  | args scope p f done es =>
    cases h
    exact nextArg hm hk hcontrol.1 hcontrol.2.1 hcontrol.2.2 es
  | apply p f args =>
    cases h
    exact startCall hm hk hcontrol.1 hcontrol.2
  | stmt scope s =>
    cases h
    exact startStmt hm hk hcontrol s
  | block scope last ss =>
    cases h
    exact nextStmt hm hk hcontrol.1 hcontrol.2 ss
  | passes outer cursor stride body n =>
    cases h
    exact nextPass hm hk hcontrol n
  | program last ss =>
    cases h
    exact nextTop hm hk hg hcontrol ss
  | value v =>
    cases k with
    | nil => cases h
    | cons frame k =>
      exact resume hm (fun f hf => hk f (by simp [hf])) hcontrol (hk frame (by simp)) h
  | completed done =>
    cases k with
    | nil => cases h
    | cons frame k =>
      exact complete hm (fun f hf => hk f (by simp [hf])) hcontrol (hk frame (by simp)) h
  | finished v => cases h
  | stopped s =>
    cases k with
    | nil => cases h
    | cons frame k =>
      cases h
      exact unwind hm (fun f hf => hk f (by simp [hf])) s frame

omit hm hk in
/-- A run leads from a well-formed moment to well-formed ones. -/
theorem steps {c d : State} (hg : ctx.global < c.machine.size) (hc : c.Formed)
    (h : Reaches ctx c d) : d.Formed := by
  induction h with
  | refl => exact hc
  | tail hreach hstep ih =>
    -- no scope is lost on the way, so the outermost one is still stored
    exact ih.step (Nat.lt_of_lt_of_le hg (steps_grows hreach).kept.size_le) hstep

end State.Formed

end TagScript.Steps
